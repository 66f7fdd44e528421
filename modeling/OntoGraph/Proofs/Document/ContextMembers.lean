import OntoGraph.Proofs.Document.ContextReading
import OntoGraph.Proofs.Json.Normal

/-!
# The members of a context document

A document holds a context as its `@context`, or it is a context itself. In a document in normal
form the members of the context have different keys, in order. So each key states one namespace or
one term, and the context finds under every IRI a term that stands for it.
-/

namespace OntoGraph.Json

/-! ## Normal forms -/

theorem exists_of_mem_normalizeMembers? {depth : Nat} {members normal : List (String × Json)}
    (h : normalizeMembers? depth members = some normal) :
    ∀ member ∈ normal, ∃ source, normalizeWithin? depth source = some member.2 := by
  induction members generalizing normal with
  | nil =>
    rw [normalizeMembers?] at h
    cases h
    rintro _ ⟨⟩
  | cons first members ih =>
    rw [normalizeMembers?] at h
    obtain ⟨value, hvalue, h⟩ := Option.bind_eq_some_iff.1 h
    obtain ⟨rest, hrest, h⟩ := Option.bind_eq_some_iff.1 h
    cases h
    exact List.forall_mem_cons.2 ⟨⟨_, hvalue⟩, ih hrest⟩

/-- The members of an object in normal form are in order, and in normal form themselves. -/
theorem members_of_normalizeWithin? {depth : Nat} {source : Json} {members : List (String × Json)}
    (h : normalizeWithin? depth source = some (.object members)) :
    members.Pairwise (fun a b ↦ a.1 < b.1) ∧
      ∀ member ∈ members, ∃ depth source, normalizeWithin? depth source = some member.2 := by
  cases source with
  | object sourceMembers =>
    cases depth with
    | zero =>
      rw [normalizeWithin?] at h
      cases h
    | succ depth =>
      rw [normalizeWithin?] at h
      obtain ⟨normal, hnormal, h⟩ := Option.map_eq_some_iff.1 h
      rw [ofMembers_eq] at h
      cases h
      refine ⟨(SortedMap.ofList normal).sorted, fun member hmember ↦ ?_⟩
      exact ⟨depth, exists_of_mem_normalizeMembers? hnormal member (SortedMap.mem_ofList hmember)⟩
  | array items => cases depth <;> simp [normalizeWithin?] at h
  | _ => simp [normalizeWithin?] at h

end OntoGraph.Json

namespace OntoGraph.Document.TermContext

/-- The members of the context that a document holds. -/
def contextMembers? (document : Json) : Option (List (String × Json)) :=
  match document.member? "@context" with
  | some (.object members) => some members
  | some _ => none
  | none => document.members?

theorem ofJson_eq_ok_iff {document : Json} {c : TermContext} :
    ofJson document = .ok c ↔
      ∃ members, contextMembers? document = some members ∧ ofMembers members = .ok c := by
  unfold ofJson contextMembers?
  cases hcontext : document.member? "@context" with
  | some context => cases context <;> simp
  | none => cases document <;> simp [Json.members?]

/-- Are the members of the context in the order of their keys? -/
def ContextInOrder (document : Json) : Prop :=
  ∀ members, contextMembers? document = some members → members.Pairwise fun a b ↦ a.1 < b.1

/-- In a document in normal form they are. -/
theorem contextInOrder_of_normalize? {source document : Json}
    (h : source.normalize? = some document) : ContextInOrder document := by
  intro members hmembers
  unfold contextMembers? at hmembers
  cases hcontext : document.member? "@context" with
  | some context =>
    rw [hcontext] at hmembers
    cases context with
    | object inner =>
      cases hmembers
      cases document with
      | object outer =>
        have hmem : ("@context", Json.object members) ∈ outer := by
          have houter := (Json.members_of_normalizeWithin? h).1
          exact (SortedMap.lookup_eq_some_iff houter).1 hcontext
        obtain ⟨depth, source, hsource⟩ := (Json.members_of_normalizeWithin? h).2 _ hmem
        exact (Json.members_of_normalizeWithin? hsource).1
      | _ => cases hcontext
    | _ => cases hmembers
  | none =>
    rw [hcontext] at hmembers
    cases document with
    | object outer =>
      cases hmembers
      exact (Json.members_of_normalizeWithin? h).1
    | _ => cases hmembers

/-! ## The index -/

/-- Is there a term under each IRI that terms stand for, and does it stand for that IRI? -/
structure Indexes (c : TermContext) : Prop where
  term : ∀ iri term, c.termsByIri.get? iri = some term →
    ∃ definition, c.term? term = some definition ∧ definition.iri = iri
  known : ∀ term definition, c.term? term = some definition →
    (c.termsByIri.get? definition.iri).isSome = true

theorem Indexes.withDefinition {c : TermContext} (h : Indexes c) {key : String}
    (hkey : c.term? key = none) (definition : Option TermDefinition) :
    Indexes (c.withDefinition key definition) := by
  cases definition with
  | none => exact h
  | some definition =>
    have hterm := term?_withDefinition hkey (some definition)
    have hold : ∀ term held, c.term? term = some held →
        (c.withDefinition key (some definition)).term? term = some held := by
      intro term held hheld
      rw [hterm, if_neg, hheld]
      rintro rfl
      rw [hkey] at hheld
      cases hheld
    have hindex : ∀ iri, (c.withDefinition key (some definition)).termsByIri.get? iri = _ :=
      SortedMap.get?_insertIfNew c.termsByIri definition.iri key
    constructor
    case term =>
      intro iri term hget
      rw [hindex] at hget
      split_ifs at hget with heq
      · subst heq
        cases hheld : c.termsByIri.get? definition.iri with
        | none =>
          rw [hheld, Option.getD_none] at hget
          cases hget
          exact ⟨definition, (hterm key).trans (if_pos rfl), rfl⟩
        | some held =>
          rw [hheld, Option.getD_some] at hget
          cases hget
          obtain ⟨earlier, hearlier, hiri⟩ := h.term _ _ hheld
          exact ⟨earlier, hold _ _ hearlier, hiri⟩
      · obtain ⟨earlier, hearlier, hiri⟩ := h.term _ _ hget
        exact ⟨earlier, hold _ _ hearlier, hiri⟩
    case known =>
      intro term held hheld
      rw [hterm] at hheld
      rw [hindex]
      split_ifs with hiri
      · rfl
      · split_ifs at hheld with hterm
        · cases hheld
          exact absurd rfl hiri
        · exact h.known term held hheld

theorem indexes_of_readTerms {members : List (String × Json)} {start c : TermContext}
    (hsorted : members.Pairwise fun a b ↦ a.1 < b.1) (hterms : start.terms = ∅)
    (hindex : start.termsByIri = ∅) (h : start.readTerms members = .ok c) : Indexes c := by
  induction members using List.reverseRecOn generalizing c with
  | nil =>
    cases h
    constructor
    · intro iri term hget
      rw [hindex] at hget
      cases hget
    · intro term definition hterm
      rw [term?, hterms] at hterm
      cases hterm
  | append_singleton members pair ih =>
    obtain ⟨hmembers, -, hlast⟩ := List.pairwise_append.1 hsorted
    rw [readTerms_concat] at h
    obtain ⟨d, hd, hmap⟩ := Fallible.bind_eq_ok.1 h
    obtain ⟨definition, -, rfl⟩ := Fallible.map_eq_ok.1 hmap
    obtain ⟨-, -, honly⟩ := reads_of_readTerms hmembers hterms hd
    apply (ih hmembers hd).withDefinition
    apply honly
    intro other hother heq
    exact String.lt_irrefl _ (heq ▸ hlast other hother pair List.mem_cons_self)

@[simp] theorem termsByIri_readNamespaces (c : TermContext) (members : List (String × Json)) :
    (c.readNamespaces members).termsByIri = c.termsByIri := by
  induction members generalizing c with
  | nil => rfl
  | cons pair members ih =>
    rw [readNamespaces, List.foldl_cons, ← readNamespaces, ih]
    unfold readNamespace
    split
    · split_ifs <;> rfl
    · rfl

/-! ## What is read -/

/-- What a context has from the members that it was read from. -/
structure ReadFrom (members : List (String × Json)) (c : TermContext) : Prop where
  namespaces : ∀ key text, c.namespaces.get? key = some text ↔
    (key, Json.string text) ∈ members ∧ IsNamespaceMember key text
  terms : Reads members c
  index : Indexes c

theorem readFrom_of_ofJson {document : Json} {members : List (String × Json)} {c : TermContext}
    (horder : ContextInOrder document) (hmembers : contextMembers? document = some members)
    (h : ofJson document = .ok c) : ReadFrom members c := by
  have hsorted := horder members hmembers
  obtain ⟨_, hmembers', hread⟩ := ofJson_eq_ok_iff.1 h
  cases hmembers.symm.trans hmembers'
  rw [ofMembers_eq] at hread
  have htakes := takes_readNamespaces hsorted (some (.object [("@context", .object members)]))
  obtain ⟨hframe, hreads, -⟩ := reads_of_readTerms hsorted htakes.terms hread
  refine ⟨fun key text ↦ ?_, hreads, ?_⟩
  · rw [hframe.namespaces]
    exact htakes.namespaces key text
  · apply indexes_of_readTerms hsorted htakes.terms _ hread
    exact termsByIri_readNamespaces _ _

/-- A context that was read from a text has what the members in its document state. -/
theorem exists_readFrom_of_read {text : String} {c : TermContext} (h : read text = .ok c) :
    ∃ document members, Json.readDocument? text = some document ∧
      contextMembers? document = some members ∧ ReadFrom members c := by
  unfold read at h
  cases hdocument : Json.readDocument? text with
  | none =>
    rw [hdocument] at h
    cases h
  | some document =>
    rw [hdocument] at h
    obtain ⟨source, -, hnormal⟩ := Option.bind_eq_some_iff.1 hdocument
    obtain ⟨members, hmembers, -⟩ := ofJson_eq_ok_iff.1 h
    exact ⟨document, members, rfl, hmembers,
      readFrom_of_ofJson (contextInOrder_of_normalize? hnormal) hmembers h⟩

end OntoGraph.Document.TermContext
