import OntoGraph.Proofs.Document.ShortNames
import OntoGraph.Proofs.Fallible

/-!
# What is read from a context document

A context document is walked over twice. The first walk takes the namespaces and the aliases. The
second one takes the terms, and each term is read with the namespaces and the terms before it.
-/

namespace OntoGraph.Document.TermContext

/-! ## The first walk -/

/-- Does the text start like a keyword? -/
def IsKeyword (text : String) : Prop := text.startsWith "@" = true

theorem isKeyword_iff {text : String} : IsKeyword text ↔ "@".toList <+: text.toList :=
  String.startsWith_string_iff

/-- Is a member of a context document, with a text as its value, a namespace? -/
def IsNamespaceMember (key text : String) : Prop :=
  ¬ IsKeyword key ∧ ':' ∉ key.toList ∧ isNamespace text = true

theorem not_isNamespaceMember_vocab (text : String) : ¬ IsNamespaceMember "@vocab" text :=
  fun h ↦ h.1 (isKeyword_iff.2 (by decide))

theorem not_isNamespaceMember_id (key : String) : ¬ IsNamespaceMember key "@id" :=
  fun h ↦ absurd (isNamespace_iff.1 h.2.2) (by decide)

theorem not_isNamespaceMember_type (key : String) : ¬ IsNamespaceMember key "@type" :=
  fun h ↦ absurd (isNamespace_iff.1 h.2.2) (by decide)

/-- A context after the first walk over some members. -/
def readNamespaces (c : TermContext) (members : List (String × Json)) : TermContext :=
  members.foldl (fun c pair ↦ c.readNamespace pair.1 pair.2) c

/-- What the first walk over some members takes. -/
structure Takes (members : List (String × Json)) (c : TermContext) : Prop where
  terms : c.terms = ∅
  namespaces : ∀ key text, c.namespaces.get? key = some text ↔
    (key, Json.string text) ∈ members ∧ IsNamespaceMember key text
  vocab : ∀ text, c.vocab = some text → ("@vocab", Json.string text) ∈ members
  idAlias : ∀ key, c.idAlias = some key → (key, Json.string "@id") ∈ members
  idAlias_ne : ∀ key, key ≠ "@vocab" → (key, Json.string "@id") ∈ members → c.idAlias ≠ none
  typeAlias : ∀ key, c.typeAlias = some key → (key, Json.string "@type") ∈ members
  typeAlias_ne : ∀ key, key ≠ "@vocab" → (key, Json.string "@type") ∈ members → c.typeAlias ≠ none

theorem readNamespace_eq_self {c : TermContext} {key : String} {entry : Json}
    (h : ∀ text, entry ≠ .string text) : c.readNamespace key entry = c := by
  cases entry with
  | string text => exact absurd rfl (h text)
  | _ => rfl

theorem readNamespace_string (c : TermContext) (key text : String) :
    (key = "@vocab" ∧ c.readNamespace key (.string text) = { c with vocab := some text }) ∨
      (key ≠ "@vocab" ∧ text = "@id" ∧
        c.readNamespace key (.string text) = { c with idAlias := some key }) ∨
      (key ≠ "@vocab" ∧ text = "@type" ∧
        c.readNamespace key (.string text) = { c with typeAlias := some key }) ∨
      (key ≠ "@vocab" ∧ text ≠ "@id" ∧ text ≠ "@type" ∧ IsNamespaceMember key text ∧
        c.readNamespace key (.string text) =
          { c with namespaces := c.namespaces.insert key text }) ∨
      (key ≠ "@vocab" ∧ text ≠ "@id" ∧ text ≠ "@type" ∧ ¬ IsNamespaceMember key text ∧
        c.readNamespace key (.string text) = c) := by
  have hmember : (!key.startsWith "@" && !key.toList.contains ':' && isNamespace text) = true ↔
      IsNamespaceMember key text := by
    rw [IsNamespaceMember, IsKeyword, Bool.and_eq_true, Bool.and_eq_true, Bool.not_eq_true',
      ← Bool.not_eq_true, Bool.not_eq_true', List.contains_eq_mem, decide_eq_false_iff_not, and_assoc]
  by_cases hvocab : key = "@vocab"
  · exact .inl ⟨hvocab, by simp [readNamespace, hvocab]⟩
  by_cases hid : text = "@id"
  · exact .inr (.inl ⟨hvocab, hid, by simp [readNamespace, hvocab, hid]⟩)
  by_cases htype : text = "@type"
  · exact .inr (.inr (.inl ⟨hvocab, htype, by simp [readNamespace, hvocab, htype]⟩))
  by_cases h : IsNamespaceMember key text
  · refine .inr (.inr (.inr (.inl ⟨hvocab, hid, htype, h, ?_⟩)))
    rw [readNamespace, if_neg hvocab, if_neg hid, if_neg htype, if_pos (hmember.2 h)]
  · refine .inr (.inr (.inr (.inr ⟨hvocab, hid, htype, h, ?_⟩)))
    rw [readNamespace, if_neg hvocab, if_neg hid, if_neg htype, if_neg (mt hmember.1 h)]

section ReadNamespace

variable (c : TermContext) (key text : String)

@[simp]
theorem terms_readNamespace (entry : Json) : (c.readNamespace key entry).terms = c.terms := by
  cases entry with
  | string text =>
    rcases readNamespace_string c key text with
      ⟨-, heq⟩ | ⟨-, -, heq⟩ | ⟨-, -, heq⟩ | ⟨-, -, -, -, heq⟩ | ⟨-, -, -, -, heq⟩ <;>
      rw [heq]
  | _ => rfl

@[simp] theorem vocab_readNamespace : (c.readNamespace key (.string text)).vocab =
    if key = "@vocab" then some text else c.vocab := by
  rcases readNamespace_string c key text with
    ⟨hkey, heq⟩ | ⟨hkey, -, heq⟩ | ⟨hkey, -, heq⟩ | ⟨hkey, -, -, -, heq⟩ | ⟨hkey, -, -, -, heq⟩ <;>
    rw [heq] <;> simp [hkey]

theorem idAlias_readNamespace : (c.readNamespace key (.string text)).idAlias =
    if key ≠ "@vocab" ∧ text = "@id" then some key else c.idAlias := by
  rcases readNamespace_string c key text with
    ⟨hkey, heq⟩ | ⟨hkey, hid, heq⟩ | ⟨hkey, htype, heq⟩ | ⟨hkey, hid, -, -, heq⟩ |
      ⟨hkey, hid, -, -, heq⟩ <;>
    rw [heq] <;> simp [*]

theorem typeAlias_readNamespace : (c.readNamespace key (.string text)).typeAlias =
    if key ≠ "@vocab" ∧ text = "@type" then some key else c.typeAlias := by
  rcases readNamespace_string c key text with
    ⟨hkey, heq⟩ | ⟨hkey, hid, heq⟩ | ⟨hkey, htype, heq⟩ | ⟨hkey, -, htype, -, heq⟩ |
      ⟨hkey, -, htype, -, heq⟩ <;>
    rw [heq] <;> simp [*]

/-- A member that looks like a namespace is one: neither its key nor its text has another use. -/
theorem get?_namespaces_readNamespace_iff {other held : String} :
    (c.readNamespace key (.string text)).namespaces.get? other = some held ↔
      (IsNamespaceMember key text ∧ other = key ∧ held = text) ∨
        (¬(IsNamespaceMember key text ∧ other = key) ∧ c.namespaces.get? other = some held) := by
  rcases readNamespace_string c key text with
    ⟨rfl, heq⟩ | ⟨-, rfl, heq⟩ | ⟨-, rfl, heq⟩ | ⟨-, -, -, hmember, heq⟩ | ⟨-, -, -, hnot, heq⟩
  · simp [heq, not_isNamespaceMember_vocab]
  · simp [heq, not_isNamespaceMember_id]
  · simp [heq, not_isNamespaceMember_type]
  · rw [heq, SortedMap.get?_insert]
    by_cases hother : other = key <;> simp [hmember, hother, eq_comm]
  · simp [heq, hnot]

end ReadNamespace

theorem takes_nil (source : Option Json) : Takes [] { source } where
  terms := rfl
  namespaces := by simp
  vocab := by simp
  idAlias := by simp
  idAlias_ne := by simp
  typeAlias := by simp
  typeAlias_ne := by simp

section Alias

variable {members : List (String × Json)} {key text keyword other : String} {held : Option String}

theorem mem_concat_string_iff {value : String} :
    (other, Json.string value) ∈ members ++ [(key, Json.string text)] ↔
      (other, Json.string value) ∈ members ∨ (other = key ∧ value = text) := by
  simp

/-- The alias of a keyword is a key that has the keyword as its text. -/
theorem alias_concat (h : ∀ key, held = some key → (key, Json.string keyword) ∈ members)
    (hother : (if key ≠ "@vocab" ∧ text = keyword then some key else held) = some other) :
    (other, Json.string keyword) ∈ members ++ [(key, Json.string text)] := by
  rw [mem_concat_string_iff]
  by_cases htext : key ≠ "@vocab" ∧ text = keyword
  · rw [if_pos htext] at hother
    exact .inr ⟨(Option.some.inj hother).symm, htext.2.symm⟩
  · rw [if_neg htext] at hother
    exact .inl (h other hother)

theorem alias_concat_ne
    (h : ∀ key, key ≠ "@vocab" → (key, Json.string keyword) ∈ members → held ≠ none)
    (hne : other ≠ "@vocab")
    (hother : (other, Json.string keyword) ∈ members ++ [(key, Json.string text)]) :
    (if key ≠ "@vocab" ∧ text = keyword then some key else held) ≠ none := by
  split_ifs with halias
  · exact Option.some_ne_none _
  · rcases mem_concat_string_iff.1 hother with hmem | ⟨rfl, rfl⟩
    · exact h other hne hmem
    · exact absurd ⟨hne, rfl⟩ halias

end Alias

/-- A text more, with a key of its own. -/
theorem Takes.concat_string {members : List (String × Json)} {c : TermContext}
    (h : Takes members c) {key : String} (text : String) (hkey : ∀ pair ∈ members, pair.1 ≠ key) :
    Takes (members ++ [(key, .string text)]) (c.readNamespace key (.string text)) := by
  constructor
  case terms => rw [terms_readNamespace, h.terms]
  case namespaces =>
    intro other held
    rw [get?_namespaces_readNamespace_iff, mem_concat_string_iff, h.namespaces]
    constructor
    · rintro (⟨hmember, rfl, rfl⟩ | ⟨-, hheld, hmember⟩)
      · exact ⟨.inr ⟨rfl, rfl⟩, hmember⟩
      · exact ⟨.inl hheld, hmember⟩
    · rintro ⟨hheld | ⟨rfl, rfl⟩, hmember⟩
      · exact .inr ⟨fun hsame ↦ hkey _ hheld hsame.2, hheld, hmember⟩
      · exact .inl ⟨hmember, rfl, rfl⟩
  case vocab =>
    intro held hheld
    rw [vocab_readNamespace] at hheld
    rw [mem_concat_string_iff]
    by_cases hvocab : key = "@vocab"
    · rw [if_pos hvocab] at hheld
      exact .inr ⟨hvocab.symm, (Option.some.inj hheld).symm⟩
    · rw [if_neg hvocab] at hheld
      exact .inl (h.vocab held hheld)
  case idAlias =>
    intro other hother
    rw [idAlias_readNamespace] at hother
    exact alias_concat h.idAlias hother
  case idAlias_ne =>
    intro other hne hother
    rw [idAlias_readNamespace]
    exact alias_concat_ne h.idAlias_ne hne hother
  case typeAlias =>
    intro other hother
    rw [typeAlias_readNamespace] at hother
    exact alias_concat h.typeAlias hother
  case typeAlias_ne =>
    intro other hne hother
    rw [typeAlias_readNamespace]
    exact alias_concat_ne h.typeAlias_ne hne hother

/-- A member more, with a key of its own. -/
theorem Takes.concat {members : List (String × Json)} {c : TermContext} (h : Takes members c)
    {key : String} {entry : Json} (hkey : ∀ pair ∈ members, pair.1 ≠ key) :
    Takes (members ++ [(key, entry)]) (c.readNamespace key entry) := by
  by_cases hstring : ∃ text, entry = .string text
  · obtain ⟨text, rfl⟩ := hstring
    exact h.concat_string text hkey
  · rw [readNamespace_eq_self fun text htext ↦ hstring ⟨text, htext⟩]
    have hmem : ∀ other held, (other, Json.string held) ∈ members ++ [(key, entry)] ↔
        (other, Json.string held) ∈ members := by
      intro other held
      simp only [List.mem_append, List.mem_singleton, or_iff_left_iff_imp]
      intro heq
      exact absurd ⟨held, (congrArg Prod.snd heq).symm⟩ hstring
    obtain ⟨terms, namespaces, vocab, idAlias, idAlias_ne, typeAlias, typeAlias_ne⟩ := h
    refine ⟨terms, ?_, ?_, ?_, ?_, ?_, ?_⟩ <;> simpa only [hmem]

/-- The first walk over members with increasing keys. -/
theorem takes_readNamespaces {members : List (String × Json)}
    (h : members.Pairwise fun a b ↦ a.1 < b.1) (source : Option Json) :
    Takes members (readNamespaces { source } members) := by
  induction members using List.reverseRecOn with
  | nil => exact takes_nil source
  | append_singleton members pair ih =>
    obtain ⟨hmembers, -, hpair⟩ := List.pairwise_append.1 h
    rw [readNamespaces, List.foldl_concat]
    refine (ih hmembers).concat fun other hother heq ↦ ?_
    exact String.lt_irrefl _ (heq ▸ hpair other hother pair List.mem_cons_self)

/-! ## The second walk -/

def readTerms (c : TermContext) (members : List (String × Json)) :
    Except ContextError TermContext :=
  members.foldlM (fun (c : TermContext) pair ↦ c.readTerm pair.1 pair.2) c

theorem ofMembers_eq (members : List (String × Json)) :
    ofMembers members =
      (readNamespaces { source := some (.object [("@context", .object members)]) }
        members).readTerms members := rfl

def definitionAt (c : TermContext) (key : String) (entry : Json) :
    Except ContextError (Option TermDefinition) :=
  if key.startsWith "@" || c.namespaces.contains key then .ok none
  else
    match entry with
    | .string text => .ok (if text.startsWith "@" then none else some { iri := c.expandIri text })
    | .object _ => (c.readDefinition key entry).map some
    | _ => .ok none

def withDefinition (c : TermContext) (key : String) : Option TermDefinition → TermContext
  | some definition => c.define key definition
  | none => c

theorem readTerm_eq (c : TermContext) (key : String) (entry : Json) :
    c.readTerm key entry = (c.definitionAt key entry).map (c.withDefinition key) := by
  unfold readTerm definitionAt
  split
  · rfl
  · cases entry with
    | string text =>
      dsimp only
      split <;> rfl
    | object members =>
      dsimp only
      cases c.readDefinition key (.object members) <;> rfl
    | _ => rfl

theorem term?_withDefinition {c : TermContext} {key : String} (hkey : c.term? key = none)
    (definition : Option TermDefinition) (other : String) :
    (c.withDefinition key definition).term? other =
      if other = key then definition else c.term? other := by
  cases definition with
  | none =>
    by_cases h : other = key
    · rw [if_pos h, h]
      exact hkey
    · rw [if_neg h]
      rfl
  | some definition =>
    have hterm := SortedMap.get?_insertIfNew c.terms key definition other
    rw [show c.terms.get? key = none from hkey] at hterm
    exact hterm

/-- Two contexts with the same namespaces, vocabulary and keys. -/
structure SameFrame (c d : TermContext) : Prop where
  namespaces : d.namespaces = c.namespaces
  vocab : d.vocab = c.vocab
  idAlias : d.idAlias = c.idAlias
  typeAlias : d.typeAlias = c.typeAlias

theorem SameFrame.refl (c : TermContext) : SameFrame c c := ⟨rfl, rfl, rfl, rfl⟩

theorem SameFrame.symm {c d : TermContext} (h : SameFrame c d) : SameFrame d c :=
  ⟨h.namespaces.symm, h.vocab.symm, h.idAlias.symm, h.typeAlias.symm⟩

theorem SameFrame.trans {c d e : TermContext} (h : SameFrame c d) (h' : SameFrame d e) :
    SameFrame c e :=
  ⟨h'.namespaces.trans h.namespaces, h'.vocab.trans h.vocab, h'.idAlias.trans h.idAlias,
    h'.typeAlias.trans h.typeAlias⟩

theorem sameFrame_withDefinition (c : TermContext) (key : String)
    (definition : Option TermDefinition) : SameFrame c (c.withDefinition key definition) := by
  cases definition <;> exact ⟨rfl, rfl, rfl, rfl⟩

/-- Of the terms, only the one with the name itself has a part in what the name stands for. -/
theorem SameFrame.expandIri_of_term? {c d : TermContext} (h : SameFrame c d) {name : String}
    (hterm : d.term? name = c.term? name) : d.expandIri name = c.expandIri name := by
  unfold TermContext.expandIri
  rw [hterm, h.namespaces, h.vocab]

theorem SameFrame.expandIri {c d : TermContext} (h : SameFrame c d) (hterms : d.terms = c.terms)
    (name : String) : d.expandIri name = c.expandIri name := by
  apply h.expandIri_of_term?
  rw [TermContext.term?, hterms, TermContext.term?]

/-- How a member is read depends on the terms and the frame. -/
theorem SameFrame.definitionAt {c d : TermContext} (h : SameFrame c d) (hterms : d.terms = c.terms)
    (key : String) (entry : Json) : d.definitionAt key entry = c.definitionAt key entry := by
  have hexpand : d.expandIri = c.expandIri := funext (h.expandIri hterms)
  have hcoercion : d.readCoercion key = c.readCoercion key := by
    funext type
    unfold readCoercion
    rw [hexpand]
  unfold TermContext.definitionAt readDefinition
  rw [h.namespaces, hexpand, hcoercion]

/-- A context with only the terms before a key. -/
def before (c : TermContext) (key : String) : TermContext :=
  { c with terms := ⟨c.terms.toList.filter (·.1 < key), c.terms.sorted.filter _⟩ }

theorem sameFrame_before (c : TermContext) (key : String) : SameFrame (c.before key) c :=
  ⟨rfl, rfl, rfl, rfl⟩

theorem SameFrame.before {c d : TermContext} (h : SameFrame c d) (key : String) :
    SameFrame (c.before key) (d.before key) :=
  ⟨h.namespaces, h.vocab, h.idAlias, h.typeAlias⟩

@[simp] theorem term?_before (c : TermContext) (key other : String) :
    (c.before key).term? other = if other < key then c.term? other else none := by
  have hmem : ∀ definition, (c.before key).term? other = some definition ↔
      c.term? other = some definition ∧ other < key := by
    intro definition
    rw [term?, term?, SortedMap.get?_eq_some_iff, SortedMap.get?_eq_some_iff]
    simp [before]
  ext definition
  rw [hmem]
  by_cases h : other < key <;> simp [h]

theorem terms_eq_of_term? {c d : TermContext} (h : ∀ term, d.term? term = c.term? term) :
    d.terms = c.terms := SortedMap.ext_get? h

/-- Does each member state the term that the context has for it, read with the terms before it? -/
def Reads (members : List (String × Json)) (c : TermContext) : Prop :=
  ∀ pair ∈ members, (c.before pair.1).definitionAt pair.1 pair.2 = .ok (c.term? pair.1)

/-- Does the context define only keys of the members? -/
def DefinesOnly (members : List (String × Json)) (c : TermContext) : Prop :=
  ∀ key, (∀ pair ∈ members, pair.1 ≠ key) → c.term? key = none

section SecondWalk

variable {members : List (String × Json)} {start : TermContext}

theorem readTerms_concat (pair : String × Json) :
    start.readTerms (members ++ [pair]) =
      start.readTerms members >>= fun c ↦
        (c.definitionAt pair.1 pair.2).map (c.withDefinition pair.1) := by
  rw [readTerms, List.foldlM_append]
  congr 1
  funext c
  rw [← readTerm_eq, List.foldlM_cons]
  cases c.readTerm pair.1 pair.2 <;> rfl

/-- The second walk reads each member with the terms before it. -/
theorem reads_of_readTerms (hsorted : members.Pairwise fun a b ↦ a.1 < b.1)
    (hstart : start.terms = ∅) {c : TermContext}
    (h : start.readTerms members = .ok c) :
    SameFrame start c ∧ Reads members c ∧ DefinesOnly members c := by
  induction members using List.reverseRecOn generalizing c with
  | nil =>
    cases h
    refine ⟨SameFrame.refl _, fun pair hpair ↦ absurd hpair List.not_mem_nil, fun key _ ↦ ?_⟩
    rw [term?, hstart]
    rfl
  | append_singleton members pair ih =>
    obtain ⟨hmembers, -, hlast⟩ := List.pairwise_append.1 hsorted
    replace hlast : ∀ other ∈ members, other.1 < pair.1 := fun other hother ↦
      hlast other hother pair List.mem_cons_self
    rw [readTerms_concat] at h
    obtain ⟨d, hd, hmap⟩ := Fallible.bind_eq_ok.1 h
    obtain ⟨definition, hdefinition, rfl⟩ := Fallible.map_eq_ok.1 hmap
    obtain ⟨hframe, hreads, honly⟩ := ih hmembers hd
    have hnew : d.term? pair.1 = none := honly pair.1 fun other hother heq ↦
      String.lt_irrefl _ (heq ▸ hlast other hother)
    have hterm := term?_withDefinition hnew definition
    have hsame := sameFrame_withDefinition d pair.1 definition
    -- up to the new member, the terms are those of the walk before it
    have hbefore : ∀ key, ¬ pair.1 < key →
        ((d.withDefinition pair.1 definition).before key).terms = (d.before key).terms := by
      intro key hkey
      apply terms_eq_of_term?
      intro other
      by_cases hother : other = pair.1
      · simp [hother, hkey]
      · simp [hterm, hother]
    refine ⟨hframe.trans hsame, fun other hother ↦ ?_, fun key hkey ↦ ?_⟩
    · rcases List.mem_append.1 hother with hmem | hmem
      · have hlt := hlast other hmem
        have hne : other.1 ≠ pair.1 := fun heq ↦ String.lt_irrefl _ (heq ▸ hlt)
        rw [hterm, if_neg hne, ← hreads other hmem]
        exact (hsame.before _).definitionAt (hbefore _ (String.lt_asymm hlt)) _ _
      · obtain rfl := List.mem_singleton.1 hmem
        rw [hterm, if_pos rfl, ← hdefinition]
        refine ((sameFrame_before d _).symm.trans (hsame.before _)).definitionAt ?_ _ _
        rw [hbefore _ (String.lt_irrefl _)]
        apply terms_eq_of_term?
        intro key
        rw [term?_before]
        split_ifs with hlt
        · rfl
        · exact (honly key fun earlier hearlier heq ↦ hlt (heq ▸ hlast earlier hearlier)).symm
    · have hne : key ≠ pair.1 := fun heq ↦
        hkey pair (List.mem_append_right _ List.mem_cons_self) heq.symm
      rw [hterm, if_neg hne]
      exact honly key fun other hother ↦ hkey other (List.mem_append_left _ hother)

/-- All but the last member state the terms before its key. -/
theorem Reads.before {c : TermContext} {pair : String × Json}
    (hlast : ∀ other ∈ members, other.1 < pair.1) (h : Reads (members ++ [pair]) c) :
    Reads members (c.before pair.1) := by
  intro other hother
  have hlt := hlast other hother
  rw [term?_before, if_pos hlt, ← h other (List.mem_append_left _ hother)]
  refine ((sameFrame_before c _).symm.before _).definitionAt (terms_eq_of_term? fun key ↦ ?_) _ _
  by_cases hkey : key < other.1
  · simp [hkey, String.lt_trans hkey hlt]
  · simp [hkey]

theorem DefinesOnly.before {c : TermContext} {pair : String × Json}
    (h : DefinesOnly (members ++ [pair]) c) : DefinesOnly members (c.before pair.1) := by
  intro key hkey
  rw [term?_before]
  split_ifs with hlt
  · refine h key fun other hother ↦ ?_
    rcases List.mem_append.1 hother with hmem | hmem
    · exact hkey other hmem
    · obtain rfl := List.mem_singleton.1 hmem
      exact fun heq ↦ String.lt_irrefl _ (heq ▸ hlt)
  · rfl

/-- A context that the members state is the one that is read. -/
theorem readTerms_of_reads (hsorted : members.Pairwise fun a b ↦ a.1 < b.1)
    (hstart : start.terms = ∅) {c : TermContext} (hframe : SameFrame start c)
    (hreads : Reads members c) (honly : DefinesOnly members c) :
    ∃ d, start.readTerms members = .ok d ∧
      SameFrame start d ∧ d.terms = c.terms := by
  induction members using List.reverseRecOn generalizing c with
  | nil =>
    refine ⟨start, rfl, SameFrame.refl _, terms_eq_of_term? fun key ↦ ?_⟩
    rw [honly key fun pair hpair ↦ absurd hpair List.not_mem_nil, term?, hstart]
    rfl
  | append_singleton members pair ih =>
    obtain ⟨hmembers, -, hlast⟩ := List.pairwise_append.1 hsorted
    replace hlast : ∀ other ∈ members, other.1 < pair.1 := fun other hother ↦
      hlast other hother pair List.mem_cons_self
    have hframe' := hframe.trans (sameFrame_before c pair.1).symm
    obtain ⟨d, hd, hsame, hterms⟩ := ih hmembers hframe' (hreads.before hlast) honly.before
    have hat : d.definitionAt pair.1 pair.2 = .ok (c.term? pair.1) := by
      rw [← hreads pair (List.mem_append_right _ List.mem_cons_self)]
      exact (hframe'.symm.trans hsame).definitionAt hterms _ _
    have hd? : ∀ key, d.term? key = (c.before pair.1).term? key := fun key ↦ by
      rw [term?, hterms, term?]
    have hnew : d.term? pair.1 = none := by
      rw [hd?, term?_before, if_neg (String.lt_irrefl _)]
    refine ⟨d.withDefinition pair.1 (c.term? pair.1), ?_,
      hsame.trans (sameFrame_withDefinition _ _ _), terms_eq_of_term? fun key ↦ ?_⟩
    · rw [readTerms_concat, hd]
      exact congrArg (Except.map _) hat
    · rw [term?_withDefinition hnew, hd?, term?_before]
      split_ifs with hsame hlt
      · rw [hsame]
      · rfl
      · refine (honly key fun other hother heq ↦ ?_).symm
        rcases List.mem_append.1 hother with hmem | hmem
        · exact hlt (heq ▸ hlast other hmem)
        · obtain rfl := List.mem_singleton.1 hmem
          exact hsame heq.symm

end SecondWalk

end OntoGraph.Document.TermContext
