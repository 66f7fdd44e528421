import OntoGraph.Ontology.Compile
import OntoGraph.Proofs.Document.ContextReading
import OntoGraph.Proofs.Document.DerivedContext
import OntoGraph.Proofs.Json.Normal

/-!
# The context document of a derived context

The context derived from a model is written as one object. Its namespaces, aliases and terms share
the keys of that object, so what is read back is the derived context exactly where no name of one
kind is taken for a name of another.
-/

namespace OntoGraph.Document

open Ontology

def TermDefinition.iris (definition : TermDefinition) : List String :=
  definition.iri :: (match definition.coercion with
    | some (.datatype iri) => [iri]
    | _ => []) ++ definition.vocab.toList

namespace TermContext

/-! ## The document -/

def members (c : TermContext) : SortedMap Json :=
  .ofList ((c.namespaces.mapValues fun _ start ↦ Json.string start).toList ++
    ((c.vocab.map fun vocab ↦ ("@vocab", Json.string vocab)).toList ++
      (c.idAlias.map fun key ↦ (key, Json.string "@id")).toList ++
      (c.typeAlias.map fun key ↦ (key, Json.string "@type")).toList) ++
    (c.terms.mapValues fun _ definition ↦ c.definitionJson definition).toList)

theorem toJson_eq (c : TermContext) :
    c.toJson = .object [("@context", .object c.members.toList)] := by
  rw [toJson, Json.ofMembers_eq]
  rfl

theorem ofJson_toJson (c : TermContext) : ofJson c.toJson = ofMembers c.members.toList := by
  rw [toJson_eq]
  rfl

/-- A term hides an alias or a namespace of its name. -/
theorem Derived.get?_members {c : TermContext} (h : Derived c) (key : String) :
    c.members.get? key = ((c.term? key).map c.definitionJson).or
      (if key = "type" then some (.string "@type")
        else if key = "spdxId" then some (.string "@id")
        else (c.namespaces.get? key).map .string) := by
  unfold members
  rw [SortedMap.get?_ofList_append, SortedMap.get?_ofList_append,
    SortedMap.get?_ofList_of_sorted (SortedMap.sorted _),
    SortedMap.get?_ofList_of_sorted (SortedMap.sorted _), h.vocab, h.idAlias, h.typeAlias]
  have hterms := SortedMap.get?_mapValues c.terms (fun _ definition ↦ c.definitionJson definition) key
  have hnamespaces := SortedMap.get?_mapValues c.namespaces (fun _ start ↦ Json.string start) key
  rw [SortedMap.get?] at hterms hnamespaces
  rw [hterms, hnamespaces, term?]
  congr 1
  by_cases htype : key = "type"
  · subst htype
    rfl
  · by_cases hid : key = "spdxId"
    · subst hid
      rfl
    · simp [SortedMap.ofList, SortedMap.get?_insert, htype, hid]

theorem Derived.mem_members_iff {c : TermContext} (h : Derived c) {key : String} {entry : Json} :
    (key, entry) ∈ c.members.toList ↔
      (∃ definition, c.term? key = some definition ∧ entry = c.definitionJson definition) ∨
      (c.term? key = none ∧
        ((key = "type" ∧ entry = .string "@type") ∨ (key = "spdxId" ∧ entry = .string "@id") ∨
          (key ≠ "type" ∧ key ≠ "spdxId" ∧
            ∃ start, c.namespaces.get? key = some start ∧ entry = .string start))) := by
  rw [← SortedMap.get?_eq_some_iff, h.get?_members]
  cases c.term? key with
  | some definition => simp [eq_comm]
  | none =>
    by_cases htype : key = "type"
    · simp [htype, eq_comm]
    · by_cases hid : key = "spdxId"
      · simp [hid, eq_comm]
      · cases c.namespaces.get? key <;> simp [htype, hid, eq_comm]

theorem Derived.mem_members_of_term {c : TermContext} (h : Derived c) {term : String}
    {definition : TermDefinition} (hterm : c.term? term = some definition) :
    (term, c.definitionJson definition) ∈ c.members.toList :=
  h.mem_members_iff.2 (.inl ⟨definition, hterm, rfl⟩)

theorem definitionJson_eq_string_iff {c : TermContext} {definition : TermDefinition}
    {text : String} :
    Json.string text = c.definitionJson definition ↔
      definition.coercion = none ∧ text = c.withNamespace definition.iri := by
  unfold definitionJson
  cases definition.coercion with
  | none => simp
  | some coercion => simp [Json.ofMembers_eq]

/-! ## Reading one term -/

theorem readCoercion_coercionText_iff {b c : TermContext} {term : String} {coercion : Coercion} :
    b.readCoercion term (some (c.coercionText coercion)) = .ok (some coercion) ↔
      ∀ iri, coercion = .datatype iri →
        ¬ IsKeyword (c.withNamespace iri) ∧ b.expandIri (c.withNamespace iri) = iri := by
  cases coercion with
  | id =>
    refine iff_of_true rfl ?_
    rintro iri ⟨⟩
  | vocab =>
    refine iff_of_true rfl ?_
    rintro iri ⟨⟩
  | datatype iri =>
    simp only [coercionText, Coercion.datatype.injEq, forall_eq']
    generalize hstated : some (c.withNamespace iri) = stated
    fun_cases b.readCoercion term stated with
    | case1 => cases hstated
    | case2 =>
      rw [Option.some.inj hstated]
      exact iff_of_false (fun h ↦ by cases h) fun h ↦ h.1 (isKeyword_iff.2 (by decide))
    | case3 =>
      rw [Option.some.inj hstated]
      exact iff_of_false (fun h ↦ by cases h) fun h ↦ h.1 (isKeyword_iff.2 (by decide))
    | case4 type _ _ hstarts =>
      rw [Option.some.inj hstated]
      exact iff_of_false (fun h ↦ by cases h) fun h ↦ h.1 hstarts
    | case5 type _ _ hstarts =>
      rw [Option.some.inj hstated]
      constructor
      · intro h
        exact ⟨hstarts, by simpa using h⟩
      · rintro ⟨-, h⟩
        rw [h]

theorem readDefinition_definitionJson_iff {b c : TermContext} {term iri : String}
    {coercion : Coercion} {vocab : Option String} :
    b.readDefinition term (c.definitionJson { iri, coercion := some coercion, vocab }) =
        .ok { iri, coercion := some coercion, vocab } ↔
      b.expandIri (c.withNamespace iri) = iri ∧
      b.readCoercion term (some (c.coercionText coercion)) = .ok (some coercion) ∧
      ∀ start ∈ vocab, b.expandIri (c.withNamespace start) = start := by
  have hid : (c.definitionJson { iri, coercion := some coercion, vocab }).textMember? "@id" =
      some (c.withNamespace iri) := by
    rw [definitionJson, Json.textMember?, Json.member?_ofMembers]
    cases vocab <;> simp [SortedMap.ofList, SortedMap.get?_insert, Json.string?]
  have htype : (c.definitionJson { iri, coercion := some coercion, vocab }).textMember? "@type" =
      some (c.coercionText coercion) := by
    rw [definitionJson, Json.textMember?, Json.member?_ofMembers]
    cases vocab <;> simp [SortedMap.ofList, SortedMap.get?_insert, Json.string?]
  have hvocab : ((c.definitionJson { iri, coercion := some coercion, vocab }).member?
      "@context").bind (·.textMember? "@vocab") = vocab.map c.withNamespace := by
    rw [definitionJson, Json.member?_ofMembers]
    cases vocab <;> simp [SortedMap.ofList, SortedMap.get?_insert, Json.string?, Json.textMember?,
      Json.member?, Json.members?]
  unfold readDefinition
  rw [hid, htype, hvocab]
  rw [Fallible.bind_eq_ok]
  have hstart : (vocab.map c.withNamespace).map b.expandIri = vocab ↔
      ∀ start ∈ vocab, b.expandIri (c.withNamespace start) = start := by
    cases vocab <;> simp
  constructor
  · rintro ⟨read, hread, hdefinition⟩
    obtain ⟨hiri, rfl, hrest⟩ :=
      (TermDefinition.mk.injEq _ _ _ _ _ _).mp (Except.ok.inj hdefinition)
    exact ⟨hiri, hread, hstart.1 hrest⟩
  · rintro ⟨hiri, hread, hrest⟩
    refine ⟨some coercion, hread, ?_⟩
    dsimp only
    rw [hstart.2 hrest, Option.getD_some, hiri]
    rfl

/-- A term is read as it was written exactly if its key is free, its texts are no keywords and its
IRIs are read back. -/
theorem definitionAt_definitionJson_iff {b c : TermContext} {term : String}
    {definition : TermDefinition}
    (hplain : definition.coercion = none → definition.vocab = none) :
    b.definitionAt term (c.definitionJson definition) = .ok (some definition) ↔
      (¬ IsKeyword term ∧ b.namespaces.get? term = none) ∧
      (definition.coercion = none → ¬ IsKeyword (c.withNamespace definition.iri)) ∧
      (∀ iri, definition.coercion = some (.datatype iri) → ¬ IsKeyword (c.withNamespace iri)) ∧
      ∀ iri ∈ definition.iris, b.expandIri (c.withNamespace iri) = iri := by
  obtain ⟨iri, coercion, vocab⟩ := definition
  unfold definitionAt
  by_cases hkey : (term.startsWith "@" || b.namespaces.contains term) = true
  · rw [if_pos hkey]
    refine iff_of_false (fun h ↦ by cases h) fun h ↦ ?_
    rcases Bool.or_eq_true_iff.1 hkey with hstarts | hcontains
    · exact h.1.1 hstarts
    · rw [SortedMap.contains, h.1.2] at hcontains
      cases hcontains
  · have hfree : ¬ IsKeyword term ∧ b.namespaces.get? term = none := by
      rw [Bool.or_eq_true, not_or, Bool.not_eq_true (b.namespaces.contains term),
        SortedMap.contains_eq_false_iff] at hkey
      exact hkey
    rw [if_neg hkey, and_iff_right hfree]
    cases coercion with
    | none =>
      obtain rfl : vocab = none := hplain rfl
      rw [definitionJson]
      dsimp only
      by_cases hstarts : IsKeyword (c.withNamespace iri)
      · rw [if_pos (show (c.withNamespace iri).startsWith "@" = true from hstarts)]
        exact iff_of_false (fun h ↦ by cases h) fun h ↦ h.1 rfl hstarts
      · rw [if_neg (show ¬ (c.withNamespace iri).startsWith "@" = true from hstarts)]
        simp [TermDefinition.iris, hstarts]
    | some coercion =>
      obtain ⟨members, hmembers⟩ : ∃ members,
          c.definitionJson { iri, coercion := some coercion, vocab } = .object members :=
        ⟨_, Json.ofMembers_eq _⟩
      have hread := @readDefinition_definitionJson_iff b c term iri coercion vocab
      rw [readCoercion_coercionText_iff] at hread
      rw [hmembers] at hread ⊢
      dsimp only
      have hmap : ∀ read : Except ContextError TermDefinition, ∀ definition,
          read.map some = .ok (some definition) ↔ read = .ok definition := by
        intro read definition
        cases read <;> simp [Except.map]
      rw [hmap, hread]
      cases coercion with
      | datatype type =>
        simp only [TermDefinition.iris, reduceCtorEq, false_imp_iff, true_and, Option.some.injEq,
          Coercion.datatype.injEq, forall_eq', List.cons_append, List.nil_append,
          List.forall_mem_cons, Option.mem_toList]
        tauto
      | _ =>
        simp [TermDefinition.iris, Option.mem_def]

/-! ## Names that are taken for others -/

/-- Is what is written for an IRI read back as the IRI, after the terms before a key? It is where
the text is an earlier term for the IRI, or else no earlier term and a compact IRI only if it was
written as one. -/
structure Unmistaken (c : TermContext) (key iri : String) : Prop where
  term : ∀ definition, c.term? (c.withNamespace iri) = some definition →
    c.withNamespace iri < key → definition.iri = iri
  compact : (c.term? (c.withNamespace iri) = none ∨ ¬ c.withNamespace iri < key) →
    (c.IsCompact (c.withNamespace iri) ↔ c.withNamespace iri ≠ iri)

/-- The names of a context that has written its namespaces, aliases and terms side by side tell
the kinds apart. -/
structure Unambiguous (c : TermContext) : Prop where
  /-- No namespace has the name of a term or of an alias, and each can stand before a colon. -/
  namespaces : ∀ name start, c.namespaces.get? name = some start →
    c.term? name = none ∧ name ≠ c.idKey ∧ name ≠ c.typeKey ∧ IsNamespaceMember name start
  /-- No term is an alias or a keyword. -/
  terms : ∀ term definition, c.term? term = some definition →
    term ≠ c.idKey ∧ term ≠ c.typeKey ∧ ¬ IsKeyword term
  /-- No term without a coercion is taken for a namespace or a keyword. -/
  plain : ∀ term definition, c.term? term = some definition → definition.coercion = none →
    ¬ IsKeyword (c.withNamespace definition.iri) ∧
      ¬ IsNamespaceMember term (c.withNamespace definition.iri)
  /-- No datatype is taken for a keyword. -/
  datatypes : ∀ term definition iri, c.term? term = some definition →
    definition.coercion = some (.datatype iri) → ¬ IsKeyword (c.withNamespace iri)
  /-- No IRI is taken for another one. -/
  iris : ∀ term definition, c.term? term = some definition →
    ∀ iri ∈ definition.iris, Unmistaken c term iri

/-- A text that is no term is read back as the IRI that it was written for exactly if it is a
compact IRI where it was written as one. -/
theorem expandIri_withNamespace_iff {c d : TermContext} (hsame : d.namespaces = c.namespaces)
    (hvocab : d.vocab = none)
    (hnamespaces : ∀ pair ∈ c.namespaces.toList,
      ':' ∉ pair.1.toList ∧ isNamespace pair.2 = true) {iri : String}
    (hterm : d.term? (c.withNamespace iri) = none) :
    d.expandIri (c.withNamespace iri) = iri ↔
      (c.IsCompact (c.withNamespace iri) ↔ c.withNamespace iri ≠ iri) := by
  have hcompact : d.IsCompact (c.withNamespace iri) ↔ c.IsCompact (c.withNamespace iri) := by
    rw [IsCompact, IsCompact, hsame]
  by_cases h : c.IsCompact (c.withNamespace iri)
  · rw [iff_true_left h]
    obtain ⟨pair, hpair, rest, htext, hcolon, hblank, hslashes⟩ := h
    have hexpand : d.expandIri (c.withNamespace iri) = pair.2 ++ rest := by
      rw [htext] at hterm ⊢
      exact expandIri_compact hterm hcolon (hsame ▸ hpair) hblank hslashes
    rw [hexpand]
    constructor
    · rintro rfl heq
      rw [htext] at heq
      exact ne_colon_of_isNamespace (hnamespaces pair hpair).2 (String.append_left_inj _ |>.1 heq).symm
    · intro hne
      rcases c.compactBy_cases (fun _ ↦ true) iri with hwritten | ⟨-, heq⟩
      · obtain ⟨chosen, hchosen, tail, ⟨hiri, -⟩, hname⟩ := hwritten
        obtain ⟨hfront, rfl⟩ := append_eq_append_of_colon hcolon (hnamespaces chosen hchosen).1
          (htext.symm.trans hname)
        have hstart := SortedMap.get?_eq_some_iff.2 hpair
        rw [hfront, SortedMap.get?_eq_some_iff.2 hchosen] at hstart
        rw [hiri, Option.some.inj hstart]
      · exact absurd heq hne
  · rw [expandIri_of_not_isCompact hterm (mt hcompact.1 h), hvocab, Option.getD_none,
      String.empty_append, ite_self, iff_false_left h, not_not]

/-- Where names can stand before a colon, an IRI is read back exactly if its text is not mistaken. -/
theorem expandIri_before_iff {c : TermContext} (hvocab : c.vocab = none)
    (hnamespaces : ∀ pair ∈ c.namespaces.toList,
      ':' ∉ pair.1.toList ∧ isNamespace pair.2 = true) {key iri : String} :
    (c.before key).expandIri (c.withNamespace iri) = iri ↔ Unmistaken c key iri := by
  have hbefore := term?_before c key (c.withNamespace iri)
  cases hterm : (c.before key).term? (c.withNamespace iri) with
  | some definition =>
    rw [hterm] at hbefore
    have hlt : c.withNamespace iri < key := by
      by_contra hge
      rw [if_neg hge] at hbefore
      cases hbefore
    rw [if_pos hlt] at hbefore
    rw [expandIri_of_term hterm]
    constructor
    · intro heq
      refine ⟨fun held hheld _ ↦ ?_, fun hfree ↦ ?_⟩
      · rw [← hbefore] at hheld
        cases hheld
        exact heq
      · rcases hfree with hnone | hge
        · rw [hnone] at hbefore
          cases hbefore
        · exact absurd hlt hge
    · intro h
      exact h.term definition hbefore.symm hlt
  | none =>
    have hfree : c.term? (c.withNamespace iri) = none ∨ ¬ c.withNamespace iri < key := by
      by_contra hnot
      rw [not_or, not_not] at hnot
      rw [hterm, if_pos hnot.2] at hbefore
      exact hnot.1 hbefore.symm
    have hexpand : (c.before key).expandIri (c.withNamespace iri) = iri ↔
        (c.IsCompact (c.withNamespace iri) ↔ c.withNamespace iri ≠ iri) :=
      expandIri_withNamespace_iff (d := c.before key) rfl hvocab hnamespaces hterm
    rw [hexpand]
    constructor
    · intro h
      refine ⟨fun definition hdefinition hlt ↦ ?_, fun _ ↦ h⟩
      rw [hterm, if_pos hlt, hdefinition] at hbefore
      cases hbefore
    · exact fun h ↦ h.compact hfree

/-! ## Reading the document -/

/-- Two contexts that mean the same by every name. -/
structure SameMeaning (c d : TermContext) : Prop where
  namespaces : d.namespaces = c.namespaces
  vocab : d.vocab = c.vocab
  idKey : d.idKey = c.idKey
  typeKey : d.typeKey = c.typeKey
  term? : ∀ term, d.term? term = c.term? term
  expandIri : ∀ name, d.expandIri name = c.expandIri name

/-- The members with texts, where the names tell the kinds apart. -/
theorem Derived.text_mem_members_iff {c : TermContext} (h : Derived c) (hnames : Unambiguous c)
    {key text : String} :
    (key, Json.string text) ∈ c.members.toList ↔
      (∃ definition, c.term? key = some definition ∧ definition.coercion = none ∧
        text = c.withNamespace definition.iri) ∨
      (key = "type" ∧ text = "@type") ∨ (key = "spdxId" ∧ text = "@id") ∨
      c.namespaces.get? key = some text := by
  have htype : c.term? "type" = none := Option.eq_none_iff_forall_ne_some.2 fun definition hterm ↦
    (hnames.terms _ _ hterm).2.1 h.typeKey.symm
  have hid : c.term? "spdxId" = none := Option.eq_none_iff_forall_ne_some.2 fun definition hterm ↦
    (hnames.terms _ _ hterm).1 h.idKey.symm
  have hnamespace : ∀ name start, c.namespaces.get? name = some start →
      c.term? name = none ∧ name ≠ "type" ∧ name ≠ "spdxId" := by
    intro name start hname
    obtain ⟨hterm, hne, hne', -⟩ := hnames.namespaces name start hname
    rw [h.idKey] at hne
    rw [h.typeKey] at hne'
    exact ⟨hterm, hne', hne⟩
  rw [h.mem_members_iff]
  simp only [definitionJson_eq_string_iff, Json.string.injEq, exists_eq_right']
  constructor
  · rintro (hterm | ⟨-, htype | hid | ⟨-, -, hname⟩⟩)
    · exact .inl hterm
    · exact .inr (.inl htype)
    · exact .inr (.inr (.inl hid))
    · exact .inr (.inr (.inr hname))
  · rintro (hterm | ⟨rfl, rfl⟩ | ⟨rfl, rfl⟩ | hname)
    · exact .inl hterm
    · exact .inr ⟨htype, .inl ⟨rfl, rfl⟩⟩
    · exact .inr ⟨hid, .inr (.inl ⟨rfl, rfl⟩)⟩
    · obtain ⟨hterm, hne, hne'⟩ := hnamespace key text hname
      exact .inr ⟨hterm, .inr (.inr ⟨hne, hne', hname⟩)⟩

/-- Where the names tell the kinds apart, the first walk takes the namespaces and the aliases. -/
theorem Derived.sameFrame {c d : TermContext} (h : Derived c) (hnames : Unambiguous c)
    (htakes : Takes c.members.toList d) : SameFrame c d := by
  have hkeyword : IsKeyword "@id" ∧ IsKeyword "@type" ∧ IsKeyword "@vocab" :=
    ⟨isKeyword_iff.2 (by decide), isKeyword_iff.2 (by decide), isKeyword_iff.2 (by decide)⟩
  have hmember : ∀ name start, c.namespaces.get? name = some start →
      IsNamespaceMember name start := fun name start hname ↦
    (hnames.namespaces name start hname).2.2.2
  refine ⟨SortedMap.ext_get? fun key ↦ Option.ext fun text ↦ ?_, ?_, ?_, ?_⟩
  · rw [htakes.namespaces, h.text_mem_members_iff hnames]
    constructor
    · rintro ⟨⟨definition, hterm, hcoercion, rfl⟩ | ⟨rfl, rfl⟩ | ⟨rfl, rfl⟩ | hname, hns⟩
      · exact absurd hns (hnames.plain key definition hterm hcoercion).2
      · exact absurd hns (not_isNamespaceMember_type _)
      · exact absurd hns (not_isNamespaceMember_id _)
      · exact hname
    · intro hname
      exact ⟨.inr (.inr (.inr hname)), hmember key text hname⟩
  · rw [h.vocab, Option.eq_none_iff_forall_ne_some]
    intro text htext
    rcases (h.text_mem_members_iff hnames).1 (htakes.vocab text htext) with
      ⟨definition, hterm, -⟩ | ⟨heq, -⟩ | ⟨heq, -⟩ | hname
    · exact (hnames.terms _ _ hterm).2.2 hkeyword.2.2
    · exact absurd heq (by decide)
    · exact absurd heq (by decide)
    · exact not_isNamespaceMember_vocab _ (hmember _ _ hname)
  · rw [h.idAlias]
    cases hid : d.idAlias with
    | none =>
      refine absurd hid (htakes.idAlias_ne "spdxId" (by decide) ?_)
      exact (h.text_mem_members_iff hnames).2 (.inr (.inr (.inl ⟨rfl, rfl⟩)))
    | some key =>
      rcases (h.text_mem_members_iff hnames).1 (htakes.idAlias key hid) with
        ⟨definition, hterm, hcoercion, heq⟩ | ⟨-, heq⟩ | ⟨rfl, -⟩ | hname
      · exact absurd (heq ▸ hkeyword.1) (hnames.plain _ _ hterm hcoercion).1
      · exact absurd heq (by decide)
      · rfl
      · exact absurd (hmember _ _ hname) (not_isNamespaceMember_id _)
  · rw [h.typeAlias]
    cases htype : d.typeAlias with
    | none =>
      refine absurd htype (htakes.typeAlias_ne "type" (by decide) ?_)
      exact (h.text_mem_members_iff hnames).2 (.inr (.inl ⟨rfl, rfl⟩))
    | some key =>
      rcases (h.text_mem_members_iff hnames).1 (htakes.typeAlias key htype) with
        ⟨definition, hterm, hcoercion, heq⟩ | ⟨rfl, -⟩ | ⟨-, heq⟩ | hname
      · exact absurd (heq ▸ hkeyword.2.1) (hnames.plain _ _ hterm hcoercion).1
      · rfl
      · exact absurd heq (by decide)
      · exact absurd (hmember _ _ hname) (not_isNamespaceMember_type _)

theorem Unambiguous.namespaceNames {c : TermContext} (h : Unambiguous c) :
    ∀ pair ∈ c.namespaces.toList, ':' ∉ pair.1.toList ∧ isNamespace pair.2 = true :=
  fun pair hpair ↦
    (h.namespaces pair.1 pair.2 (SortedMap.get?_eq_some_iff.2 hpair)).2.2.2.2

/-- Where the names tell the kinds apart, each member states the term of its key. -/
theorem Derived.reads {c : TermContext} (h : Derived c) (hnames : Unambiguous c) :
    Reads c.members.toList c := by
  rintro ⟨key, entry⟩ hmem
  rcases h.mem_members_iff.1 hmem with ⟨definition, hterm, rfl⟩ | ⟨hnone, hentry⟩
  · dsimp only
    rw [hterm, definitionAt_definitionJson_iff (h.definitions key definition hterm).plain]
    refine ⟨⟨(hnames.terms key definition hterm).2.2, ?_⟩, fun hcoercion ↦
      (hnames.plain key definition hterm hcoercion).1, fun iri hcoercion ↦
      hnames.datatypes key definition iri hterm hcoercion, fun iri hiri ↦ ?_⟩
    · rw [Option.eq_none_iff_forall_ne_some]
      intro start hstart
      rw [(hnames.namespaces key start hstart).1] at hterm
      cases hterm
    · rw [expandIri_before_iff h.vocab hnames.namespaceNames]
      exact hnames.iris key definition hterm iri hiri
  · dsimp only
    rw [hnone]
    unfold definitionAt
    split_ifs with hheld
    · rfl
    · rcases hentry with ⟨-, rfl⟩ | ⟨-, rfl⟩ | ⟨-, -, start, hstart, rfl⟩
      · exact congrArg Except.ok (if_pos (isKeyword_iff.2 (by decide)))
      · exact congrArg Except.ok (if_pos (isKeyword_iff.2 (by decide)))
      · refine absurd (Bool.or_eq_true_iff.2 (.inr ?_)) hheld
        exact SortedMap.contains_iff.2 ⟨start, SortedMap.get?_eq_some_iff.1 hstart⟩

theorem Derived.definesOnly {c : TermContext} (h : Derived c) :
    DefinesOnly c.members.toList c := by
  intro key hkey
  rw [Option.eq_none_iff_forall_ne_some]
  intro definition hterm
  exact hkey _ (h.mem_members_of_term hterm) rfl

/-- A derived context whose names tell the kinds apart is read back. -/
theorem Derived.reread {c : TermContext} (h : Derived c) (hnames : Unambiguous c) :
    ∃ d, ofJson c.toJson = .ok d ∧ SameMeaning c d := by
  rw [ofJson_toJson, ofMembers_eq]
  have htakes := takes_readNamespaces c.members.sorted
    (some (.object [("@context", .object c.members.toList)]))
  have hframe := h.sameFrame hnames htakes
  obtain ⟨d, hd, hsame, hterms⟩ := readTerms_of_reads c.members.sorted htakes.terms hframe.symm
    (h.reads hnames) h.definesOnly
  have hc := hframe.trans hsame
  refine ⟨d, hd, hc.namespaces, hc.vocab, ?_, ?_, fun term ↦ ?_, hc.expandIri hterms⟩
  · rw [TermContext.idKey, hc.idAlias, TermContext.idKey]
  · rw [TermContext.typeKey, hc.typeAlias, TermContext.typeKey]
  · rw [TermContext.term?, hterms, TermContext.term?]

/-! ## A document that is read back -/

theorem eq_some_of_getD {held : Option String} {keyword key : String} (hne : keyword ≠ key)
    (h : held.getD keyword = key) : held = some key := by
  cases held with
  | none => exact absurd h hne
  | some other => exact congrArg some h

section ReadBack

variable {c d start : TermContext} {term : String} {definition : TermDefinition}

/-- A context that means the same as a derived one has its aliases too. -/
theorem Derived.sameFrame_of_sameMeaning (h : Derived c) (hsame : SameMeaning c d) :
    SameFrame c d where
  namespaces := hsame.namespaces
  vocab := hsame.vocab
  idAlias := (eq_some_of_getD (by decide) (hsame.idKey.trans h.idKey)).trans h.idAlias.symm
  typeAlias := (eq_some_of_getD (by decide) (hsame.typeKey.trans h.typeKey)).trans h.typeAlias.symm

/-- Where the document is read back, each term is read as it was written. -/
theorem Derived.definitionAt_of_reads (h : Derived c) (hsame : SameMeaning c d)
    (hreads : Reads c.members.toList d) (hterm : c.term? term = some definition) :
    (c.before term).definitionAt term (c.definitionJson definition) = .ok (some definition) := by
  have hread := hreads _ (h.mem_members_of_term hterm)
  rw [hsame.term?, hterm] at hread
  rw [← hread]
  refine (((h.sameFrame_of_sameMeaning hsame).before term).definitionAt ?_ _ _).symm
  apply terms_eq_of_term?
  intro other
  rw [term?_before, term?_before, hsame.term?]

/-- Where the first walk takes the namespaces of the context from its document, they are the
members that look like namespaces. -/
theorem Takes.namespaces_iff (htakes : Takes c.members.toList start) (hframe : SameFrame start c)
    {name text : String} : c.namespaces.get? name = some text ↔
      (name, Json.string text) ∈ c.members.toList ∧ IsNamespaceMember name text := by
  rw [hframe.namespaces]
  exact htakes.namespaces name text

theorem Derived.idKey_mem (h : Derived c) (htakes : Takes c.members.toList start)
    (hframe : SameFrame start c) : (c.idKey, Json.string "@id") ∈ c.members.toList := by
  rw [h.idKey]
  exact htakes.idAlias _ (hframe.idAlias ▸ h.idAlias)

theorem Derived.typeKey_mem (h : Derived c) (htakes : Takes c.members.toList start)
    (hframe : SameFrame start c) : (c.typeKey, Json.string "@type") ∈ c.members.toList := by
  rw [h.typeKey]
  exact htakes.typeAlias _ (hframe.typeAlias ▸ h.typeAlias)

/-- A term that is written as a text is written as no keyword, so it takes no alias away. -/
theorem Derived.string_notMem_of_term (h : Derived c) (hterm : c.term? term = some definition)
    (hplain : definition.coercion = none → ¬ IsKeyword (c.withNamespace definition.iri))
    {text : String} (hkeyword : IsKeyword text) :
    (term, Json.string text) ∉ c.members.toList := by
  intro hmem
  have htext := SortedMap.eq_of_mem_toList hmem (h.mem_members_of_term hterm)
  obtain ⟨hcoercion, rfl⟩ := definitionJson_eq_string_iff.1 htext
  exact hplain hcoercion hkeyword

/-- The names of a derived context that is read back tell the kinds apart. -/
theorem Derived.unambiguous (h : Derived c) (hd : ofJson c.toJson = .ok d)
    (hsame : SameMeaning c d) : Unambiguous c := by
  rw [ofJson_toJson, ofMembers_eq] at hd
  have htakes := takes_readNamespaces c.members.sorted
    (some (.object [("@context", .object c.members.toList)]))
  obtain ⟨hwalked, hreads, -⟩ := reads_of_readTerms c.members.sorted htakes.terms hd
  have hframe := hwalked.trans (h.sameFrame_of_sameMeaning hsame).symm
  have hidMember := h.idKey_mem htakes hframe
  have htypeMember := h.typeKey_mem htakes hframe
  have hfacts := fun term definition (hterm : c.term? term = some definition) ↦
    (definitionAt_definitionJson_iff (h.definitions term definition hterm).plain).1
      (h.definitionAt_of_reads hsame hreads hterm)
  constructor
  case namespaces =>
    intro name text hname
    obtain ⟨hmem, hmember⟩ := (htakes.namespaces_iff hframe).1 hname
    refine ⟨?_, ?_, ?_, hmember⟩
    · rw [Option.eq_none_iff_forall_ne_some]
      intro definition hterm
      have hfree : c.namespaces.get? name = none := (hfacts name definition hterm).1.2
      rw [hfree] at hname
      cases hname
    · rintro rfl
      have htext := Json.string.inj (SortedMap.eq_of_mem_toList hmem hidMember)
      exact not_isNamespaceMember_id _ (htext ▸ hmember)
    · rintro rfl
      have htext := Json.string.inj (SortedMap.eq_of_mem_toList hmem htypeMember)
      exact not_isNamespaceMember_type _ (htext ▸ hmember)
  case terms =>
    intro term definition hterm
    obtain ⟨⟨hkeyword, -⟩, hplain, -⟩ := hfacts term definition hterm
    refine ⟨?_, ?_, hkeyword⟩
    · rintro rfl
      exact h.string_notMem_of_term hterm hplain (isKeyword_iff.2 (by decide)) hidMember
    · rintro rfl
      exact h.string_notMem_of_term hterm hplain (isKeyword_iff.2 (by decide)) htypeMember
  case plain =>
    intro term definition hterm hcoercion
    obtain ⟨⟨-, hfree⟩, hplain, -⟩ := hfacts term definition hterm
    refine ⟨hplain hcoercion, fun hmember ↦ ?_⟩
    have hmem : (term, Json.string (c.withNamespace definition.iri)) ∈ c.members.toList := by
      rw [definitionJson_eq_string_iff.2 ⟨hcoercion, rfl⟩]
      exact h.mem_members_of_term hterm
    have htaken := (htakes.namespaces_iff hframe).2 ⟨hmem, hmember⟩
    exact Option.some_ne_none _ (htaken.symm.trans hfree)
  case datatypes =>
    intro term definition iri hterm
    exact (hfacts term definition hterm).2.2.1 iri
  case iris =>
    intro term definition hterm iri hiri
    refine (expandIri_before_iff h.vocab fun pair hpair ↦ ?_).1
      ((hfacts term definition hterm).2.2.2 iri hiri)
    exact ((htakes.namespaces_iff hframe).1 (SortedMap.get?_eq_some_iff.2 hpair)).2.2

end ReadBack

/-- The context derived from a model is read back from its own document exactly if no name in it is
taken for a name of another kind. -/
theorem reread_ofModel_iff (model : Model) :
    (∃ c, ofJson (ofModel model).toJson = .ok c ∧ SameMeaning (ofModel model) c) ↔
      Unambiguous (ofModel model) := by
  constructor
  · rintro ⟨c, hc, hsame⟩
    exact (derived_ofModel model).unambiguous hc hsame
  · exact (derived_ofModel model).reread

/-- An ontology in which a property of the core has the name of another profile's namespace. -/
def clashingOntology : Rdf.Store :=
  .ofList [
    ⟨.iri "https://x/Core/extension", Rdf.rdfType, .iri Rdf.owlObjectProperty⟩,
    ⟨.iri "https://x/Extension/Extension", Rdf.rdfType, .iri Rdf.owlClass⟩]

theorem not_reread_clashingOntology :
    ∃ model, compile clashingOntology = .ok model ∧
      ¬ ∃ c, ofJson (ofModel model).toJson = .ok c ∧ SameMeaning (ofModel model) c := by
  have hnames : (compile clashingOntology).toOption.map (fun model ↦
      ((ofModel model).namespaces.get? "extension", ((ofModel model).term? "extension").isSome)) =
        some (some "https://x/Extension/", true) := by
    decide +kernel
  cases hmodel : compile clashingOntology with
  | error e =>
    rw [hmodel] at hnames
    cases hnames
  | ok model =>
    rw [hmodel] at hnames
    obtain ⟨hnamespace, hterm⟩ := Prod.mk.inj (Option.some.inj hnames)
    refine ⟨model, rfl, ?_⟩
    rintro ⟨c, hc, hsame⟩
    have hunambiguous := (derived_ofModel model).unambiguous hc hsame
    rw [(hunambiguous.namespaces _ _ hnamespace).1] at hterm
    cases hterm

end TermContext

end OntoGraph.Document
