import OntoGraph.Proofs.Document.ContextMembers

/-!
# The order of the keys of a context document

The terms of a context are read in the order of their keys, and each of them with the terms before
it. What an entry states by the name of another term is therefore read in full if the other term
stands before it, and as if there were no such term if it stands behind it. A namespace is taken as
it is written, also where it is written by another namespace or by a term.
-/

namespace OntoGraph.Document.TermContext

/-- The IRI that an entry states for its term: the entry itself, or its `@id`. -/
def statedIri? : Json → Option String
  | .string text => some text
  | entry => entry.textMember? "@id"

/-- A context with its namespaces and its vocabulary alone. -/
def withoutTerms (c : TermContext) : TermContext := { c with terms := ∅ }

/-- Does each entry stand for what the finished context reads it as? -/
structure ReadInFull (members : List (String × Json)) (c : TermContext) : Prop where
  terms : ∀ key entry iri definition, (key, entry) ∈ members → statedIri? entry = some iri →
    c.term? key = some definition → definition.iri = c.expandIri iri
  namespaces : ∀ name start, c.namespaces.get? name = some start → c.expandIri start = start

/-- Does no entry need a term behind it, and no namespace another definition? A term behind an
entry does no harm where it stands for what its name is read as without it. -/
structure RefersBack (members : List (String × Json)) (c : TermContext) : Prop where
  terms : ∀ key entry iri definition later, (key, entry) ∈ members →
    statedIri? entry = some iri → c.term? key = some definition → key < iri →
      c.term? iri = some later → later.iri = c.withoutTerms.expandIri iri
  named : ∀ name start definition, c.namespaces.get? name = some start →
    c.term? start = some definition → definition.iri = start
  written : ∀ name start, c.namespaces.get? name = some start → c.term? start = none →
    ¬ c.IsCompact start ∧ (':' ∈ start.toList ∨ c.vocab.getD "" = "")

/-! ## Terms -/

/-- A term stands for what its entry states, read with the terms before it. -/
theorem Reads.iri_eq {members : List (String × Json)} {c : TermContext} (h : Reads members c)
    {key iri : String} {entry : Json} {definition : TermDefinition} (hmem : (key, entry) ∈ members)
    (hstated : statedIri? entry = some iri) (hterm : c.term? key = some definition) :
    definition.iri = (c.before key).expandIri iri := by
  have hread := h _ hmem
  rw [hterm] at hread
  dsimp only at hread
  unfold definitionAt at hread
  split at hread
  · cases hread
  · cases entry with
    | string text =>
      cases hstated
      dsimp only at hread
      split at hread
      · cases hread
      · cases hread
        rfl
    | object members =>
      obtain ⟨_, hdefinition, heq⟩ := Fallible.map_eq_ok.1 hread
      cases heq
      unfold readDefinition at hdefinition
      obtain ⟨coercion, -, hdefinition⟩ := Fallible.bind_eq_ok.1 hdefinition
      cases hdefinition
      have hid : (Json.object members).textMember? "@id" = some iri := hstated
      rw [hid, Option.getD_some]
    | _ => cases hread

@[simp]
theorem term?_withoutTerms (c : TermContext) (term : String) : c.withoutTerms.term? term = none :=
  rfl

/-- With the terms before a key, a name is read as in the whole context if it stands before the key
itself, and else as if there were no terms. -/
theorem expandIri_before (c : TermContext) (key name : String) :
    (c.before key).expandIri name =
      if name < key then c.expandIri name else c.withoutTerms.expandIri name := by
  have hterm := c.term?_before key name
  split_ifs with hlt
  · rw [if_pos hlt] at hterm
    exact (sameFrame_before c key).symm.expandIri_of_term? hterm
  · rw [if_neg hlt] at hterm
    have hframe : SameFrame c.withoutTerms (c.before key) := ⟨rfl, rfl, rfl, rfl⟩
    apply hframe.expandIri_of_term?
    rw [hterm, term?_withoutTerms]

/-- A name that is no term is read as if there were no terms. -/
theorem expandIri_withoutTerms {c : TermContext} {name : String} (h : c.term? name = none) :
    c.withoutTerms.expandIri name = c.expandIri name := by
  have hframe : SameFrame c c.withoutTerms := ⟨rfl, rfl, rfl, rfl⟩
  apply hframe.expandIri_of_term?
  rw [h, term?_withoutTerms]

/-! ## Namespaces -/

/-- A text that is no term is read as itself, if it ends like a namespace, exactly if it is no
compact IRI and no name of the vocabulary. -/
theorem ReadFrom.expandIri_eq_self_iff {members : List (String × Json)} {c : TermContext}
    (h : ReadFrom members c) {start : String} (hstart : isNamespace start = true)
    (hterm : c.term? start = none) :
    c.expandIri start = start ↔
      ¬ c.IsCompact start ∧ (':' ∈ start.toList ∨ c.vocab.getD "" = "") := by
  by_cases hcompact : c.IsCompact start
  · refine iff_of_false ?_ fun hnot ↦ hnot.1 hcompact
    obtain ⟨⟨name, outer⟩, hpair, rest, rfl, hcolon, hblank, hrest⟩ := hcompact
    have houter := (h.namespaces name outer).1 (SortedMap.get?_eq_some_iff.2 hpair)
    rw [expandIri_compact hterm hcolon hpair hblank hrest, String.append_left_inj]
    exact ne_colon_of_isNamespace houter.2.2.2
  · rw [expandIri_of_not_isCompact hterm hcompact]
    split_ifs with hcolon
    · exact iff_of_true rfl ⟨hcompact, .inl hcolon⟩
    · have hempty : c.vocab.getD "" ++ start = start ↔ c.vocab.getD "" = "" := by
        constructor
        · intro heq
          have hlength := congrArg String.length heq
          rw [String.length_append] at hlength
          apply String.length_eq_zero_iff.1
          omega
        · intro heq
          rw [heq, String.empty_append]
      rw [hempty]
      constructor
      · exact fun heq ↦ ⟨hcompact, .inr heq⟩
      · exact fun hself ↦ hself.2.resolve_left hcolon

/-! ## Contexts of documents -/

section ReadFrom

variable {members : List (String × Json)} {c : TermContext}

/-- An entry that is read as in the whole context needs no term behind it. -/
theorem ReadFrom.refersBack (h : ReadFrom members c) (hfull : ReadInFull members c) :
    RefersBack members c := by
  constructor
  case terms =>
    intro key entry iri definition later hmem hstated hterm hlt hlater
    have hiri := h.terms.iri_eq hmem hstated hterm
    rw [expandIri_before, if_neg (String.lt_asymm hlt)] at hiri
    calc later.iri
      _ = c.expandIri iri := (expandIri_of_term hlater).symm
      _ = definition.iri := (hfull.terms key entry iri definition hmem hstated hterm).symm
      _ = c.withoutTerms.expandIri iri := hiri
  case named =>
    intro name start definition hname hterm
    rw [← expandIri_of_term hterm]
    exact hfull.namespaces name start hname
  case written =>
    intro name start hname hterm
    have hstart := ((h.namespaces name start).1 hname).2.2.2
    exact (h.expandIri_eq_self_iff hstart hterm).1 (hfull.namespaces name start hname)

/-- Where no entry needs a term behind it, each is read as in the whole context. -/
theorem ReadFrom.inFull (h : ReadFrom members c) (hback : RefersBack members c) :
    ReadInFull members c := by
  constructor
  case terms =>
    intro key entry iri definition hmem hstated hterm
    have hiri := h.terms.iri_eq hmem hstated hterm
    rw [expandIri_before] at hiri
    by_cases hlt : iri < key
    · rwa [if_pos hlt] at hiri
    · rw [if_neg hlt] at hiri
      cases hlater : c.term? iri with
      | none =>
        rw [hiri]
        exact expandIri_withoutTerms hlater
      | some later =>
        by_cases hself : iri = key
        · rw [hself, expandIri_of_term hterm]
        · have hgt : key < iri := by
            by_contra hnot
            exact hself (String.le_antisymm hnot hlt)
          rw [hiri, expandIri_of_term hlater]
          exact (hback.terms key entry iri definition later hmem hstated hterm hgt hlater).symm
  case namespaces =>
    intro name start hname
    cases hterm : c.term? start with
    | some definition =>
      rw [expandIri_of_term hterm]
      exact hback.named name start definition hname hterm
    | none =>
      have hstart := ((h.namespaces name start).1 hname).2.2.2
      exact (h.expandIri_eq_self_iff hstart hterm).2 (hback.written name start hname hterm)

theorem ReadFrom.inFull_iff (h : ReadFrom members c) :
    ReadInFull members c ↔ RefersBack members c := ⟨h.refersBack, h.inFull⟩

end ReadFrom

/-- The document of a text is in order, so a context that was read from a text stands for its
document in full exactly if the entries refer to no term behind them and the namespaces are
written out. -/
theorem exists_inFull_iff_of_read {text : String} {c : TermContext} (h : read text = .ok c) :
    ∃ document members, Json.readDocument? text = some document ∧
      contextMembers? document = some members ∧ (ReadInFull members c ↔ RefersBack members c) := by
  obtain ⟨document, members, hdocument, hmembers, hread⟩ := exists_readFrom_of_read h
  exact ⟨document, members, hdocument, hmembers, hread.inFull_iff⟩

/-- A context that was read from a document stands for its document in full, exactly if the entries
refer to no term behind them and the namespaces are written out. -/
theorem readInFull_iff {document : Json} {members : List (String × Json)} {c : TermContext}
    (horder : ContextInOrder document) (hmembers : contextMembers? document = some members)
    (h : ofJson document = .ok c) : ReadInFull members c ↔ RefersBack members c :=
  (readFrom_of_ofJson horder hmembers h).inFull_iff

def authorMembers : List (String × Json) :=
  [("author", .string "core:author"),
    ("core", .string "https://x/Core/"),
    ("writer", .object [("@id", .string "author"), ("@type", .string "@id")])]

/-- The members are in order, and the term is read in full. -/
theorem readInFull_author : ∃ c, ContextInOrder (.object authorMembers) ∧
    contextMembers? (.object authorMembers) = some authorMembers ∧
    ofJson (.object authorMembers) = .ok c ∧
    c.term? "writer" = some { iri := "https://x/Core/author", coercion := some .id } ∧
    ReadInFull authorMembers c := by
  have hchecks : (ofJson (.object authorMembers)).toOption.map (fun c ↦
      (c.terms.keys, c.namespaces.toList, c.term? "writer")) =
      some (["author", "writer"], [("core", "https://x/Core/")],
        some { iri := "https://x/Core/author", coercion := some .id }) := by
    decide +kernel
  cases hc : ofJson (.object authorMembers) with
  | error e =>
    rw [hc] at hchecks
    cases hchecks
  | ok c =>
    rw [hc] at hchecks
    obtain ⟨hkeys, hrest⟩ := Prod.mk.inj (Option.some.inj hchecks)
    obtain ⟨hnamespaces, hwriter⟩ := Prod.mk.inj hrest
    have hterm : ∀ term definition, c.term? term = some definition →
        term = "author" ∨ term = "writer" := by
      intro term definition hterm
      have hmem : term ∈ c.terms.keys := SortedMap.mem_keys.2 ⟨definition, hterm⟩
      rw [hkeys] at hmem
      simpa using hmem
    have hnamespace : ∀ name start, c.namespaces.get? name = some start →
        name = "core" ∧ start = "https://x/Core/" := by
      intro name start hname
      rw [SortedMap.get?_eq_some_iff, hnamespaces] at hname
      simpa using hname
    have horder : ContextInOrder (.object authorMembers) := by
      rintro members ⟨⟩
      decide +kernel
    refine ⟨c, horder, rfl, rfl, hwriter, (readInFull_iff horder rfl hc).2 ⟨?_, ?_, ?_⟩⟩
    · intro key entry iri definition later hmem hstated hkey hlt hlater
      simp only [authorMembers, List.mem_cons, List.not_mem_nil, or_false, Prod.mk.injEq] at hmem
      rcases hmem with ⟨rfl, rfl⟩ | ⟨rfl, rfl⟩ | ⟨rfl, rfl⟩
      all_goals
        cases hstated
        rcases hterm _ _ hlater with heq | heq
        all_goals
          exfalso
          revert heq hlt
          decide +kernel
    · intro name start definition hname hstart
      obtain ⟨-, rfl⟩ := hnamespace name start hname
      rcases hterm _ _ hstart with heq | heq
      all_goals
        exfalso
        revert heq
        decide
    · intro name start hname _
      obtain ⟨-, rfl⟩ := hnamespace name start hname
      refine ⟨?_, .inl (by decide)⟩
      rintro ⟨pair, hpair, rest, htext, hcolon, -, -⟩
      have hsplit : "https" ++ ":" ++ "//x/Core/" = pair.1 ++ ":" ++ rest := by
        rw [← htext]
        decide +kernel
      obtain ⟨hname, -⟩ := append_eq_append_of_colon (by decide) hcolon hsplit
      rw [hnamespaces, List.mem_singleton] at hpair
      rw [hpair] at hname
      revert hname
      decide

def personMembers : List (String × Json) :=
  [("agent", .string "person"), ("person", .string "https://x/Core/Person")]

/-- The term does not stand for what the other one stands for. -/
theorem not_readInFull_person : ∃ c, ContextInOrder (.object personMembers) ∧
    contextMembers? (.object personMembers) = some personMembers ∧
    ofJson (.object personMembers) = .ok c ∧
    c.term? "agent" = some { iri := "person" } ∧
    c.expandIri "person" = "https://x/Core/Person" ∧ ¬ ReadInFull personMembers c := by
  have hchecks : (ofJson (.object personMembers)).toOption.map (fun c ↦
      (c.term? "agent", c.expandIri "person")) =
      some (some { iri := "person" }, "https://x/Core/Person") := by
    decide +kernel
  cases hc : ofJson (.object personMembers) with
  | error e =>
    rw [hc] at hchecks
    cases hchecks
  | ok c =>
    rw [hc] at hchecks
    obtain ⟨hagent, hexpand⟩ := Prod.mk.inj (Option.some.inj hchecks)
    refine ⟨c, ?_, rfl, rfl, hagent, hexpand, fun hfull ↦ ?_⟩
    · rintro members ⟨⟩
      decide +kernel
    · have hiri := hfull.terms "agent" _ "person" _ List.mem_cons_self rfl hagent
      rw [hexpand] at hiri
      revert hiri
      decide

end OntoGraph.Document.TermContext
