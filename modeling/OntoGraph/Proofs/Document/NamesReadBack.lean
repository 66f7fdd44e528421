import OntoGraph.Proofs.Document.ContextMembers

/-!
# Short names are read back

A context that was read from a document shortens an IRI to a term for it, or by the longest
namespace that starts it, or not at all. The short name is read as the IRI again, with one
exception. A text with two slashes behind a colon is an IRI with an authority and no compact IRI.
A namespace that ends between the slashes of `scheme://` leaves such a text where a third slash
follows.
-/

namespace OntoGraph.Document.TermContext

/-! ## Reading -/

theorem authority_eq_colon (scheme rest : String) :
    scheme ++ "://" ++ rest = scheme ++ ":" ++ ("//" ++ rest) := by
  apply String.toList_inj.1
  simp [String.toList_append]

theorem authority_eq_slash (scheme rest : String) :
    scheme ++ "://" ++ rest = scheme ++ ":/" ++ ("/" ++ rest) := by
  apply String.toList_inj.1
  simp [String.toList_append]

/-- A text with two slashes behind its first colon stands for itself, whatever its scheme is. -/
theorem expandIri_authority {c : TermContext} {scheme rest : String}
    (hterm : c.term? (scheme ++ ":" ++ rest) = none) (hscheme : ':' ∉ scheme.toList)
    (hrest : "//".toList <+: rest.toList) :
    c.expandIri (scheme ++ ":" ++ rest) = scheme ++ ":" ++ rest := by
  have hafter : (Text.after? ['/', '/'] rest.toList).isSome = true := Text.after?_isSome_iff.2 hrest
  unfold expandIri
  rw [hterm, splitOnce?_colon rest hscheme]
  simp only [hafter, if_true]
  split
  · rfl
  · cases c.namespaces.get? (String.ofList scheme.toList) <;> rfl

/-! ## The end of a namespace -/

/-- Two slashes behind a namespace that starts an IRI are the second slash of its authority and one
more, unless there are two slashes further on. -/
theorem eq_of_slashes {scheme rest start tail : List Char} (hscheme : ':' ∉ scheme)
    (hslash : '/' ∉ scheme) (hrest : ¬ ['/', '/'] <:+: rest)
    (hstart : ∀ front, start ≠ front ++ [':']) (htail : ['/', '/'] <+: tail)
    (h : scheme ++ ':' :: '/' :: '/' :: rest = start ++ tail) :
    start = scheme ++ [':', '/'] ∧ ['/'] <+: rest := by
  obtain ⟨more, rfl⟩ := htail
  rw [List.append_eq_append_iff] at h
  rcases h with ⟨between, rfl, hbetween⟩ | ⟨between, rfl, hbetween⟩
  · -- the namespace reaches beyond the scheme
    match between, hbetween with
    | [], hbetween => simp at hbetween
    | [a], hbetween =>
      obtain ⟨rfl, -⟩ := List.cons_eq_cons.1 hbetween
      exact absurd rfl (hstart scheme)
    | [a, b], hbetween =>
      simp only [List.cons_append, List.nil_append, List.cons.injEq] at hbetween
      obtain ⟨rfl, rfl, -, rfl⟩ := hbetween
      exact ⟨rfl, ⟨more, rfl⟩⟩
    | a :: b :: d :: between, hbetween =>
      simp only [List.cons_append, List.nil_append, List.cons.injEq] at hbetween
      obtain ⟨-, -, -, rfl⟩ := hbetween
      exact absurd ⟨between, more, by simp⟩ hrest
  · -- the namespace ends within the scheme
    cases between with
    | nil => simp at hbetween
    | cons a between =>
      simp only [List.cons_append, List.nil_append, List.cons.injEq] at hbetween
      obtain ⟨rfl, -⟩ := hbetween
      exact absurd (List.mem_append_right _ List.mem_cons_self) hslash

/-- Does the longest namespace of an IRI end between the slashes behind the scheme, with a third
slash behind them? -/
structure SplitsAuthority (c : TermContext) (scheme rest : String) : Prop where
  unnamed : ∀ term definition, c.term? term = some definition →
    definition.iri ≠ scheme ++ "://" ++ rest
  namespaces : ∃ name, c.namespaces.get? name = some (scheme ++ ":/")
  longest : ∀ name start tail, c.namespaces.get? name = some start →
    scheme ++ "://" ++ rest = start ++ tail → tail ≠ "" →
      start.length ≤ (scheme ++ ":/").length
  slash : "/".toList <+: rest.toList

section

variable {c : TermContext} {members : List (String × Json)} {scheme rest : String}

/-- The name of a namespace with a rest is read as the IRI unless the rest starts with two
slashes. -/
theorem ReadFrom.expandIri_compact_iff (h : ReadFrom members c)
    (hterms : ∀ term definition, c.term? term = some definition → ':' ∉ term.toList)
    (hblank : c.namespaces.get? "_" = none) {name start tail : String}
    (hname : c.namespaces.get? name = some start) :
    c.expandIri (name ++ ":" ++ tail) = start ++ tail ↔ ¬ "//".toList <+: tail.toList := by
  obtain ⟨-, -, hcolon, hend⟩ := (h.namespaces name start).1 hname
  have hterm : c.term? (name ++ ":" ++ tail) = none := by
    rw [Option.eq_none_iff_forall_ne_some]
    intro definition hdefinition
    apply hterms _ definition hdefinition
    simp [String.toList_append]
  constructor
  · intro hread hslashes
    rw [expandIri_authority hterm hcolon hslashes, String.append_left_inj] at hread
    exact ne_colon_of_isNamespace hend hread.symm
  · intro hslashes
    apply expandIri_compact hterm hcolon (SortedMap.get?_eq_some_iff.1 hname) _ hslashes
    rintro rfl
    rw [hblank] at hname
    cases hname

/-- The rest behind the chosen namespace starts with two slashes exactly if the namespace splits
those of an authority. -/
theorem ReadFrom.slashes_iff (h : ReadFrom members c) (hscheme : ':' ∉ scheme.toList)
    (hslash : '/' ∉ scheme.toList) (hrest : ¬ "//".toList <:+: rest.toList)
    (hunnamed : c.termsByIri.get? (scheme ++ "://" ++ rest) = none) {name start tail : String}
    (hname : c.namespaces.get? name = some start) (hiri : scheme ++ "://" ++ rest = start ++ tail)
    (hne : tail ≠ "") (hlongest : ∀ name' start' tail', c.namespaces.get? name' = some start' →
      scheme ++ "://" ++ rest = start' ++ tail' → tail' ≠ "" → start'.length ≤ start.length) :
    "//".toList <+: tail.toList ↔ c.SplitsAuthority scheme rest := by
  have hchars : scheme.toList ++ ':' :: '/' :: '/' :: rest.toList =
      start.toList ++ tail.toList := by
    have := congrArg String.toList hiri
    simpa [String.toList_append] using this
  constructor
  · intro htail
    have hend : ∀ front, start.toList ≠ front ++ [':'] := by
      intro front hfront
      obtain ⟨-, -, -, hstart⟩ := (h.namespaces name start).1 hname
      have hne : start ≠ String.ofList front ++ ":" := ne_colon_of_isNamespace hstart
      apply hne
      apply String.toList_inj.1
      rw [hfront, String.toList_append, String.toList_ofList]
      rfl
    obtain ⟨hstart, hthird⟩ := eq_of_slashes hscheme hslash hrest hend htail hchars
    obtain rfl : start = scheme ++ ":/" := by
      apply String.toList_inj.1
      rw [hstart, String.toList_append]
      rfl
    refine ⟨fun term definition hterm hdefinition ↦ ?_, ⟨name, hname⟩, hlongest, hthird⟩
    have hknown := h.index.known term definition hterm
    rw [hdefinition, hunnamed] at hknown
    cases hknown
  · rintro ⟨-, ⟨name', hname'⟩, hlongest', more, hthird⟩
    have hsplit := authority_eq_slash scheme rest
    have hlength : start.length = (scheme ++ ":/").length := by
      apply Nat.le_antisymm
      · exact hlongest' name start tail hname hiri hne
      · exact hlongest name' _ _ hname' hsplit (by simp)
    have hboth := congrArg String.toList (hiri.symm.trans hsplit)
    rw [String.toList_append, String.toList_append (s := scheme ++ ":/")] at hboth
    rw [← String.length_toList, ← String.length_toList] at hlength
    obtain ⟨-, htail⟩ := List.append_inj hboth hlength
    rw [htail, String.toList_append, ← hthird]
    exact ⟨more, rfl⟩

/-- The short name of an IRI with an authority stands for the IRI unless its namespace splits the
slashes. -/
theorem ReadFrom.expandIri_short_iff (h : ReadFrom members c)
    (hterms : ∀ term definition, c.term? term = some definition → ':' ∉ term.toList)
    (hblank : c.namespaces.get? "_" = none) (hscheme : ':' ∉ scheme.toList)
    (hslash : '/' ∉ scheme.toList) (hrest : ¬ "//".toList <:+: rest.toList) :
    c.expandIri (c.compactIri (scheme ++ "://" ++ rest)) = scheme ++ "://" ++ rest ↔
      ¬ c.SplitsAuthority scheme rest := by
  unfold compactIri
  cases hindex : c.termsByIri.get? (scheme ++ "://" ++ rest) with
  | some term =>
    obtain ⟨definition, hterm, hiri⟩ := h.index.term _ _ hindex
    dsimp only
    rw [expandIri_of_term hterm]
    exact iff_of_true hiri fun hsplits ↦ hsplits.unnamed _ _ hterm hiri
  | none =>
    dsimp only
    rcases c.compactBy_longest (· ≠ "") (scheme ++ "://" ++ rest) with
      ⟨⟨name, start⟩, hpair, tail, ⟨hiri, hne⟩, hlongest, htext⟩ | ⟨hnone, htext⟩
    · have hname : c.namespaces.get? name = some start := SortedMap.get?_eq_some_iff.2 hpair
      rw [htext, ← h.slashes_iff hscheme hslash hrest hindex hname hiri
          (of_decide_eq_true hne),
        ← h.expandIri_compact_iff hterms hblank hname, hiri]
      intro name' start' tail' hname' hiri' hne
      exact hlongest (name', start') (SortedMap.get?_eq_some_iff.1 hname') tail'
        ⟨hiri', decide_eq_true hne⟩
    · rw [htext]
      refine iff_of_true ?_ fun hsplits ↦ ?_
      · rw [authority_eq_colon]
        apply expandIri_authority _ hscheme
        · exact ⟨rest.toList, by rw [String.toList_append]⟩
        · rw [Option.eq_none_iff_forall_ne_some]
          intro definition hdefinition
          apply hterms _ definition hdefinition
          simp [String.toList_append]
      · obtain ⟨name, hname⟩ := hsplits.namespaces
        exact hnone _ (SortedMap.get?_eq_some_iff.1 hname) ("/" ++ rest)
          ⟨authority_eq_slash scheme rest, by simp⟩

end

/-! ## Names in contexts of documents -/

/-- In a context that was read from a document, without terms that look like compact IRIs and
without a namespace that is named like blank nodes, the short name of an IRI with a scheme and an
authority stands for the IRI, exactly if no namespace is chosen for it that splits the slashes of
the authority. -/
theorem expandIri_compactIri_iff {document : Json} {c : TermContext}
    (horder : ContextInOrder document) (h : ofJson document = .ok c)
    (hterms : ∀ term definition, c.term? term = some definition → ':' ∉ term.toList)
    (hblank : c.namespaces.get? "_" = none) {scheme rest : String} (hscheme : ':' ∉ scheme.toList)
    (hslash : '/' ∉ scheme.toList) (hrest : ¬ "//".toList <:+: rest.toList) :
    c.expandIri (c.compactIri (scheme ++ "://" ++ rest)) = scheme ++ "://" ++ rest ↔
      ¬ c.SplitsAuthority scheme rest := by
  obtain ⟨members, hmembers, -⟩ := ofJson_eq_ok_iff.1 h
  exact (readFrom_of_ofJson horder hmembers h).expandIri_short_iff hterms hblank hscheme hslash hrest

/-- So it is in every context that was read from a text. -/
theorem expandIri_short_iff_of_read {text : String} {c : TermContext} (h : read text = .ok c)
    (hterms : ∀ term definition, c.term? term = some definition → ':' ∉ term.toList)
    (hblank : c.namespaces.get? "_" = none) {scheme rest : String} (hscheme : ':' ∉ scheme.toList)
    (hslash : '/' ∉ scheme.toList) (hrest : ¬ "//".toList <:+: rest.toList) :
    c.expandIri (c.compactIri (scheme ++ "://" ++ rest)) = scheme ++ "://" ++ rest ↔
      ¬ c.SplitsAuthority scheme rest := by
  obtain ⟨_, _, _, _, hread⟩ := exists_readFrom_of_read h
  exact hread.expandIri_short_iff hterms hblank hscheme hslash hrest

/-- A context with a namespace within another one, and with one that ends behind the first slash of
an authority. -/
def archiveDocument : Json :=
  .object [("@context", .object [
    ("core", .string "https://x/Core/"),
    ("local", .string "file:/"),
    ("name", .string "core:name"),
    ("x", .string "https://x/")])]

theorem contextInOrder_archive : ContextInOrder archiveDocument := by
  rintro members ⟨⟩
  decide +kernel

theorem exists_archive : ∃ c, ofJson archiveDocument = .ok c ∧
    (∀ term definition, c.term? term = some definition → ':' ∉ term.toList) ∧
    c.namespaces.get? "_" = none ∧ c.compactIri "https://x/Core/Person" = "core:Person" ∧
    c.compactIri "file:///home/a" = "local://home/a" ∧
    c.expandIri "local://home/a" = "local://home/a" := by
  have hchecks : (ofJson archiveDocument).toOption.map (fun c ↦
      (c.terms.keys, c.namespaces.get? "_", c.compactIri "https://x/Core/Person",
        c.compactIri "file:///home/a", c.expandIri "local://home/a")) =
      some (["name"], none, "core:Person", "local://home/a", "local://home/a") := by
    decide +kernel
  cases hc : ofJson archiveDocument with
  | error e =>
    rw [hc] at hchecks
    cases hchecks
  | ok c =>
    rw [hc] at hchecks
    obtain ⟨hkeys, hrest⟩ := Prod.mk.inj (Option.some.inj hchecks)
    simp only [Prod.mk.injEq] at hrest
    refine ⟨c, rfl, fun term definition hterm ↦ ?_, hrest⟩
    have hmem : term ∈ c.terms.keys := SortedMap.mem_keys.2 ⟨definition, hterm⟩
    rw [hkeys, List.mem_singleton] at hmem
    rw [hmem]
    decide

/-- The longer one of two namespaces is chosen, and the name is read back. -/
theorem expandIri_compactIri_archive : ∃ c, ofJson archiveDocument = .ok c ∧
    c.compactIri "https://x/Core/Person" = "core:Person" ∧
    c.expandIri (c.compactIri ("https" ++ "://" ++ "x/Core/Person")) =
      "https" ++ "://" ++ "x/Core/Person" := by
  obtain ⟨c, hc, hterms, hblank, hcompact, -⟩ := exists_archive
  refine ⟨c, hc, hcompact, ?_⟩
  apply (expandIri_compactIri_iff contextInOrder_archive hc hterms hblank (by decide) (by decide)
    (by decide +kernel)).2
  intro hsplits
  exact absurd hsplits.slash (by decide +kernel)

/-- A name with the namespace that splits the slashes is taken for an IRI of its own. -/
theorem not_expandIri_compactIri_archive : ∃ c, ContextInOrder archiveDocument ∧
    ofJson archiveDocument = .ok c ∧
    (∀ term definition, c.term? term = some definition → ':' ∉ term.toList) ∧
    c.namespaces.get? "_" = none ∧ ¬ "//".toList <:+: "/home/a".toList ∧
    c.compactIri ("file" ++ "://" ++ "/home/a") = "local://home/a" ∧
    c.expandIri (c.compactIri ("file" ++ "://" ++ "/home/a")) ≠ "file" ++ "://" ++ "/home/a" := by
  obtain ⟨c, hc, hterms, hblank, -, hcompact, hexpand⟩ := exists_archive
  have hiri : "file" ++ "://" ++ "/home/a" = "file:///home/a" := by decide +kernel
  refine ⟨c, contextInOrder_archive, hc, hterms, hblank, by decide +kernel, ?_, ?_⟩
  · rw [hiri, hcompact]
  · rw [hiri, hcompact, hexpand]
    decide

end OntoGraph.Document.TermContext
