import OntoGraph.Proofs.Document.ShortNames

/-!
# Contexts derived from models

A derived context grows by namespaces and definitions, one at a time. What each step keeps holds of
the whole context: its aliases, the form of its definitions, and where its namespaces end.
-/

namespace OntoGraph.Document

open Ontology

/-- A definition as it is stated for the entities of a model: only a coercion has a vocabulary, and
the vocabulary has a start. -/
structure TermDefinition.WellStated (definition : TermDefinition) : Prop where
  plain : definition.coercion = none → definition.vocab = none
  start : ∀ start, definition.vocab = some start → start ≠ ""

namespace TermContext

/-- What the contexts derived from models have in common. -/
structure Derived (c : TermContext) : Prop where
  vocab : c.vocab = none
  idAlias : c.idAlias = some "spdxId"
  typeAlias : c.typeAlias = some "type"
  definitions : ∀ term definition, c.term? term = some definition → definition.WellStated
  namespaces : ∀ name start, c.namespaces.get? name = some start → ¬ ":".toList <:+ start.toList
  termsByIri : ∀ iri term, c.termsByIri.get? iri = some term → ∃ definition,
    c.term? term = some definition

theorem Derived.idKey {c : TermContext} (h : Derived c) : c.idKey = "spdxId" := by
  rw [TermContext.idKey, h.idAlias, Option.getD_some]

theorem Derived.typeKey {c : TermContext} (h : Derived c) : c.typeKey = "type" := by
  rw [TermContext.typeKey, h.typeAlias, Option.getD_some]

/-! ## One step -/

@[simp] theorem term?_define (c : TermContext) (term : String) (definition : TermDefinition)
    (other : String) :
    (c.define term definition).term? other =
      if other = term then some ((c.term? term).getD definition) else c.term? other :=
  SortedMap.get?_insertIfNew c.terms term definition other

theorem Derived.define {c : TermContext} (h : Derived c) (term : String)
    {definition : TermDefinition} (hstated : definition.WellStated) :
    Derived (c.define term definition) := by
  refine ⟨h.vocab, h.idAlias, h.typeAlias, fun other held hheld ↦ ?_, h.namespaces,
    fun iri other hother ↦ ?_⟩
  · rw [term?_define] at hheld
    split at hheld
    · cases hterm : c.term? term with
      | none =>
        rw [hterm] at hheld
        cases hheld
        exact hstated
      | some earlier =>
        rw [hterm] at hheld
        cases hheld
        exact h.definitions term earlier hterm
    · exact h.definitions other held hheld
  · have hindex : (c.define term definition).termsByIri.get? iri = _ :=
      SortedMap.get?_insertIfNew c.termsByIri definition.iri term iri
    rw [hindex] at hother
    rw [term?_define]
    split_ifs with hsame
    · exact ⟨_, rfl⟩
    · split_ifs at hother with hiri
      · cases hterm : c.termsByIri.get? definition.iri with
        | none =>
          rw [hterm] at hother
          exact absurd (Option.some.inj hother).symm hsame
        | some earlier =>
          rw [hterm] at hother
          cases hother
          exact h.termsByIri _ _ hterm
      · exact h.termsByIri _ _ hother

theorem Derived.withNamespace {c : TermContext} (h : Derived c) (name : String) {start : String}
    (hstart : ¬ ":".toList <:+ start.toList) :
    Derived { c with namespaces := c.namespaces.insert name start } := by
  refine ⟨h.vocab, h.idAlias, h.typeAlias, h.definitions, fun other held hheld ↦ ?_, h.termsByIri⟩
  rw [SortedMap.get?_insert] at hheld
  split at hheld
  · cases hheld
    exact hstart
  · exact h.namespaces other held hheld

theorem wellStated_definitionOf (model : Model) (p : Property) :
    (definitionOf model p).WellStated := by
  unfold definitionOf
  split
  · split
    · refine ⟨by rintro ⟨⟩, ?_⟩
      rintro start ⟨⟩ hempty
      have hlength := congrArg (·.toList.length) hempty
      simp [String.toList_append] at hlength
    · exact ⟨fun _ ↦ rfl, by rintro start ⟨⟩⟩
  · exact ⟨fun _ ↦ rfl, by rintro start ⟨⟩⟩

/-! ## Where namespaces end -/

/-- Up to its last segment, a path is empty or ends with a slash. -/
theorem segments_eq_concat (path : List Char) :
    ∃ front directories last, Iri.segments path = directories ++ [last] ∧ path = front ++ last ∧
      ((front = [] ∧ directories = []) ∨ (['/'] <:+ front ∧ directories ≠ [])) := by
  induction path with
  | nil => exact ⟨[], [], [], rfl, rfl, .inl ⟨rfl, rfl⟩⟩
  | cons c path ih =>
    obtain ⟨front, directories, last, hsegments, hpath, hfront⟩ := ih
    rw [Iri.segments] at hsegments ⊢
    rw [List.foldr_cons]
    by_cases hslash : c = '/'
    · subst hslash
      rw [if_pos rfl]
      refine ⟨'/' :: front, [] :: directories, last, by rw [hsegments, List.cons_append],
        by rw [hpath, List.cons_append], .inr ⟨?_, List.cons_ne_nil _ _⟩⟩
      rcases hfront with ⟨rfl, -⟩ | ⟨hfront, -⟩
      · exact List.suffix_refl _
      · exact hfront.trans (List.suffix_cons _ _)
    · rw [if_neg hslash, hsegments]
      rcases hfront with ⟨rfl, rfl⟩ | ⟨hfront, hne⟩
      · exact ⟨[], [], c :: last, rfl, by rw [hpath]; rfl, .inl ⟨rfl, rfl⟩⟩
      · obtain ⟨part, parts, rfl⟩ := List.exists_cons_of_ne_nil hne
        refine ⟨c :: front, (c :: part) :: parts, last, rfl, by rw [hpath, List.cons_append],
          .inr ⟨hfront.trans (List.suffix_cons _ _), List.cons_ne_nil _ _⟩⟩

theorem withoutLastSegment_end (iri : String) :
    (withoutLastSegment iri).toList = [] ∨ ['/'] <:+ (withoutLastSegment iri).toList := by
  obtain ⟨front, directories, last, hsegments, hpath, hfront⟩ := segments_eq_concat iri.toList
  have hlast : lastSegment iri = String.ofList last := by
    rw [lastSegment, segmentsFromEnd, hsegments]
    simp
  have hlength : iri.length - (lastSegment iri).length = front.length := by
    rw [hlast, ← String.length_toList, ← String.length_toList, hpath, String.toList_ofList,
      List.length_append, Nat.add_sub_cancel]
  have heq : (withoutLastSegment iri).toList = front := by
    rw [withoutLastSegment, String.toList_ofList, hlength, hpath, List.take_left]
  rw [heq]
  exact hfront.imp And.left And.left

/-- A namespace does not end where a name stands before a colon. -/
theorem namespaceOf?_end {profile : Profile} {start : String}
    (h : namespaceOf? profile = some start) : ¬ ":".toList <:+ start.toList := by
  have hother : ∀ {text : List Char} {mark : Char}, mark ≠ ':' → [mark] <:+ text →
      ¬ [':'] <:+ text := by
    rintro _ mark hne ⟨front, rfl⟩ ⟨front', heq⟩
    exact hne (List.append_inj_right' heq rfl |> List.singleton_inj.1).symm
  have hchars : ":".toList = [':'] := by decide
  rw [hchars]
  unfold namespaceOf? at h
  cases hiri : profile.iri with
  | some iri =>
    rw [hiri] at h
    cases h
    split_ifs with hend
    · rcases isNamespace_iff.1 hend with hslash | hhash
      · exact hother (by decide) hslash
      · exact hother (by decide) hhash
    · have hslash : ['/'] <:+ (iri ++ "/").toList := by
        rw [String.toList_append]
        exact List.suffix_append _ _
      exact hother (by decide) hslash
  | none =>
    rw [hiri] at h
    obtain ⟨iri, -, rfl⟩ := Option.map_eq_some_iff.1 h
    rcases withoutLastSegment_end iri with hempty | hslash
    · rw [hempty]
      decide
    · exact hother (by decide) hslash

/-! ## All steps -/

theorem Derived.addProfile {c : TermContext} (h : Derived c) (model : Model) (name : String)
    (profile : Profile) : Derived (c.addProfile model name profile) := by
  unfold TermContext.addProfile
  refine List.foldlRecOn _ _ (List.foldlRecOn _ _ ?_ fun c hc cls _ ↦ ?_) fun c hc p _ ↦ ?_
  · cases hstart : namespaceOf? profile with
    | some start => exact h.withNamespace _ (namespaceOf?_end hstart)
    | none => exact h
  · exact hc.define _ ⟨fun _ ↦ rfl, by rintro start ⟨⟩⟩
  · exact hc.define _ (wellStated_definitionOf model p)

/-- Every context derived from a model. -/
theorem derived_ofModel (model : Model) : Derived (ofModel model) := by
  unfold ofModel
  refine List.foldlRecOn _ _ ⟨rfl, rfl, rfl, ?_, fun name start hname ↦ ?_, ?_⟩
    fun c hc pair _ ↦ hc.addProfile model pair.1 pair.2
  · rintro term definition ⟨⟩
  · rw [SortedMap.get?_insert] at hname
    split at hname
    · cases hname
      decide
    · cases hname
  · rintro iri term ⟨⟩

end TermContext

end OntoGraph.Document
