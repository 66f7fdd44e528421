import Mathlib.Algebra.Order.BigOperators.Group.List
import Mathlib.Algebra.Order.Group.Nat
import Mathlib.Data.List.Perm.Basic
import OntoGraph.Proofs.Rdf.Store

/-!
# Stores with the same triples under other labels

Two stores hold the same graph if the triples of one are those of the other with other labels for
blank nodes, in whatever order. Then whatever is looked up in them is the same up to the labels and
the order. Where a subject has one object for a predicate, there is no order, so that such objects
are the same up to the labels, and so are the items of a list.
-/

namespace OntoGraph.Rdf

variable {f : String → String}

/-! ## Terms -/

def Term.label? : Term → Option String
  | .blank label => some label
  | _ => none

@[simp] theorem Term.relabel_iri (name : String) : (Term.iri name).relabel f = .iri name := rfl

@[simp] theorem Term.iri?_relabel (t : Term) : (t.relabel f).iri? = t.iri? := by
  cases t <;> rfl

@[simp] theorem Term.lexical?_relabel (t : Term) : (t.relabel f).lexical? = t.lexical? := by
  cases t <;> rfl

@[simp] theorem Term.relabel_eq_iri_iff {t : Term} {name : String} :
    t.relabel f = .iri name ↔ t = .iri name := by
  cases t <;> simp [relabel]

theorem Term.relabel_congr {g : String → String} {t : Term}
    (h : ∀ label ∈ t.label?, g label = f label) : t.relabel g = t.relabel f := by
  cases t with
  | blank label => exact congrArg Term.blank (h label rfl)
  | iri => rfl
  | literal => rfl

/-! ## Injective renamings -/

/-- A renaming that keeps some labels apart can be chosen to keep all labels apart. Further labels
get names that are longer than the others. -/
theorem exists_injective_extension {labels : List String}
    (h : ∀ a ∈ labels, ∀ b ∈ labels, f a = f b → a = b) :
    ∃ g : String → String, Function.Injective g ∧ ∀ label ∈ labels, g label = f label := by
  let room := String.ofList (List.replicate ((labels.map fun label ↦ (f label).length).sum + 1) 'x')
  have hroom : ∀ a ∈ labels, ∀ b, f a ≠ room ++ b := by
    intro a ha b heq
    have hlength := congrArg String.length heq
    have hle := List.le_sum_of_mem (List.mem_map_of_mem (f := fun label ↦ (f label).length) ha)
    rw [String.length_append, String.length_ofList, List.length_replicate] at hlength
    omega
  refine ⟨fun label ↦ if label ∈ labels then f label else room ++ label, fun a b heq ↦ ?_,
    fun label hlabel ↦ if_pos hlabel⟩
  dsimp only at heq
  split_ifs at heq with ha hb hb
  · exact h a ha b hb heq
  · exact absurd heq (hroom a ha b)
  · exact absurd heq.symm (hroom b hb a)
  · exact (String.append_right_inj _).1 heq

namespace Store

variable {store renamed : Store}

def labels (store : Store) : List String :=
  store.triples.toList.flatMap fun t ↦ [t.subject, t.object].filterMap Term.label?

/-- Does the second store hold the triples of the first, in whatever order, with other labels that
keep its blank nodes apart? -/
structure Renames (f : String → String) (store renamed : Store) : Prop where
  injective : ∀ a ∈ store.labels, ∀ b ∈ store.labels, f a = f b → a = b
  triples : ∀ t, t ∈ renamed.triples.toList ↔ ∃ u ∈ store.triples.toList, u.relabel f = t

/-- A renaming can be chosen to be injective. -/
theorem Renames.exists_injective (h : Renames f store renamed) :
    ∃ g, Function.Injective g ∧ Renames g store renamed := by
  obtain ⟨g, hg, hsame⟩ := exists_injective_extension h.injective
  have hrelabel : ∀ u ∈ store.triples.toList, u.relabel g = u.relabel f := by
    intro u hu
    have hterm : ∀ term ∈ [u.subject, u.object], term.relabel g = term.relabel f := by
      intro term hterm
      refine Term.relabel_congr fun label hlabel ↦ hsame label ?_
      exact List.mem_flatMap.2 ⟨u, hu, List.mem_filterMap.2 ⟨term, hterm, hlabel⟩⟩
    rw [Triple.relabel, hterm u.subject (by simp), hterm u.object (by simp), Triple.relabel]
  refine ⟨g, hg, fun a _ b _ heq ↦ hg heq, fun t ↦ (h.triples t).trans ?_⟩
  exact exists_congr fun u ↦ and_congr_right fun hu ↦ by rw [hrelabel u hu]

/-! ## Looking up -/

@[simp] theorem mem_subjectsWith {predicate : String} {subject object : Term} :
    subject ∈ store.subjectsWith predicate object ↔
      ⟨subject, predicate, object⟩ ∈ store.triples.toList := by
  rw [subjectsWith, List.mem_eraseDups, triplesTo_toList, List.filter_filter, List.mem_map]
  constructor
  · rintro ⟨t, ht, rfl⟩
    obtain ⟨ht, hparts⟩ := List.mem_filter.1 ht
    obtain ⟨hpredicate, hobject⟩ := Bool.and_eq_true_iff.1 hparts
    rw [← of_decide_eq_true hpredicate, ← of_decide_eq_true hobject]
    exact ht
  · exact fun h ↦ ⟨_, List.mem_filter.2 ⟨h, by simp⟩, rfl⟩

theorem isUsedAsType_iff {term : Term} :
    store.isUsedAsType term = true ↔
      ∃ subject, ⟨subject, rdfType, term⟩ ∈ store.triples.toList := by
  rw [isUsedAsType, ← Array.any_toList, triplesTo_toList, List.any_eq_true]
  constructor
  · rintro ⟨t, ht, hpredicate⟩
    obtain ⟨ht, hobject⟩ := List.mem_filter.1 ht
    refine ⟨t.subject, ?_⟩
    rw [← of_decide_eq_true hpredicate, ← of_decide_eq_true hobject]
    exact ht
  · rintro ⟨subject, h⟩
    exact ⟨_, List.mem_filter.2 ⟨h, by simp⟩, by simp⟩

theorem nodup_triplesOf (store : Store) (subject : Term) :
    (store.triplesOf subject).toList.Nodup := by
  rw [triplesOf_toList]
  exact store.distinct.filter _

theorem nodup_subjectsWith (store : Store) (predicate : String) (object : Term) :
    (store.subjectsWith predicate object).Nodup := nodup_eraseDups _

theorem nodup_subjects (store : Store) : store.subjects.toList.Nodup := by
  rw [store.listed]
  exact nodup_eraseDups _

@[simp] theorem listFrom_nil (store : Store) (fuel : Nat) (visited : List Term) :
    store.listFrom fuel visited (.iri rdfNil) = some [] := by
  unfold listFrom
  rw [if_pos rfl]

theorem listFrom_zero {visited : List Term} {node : Term} (h : node ≠ .iri rdfNil) :
    store.listFrom 0 visited node = none := by
  unfold listFrom
  rw [if_neg h, ite_self]

theorem listFrom_succ {fuel : Nat} {visited : List Term} {node : Term} (h : node ≠ .iri rdfNil) :
    store.listFrom (fuel + 1) visited node =
      if node ∈ visited then none
      else (store.object? node rdfFirst).bind fun item ↦
        (store.object? node rdfRest).bind fun next ↦
          (store.listFrom fuel (node :: visited) next).map (item :: ·) := by
  rw [listFrom, if_neg h]
  by_cases hagain : node ∈ visited
  · rw [if_pos hagain, if_pos (List.contains_iff_mem.2 hagain)]
  · rw [if_neg hagain, if_neg (mt List.contains_iff_mem.1 hagain)]
    cases store.object? node rdfFirst with
    | none => rfl
    | some item =>
      cases store.object? node rdfRest with
      | none => rfl
      | some next => cases hitems : store.listFrom fuel (node :: visited) next <;> simp [hitems]

/-- A list of one item at most has no order. -/
theorem eq_of_perm_of_length_le_one {α : Type} {items others : List α} (h : items.Perm others)
    (hone : others.length ≤ 1) : items = others := by
  cases others with
  | nil => exact h.eq_nil
  | cons item rest =>
    obtain rfl : rest = [] := by
      rw [List.length_cons] at hone
      exact List.length_eq_zero_iff.1 (by omega)
    exact List.perm_singleton.1 h

/-- Lists without repetition are the same up to their order if they have the same items. -/
theorem perm_map_of_mem_iff {α β : Type} {items : List β} {others : List α} {g : α → β}
    (hg : Function.Injective g) (hitems : items.Nodup) (hothers : others.Nodup)
    (h : ∀ item, item ∈ items ↔ ∃ other ∈ others, g other = item) : items.Perm (others.map g) :=
  (List.perm_ext_iff_of_nodup hitems (hothers.map hg)).2 fun item ↦
    (h item).trans List.mem_map.symm

namespace Renames

variable (hf : Function.Injective f) (h : Renames f store renamed)
include hf h

theorem perm_objects (subject : Term) (predicate : String) :
    (renamed.objects (subject.relabel f) predicate).Perm
      ((store.objects subject predicate).map (Term.relabel f)) := by
  refine perm_map_of_mem_iff (Term.relabel_injective hf) (renamed.nodup_objects _ _)
    (store.nodup_objects _ _) fun object ↦ ?_
  rw [mem_objects, h.triples]
  constructor
  · rintro ⟨u, hu, heq⟩
    obtain ⟨hsubject, rfl, rfl⟩ := Triple.mk.inj heq
    refine ⟨u.object, mem_objects.2 ?_, rfl⟩
    rw [← Term.relabel_injective hf hsubject]
    exact hu
  · rintro ⟨object, hobject, rfl⟩
    exact ⟨_, mem_objects.1 hobject, rfl⟩

theorem perm_subjectsWith (predicate : String) (object : Term) :
    (renamed.subjectsWith predicate (object.relabel f)).Perm
      ((store.subjectsWith predicate object).map (Term.relabel f)) := by
  refine perm_map_of_mem_iff (Term.relabel_injective hf) (renamed.nodup_subjectsWith _ _)
    (store.nodup_subjectsWith _ _) fun subject ↦ ?_
  rw [mem_subjectsWith, h.triples]
  constructor
  · rintro ⟨u, hu, heq⟩
    obtain ⟨rfl, rfl, hobject⟩ := Triple.mk.inj heq
    refine ⟨u.subject, mem_subjectsWith.2 ?_, rfl⟩
    rw [← Term.relabel_injective hf hobject]
    exact hu
  · rintro ⟨subject, hsubject, rfl⟩
    exact ⟨_, mem_subjectsWith.1 hsubject, rfl⟩

theorem perm_triplesOf (subject : Term) :
    (renamed.triplesOf (subject.relabel f)).toList.Perm
      ((store.triplesOf subject).toList.map (Triple.relabel f)) := by
  refine perm_map_of_mem_iff (Triple.relabel_injective hf) (renamed.nodup_triplesOf _)
    (store.nodup_triplesOf _) fun t ↦ ?_
  rw [mem_triplesOf, h.triples]
  constructor
  · rintro ⟨⟨u, hu, rfl⟩, hsubject⟩
    exact ⟨u, mem_triplesOf.2 ⟨hu, Term.relabel_injective hf hsubject⟩, rfl⟩
  · rintro ⟨u, hu, rfl⟩
    obtain ⟨hmem, rfl⟩ := mem_triplesOf.1 hu
    exact ⟨⟨u, hmem, rfl⟩, rfl⟩

theorem isUsedAsType_eq (term : Term) :
    renamed.isUsedAsType (term.relabel f) = store.isUsedAsType term := by
  rw [Bool.eq_iff_iff, isUsedAsType_iff, isUsedAsType_iff]
  constructor
  · rintro ⟨subject, hsubject⟩
    obtain ⟨u, hu, heq⟩ := (h.triples _).1 hsubject
    obtain ⟨-, hpredicate, hobject⟩ := Triple.mk.inj heq
    rw [← hpredicate, ← Term.relabel_injective hf hobject]
    exact ⟨u.subject, hu⟩
  · rintro ⟨subject, hsubject⟩
    exact ⟨subject.relabel f, (h.triples _).2 ⟨_, hsubject, rfl⟩⟩

theorem perm_subjects :
    renamed.subjects.toList.Perm (store.subjects.toList.map (Term.relabel f)) := by
  refine perm_map_of_mem_iff (Term.relabel_injective hf) renamed.nodup_subjects
    store.nodup_subjects fun subject ↦ ?_
  simp only [mem_subjects, h.triples]
  constructor
  · rintro ⟨_, ⟨u, hu, rfl⟩, rfl⟩
    exact ⟨u.subject, ⟨u, hu, rfl⟩, rfl⟩
  · rintro ⟨_, ⟨u, hu, rfl⟩, rfl⟩
    exact ⟨_, ⟨u, hu, rfl⟩, rfl⟩

theorem size_subjects : renamed.subjects.size = store.subjects.size :=
  calc renamed.subjects.size
      = renamed.subjects.toList.length := Array.length_toList.symm
    _ = (store.subjects.toList.map (Term.relabel f)).length := (h.perm_subjects hf).length_eq
    _ = store.subjects.size := by rw [List.length_map, Array.length_toList]

/-! ## Single objects -/

/-- A single object is the same up to its label. -/
theorem object?_eq {subject : Term} {predicate : String}
    (hone : (store.objects subject predicate).length ≤ 1) :
    renamed.object? (subject.relabel f) predicate =
      (store.object? subject predicate).map (Term.relabel f) := by
  have hobjects := eq_of_perm_of_length_le_one (h.perm_objects hf subject predicate)
    (by rwa [List.length_map])
  rw [object?, object?, hobjects, List.head?_map]

theorem listFrom_eq (hfirst : ∀ subject, (store.objects subject rdfFirst).length ≤ 1)
    (hrest : ∀ subject, (store.objects subject rdfRest).length ≤ 1) (fuel : Nat)
    (visited : List Term) (node : Term) :
    renamed.listFrom fuel (visited.map (Term.relabel f)) (node.relabel f) =
      (store.listFrom fuel visited node).map (List.map (Term.relabel f)) := by
  induction fuel generalizing visited node with
  | zero =>
    by_cases hnil : node = .iri rdfNil
    · subst hnil
      simp
    · rw [listFrom_zero hnil, listFrom_zero (mt Term.relabel_eq_iri_iff.1 hnil)]
      rfl
  | succ fuel ih =>
    by_cases hnil : node = .iri rdfNil
    · subst hnil
      simp
    · have hvisited : node.relabel f ∈ visited.map (Term.relabel f) ↔ node ∈ visited :=
        List.mem_map_of_injective (Term.relabel_injective hf)
      rw [listFrom_succ hnil, listFrom_succ (mt Term.relabel_eq_iri_iff.1 hnil),
        h.object?_eq hf (hfirst node), h.object?_eq hf (hrest node)]
      by_cases hagain : node ∈ visited
      · rw [if_pos hagain, if_pos (hvisited.2 hagain)]
        rfl
      · rw [if_neg hagain, if_neg (mt hvisited.1 hagain)]
        cases store.object? node rdfFirst with
        | none => rfl
        | some item =>
          cases store.object? node rdfRest with
          | none => rfl
          | some next =>
            have hitems := ih (node :: visited) next
            rw [List.map_cons] at hitems
            simp only [Option.map_some, Option.bind_some, hitems]
            cases store.listFrom fuel (node :: visited) next <;> rfl

/-- The items of a list are the same up to their labels. -/
theorem list?_eq (hfirst : ∀ subject, (store.objects subject rdfFirst).length ≤ 1)
    (hrest : ∀ subject, (store.objects subject rdfRest).length ≤ 1) (head : Term) :
    renamed.list? (head.relabel f) = (store.list? head).map (List.map (Term.relabel f)) := by
  unfold list?
  rw [h.size_subjects hf]
  exact h.listFrom_eq hf hfirst hrest _ [] head

end Renames

end Store

end OntoGraph.Rdf
