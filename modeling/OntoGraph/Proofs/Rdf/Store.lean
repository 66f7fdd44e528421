import Mathlib.Data.List.Nodup
import OntoGraph.Proofs.Number.Digits
import OntoGraph.Rdf.Store

/-!
# What stores hold

The indexes of a store say nothing beyond its triples, so that each lookup is described by them.
Inserting a list of new triples puts it after those of the store.
-/

namespace OntoGraph.Rdf

theorem nodup_eraseDups {α : Type} [DecidableEq α] (items : List α) : items.eraseDups.Nodup := by
  induction hlength : items.length using Nat.strongRecOn generalizing items with
  | ind length ih =>
    cases items with
    | nil => exact List.nodup_nil
    | cons item items =>
      rw [List.eraseDups_cons, List.nodup_cons]
      constructor
      · rw [List.mem_eraseDups, List.mem_filter]
        simp
      · refine ih _ ?_ _ rfl
        have hle := List.length_filter_le (fun other ↦ !other == item) items
        rw [← hlength, List.length_cons]
        exact Nat.lt_succ_of_le hle

/-! ## Other labels -/

theorem Term.relabel_injective {f : String → String} (hf : Function.Injective f) :
    Function.Injective (Term.relabel f) := by
  intro t u h
  cases t <;> cases u <;> simp_all [Term.relabel, hf.eq_iff]

theorem Triple.relabel_injective {f : String → String} (hf : Function.Injective f) :
    Function.Injective (Triple.relabel f) := by
  intro t u h
  obtain ⟨hsubject, hpredicate, hobject⟩ := Triple.mk.inj h
  cases t
  cases u
  rw [Triple.mk.injEq]
  exact ⟨Term.relabel_injective hf hsubject, hpredicate, Term.relabel_injective hf hobject⟩

/-! ## Looking up -/

namespace Store

variable {store : Store} {subject : Term} {t : Triple}

@[simp] theorem triplesOf_toList (store : Store) (subject : Term) :
    (store.triplesOf subject).toList = store.triples.toList.filter (·.subject = subject) :=
  store.indexed_subject subject

@[simp] theorem triplesTo_toList (store : Store) (object : Term) :
    (store.triplesTo object).toList = store.triples.toList.filter (·.object = object) :=
  store.indexed_object object

theorem mem_triplesOf : t ∈ (store.triplesOf subject).toList ↔
    t ∈ store.triples.toList ∧ t.subject = subject := by
  rw [triplesOf_toList, List.mem_filter, decide_eq_true_iff]

theorem mem_subjects : subject ∈ store.subjects.toList ↔
    ∃ t ∈ store.triples.toList, t.subject = subject := by
  rw [store.listed, List.mem_eraseDups, List.mem_map]

/-- The objects of a subject and predicate, read off all triples. -/
theorem objects_eq (store : Store) (subject : Term) (predicate : String) :
    store.objects subject predicate =
      (store.triples.toList.filter fun t ↦ t.subject = subject ∧ t.predicate = predicate).map
        (·.object) := by
  rw [objects, triplesOf_toList, List.filter_filter]
  congr 2
  funext t
  rw [Bool.decide_and, Bool.and_comm]

@[simp] theorem mem_objects {predicate : String} {object : Term} :
    object ∈ store.objects subject predicate ↔
      ⟨subject, predicate, object⟩ ∈ store.triples.toList := by
  rw [objects_eq, List.mem_map]
  constructor
  · rintro ⟨t, ht, rfl⟩
    obtain ⟨ht, hparts⟩ := List.mem_filter.1 ht
    obtain ⟨hsubject, hpredicate⟩ := of_decide_eq_true hparts
    rw [← hsubject, ← hpredicate]
    exact ht
  · exact fun h ↦ ⟨_, List.mem_filter.2 ⟨h, by simp⟩, rfl⟩

/-- No object is held twice for a subject and predicate. -/
theorem nodup_objects (store : Store) (subject : Term) (predicate : String) :
    (store.objects subject predicate).Nodup := by
  rw [objects_eq]
  refine (store.distinct.filter _).map_on fun t ht u hu hobject ↦ ?_
  obtain ⟨hsubject, hpredicate⟩ := of_decide_eq_true (List.mem_filter.1 ht).2
  obtain ⟨hsubject', hpredicate'⟩ := of_decide_eq_true (List.mem_filter.1 hu).2
  cases t
  cases u
  rw [Triple.mk.injEq]
  exact ⟨hsubject.trans hsubject'.symm, hpredicate.trans hpredicate'.symm, hobject⟩

/-! ## Inserting -/

theorem triples_insert_of_new (h : t ∉ store.triples.toList) :
    (store.insert t).triples.toList = store.triples.toList ++ [t] := by
  rw [insert, dif_neg (mt contains_iff.1 h), Array.toList_push]

theorem triples_insert_of_mem (h : t ∈ store.triples.toList) : store.insert t = store :=
  dif_pos (contains_iff.2 h)

theorem mem_insert {u : Triple} :
    u ∈ (store.insert t).triples.toList ↔ u ∈ store.triples.toList ∨ u = t := by
  by_cases h : t ∈ store.triples.toList
  · rw [triples_insert_of_mem h]
    exact ⟨.inl, fun hu ↦ hu.elim id fun heq ↦ heq ▸ h⟩
  · rw [triples_insert_of_new h, List.mem_append, List.mem_singleton]

theorem mem_foldl_insert {triples : List Triple} {u : Triple} :
    u ∈ (triples.foldl insert store).triples.toList ↔ u ∈ store.triples.toList ∨ u ∈ triples := by
  induction triples generalizing store with
  | nil => simp
  | cons t triples ih => rw [List.foldl_cons, ih, mem_insert, List.mem_cons, or_assoc]

theorem mem_ofList {triples : List Triple} {u : Triple} :
    u ∈ (ofList triples).triples.toList ↔ u ∈ triples :=
  mem_foldl_insert.trans (or_iff_right List.not_mem_nil)

/-- Distinct triples that are new to a store come after its own. -/
theorem triples_foldl_insert {triples : List Triple} (hnodup : triples.Nodup)
    (hnew : ∀ t ∈ triples, t ∉ store.triples.toList) :
    (triples.foldl insert store).triples.toList = store.triples.toList ++ triples := by
  induction triples generalizing store with
  | nil => rw [List.foldl_nil, List.append_nil]
  | cons t triples ih =>
    obtain ⟨ht, hnodup⟩ := List.nodup_cons.1 hnodup
    have hinsert := triples_insert_of_new (hnew t List.mem_cons_self)
    rw [List.foldl_cons, ih hnodup, hinsert, List.append_assoc, List.singleton_append]
    intro u hu hheld
    rcases mem_insert.1 hheld with hheld | rfl
    · exact hnew u (List.mem_cons_of_mem _ hu) hheld
    · exact ht hu

/-- The store of distinct triples has them in order. -/
theorem triples_ofList {triples : List Triple} (hnodup : triples.Nodup) :
    (ofList triples).triples.toList = triples :=
  (triples_foldl_insert hnodup fun _ _ ↦ List.not_mem_nil).trans (List.nil_append _)

/-! ## Fresh blank nodes -/

theorem mentions_of_no_triples (h : store.triples = #[]) (term : Term) :
    store.mentions term = false := by
  have hsubject := store.indexed_subject term
  have hobject := store.indexed_object term
  rw [h, List.filter_nil] at hsubject hobject
  simp [mentions, triplesOf, triplesTo, Array.toList_eq_nil_iff.1 hsubject,
    Array.toList_eq_nil_iff.1 hobject]

/-- Without triples, blank nodes are handed out in the order of their numbers. -/
theorem freshBlank_of_no_triples (h : store.triples = #[]) :
    store.freshBlank.1 = numberedBlank store.nextBlank ∧
      store.freshBlank.2.triples = #[] ∧ store.freshBlank.2.nextBlank = store.nextBlank + 1 := by
  have hfirst : store.firstUnmentioned (2 * store.size + 1) store.nextBlank = store.nextBlank := by
    rw [firstUnmentioned, mentions_of_no_triples h]
    rfl
  unfold freshBlank
  rw [hfirst]
  exact ⟨rfl, h, rfl⟩

theorem numberedBlank_injective {m n : Nat} (h : numberedBlank m = numberedBlank n) : m = n :=
  Number.append_toString_injective (congrArg Term.value h)

end Store

end OntoGraph.Rdf
