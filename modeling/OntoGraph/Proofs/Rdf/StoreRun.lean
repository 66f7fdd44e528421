import Mathlib.Data.List.Induction
import OntoGraph.Proofs.Rdf.Relabel

/-!
# Stores as lists

Beside its triples a store keeps an index by subject, an index by object and a list of subjects.
All of them say the same: whatever is inserted, and however often, every lookup gives what the
plain list of the distinct triples in the order of their first insertion gives.
-/

namespace OntoGraph.Rdf

/-- Items are taken up in the order in which they first come. -/
theorem eraseDups_concat {α : Type} [DecidableEq α] (items : List α) (item : α) :
    (items ++ [item]).eraseDups =
      if item ∈ items then items.eraseDups else items.eraseDups ++ [item] := by
  rw [List.eraseDups_append, List.removeAll]
  by_cases h : item ∈ items
  · rw [if_pos h, List.filter_cons_of_neg (by simpa using h), List.filter_nil, List.eraseDups_nil,
      List.append_nil]
  · rw [if_neg h, List.filter_cons_of_pos (by simpa using h), List.filter_nil, List.eraseDups_cons]
    rfl

namespace Store

/-- A call that changes a store. -/
inductive Call where
  | insert (t : Triple)
  | add (subject : Term) (predicate : String) (object : Term)
  | freshBlank

def Call.triple? : Call → Option Triple
  | .insert t => some t
  | .add subject predicate object => some ⟨subject, predicate, object⟩
  | .freshBlank => none

/-- What a call answers. -/
inductive Answer where
  /-- Was the triple new? -/
  | inserted (isNew : Bool)
  | blank (node : Term)
  deriving DecidableEq

def perform (store : Store) : Call → Answer × Store
  | .insert t => (.inserted (store.insertNew t).1, (store.insertNew t).2)
  | .add subject predicate object =>
    (.inserted (store.insertNew ⟨subject, predicate, object⟩).1, store.add subject predicate object)
  | .freshBlank => (.blank store.freshBlank.1, store.freshBlank.2)

def run (store : Store) (calls : List Call) : Store :=
  calls.foldl (fun store c ↦ (store.perform c).2) store

/-- The distinct triples that some calls insert, in the order in which they first come. -/
def firstInsertions (calls : List Call) : List Triple :=
  (calls.filterMap Call.triple?).eraseDups

/-- Does a store say of its triples what a list says of its items? -/
structure Lists (store : Store) (items : List Triple) : Prop where
  nodup : items.Nodup
  triples : store.triples.toList = items
  size : store.size = items.length
  insertNew (t : Triple) : (store.insertNew t).1 = decide (t ∉ items)
  triplesOf (subject : Term) :
    (store.triplesOf subject).toList = items.filter (·.subject = subject)
  objects (subject : Term) (predicate : String) :
    store.objects subject predicate =
      (items.filter fun t ↦ t.subject = subject ∧ t.predicate = predicate).map (·.object)
  object? (subject : Term) (predicate : String) :
    store.object? subject predicate =
      (items.find? fun t ↦ t.subject = subject ∧ t.predicate = predicate).map (·.object)
  subjects : store.subjects.toList = (items.map (·.subject)).eraseDups
  subjectsWith (predicate : String) (object : Term) :
    store.subjectsWith predicate object =
      ((items.filter fun t ↦ t.predicate = predicate ∧ t.object = object).map
        (·.subject)).eraseDups
  isUsedAsType (term : Term) :
    store.isUsedAsType term = true ↔ ∃ subject, ⟨subject, rdfType, term⟩ ∈ items

variable {store : Store} {c : Call} {calls : List Call}

theorem subjectsWith_eq (store : Store) (predicate : String) (object : Term) :
    store.subjectsWith predicate object =
      ((store.triples.toList.filter fun t ↦ t.predicate = predicate ∧ t.object = object).map
        (·.subject)).eraseDups := by
  rw [subjectsWith, triplesTo_toList, List.filter_filter]
  congr 3
  funext t
  rw [Bool.decide_and]

/-- The indexes of a store and its list of subjects follow from its triples. -/
theorem lists_triples (store : Store) : store.Lists store.triples.toList where
  nodup := store.distinct
  triples := rfl
  size := Array.length_toList.symm
  insertNew t := by
    rw [Store.insertNew, Bool.eq_iff_iff, Bool.not_eq_true', decide_eq_true_iff,
      ← Bool.not_eq_true, contains_iff]
  triplesOf subject := store.triplesOf_toList subject
  objects subject predicate := store.objects_eq subject predicate
  object? subject predicate := by
    rw [Store.object?, objects_eq, List.head?_map, List.head?_filter]
  subjects := store.listed
  subjectsWith predicate object := store.subjectsWith_eq predicate object
  isUsedAsType _ := isUsedAsType_iff

/-! ## Runs -/

theorem triples_insert (store : Store) (t : Triple) :
    (store.insert t).triples.toList =
      if t ∈ store.triples.toList then store.triples.toList else store.triples.toList ++ [t] := by
  by_cases h : t ∈ store.triples.toList
  · rw [if_pos h, triples_insert_of_mem h]
  · rw [if_neg h, triples_insert_of_new h]

/-- A call puts its triple after the others, unless it is one of them. -/
theorem triples_perform {items : List Triple}
    (h : store.triples.toList = items.eraseDups) (c : Call) :
    (store.perform c).2.triples.toList = (items ++ c.triple?.toList).eraseDups := by
  have hinsert (t : Triple) :
      (store.insert t).triples.toList = (items ++ [t]).eraseDups := by
    rw [triples_insert, h, eraseDups_concat]
    simp only [List.mem_eraseDups]
  cases c with
  | insert t => exact hinsert t
  | add subject predicate object => exact hinsert ⟨subject, predicate, object⟩
  | freshBlank => exact h.trans (by simp [Call.triple?])

theorem run_concat (store : Store) (calls : List Call) (c : Call) :
    run store (calls ++ [c]) = ((run store calls).perform c).2 := by
  rw [run, List.foldl_append]
  rfl

theorem triples_run (calls : List Call) :
    (run {} calls).triples.toList = firstInsertions calls := by
  induction calls using List.reverseRecOn with
  | nil => rfl
  | append_singleton calls c ih =>
    rw [run_concat, firstInsertions, List.filterMap_append]
    exact triples_perform ih c

/-- After any calls on an empty store, the store says of its triples what the plain list of the
distinct triples in the order of their first insertion says; and the next call that inserts a triple
answers whether the triple is missing in that list. -/
theorem lists_run (calls : List Call) :
    (run {} calls).Lists (firstInsertions calls) ∧
      ∀ c t, c.triple? = some t →
        ((run {} calls).perform c).1 = .inserted (decide (t ∉ firstInsertions calls)) := by
  have hlists : (run {} calls).Lists (firstInsertions calls) := by
    rw [← triples_run]
    exact lists_triples _
  refine ⟨hlists, fun c t ht ↦ ?_⟩
  cases c with
  | freshBlank => cases ht
  | _ =>
    cases ht
    exact congrArg Answer.inserted (hlists.insertNew _)

end Store

end OntoGraph.Rdf
