/-!
# Maps in the order of their keys

A map from texts to values is the list of its pairs, with keys that increase strictly by code
point. So each key has at most one value, every walk over a map is in key order, and two maps are
equal exactly when they hold the same pairs.
-/

namespace OntoGraph

/-- A map from texts to values, held in the order of the keys. -/
structure SortedMap (α : Type) where
  toList : List (String × α)
  sorted : toList.Pairwise (fun a b ↦ a.1 < b.1)
  deriving DecidableEq

namespace SortedMap

variable {α β : Type}

instance : EmptyCollection (SortedMap α) := ⟨⟨[], .nil⟩⟩

instance : Inhabited (SortedMap α) := ⟨∅⟩

/-- Puts a pair into a list in key order; a pair with the same key is replaced. -/
def insertPair (key : String) (value : α) : List (String × α) → List (String × α)
  | [] => [(key, value)]
  | pair :: rest =>
    if key < pair.1 then (key, value) :: pair :: rest
    else if key = pair.1 then (key, value) :: rest
    else pair :: insertPair key value rest

theorem mem_insertPair {key : String} {value : α} {pairs : List (String × α)}
    {pair : String × α} (h : pair ∈ insertPair key value pairs) :
    pair = (key, value) ∨ pair ∈ pairs := by
  induction pairs with
  | nil => simp_all [insertPair]
  | cons first rest ih =>
    unfold insertPair at h
    split at h
    · rcases List.mem_cons.1 h with rfl | h
      · exact .inl rfl
      · exact .inr h
    · split at h
      · rcases List.mem_cons.1 h with rfl | h
        · exact .inl rfl
        · exact .inr (List.mem_cons_of_mem _ h)
      · rcases List.mem_cons.1 h with rfl | h
        · exact .inr List.mem_cons_self
        · exact (ih h).imp id (List.mem_cons_of_mem _)

theorem sorted_insertPair (key : String) (value : α) (pairs : List (String × α))
    (h : pairs.Pairwise (fun a b ↦ a.1 < b.1)) :
    (insertPair key value pairs).Pairwise (fun a b ↦ a.1 < b.1) := by
  induction pairs with
  | nil => simp [insertPair]
  | cons first rest ih =>
    obtain ⟨hfirst, hrest⟩ := List.pairwise_cons.1 h
    unfold insertPair
    by_cases hlt : key < first.1
    · rw [if_pos hlt]
      refine List.pairwise_cons.2 ⟨fun pair hmem ↦ ?_, h⟩
      rcases List.mem_cons.1 hmem with rfl | hmem
      · exact hlt
      · exact String.lt_trans hlt (hfirst pair hmem)
    rw [if_neg hlt]
    by_cases heq : key = first.1
    · rw [if_pos heq]
      exact List.pairwise_cons.2 ⟨fun pair hmem ↦ heq ▸ hfirst pair hmem, hrest⟩
    · rw [if_neg heq]
      refine List.pairwise_cons.2 ⟨fun pair hmem ↦ ?_, ih hrest⟩
      rcases mem_insertPair hmem with rfl | hmem
      · exact Decidable.byContradiction fun hgt ↦
          heq (String.le_antisymm (String.not_lt.1 hgt) (String.not_lt.1 hlt))
      · exact hfirst pair hmem

def insert (m : SortedMap α) (key : String) (value : α) : SortedMap α :=
  ⟨insertPair key value m.toList, sorted_insertPair key value m.toList m.sorted⟩

def get? (m : SortedMap α) (key : String) : Option α := m.toList.lookup key

def contains (m : SortedMap α) (key : String) : Bool := (m.get? key).isSome

/-- The keys, in order. -/
def keys (m : SortedMap α) : List String := m.toList.map (·.1)

def values (m : SortedMap α) : List α := m.toList.map (·.2)

def size (m : SortedMap α) : Nat := m.toList.length

/-- The map of a list of pairs; the last pair of a key wins. -/
def ofList (pairs : List (String × α)) : SortedMap α :=
  pairs.foldl (fun m (pair : String × α) ↦ m.insert pair.1 pair.2) ∅

theorem mem_insert {m : SortedMap α} {key : String} {value : α} {pair : String × α}
    (h : pair ∈ (m.insert key value).toList) : pair = (key, value) ∨ pair ∈ m.toList :=
  mem_insertPair h

/-- A map of a list holds only pairs of the list. -/
theorem mem_ofList {pairs : List (String × α)} {pair : String × α}
    (h : pair ∈ (ofList pairs).toList) : pair ∈ pairs := by
  suffices key : ∀ (pairs : List (String × α)) (m : SortedMap α),
      pair ∈ (pairs.foldl (fun m (pair : String × α) ↦ m.insert pair.1 pair.2) m).toList →
        pair ∈ pairs ∨ pair ∈ m.toList by
    exact (key pairs ∅ h).resolve_right (by rintro ⟨⟩)
  intro pairs
  induction pairs with
  | nil => exact fun m h ↦ .inr h
  | cons first rest ih =>
    intro m h
    rcases ih _ h with h | h
    · exact .inl (List.mem_cons_of_mem _ h)
    · rcases mem_insert h with rfl | h
      · exact .inl List.mem_cons_self
      · exact .inr h

/-- Sets the value of a key unless it has one. -/
def insertIfNew (m : SortedMap α) (key : String) (value : α) : SortedMap α :=
  if m.contains key then m else m.insert key value

def erase (m : SortedMap α) (key : String) : SortedMap α :=
  ⟨m.toList.filter (·.1 ≠ key), m.sorted.filter _⟩

def mapValues (m : SortedMap α) (f : String → α → β) : SortedMap β where
  toList := m.toList.map fun pair ↦ (pair.1, f pair.1 pair.2)
  sorted := by simpa [List.pairwise_map] using m.sorted

end SortedMap

end OntoGraph
