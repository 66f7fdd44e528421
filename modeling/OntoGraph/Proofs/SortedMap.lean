import Mathlib.Data.List.Induction
import Mathlib.Data.List.Nodup
import Mathlib.Data.List.Perm.Basic
import OntoGraph.SortedMap

/-!
# Looking up in maps

A map is determined by what its keys are looked up to. Here is what each operation on maps does
to the lookups.
-/

namespace OntoGraph.SortedMap

variable {α : Type}

/-! ## Lists of pairs in key order -/

theorem lookup_cons_eq_ite (pair : String × α) (rest : List (String × α)) (key : String) :
    (pair :: rest).lookup key = if key = pair.1 then some pair.2 else rest.lookup key := by
  obtain ⟨first, value⟩ := pair
  by_cases h : key = first
  · subst h
    rw [List.lookup_cons_self, if_pos rfl]
  · rw [List.lookup_cons, beq_eq_false_iff_ne.2 h, if_neg h]

theorem lookup_eq_none_of_lt {key : String} {pairs : List (String × α)}
    (h : ∀ pair ∈ pairs, key < pair.1) : pairs.lookup key = none := by
  rw [List.lookup_eq_none_iff]
  intro pair hpair
  exact bne_iff_ne.2 fun heq ↦ String.lt_irrefl _ (heq ▸ h pair hpair)

/-- Where no key comes twice, a key is looked up to a value exactly if the list holds the pair. -/
theorem lookup_eq_some_iff_of_nodup {pairs : List (String × α)} (h : (pairs.map (·.1)).Nodup)
    {key : String} {value : α} : pairs.lookup key = some value ↔ (key, value) ∈ pairs := by
  induction pairs with
  | nil => simp
  | cons first rest ih =>
    obtain ⟨hfirst, hrest⟩ := List.nodup_cons.1 h
    obtain ⟨firstKey, held⟩ := first
    rw [lookup_cons_eq_ite, List.mem_cons]
    by_cases heq : key = firstKey
    · subst heq
      have hnot : (key, value) ∉ rest := fun hmem ↦ hfirst (List.mem_map.2 ⟨_, hmem, rfl⟩)
      simp [hnot, eq_comm]
    · simp [heq, ih hrest]

theorem nodup_keys_of_sorted {pairs : List (String × α)}
    (h : pairs.Pairwise fun a b ↦ a.1 < b.1) : (pairs.map (·.1)).Nodup := by
  apply List.pairwise_map.2
  apply h.imp
  intro a b hlt heq
  exact String.lt_irrefl _ (heq ▸ hlt)

theorem lookup_eq_some_iff {pairs : List (String × α)}
    (h : pairs.Pairwise fun a b ↦ a.1 < b.1) {key : String} {value : α} :
    pairs.lookup key = some value ↔ (key, value) ∈ pairs :=
  lookup_eq_some_iff_of_nodup (nodup_keys_of_sorted h)

theorem lookup_insertPair {key : String} {value : α} {pairs : List (String × α)} (other : String) :
    (insertPair key value pairs).lookup other =
      if other = key then some value else pairs.lookup other := by
  induction pairs with
  | nil => exact lookup_cons_eq_ite (key, value) [] other
  | cons first rest ih =>
    unfold insertPair
    by_cases hlt : key < first.1
    · rw [if_pos hlt]
      exact lookup_cons_eq_ite (key, value) (first :: rest) other
    rw [if_neg hlt]
    by_cases heq : key = first.1
    · rw [if_pos heq, lookup_cons_eq_ite, lookup_cons_eq_ite, heq]
      by_cases h : other = first.1 <;> simp [h]
    · rw [if_neg heq, lookup_cons_eq_ite, lookup_cons_eq_ite, ih]
      by_cases h : other = first.1
      · simp [h, Ne.symm heq]
      · simp [h]

/-! ## Maps -/

/-- A map looks a key up to a value exactly if it holds the pair. -/
theorem get?_eq_some_iff {m : SortedMap α} {key : String} {value : α} :
    m.get? key = some value ↔ (key, value) ∈ m.toList := lookup_eq_some_iff m.sorted

/-- A key has one value. -/
theorem eq_of_mem_toList {m : SortedMap α} {key : String} {value value' : α}
    (h : (key, value) ∈ m.toList) (h' : (key, value') ∈ m.toList) : value = value' := by
  rw [← get?_eq_some_iff] at h h'
  exact Option.some.inj (h.symm.trans h')

theorem contains_iff {m : SortedMap α} {key : String} :
    m.contains key = true ↔ ∃ value, (key, value) ∈ m.toList := by
  simp only [contains, Option.isSome_iff_exists, get?_eq_some_iff]

@[simp] theorem contains_eq_false_iff {m : SortedMap α} {key : String} :
    m.contains key = false ↔ m.get? key = none := by
  simp [contains]

@[simp] theorem get?_empty (key : String) : (∅ : SortedMap α).get? key = none := rfl

@[simp] theorem get?_insert (m : SortedMap α) (key : String) (value : α) (other : String) :
    (m.insert key value).get? other = if other = key then some value else m.get? other :=
  lookup_insertPair other

@[simp] theorem get?_insertIfNew (m : SortedMap α) (key : String) (value : α) (other : String) :
    (m.insertIfNew key value).get? other =
      if other = key then some ((m.get? key).getD value) else m.get? other := by
  unfold insertIfNew
  by_cases hkey : m.contains key = true
  · obtain ⟨held, hheld⟩ := Option.isSome_iff_exists.1 hkey
    rw [if_pos hkey]
    by_cases h : other = key
    · simp [h, hheld]
    · simp [h]
  · rw [if_neg hkey, get?_insert,
      contains_eq_false_iff.1 (Bool.eq_false_iff.2 hkey), Option.getD_none]

theorem nodup_toList (m : SortedMap α) : m.toList.Nodup := by
  refine m.sorted.imp ?_
  rintro pair other hlt rfl
  exact String.lt_irrefl _ hlt

@[simp] theorem get?_mapValues {β : Type} (m : SortedMap α) (f : String → α → β) (key : String) :
    (m.mapValues f).get? key = (m.get? key).map (f key) := by
  have hlookup : ∀ pairs : List (String × α),
      (pairs.map fun pair ↦ (pair.1, f pair.1 pair.2)).lookup key =
        (pairs.lookup key).map (f key) := by
    intro pairs
    induction pairs with
    | nil => rfl
    | cons pair pairs ih =>
      rw [List.map_cons, lookup_cons_eq_ite, lookup_cons_eq_ite, ih]
      by_cases h : key = pair.1
      · rw [if_pos h, if_pos h, h]
        rfl
      · rw [if_neg h, if_neg h]
  exact hlookup m.toList

/-- Maps with the same lookups are equal. -/
theorem ext_get? {m n : SortedMap α} (h : ∀ key, m.get? key = n.get? key) : m = n := by
  have hmem : ∀ pair, pair ∈ m.toList ↔ pair ∈ n.toList := by
    rintro ⟨key, value⟩
    rw [← get?_eq_some_iff, ← get?_eq_some_iff, h]
  have hperm : m.toList.Perm n.toList :=
    (List.perm_ext_iff_of_nodup m.nodup_toList n.nodup_toList).2 hmem
  have hlist : m.toList = n.toList :=
    hperm.eq_of_pairwise (fun a b _ _ hab hba ↦ absurd hba (String.lt_asymm hab)) m.sorted n.sorted
  cases m
  cases n
  congr

/-- The order in which different keys are set does not matter. -/
theorem insert_comm (m : SortedMap α) {key other : String} (h : key ≠ other) (value value' : α) :
    (m.insert key value).insert other value' = (m.insert other value').insert key value := by
  refine ext_get? fun k ↦ ?_
  by_cases hother : k = other
  · simp [hother, h.symm]
  · simp [hother]

/-! ## Maps of lists -/

/-- The order of pairs with different keys does not matter. -/
theorem ofList_eq_of_perm {pairs others : List (String × α)} (h : pairs.Perm others)
    (hkeys : (pairs.map (·.1)).Nodup) : ofList pairs = ofList others := by
  refine h.foldl_eq' (fun pair hpair other hother m ↦ ?_) ∅
  by_cases heq : pair = other
  · rw [heq]
  · exact insert_comm m (fun hkey ↦ heq (List.inj_on_of_nodup_map hkeys hpair hother hkey)) _ _

theorem foldl_insert_append (first second : List (String × α)) (m : SortedMap α) :
    (first ++ second).foldl (fun m (pair : String × α) ↦ m.insert pair.1 pair.2) m =
      second.foldl (fun m (pair : String × α) ↦ m.insert pair.1 pair.2)
        (first.foldl (fun m (pair : String × α) ↦ m.insert pair.1 pair.2) m) :=
  List.foldl_append

/-- The last pair of a key wins. -/
theorem get?_ofList_concat (pairs : List (String × α)) (pair : String × α) (key : String) :
    (ofList (pairs ++ [pair])).get? key =
      if key = pair.1 then some pair.2 else (ofList pairs).get? key := by
  unfold ofList
  rw [foldl_insert_append]
  exact get?_insert _ _ _ _

/-- Of two lists in a row, the second is looked at first. -/
@[simp] theorem get?_ofList_append (first second : List (String × α)) (key : String) :
    (ofList (first ++ second)).get? key =
      ((ofList second).get? key).or ((ofList first).get? key) := by
  induction second using List.reverseRecOn with
  | nil => simp [ofList]
  | append_singleton second pair ih =>
    rw [← List.append_assoc, get?_ofList_concat, get?_ofList_concat, ih]
    by_cases h : key = pair.1 <;> simp [h]

/-- A list in which no key comes twice is looked up as it is. -/
theorem get?_ofList_of_nodup {pairs : List (String × α)} (h : (pairs.map (·.1)).Nodup)
    (key : String) : (ofList pairs).get? key = pairs.lookup key := by
  induction pairs using List.reverseRecOn with
  | nil => rfl
  | append_singleton pairs pair ih =>
    rw [List.map_append, List.map_singleton, List.nodup_append] at h
    obtain ⟨hpairs, -, hlast⟩ := h
    rw [get?_ofList_concat, ih hpairs, List.lookup_append, lookup_cons_eq_ite]
    by_cases heq : key = pair.1
    · have hnone : pairs.lookup key = none := by
        rw [List.lookup_eq_none_iff]
        intro other hother
        have hne := hlast other.1 (List.mem_map_of_mem hother) pair.1 (List.mem_singleton_self _)
        exact bne_iff_ne.2 fun hsame ↦ hne (hsame.symm.trans heq)
      rw [if_pos heq, if_pos heq, hnone, Option.none_or]
    · rw [if_neg heq, if_neg heq, List.lookup_nil, Option.or_none]

/-- A list in key order is looked up as it is. -/
theorem get?_ofList_of_sorted {pairs : List (String × α)}
    (h : pairs.Pairwise fun a b ↦ a.1 < b.1) (key : String) :
    (ofList pairs).get? key = pairs.lookup key :=
  get?_ofList_of_nodup (nodup_keys_of_sorted h) key

/-- The map of a list in which no key comes twice holds the pairs of the list. -/
theorem perm_toList_ofList {pairs : List (String × α)} (h : (pairs.map (·.1)).Nodup) :
    (ofList pairs).toList.Perm pairs := by
  rw [List.perm_ext_iff_of_nodup (nodup_toList _) (h.of_map _)]
  rintro ⟨key, value⟩
  rw [← get?_eq_some_iff, get?_ofList_of_nodup h, lookup_eq_some_iff_of_nodup h]

/-- Of the items of a list with one key, the last one is kept. -/
theorem get?_ofList_map {β : Type} (key : β → String) (value : β → α) (items : List β)
    (k : String) : (ofList (items.map fun item ↦ (key item, value item))).get? k =
      ((items.filter (key · = k)).getLast?).map value := by
  induction items using List.reverseRecOn with
  | nil => rfl
  | append_singleton items item ih =>
    rw [List.map_append, List.map_singleton, get?_ofList_concat, ih, List.filter_append,
      List.getLast?_append]
    by_cases h : key item = k
    · simp [h]
    · simp [h, Ne.symm h]

/-- A map of keys with values that are computed from them. -/
@[simp] theorem get?_ofList_keys (value : String → α) (keys : List String) (k : String) :
    (ofList (keys.map fun key ↦ (key, value key))).get? k =
      if k ∈ keys then some (value k) else none := by
  induction keys using List.reverseRecOn with
  | nil => rfl
  | append_singleton keys key ih =>
    rw [List.map_append, List.map_singleton, get?_ofList_concat, ih]
    by_cases h : k = key
    · simp [h]
    · simp [h]

/-! ## Keys and values -/

theorem mem_keys {m : SortedMap α} {key : String} :
    key ∈ m.keys ↔ ∃ value, m.get? key = some value := by
  simp [keys, get?_eq_some_iff]

theorem mem_values {m : SortedMap α} {value : α} :
    value ∈ m.values ↔ ∃ key, m.get? key = some value := by
  simp [values, get?_eq_some_iff]

/-- Where only one key contributes to a list, the list is what its value contributes. -/
theorem flatMap_values {β : Type} {m : SortedMap α} {k : String} {f : α → List β}
    (h : ∀ key value, m.get? key = some value → key ≠ k → f value = []) :
    m.values.flatMap f = ((m.get? k).map f).getD [] := by
  have hpairs : ∀ pairs : List (String × α), pairs.Pairwise (fun a b ↦ a.1 < b.1) →
      (∀ pair ∈ pairs, pair.1 ≠ k → f pair.2 = []) →
      (pairs.map (·.2)).flatMap f = ((pairs.lookup k).map f).getD [] := by
    intro pairs
    induction pairs with
    | nil => exact fun _ _ ↦ rfl
    | cons first rest ih =>
      intro hsorted hnone
      obtain ⟨hfirst, hrest⟩ := List.pairwise_cons.1 hsorted
      rw [List.map_cons, List.flatMap_cons, lookup_cons_eq_ite,
        ih hrest fun pair hpair ↦ hnone pair (List.mem_cons_of_mem _ hpair)]
      by_cases heq : k = first.1
      · simp [heq, lookup_eq_none_of_lt hfirst]
      · rw [if_neg heq, hnone first List.mem_cons_self (Ne.symm heq), List.nil_append]
  exact hpairs m.toList m.sorted fun pair hpair hne ↦ h _ _ (get?_eq_some_iff.2 hpair) hne

/-- Where a condition on values holds at one key at most, it picks that value. -/
theorem filter_values {m : SortedMap α} {k : String} {p : α → Bool}
    (h : ∀ key value, m.get? key = some value → p value = true → key = k) :
    m.values.filter p = ((m.get? k).filter p).toList := by
  have hflat : m.values.flatMap (fun value ↦ if p value then [value] else []) =
      ((m.get? k).map fun value ↦ if p value then [value] else []).getD [] := by
    refine flatMap_values fun key value hvalue hne ↦ if_neg fun hp ↦ ?_
    exact hne (h key value hvalue hp)
  have hfilter : m.values.filter p =
      m.values.flatMap fun value ↦ if p value then [value] else [] := by
    induction m.values with
    | nil => rfl
    | cons value rest ih => by_cases hp : p value <;> simp [hp, ih]
  rw [hfilter, hflat]
  cases m.get? k with
  | none => rfl
  | some value => by_cases hp : p value <;> simp [Option.filter, hp]

end OntoGraph.SortedMap
