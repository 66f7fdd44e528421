import OntoGraph.Proofs.Rdf.StoreRun

/-!
# Fresh blank nodes

A store looks for a fresh blank node by its number. It tries one number after the other, from its
counter on, until it comes to one whose blank node no triple mentions. Triples may have any labels,
those of numbers among them, so that nothing bounds the search but the finitely many terms that the
triples mention: of that many numbers and one more, one is free.

The counter is past each number whose blank node was handed out, so that no such node comes again,
even if no triple ever mentions it. Conversely it passes no number without a reason, which bounds
the counter by twice the number of calls.
-/

namespace OntoGraph.Rdf.Store

variable {store : Store} {t : Triple} {term : Term} {nodes : List Term} {first n m k : Nat}

/-! ## Mentioned terms -/

/-- The subject and the object of each triple. -/
def mentioned (store : Store) : List Term :=
  store.triples.toList.flatMap fun t ↦ [t.subject, t.object]

theorem mem_mentioned :
    term ∈ store.mentioned ↔
      ∃ t ∈ store.triples.toList, t.subject = term ∨ t.object = term := by
  simp only [mentioned, List.mem_flatMap, List.mem_cons, List.not_mem_nil, or_false,
    eq_comm (a := term)]

@[simp] theorem mentions_iff : store.mentions term = true ↔ term ∈ store.mentioned := by
  have hheld (part : Array Triple) : (!part.isEmpty) = true ↔ ∃ t, t ∈ part.toList := by
    rw [Bool.not_eq_true', ← Array.isEmpty_toList, List.isEmpty_eq_false_iff_exists_mem]
  rw [mentions, Bool.or_eq_true, hheld, hheld, triplesOf_toList, triplesTo_toList, mem_mentioned,
    ← exists_or]
  simp only [List.mem_filter, decide_eq_true_iff, and_or_left]

@[simp] theorem mentions_eq_false_iff : store.mentions term = false ↔ term ∉ store.mentioned := by
  rw [← mentions_iff, Bool.not_eq_true]

@[simp] theorem length_mentioned (store : Store) : store.mentioned.length = 2 * store.size := by
  rw [mentioned, List.length_flatMap, size, ← Array.length_toList]
  simp [Nat.mul_comm]

theorem mem_mentioned_insert (h : term ∈ store.mentioned) : term ∈ (store.insert t).mentioned := by
  obtain ⟨u, hu, hpart⟩ := mem_mentioned.1 h
  exact mem_mentioned.2 ⟨u, mem_insert.2 (.inl hu), hpart⟩

/-- A list that has the blank nodes of so many successive numbers is at least as long. -/
theorem le_length_of_numberedBlank_mem {count : Nat}
    (h : ∀ k, first ≤ k → k < first + count → numberedBlank k ∈ nodes) : count ≤ nodes.length := by
  let numbered := (List.range' first count).map numberedBlank
  have hnodup : numbered.Nodup :=
    (List.nodup_range' ..).map fun _ _ ↦ numberedBlank_injective
  have hsubset : numbered ⊆ nodes := by
    intro node hnode
    obtain ⟨k, hk, rfl⟩ := List.mem_map.1 hnode
    obtain ⟨hle, hlt⟩ := List.mem_range'_1.1 hk
    exact h k hle hlt
  calc count
      = numbered.length := by rw [List.length_map, List.length_range']
    _ ≤ nodes.length := (List.subperm_of_subset hnodup hsubset).length_le

/-! ## The search -/

/-- The search from one number ends at another. Nothing bounds its steps beforehand. -/
inductive SearchEnds (store : Store) : Nat → Nat → Prop where
  | found {n : Nat} (hfree : store.mentions (numberedBlank n) = false) : SearchEnds store n n
  | skip {n m : Nat} (htaken : store.mentions (numberedBlank n) = true)
      (h : SearchEnds store (n + 1) m) : SearchEnds store n m

theorem SearchEnds.le (h : store.SearchEnds n m) : n ≤ m := by
  induction h with
  | found => exact Nat.le_refl _
  | skip _ _ ih => exact Nat.le_of_succ_le ih

theorem SearchEnds.free (h : store.SearchEnds n m) : numberedBlank m ∉ store.mentioned := by
  induction h with
  | found hfree => exact mentions_eq_false_iff.1 hfree
  | skip _ _ ih => exact ih

theorem SearchEnds.ne_of_mem (h : store.SearchEnds n m) (ht : t ∈ store.triples.toList) :
    t.subject ≠ numberedBlank m ∧ t.object ≠ numberedBlank m := by
  constructor
  · exact fun heq ↦ h.free (mem_mentioned.2 ⟨t, ht, .inl heq⟩)
  · exact fun heq ↦ h.free (mem_mentioned.2 ⟨t, ht, .inr heq⟩)

/-- The search skips taken numbers only. -/
theorem SearchEnds.taken (h : store.SearchEnds n m) (hle : n ≤ k) (hlt : k < m) :
    numberedBlank k ∈ store.mentioned := by
  induction h with
  | found => exact absurd hle (Nat.not_le_of_lt hlt)
  | skip htaken _ ih =>
    rcases Nat.eq_or_lt_of_le hle with rfl | hlt'
    · exact mentions_iff.1 htaken
    · exact ih hlt' hlt

/-- Each triple mentions two terms, so that one of so many numbers is free. -/
theorem exists_free (store : Store) (n : Nat) :
    ∃ k, n ≤ k ∧ k < n + (2 * store.size + 1) ∧ numberedBlank k ∉ store.mentioned := by
  by_contra hnone
  have htaken : ∀ k, n ≤ k → k < n + (2 * store.size + 1) → numberedBlank k ∈ store.mentioned := by
    intro k hle hlt
    by_contra hfree
    exact hnone ⟨k, hle, hlt, hfree⟩
  have hcount := le_length_of_numberedBlank_mem htaken
  rw [length_mentioned] at hcount
  exact Nat.not_succ_le_self _ hcount

/-- With a free number ahead, a bound that does not stop before it does not stop the search. -/
theorem searchEnds_firstUnmentioned {fuel : Nat} (hle : n ≤ k) (hlt : k < n + fuel)
    (hfree : numberedBlank k ∉ store.mentioned) :
    store.SearchEnds n (store.firstUnmentioned fuel n) := by
  induction fuel generalizing n with
  | zero => exact absurd hle (Nat.not_le_of_lt hlt)
  | succ fuel ih =>
    rw [firstUnmentioned]
    by_cases htaken : store.mentions (numberedBlank n) = true
    · have hne : n ≠ k := by
        rintro rfl
        exact hfree (mentions_iff.1 htaken)
      rw [if_pos htaken]
      apply SearchEnds.skip htaken
      apply ih
      · exact Nat.lt_of_le_of_ne hle hne
      · omega
    · rw [if_neg htaken]
      exact .found (Bool.eq_false_of_not_eq_true htaken)

/-- A request for a blank node is answered with that of the number at which the search from the
counter ends. The counter goes to the next number, and nothing else changes. -/
theorem exists_perform_freshBlank (store : Store) :
    ∃ n, store.SearchEnds store.nextBlank n ∧
      store.perform .freshBlank =
        (.blank (numberedBlank n), { store with nextBlank := n + 1 }) := by
  obtain ⟨k, hle, hlt, hfree⟩ := store.exists_free store.nextBlank
  exact ⟨_, searchEnds_firstUnmentioned hle hlt hfree, rfl⟩

/-! ## Runs -/

def Answer.blank? : Answer → Option Term
  | .blank node => some node
  | .inserted _ => none

def handedOut (store : Store) : List Call → List Term
  | [] => []
  | c :: calls => (store.perform c).1.blank?.toList ++ handedOut (store.perform c).2 calls

theorem handedOut_concat (store : Store) (calls : List Call) (c : Call) :
    handedOut store (calls ++ [c]) =
      handedOut store calls ++ ((run store calls).perform c).1.blank?.toList := by
  induction calls generalizing store with
  | nil => exact List.append_nil _
  | cons d calls ih =>
    rw [List.cons_append, handedOut, ih, handedOut, List.append_assoc]
    rfl

/-- What a call does: it inserts a triple, or it hands out a blank node and sets the counter past
its number. -/
theorem perform_cases (store : Store) (c : Call) :
    (∃ t, (store.perform c).1.blank? = none ∧ (store.perform c).2 = store.insert t) ∨
      ∃ n, store.SearchEnds store.nextBlank n ∧
        (store.perform c).1.blank? = some (numberedBlank n) ∧
        (store.perform c).2 = { store with nextBlank := n + 1 } := by
  cases c with
  | insert t => exact .inl ⟨t, rfl, rfl⟩
  | add subject predicate object => exact .inl ⟨⟨subject, predicate, object⟩, rfl, rfl⟩
  | freshBlank =>
    obtain ⟨n, hends, hperform⟩ := store.exists_perform_freshBlank
    rw [hperform]
    exact .inr ⟨n, hends, rfl, rfl⟩

@[simp] theorem nextBlank_insert (store : Store) (t : Triple) :
    (store.insert t).nextBlank = store.nextBlank := by
  rw [insert]
  split <;> rfl

theorem size_insert_le (store : Store) (t : Triple) : (store.insert t).size ≤ store.size + 1 := by
  rw [insert]
  split
  · exact Nat.le_succ _
  · exact Nat.le_of_eq (Array.size_push t)

/-- The counter of a store that handed out some nodes since it stood at `first`. It is past all of
them, and each number that it passed is that of one of them or of a node that a triple mentions. -/
structure CountsPast (store : Store) (first : Nat) (nodes : List Term) : Prop where
  past : ∀ node ∈ nodes, ∃ k < store.nextBlank, node = numberedBlank k
  reason : ∀ k, first ≤ k → k < store.nextBlank → numberedBlank k ∈ nodes ++ store.mentioned

theorem countsPast_nil (store : Store) : store.CountsPast store.nextBlank [] where
  past _ h := absurd h List.not_mem_nil
  reason _ hle hlt := absurd hle (Nat.not_le_of_lt hlt)

theorem CountsPast.not_mem (h : store.CountsPast first nodes) (hle : store.nextBlank ≤ n) :
    numberedBlank n ∉ nodes := by
  intro hnode
  obtain ⟨k, hlt, heq⟩ := h.past _ hnode
  obtain rfl := numberedBlank_injective heq
  exact Nat.not_lt_of_le hle hlt

theorem CountsPast.insert (h : store.CountsPast first nodes) (t : Triple) :
    (store.insert t).CountsPast first nodes where
  past := by simpa using h.past
  reason k hle hlt := by
    rw [nextBlank_insert] at hlt
    rcases List.mem_append.1 (h.reason k hle hlt) with hnode | hmentioned
    · exact List.mem_append_left _ hnode
    · exact List.mem_append_right _ (mem_mentioned_insert hmentioned)

theorem CountsPast.handOut (h : store.CountsPast first nodes)
    (hends : store.SearchEnds store.nextBlank n) :
    ({ store with nextBlank := n + 1 } : Store).CountsPast first (nodes ++ [numberedBlank n]) where
  past node hnode := by
    rcases List.mem_append.1 hnode with hbefore | hnew
    · obtain ⟨k, hlt, rfl⟩ := h.past node hbefore
      exact ⟨k, Nat.lt_succ_of_lt (Nat.lt_of_lt_of_le hlt hends.le), rfl⟩
    · exact ⟨n, Nat.lt_succ_self n, List.mem_singleton.1 hnew⟩
  reason k hle hlt := by
    rw [List.append_assoc]
    -- The number was passed before, is the new one, or was skipped on the way to the new one.
    by_cases hbefore : k < store.nextBlank
    · rcases List.mem_append.1 (h.reason k hle hbefore) with hnode | hmentioned
      · exact List.mem_append_left _ hnode
      · exact List.mem_append_right _ (List.mem_cons_of_mem _ hmentioned)
    · rcases Nat.eq_or_lt_of_le (Nat.le_of_lt_succ hlt) with rfl | hskipped
      · exact List.mem_append_right _ List.mem_cons_self
      · have htaken := hends.taken (Nat.le_of_not_lt hbefore) hskipped
        exact List.mem_append_right _ (List.mem_cons_of_mem _ htaken)

theorem CountsPast.perform (h : store.CountsPast first nodes) (c : Call) :
    (store.perform c).2.CountsPast first (nodes ++ (store.perform c).1.blank?.toList) := by
  rcases store.perform_cases c with ⟨t, hblank, hstore⟩ | ⟨n, hends, hblank, hstore⟩
  · rw [hblank, hstore, Option.toList_none, List.append_nil]
    exact h.insert t
  · rw [hblank, hstore, Option.toList_some]
    exact h.handOut hends

theorem countsPast_run (store : Store) (calls : List Call) :
    (run store calls).CountsPast store.nextBlank (handedOut store calls) := by
  induction calls using List.reverseRecOn with
  | nil => exact countsPast_nil store
  | append_singleton calls c ih =>
    rw [run_concat, handedOut_concat]
    exact ih.perform c

/-- A call adds a triple or a node that was handed out, and not both. -/
theorem size_add_length_handedOut_le (store : Store) (calls : List Call) :
    (run store calls).size + (handedOut store calls).length ≤ store.size + calls.length := by
  induction calls using List.reverseRecOn with
  | nil => exact Nat.le_refl _
  | append_singleton calls c ih =>
    rw [run_concat, handedOut_concat, List.length_append, List.length_append, List.length_singleton]
    rcases (run store calls).perform_cases c with ⟨t, hblank, hstore⟩ | ⟨n, -, hblank, hstore⟩
    · have hinsert := (run store calls).size_insert_le t
      rw [hblank, hstore, Option.toList_none, List.length_nil]
      omega
    · rw [hblank, hstore, Option.toList_some, List.length_singleton]
      change (run store calls).size + _ ≤ _
      omega

/-- The counter passes at most two numbers for each call, and two for each triple that was there
before. On a store that starts empty, fewer than `2 ^ 63` calls do not exhaust a counter of 64
bits. -/
theorem nextBlank_run_le (store : Store) (calls : List Call) :
    (run store calls).nextBlank ≤ store.nextBlank + 2 * (store.size + calls.length) := by
  have hpast := countsPast_run store calls
  have hcalls := size_add_length_handedOut_le store calls
  have hcount : (run store calls).nextBlank - store.nextBlank
      ≤ (handedOut store calls).length + 2 * (run store calls).size := by
    rw [← length_mentioned, ← List.length_append]
    apply le_length_of_numberedBlank_mem
    intro k hle hlt
    exact hpast.reason k hle (by omega)
  omega

/-- After any calls on a store, a further request for a blank node is answered, as the search for a
free number ends. No triple of the store mentions the node of that number, and no earlier request
was answered with it. The request changes nothing but the counter, and the number is bounded by that
of the calls. -/
theorem freshBlank_run (store : Store) (calls : List Call) :
    ∃ n, (run store calls).SearchEnds (run store calls).nextBlank n ∧
      ((run store calls).perform .freshBlank).1 = .blank (numberedBlank n) ∧
      (∀ t ∈ (run store calls).triples.toList,
        t.subject ≠ numberedBlank n ∧ t.object ≠ numberedBlank n) ∧
      numberedBlank n ∉ handedOut store calls ∧
      ((run store calls).perform .freshBlank).2 = { run store calls with nextBlank := n + 1 } ∧
      n < store.nextBlank + 2 * (store.size + calls.length + 1) := by
  obtain ⟨n, hends, hperform⟩ := (run store calls).exists_perform_freshBlank
  have hnew : numberedBlank n ∉ handedOut store calls :=
    (countsPast_run store calls).not_mem hends.le
  have hbound : n < store.nextBlank + 2 * (store.size + calls.length + 1) := by
    have hcounter := nextBlank_run_le store (calls ++ [.freshBlank])
    rw [run_concat, hperform, List.length_append, List.length_singleton] at hcounter
    exact hcounter
  rw [hperform]
  exact ⟨n, hends, rfl, fun _ ↦ hends.ne_of_mem, hnew, rfl, hbound⟩

/-- Two numbers were handed out, and a triple mentions the nodes of two others. -/
example :
    (run {} [.freshBlank, .add (numberedBlank 1) rdfType (numberedBlank 3),
      .freshBlank]).freshBlank.1 = numberedBlank 4 := by
  decide +kernel

end OntoGraph.Rdf.Store
