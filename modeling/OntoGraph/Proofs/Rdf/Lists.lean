import OntoGraph.Proofs.Fallible
import OntoGraph.Proofs.Rdf.Relabel

/-!
# Reading a list

From the head of a list, the objects of `rdf:rest` lead from node to node. The list is read if they
lead to `rdf:nil` and each node before it has an object of `rdf:first`; these objects are the items
then. A list is not read if the chain breaks off at a node that lacks one of the two, or if it goes
on for ever. The reader takes a node that comes again as a sign of the second, and that is what it
is: in a chain that ends, a node is further from the end than those after it, so that no node comes
twice. It comes to its result by itself, since it goes from one subject of the store to another.
-/

namespace OntoGraph.Rdf.Store

variable {store : Store} {head node next item : Term} {items : List Term}

/-! ## The chain -/

/-- The node after so many steps along `rdf:rest`. A step takes the first object. -/
def listNode? (store : Store) (head : Term) : Nat → Option Term
  | 0 => some head
  | n + 1 => (store.listNode? head n).bind (store.object? · rdfRest)

/-- The chain reaches `rdf:nil` after as many steps as there are items, and each of these is the
first object of `rdf:first` of its node. -/
structure HoldsList (store : Store) (head : Term) (items : List Term) : Prop where
  ends : store.listNode? head items.length = some (.iri rdfNil)
  before : ∀ i < items.length, store.listNode? head i ≠ some (.iri rdfNil)
  first : ∀ i (hi : i < items.length),
    (store.listNode? head i).bind (store.object? · rdfFirst) = some items[i]

/-- The chain comes to a node without an item or without a node after it, and not to `rdf:nil`
before. -/
def BreaksOff (store : Store) (head : Term) : Prop :=
  ∃ n node, store.listNode? head n = some node ∧
    (∀ i ≤ n, store.listNode? head i ≠ some (.iri rdfNil)) ∧
    (store.object? node rdfFirst = none ∨ store.object? node rdfRest = none)

/-- The chain has a node after any number of steps, and never comes to `rdf:nil`. -/
def NeverEnds (store : Store) (head : Term) : Prop :=
  ∀ n, ∃ node, store.listNode? head n = some node ∧ node ≠ .iri rdfNil

/-- The chain from a node is the node before the chain from the next one. -/
theorem listNode?_succ (h : store.object? node rdfRest = some next) (n : Nat) :
    store.listNode? node (n + 1) = store.listNode? next n := by
  induction n with
  | zero => exact h
  | succ n ih => rw [listNode?, ih, listNode?]

/-- After a node without a next one there is nothing. -/
theorem listNode?_succ_of_none (h : store.object? node rdfRest = none) (n : Nat) :
    store.listNode? node (n + 1) = none := by
  induction n with
  | zero => exact h
  | succ n ih => rw [listNode?, ih, Option.bind_none]

/-- Where the chain has come to an end, it has no further nodes. -/
theorem listNode?_eq_none_of_le {m n : Nat} (hle : m ≤ n) (h : store.listNode? head m = none) :
    store.listNode? head n = none := by
  induction hle with
  | refl => exact h
  | step _ ih => rw [listNode?, ih, Option.bind_none]

/-- The node `rdf:nil` is the head of the empty list, whatever is said of it. -/
@[simp] theorem holdsList_nil_iff : store.HoldsList node [] ↔ node = .iri rdfNil := by
  constructor
  · exact fun h ↦ Option.some.inj h.ends
  · rintro rfl
    exact ⟨rfl, fun _ hi ↦ absurd hi (Nat.not_lt_zero _), fun _ hi ↦ absurd hi (Nat.not_lt_zero _)⟩

/-- Any other list has its first item at the head, and its further items from the next node on. -/
theorem holdsList_cons_iff :
    store.HoldsList node (item :: items) ↔
      node ≠ .iri rdfNil ∧ store.object? node rdfFirst = some item ∧
        ∃ next, store.object? node rdfRest = some next ∧ store.HoldsList next items := by
  constructor
  · intro h
    have hproper : node ≠ .iri rdfNil := fun heq ↦
      h.before 0 (Nat.zero_lt_succ _) (congrArg some heq)
    refine ⟨hproper, h.first 0 (Nat.zero_lt_succ _), ?_⟩
    cases hrest : store.object? node rdfRest with
    | none =>
      have hends := h.ends
      rw [List.length_cons, listNode?_succ_of_none hrest] at hends
      cases hends
    | some next =>
      have hnode := listNode?_succ hrest
      refine ⟨next, rfl, ?_, fun i hi ↦ ?_, fun i hi ↦ ?_⟩
      · rw [← hnode]
        exact h.ends
      · rw [← hnode]
        exact h.before (i + 1) (Nat.succ_lt_succ hi)
      · rw [← hnode]
        exact h.first (i + 1) (Nat.succ_lt_succ hi)
  · rintro ⟨hproper, hfirst, next, hrest, h⟩
    have hnode := listNode?_succ hrest
    refine ⟨(hnode _).trans h.ends, fun i hi ↦ ?_, fun i hi ↦ ?_⟩
    · cases i with
      | zero => exact fun heq ↦ hproper (Option.some.inj heq)
      | succ i =>
        rw [hnode]
        exact h.before i (Nat.lt_of_succ_lt_succ hi)
    · cases i with
      | zero => exact hfirst
      | succ i =>
        rw [hnode]
        exact h.first i (Nat.lt_of_succ_lt_succ hi)

/-- A node is the head of one list at most. -/
theorem HoldsList.unique {others : List Term} (h : store.HoldsList node items)
    (hothers : store.HoldsList node others) : items = others := by
  induction items generalizing node others with
  | nil =>
    cases others with
    | nil => rfl
    | cons other others =>
      exact absurd (holdsList_nil_iff.1 h) (holdsList_cons_iff.1 hothers).1
  | cons item items ih =>
    obtain ⟨hproper, hfirst, next, hrest, h⟩ := holdsList_cons_iff.1 h
    cases others with
    | nil => exact absurd (holdsList_nil_iff.1 hothers) hproper
    | cons other others =>
      obtain ⟨-, hfirst', next', hrest', hfurther⟩ := holdsList_cons_iff.1 hothers
      obtain rfl := Option.some.inj (hrest.symm.trans hrest')
      obtain rfl := Option.some.inj (hfirst.symm.trans hfirst')
      exact congrArg (item :: ·) (ih h hfurther)

theorem BreaksOff.of_next (hproper : node ≠ .iri rdfNil)
    (hrest : store.object? node rdfRest = some next) (h : store.BreaksOff next) :
    store.BreaksOff node := by
  obtain ⟨n, last, hlast, hbefore, hmissing⟩ := h
  refine ⟨n + 1, last, (listNode?_succ hrest n).trans hlast, fun i hi ↦ ?_, hmissing⟩
  cases i with
  | zero => exact fun heq ↦ hproper (Option.some.inj heq)
  | succ i =>
    rw [listNode?_succ hrest]
    exact hbefore i (Nat.le_of_succ_le_succ hi)

theorem breaksOff_of_missing (hproper : node ≠ .iri rdfNil)
    (h : store.object? node rdfFirst = none ∨ store.object? node rdfRest = none) :
    store.BreaksOff node := by
  refine ⟨0, node, rfl, fun i hi ↦ ?_, h⟩
  obtain rfl := Nat.le_zero.1 hi
  exact fun heq ↦ hproper (Option.some.inj heq)

/-- A chain that has no node other than `rdf:nil` after some number of steps is that of a list or
breaks off. -/
theorem holdsList_or_breaksOff {n : Nat}
    (h : ∀ node, store.listNode? head n = some node → node = .iri rdfNil) :
    (∃ items, store.HoldsList head items) ∨ store.BreaksOff head := by
  induction n generalizing head with
  | zero => exact .inl ⟨[], holdsList_nil_iff.2 (h head rfl)⟩
  | succ n ih =>
    by_cases hproper : head = .iri rdfNil
    · exact .inl ⟨[], holdsList_nil_iff.2 hproper⟩
    cases hfirst : store.object? head rdfFirst with
    | none => exact .inr (breaksOff_of_missing hproper (.inl hfirst))
    | some item =>
      cases hrest : store.object? head rdfRest with
      | none => exact .inr (breaksOff_of_missing hproper (.inr hrest))
      | some next =>
        rw [listNode?_succ hrest] at h
        rcases ih h with ⟨items, hitems⟩ | hbreaks
        · exact .inl ⟨item :: items, holdsList_cons_iff.2 ⟨hproper, hfirst, next, hrest, hitems⟩⟩
        · exact .inr (hbreaks.of_next hproper hrest)

/-- There is no list exactly if the chain breaks off or never ends. -/
theorem not_holdsList_iff :
    (∀ items, ¬store.HoldsList head items) ↔ store.BreaksOff head ∨ store.NeverEnds head := by
  constructor
  · intro hno
    by_cases hends : store.NeverEnds head
    · exact .inr hends
    · obtain ⟨n, hn⟩ := not_forall.1 hends
      have hnil : ∀ node, store.listNode? head n = some node → node = .iri rdfNil := by
        intro node hnode
        by_contra hproper
        exact hn ⟨node, hnode, hproper⟩
      rcases holdsList_or_breaksOff hnil with ⟨items, hitems⟩ | hbreaks
      · exact absurd hitems (hno items)
      · exact .inl hbreaks
  · rintro (⟨n, node, hnode, hbefore, hmissing⟩ | hends) items h
    · have hn : n < items.length := by
        by_contra hle
        exact hbefore _ (Nat.le_of_not_lt hle) h.ends
      rcases hmissing with hfirst | hrest
      · have hitem := h.first n hn
        rw [hnode, Option.bind_some, hfirst] at hitem
        cases hitem
      · have hstop : store.listNode? head (n + 1) = none := by
          rw [listNode?, hnode, Option.bind_some, hrest]
        have hends := h.ends
        rw [listNode?_eq_none_of_le hn hstop] at hends
        cases hends
    · obtain ⟨node, hnode, hproper⟩ := hends items.length
      exact hproper (Option.some.inj (hnode.symm.trans h.ends))

/-! ## The end of a chain -/

/-- Does a chain end at the node: is it `rdf:nil`, or does it lack an item or a node after it? -/
def IsLast (store : Store) (node : Term) : Prop :=
  node = .iri rdfNil ∨ store.object? node rdfFirst = none ∨ store.object? node rdfRest = none

/-- The chain ends after so many steps, and not before. -/
inductive EndsAfter (store : Store) : Term → Nat → Prop where
  | last {node : Term} (h : store.IsLast node) : EndsAfter store node 0
  | step {node next : Term} {n : Nat} (h : ¬store.IsLast node)
    (rest : store.object? node rdfRest = some next) (further : EndsAfter store next n) :
    EndsAfter store node (n + 1)

theorem EndsAfter.unique {m n : Nat} (h : store.EndsAfter node m) (h' : store.EndsAfter node n) :
    m = n := by
  induction h generalizing n with
  | last hlast =>
    cases h' with
    | last => rfl
    | step hnot => exact absurd hlast hnot
  | step hnot hrest _ ih =>
    cases h' with
    | last hlast => exact absurd hlast hnot
    | step _ hrest' hfurther =>
      obtain rfl := Option.some.inj (hrest.symm.trans hrest')
      rw [ih hfurther]

/-- A chain with a node at which it ends does so there or before. -/
theorem exists_endsAfter {n : Nat} (hnode : store.listNode? head n = some node)
    (hlast : store.IsLast node) : ∃ m, store.EndsAfter head m := by
  induction n generalizing head with
  | zero =>
    cases hnode
    exact ⟨0, .last hlast⟩
  | succ n ih =>
    by_cases hhead : store.IsLast head
    · exact ⟨0, .last hhead⟩
    cases hrest : store.object? head rdfRest with
    | none => exact absurd (.inr (.inr hrest)) hhead
    | some next =>
      rw [listNode?_succ hrest] at hnode
      obtain ⟨m, hm⟩ := ih hnode
      exact ⟨m + 1, .step hhead hrest hm⟩

theorem HoldsList.endsAfter (h : store.HoldsList head items) : ∃ n, store.EndsAfter head n :=
  exists_endsAfter h.ends (.inl rfl)

theorem BreaksOff.endsAfter (h : store.BreaksOff head) : ∃ n, store.EndsAfter head n := by
  obtain ⟨n, node, hnode, -, hmissing⟩ := h
  exact exists_endsAfter hnode (.inr hmissing)

/-! ## The walk -/

/-- Why a walk along a chain stops before `rdf:nil`. -/
inductive WalkStop where
  /-- It is at a node where it was before. -/
  | again
  /-- It is at a node that lacks an item or a node after it. -/
  | missing

/-- How a walk along the chain comes out, after so many items. It goes on by itself until one of the
first four cases ends it; nothing else bounds it. -/
inductive Walk (store : Store) : (visited : List Term) → (node : Term) → (rounds : Nat) →
    (outcome : Except WalkStop (List Term)) → Prop where
  | nil {visited : List Term} : Walk store visited (.iri rdfNil) 0 (.ok [])
  | again {visited : List Term} {node : Term} (proper : node ≠ .iri rdfNil)
    (met : node ∈ visited) : Walk store visited node 0 (.error .again)
  | noItem {visited : List Term} {node : Term} (proper : node ≠ .iri rdfNil)
    (new : node ∉ visited) (missing : store.object? node rdfFirst = none) :
    Walk store visited node 0 (.error .missing)
  | noRest {visited : List Term} {node item : Term} (proper : node ≠ .iri rdfNil)
    (new : node ∉ visited) (first : store.object? node rdfFirst = some item)
    (missing : store.object? node rdfRest = none) : Walk store visited node 0 (.error .missing)
  | step {visited : List Term} {node item next : Term} {rounds : Nat}
    {outcome : Except WalkStop (List Term)} (proper : node ≠ .iri rdfNil) (new : node ∉ visited)
    (first : store.object? node rdfFirst = some item)
    (rest : store.object? node rdfRest = some next)
    (further : Walk store (node :: visited) next rounds outcome) :
    Walk store visited node (rounds + 1) (outcome.map (item :: ·))

variable {visited : List Term} {rounds : Nat} {outcome : Except WalkStop (List Term)}

/-- What a walk reads is what the node holds. -/
theorem Walk.holdsList (h : store.Walk visited node rounds outcome) (houtcome : outcome = .ok items) :
    store.HoldsList node items := by
  induction h generalizing items with
  | nil =>
    cases houtcome
    exact holdsList_nil_iff.2 rfl
  | again => cases houtcome
  | noItem => cases houtcome
  | noRest => cases houtcome
  | step proper new first rest further ih =>
    obtain ⟨items, hitems, rfl⟩ := Fallible.map_eq_ok.1 houtcome
    exact holdsList_cons_iff.2 ⟨proper, first, _, rest, ih hitems⟩

/-- Where a walk lacks something, the chain breaks off. -/
theorem Walk.breaksOff (h : store.Walk visited node rounds outcome)
    (houtcome : outcome = .error .missing) : store.BreaksOff node := by
  induction h with
  | nil => cases houtcome
  | again => cases houtcome
  | noItem proper new missing => exact breaksOff_of_missing proper (.inl missing)
  | noRest proper new first missing => exact breaksOff_of_missing proper (.inr missing)
  | step proper new first rest further ih =>
    exact (ih (Fallible.map_eq_error.1 houtcome)).of_next proper rest

/-- A walk along a chain that ends does not come to a node again. The nodes that were visited are
further from the end than the one where the walk is. -/
theorem Walk.ne_again {n : Nat} (h : store.Walk visited node rounds outcome)
    (hends : store.EndsAfter node n)
    (hvisited : ∀ other ∈ visited, ∃ m, n < m ∧ store.EndsAfter other m) :
    outcome ≠ .error .again := by
  induction h generalizing n with
  | nil => nofun
  | again proper met =>
    obtain ⟨m, hlt, hends'⟩ := hvisited _ met
    exact absurd (hends.unique hends') (Nat.ne_of_lt hlt)
  | noItem => nofun
  | noRest => nofun
  | step proper new first rest further ih =>
    intro houtcome
    cases hends with
    | last hlast =>
      rcases hlast with hnil | hfirst | hrest
      · exact proper hnil
      · rw [first] at hfirst
        cases hfirst
      · rw [rest] at hrest
        cases hrest
    | step hnot hrest hfurther =>
      obtain rfl := Option.some.inj (rest.symm.trans hrest)
      refine ih hfurther ?_ (Fallible.map_eq_error.1 houtcome)
      refine List.forall_mem_cons.2
        ⟨⟨_, Nat.lt_succ_self _, .step hnot hrest hfurther⟩, fun other hother ↦ ?_⟩
      obtain ⟨m, hlt, hends⟩ := hvisited other hother
      exact ⟨m, Nat.lt_of_succ_lt hlt, hends⟩

/-- Which outcome a walk from the head has depends on the chain alone. -/
theorem Walk.outcome_iff (h : store.Walk [] head rounds outcome) :
    (∀ items, outcome = .ok items ↔ store.HoldsList head items) ∧
      (outcome = .error .missing ↔ store.BreaksOff head) ∧
      (outcome = .error .again ↔ store.NeverEnds head ∧ ¬store.BreaksOff head) := by
  rcases outcome with (_ | _) | read
  · have hends : ¬∃ n, store.EndsAfter head n := fun ⟨n, hn⟩ ↦
      h.ne_again hn (fun _ hother ↦ absurd hother List.not_mem_nil) rfl
    have hlist : ∀ items, ¬store.HoldsList head items := fun _ hitems ↦ hends hitems.endsAfter
    have hbreaks : ¬store.BreaksOff head := fun hbreaks ↦ hends hbreaks.endsAfter
    have hnever := (not_holdsList_iff.1 hlist).resolve_left hbreaks
    exact ⟨fun items ↦ iff_of_false nofun (hlist items), iff_of_false nofun hbreaks,
      iff_of_true rfl ⟨hnever, hbreaks⟩⟩
  · have hbreaks := h.breaksOff rfl
    have hlist := not_holdsList_iff.2 (.inl hbreaks)
    exact ⟨fun items ↦ iff_of_false nofun (hlist items), iff_of_true rfl hbreaks,
      iff_of_false nofun fun hnever ↦ hnever.2 hbreaks⟩
  · have hlist := h.holdsList rfl
    have hother : ¬(store.BreaksOff head ∨ store.NeverEnds head) := fun hother ↦
      not_holdsList_iff.2 hother read hlist
    refine ⟨fun items ↦ ⟨?_, fun hitems ↦ ?_⟩, iff_of_false nofun (mt .inl hother),
      iff_of_false nofun fun hnever ↦ hother (.inr hnever.1)⟩
    · rintro ⟨⟩
      exact hlist
    · rw [hlist.unique hitems]

/-! ## The bound -/

/-- Only subjects have objects. -/
theorem mem_subjects_of_object? {predicate : String} {object : Term}
    (h : store.object? node predicate = some object) : node ∈ store.subjects.toList :=
  mem_subjects.2 ⟨_, mem_objects.1 (List.mem_of_mem_head? h), rfl⟩

/-- Different subjects are no more than those of the store. -/
theorem length_le_of_visited {visited : List Term} (hnodup : visited.Nodup)
    (hsubjects : visited ⊆ store.subjects.toList) : visited.length ≤ store.subjects.size :=
  calc visited.length
      ≤ store.subjects.toList.length := (List.subperm_of_subset hnodup hsubjects).length_le
    _ = store.subjects.size := Array.length_toList

/-- What is read with enough fuel is how the walk comes out by itself. Each round visits one more
subject. -/
theorem walk_listFrom {fuel : Nat} (hnodup : visited.Nodup)
    (hsubjects : visited ⊆ store.subjects.toList)
    (hfuel : store.subjects.size < visited.length + fuel) :
    ∃ rounds outcome, visited.length + rounds ≤ store.subjects.size ∧
      store.Walk visited node rounds outcome ∧
      store.listFrom fuel visited node = outcome.toOption := by
  induction fuel generalizing visited node with
  | zero => exact absurd hfuel (Nat.not_lt_of_le (length_le_of_visited hnodup hsubjects))
  | succ fuel ih =>
    have hle := length_le_of_visited hnodup hsubjects
    by_cases hproper : node = .iri rdfNil
    · subst hproper
      rw [listFrom_nil]
      exact ⟨0, _, hle, .nil, rfl⟩
    rw [listFrom_succ hproper]
    by_cases hmet : node ∈ visited
    · rw [if_pos hmet]
      exact ⟨0, _, hle, .again hproper hmet, rfl⟩
    rw [if_neg hmet]
    cases hfirst : store.object? node rdfFirst with
    | none => exact ⟨0, _, hle, .noItem hproper hmet hfirst, rfl⟩
    | some item =>
      cases hrest : store.object? node rdfRest with
      | none => exact ⟨0, _, hle, .noRest hproper hmet hfirst hrest, rfl⟩
      | some next =>
        obtain ⟨rounds, outcome, hrounds, further, hread⟩ := @ih next (node :: visited)
          (List.nodup_cons.2 ⟨hmet, hnodup⟩)
          (List.cons_subset.2 ⟨mem_subjects_of_object? hfirst, hsubjects⟩)
          (by rw [List.length_cons]; omega)
        refine ⟨rounds + 1, _, ?_, .step hproper hmet hfirst hrest further, ?_⟩
        · rw [List.length_cons] at hrounds
          omega
        · rw [Option.bind_some, Option.bind_some, hread]
          cases outcome <;> rfl

/-- A list is read exactly when the chain from its head leads to `rdf:nil` over nodes with items,
and what is read is these items. Otherwise the chain breaks off or never ends. In each case the walk
comes to its outcome by itself, in no more rounds than there are subjects; that it is at a node
again is the outcome for the chains that go on for ever, and only for them. -/
theorem list?_iff_chain (store : Store) (head : Term) :
    (∀ items, store.list? head = some items ↔ store.HoldsList head items) ∧
      (store.list? head = none ↔ store.BreaksOff head ∨ store.NeverEnds head) ∧
      ∃ rounds ≤ store.subjects.size, ∃ outcome, store.Walk [] head rounds outcome ∧
        store.list? head = outcome.toOption ∧
        (outcome = .error .again ↔ store.NeverEnds head ∧ ¬store.BreaksOff head) := by
  obtain ⟨rounds, outcome, hrounds, hwalk, hread⟩ :=
    @walk_listFrom store head [] (store.subjects.size + 1) List.nodup_nil (List.nil_subset _)
      (by rw [List.length_nil]; omega)
  rw [List.length_nil, Nat.zero_add] at hrounds
  obtain ⟨hlist, -, hagain⟩ := hwalk.outcome_iff
  have hitems : ∀ items, store.list? head = some items ↔ store.HoldsList head items := by
    intro items
    rw [← hlist, list?, hread]
    cases outcome <;> simp [Except.toOption]
  refine ⟨hitems, ?_, rounds, hrounds, outcome, hwalk, hread, hagain⟩
  rw [← not_holdsList_iff, Option.eq_none_iff_forall_ne_some]
  exact forall_congr' fun items ↦ not_congr (hitems items)

end OntoGraph.Rdf.Store
