import Mathlib.Data.List.Perm.Subperm
import Mathlib.Order.Lattice.Nat
import OntoGraph.Graph.Reach
import OntoGraph.Proofs.Graph.Consistency
import OntoGraph.Proofs.Rdf.Store

/-!
# Subtrees

The rounds of a subtree find the nodes of a graph layer by layer: after `d` rounds they have found
exactly the nodes to which a way of at most `d` edges leads. So a subtree holds what its root leads
to and nothing else, each node once and in the order of distance. A queue from which one node after
the other is taken finds the same nodes in the same order, and it runs empty.
-/

namespace OntoGraph.Graph.InstanceGraph

open Relation Rdf

variable {g : InstanceGraph} {root a b c : String} {k d : Nat}

/-! ## Ways and distances -/

def LeadsTo (g : InstanceGraph) (a b : String) : Prop := ∃ e ∈ g.edges, e.source = a ∧ e.target = b

inductive Way (g : InstanceGraph) (a : String) : Nat → String → Prop where
  | here : Way g a 0 a
  | further {k : Nat} {b c : String} (way : Way g a k b) (edge : g.LeadsTo b c) : Way g a (k + 1) c

noncomputable def distance (g : InstanceGraph) (a b : String) : Nat := sInf {k | g.Way a k b}

theorem way_succ_iff : g.Way a (k + 1) c ↔ ∃ b, g.Way a k b ∧ g.LeadsTo b c := by
  constructor
  · intro h
    cases h with
    | further way edge => exact ⟨_, way, edge⟩
  · intro ⟨b, way, edge⟩
    exact way.further edge

theorem exists_way_iff : (∃ k, g.Way a k b) ↔ ReflTransGen g.LeadsTo a b := by
  constructor
  · intro ⟨k, h⟩
    induction h with
    | here => exact .refl
    | further _ edge ih => exact ih.tail edge
  · intro h
    induction h with
    | refl => exact ⟨0, .here⟩
    | tail _ edge ih =>
      obtain ⟨k, way⟩ := ih
      exact ⟨k + 1, way.further edge⟩

theorem Way.distance_le (h : g.Way a k b) : g.distance a b ≤ k := Nat.sInf_le h

/-- Where a node is no farther than `d` edges, there is a way of at most so many. -/
theorem exists_way_le_iff (h : g.Way a k b) : (∃ j ≤ d, g.Way a j b) ↔ g.distance a b ≤ d := by
  constructor
  · intro ⟨j, hj, way⟩
    exact way.distance_le.trans hj
  · intro hle
    have hshortest : g.distance a b ∈ {k | g.Way a k b} := Nat.sInf_mem ⟨k, h⟩
    exact ⟨g.distance a b, hle, hshortest⟩

/-! ## What the edges of a node lead to -/

def successors (g : InstanceGraph) (id : String) : List String := (g.outgoers id).map (·.id)

/-- Where all identifiers are those of nodes, these are their nodes. -/
theorem map_id_nodesAt {ids : List String} (h : ∀ id ∈ ids, ∃ n, g.node? id = some n) :
    (g.nodesAt ids).map (·.id) = ids := by
  unfold nodesAt
  induction ids with
  | nil => rfl
  | cons id ids ih =>
    obtain ⟨n, hn⟩ := h id List.mem_cons_self
    rw [List.filterMap_cons_some hn, List.map_cons, (node?_eq_some hn).2,
      ih fun other hother ↦ h other (List.mem_cons_of_mem _ hother)]

/-- An edge of a consistent graph leads to a node. -/
theorem Consistent.node?_of_leadsTo (h : g.Consistent) (hab : g.LeadsTo a b) :
    ∃ n, g.node? b = some n := by
  obtain ⟨e, he, -, rfl⟩ := hab
  obtain ⟨-, -, target, htarget, -, -, htid, -⟩ := h.edges e he
  exact ⟨target, htid ▸ node?_of_mem h.ids htarget⟩

theorem Consistent.mem_successors (h : g.Consistent) : b ∈ g.successors a ↔ g.LeadsTo a b := by
  have htargets : ∀ id, id ∈ ((g.outEdges a).map (·.target)).eraseDups ↔ g.LeadsTo a id := by
    intro id
    simp only [List.mem_eraseDups, List.mem_map, outEdges, List.mem_filter, decide_eq_true_eq,
      and_assoc, LeadsTo]
  unfold successors outgoers
  rw [map_id_nodesAt fun id hid ↦ h.node?_of_leadsTo ((htargets id).1 hid)]
  exact htargets b

/-! ## Rounds -/

/-- What a round newly finds. -/
def nextRound (g : InstanceGraph) (found last : List String) : List String :=
  ((last.flatMap g.successors).filter (!found.contains ·)).eraseDups

theorem rounds_succ (fuel : Nat) (found last : List String) :
    g.rounds (fuel + 1) found last =
      if (g.nextRound found last).isEmpty then found
      else g.rounds fuel (found ++ g.nextRound found last) (g.nextRound found last) := rfl

theorem Consistent.mem_nextRound (h : g.Consistent) {found last : List String} :
    b ∈ g.nextRound found last ↔ b ∉ found ∧ ∃ a ∈ last, g.LeadsTo a b := by
  unfold nextRound
  rw [List.mem_eraseDups, List.mem_filter, List.mem_flatMap]
  simp only [h.mem_successors, Bool.not_eq_true', List.contains_eq_mem, decide_eq_false_iff_not]
  exact And.comm

/-- What holds after `d` rounds: the nodes up to this distance are found, those at this distance
in the last round. -/
structure Explored (g : InstanceGraph) (root : String) (d : Nat) (found last : List String) :
    Prop where
  nodup : found.Nodup
  nodes : ∀ id ∈ found, ∃ n, g.node? id = some n
  mem_found : ∀ id, id ∈ found ↔ ∃ k ≤ d, g.Way root k id
  mem_last : ∀ id, id ∈ last ↔ g.Way root d id ∧ ∀ k < d, ¬ g.Way root k id
  sorted : found.Pairwise fun a b ↦ g.distance root a ≤ g.distance root b

theorem explored_root {n : Node} (h : g.node? root = some n) : g.Explored root 0 [root] [root] where
  nodup := List.nodup_singleton root
  nodes := List.forall_mem_singleton.2 ⟨n, h⟩
  mem_found id := by
    rw [List.mem_singleton]
    constructor
    · intro hid
      exact ⟨0, le_rfl, hid ▸ .here⟩
    · intro ⟨k, hk, way⟩
      obtain rfl := Nat.le_zero.1 hk
      cases way
      rfl
  mem_last id := by
    rw [List.mem_singleton]
    constructor
    · intro hid
      exact ⟨hid ▸ .here, fun k hk ↦ absurd hk (Nat.not_lt_zero k)⟩
    · intro ⟨way, _⟩
      cases way
      rfl
  sorted := List.pairwise_singleton _ _

variable {found last : List String}

theorem Explored.distance_le (h : g.Explored root d found last) (ha : a ∈ found) :
    g.distance root a ≤ d := by
  obtain ⟨k, hk, way⟩ := (h.mem_found a).1 ha
  exact way.distance_le.trans hk

/-- What a round newly finds is one edge farther than what the round before found. -/
theorem Explored.mem_nextRound (h : g.Explored root d found last) (hg : g.Consistent) :
    b ∈ g.nextRound found last ↔ g.Way root (d + 1) b ∧ ∀ k < d + 1, ¬ g.Way root k b := by
  have hnew : b ∉ found ↔ ∀ k < d + 1, ¬ g.Way root k b := by
    rw [h.mem_found]
    simp only [not_exists, not_and, Nat.lt_succ_iff]
  rw [hg.mem_nextRound, hnew]
  constructor
  · intro ⟨hfar, a, ha, edge⟩
    exact ⟨((h.mem_last a).1 ha).1.further edge, hfar⟩
  · intro ⟨way, hfar⟩
    obtain ⟨a, ha, edge⟩ := way_succ_iff.1 way
    refine ⟨hfar, a, (h.mem_last a).2 ⟨ha, fun k hk shorter ↦ ?_⟩, edge⟩
    exact hfar (k + 1) (Nat.succ_lt_succ hk) (shorter.further edge)

/-- One more round explores one more layer. -/
theorem Explored.next (h : g.Explored root d found last) (hg : g.Consistent) :
    g.Explored root (d + 1) (found ++ g.nextRound found last) (g.nextRound found last) := by
  have hnew : ∀ id ∈ g.nextRound found last, g.distance root id = d + 1 := by
    intro id hid
    obtain ⟨way, hfar⟩ := (h.mem_nextRound hg).1 hid
    apply le_antisymm way.distance_le
    by_contra hlt
    obtain ⟨k, hk, shorter⟩ := (exists_way_le_iff way).2 (Nat.lt_succ_iff.1 (not_le.1 hlt))
    exact hfar k (Nat.lt_succ_of_le hk) shorter
  constructor
  case nodup =>
    apply List.nodup_append.2
    refine ⟨h.nodup, nodup_eraseDups _, fun a ha b hb heq ↦ ?_⟩
    exact (hg.mem_nextRound.1 hb).1 (heq ▸ ha)
  case nodes =>
    intro id hid
    rcases List.mem_append.1 hid with hid | hid
    · exact h.nodes id hid
    · obtain ⟨-, a, -, edge⟩ := hg.mem_nextRound.1 hid
      exact hg.node?_of_leadsTo edge
  case mem_found =>
    intro id
    rw [List.mem_append, h.mem_found, h.mem_nextRound hg]
    constructor
    · intro hid
      rcases hid with ⟨k, hk, way⟩ | ⟨way, -⟩
      · exact ⟨k, hk.trans (Nat.le_succ d), way⟩
      · exact ⟨d + 1, le_rfl, way⟩
    · intro ⟨k, hk, way⟩
      by_cases hnear : ∃ j ≤ d, g.Way root j id
      · exact .inl hnear
      · have hfar : ∀ j < d + 1, ¬ g.Way root j id := fun j hj shorter ↦
          hnear ⟨j, Nat.lt_succ_iff.1 hj, shorter⟩
        obtain rfl : k = d + 1 :=
          le_antisymm hk (not_lt.1 fun hlt ↦ hfar k hlt way)
        exact .inr ⟨way, hfar⟩
  case mem_last => exact fun id ↦ h.mem_nextRound hg
  case sorted =>
    apply List.pairwise_append.2
    refine ⟨h.sorted, List.pairwise_of_forall_mem_list fun a ha b hb ↦ ?_, fun a ha b hb ↦ ?_⟩
    · rw [hnew a ha, hnew b hb]
    · rw [hnew b hb]
      exact (h.distance_le ha).trans (Nat.le_succ d)

/-- Where a round finds nothing, all that the root leads to is found. -/
theorem Explored.complete (h : g.Explored root d found last) (hg : g.Consistent)
    (hnext : g.nextRound found last = []) (way : g.Way root k b) : b ∈ found := by
  induction way with
  | here => exact (h.mem_found root).2 ⟨0, Nat.zero_le d, .here⟩
  | @further k a b way edge ih =>
    by_contra hnew
    obtain ⟨j, hj, shorter⟩ := (h.mem_found a).1 ih
    -- the layer before holds the node from which the edge leads, or a nearer one does
    rcases hj.lt_or_eq with hlt | rfl
    · exact hnew ((h.mem_found b).2 ⟨j + 1, hlt, shorter.further edge⟩)
    · have hlast : a ∈ last := by
        apply (h.mem_last a).2
        refine ⟨shorter, fun i hi nearer ↦ hnew ?_⟩
        exact (h.mem_found b).2 ⟨i + 1, hi, nearer.further edge⟩
      have hmem : b ∈ g.nextRound found last := hg.mem_nextRound.2 ⟨hnew, a, hlast, edge⟩
      rw [hnext] at hmem
      exact List.not_mem_nil hmem

/-! ## A queue -/

/-- Puts an identifier at the end of what is found and of the queue, unless it was found before. -/
def enqueue (state : List String × List String) (id : String) : List String × List String :=
  if state.1.contains id then state else (state.1 ++ [id], state.2 ++ [id])

/-- Takes the first node from the queue and enqueues the nodes that its edges lead to. -/
def visit (g : InstanceGraph) : List String × List String → List String × List String
  | (found, []) => (found, [])
  | (found, id :: waiting) => (g.successors id).foldl enqueue (found, waiting)

/-- What several identifiers newly add is found and waits in their order. -/
theorem foldl_enqueue (ids found waiting : List String) :
    ids.foldl enqueue (found, waiting) =
      (found ++ (ids.filter (!found.contains ·)).eraseDups,
        waiting ++ (ids.filter (!found.contains ·)).eraseDups) := by
  induction ids generalizing found waiting with
  | nil => simp
  | cons id ids ih =>
    rw [List.foldl_cons, enqueue]
    cases hfound : found.contains id with
    | true =>
      rw [if_pos rfl, ih, List.filter_cons_of_neg (by rw [hfound]; decide)]
    | false =>
      have hrest : ids.filter (!(found ++ [id]).contains ·) =
          (ids.filter (!found.contains ·)).filter (!· == id) := by
        rw [List.filter_filter]
        apply List.filter_congr
        intro other _
        by_cases heq : other = id <;> simp [heq]
      rw [if_neg Bool.false_ne_true, ih, hrest,
        List.filter_cons_of_pos (by rw [hfound]; rfl), List.eraseDups_cons]
      simp only [List.append_assoc, List.singleton_append]

/-- To visit the nodes of a round one after the other is to make the next round. -/
theorem iterate_visit_round (found last waiting : List String) :
    g.visit^[last.length] (found, last ++ waiting) =
      (found ++ g.nextRound found last, waiting ++ g.nextRound found last) := by
  suffices h : g.visit^[last.length] (found, last ++ waiting) =
      (last.flatMap g.successors).foldl enqueue (found, waiting) by
    rw [h, foldl_enqueue, nextRound]
  induction last generalizing found waiting with
  | nil => rfl
  | cons id last ih =>
    rw [List.length_cons, Function.iterate_succ_apply, List.cons_append, visit, foldl_enqueue,
      List.append_assoc, ih, List.flatMap_cons, List.foldl_append, foldl_enqueue (g.successors id)]

/-! ## All rounds -/

/-- Nodes that are found once are no more than the nodes of the graph. -/
theorem Explored.length_le (h : g.Explored root d found last) : found.length ≤ g.nodes.length := by
  have hsubset : found ⊆ g.nodes.map (·.id) := by
    intro id hid
    obtain ⟨n, hn⟩ := h.nodes id hid
    obtain ⟨hmem, rfl⟩ := node?_eq_some hn
    exact List.mem_map_of_mem hmem
  calc found.length
      ≤ (g.nodes.map (·.id)).length := (List.subperm_of_subset h.nodup hsubset).length_le
    _ = g.nodes.length := List.length_map _

/-- With one round for each node the exploration is complete, and a queue that holds the last round
leads to the same. -/
theorem Explored.rounds (h : g.Explored root d found last) (hg : g.Consistent) (fuel : Nat)
    (hfuel : g.nodes.length < found.length + fuel) :
    ∃ d' later last', g.rounds fuel found last = found ++ later ∧
      g.Explored root d' (found ++ later) last' ∧ g.nextRound (found ++ later) last' = [] ∧
      g.visit^[last.length + later.length] (found, last) = (found ++ later, []) := by
  induction fuel generalizing d found last with
  | zero => exact absurd hfuel (Nat.not_lt.2 h.length_le)
  | succ fuel ih =>
    have hround := iterate_visit_round (g := g) found last []
    rw [List.append_nil, List.nil_append] at hround
    rw [rounds_succ]
    by_cases hnext : g.nextRound found last = []
    · rw [hnext, List.append_nil] at hround
      rw [hnext, if_pos List.isEmpty_nil]
      refine ⟨d, [], last, (List.append_nil _).symm, ?_, ?_, ?_⟩
      · rwa [List.append_nil]
      · rwa [List.append_nil]
      · rwa [List.append_nil]
    · have hpos := List.length_pos_iff.2 hnext
      obtain ⟨d', later, last', hrounds, hexplored, hdone, hvisit⟩ := ih (h.next hg) (by
        rw [List.length_append]
        omega)
      rw [List.append_assoc] at hrounds hexplored hdone hvisit
      rw [if_neg (by rwa [List.isEmpty_iff])]
      refine ⟨d', g.nextRound found last ++ later, last', hrounds, hexplored, hdone, ?_⟩
      rw [List.length_append, Nat.add_comm last.length, Function.iterate_add_apply, hround, hvisit]

/-- What a subtree is: the result of an exploration that is complete. -/
theorem Consistent.subtree (hg : g.Consistent) {n : Node} (hroot : g.node? root = some n) :
    ∃ d later last, g.subtree root = root :: later ∧ g.Explored root d (g.subtree root) last ∧
      g.nextRound (g.subtree root) last = [] ∧
      g.visit^[(g.subtree root).length] ([root], [root]) = (g.subtree root, []) := by
  have hstart : g.subtree root = g.rounds g.nodes.length [root] [root] := by
    rw [InstanceGraph.subtree, hroot, Option.isSome_some, if_pos rfl]
  obtain ⟨d, later, last, hrounds, hexplored, hdone, hvisit⟩ :=
    (explored_root hroot).rounds hg g.nodes.length (by rw [List.length_singleton]; omega)
  rw [hstart, hrounds]
  refine ⟨d, later, last, rfl, hexplored, hdone, ?_⟩
  rwa [List.length_append]

theorem subtree_eq_nil (h : g.node? root = none) : g.subtree root = [] := by
  rw [InstanceGraph.subtree, h]
  rfl

/-- A subtree holds the nodes to which its root leads. -/
theorem Consistent.mem_subtree (hg : g.Consistent) {n : Node} (hroot : g.node? root = some n) :
    b ∈ g.subtree root ↔ ReflTransGen g.LeadsTo root b := by
  obtain ⟨d, later, last, -, hexplored, hdone, -⟩ := hg.subtree hroot
  rw [← exists_way_iff]
  constructor
  · intro hb
    obtain ⟨k, -, way⟩ := (hexplored.mem_found b).1 hb
    exact ⟨k, way⟩
  · intro ⟨k, way⟩
    exact hexplored.complete hg hdone way

/-- A subtree is empty or the result of an exploration. -/
theorem Consistent.subtree_eq_nil_or_explored (hg : g.Consistent) (root : String) :
    g.subtree root = [] ∨ ∃ d last, g.Explored root d (g.subtree root) last := by
  cases hroot : g.node? root with
  | none => exact .inl (subtree_eq_nil hroot)
  | some n =>
    obtain ⟨d, later, last, -, hexplored, -⟩ := hg.subtree hroot
    exact .inr ⟨d, last, hexplored⟩

theorem Consistent.nodup_subtree (hg : g.Consistent) (root : String) : (g.subtree root).Nodup := by
  rcases hg.subtree_eq_nil_or_explored root with hempty | ⟨d, last, hexplored⟩
  · rw [hempty]
    exact List.nodup_nil
  · exact hexplored.nodup

/-- In a subtree no farther node comes before a nearer one. -/
theorem Consistent.sorted_subtree (hg : g.Consistent) (root : String) :
    (g.subtree root).Pairwise fun a b ↦ g.distance root a ≤ g.distance root b := by
  rcases hg.subtree_eq_nil_or_explored root with hempty | ⟨d, last, hexplored⟩
  · rw [hempty]
    exact List.Pairwise.nil
  · exact hexplored.sorted

/-- What a subtree holds are nodes. -/
theorem Consistent.node?_of_mem_subtree (hg : g.Consistent) (hb : b ∈ g.subtree root) :
    ∃ n, g.node? b = some n := by
  rcases hg.subtree_eq_nil_or_explored root with hempty | ⟨d, last, hexplored⟩
  · rw [hempty] at hb
    exact absurd hb List.not_mem_nil
  · exact hexplored.nodes b hb

/-- An edge that leaves a subtree's node does not leave the subtree. -/
theorem Consistent.mem_subtree_of_leadsTo (hg : g.Consistent) (ha : a ∈ g.subtree root)
    (hab : g.LeadsTo a b) : b ∈ g.subtree root := by
  cases hroot : g.node? root with
  | none =>
    rw [subtree_eq_nil hroot] at ha
    exact absurd ha List.not_mem_nil
  | some n => exact (hg.mem_subtree hroot).2 (((hg.mem_subtree hroot).1 ha).tail hab)

end OntoGraph.Graph.InstanceGraph
