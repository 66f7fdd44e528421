import OntoGraph.Proofs.Graph.Edit

/-!
# The content of a graph by node and path

A graph holds, for each node and path, a list of entries and a list of targets of edges. Every edit
that adds or writes a value or adds an edge changes one of these lists and leaves all others as they
are.
-/

namespace OntoGraph.Graph.InstanceGraph

open Ontology

variable {g : InstanceGraph} {id path : String} {n : Node}

def entriesAt (g : InstanceGraph) (id path : String) : List Entry :=
  ((g.node? id).map (·.entriesOf path)).getD []

/-- The nodes that the edges of a node for a path lead to, in order. -/
def targetsAt (g : InstanceGraph) (id path : String) : List String :=
  ((g.outEdges id).filter (·.path = path)).map (·.target)

theorem entriesAt_of_node? (h : g.node? id = some n) (path : String) :
    g.entriesAt id path = n.entriesOf path := by
  rw [entriesAt, h]
  rfl

theorem mem_entriesAt {e : Entry} (h : e ∈ g.entriesAt id path) :
    ∃ n, g.node? id = some n ∧ e ∈ n.entries ∧ e.path = path := by
  unfold entriesAt at h
  cases hn : g.node? id with
  | none =>
    rw [hn] at h
    cases h
  | some n =>
    rw [hn] at h
    obtain ⟨he, hpath⟩ := List.mem_filter.1 h
    exact ⟨n, rfl, he, of_decide_eq_true hpath⟩

theorem entryCount_eq (g : InstanceGraph) (id path : String) :
    g.entryCount id path = (g.entriesAt id path).length + (g.targetsAt id path).length := by
  unfold entryCount entriesAt targetsAt outEdgeCount
  rw [List.length_map]
  cases g.node? id <;> rfl

theorem isFull_eq_true_iff {cp : ClassProperty} : g.isFull id cp = true ↔
    ∃ max, cp.maxCount = some max ∧ max ≤ g.entryCount id cp.path := by
  unfold isFull
  cases cp.maxCount <;> simp

theorem isFull_eq_false_iff {cp : ClassProperty} : g.isFull id cp = false ↔
    ∀ max, cp.maxCount = some max → g.entryCount id cp.path < max := by
  unfold isFull
  cases cp.maxCount <;> simp

/-! ## Nodes -/

@[simp] theorem node?_modifyNode {f : Node → Node} (hf : ∀ n, (f n).id = n.id) (other : String) :
    (g.modifyNode id f).node? other =
      (g.node? other).map fun n ↦ if n.id = id then f n else n := by
  unfold node? modifyNode
  rw [List.find?_map]
  congr 2
  funext n
  rw [Function.comp_apply]
  split
  · rw [hf]
  · rfl

@[simp] theorem node?_insertNode (hnew : g.node? n.id = none) (other : String) :
    (g.insertNode n).node? other = if other = n.id then some n else g.node? other := by
  unfold node? insertNode
  rw [List.find?_append]
  by_cases h : other = n.id
  · subst h
    rw [if_pos rfl, ← node?, hnew, Option.none_or, List.find?_cons_of_pos (by simp)]
  · rw [if_neg h, List.find?_cons_of_neg (by simpa using Ne.symm h), List.find?_nil,
      Option.or_none]

/-! ## Entries -/

/-- A new node brings its entries. -/
@[simp] theorem entriesAt_insertNode (hnew : g.node? n.id = none) (other path : String) :
    (g.insertNode n).entriesAt other path =
      if other = n.id then n.entriesOf path else g.entriesAt other path := by
  unfold entriesAt
  rw [node?_insertNode hnew]
  split <;> rfl

/-- A new entry comes last among those of its node and path. -/
@[simp] theorem entriesAt_insertEntry {e : Entry} (h : g.node? id = some n) (other path : String) :
    (g.insertEntry id e).entriesAt other path =
      g.entriesAt other path ++ if other = id ∧ path = e.path then [e] else [] := by
  have hnode : (g.insertEntry id e).node? other = (g.node? other).map fun n ↦
      if n.id = id then { n with entries := n.entries ++ [e] } else n :=
    node?_modifyNode (f := fun n ↦ { n with entries := n.entries ++ [e] }) (fun _ ↦ rfl) other
  unfold entriesAt
  rw [hnode]
  by_cases hid : other = id
  · subst hid
    rw [h, Option.map_some, if_pos (node?_eq_some h).2, Option.map_some, Option.map_some,
      Option.getD_some, Option.getD_some, Node.entriesOf, List.filter_append]
    by_cases hpath : path = e.path
    · rw [if_pos ⟨rfl, hpath⟩, List.filter_cons_of_pos (by simpa using hpath.symm)]
      rfl
    · rw [if_neg (fun h ↦ hpath h.2), List.filter_cons_of_neg (by simpa using Ne.symm hpath)]
      rfl
  · rw [if_neg (fun h ↦ hid h.1), List.append_nil]
    cases hother : g.node? other with
    | none => rfl
    | some m =>
      rw [Option.map_some, if_neg]
      rw [(node?_eq_some hother).2]
      exact hid

/-- An entry with another value. -/
def rewritten (entryId : String) (value : Option Value) (isValid : Bool) (e : Entry) : Entry :=
  if e.id = entryId then { e with value, isValid } else e

@[simp]
theorem path_rewritten {entryId : String} {value : Option Value} {isValid : Bool} (e : Entry) :
    (rewritten entryId value isValid e).path = e.path := by
  unfold rewritten
  split <;> rfl

@[simp] theorem entriesAt_writeEntry (entryId : String) (value : Option Value) (isValid : Bool)
    (other path : String) :
    (g.writeEntry id entryId value isValid).entriesAt other path =
      if other = id then (g.entriesAt other path).map (rewritten entryId value isValid)
      else g.entriesAt other path := by
  have hnode : (g.writeEntry id entryId value isValid).node? other = (g.node? other).map fun n ↦
      if n.id = id then { n with entries := n.entries.map (rewritten entryId value isValid) }
      else n :=
    node?_modifyNode
      (f := fun n ↦ { n with entries := n.entries.map (rewritten entryId value isValid) })
      (fun _ ↦ rfl) other
  unfold entriesAt
  rw [hnode]
  cases hother : g.node? other with
  | none => simp
  | some m =>
    have hm := (node?_eq_some hother).2
    subst hm
    by_cases hid : m.id = id
    · rw [if_pos hid, Option.map_some, if_pos hid, Option.map_some, Option.map_some,
        Option.getD_some, Option.getD_some, Node.entriesOf, List.filter_map]
      congr 2
      funext e
      rw [Function.comp_apply, path_rewritten]
    · rw [if_neg hid, Option.map_some, if_neg hid]

/-! ## Edges -/

@[simp] theorem entriesAt_insertEdge (e : Edge) (other path : String) :
    (g.insertEdge e).entriesAt other path = g.entriesAt other path := rfl

@[simp] theorem targetsAt_insertEntry (e : Entry) (other path : String) :
    (g.insertEntry id e).targetsAt other path = g.targetsAt other path := rfl

/-- A new edge leads to the last target of its source and path. -/
@[simp] theorem targetsAt_insertEdge (e : Edge) (other path : String) :
    (g.insertEdge e).targetsAt other path =
      g.targetsAt other path ++ if other = e.source ∧ path = e.path then [e.target] else [] := by
  unfold targetsAt outEdges insertEdge
  rw [List.filter_append, List.filter_append, List.map_append]
  congr 1
  by_cases hsource : other = e.source
  · by_cases hpath : path = e.path
    · simp [hsource, hpath]
    · simp [hsource, hpath, Ne.symm hpath]
  · simp [hsource, Ne.symm hsource]

end OntoGraph.Graph.InstanceGraph
