import OntoGraph.Proofs.Graph.Consistency
import OntoGraph.Proofs.Graph.Content

/-!
# Graphs beside each other

The nodes and edges of one graph can stand before those of another. An edit that is made under names
which the first graph lacks does there what it does to the second graph alone: it succeeds or fails
in the same way, and the first graph stays as it is.
-/

namespace OntoGraph.Graph.InstanceGraph

open Ontology

/-- The second graph, with the nodes and edges of the first before its own. -/
def beside (g d : InstanceGraph) : InstanceGraph :=
  { d with nodes := g.nodes ++ d.nodes, edges := g.edges ++ d.edges }

/-- Is the name that of no node, and does no edge leave from it? -/
structure Lacks (g : InstanceGraph) (id : String) : Prop where
  nodes : ∀ n ∈ g.nodes, n.id ≠ id
  edges : ∀ e ∈ g.edges, e.source ≠ id

variable {g d : InstanceGraph} {id : String} {n : Node} {cp : ClassProperty}

/-- The edges of a consistent graph leave from its nodes. -/
theorem Consistent.lacks (h : g.Consistent) (hnode : g.node? id = none) : g.Lacks id where
  nodes := node?_eq_none_iff.1 hnode
  edges e he hsource := by
    obtain ⟨source, hmem, -, -, -, hid, -⟩ := h.edges e he
    exact node?_eq_none_iff.1 hnode source hmem (hid.trans hsource)

/-- A graph without content beside another one is that one alone. -/
theorem beside_reset (g : InstanceGraph) : g.beside g.reset = g := by
  simp [beside, reset]

/-! ## Looking things up -/

theorem node?_beside (h : g.Lacks id) : (g.beside d).node? id = d.node? id := by
  have hnone : g.nodes.find? (·.id = id) = none := node?_eq_none_iff.2 h.nodes
  rw [node?, beside, List.find?_append, hnone, Option.none_or]
  rfl

theorem existing_beside (h : g.Lacks id) : (g.beside d).existing id = d.existing id := by
  rw [existing, existing, node?_beside h]

theorem outEdges_beside (h : g.Lacks id) : (g.beside d).outEdges id = d.outEdges id := by
  have hnone : g.edges.filter (·.source = id) = [] :=
    List.filter_eq_nil_iff.2 fun e he ↦ by simpa using h.edges e he
  rw [outEdges, beside, List.filter_append, hnone, List.nil_append]
  rfl

theorem entriesAt_beside (h : g.Lacks id) (path : String) :
    (g.beside d).entriesAt id path = d.entriesAt id path := by
  rw [entriesAt, entriesAt, node?_beside h]

theorem targetsAt_beside (h : g.Lacks id) (path : String) :
    (g.beside d).targetsAt id path = d.targetsAt id path := by
  rw [targetsAt, targetsAt, outEdges_beside h]

theorem entryCount_beside (h : g.Lacks id) (path : String) :
    (g.beside d).entryCount id path = d.entryCount id path := by
  rw [entryCount_eq, entryCount_eq, entriesAt_beside h, targetsAt_beside h]

theorem isFull_beside (h : g.Lacks id) (cp : ClassProperty) :
    (g.beside d).isFull id cp = d.isFull id cp := by
  rw [isFull, isFull, entryCount_beside h]

theorem existingEntry_beside (h : g.Lacks id) (entryId : String) :
    (g.beside d).existingEntry id entryId = d.existingEntry id entryId := by
  rw [existingEntry, existingEntry, existing_beside h]

/-! ## Edits -/

theorem insertNode_beside (g d : InstanceGraph) (n : Node) :
    (g.beside d).insertNode n = g.beside (d.insertNode n) := by
  simp only [insertNode, beside, List.append_assoc]

theorem insertEdge_beside (g d : InstanceGraph) (e : Edge) :
    (g.beside d).insertEdge e = g.beside (d.insertEdge e) := by
  simp only [insertEdge, beside, List.append_assoc]

theorem modifyNode_beside (h : g.Lacks id) (f : Node → Node) :
    (g.beside d).modifyNode id f = g.beside (d.modifyNode id f) := by
  have hkept : g.nodes.map (fun n ↦ if n.id = id then f n else n) = g.nodes := by
    conv_rhs => rw [← List.map_id g.nodes]
    exact List.map_congr_left fun n hn ↦ if_neg (h.nodes n hn)
  simp only [modifyNode, beside, List.map_append, hkept]

theorem insertEntry_beside (h : g.Lacks id) (e : Entry) :
    (g.beside d).insertEntry id e = g.beside (d.insertEntry id e) := by
  rw [insertEntry, modifyNode_beside h]
  rfl

theorem addNode_beside (h : g.Lacks id) (classIri : String) (position : Position) :
    (g.beside d).addNode id classIri position =
      (d.addNode id classIri position).map g.beside := by
  have hnew : (g.beside d).newNode id classIri position = d.newNode id classIri position := rfl
  unfold addNode addMintedNode
  rw [node?_beside h, hnew]
  split
  · rfl
  · cases d.newNode id classIri position with
    | error error => rfl
    | ok n => exact congrArg Except.ok (insertNode_beside g d n)

theorem setEntry_beside (h : g.Lacks id) (entryId : String) (value : Option Value) :
    (g.beside d).setEntry id entryId value =
      (d.setEntry id entryId value).map fun result ↦ (result.1, g.beside result.2) := by
  unfold setEntry
  rw [existingEntry_beside h]
  cases d.existingEntry id entryId with
  | error error => rfl
  | ok e => exact congrArg (fun graph ↦ Except.ok (_, graph)) (modifyNode_beside h _)

theorem addEntry_beside (h : g.Lacks id) (cp : ClassProperty) (value : Option Value) :
    (g.beside d).addEntry id cp value =
      (d.addEntry id cp value).map fun result ↦ (result.1, g.beside result.2) := by
  unfold addEntry
  rw [existing_beside h, isFull_beside h]
  cases cp.isObject with
  | true => rfl
  | false =>
    cases d.existing id with
    | error error => rfl
    | ok n =>
      dsimp only [bind, Except.bind]
      generalize n.declares cp = declared
      cases declared with
      | false => rfl
      | true =>
        cases d.isFull id cp with
        | true => rfl
        | false =>
          exact congrArg (fun graph ↦ Except.ok (Addition.added _, graph)) (insertEntry_beside h _)

theorem addEdge_beside {source target : String} (hsource : g.Lacks source)
    (htarget : g.Lacks target) (cp : ClassProperty) :
    (g.beside d).addEdge source target cp =
      (d.addEdge source target cp).map fun result ↦ (result.1, g.beside result.2) := by
  unfold addEdge
  rw [existing_beside hsource, existing_beside htarget, isFull_beside hsource]
  cases cp.target? with
  | none => rfl
  | some targetClass =>
    cases d.existing source with
    | error error => rfl
    | ok sourceNode =>
      cases d.existing target with
      | error error => rfl
      | ok targetNode =>
        dsimp only [bind, Except.bind]
        generalize sourceNode.declares cp = declared
        generalize targetNode.isA targetClass = admitted
        cases declared with
        | false => rfl
        | true =>
          cases admitted with
          | false => rfl
          | true =>
            cases d.isFull source cp with
            | true => rfl
            | false =>
              exact congrArg (fun graph ↦ Except.ok (Addition.added _, graph))
                (insertEdge_beside g d _)

end OntoGraph.Graph.InstanceGraph
