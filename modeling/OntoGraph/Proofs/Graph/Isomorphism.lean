import OntoGraph.Proofs.Document.LiteralValues
import OntoGraph.Proofs.Graph.Content

/-!
# Isomorphic graphs

Two graphs are isomorphic when they differ in the names of nodes that are no elements, in the
places of nodes, and in how their values are held: the written forms of values are the same.
-/

namespace OntoGraph.Graph

open Ontology

/-- The written form of the value of an entry; around a number blanks do not count. -/
def Entry.writtenForm? (e : Entry) : Option String :=
  e.value.map fun v ↦ match e.property.datatype? with
    | some datatype => datatype.writtenForm v.lexical
    | none => v.lexical

namespace InstanceGraph

/-- Is the second graph the first one under other names for its nodes? Elements keep their names. -/
structure Isomorphic (g h : InstanceGraph) (name : String → String) : Prop where
  injective : ∀ n ∈ g.nodes, ∀ m ∈ g.nodes, name n.id = name m.id → n.id = m.id
  nodes : (h.nodes.map (·.id)).Perm (g.nodes.map fun n ↦ name n.id)
  cls : ∀ n ∈ g.nodes, (h.node? (name n.id)).map (·.cls.iri) = some n.cls.iri
  element : ∀ n ∈ g.nodes, n.isElement = true → name n.id = n.id
  /-- For each path the values have the same written forms in the same order. -/
  values : ∀ n ∈ g.nodes, ∀ path,
    (h.entriesAt (name n.id) path).map (·.value.map Value.lexical) =
      (g.entriesAt n.id path).map Entry.writtenForm?
  edges : (h.edges.map fun e ↦ (e.source, e.path, e.target)).Perm
    (g.edges.map fun e ↦ (name e.source, e.path, name e.target))

/-! ## Edges -/

variable {g h : InstanceGraph} {name : String → String}

theorem targetsAt_eq (g : InstanceGraph) (source path : String) : g.targetsAt source path =
    (g.edges.filter fun e ↦ e.source = source ∧ e.path = path).map (·.target) := by
  rw [targetsAt, outEdges, List.filter_filter]
  congr 2
  funext e
  rw [Bool.decide_and, Bool.and_comm]

/-- An edge occurs as often as its target occurs for its source and path. -/
theorem count_edges (g : InstanceGraph) (source path target : String) :
    (g.edges.map fun e ↦ (e.source, e.path, e.target)).count (source, path, target) =
      (g.targetsAt source path).count target := by
  rw [targetsAt_eq, List.count, List.count, List.countP_map, List.countP_map, List.countP_filter]
  congr 1
  funext e
  rw [Function.comp_apply, Function.comp_apply, Bool.eq_iff_iff]
  simp only [beq_iff_eq, Prod.mk.injEq, Bool.and_eq_true, decide_eq_true_eq]
  exact ⟨fun ⟨hsource, hpath, htarget⟩ ↦ ⟨htarget, hsource, hpath⟩,
    fun ⟨htarget, hsource, hpath⟩ ↦ ⟨hsource, hpath, htarget⟩⟩

/-- Is every edge that leaves a node of the second graph an image, in the order of its source and
path? -/
theorem perm_edges (hinj : ∀ n ∈ g.nodes, ∀ m ∈ g.nodes, name n.id = name m.id → n.id = m.id)
    (hg : ∀ e ∈ g.edges, ∃ n ∈ g.nodes, n.id = e.source)
    (hh : ∀ e ∈ h.edges, ∃ n ∈ g.nodes, name n.id = e.source)
    (htargets : ∀ n ∈ g.nodes, ∀ path,
      h.targetsAt (name n.id) path = (g.targetsAt n.id path).map name) :
    (h.edges.map fun e ↦ (e.source, e.path, e.target)).Perm
      (g.edges.map fun e ↦ (name e.source, e.path, name e.target)) := by
  let renamed : InstanceGraph :=
    { g with edges := g.edges.map fun e ↦ { e with source := name e.source, target := name e.target } }
  have hrenamed : (g.edges.map fun e ↦ (name e.source, e.path, name e.target)) =
      renamed.edges.map fun e ↦ (e.source, e.path, e.target) := by
    rw [List.map_map]
    rfl
  rw [hrenamed, List.perm_iff_count]
  rintro ⟨source, path, target⟩
  rw [count_edges, count_edges]
  congr 1
  by_cases hsource : ∃ n ∈ g.nodes, name n.id = source
  · obtain ⟨n, hn, rfl⟩ := hsource
    rw [htargets n hn, targetsAt_eq, targetsAt_eq, List.filter_map, List.map_map, List.map_map]
    congr 1
    refine List.filter_congr fun e he ↦ ?_
    obtain ⟨m, hm, hid⟩ := hg e he
    have hiff : name e.source = name n.id ↔ e.source = n.id :=
      ⟨fun heq ↦ hid ▸ hinj m hm n hn (hid ▸ heq), fun heq ↦ by rw [heq]⟩
    rw [Function.comp_apply]
    simp only [hiff]
    rfl
  · have hnone : h.targetsAt source path = [] := by
      rw [targetsAt_eq, List.map_eq_nil_iff, List.filter_eq_nil_iff]
      intro e he hparts
      obtain ⟨n, hn, hid⟩ := hh e he
      exact hsource ⟨n, hn, hid.trans (of_decide_eq_true hparts).1⟩
    have hnone' : renamed.targetsAt source path = [] := by
      rw [targetsAt_eq, List.map_eq_nil_iff, List.filter_eq_nil_iff]
      intro e he hparts
      obtain ⟨e', he', rfl⟩ := List.mem_map.1 he
      obtain ⟨n, hn, hid⟩ := hg e' he'
      exact hsource ⟨n, hn, (congrArg name hid).trans (of_decide_eq_true hparts).1⟩
    rw [hnone, hnone']

end InstanceGraph

end OntoGraph.Graph
