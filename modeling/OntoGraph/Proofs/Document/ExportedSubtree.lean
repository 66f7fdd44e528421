import OntoGraph.Proofs.Document.ExportedTriples
import OntoGraph.Proofs.Graph.Subtree

/-!
# Exported subtrees

The document of a subtree leaves out the edges that lead out of it, but there are none: whatever an
edge of one of its nodes leads to belongs to the subtree as well. So every edge of an exported node
is a triple of the exported store.
-/

namespace OntoGraph.Document

open Ontology OntoGraph.Graph Rdf InstanceGraph Relation

variable {g : InstanceGraph}

/-- An edge between two exported nodes is a triple of the store. -/
theorem mem_exportStore_of_edge {nodes : List Node} (h : (nodes.map (·.id)).Nodup)
    {source target : Node} (hsource : source ∈ nodes) (htarget : target ∈ nodes) {e : Edge}
    (he : e ∈ g.edges) (hsid : source.id = e.source) (htid : target.id = e.target) :
    ⟨subjectOf nodes source, e.path, subjectOf nodes target⟩ ∈
      (exportStore g nodes).2.triples.toList := by
  have hleaves : e ∈ g.outEdges source.id := List.mem_filter.2 ⟨he, decide_eq_true hsid.symm⟩
  have hsubject : (assignSubjects nodes).1.get? e.target = some (subjectOf nodes target) := by
    rw [← htid]
    exact get?_assignSubjects h htarget
  have htriple : ⟨subjectOf nodes source, e.path, subjectOf nodes target⟩ ∈
      triplesFor g nodes source := by
    apply List.mem_cons_of_mem
    apply List.mem_append_right
    exact List.mem_filterMap.2 ⟨e, hleaves, by rw [hsubject]; rfl⟩
  rw [exportStore_eq h]
  apply Store.mem_foldl_insert.2
  exact .inr (List.mem_flatMap.2 ⟨source, hsource, htriple⟩)

/-- The nodes of a subtree in their order. -/
theorem map_id_nodesAt_subtree (hg : g.Consistent) (root : String) :
    (g.nodesAt (g.subtree root)).map (·.id) = g.subtree root :=
  map_id_nodesAt fun _ hid ↦ hg.node?_of_mem_subtree hid

/-- A subtree and its edges are exported together. -/
theorem mem_exportSubtree_of_edge (hg : g.Consistent) (root : String) {e : Edge} (he : e ∈ g.edges)
    (hsource : e.source ∈ g.subtree root) :
    ∃ source ∈ g.nodesAt (g.subtree root), ∃ target ∈ g.nodesAt (g.subtree root),
      source.id = e.source ∧ target.id = e.target ∧
        ⟨subjectOf (g.nodesAt (g.subtree root)) source, e.path,
          subjectOf (g.nodesAt (g.subtree root)) target⟩ ∈
            (exportStore g (g.nodesAt (g.subtree root))).2.triples.toList := by
  have hids := map_id_nodesAt_subtree hg root
  have hnodup : ((g.nodesAt (g.subtree root)).map (·.id)).Nodup := by
    rw [hids]
    exact hg.nodup_subtree root
  have htarget : e.target ∈ g.subtree root := hg.mem_subtree_of_leadsTo hsource ⟨e, he, rfl, rfl⟩
  rw [← hids] at hsource htarget
  obtain ⟨source, hsource, hsid⟩ := List.mem_map.1 hsource
  obtain ⟨target, htarget, htid⟩ := List.mem_map.1 htarget
  exact ⟨source, hsource, target, htarget, hsid, htid,
    mem_exportStore_of_edge hnodup hsource htarget he hsid htid⟩

/-- In whatever graph a run leaves, the subtree of what is no node is empty. The subtree of a node
starts with it and holds exactly what the node leads to, over any number of edges, and a queue that
starts with the node finds the same in the same order and is empty when all have been visited. No
node is in a subtree twice, and no farther one comes before a nearer one. All nodes of a subtree
are exported, each with all edges that leave it. -/
theorem subtree_breadthFirst (h : g.Reachable) (root : String) (c : TermContext)
    (config : Settings.Configuration) :
    (g.subtree root = [] ↔ g.node? root = none) ∧
    (g.node? root ≠ none → (g.subtree root).head? = some root ∧
      (∀ id, id ∈ g.subtree root ↔ ReflTransGen g.LeadsTo root id) ∧
      g.visit^[(g.subtree root).length] ([root], [root]) = (g.subtree root, [])) ∧
    (g.subtree root).Nodup ∧
    (g.subtree root).Pairwise (fun a b ↦ g.distance root a ≤ g.distance root b) ∧
    let nodes := g.nodesAt (g.subtree root)
    nodes.map (·.id) = g.subtree root ∧
    ∀ e ∈ g.edges, e.source ∈ g.subtree root →
      ∃ source ∈ nodes, ∃ target ∈ nodes, source.id = e.source ∧ target.id = e.target ∧
        ⟨subjectOf nodes source, e.path, subjectOf nodes target⟩ ∈
          (exportSubtree g c config root).store.triples.toList := by
  have hg := h.consistent
  refine ⟨⟨fun hempty ↦ ?_, subtree_eq_nil⟩, fun hroot ↦ ?_, hg.nodup_subtree root,
    hg.sorted_subtree root, map_id_nodesAt_subtree hg root,
    fun e he ↦ mem_exportSubtree_of_edge hg root he⟩
  · by_contra hroot
    obtain ⟨n, hn⟩ := Option.ne_none_iff_exists'.1 hroot
    obtain ⟨d, later, last, hhead, -⟩ := hg.subtree hn
    rw [hempty] at hhead
    cases hhead
  · obtain ⟨n, hn⟩ := Option.ne_none_iff_exists'.1 hroot
    obtain ⟨d, later, last, hhead, -, -, hvisit⟩ := hg.subtree hn
    exact ⟨by rw [hhead, List.head?_cons], fun id ↦ hg.mem_subtree hn, hvisit⟩

/-- Of three persons the first knows the second twice, the second knows the first and herself, and
the third knows the first. -/
def circle : List Operation :=
  [.addNode "urn:uuid:1" person.iri {}, .addNode "urn:uuid:2" person.iri {},
    .addNode "urn:uuid:3" person.iri {}, .addEdge "urn:uuid:1" "urn:uuid:2" knows,
    .addEdge "urn:uuid:1" "urn:uuid:2" knows, .addEdge "urn:uuid:2" "urn:uuid:1" knows,
    .addEdge "urn:uuid:2" "urn:uuid:2" knows, .addEdge "urn:uuid:3" "urn:uuid:1" knows]

theorem subtree_breadthFirst_circle :
    let g := run { model := people } circle
    g.Reachable ∧ g.edges.length = 5 ∧ g.subtree "urn:uuid:1" = ["urn:uuid:1", "urn:uuid:2"] ∧
      (∀ id, id ∈ g.subtree "urn:uuid:1" ↔ ReflTransGen g.LeadsTo "urn:uuid:1" id) ∧
      g.visit^[2] (["urn:uuid:1"], ["urn:uuid:1"]) = (["urn:uuid:1", "urn:uuid:2"], []) ∧
      g.subtree "urn:uuid:4" = [] := by
  have hnew : AlwaysMintsNew { model := people } circle :=
    ⟨rfl, rfl, rfl, trivial, trivial, trivial, trivial, trivial, trivial⟩
  have hreachable : (run { model := people } circle).Reachable := ⟨people, {}, circle, hnew, rfl⟩
  have hnodes : (run { model := people } circle).node? "urn:uuid:1" ≠ none ∧
      (run { model := people } circle).node? "urn:uuid:4" = none := by
    decide +kernel
  have hsubtree : (run { model := people } circle).subtree "urn:uuid:1" =
      ["urn:uuid:1", "urn:uuid:2"] := by
    decide +kernel
  obtain ⟨-, hroot, -⟩ := subtree_breadthFirst hreachable "urn:uuid:1" {} {}
  obtain ⟨hempty, -⟩ := subtree_breadthFirst hreachable "urn:uuid:4" {} {}
  obtain ⟨-, hmem, hvisit⟩ := hroot hnodes.1
  rw [hsubtree] at hvisit
  exact ⟨hreachable, by decide +kernel, hsubtree, hmem, hvisit, hempty.2 hnodes.2⟩

end OntoGraph.Document
