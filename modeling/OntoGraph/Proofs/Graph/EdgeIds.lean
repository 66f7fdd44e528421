import OntoGraph.Proofs.Graph.EntryIds

/-!
# The identifiers of edges

Edges get their identifiers from the same numbers as entries. In every graph that changes lead to,
no two edges have the same one, so that removing the edges with an identifier removes one edge.
-/

namespace OntoGraph.Graph.InstanceGraph

open Ontology

variable {g g' : InstanceGraph}

/-- Are all identifiers of edges different, and those still to come different from them? -/
structure DistinctEdges (g : InstanceGraph) : Prop where
  issued : ∀ e ∈ g.edges, ∃ k < g.issued, e.id = issuedId k
  nodup : (g.edges.map (·.id)).Nodup

theorem distinctEdges_of_no_edges (h : g.edges = []) : g.DistinctEdges := by
  constructor
  · rw [h]
    exact fun _ he ↦ absurd he List.not_mem_nil
  · rw [h]
    exact List.nodup_nil

/-- Edges may be left out, and the others keep their identifiers. -/
theorem DistinctEdges.of_sublist (h : g.DistinctEdges) (hissued : g.issued ≤ g'.issued)
    (hsub : (g'.edges.map (·.id)).Sublist (g.edges.map (·.id))) : g'.DistinctEdges where
  issued e he := by
    obtain ⟨old, hold, hid⟩ := List.mem_map.1 (hsub.subset (List.mem_map_of_mem he))
    obtain ⟨k, hk, hk'⟩ := h.issued old hold
    exact ⟨k, Nat.lt_of_lt_of_le hk hissued, hid.symm.trans hk'⟩
  nodup := h.nodup.sublist hsub

theorem DistinctEdges.insertEdge {source target : String} {cp : ClassProperty}
    (h : g.DistinctEdges) : (g.insertEdge (g.newEdge source target cp)).DistinctEdges where
  issued e he := by
    rcases List.mem_append.1 he with he | he
    · obtain ⟨k, hk, hid⟩ := h.issued e he
      exact ⟨k, Nat.lt_succ_of_lt hk, hid⟩
    · cases List.mem_singleton.1 he
      exact ⟨g.issued, Nat.lt_succ_self _, rfl⟩
  nodup := by
    have hnew : issuedId g.issued ∉ g.edges.map (·.id) := by
      intro hmem
      obtain ⟨e, he, hid⟩ := List.mem_map.1 hmem
      obtain ⟨k, hk, hid'⟩ := h.issued e he
      exact Nat.ne_of_lt hk (issuedId_injective (hid'.symm.trans hid))
    have hedges : (g.insertEdge (g.newEdge source target cp)).edges.map (·.id) =
        g.edges.map (·.id) ++ [issuedId g.issued] := List.map_append
    rw [hedges]
    exact List.nodup_append.2 ⟨h.nodup, List.nodup_singleton _, by
      rintro _ hmem _ hid rfl
      exact hnew (List.mem_singleton.1 hid ▸ hmem)⟩

theorem id_of_reboundEdge {nodes : List Node} {e e' : Edge} (h : reboundEdge nodes e = some e') :
    e'.id = e.id := by
  unfold reboundEdge at h
  simp only [Option.bind_eq_bind, Option.bind_eq_some_iff] at h
  obtain ⟨source, -, target, -, cp, -, targetClass, -, hrest⟩ := h
  split at hrest
  · cases hrest
    rfl
  · cases hrest

/-- Every change keeps the identifiers of edges apart. -/
theorem DistinctEdges.change (h : g.DistinctEdges) (hchange : g.Change g') :
    g'.DistinctEdges := by
  cases hchange with
  | edit hedit =>
    cases hedit with
    | insertNode _ hn => exact h.of_sublist (Nat.le_add_right _ _) (.refl _)
    | deleteNode id =>
      unfold InstanceGraph.deleteNode
      split
      · exact h.of_sublist (Nat.le_refl _) (List.filter_sublist.map _)
      · exact h
    | reset => exact distinctEdges_of_no_edges rfl
    | insertEntry value _ _ _ _ => exact h.of_sublist (Nat.le_succ _) (.refl _)
    | insertEdge _ _ _ _ _ _ => exact h.insertEdge
    | deleteEdge id => exact h.of_sublist (Nat.le_refl _) (List.filter_sublist.map _)
    | moveNode id position => exact h.of_sublist (Nat.le_refl _) (.refl _)
    | writeEntry value _ => exact h.of_sublist (Nat.le_refl _) (.refl _)
    | eraseEntry id entryId => exact h.of_sublist (Nat.le_refl _) (.refl _)
    | revalidate => exact h.of_sublist (Nat.le_refl _) (.refl _)
  | replaceModel hg' =>
    obtain ⟨nodes, -, rfl⟩ := replaceModel_eq_ok.1 hg'
    exact h.of_sublist (Nat.le_refl _) (sublist_map_filterMap id_of_reboundEdge _)
  | setCatalog catalog => exact h.of_sublist (Nat.le_refl _) (.refl _)

theorem Reachable.distinctEdges (h : g.Reachable) : g.DistinctEdges := by
  obtain ⟨model, settings, ops, hnew, rfl⟩ := h
  exact (changes_run hnew).keep (distinctEdges_of_no_edges rfl) fun _ _ hg hchange ↦
    hg.change hchange

/-- An edge that has the identifier of an edge that is found is that edge. -/
theorem DistinctEdges.eq_of_edge? (h : g.DistinctEdges) {e found : Edge} {edgeId : String}
    (hfound : g.edge? edgeId = some found) (he : e ∈ g.edges) (hid : e.id = edgeId) : e = found := by
  have hfoundId : found.id = edgeId := by simpa using List.find?_some hfound
  exact List.inj_on_of_nodup_map h.nodup he (List.mem_of_find?_eq_some hfound)
    (hid.trans hfoundId.symm)

end OntoGraph.Graph.InstanceGraph
