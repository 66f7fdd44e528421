import OntoGraph.Proofs.Graph.Change
import OntoGraph.Proofs.Number.Digits

/-!
# The identifiers of entries

The identifiers of entries are numbered as they are given out. In every graph that changes lead to,
no two entries have the same one, so that an identifier singles out one entry of one node.
-/

namespace OntoGraph.Graph

open Ontology

theorem issuedId_injective {m n : Nat} (h : issuedId m = issuedId n) : m = n :=
  Number.append_toString_injective h

namespace InstanceGraph

variable {g g' : InstanceGraph}

/-- Are all identifiers of entries different, and those still to come different from them? -/
structure DistinctEntries (g : InstanceGraph) : Prop where
  issued : ∀ n ∈ g.nodes, ∀ e ∈ n.entries, ∃ k < g.issued, e.id = issuedId k
  within : ∀ n ∈ g.nodes, (n.entries.map (·.id)).Nodup
  across : ∀ n ∈ g.nodes, ∀ m ∈ g.nodes, ∀ e ∈ n.entries, ∀ f ∈ m.entries, e.id = f.id → n.id = m.id

theorem distinctEntries_empty (model : Model) (settings : GraphSettings) :
    DistinctEntries { model, settings } :=
  ⟨by rintro _ ⟨⟩, by rintro _ ⟨⟩, by rintro _ ⟨⟩⟩

theorem distinctEntries_reset (g : InstanceGraph) : g.reset.DistinctEntries :=
  ⟨by rintro _ ⟨⟩, by rintro _ ⟨⟩, by rintro _ ⟨⟩⟩

/-- In a node, an identifier belongs to one entry. -/
theorem DistinctEntries.eq_of_id (h : g.DistinctEntries) {n : Node} {e f : Entry}
    (hn : n ∈ g.nodes) (he : e ∈ n.entries) (hf : f ∈ n.entries) (hid : e.id = f.id) : e = f :=
  List.inj_on_of_nodup_map (h.within n hn) he hf hid

/-- An identifier that is still to come is that of no entry. -/
theorem DistinctEntries.id_ne (h : g.DistinctEntries) {n : Node} {e : Entry} {k : Nat}
    (hn : n ∈ g.nodes) (he : e ∈ n.entries) (hk : g.issued ≤ k) : e.id ≠ issuedId k := by
  obtain ⟨number, hlt, hid⟩ := h.issued n hn e he
  intro heq
  rw [hid] at heq
  have := issuedId_injective heq
  omega

/-- Nodes may be left out, and the others lose entries. -/
theorem DistinctEntries.of_old (h : g.DistinctEntries) (hissued : g.issued ≤ g'.issued)
    (hold : ∀ m ∈ g'.nodes, ∃ n ∈ g.nodes, m.id = n.id ∧
      (m.entries.map (·.id)).Sublist (n.entries.map (·.id))) : g'.DistinctEntries := by
  have hentry : ∀ {m n : Node} {e : Entry},
      (m.entries.map (·.id)).Sublist (n.entries.map (·.id)) → e ∈ m.entries →
        ∃ old ∈ n.entries, old.id = e.id := fun hsub he ↦
    List.mem_map.1 (hsub.subset (List.mem_map_of_mem he))
  refine ⟨fun m hm e he ↦ ?_, fun m hm ↦ ?_, fun m hm m' hm' e he e' he' hid ↦ ?_⟩
  · obtain ⟨n, hn, -, hsub⟩ := hold m hm
    obtain ⟨old, hmem, hid⟩ := hentry hsub he
    obtain ⟨k, hk, hk'⟩ := h.issued n hn old hmem
    exact ⟨k, Nat.lt_of_lt_of_le hk hissued, hid.symm.trans hk'⟩
  · obtain ⟨n, hn, -, hsub⟩ := hold m hm
    exact (h.within n hn).sublist hsub
  · obtain ⟨n, hn, hnid, hsub⟩ := hold m hm
    obtain ⟨n', hn', hnid', hsub'⟩ := hold m' hm'
    obtain ⟨old, hmem, hold⟩ := hentry hsub he
    obtain ⟨old', hmem', hold'⟩ := hentry hsub' he'
    rw [hnid, hnid']
    exact h.across n hn n' hn' old hmem old' hmem' (by rw [hold, hold', hid])

/-- Nodes may lose entries. -/
theorem DistinctEntries.map {f : Node → Node} (h : g.DistinctEntries)
    (hf : ∀ n : Node, (f n).id = n.id ∧
      ((f n).entries.map (·.id)).Sublist (n.entries.map (·.id))) :
    DistinctEntries { g with nodes := g.nodes.map f } := by
  refine h.of_old (Nat.le_refl _) fun m hm ↦ ?_
  obtain ⟨n, hn, rfl⟩ := List.mem_map.1 hm
  exact ⟨n, hn, hf n⟩

theorem DistinctEntries.modifyNode {id : String} {f : Node → Node} (h : g.DistinctEntries)
    (hf : ∀ n : Node, (f n).id = n.id ∧
      ((f n).entries.map (·.id)).Sublist (n.entries.map (·.id))) :
    (g.modifyNode id f).DistinctEntries := by
  refine h.map fun n ↦ ?_
  split
  · exact hf n
  · exact ⟨rfl, .refl _⟩

/-! ## New entries -/

theorem map_id_initialEntries (chain : Chain) : (g.initialEntries chain).map (·.id) =
    (List.range (prefilled chain).length).map fun i ↦ issuedId (g.issued + i) := by
  apply List.ext_getElem
  · simp [initialEntries]
  · intro i hi hi'
    simp [initialEntries, initialEntry]

/-- The entries of a new node get the next identifiers. -/
theorem exists_issued_of_mem_initialEntries {chain : Chain} {id : String}
    (h : id ∈ (g.initialEntries chain).map (·.id)) :
    ∃ k, g.issued ≤ k ∧ k < g.issued + (g.initialEntries chain).length ∧ id = issuedId k := by
  rw [map_id_initialEntries] at h
  obtain ⟨i, hi, rfl⟩ := List.mem_map.1 h
  refine ⟨g.issued + i, Nat.le_add_right _ _, ?_, rfl⟩
  rw [initialEntries, List.length_mapIdx]
  exact Nat.add_lt_add_left (List.mem_range.1 hi) _

theorem DistinctEntries.insertNode {id classIri : String} {position : Position} {n : Node}
    (h : g.DistinctEntries) (hn : g.newNode id classIri position = .ok n) :
    (g.insertNode n).DistinctEntries := by
  obtain ⟨cls, chain, -, -, -, rfl⟩ := newNode_eq_ok.1 hn
  have hnew : ∀ e ∈ g.initialEntries chain, ∃ k, g.issued ≤ k ∧
      k < g.issued + (g.initialEntries chain).length ∧ e.id = issuedId k := fun e he ↦
    exists_issued_of_mem_initialEntries (List.mem_map_of_mem he)
  refine ⟨fun m hm e he ↦ ?_, fun m hm ↦ ?_, fun m hm m' hm' e he e' he' hid ↦ ?_⟩
  · rcases List.mem_append.1 hm with hm | hm
    · obtain ⟨k, hk, hid⟩ := h.issued m hm e he
      exact ⟨k, Nat.lt_add_right _ hk, hid⟩
    · cases List.mem_singleton.1 hm
      obtain ⟨k, -, hk, hid⟩ := hnew e he
      exact ⟨k, hk, hid⟩
  · rcases List.mem_append.1 hm with hm | hm
    · exact h.within m hm
    · cases List.mem_singleton.1 hm
      rw [map_id_initialEntries]
      refine List.Nodup.map (fun i j hij ↦ ?_) List.nodup_range
      have := issuedId_injective hij
      omega
  · rcases List.mem_append.1 hm with hm | hm <;> rcases List.mem_append.1 hm' with hm' | hm'
    · exact h.across m hm m' hm' e he e' he' hid
    · cases List.mem_singleton.1 hm'
      obtain ⟨k, hk, -, hid'⟩ := hnew e' he'
      exact absurd (hid.trans hid') (h.id_ne hm he hk)
    · cases List.mem_singleton.1 hm
      obtain ⟨k, hk, -, hid'⟩ := hnew e he
      exact absurd (hid.symm.trans hid') (h.id_ne hm' he' hk)
    · rw [List.mem_singleton.1 hm, List.mem_singleton.1 hm']

/-- After an entry is put in, each entry is an old one of its node or the new one. -/
theorem mem_nodes_insertEntry {id : String} {e : Entry} {m : Node}
    (hm : m ∈ (g.insertEntry id e).nodes) :
    ∃ n ∈ g.nodes, m.id = n.id ∧ ((m.id ≠ id ∧ m.entries = n.entries) ∨
      m.id = id ∧ m.entries = n.entries ++ [e]) := by
  obtain ⟨n, hn, rfl⟩ := List.mem_map.1 hm
  by_cases hid : n.id = id
  · rw [if_pos hid]
    exact ⟨n, hn, rfl, .inr ⟨hid, rfl⟩⟩
  · rw [if_neg hid]
    exact ⟨n, hn, rfl, .inl ⟨hid, rfl⟩⟩

theorem DistinctEntries.insertEntry {id : String} {e : Entry} (h : g.DistinctEntries)
    (he : e.id = issuedId g.issued) : (g.insertEntry id e).DistinctEntries := by
  have hold : ∀ m ∈ (g.insertEntry id e).nodes, ∃ n ∈ g.nodes, m.id = n.id ∧
      ∀ f ∈ m.entries, f ∈ n.entries ∨ m.id = id ∧ f = e := by
    intro m hm
    obtain ⟨n, hn, hid, ⟨-, hentries⟩ | ⟨hnode, hentries⟩⟩ := mem_nodes_insertEntry hm
    · exact ⟨n, hn, hid, fun f hf ↦ .inl (hentries ▸ hf)⟩
    · refine ⟨n, hn, hid, fun f hf ↦ ?_⟩
      rw [hentries] at hf
      exact (List.mem_append.1 hf).imp (fun hf ↦ hf) fun hf ↦ ⟨hnode, List.mem_singleton.1 hf⟩
  have hfresh : ∀ n ∈ g.nodes, ∀ f ∈ n.entries, f.id ≠ e.id := fun n hn f hf ↦
    he ▸ h.id_ne hn hf (Nat.le_refl _)
  refine ⟨fun m hm f hf ↦ ?_, fun m hm ↦ ?_, fun m hm m' hm' f hf f' hf' heq ↦ ?_⟩
  · obtain ⟨n, hn, -, hentries⟩ := hold m hm
    rcases hentries f hf with hf | ⟨-, rfl⟩
    · obtain ⟨k, hk, hid⟩ := h.issued n hn f hf
      exact ⟨k, Nat.lt_succ_of_lt hk, hid⟩
    · exact ⟨g.issued, Nat.lt_succ_self _, he⟩
  · obtain ⟨n, hn, -, ⟨-, hentries⟩ | ⟨-, hentries⟩⟩ := mem_nodes_insertEntry hm
    · rw [hentries]
      exact h.within n hn
    · rw [hentries, List.map_append, List.map_singleton]
      refine List.nodup_append.2 ⟨h.within n hn, List.nodup_singleton _, ?_⟩
      intro held hheld new hnew heq
      obtain ⟨f, hf, hfid⟩ := List.mem_map.1 hheld
      exact hfresh n hn f hf (by rw [hfid, heq, List.mem_singleton.1 hnew])
  · obtain ⟨n, hn, hid, hentries⟩ := hold m hm
    obtain ⟨n', hn', hid', hentries'⟩ := hold m' hm'
    rcases hentries f hf with hf | ⟨hnode, rfl⟩ <;>
      rcases hentries' f' hf' with hf' | ⟨hnode', rfl⟩
    · rw [hid, hid']
      exact h.across n hn n' hn' f hf f' hf' heq
    · exact absurd heq (hfresh n hn f hf)
    · exact absurd heq.symm (hfresh n' hn' f' hf')
    · rw [hnode, hnode']

/-! ## Changes -/

theorem map_id_writeEntry (entries : List Entry) (entryId : String) (value : Option Value)
    (isValid : Bool) : (entries.map fun e ↦
      if e.id = entryId then { e with value, isValid } else e).map (·.id) = entries.map (·.id) := by
  rw [List.map_map]
  refine List.map_congr_left fun e _ ↦ ?_
  rw [Function.comp_apply]
  split <;> rfl

theorem id_of_reboundEntry {settings : GraphSettings} {chain : Chain} {e e' : Entry}
    (h : reboundEntry settings chain e = some e') : e'.id = e.id := by
  unfold reboundEntry at h
  split at h
  · split at h
    · cases h
    · cases h
      rfl
  · cases h

/-- Where what is left of an item keeps the key of the item, no key is new. -/
theorem sublist_map_filterMap {α β κ : Type} {f : α → Option β} {key : α → κ} {key' : β → κ}
    (h : ∀ {a b}, f a = some b → key' b = key a) (items : List α) :
    ((items.filterMap f).map key').Sublist (items.map key) := by
  induction items with
  | nil => exact .slnil
  | cons a items ih =>
    rw [List.filterMap_cons, List.map_cons]
    cases hkept : f a with
    | none => exact ih.cons _
    | some b =>
      dsimp only
      rw [List.map_cons, h hkept]
      exact ih.cons_cons _

theorem DistinctEntries.replaceModel {model : Model} (h : g.DistinctEntries)
    (hg' : g.replaceModel model = .ok g') : g'.DistinctEntries := by
  obtain ⟨nodes, hnodes, rfl⟩ := replaceModel_eq_ok.1 hg'
  refine h.of_old (Nat.le_refl _) fun m hm ↦ ?_
  obtain ⟨n, hn, hretyped⟩ := Fallible.exists_of_mem_mapM hnodes hm
  obtain ⟨cls, chain, -, rfl⟩ := retypeNode_eq_ok.1 hretyped
  exact ⟨n, hn, rfl, sublist_map_filterMap id_of_reboundEntry _⟩

theorem DistinctEntries.deleteNode (h : g.DistinctEntries) (id : String) :
    (g.deleteNode id).2.DistinctEntries := by
  unfold InstanceGraph.deleteNode
  split
  · exact h.of_old (Nat.le_refl _) fun m hm ↦ ⟨m, (List.mem_filter.1 hm).1, rfl, .refl _⟩
  · exact h

/-- Every edit keeps the identifiers of entries apart. -/
theorem DistinctEntries.edit (h : g.DistinctEntries) (hedit : g.Edit g') :
    g'.DistinctEntries := by
  cases hedit with
  | insertNode _ hn => exact h.insertNode hn
  | deleteNode id => exact h.deleteNode id
  | moveNode id position => exact h.modifyNode fun n ↦ ⟨rfl, .refl _⟩
  | reset => exact distinctEntries_reset g
  | insertEntry value _ _ _ _ => exact h.insertEntry rfl
  | writeEntry value _ => exact h.modifyNode fun n ↦ ⟨rfl, by rw [map_id_writeEntry]⟩
  | eraseEntry id entryId => exact h.modifyNode fun n ↦ ⟨rfl, List.filter_sublist.map _⟩
  | revalidate =>
    refine h.map fun n ↦ ⟨rfl, ?_⟩
    rw [List.map_map]
    exact .refl _
  | insertEdge _ _ _ _ _ _ =>
    exact h.of_old (Nat.le_succ _) fun n hn ↦ ⟨n, hn, rfl, .refl _⟩
  | deleteEdge id => exact ⟨h.issued, h.within, h.across⟩

/-- Every change keeps the identifiers of entries apart. -/
theorem DistinctEntries.change (h : g.DistinctEntries) (hchange : g.Change g') :
    g'.DistinctEntries := by
  cases hchange with
  | edit hedit => exact h.edit hedit
  | replaceModel hg' => exact h.replaceModel hg'
  | setCatalog catalog => exact ⟨h.issued, h.within, h.across⟩

theorem Reachable.distinctEntries (h : g.Reachable) : g.DistinctEntries := by
  obtain ⟨model, settings, ops, hnew, rfl⟩ := h
  exact (changes_run hnew).keep (distinctEntries_empty model settings)
    fun _ _ hg hchange ↦ hg.change hchange

end InstanceGraph

end OntoGraph.Graph
