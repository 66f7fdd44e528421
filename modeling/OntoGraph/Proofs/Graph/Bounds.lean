import OntoGraph.Proofs.Graph.Consistency
import OntoGraph.Proofs.Graph.Content

/-!
# Bounds on the number of values

A value or an edge is added only while the declaration that it is added under leaves room for it.
Several classes of a chain may declare one path with different bounds, and an addition is checked
against one of these declarations only. So what a node holds for a path is within the bound of some
declaration of the path, or is the one entry that the node started with. Every bound of a model is
respected exactly if no path is declared with a looser bound beside a tighter one.
-/

namespace OntoGraph.Ontology.Model

/-- Can the class have instances, which then have the chain? -/
structure HasInstances (model : Model) (cls : Class) (chain : Chain) : Prop where
  known : model.class? cls.iri = some cls
  concrete : cls.isAbstract = false
  resolved : model.chain cls.iri = .ok chain

/-- Can there be a value of the property, or an edge? An edge needs an instance to lead to. -/
def CanHold (model : Model) (cp : ClassProperty) : Prop :=
  ∀ target, cp.target? = some target →
    ∃ cls chain, model.HasInstances cls chain ∧ Chain.hasClass chain target = true

/-- Is every bound of a path, of at least one, also kept by the other declarations of the path that
an instance can use? -/
def BoundsAgree (model : Model) : Prop :=
  ∀ cls chain, model.HasInstances cls chain → ∀ cp ∈ Chain.declarations chain,
    ∀ max, 1 ≤ max → cp.maxCount = some max → ∀ other ∈ Chain.declarations chain,
      other.path = cp.path → model.CanHold other → ∃ bound ≤ max, other.maxCount = some bound

theorem canHold_of_value {model : Model} {cp : ClassProperty} (h : cp.isObject = false) :
    model.CanHold cp := by
  intro target htarget
  rw [ClassProperty.isObject, htarget] at h
  cases h

/-- Where no chain declares a path twice, there is nothing to agree on. -/
theorem boundsAgree_of_nodup {model : Model} (h : ∀ cls chain, model.HasInstances cls chain →
    ((Chain.declarations chain).map (·.path)).Nodup) : model.BoundsAgree := by
  intro cls chain hinstances cp hcp max _ hmax other hother hpath _
  obtain rfl := List.inj_on_of_nodup_map (h cls chain hinstances) hother hcp hpath
  exact ⟨max, Nat.le_refl max, hmax⟩

end OntoGraph.Ontology.Model

namespace OntoGraph.Graph.InstanceGraph

open Ontology

variable {g g' : InstanceGraph} {n : Node}

/-! ## Counting -/

theorem length_entriesOf (n : Node) (path : String) :
    (n.entriesOf path).length = (n.entries.map (·.path)).count path := by
  rw [Node.entriesOf, List.count_eq_length_filter, List.filter_map, List.length_map]
  rfl

theorem entryCount_of_mem (hids : (g.nodes.map (·.id)).Nodup) (hn : n ∈ g.nodes) (path : String) :
    g.entryCount n.id path = (n.entries.map (·.path)).count path + g.outEdgeCount n.id path := by
  rw [entryCount, node?_of_mem hids hn, ← length_entriesOf]
  rfl

theorem outEdgeCount_le_of_sublist (h : g'.edges.Sublist g.edges) (id path : String) :
    g'.outEdgeCount id path ≤ g.outEdgeCount id path :=
  ((h.filter _).filter _).length_le

/-- No edge leaves a node that is not there. -/
theorem Consistent.outEdgeCount_of_new (h : g.Consistent) {id : String} (hnew : g.node? id = none)
    (path : String) : g.outEdgeCount id path = 0 := by
  have hnone : g.outEdges id = [] := by
    refine List.filter_eq_nil_iff.2 fun e he hleaves ↦ ?_
    obtain ⟨source, hsource, -, -, -, hid, -⟩ := h.edges e he
    exact node?_eq_none_iff.1 hnew source hsource (hid.trans (of_decide_eq_true hleaves))
  rw [outEdgeCount, hnone]
  rfl

theorem entryCount_insertEntry {id : String} {e : Entry} (hn : g.node? id = some n)
    (other path : String) : (g.insertEntry id e).entryCount other path =
      g.entryCount other path + if other = id ∧ path = e.path then 1 else 0 := by
  rw [entryCount_eq, entryCount_eq, Nat.add_right_comm]
  by_cases hplace : other = id ∧ path = e.path <;> simp [hn, hplace]

theorem entryCount_insertEdge (e : Edge) (other path : String) :
    (g.insertEdge e).entryCount other path =
      g.entryCount other path + if other = e.source ∧ path = e.path then 1 else 0 := by
  rw [entryCount_eq, entryCount_eq, Nat.add_assoc]
  by_cases hplace : other = e.source ∧ path = e.path <;> simp [hplace]

/-! ## The invariant -/

/-- Is a number at most one, or within the bound of a declaration of a path that can be used? -/
def Admits (model : Model) (chain : Chain) (path : String) (count : Nat) : Prop :=
  count ≤ 1 ∨ ∃ cp ∈ chain.declarations, cp.path = path ∧ model.CanHold cp ∧
    ∀ max, cp.maxCount = some max → count ≤ max

theorem Admits.mono {model : Model} {chain : Chain} {path : String} {count less : Nat}
    (h : Admits model chain path count) (hle : less ≤ count) : Admits model chain path less := by
  rcases h with h | ⟨cp, hcp, hpath, hheld, hbound⟩
  · exact .inl (Nat.le_trans hle h)
  · exact .inr ⟨cp, hcp, hpath, hheld, fun max hmax ↦ Nat.le_trans hle (hbound max hmax)⟩

/-- Are the nodes instances of classes that have some, and do they hold for each path no more than
is admitted? -/
structure WithinBounds (g : InstanceGraph) : Prop where
  concrete : ∀ n ∈ g.nodes, n.cls.isAbstract = false
  admitted : ∀ n ∈ g.nodes, ∀ path, Admits g.model n.chain path (g.entryCount n.id path)

theorem withinBounds_empty (model : Model) (settings : GraphSettings) :
    WithinBounds { model, settings } :=
  ⟨by rintro _ ⟨⟩, by rintro _ ⟨⟩⟩

theorem WithinBounds.hasInstances (h : g.WithinBounds) (hg : g.Consistent) (hn : n ∈ g.nodes) :
    g.model.HasInstances n.cls n.chain :=
  ⟨(hg.typed n hn).cls, h.concrete n hn, (hg.typed n hn).chain⟩

/-- Nodes may be left out, and the others lose entries and edges. -/
theorem WithinBounds.of_old (h : g.WithinBounds) (hg : g.Consistent) (hg' : g'.Consistent)
    (hmodel : g'.model = g.model) (hedges : g'.edges.Sublist g.edges)
    (hold : ∀ m ∈ g'.nodes, ∃ n ∈ g.nodes, n.SameKind m ∧
      (m.entries.map (·.path)).Sublist (n.entries.map (·.path))) : g'.WithinBounds := by
  refine ⟨fun m hm ↦ ?_, fun m hm path ↦ ?_⟩
  · obtain ⟨n, hn, hsame, -⟩ := hold m hm
    rw [hsame.cls]
    exact h.concrete n hn
  · obtain ⟨n, hn, hsame, hentries⟩ := hold m hm
    rw [hmodel, hsame.chain]
    refine (h.admitted n hn path).mono ?_
    rw [entryCount_of_mem hg'.ids hm, entryCount_of_mem hg.ids hn, hsame.id]
    exact Nat.add_le_add (hentries.count_le path) (outEdgeCount_le_of_sublist hedges n.id path)

/-- The nodes may get other positions, and lose entries. -/
theorem WithinBounds.mapNodes {f : Node → Node} (h : g.WithinBounds) (hg : g.Consistent)
    (hg' : Consistent { g with nodes := g.nodes.map f })
    (hf : ∀ n ∈ g.nodes, n.SameKind (f n) ∧
      ((f n).entries.map (·.path)).Sublist (n.entries.map (·.path))) :
    WithinBounds { g with nodes := g.nodes.map f } := by
  refine h.of_old hg hg' rfl (.refl _) fun m hm ↦ ?_
  obtain ⟨n, hn, rfl⟩ := List.mem_map.1 hm
  exact ⟨n, hn, hf n hn⟩

theorem WithinBounds.modifyNode {id : String} {f : Node → Node} (h : g.WithinBounds)
    (hg : g.Consistent) (hg' : (g.modifyNode id f).Consistent)
    (hf : ∀ n : Node, n.SameKind (f n) ∧
      ((f n).entries.map (·.path)).Sublist (n.entries.map (·.path))) :
    (g.modifyNode id f).WithinBounds := by
  refine h.mapNodes hg hg' fun n _ ↦ ?_
  split
  · exact hf n
  · exact ⟨⟨rfl, rfl, rfl, rfl⟩, .refl _⟩

/-! ## Edits -/

/-- A new node starts with one entry for a path at most, and without edges. -/
theorem WithinBounds.insertNode {id classIri : String} {position : Position} (h : g.WithinBounds)
    (hg : g.Consistent) (hnew : g.node? id = none) (hn : g.newNode id classIri position = .ok n) :
    (g.insertNode n).WithinBounds := by
  have hg' := hg.insertNode hnew hn
  obtain ⟨cls, chain, -, hconcrete, -, rfl⟩ := newNode_eq_ok.1 hn
  refine ⟨fun m hm ↦ ?_, fun m hm path ↦ ?_⟩
  · rcases List.mem_append.1 hm with hold | hlast
    · exact h.concrete m hold
    · cases List.mem_singleton.1 hlast
      exact hconcrete
  · rcases List.mem_append.1 hm with hold | hlast
    · refine (h.admitted m hold path).mono (Nat.le_of_eq ?_)
      rw [entryCount_of_mem hg'.ids hm, entryCount_of_mem hg.ids hold]
      rfl
    · left
      rw [entryCount_of_mem hg'.ids hm]
      cases List.mem_singleton.1 hlast
      have hpaths : (g.initialEntries chain).map (·.path) = (prefilled chain).map (·.path) := by
        have hpairs := congrArg (List.map fun pair ↦ pair.1.path) (g.map_initialEntries chain)
        rwa [List.map_map, List.map_map] at hpairs
      change ((g.initialEntries chain).map (·.path)).count path + g.outEdgeCount id path ≤ 1
      rw [hpaths, hg.outEdgeCount_of_new hnew]
      exact List.nodup_iff_count_le_one.1 (nodup_path_prefilled chain) path

theorem WithinBounds.deleteNode (h : g.WithinBounds) (hg : g.Consistent) (id : String) :
    (g.deleteNode id).2.WithinBounds := by
  have hg' := hg.deleteNode id
  unfold InstanceGraph.deleteNode at hg' ⊢
  split_ifs at hg' ⊢
  · exact h.of_old hg hg' rfl List.filter_sublist fun m hm ↦
      ⟨m, (List.mem_filter.1 hm).1, ⟨rfl, rfl, rfl, rfl⟩, .refl _⟩
  · exact h

/-- What is added under a declaration that has room stays within the bound of the declaration. -/
theorem WithinBounds.of_room {id : String} {cp : ClassProperty} (h : g.WithinBounds)
    (hg : g.Consistent) (hmodel : g'.model = g.model) (hn : g.node? id = some n)
    (hdeclares : n.declares cp = true) (hheld : g.model.CanHold cp)
    (hroom : g.isFull id cp = false) (hold : ∀ m ∈ g'.nodes, ∃ n ∈ g.nodes, n.SameKind m)
    (hcount : ∀ other path, g'.entryCount other path =
      g.entryCount other path + if other = id ∧ path = cp.path then 1 else 0) :
    g'.WithinBounds := by
  refine ⟨fun m hm ↦ ?_, fun m hm path ↦ ?_⟩
  · obtain ⟨old, hold, hsame⟩ := hold m hm
    rw [hsame.cls]
    exact h.concrete old hold
  · obtain ⟨old, hold, hsame⟩ := hold m hm
    rw [hmodel, hcount, hsame.id, hsame.chain]
    by_cases hplace : old.id = id ∧ path = cp.path
    · obtain ⟨rfl, rfl⟩ := hplace
      rw [node?_of_mem hg.ids hold] at hn
      cases hn
      rw [if_pos ⟨rfl, rfl⟩]
      exact .inr ⟨cp, declares_iff.1 hdeclares, rfl, hheld, isFull_eq_false_iff.1 hroom⟩
    · rw [if_neg hplace]
      exact h.admitted old hold path

theorem WithinBounds.insertEntry {id : String} {cp : ClassProperty} (h : g.WithinBounds)
    (hg : g.Consistent) (value : Option Value) (hn : g.node? id = some n)
    (hobject : cp.isObject = false) (hdeclares : n.declares cp = true)
    (hroom : g.isFull id cp = false) : (g.insertEntry id (g.newEntry cp value)).WithinBounds := by
  refine h.of_room hg rfl hn hdeclares (Model.canHold_of_value hobject) hroom (fun m hm ↦ ?_)
    (entryCount_insertEntry hn)
  obtain ⟨old, hold, rfl⟩ := List.mem_map.1 hm
  refine ⟨old, hold, ?_⟩
  split <;> exact ⟨rfl, rfl, rfl, rfl⟩

theorem WithinBounds.insertEdge {source target targetClass : String} {targetNode : Node}
    {cp : ClassProperty} (h : g.WithinBounds) (hg : g.Consistent)
    (hclass : cp.target? = some targetClass) (hn : g.node? source = some n)
    (htarget : g.node? target = some targetNode) (hdeclares : n.declares cp = true)
    (hisA : targetNode.isA targetClass = true) (hroom : g.isFull source cp = false) :
    (g.insertEdge (g.newEdge source target cp)).WithinBounds := by
  refine h.of_room hg rfl hn hdeclares (fun other hother ↦ ?_) hroom
    (fun m hm ↦ ⟨m, hm, rfl, rfl, rfl, rfl⟩) (entryCount_insertEdge _)
  cases hclass.symm.trans hother
  exact ⟨_, _, h.hasInstances hg (node?_eq_some htarget).1, hisA⟩

theorem WithinBounds.edit (h : g.WithinBounds) (hg : g.Consistent) (hedit : g.Edit g') :
    g'.WithinBounds := by
  have hg' := hg.edit hedit
  cases hedit with
  | insertNode hnew hn => exact h.insertNode hg hnew hn
  | deleteNode id => exact h.deleteNode hg id
  | moveNode id position =>
    exact h.modifyNode hg hg' fun n ↦ ⟨⟨rfl, rfl, rfl, rfl⟩, .refl _⟩
  | reset => exact ⟨by rintro _ ⟨⟩, by rintro _ ⟨⟩⟩
  | insertEntry value hn hobject hdeclares hroom =>
    exact h.insertEntry hg value hn hobject hdeclares hroom
  | writeEntry value _ =>
    refine h.modifyNode hg hg' fun n ↦ ⟨⟨rfl, rfl, rfl, rfl⟩, ?_⟩
    rw [List.map_map]
    exact List.map_congr_left (fun e _ ↦ path_rewritten e) ▸ .refl _
  | eraseEntry id entryId =>
    exact h.modifyNode hg hg' fun n ↦ ⟨⟨rfl, rfl, rfl, rfl⟩, List.filter_sublist.map _⟩
  | revalidate =>
    refine h.mapNodes hg hg' fun n _ ↦ ⟨⟨rfl, rfl, rfl, rfl⟩, ?_⟩
    rw [List.map_map]
    exact .refl _
  | insertEdge hclass hsource htarget hdeclares hisA hroom =>
    exact h.insertEdge hg hclass hsource htarget hdeclares hisA hroom
  | deleteEdge id =>
    exact h.of_old hg hg' rfl List.filter_sublist fun m hm ↦
      ⟨m, hm, ⟨rfl, rfl, rfl, rfl⟩, .refl _⟩

/-! ## Runs -/

def KeepsModel (ops : List Operation) : Prop := ∀ op ∈ ops, ∀ model, op ≠ .replaceModel model

theorem WithinBounds.perform {op : Operation} (h : g.WithinBounds) (hg : g.Consistent)
    (hnew : g.MintsNew op) (hmodel : ∀ model, op ≠ .replaceModel model) :
    (g.perform op).Consistent ∧ (g.perform op).WithinBounds ∧ (g.perform op).model = g.model := by
  by_cases hcatalog : ∃ catalog, op = .setCatalog catalog
  · obtain ⟨catalog, rfl⟩ := hcatalog
    exact ⟨hg.setCatalog catalog, ⟨h.concrete, h.admitted⟩, rfl⟩
  · refine (edits_perform hnew hmodel fun catalog heq ↦ hcatalog ⟨catalog, heq⟩).keep
      (P := fun g' ↦ g'.Consistent ∧ g'.WithinBounds ∧ g'.model = g.model) ⟨hg, h, rfl⟩ ?_
    rintro g₁ g₂ ⟨hconsistent, hbounds, hsame⟩ hedit
    exact ⟨hconsistent.edit hedit, hbounds.edit hconsistent hedit, hedit.model.trans hsame⟩

theorem WithinBounds.run {ops : List Operation} (h : g.WithinBounds) (hg : g.Consistent)
    (hnew : g.AlwaysMintsNew ops) (hmodel : KeepsModel ops) :
    (g.run ops).Consistent ∧ (g.run ops).WithinBounds ∧ (g.run ops).model = g.model := by
  induction ops generalizing g with
  | nil => exact ⟨hg, h, rfl⟩
  | cons op ops ih =>
    obtain ⟨hconsistent, hbounds, hsame⟩ :=
      h.perform hg hnew.1 (hmodel op List.mem_cons_self)
    obtain ⟨hconsistent, hbounds, hrest⟩ := ih hbounds hconsistent hnew.2
      fun other hother ↦ hmodel other (List.mem_cons_of_mem _ hother)
    exact ⟨hconsistent, hbounds, hrest.trans hsame⟩

/-! ## Exceeding a bound -/

theorem perform_addNodeWithId (id : String) {cls : Ontology.Class} {chain : Chain}
    (h : g.model.HasInstances cls chain) (hnew : g.node? id = none) :
    ∃ n : Node, n.id = id ∧ n.chain = chain ∧
      g.perform (.addNodeWithId id cls.iri {}) = g.insertNode n := by
  let n : Node :=
    { id, position := {}, cls, chain, entries := g.initialEntries chain
      isElement := g.settings.isElementChain g.model chain }
  have hn : g.newNode id cls.iri {} = .ok n :=
    newNode_eq_ok.2 ⟨cls, chain, h.known, h.concrete, h.resolved, rfl⟩
  refine ⟨n, rfl, rfl, ?_⟩
  rw [perform, addNode_eq_ok.2 ⟨hnew, n, hn, rfl⟩]
  rfl

theorem perform_addEntry {id : String} {cp : ClassProperty} (value : Option Value)
    (hn : g.node? id = some n) (hobject : cp.isObject = false) (hdeclares : n.declares cp = true) :
    g.perform (.addEntry id cp value) =
      if g.isFull id cp then g else g.insertEntry id (g.newEntry cp value) := by
  rw [perform]
  cases hfull : g.isFull id cp with
  | true =>
    rw [addEntry_eq_ok.2 ⟨hobject, n, hn, hdeclares, .inl ⟨hfull, rfl, rfl⟩⟩]
    rfl
  | false =>
    rw [addEntry_eq_ok.2 ⟨hobject, n, hn, hdeclares, .inr ⟨hfull, rfl, rfl⟩⟩]
    rfl

theorem perform_addEdge {source target targetClass : String} {targetNode : Node}
    {cp : ClassProperty} (hclass : cp.target? = some targetClass) (hn : g.node? source = some n)
    (htarget : g.node? target = some targetNode) (hdeclares : n.declares cp = true)
    (hisA : targetNode.isA targetClass = true) :
    g.perform (.addEdge source target cp) =
      if g.isFull source cp then g else g.insertEdge (g.newEdge source target cp) := by
  rw [perform]
  cases hfull : g.isFull source cp with
  | true =>
    rw [addEdge_eq_ok.2 ⟨_, n, targetNode, hclass, hn, htarget, hdeclares, hisA,
      .inl ⟨hfull, rfl, rfl⟩⟩]
    rfl
  | false =>
    rw [addEdge_eq_ok.2 ⟨_, n, targetNode, hclass, hn, htarget, hdeclares, hisA,
      .inr ⟨hfull, rfl, rfl⟩⟩]
    rfl

variable {id : String} {cp : ClassProperty} {max : Nat}

/-- An addition brings one more value unless the bound of its declaration is reached, which is
beyond a tighter bound. -/
theorem le_entryCount_of_loose (hloose : ∀ bound ≤ max, cp.maxCount ≠ some bound)
    (hcount : g'.entryCount id cp.path = g.entryCount id cp.path + 1) :
    min (max + 1) (g.entryCount id cp.path + 1) ≤
      (if g.isFull id cp then g else g').entryCount id cp.path := by
  cases hfull : g.isFull id cp with
  | false =>
    rw [if_neg Bool.false_ne_true, hcount]
    exact Nat.min_le_right _ _
  | true =>
    rw [if_pos rfl]
    obtain ⟨bound, hbound, hreached⟩ := isFull_eq_true_iff.1 hfull
    have hbeyond : max < bound := Nat.lt_of_not_le fun hle ↦ hloose bound hle hbound
    omega

/-- What every further addition brings closer to exceeding a bound exceeds it in the end. -/
theorem le_entryCount_replicate {P : InstanceGraph → Prop} {op : Operation} {path : String}
    (hstep : ∀ g, P g → P (g.perform op) ∧
      min (max + 1) (g.entryCount id path + 1) ≤ (g.perform op).entryCount id path)
    (k : Nat) (hg : P g) :
    P (g.run (List.replicate k op)) ∧
      min (max + 1) (g.entryCount id path + k) ≤
        (g.run (List.replicate k op)).entryCount id path := by
  induction k generalizing g with
  | zero => exact ⟨hg, Nat.min_le_right _ _⟩
  | succ k ih =>
    obtain ⟨hnext, hmore⟩ := hstep g hg
    obtain ⟨hlast, hcount⟩ := ih hnext
    refine ⟨hlast, Nat.le_trans ?_ hcount⟩
    omega

/-- A run without nodes under minted names mints only new names. -/
theorem alwaysMintsNew_of_named {ops : List Operation}
    (h : ∀ op ∈ ops, ∀ urn classIri position, op ≠ .addNode urn classIri position) :
    g.AlwaysMintsNew ops := by
  induction ops generalizing g with
  | nil => trivial
  | cons op ops ih =>
    refine ⟨?_, ih fun other hother ↦ h other (List.mem_cons_of_mem _ hother)⟩
    cases op with
    | addNode urn classIri position =>
      exact absurd rfl (h _ List.mem_cons_self urn classIri position)
    | _ => trivial

/-- A run that repeats an addition under a loose declaration exceeds the tighter bound. -/
theorem exists_run_of_steps {model : Model} {settings : GraphSettings} {chain : Chain}
    {P : InstanceGraph → Prop} {path : String} (id : String) (first : List Operation)
    (op : Operation)
    (hnamed : ∀ op' ∈ op :: first, ∀ urn classIri position, op' ≠ .addNode urn classIri position)
    (hkeeps : KeepsModel (op :: first)) (hfirst : P (run { model, settings } first))
    (hnode : ∀ g, P g → ∃ n, g.node? id = some n ∧ n.chain = chain)
    (hstep : ∀ g, P g → P (g.perform op) ∧
      min (max + 1) (g.entryCount id path + 1) ≤ (g.perform op).entryCount id path) :
    ∃ ops, AlwaysMintsNew { model, settings } ops ∧ KeepsModel ops ∧
      ∃ n ∈ (run { model, settings } ops).nodes, n.chain = chain ∧
        max < (run { model, settings } ops).entryCount n.id path := by
  have hmem : ∀ op' ∈ first ++ List.replicate (max + 1) op, op' ∈ op :: first := by
    intro op' hop'
    rcases List.mem_append.1 hop' with hop' | hop'
    · exact List.mem_cons_of_mem _ hop'
    · exact (List.mem_replicate.1 hop').2 ▸ List.mem_cons_self
  obtain ⟨hlast, hcount⟩ := le_entryCount_replicate hstep (max + 1) hfirst
  obtain ⟨n, hn, hchain⟩ := hnode _ hlast
  refine ⟨first ++ List.replicate (max + 1) op, alwaysMintsNew_of_named fun op' hop' ↦
    hnamed op' (hmem op' hop'), fun op' hop' ↦ hkeeps op' (hmem op' hop'), ?_⟩
  rw [run, List.foldl_append]
  refine ⟨n, (node?_eq_some hn).1, hchain, ?_⟩
  rw [(node?_eq_some hn).2]
  refine Nat.lt_of_lt_of_le (Nat.lt_succ_self max) (Nat.le_trans ?_ hcount)
  exact Nat.le_min.2 ⟨Nat.le_refl _, Nat.le_add_left _ _⟩

section

variable (settings : GraphSettings) {model : Model} {cls : Ontology.Class} {chain : Chain}

/-- By adding values under a looser declaration, some run exceeds a bound. -/
theorem exists_run_of_looseValue (h : model.HasInstances cls chain)
    (hcp : cp ∈ chain.declarations) (hobject : cp.isObject = false)
    (hloose : ∀ bound ≤ max, cp.maxCount ≠ some bound) :
    ∃ ops, AlwaysMintsNew { model, settings } ops ∧ KeepsModel ops ∧
      ∃ n ∈ (run { model, settings } ops).nodes, n.chain = chain ∧
        max < (run { model, settings } ops).entryCount n.id cp.path := by
  obtain ⟨n, hid, hchain, hn⟩ :=
    perform_addNodeWithId (g := { model, settings }) "source" h rfl
  refine exists_run_of_steps "source" [.addNodeWithId "source" cls.iri {}]
    (.addEntry "source" cp none)
    (P := fun g ↦ ∃ n, g.node? "source" = some n ∧ n.chain = chain)
    (by simp) (by simp [KeepsModel]) ?_ (fun _ hg ↦ hg) ?_
  · refine ⟨n, ?_, hchain⟩
    rw [run, List.foldl_cons, List.foldl_nil, hn, node?_insertNode rfl, if_pos hid.symm]
  · rintro g ⟨n, hn, rfl⟩
    rw [perform_addEntry none hn hobject (declares_iff.2 hcp)]
    refine ⟨?_, le_entryCount_of_loose hloose ?_⟩
    · split
      · exact ⟨n, hn, rfl⟩
      · refine ⟨{ n with entries := n.entries ++ [g.newEntry cp none] }, ?_, rfl⟩
        have hnode : (g.insertEntry "source" (g.newEntry cp none)).node? "source" = _ :=
          node?_modifyNode (f := fun n ↦ { n with entries := n.entries ++ [g.newEntry cp none] })
            (fun _ ↦ rfl) "source"
        rwa [hn, Option.map_some, if_pos (node?_eq_some hn).2] at hnode
    · rw [entryCount_insertEntry hn, if_pos ⟨rfl, rfl⟩]

/-- By adding edges under a looser declaration, some run exceeds a bound. -/
theorem exists_run_of_looseEdge {target : String} {targetCls : Ontology.Class}
    {targetChain : Chain} (h : model.HasInstances cls chain) (hcp : cp ∈ chain.declarations)
    (hclass : cp.target? = some target) (htarget : model.HasInstances targetCls targetChain)
    (hisA : targetChain.hasClass target = true)
    (hloose : ∀ bound ≤ max, cp.maxCount ≠ some bound) :
    ∃ ops, AlwaysMintsNew { model, settings } ops ∧ KeepsModel ops ∧
      ∃ n ∈ (run { model, settings } ops).nodes, n.chain = chain ∧
        max < (run { model, settings } ops).entryCount n.id cp.path := by
  obtain ⟨n, hid, hchain, hn⟩ :=
    perform_addNodeWithId (g := { model, settings }) "source" h rfl
  have hnew : (InstanceGraph.insertNode { model, settings } n).node? "target" = none := by
    rw [node?_insertNode rfl, hid]
    rfl
  obtain ⟨m, hmid, hmchain, hm⟩ := perform_addNodeWithId
    (g := InstanceGraph.insertNode { model, settings } n) "target" htarget hnew
  refine exists_run_of_steps "source"
    [.addNodeWithId "source" cls.iri {}, .addNodeWithId "target" targetCls.iri {}]
    (.addEdge "source" "target" cp)
    (P := fun g ↦ (∃ n, g.node? "source" = some n ∧ n.chain = chain) ∧
      ∃ m, g.node? "target" = some m ∧ m.chain = targetChain)
    (by simp) (by simp [KeepsModel]) ?_ (fun _ hg ↦ hg.1) ?_
  · rw [run, List.foldl_cons, List.foldl_cons, List.foldl_nil, hn, hm]
    have hlookup := node?_insertNode (hmid ▸ hnew)
    refine ⟨⟨n, ?_, hchain⟩, m, ?_, hmchain⟩
    · rw [hlookup, hmid, if_neg (by decide), node?_insertNode rfl, if_pos hid.symm]
    · rw [hlookup, if_pos hmid.symm]
  · rintro g ⟨⟨n, hn, rfl⟩, m, hm, rfl⟩
    rw [perform_addEdge hclass hn hm (declares_iff.2 hcp) hisA]
    refine ⟨?_, le_entryCount_of_loose hloose ?_⟩
    · split <;> exact ⟨⟨n, hn, rfl⟩, m, hm, rfl⟩
    · rw [entryCount_insertEdge, if_pos ⟨rfl, rfl⟩]

/-- A declaration that is looser than a bound lets some run exceed the bound. -/
theorem exists_run_of_loose (h : model.HasInstances cls chain) (hcp : cp ∈ chain.declarations)
    (hheld : model.CanHold cp) (hloose : ∀ bound ≤ max, cp.maxCount ≠ some bound) :
    ∃ ops, AlwaysMintsNew { model, settings } ops ∧ KeepsModel ops ∧
      ∃ n ∈ (run { model, settings } ops).nodes, n.chain = chain ∧
        max < (run { model, settings } ops).entryCount n.id cp.path := by
  cases hclass : cp.target? with
  | none =>
    have hobject : cp.isObject = false := by
      rw [ClassProperty.isObject, hclass]
      rfl
    exact exists_run_of_looseValue settings h hcp hobject hloose
  | some target =>
    obtain ⟨targetCls, targetChain, htarget, hisA⟩ := hheld target hclass
    exact exists_run_of_looseEdge settings h hcp hclass htarget hisA hloose

end

/-! ## Bounds in every run -/

/-- Where no path is declared with a looser bound beside a tighter one, bounds are respected. -/
theorem entryCount_le_of_boundsAgree {model : Model} {settings : GraphSettings}
    {ops : List Operation} (hagree : model.BoundsAgree)
    (hnew : AlwaysMintsNew { model, settings } ops) (hkeeps : KeepsModel ops)
    (hn : n ∈ (run { model, settings } ops).nodes) (hcp : cp ∈ n.chain.declarations)
    (hpositive : 1 ≤ max) (hmax : cp.maxCount = some max) :
    (run { model, settings } ops).entryCount n.id cp.path ≤ max := by
  obtain ⟨hconsistent, hbounds, hmodel⟩ :=
    (withinBounds_empty model settings).run (consistent_empty model settings) hnew hkeeps
  have hinstances := hbounds.hasInstances hconsistent hn
  have hadmitted := hbounds.admitted n hn cp.path
  rw [hmodel] at hinstances hadmitted
  rcases hadmitted with hone | ⟨other, hother, hpath, hheld, hwithin⟩
  · exact Nat.le_trans hone hpositive
  · obtain ⟨bound, hle, hbound⟩ :=
      hagree n.cls n.chain hinstances cp hcp max hpositive hmax other hother hpath hheld
    exact Nat.le_trans (hwithin bound hbound) hle

/-- From the empty graph on, runs that keep the model respect every bound of at least one, exactly
if no path is declared with a looser bound beside a tighter one. -/
theorem maxCount_respected_iff (model : Model) (settings : GraphSettings) :
    (∀ ops, AlwaysMintsNew { model, settings } ops → KeepsModel ops →
      ∀ n ∈ (run { model, settings } ops).nodes, ∀ cp ∈ n.chain.declarations, ∀ max, 1 ≤ max →
        cp.maxCount = some max → (run { model, settings } ops).entryCount n.id cp.path ≤ max) ↔
      model.BoundsAgree := by
  constructor
  · intro h cls chain hinstances cp hcp max hpositive hmax other hother hpath hheld
    by_contra hloose
    have hbeyond : ∀ bound ≤ max, other.maxCount ≠ some bound :=
      fun bound hle hbound ↦ hloose ⟨bound, hle, hbound⟩
    obtain ⟨ops, hnew, hkeeps, n, hn, rfl, hcount⟩ :=
      exists_run_of_loose settings hinstances hother hheld hbeyond
    rw [hpath] at hcount
    exact Nat.not_lt_of_le (h ops hnew hkeeps n hn cp hcp max hpositive hmax) hcount
  · exact fun hagree ops hnew hkeeps n hn cp hcp max ↦
      entryCount_le_of_boundsAgree hagree hnew hkeeps hn hcp

/-- Elements have one comment at most. -/
def elementComment : ClassProperty :=
  { parentClass := "https://example.org/Core/Element"
    path := "https://example.org/Core/comment"
    name := "comment"
    maxCount := some 1
    constraint := .literal .string }

/-- Notes, which are elements, have up to two comments. -/
def noteComment : ClassProperty :=
  { elementComment with
    parentClass := "https://example.org/Core/Note"
    maxCount := some 2 }

def commented : Model :=
  .ofProfiles {} (.ofList [("Core", { classes := .ofList [
    ("Element",
      { iri := "https://example.org/Core/Element"
        name := "Element"
        profileName := "Core"
        properties := .ofList [("comment", elementComment)] }),
    ("Note",
      { iri := "https://example.org/Core/Note"
        name := "Note"
        profileName := "Core"
        subClassOf := some "https://example.org/Core/Element"
        properties := .ofList [("comment", noteComment)] })] })])

def commenting : List Operation :=
  [.addNodeWithId "note" "https://example.org/Core/Note" {},
    .addEntry "note" noteComment (some (.text "first")),
    .addEntry "note" noteComment (some (.text "second"))]

/-- The bound that elements have for comments is exceeded. -/
theorem exceeds_commented :
    AlwaysMintsNew { model := commented } commenting ∧ KeepsModel commenting ∧
      ∃ n ∈ (run { model := commented } commenting).nodes,
        elementComment ∈ n.chain.declarations ∧ elementComment.maxCount = some 1 ∧
        (run { model := commented } commenting).entryCount n.id elementComment.path = 2 := by
  refine ⟨⟨trivial, trivial, trivial, trivial⟩, by simp [KeepsModel, commenting], ?_⟩
  decide

end OntoGraph.Graph.InstanceGraph
