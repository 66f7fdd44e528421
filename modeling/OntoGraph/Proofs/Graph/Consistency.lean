import OntoGraph.Proofs.Graph.Change
import OntoGraph.Proofs.Ontology.Chain

/-!
# Consistent graphs

A graph is consistent when its nodes have distinct names and are typed by the present model, its
values belong to declarations of their nodes, and its edges lead between nodes as the declarations
of their properties demand. The main statement is that every run of operations, from the empty
graph on, leaves a consistent graph: edits, changes of the model and documents that are read alike.
-/

namespace OntoGraph.Graph

open Ontology

/-- Has the node the class, the chain and the mark that a model gives for the IRI of its class? -/
structure Node.TypedBy (n : Node) (model : Model) (settings : GraphSettings) : Prop where
  cls : model.class? n.cls.iri = some n.cls
  chain : model.chain n.cls.iri = .ok n.chain
  isElement : n.isElement = settings.isElementChain model n.chain

/-- May a node with this chain hold a value of the property? -/
def HoldsValuesOf (chain : Chain) (cp : ClassProperty) : Prop :=
  cp.isObject = false ∧ cp ∈ chain.declarations

/-- Does the edge lead from a node whose chain declares its property to an instance of the class
that the property asks for? -/
def Edge.FitsInto (e : Edge) (nodes : List Node) : Prop :=
  ∃ source ∈ nodes, ∃ target ∈ nodes, ∃ targetClass,
    source.id = e.source ∧ target.id = e.target ∧ e.property ∈ source.chain.declarations ∧
      e.property.target? = some targetClass ∧ target.isA targetClass = true

/-- The structural invariant of a graph. -/
structure InstanceGraph.Consistent (g : InstanceGraph) : Prop where
  ids : (g.nodes.map (·.id)).Nodup
  typed : ∀ n ∈ g.nodes, n.TypedBy g.model g.settings
  entries : ∀ n ∈ g.nodes, ∀ e ∈ n.entries, HoldsValuesOf n.chain e.property
  edges : ∀ e ∈ g.edges, e.FitsInto g.nodes

/-! ## Declarations -/

@[simp] theorem declares_iff {n : Node} {cp : ClassProperty} :
    n.declares cp = true ↔ cp ∈ n.chain.declarations := by
  simp [Node.declares]

theorem firstOfEachPath_sublist (seen : List String) (cps : List ClassProperty) :
    (ClassProperty.firstOfEachPath seen cps).Sublist cps := by
  induction cps generalizing seen with
  | nil => exact .slnil
  | cons cp cps ih =>
    unfold ClassProperty.firstOfEachPath
    split
    · exact (ih seen).cons cp
    · exact (ih _).cons_cons cp

/-- Paths that were seen before are left out, and no path is left in twice. -/
theorem paths_firstOfEachPath (seen : List String) (cps : List ClassProperty) :
    (∀ cp ∈ ClassProperty.firstOfEachPath seen cps, cp.path ∉ seen) ∧
      ((ClassProperty.firstOfEachPath seen cps).map (·.path)).Nodup := by
  induction cps generalizing seen with
  | nil => exact ⟨by rintro _ ⟨⟩, List.nodup_nil⟩
  | cons cp cps ih =>
    unfold ClassProperty.firstOfEachPath
    split_ifs with hseen
    · exact ih seen
    · obtain ⟨hunseen, hnodup⟩ := ih (cp.path :: seen)
      refine ⟨fun other hother ↦ ?_, List.nodup_cons.2 ⟨fun hmem ↦ ?_, hnodup⟩⟩
      · rcases List.mem_cons.1 hother with rfl | hother
        · rwa [List.contains_iff_mem] at hseen
        · exact fun hmem ↦ hunseen other hother (List.mem_cons_of_mem _ hmem)
      · obtain ⟨other, hother, hpath⟩ := List.mem_map.1 hmem
        exact hunseen other hother (hpath ▸ List.mem_cons_self)

/-- A new node has one entry for a path at most. -/
theorem nodup_path_prefilled (chain : Chain) :
    ((InstanceGraph.prefilled chain).map (·.path)).Nodup :=
  (paths_firstOfEachPath [] _).2

theorem holdsValuesOf_of_mem_prefilled {chain : Chain} {cp : ClassProperty}
    (h : cp ∈ InstanceGraph.prefilled chain) : HoldsValuesOf chain cp := by
  have hmem := (firstOfEachPath_sublist _ _).subset h
  simp only [Chain.required, List.mem_filter, Bool.not_eq_eq_eq_not, Bool.not_true] at hmem
  exact ⟨hmem.2, hmem.1.1⟩

theorem mem_declarations_of_nearest? {chain : Chain} {path : String} {cp : ClassProperty}
    (h : chain.nearest? path = some cp) : cp ∈ chain.declarations :=
  List.mem_of_find?_eq_some h

theorem path_of_nearest? {chain : Chain} {path : String} {cp : ClassProperty}
    (h : chain.nearest? path = some cp) : cp.path = path := by
  simpa using List.find?_some h

/-- Where a chain declares no path twice, a declaration is the nearest one of its path. -/
theorem nearest?_of_mem {chain : Chain} {cp : ClassProperty}
    (hpaths : (chain.declarations.map (·.path)).Nodup) (hcp : cp ∈ chain.declarations) :
    chain.nearest? cp.path = some cp := by
  obtain ⟨found, hfound⟩ := Option.isSome_iff_exists.1
    (List.find?_isSome (p := fun other : ClassProperty ↦ other.path = cp.path).2
      ⟨cp, hcp, by simp⟩)
  have hsame : found = cp := List.inj_on_of_nodup_map hpaths (List.mem_of_find?_eq_some hfound)
    hcp (path_of_nearest? hfound)
  rw [Chain.nearest?, hfound, hsame]

/-! ## Frames -/

/-- Is the second node the first one with another position or other values? -/
structure Node.SameKind (n m : Node) : Prop where
  id : m.id = n.id
  cls : m.cls = n.cls
  chain : m.chain = n.chain
  isElement : m.isElement = n.isElement

theorem Node.TypedBy.congr {n m : Node} {model : Model} {settings : GraphSettings}
    (h : n.TypedBy model settings) (hm : n.SameKind m) : m.TypedBy model settings where
  cls := by rw [hm.cls]; exact h.cls
  chain := by rw [hm.cls, hm.chain]; exact h.chain
  isElement := by rw [hm.isElement, hm.chain]; exact h.isElement

theorem Edge.FitsInto.map {e : Edge} {nodes : List Node} {f : Node → Node}
    (h : e.FitsInto nodes) (hf : ∀ n ∈ nodes, n.SameKind (f n)) : e.FitsInto (nodes.map f) := by
  obtain ⟨source, hsource, target, htarget, targetClass, hsid, htid, hdecl, hclass, hisA⟩ := h
  refine ⟨f source, List.mem_map_of_mem hsource, f target, List.mem_map_of_mem htarget,
    targetClass, ?_, ?_, ?_, hclass, ?_⟩
  · rw [(hf source hsource).id, hsid]
  · rw [(hf target htarget).id, htid]
  · rw [(hf source hsource).chain]
    exact hdecl
  · rw [Node.isA, (hf target htarget).chain]
    exact hisA

theorem Edge.FitsInto.mono {e : Edge} {nodes nodes' : List Node} (h : e.FitsInto nodes)
    (hsub : ∀ n ∈ nodes, n.id = e.source ∨ n.id = e.target → n ∈ nodes') : e.FitsInto nodes' := by
  obtain ⟨source, hsource, target, htarget, targetClass, hsid, htid, hrest⟩ := h
  exact ⟨source, hsub source hsource (.inl hsid), target, hsub target htarget (.inr htid),
    targetClass, hsid, htid, hrest⟩

namespace InstanceGraph

variable {g g' : InstanceGraph}

theorem consistent_empty (model : Model) (settings : GraphSettings) :
    Consistent { model, settings } where
  ids := List.nodup_nil
  typed := by rintro _ ⟨⟩
  entries := by rintro _ ⟨⟩
  edges := by rintro _ ⟨⟩

/-- An edge that leaves a node is one of an object property that the node declares. -/
theorem Consistent.outEdge {n : Node} {e : Edge} (h : g.Consistent) (hn : n ∈ g.nodes)
    (he : e ∈ g.outEdges n.id) :
    e.property ∈ n.chain.declarations ∧ ∃ target ∈ g.nodes, ∃ targetClass,
      target.id = e.target ∧ e.property.target? = some targetClass ∧
        target.isA targetClass = true := by
  obtain ⟨he, hleaves⟩ := List.mem_filter.1 he
  obtain ⟨source, hsource, target, htarget, targetClass, hsid, htid, hdeclared, hclass, hisA⟩ :=
    h.edges e he
  obtain rfl : source = n :=
    List.inj_on_of_nodup_map h.ids hsource hn (hsid.trans (of_decide_eq_true hleaves))
  exact ⟨hdeclared, target, htarget, targetClass, htid, hclass, hisA⟩

/-- Nodes may get other positions, and other values as far as their chains admit them. -/
theorem Consistent.mapNodes {f : Node → Node} (h : g.Consistent)
    (hf : ∀ n ∈ g.nodes, n.SameKind (f n))
    (hentries : ∀ n ∈ g.nodes, ∀ e ∈ (f n).entries, HoldsValuesOf n.chain e.property) :
    Consistent { g with nodes := g.nodes.map f } where
  ids := by
    have : (g.nodes.map f).map (·.id) = g.nodes.map (·.id) := by
      rw [List.map_map]
      exact List.map_congr_left fun n hn ↦ (hf n hn).id
    rw [this]
    exact h.ids
  typed := by
    intro m hm
    obtain ⟨n, hn, rfl⟩ := List.mem_map.1 hm
    exact (h.typed n hn).congr (hf n hn)
  entries := by
    intro m hm e he
    obtain ⟨n, hn, rfl⟩ := List.mem_map.1 hm
    rw [(hf n hn).chain]
    exact hentries n hn e he
  edges := fun e he ↦ (h.edges e he).map hf

/-- One node may get another position, and other values as far as its chain admits them. -/
theorem Consistent.modifyNode {id : String} {f : Node → Node} (h : g.Consistent)
    (hf : ∀ n : Node, n.SameKind (f n))
    (hentries : ∀ n ∈ g.nodes, n.id = id →
      ∀ e ∈ (f n).entries, HoldsValuesOf n.chain e.property) :
    (g.modifyNode id f).Consistent := by
  apply h.mapNodes
  · intro n _
    split
    · exact hf n
    · exact ⟨rfl, rfl, rfl, rfl⟩
  · intro n hn e he
    split_ifs at he with hid
    · exact hentries n hn hid e he
    · exact h.entries n hn e he

/-! ## Edits -/

theorem holdsValuesOf_of_mem_initialEntries {chain : Chain} {e : Entry}
    (h : e ∈ g.initialEntries chain) : HoldsValuesOf chain e.property := by
  obtain ⟨i, hi, rfl⟩ := List.mem_mapIdx.1 h
  exact holdsValuesOf_of_mem_prefilled (List.getElem_mem hi)

/-- A new instance of a class under a new name. -/
theorem Consistent.insertNode {id classIri : String} {position : Position} {n : Node}
    (h : g.Consistent) (hnew : g.node? id = none) (hn : g.newNode id classIri position = .ok n) :
    (g.insertNode n).Consistent := by
  obtain ⟨cls, chain, hcls, -, hchain, rfl⟩ := newNode_eq_ok.1 hn
  have hiri := Model.iri_of_class? hcls
  refine ⟨?_, ?_, ?_, fun e he ↦ (h.edges e he).mono fun n hn _ ↦ List.mem_append_left _ hn⟩
  · simp only [InstanceGraph.insertNode, List.map_append, List.map_cons, List.map_nil]
    refine List.nodup_append.2 ⟨h.ids, List.nodup_singleton _, ?_⟩
    rintro _ hmem _ hid rfl
    obtain ⟨n, hn, rfl⟩ := List.mem_map.1 hmem
    exact node?_eq_none_iff.1 hnew n hn (List.mem_singleton.1 hid)
  · intro n hn
    rcases List.mem_append.1 hn with hn | hn
    · exact h.typed n hn
    · cases List.mem_singleton.1 hn
      exact ⟨by rw [hiri]; exact hcls, by rw [hiri]; exact hchain, rfl⟩
  · intro n hn e he
    rcases List.mem_append.1 hn with hn | hn
    · exact h.entries n hn e he
    · cases List.mem_singleton.1 hn
      exact holdsValuesOf_of_mem_initialEntries he

/-- The edges at a node go with it, so that the others keep both their ends. -/
theorem Consistent.deleteNode (h : g.Consistent) (id : String) :
    (g.deleteNode id).2.Consistent := by
  unfold InstanceGraph.deleteNode
  split
  · have hsub : (g.nodes.filter (·.id ≠ id)).Sublist g.nodes := List.filter_sublist
    refine ⟨h.ids.sublist (hsub.map _), fun n hn ↦ h.typed n (hsub.subset hn),
      fun n hn ↦ h.entries n (hsub.subset hn), fun e he ↦ ?_⟩
    obtain ⟨he, hends⟩ := List.mem_filter.1 he
    simp only [ne_eq, Bool.and_eq_true, decide_eq_true_eq] at hends
    refine (h.edges e he).mono fun n hn hend ↦ List.mem_filter.2 ⟨hn, ?_⟩
    rcases hend with hend | hend <;> simp [hend, hends]
  · exact h

theorem Consistent.moveNode (h : g.Consistent) (id : String) (position : Position) :
    (g.modifyNode id fun n ↦ { n with position }).Consistent :=
  h.modifyNode (fun _ ↦ ⟨rfl, rfl, rfl, rfl⟩) fun n hn _ ↦ h.entries n hn

theorem consistent_reset (g : InstanceGraph) : g.reset.Consistent :=
  ⟨List.nodup_nil, by rintro _ ⟨⟩, by rintro _ ⟨⟩, by rintro _ ⟨⟩⟩

theorem Consistent.insertEntry {id : String} {n : Node} {cp : ClassProperty} (h : g.Consistent)
    (value : Option Value) (hn : g.node? id = some n) (hobject : cp.isObject = false)
    (hdeclares : n.declares cp = true) :
    (g.insertEntry id (g.newEntry cp value)).Consistent := by
  have hnode : (g.modifyNode id fun n ↦
      { n with entries := n.entries ++ [g.newEntry cp value] }).Consistent := by
    refine h.modifyNode (fun _ ↦ ⟨rfl, rfl, rfl, rfl⟩) fun m hm hid e he ↦ ?_
    rcases List.mem_append.1 he with he | he
    · exact h.entries m hm e he
    · cases List.mem_singleton.1 he
      have hfound := node?_of_mem h.ids hm
      rw [hid, hn] at hfound
      cases hfound
      exact ⟨hobject, declares_iff.1 hdeclares⟩
  exact ⟨hnode.ids, hnode.typed, hnode.entries, hnode.edges⟩

theorem Consistent.writeEntry (h : g.Consistent) (id entryId : String) (value : Option Value)
    (isValid : Bool) : (g.writeEntry id entryId value isValid).Consistent := by
  refine h.modifyNode (fun _ ↦ ⟨rfl, rfl, rfl, rfl⟩) fun n hn _ e he ↦ ?_
  obtain ⟨e', he', rfl⟩ := List.mem_map.1 he
  split <;> exact h.entries n hn e' he'

theorem Consistent.eraseEntry (h : g.Consistent) (id entryId : String) :
    (g.eraseEntry id entryId).Consistent :=
  h.modifyNode (fun _ ↦ ⟨rfl, rfl, rfl, rfl⟩)
    fun n hn _ e he ↦ h.entries n hn e (List.mem_filter.1 he).1

theorem Consistent.revalidate (h : g.Consistent) : g.revalidate.Consistent := by
  refine h.mapNodes (fun _ _ ↦ ⟨rfl, rfl, rfl, rfl⟩) fun n hn e he ↦ ?_
  obtain ⟨e', he', rfl⟩ := List.mem_map.1 he
  exact h.entries n hn e' he'

theorem Consistent.insertEdge {source target targetClass : String} {sourceNode targetNode : Node}
    {cp : ClassProperty} (h : g.Consistent) (hclass : cp.target? = some targetClass)
    (hsource : g.node? source = some sourceNode) (htarget : g.node? target = some targetNode)
    (hdeclares : sourceNode.declares cp = true) (hisA : targetNode.isA targetClass = true) :
    (g.insertEdge (g.newEdge source target cp)).Consistent := by
  refine ⟨h.ids, h.typed, h.entries, fun e he ↦ ?_⟩
  rcases List.mem_append.1 he with he | he
  · exact h.edges e he
  · cases List.mem_singleton.1 he
    obtain ⟨hsource, hsid⟩ := node?_eq_some hsource
    obtain ⟨htarget, htid⟩ := node?_eq_some htarget
    exact ⟨sourceNode, hsource, targetNode, htarget, targetClass, hsid, htid,
      declares_iff.1 hdeclares, hclass, hisA⟩

theorem Consistent.deleteEdge (h : g.Consistent) (id : String) :
    Consistent { g with edges := g.edges.filter (·.id ≠ id) } :=
  ⟨h.ids, h.typed, h.entries, fun e he ↦ h.edges e (List.mem_filter.1 he).1⟩

/-! ## Another model -/

theorem holdsValuesOf_of_reboundEntry {settings : GraphSettings} {chain : Chain} {e e' : Entry}
    (h : reboundEntry settings chain e = some e') : HoldsValuesOf chain e'.property := by
  revert h
  fun_cases reboundEntry settings chain e with
  | case1 => rintro ⟨⟩
  | case2 cp hcp hobject =>
    rintro ⟨⟩
    exact ⟨Bool.eq_false_iff.2 hobject, mem_declarations_of_nearest? hcp⟩
  | case3 => rintro ⟨⟩

theorem fitsInto_of_reboundEdge {nodes : List Node} {e e' : Edge}
    (h : reboundEdge nodes e = some e') : e'.FitsInto nodes := by
  unfold reboundEdge at h
  simp only [Option.bind_eq_bind, Option.bind_eq_some_iff] at h
  obtain ⟨source, hsource, target, htarget, cp, hcp, targetClass, hclass, hrest⟩ := h
  split_ifs at hrest with hisA
  cases hrest
  exact ⟨source, List.mem_of_find?_eq_some hsource, target, List.mem_of_find?_eq_some htarget,
    targetClass, by simpa using List.find?_some hsource, by simpa using List.find?_some htarget,
    mem_declarations_of_nearest? hcp, hclass, hisA⟩

/-- A retyped node keeps its name and is typed by the other model. -/
theorem typedBy_of_retypeNode {settings : GraphSettings} {model : Model} {n n' : Node}
    (h : retypeNode settings model n = .ok n') :
    n'.id = n.id ∧ n'.TypedBy model settings ∧
      ∀ e ∈ n'.entries, HoldsValuesOf n'.chain e.property := by
  obtain ⟨cls, chain, hresolve, rfl⟩ := retypeNode_eq_ok.1 h
  obtain ⟨hcls, hchain⟩ := resolveIn_eq_ok.1 hresolve
  refine ⟨rfl, ⟨?_, hchain, rfl⟩, fun e he ↦ ?_⟩
  · rw [Model.iri_of_class? hcls]
    exact hcls
  · obtain ⟨e', -, he'⟩ := List.mem_filterMap.1 he
    exact holdsValuesOf_of_reboundEntry he'

theorem Consistent.replaceModel {model : Model} (h : g.Consistent)
    (hg' : g.replaceModel model = .ok g') : g'.Consistent := by
  obtain ⟨nodes, hnodes, rfl⟩ := replaceModel_eq_ok.1 hg'
  have hretyped : ∀ n' ∈ nodes, n'.TypedBy model g.settings ∧
      ∀ e ∈ n'.entries, HoldsValuesOf n'.chain e.property := by
    intro n' hn'
    obtain ⟨n, -, hn⟩ := Fallible.exists_of_mem_mapM hnodes hn'
    exact (typedBy_of_retypeNode hn).2
  refine ⟨?_, fun n hn ↦ (hretyped n hn).1, fun n hn ↦ (hretyped n hn).2, fun e he ↦ ?_⟩
  · have : nodes.map (·.id) = g.nodes.map (·.id) :=
      Fallible.map_eq_of_mapM hnodes fun _ _ hn ↦ (typedBy_of_retypeNode hn).1
    rw [this]
    exact h.ids
  · obtain ⟨e', -, he'⟩ := List.mem_filterMap.1 he
    exact fitsInto_of_reboundEdge he'

/-! ## Runs -/

/-- Options have no part in the structure of a graph. -/
theorem Consistent.setCatalog (h : g.Consistent) (catalog : Catalog.OptionCatalog) :
    Consistent { g with settings.catalog := catalog } :=
  ⟨h.ids, fun n hn ↦ ⟨(h.typed n hn).cls, (h.typed n hn).chain, (h.typed n hn).isElement⟩,
    h.entries, h.edges⟩

/-- Every edit keeps a graph consistent. -/
theorem Consistent.edit (h : g.Consistent) (hedit : g.Edit g') : g'.Consistent := by
  cases hedit with
  | insertNode hnew hn => exact h.insertNode hnew hn
  | deleteNode id => exact h.deleteNode id
  | moveNode id position => exact h.moveNode id position
  | reset => exact consistent_reset g
  | insertEntry value hn hobject hdeclares _ => exact h.insertEntry value hn hobject hdeclares
  | writeEntry value _ => exact h.writeEntry _ _ value _
  | eraseEntry id entryId => exact h.eraseEntry id entryId
  | revalidate => exact h.revalidate
  | insertEdge hclass hsource htarget hdeclares hisA _ =>
    exact h.insertEdge hclass hsource htarget hdeclares hisA
  | deleteEdge id => exact h.deleteEdge id

/-- Every change keeps a graph consistent. -/
theorem Consistent.change (h : g.Consistent) (hchange : g.Change g') : g'.Consistent := by
  cases hchange with
  | edit hedit => exact h.edit hedit
  | replaceModel hg' => exact h.replaceModel hg'
  | setCatalog catalog => exact h.setCatalog catalog

/-- Every run keeps a graph consistent. -/
theorem Consistent.run {ops : List Operation} (h : g.Consistent) (hnew : g.AlwaysMintsNew ops) :
    (g.run ops).Consistent :=
  (changes_run hnew).keep h fun _ _ hg hchange ↦ hg.change hchange

theorem Reachable.consistent (h : g.Reachable) : g.Consistent := by
  obtain ⟨model, settings, ops, hnew, rfl⟩ := h
  exact (consistent_empty model settings).run hnew

/-- From the empty graph over any model and settings on, every run leaves a consistent graph. -/
theorem consistent_run_empty (model : Model) (settings : GraphSettings) (ops : List Operation)
    (hnew : AlwaysMintsNew { model, settings } ops) :
    (run { model, settings } ops).Consistent :=
  (consistent_empty model settings).run hnew

def knows : ClassProperty :=
  { parentClass := "https://example.org/Core/Person"
    path := "https://example.org/Core/knows"
    name := "knows"
    maxCount := some 2
    constraint := .object "https://example.org/Core/Person" }

def person : Ontology.Class :=
  { iri := "https://example.org/Core/Person"
    name := "Person"
    profileName := "Core"
    properties := .ofList [("knows", knows)] }

def people : Model :=
  .ofProfiles {} (.ofList [("Core", { classes := .ofList [("Person", person)] })])

/-- Two persons, one of whom knows the other until that one is deleted and the model read anew. -/
def acquaintance : List Operation :=
  [.addNode "urn:uuid:1" person.iri {}, .addNode "urn:uuid:2" person.iri {},
    .addEdge "urn:uuid:1" "urn:uuid:2" knows, .deleteNode "urn:uuid:2", .replaceModel people]

theorem consistent_run_acquaintance :
    AlwaysMintsNew { model := people } acquaintance ∧
      (run { model := people } (acquaintance.take 3)).edges.length = 1 ∧
      (run { model := people } acquaintance).Consistent := by
  have hnew : AlwaysMintsNew { model := people } acquaintance :=
    ⟨rfl, rfl, trivial, trivial, trivial, trivial⟩
  exact ⟨hnew, by decide, consistent_run_empty people {} acquaintance hnew⟩

end InstanceGraph

end OntoGraph.Graph
