import Mathlib.Data.List.Induction
import OntoGraph.Proofs.Graph.Consistency

/-!
# Instances of abstract classes

A new node is never an instance of an abstract class, whether it is added by hand or read from a
document, and no edit makes it one later. Another model does: it may mark classes abstract that
have instances, and these stay. Where a class of a node is abstract in the present model, the node
was carried over from the model before.
-/

namespace OntoGraph.Graph

open Ontology

def isAbstractIn (model : Model) (classIri : String) : Bool :=
  (model.class? classIri).any (·.isAbstract)

namespace InstanceGraph

/-- Has no node a class that is abstract in the present model? -/
def AllConcrete (g : InstanceGraph) : Prop := ∀ n ∈ g.nodes, isAbstractIn g.model n.cls.iri = false

variable {g g' : InstanceGraph} {ops : List Operation}

/-! ## Edits -/

/-- A new node is an instance of a concrete class. -/
theorem concrete_of_newNode {id classIri : String} {position : Position} {n : Node}
    (h : g.newNode id classIri position = .ok n) : isAbstractIn g.model n.cls.iri = false := by
  obtain ⟨cls, chain, hcls, hconcrete, -, rfl⟩ := newNode_eq_ok.1 h
  rw [isAbstractIn, Model.iri_of_class? hcls, hcls]
  exact hconcrete

/-- Are all nodes of the second graph nodes of the first one, with other values or positions, or
instances of concrete classes of the same model? -/
structure OnlyAddsConcrete (g g' : InstanceGraph) : Prop where
  model : g'.model = g.model
  nodes : ∀ n ∈ g'.nodes, (∃ m ∈ g.nodes, m.id = n.id ∧ m.cls = n.cls) ∨
    isAbstractIn g.model n.cls.iri = false

theorem onlyAddsConcrete_of_subset (hmodel : g'.model = g.model)
    (h : ∀ n ∈ g'.nodes, ∃ m ∈ g.nodes, m.id = n.id ∧ m.cls = n.cls) : g.OnlyAddsConcrete g' :=
  ⟨hmodel, fun n hn ↦ .inl (h n hn)⟩

theorem onlyAddsConcrete_refl (g : InstanceGraph) : g.OnlyAddsConcrete g :=
  onlyAddsConcrete_of_subset rfl fun n hn ↦ ⟨n, hn, rfl, rfl⟩

theorem OnlyAddsConcrete.trans {g'' : InstanceGraph} (h : g.OnlyAddsConcrete g')
    (h' : g'.OnlyAddsConcrete g'') : g.OnlyAddsConcrete g'' where
  model := h'.model.trans h.model
  nodes := by
    intro n hn
    rcases h'.nodes n hn with ⟨m, hm, hid, hcls⟩ | hconcrete
    · rw [← hid, ← hcls]
      exact h.nodes m hm
    · rw [h.model] at hconcrete
      exact .inr hconcrete

theorem onlyAddsConcrete_mapNodes {f : Node → Node} (hmodel : g'.model = g.model)
    (hnodes : g'.nodes = g.nodes.map f) (hf : ∀ n, (f n).id = n.id ∧ (f n).cls = n.cls) :
    g.OnlyAddsConcrete g' := by
  refine onlyAddsConcrete_of_subset hmodel fun n hn ↦ ?_
  rw [hnodes] at hn
  obtain ⟨m, hm, rfl⟩ := List.mem_map.1 hn
  exact ⟨m, hm, (hf m).1.symm, (hf m).2.symm⟩

theorem onlyAddsConcrete_modifyNode {id : String} {f : Node → Node}
    (hf : ∀ n, (f n).id = n.id ∧ (f n).cls = n.cls) : g.OnlyAddsConcrete (g.modifyNode id f) := by
  refine onlyAddsConcrete_mapNodes rfl rfl fun n ↦ ?_
  split
  · exact hf n
  · exact ⟨rfl, rfl⟩

theorem onlyAddsConcrete_insertNode {id classIri : String} {position : Position} {n : Node}
    (hn : g.newNode id classIri position = .ok n) : g.OnlyAddsConcrete (g.insertNode n) where
  model := rfl
  nodes := by
    intro m hm
    rcases List.mem_append.1 hm with hm | hm
    · exact .inl ⟨m, hm, rfl, rfl⟩
    · obtain rfl := List.mem_singleton.1 hm
      exact .inr (concrete_of_newNode hn)

theorem Edit.onlyAddsConcrete (h : g.Edit g') : g.OnlyAddsConcrete g' := by
  cases h with
  | insertNode _ hn => exact onlyAddsConcrete_insertNode hn
  | deleteNode id =>
    unfold InstanceGraph.deleteNode
    split
    · exact onlyAddsConcrete_of_subset rfl fun n hn ↦ ⟨n, (List.mem_filter.1 hn).1, rfl, rfl⟩
    · exact onlyAddsConcrete_refl g
  | moveNode id position => exact onlyAddsConcrete_modifyNode fun _ ↦ ⟨rfl, rfl⟩
  | reset => exact onlyAddsConcrete_of_subset rfl (by rintro _ ⟨⟩)
  | @insertEntry id n cp value =>
    have hnodes : g.OnlyAddsConcrete (g.modifyNode id fun n ↦
        { n with entries := n.entries ++ [g.newEntry cp value] }) :=
      onlyAddsConcrete_modifyNode fun _ ↦ ⟨rfl, rfl⟩
    exact ⟨hnodes.model, hnodes.nodes⟩
  | writeEntry value => exact onlyAddsConcrete_modifyNode fun _ ↦ ⟨rfl, rfl⟩
  | eraseEntry id entryId => exact onlyAddsConcrete_modifyNode fun _ ↦ ⟨rfl, rfl⟩
  | revalidate => exact onlyAddsConcrete_mapNodes rfl rfl fun _ ↦ ⟨rfl, rfl⟩
  | insertEdge => exact onlyAddsConcrete_of_subset rfl fun n hn ↦ ⟨n, hn, rfl, rfl⟩
  | deleteEdge id => exact onlyAddsConcrete_of_subset rfl fun n hn ↦ ⟨n, hn, rfl, rfl⟩

/-- Whatever does not replace the model adds instances of concrete classes only. A name that is
minted need not be new for this. -/
theorem onlyAddsConcrete_perform {op : Operation} (hkeep : ∀ model, op ≠ .replaceModel model) :
    g.OnlyAddsConcrete (g.perform op) := by
  have hedits {op : Operation} (hnew : g.MintsNew op) (hmodel : ∀ model, op ≠ .replaceModel model)
      (hcatalog : ∀ catalog, op ≠ .setCatalog catalog) : g.OnlyAddsConcrete (g.perform op) :=
    (edits_perform hnew hmodel hcatalog).keep (onlyAddsConcrete_refl g)
      fun _ _ hg hedit ↦ hg.trans hedit.onlyAddsConcrete
  cases op with
  | addNode urn classIri position =>
    refine orUnchanged_induction (onlyAddsConcrete_refl g) fun g' hg' ↦ ?_
    obtain ⟨n, hn, rfl⟩ := addMintedNode_eq_ok.1 hg'
    exact onlyAddsConcrete_insertNode hn
  | replaceModel model => exact absurd rfl (hkeep model)
  | setCatalog catalog => exact onlyAddsConcrete_of_subset rfl fun n hn ↦ ⟨n, hn, rfl, rfl⟩
  | _ => exact hedits trivial nofun nofun

/-! ## Another model -/

/-- Another model leaves the nodes their names and classes. -/
theorem nodes_of_replaceModel {model : Model} (h : g.replaceModel model = .ok g') :
    g'.model = model ∧
      g'.nodes.map (fun n ↦ (n.id, n.cls.iri)) = g.nodes.map fun n ↦ (n.id, n.cls.iri) := by
  obtain ⟨nodes, hnodes, rfl⟩ := replaceModel_eq_ok.1 h
  refine ⟨rfl, Fallible.map_eq_of_mapM hnodes fun n n' hn ↦ ?_⟩
  obtain ⟨cls, chain, hresolve, rfl⟩ := retypeNode_eq_ok.1 hn
  rw [Model.iri_of_class? (resolveIn_eq_ok.1 hresolve).1]

/-- After a change of the model, exactly the nodes whose classes it marks abstract are instances
of abstract classes. -/
theorem allConcrete_of_replaceModel_iff {model : Model} (h : g.replaceModel model = .ok g') :
    g'.AllConcrete ↔ ∀ n ∈ g.nodes, isAbstractIn model n.cls.iri = false := by
  obtain ⟨hmodel, hnodes⟩ := nodes_of_replaceModel h
  have hclasses := congrArg (List.map Prod.snd) hnodes
  rw [List.map_map, List.map_map] at hclasses
  calc g'.AllConcrete
      ↔ ∀ iri ∈ g'.nodes.map (·.cls.iri), isAbstractIn model iri = false := by
        rw [AllConcrete, hmodel, List.forall_mem_map]
    _ ↔ ∀ iri ∈ g.nodes.map (·.cls.iri), isAbstractIn model iri = false := by
        rw [show g'.nodes.map (·.cls.iri) = g.nodes.map (·.cls.iri) from hclasses]
    _ ↔ _ := List.forall_mem_map

/-! ## Runs -/

theorem run_concat (g : InstanceGraph) (ops : List Operation) (op : Operation) :
    g.run (ops ++ [op]) = (g.run ops).perform op := List.foldl_append

theorem perform_replaceModel {model : Model} (h : g.replaceModel model = .ok g') :
    g.perform (.replaceModel model) = g' := by
  rw [perform, h, orUnchanged]

/-- Was the node there when, along a run, the present model took the place of another one, and does
the present model mark its class abstract? -/
def CarriedOver (g : InstanceGraph) (ops : List Operation) (n : Node) : Prop :=
  ∃ before model after replaced, ops = before ++ .replaceModel model :: after ∧
    (g.run before).replaceModel model = .ok replaced ∧ (g.run ops).model = model ∧
    ∃ m ∈ (g.run before).nodes, m.id = n.id ∧ m.cls.iri = n.cls.iri ∧
      isAbstractIn model m.cls.iri = true

/-- A node whose class is abstract in the present model was carried over from the model before, or
was there from the start. -/
theorem carriedOver_of_isAbstract {n : Node} (hstart : g.AllConcrete) (hn : n ∈ (g.run ops).nodes)
    (habstract : isAbstractIn (g.run ops).model n.cls.iri = true) : g.CarriedOver ops n := by
  induction ops using List.reverseRecOn generalizing n with
  | nil => cases (hstart n hn).symm.trans habstract
  | append_singleton ops op ih =>
    rw [run_concat] at hn habstract
    -- A node that was there before the last operation, in the same model, is traced further back.
    have hearlier (m : Node) (hm : m ∈ (g.run ops).nodes) (hid : m.id = n.id)
        (hiri : m.cls.iri = n.cls.iri)
        (hmodel : ((g.run ops).perform op).model = (g.run ops).model) :
        g.CarriedOver (ops ++ [op]) n := by
      rw [hmodel, ← hiri] at habstract
      obtain ⟨before, model, after, replaced, rfl, hreplaced, hlast, m', hm', hid', hiri', habs⟩ :=
        ih hm habstract
      exact ⟨before, model, after ++ [op], replaced, by simp, hreplaced,
        by rw [run_concat, hmodel, hlast], m', hm', hid'.trans hid, hiri'.trans hiri, habs⟩
    by_cases hkeep : ∀ model, op ≠ .replaceModel model
    · obtain ⟨hmodel, hnodes⟩ := onlyAddsConcrete_perform (g := g.run ops) hkeep
      rcases hnodes n hn with ⟨m, hm, hid, hcls⟩ | hconcrete
      · exact hearlier m hm hid (by rw [hcls]) hmodel
      · rw [hmodel, hconcrete] at habstract
        cases habstract
    · obtain ⟨model, rfl⟩ := not_forall_not.1 hkeep
      cases hreplaced : (g.run ops).replaceModel model with
      | error error =>
        have hsame : (g.run ops).perform (.replaceModel model) = g.run ops := by
          rw [perform, hreplaced, orUnchanged]
        rw [hsame] at hn
        exact hearlier n hn rfl rfl (congrArg InstanceGraph.model hsame)
      | ok replaced =>
        have hsame := perform_replaceModel hreplaced
        obtain ⟨hmodel, hnodes⟩ := nodes_of_replaceModel hreplaced
        rw [hsame] at hn habstract
        have hpair := List.mem_map_of_mem (f := fun n : Node ↦ (n.id, n.cls.iri)) hn
        rw [hnodes] at hpair
        obtain ⟨m, hm, heq⟩ := List.mem_map.1 hpair
        obtain ⟨hid, hiri⟩ := Prod.mk.inj heq
        refine ⟨ops, model, [], replaced, rfl, hreplaced, by rw [run_concat, hsame, hmodel], m, hm,
          hid, hiri, ?_⟩
        rw [hiri, ← hmodel]
        exact habstract

/-- From the empty graph on, no node is an instance of an abstract class at any time of a run
exactly if no model that replaces another one marks the class of a present node abstract. And in
whatever graph a run leaves, a node whose class is abstract in the present model was carried over
by a change of the model. -/
theorem allConcrete_throughout_iff (model : Model) (settings : GraphSettings)
    (ops : List Operation) :
    ((∀ before, before <+: ops → (run { model, settings } before).AllConcrete) ↔
      ∀ before newModel after replaced, ops = before ++ .replaceModel newModel :: after →
        (run { model, settings } before).replaceModel newModel = .ok replaced →
        ∀ n ∈ (run { model, settings } before).nodes, isAbstractIn newModel n.cls.iri = false) ∧
    ∀ n ∈ (run { model, settings } ops).nodes,
      isAbstractIn (run { model, settings } ops).model n.cls.iri = true →
        CarriedOver { model, settings } ops n := by
  have hstart : AllConcrete { model, settings } := by rintro _ ⟨⟩
  refine ⟨⟨?_, ?_⟩, fun n hn ↦ carriedOver_of_isAbstract hstart hn⟩
  · rintro h before newModel after replaced rfl hreplaced
    refine (allConcrete_of_replaceModel_iff hreplaced).1 ?_
    have hafter := h (before ++ [.replaceModel newModel]) ⟨after, by simp⟩
    rwa [run_concat, perform_replaceModel hreplaced] at hafter
  · rintro h before ⟨rest, rfl⟩ n hn
    by_contra habstract
    obtain ⟨earlier, newModel, after, replaced, rfl, hreplaced, -, m, hm, -, -, habs⟩ :=
      carriedOver_of_isAbstract hstart hn (Bool.not_eq_false _ ▸ habstract)
    rw [h earlier newModel (after ++ rest) replaced (by simp) hreplaced m hm] at habs
    cases habs

/-- The same persons in a model that asks for more special classes. -/
def abstractPeople : Model :=
  .ofProfiles {}
    (.ofList [("Core", { classes := .ofList [("Person", { person with isAbstract := true })] })])

/-- A person whose class becomes abstract stays. -/
theorem not_allConcrete_abstractPeople :
    ¬ (run { model := people }
      [.addNodeWithId "urn:person" person.iri {}, .replaceModel abstractPeople]).AllConcrete := by
  unfold AllConcrete
  decide +kernel

end InstanceGraph

end OntoGraph.Graph
