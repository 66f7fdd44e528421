import Mathlib.Logic.Relation
import OntoGraph.Proofs.Document.Rebuild
import OntoGraph.Proofs.Graph.Edit
import OntoGraph.Proofs.Graph.Run

/-!
# The changes that a run is made of

Whatever an operation does to a graph, reading a document included, is a sequence of single
changes, each with the guards that it passed. A property of graphs that every change keeps is kept
by every run. All changes but those of the model and of the catalog are edits, which leave the
model and the settings as they are.
-/

namespace OntoGraph.Graph.InstanceGraph

open Ontology Document Relation

/-- One change to the nodes, the values or the edges of a graph. -/
inductive Edit (g : InstanceGraph) : InstanceGraph → Prop where
  | insertNode {id classIri : String} {position : Position} {n : Node} (hnew : g.node? id = none)
    (hn : g.newNode id classIri position = .ok n) : Edit g (g.insertNode n)
  | deleteNode (id : String) : Edit g (g.deleteNode id).2
  | moveNode (id : String) (position : Position) :
    Edit g (g.modifyNode id fun n ↦ { n with position })
  | reset : Edit g g.reset
  | insertEntry {id : String} {n : Node} {cp : ClassProperty} (value : Option Value)
    (hn : g.node? id = some n) (hobject : cp.isObject = false) (hdeclares : n.declares cp = true)
    (hroom : g.isFull id cp = false) : Edit g (g.insertEntry id (g.newEntry cp value))
  | writeEntry {id entryId : String} {e : Entry} (value : Option Value)
    (he : g.existingEntry id entryId = .ok e) :
    Edit g (g.writeEntry id entryId value (isValid g.settings.catalog e.property value))
  | eraseEntry (id entryId : String) : Edit g (g.eraseEntry id entryId)
  | revalidate : Edit g g.revalidate
  | insertEdge {source target targetClass : String} {sourceNode targetNode : Node}
    {cp : ClassProperty} (hclass : cp.target? = some targetClass)
    (hsource : g.node? source = some sourceNode) (htarget : g.node? target = some targetNode)
    (hdeclares : sourceNode.declares cp = true) (hisA : targetNode.isA targetClass = true)
    (hroom : g.isFull source cp = false) : Edit g (g.insertEdge (g.newEdge source target cp))
  | deleteEdge (id : String) : Edit g { g with edges := g.edges.filter (·.id ≠ id) }

/-- Any number of edits in a row. -/
abbrev Edits : InstanceGraph → InstanceGraph → Prop := ReflTransGen Edit

/-- One change to a graph that is made. -/
inductive Change (g : InstanceGraph) : InstanceGraph → Prop where
  | edit {g' : InstanceGraph} (hedit : g.Edit g') : Change g g'
  | replaceModel {model : Model} {g' : InstanceGraph} (hg' : g.replaceModel model = .ok g') :
    Change g g'
  | setCatalog (catalog : Catalog.OptionCatalog) : Change g { g with settings.catalog := catalog }

/-- Any number of changes in a row. -/
abbrev Changes : InstanceGraph → InstanceGraph → Prop := ReflTransGen Change

variable {g g' : InstanceGraph}

theorem Edits.changes (h : g.Edits g') : g.Changes g' := h.lift (fun g ↦ g) fun _ _ ↦ .edit

theorem Edit.model (h : g.Edit g') : g'.model = g.model := by
  cases h with
  | deleteNode id =>
    unfold InstanceGraph.deleteNode
    split <;> rfl
  | _ => rfl

theorem Edit.settings (h : g.Edit g') : g'.settings = g.settings := by
  cases h with
  | deleteNode id =>
    unfold InstanceGraph.deleteNode
    split <;> rfl
  | _ => rfl

/-! ## Edits -/

theorem edits_addNode {id classIri : String} {position : Position}
    (h : g.addNode id classIri position = .ok g') : g.Edits g' := by
  obtain ⟨hnew, n, hn, rfl⟩ := addNode_eq_ok.1 h
  exact .single (.insertNode hnew hn)

theorem edits_addEntry {id : String} {cp : ClassProperty} {value : Option Value}
    {outcome : Addition} (h : g.addEntry id cp value = .ok (outcome, g')) : g.Edits g' := by
  obtain ⟨hobject, n, hn, hdeclares, hcase⟩ := addEntry_eq_ok.1 h
  rcases hcase with ⟨-, -, rfl⟩ | ⟨hroom, -, rfl⟩
  · exact .refl
  · exact .single (.insertEntry value hn hobject hdeclares hroom)

theorem edits_setEntry {id entryId : String} {value : Option Value} {isValid : Bool}
    (h : g.setEntry id entryId value = .ok (isValid, g')) : g.Edits g' := by
  obtain ⟨e, he, rfl, rfl⟩ := setEntry_eq_ok.1 h
  exact .single (.writeEntry value he)

theorem edits_addEdge {source target : String} {cp : ClassProperty} {outcome : Addition}
    (h : g.addEdge source target cp = .ok (outcome, g')) : g.Edits g' := by
  obtain ⟨targetClass, sourceNode, targetNode, hclass, hsource, htarget, hdeclares, hisA, hcase⟩ :=
    addEdge_eq_ok.1 h
  rcases hcase with ⟨-, -, rfl⟩ | ⟨hroom, -, rfl⟩
  · exact .refl
  · exact .single (.insertEdge hclass hsource htarget hdeclares hisA hroom)

/-! ## Documents -/

variable {s : Statements} {r r' : Rebuilding} {t : Rdf.Term}

theorem edits_addSubject {grid : Float × Float} {reference : Position} {urns : Nat → String}
    (h : addSubject s grid reference urns r t = .ok r') : r.graph.Edits r'.graph := by
  obtain ⟨classIri, graph, -, hgraph, rfl⟩ := addSubject_eq_ok.1 h
  exact edits_addNode hgraph

theorem edits_addStatement {id : String} {t : Rdf.Triple}
    (h : addStatement s id r t = .ok r') : r.graph.Edits r'.graph := by
  by_cases ht : t.predicate = Rdf.rdfType
  · rw [addStatement_of_rdfType ht] at h
    cases h
    exact .refl
  obtain ⟨n, cp, -, -, hcase⟩ := (addStatement_eq_ok ht).1 h
  rcases hcase with ⟨-, target, -, hedge⟩ | ⟨-, ⟨e, ⟨isValid, graph⟩, -, hset, rfl⟩ | ⟨-, hentry⟩⟩
  · rcases record_eq_ok.1 hedge with ⟨edgeId, graph, hadd, rfl⟩ | ⟨graph, hadd, rfl⟩ <;>
      exact edits_addEdge hadd
  · exact edits_setEntry hset
  · rcases record_eq_ok.1 hentry with ⟨entryId, graph, hadd, rfl⟩ | ⟨graph, hadd, rfl⟩ <;>
      exact edits_addEntry hadd

theorem edits_addStatements (h : addStatements s r t = .ok r') : r.graph.Edits r'.graph := by
  unfold addStatements at h
  split at h
  · cases h
    exact .refl
  · exact Fallible.foldlM_induction (P := fun r' ↦ r.graph.Edits r'.graph) .refl h
      fun _ _ _ _ hr hstep ↦ hr.trans (edits_addStatement hstep)

theorem edits_importDocument {c : TermContext} {config : Settings.Configuration} {text : String}
    {reference : Position} {urns : Nat → String} {summary : ImportSummary}
    (h : importDocument g c config text reference urns = .ok (summary, g')) : g.Edits g' := by
  obtain ⟨s, -, hrebuild⟩ := importDocument_eq_ok.1 h
  obtain ⟨-, r, r', hsubjects, hstatements, hresult⟩ := rebuild_eq_ok.1 hrebuild
  cases hresult
  have hr : g.Edits r.graph :=
    Fallible.foldlM_induction (P := fun r ↦ g.Edits r.graph) .refl hsubjects
      fun _ _ _ _ hr hstep ↦ hr.trans (edits_addSubject hstep)
  exact Fallible.foldlM_induction (P := fun r ↦ g.Edits r.graph) hr hstatements
    fun _ _ _ _ hr hstep ↦ hr.trans (edits_addStatements hstep)

/-! ## Runs -/

/-- An operation that changes neither the model nor the catalog makes edits. -/
theorem edits_perform {op : Operation} (hnew : g.MintsNew op)
    (hmodel : ∀ model, op ≠ .replaceModel model) (hcatalog : ∀ catalog, op ≠ .setCatalog catalog) :
    g.Edits (g.perform op) := by
  cases op with
  | addNode urn classIri position =>
    refine orUnchanged_induction .refl fun g' hg' ↦ ?_
    obtain ⟨n, hn, rfl⟩ := addMintedNode_eq_ok.1 hg'
    exact .single (.insertNode hnew hn)
  | addNodeWithId id classIri position =>
    exact orUnchanged_induction .refl fun g' hg' ↦ edits_addNode hg'
  | deleteNode id => exact .single (.deleteNode id)
  | moveNode id position =>
    refine orUnchanged_induction .refl fun g' hg' ↦ ?_
    obtain ⟨-, rfl⟩ := moveNode_eq_ok.1 hg'
    exact .single (.moveNode id position)
  | reset => exact .single .reset
  | addEntry id cp value =>
    refine orUnchanged_induction .refl fun g' hg' ↦ ?_
    obtain ⟨⟨outcome, _⟩, hadd, rfl⟩ := Fallible.map_eq_ok.1 hg'
    exact edits_addEntry hadd
  | setEntry id entryId value =>
    refine orUnchanged_induction .refl fun g' hg' ↦ ?_
    obtain ⟨⟨isValid, _⟩, hset, rfl⟩ := Fallible.map_eq_ok.1 hg'
    exact edits_setEntry hset
  | deleteEntry id entryId =>
    refine orUnchanged_induction .refl fun g' hg' ↦ ?_
    obtain ⟨⟨e, _⟩, hdelete, rfl⟩ := Fallible.map_eq_ok.1 hg'
    obtain ⟨-, rfl⟩ := deleteEntry_eq_ok.1 hdelete
    exact .single (.eraseEntry id entryId)
  | revalidate => exact .single .revalidate
  | addEdge source target cp =>
    refine orUnchanged_induction .refl fun g' hg' ↦ ?_
    obtain ⟨⟨outcome, _⟩, hadd, rfl⟩ := Fallible.map_eq_ok.1 hg'
    exact edits_addEdge hadd
  | deleteEdge id =>
    refine orUnchanged_induction .refl fun g' hg' ↦ ?_
    obtain ⟨⟨e, _⟩, hdelete, rfl⟩ := Fallible.map_eq_ok.1 hg'
    obtain ⟨-, rfl⟩ := deleteEdge_eq_ok.1 hdelete
    exact .single (.deleteEdge id)
  | replaceModel model => exact absurd rfl (hmodel model)
  | importDocument context config text reference urns =>
    refine orUnchanged_induction .refl fun g' hg' ↦ ?_
    obtain ⟨⟨summary, _⟩, himport, rfl⟩ := Fallible.map_eq_ok.1 hg'
    exact edits_importDocument himport
  | setCatalog catalog => exact absurd rfl (hcatalog catalog)

theorem changes_perform {op : Operation} (hnew : g.MintsNew op) : g.Changes (g.perform op) := by
  cases op with
  | replaceModel model => exact orUnchanged_induction .refl fun g' hg' ↦ .single (.replaceModel hg')
  | setCatalog catalog => exact .single (.setCatalog catalog)
  | _ => exact (edits_perform hnew nofun nofun).changes

theorem changes_run {ops : List Operation} (hnew : g.AlwaysMintsNew ops) :
    g.Changes (g.run ops) :=
  run_induction .refl hnew fun _ _ hg hop ↦ hg.trans (changes_perform hop)

/-- What every step keeps is kept by any number of them. -/
theorem keep_of_steps {step : InstanceGraph → InstanceGraph → Prop} {P : InstanceGraph → Prop}
    (h : ReflTransGen step g g') (hg : P g) (hstep : ∀ g g', P g → step g g' → P g') : P g' := by
  induction h with
  | refl => exact hg
  | tail _ hlast ih => exact hstep _ _ ih hlast

theorem Changes.keep {P : InstanceGraph → Prop} (h : g.Changes g') (hg : P g)
    (hstep : ∀ g g', P g → g.Change g' → P g') : P g' := keep_of_steps h hg hstep

theorem Edits.keep {P : InstanceGraph → Prop} (h : g.Edits g') (hg : P g)
    (hstep : ∀ g g', P g → g.Edit g' → P g') : P g' := keep_of_steps h hg hstep

end OntoGraph.Graph.InstanceGraph
