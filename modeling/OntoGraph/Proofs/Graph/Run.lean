import OntoGraph.Document.Import
import OntoGraph.Graph.Retype

/-!
# Runs of operations

Everything that changes a graph is one operation, and a run performs a list of them one after the
other. An operation that fails or is refused leaves the graph as it is. What every operation keeps
is kept by every run; this induction is done once, in `run_induction`.
-/

namespace OntoGraph.Graph

open Ontology Catalog Document

/-- A change to a graph, with all that it is given from outside. -/
inductive Operation where
  /-- A new instance of a class, under a name that was just minted. -/
  | addNode (urn classIri : String) (position : Position)
  /-- A new instance of a class, under a chosen name. -/
  | addNodeWithId (id classIri : String) (position : Position)
  | deleteNode (id : String)
  | moveNode (id : String) (position : Position)
  | reset
  | addEntry (id : String) (cp : ClassProperty) (value : Option Value)
  | setEntry (id entryId : String) (value : Option Value)
  | deleteEntry (id entryId : String)
  | revalidate
  | addEdge (source target : String) (cp : ClassProperty)
  | deleteEdge (id : String)
  | replaceModel (model : Model)
  | importDocument (context : TermContext) (config : Settings.Configuration) (text : String)
      (reference : Position) (urns : Nat → String)
  /-- Another catalog of options. The validity of values is not computed again. -/
  | setCatalog (catalog : OptionCatalog)

namespace InstanceGraph

/-- The graph that a change leaves: the result, or the graph itself if the change failed. -/
def orUnchanged {ε : Type} (g : InstanceGraph) : Except ε InstanceGraph → InstanceGraph
  | .ok g' => g'
  | .error _ => g

/-- The graph after an operation, whether it succeeds, is refused or fails. -/
def perform (g : InstanceGraph) : Operation → InstanceGraph
  | .addNode urn classIri position => g.orUnchanged (g.addMintedNode urn classIri position)
  | .addNodeWithId id classIri position => g.orUnchanged (g.addNode id classIri position)
  | .deleteNode id => (g.deleteNode id).2
  | .moveNode id position => g.orUnchanged (g.moveNode id position)
  | .reset => g.reset
  | .addEntry id cp value => g.orUnchanged ((g.addEntry id cp value).map (·.2))
  | .setEntry id entryId value => g.orUnchanged ((g.setEntry id entryId value).map (·.2))
  | .deleteEntry id entryId => g.orUnchanged ((g.deleteEntry id entryId).map (·.2))
  | .revalidate => g.revalidate
  | .addEdge source target cp => g.orUnchanged ((g.addEdge source target cp).map (·.2))
  | .deleteEdge id => g.orUnchanged ((g.deleteEdge id).map (·.2))
  | .replaceModel model => g.orUnchanged (g.replaceModel model)
  | .importDocument context config text reference urns =>
    g.orUnchanged ((importDocument g context config text reference urns).map (·.2))
  | .setCatalog catalog => { g with settings.catalog := catalog }

def run (g : InstanceGraph) (ops : List Operation) : InstanceGraph := ops.foldl perform g

/-- Is the name that an operation mints, if it mints one that nothing looks up, new to the
graph? -/
def MintsNew (g : InstanceGraph) : Operation → Prop
  | .addNode urn _ _ => g.node? urn = none
  | _ => True

/-- Is every name new to the graph in which it is minted, all along a run? -/
def AlwaysMintsNew (g : InstanceGraph) : List Operation → Prop
  | [] => True
  | op :: ops => g.MintsNew op ∧ AlwaysMintsNew (g.perform op) ops

/-- Is the graph left by a run that starts with an empty graph? -/
def Reachable (g : InstanceGraph) : Prop :=
  ∃ model settings ops, AlwaysMintsNew { model, settings } ops ∧ run { model, settings } ops = g

/-- What holds at first and is kept by each operation holds after every run. -/
theorem run_induction {P : InstanceGraph → Prop} {g : InstanceGraph} {ops : List Operation}
    (hstart : P g) (hfresh : g.AlwaysMintsNew ops)
    (hstep : ∀ g op, P g → g.MintsNew op → P (g.perform op)) : P (g.run ops) := by
  induction ops generalizing g with
  | nil => exact hstart
  | cons op ops ih => exact ih (hstep g op hstart hfresh.1) hfresh.2

theorem alwaysMintsNew_append {g : InstanceGraph} {first second : List Operation} :
    g.AlwaysMintsNew (first ++ second) ↔
      g.AlwaysMintsNew first ∧ (g.run first).AlwaysMintsNew second := by
  induction first generalizing g with
  | nil => exact (and_iff_right trivial).symm
  | cons op first ih => exact (and_congr_right fun _ ↦ ih).trans and_assoc.symm

/-- An operation takes one reachable graph to another. -/
theorem Reachable.perform {g : InstanceGraph} {op : Operation} (h : g.Reachable)
    (hnew : g.MintsNew op) : (g.perform op).Reachable := by
  obtain ⟨model, settings, ops, hops, rfl⟩ := h
  exact ⟨model, settings, ops ++ [op], alwaysMintsNew_append.2 ⟨hops, hnew, trivial⟩,
    List.foldl_append⟩

/-- To show that a result is kept, failing changes can be left aside. -/
theorem orUnchanged_induction {ε : Type} {P : InstanceGraph → Prop} {g : InstanceGraph}
    {result : Except ε InstanceGraph} (hg : P g) (hok : ∀ g', result = .ok g' → P g') :
    P (g.orUnchanged result) := by
  cases result with
  | ok g' => exact hok g' rfl
  | error error => exact hg

end InstanceGraph

end OntoGraph.Graph
