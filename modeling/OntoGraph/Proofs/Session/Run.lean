import OntoGraph.Proofs.Graph.Reload
import OntoGraph.Proofs.Graph.Reports
import OntoGraph.Session

/-!
# Runs of sessions

A session changes its graph by single operations, by another model, by options from a table of
media types, and by documents. Every step of a session is a list of operations on its graph, so
that what holds of every run of operations holds of the graph of every session. In particular the
report on a session's graph never differs from one made from scratch.
-/

namespace OntoGraph.Session

open Ontology OntoGraph.Graph Document Settings Catalog InstanceGraph

/-- What changes a session, with all that it is given from outside. -/
inductive Step where
  /-- An operation on the graph of the session. -/
  | edit (op : Operation)
  | replaceModel (model : Model)
  | reload (surroundings : Surroundings) (ontology : Source) (metadata : Option String)
  | loadMediaTypes (table : List UInt8)
  | importText (text : String) (reference : Position) (urns : Nat → String)
  | importFile (surroundings : Surroundings) (path : String) (reference : Position)
      (urns : Nat → String)

/-- The session that a step leaves: the result, or the session itself if the step failed. -/
def orUnchanged {ε : Type} (s : Session) : Except ε Session → Session
  | .ok s' => s'
  | .error _ => s

/-- The session after a step, whether it succeeds or fails. -/
def perform (s : Session) : Step → Session
  | .edit op => { s with graph := s.graph.perform op }
  | .replaceModel model => s.orUnchanged (s.replaceModel model)
  | .reload surroundings ontology metadata =>
    s.orUnchanged (s.reload surroundings ontology metadata)
  | .loadMediaTypes table => s.orUnchanged ((s.loadMediaTypes table).map (·.2))
  | .importText text reference urns => s.orUnchanged ((s.importText text reference urns).map (·.2))
  | .importFile surroundings path reference urns =>
    s.orUnchanged ((s.importFile surroundings path reference urns).map (·.2))

def run (s : Session) (steps : List Step) : Session := steps.foldl perform s

/-- Is the name that a step mints, if it mints one that nothing looks up, new to the graph? -/
def MintsNew (s : Session) : Step → Prop
  | .edit op => s.graph.MintsNew op
  | _ => True

/-- Is every name new to the graph in which it is minted, all along a run? -/
def AlwaysMintsNew (s : Session) : List Step → Prop
  | [] => True
  | step :: steps => s.MintsNew step ∧ (s.perform step).AlwaysMintsNew steps

/-- Is every change of the catalog, other than by a table of media types, followed by a check of
all values? -/
def ChecksCatalogs : List Step → Prop
  | [] => True
  | step :: steps =>
    (∀ catalog, step = .edit (.setCatalog catalog) → .edit .revalidate ∈ steps) ∧
      ChecksCatalogs steps

/-! ## Steps as operations -/

def catalogWith (s : Session) (options : List ValueOption) : OptionCatalog :=
  (mediaTypePaths s.graph.model).foldl (fun catalog path ↦ catalog.extend path options)
    s.graph.settings.catalog

/-- What a step does to the graph of a session, as operations on that graph. -/
def operations (s : Session) : Step → List Operation
  | .edit op => [op]
  | .replaceModel model => [.replaceModel model]
  | .reload surroundings ontology metadata =>
    match loadModel surroundings ontology metadata with
    | .ok model => [.replaceModel model]
    | .error _ => []
  | .loadMediaTypes table =>
    match readMediaTypes table with
    | .ok options => [.setCatalog (s.catalogWith options), .revalidate]
    | .error _ => []
  | .importText text reference urns => [.importDocument s.context s.config text reference urns]
  | .importFile surroundings path reference urns =>
    match surroundings.file? path with
    | some text => [.importDocument s.context s.config text reference urns]
    | none => []

def operationsAlong (s : Session) : List Step → List Operation
  | [] => []
  | step :: steps => s.operations step ++ (s.perform step).operationsAlong steps

variable {s : Session} {step : Step} {steps : List Step}

theorem graph_replaceModel (s : Session) (model : Model) :
    (s.orUnchanged (s.replaceModel model)).graph = s.graph.run [.replaceModel model] := by
  change _ = s.graph.orUnchanged (s.graph.replaceModel model)
  unfold replaceModel
  cases s.graph.replaceModel model <;> rfl

theorem graph_importText (s : Session) (text : String) (reference : Position)
    (urns : Nat → String) :
    (s.orUnchanged ((s.importText text reference urns).map (·.2))).graph =
      s.graph.run [.importDocument s.context s.config text reference urns] := by
  change _ = s.graph.orUnchanged
    ((importDocument s.graph s.context s.config text reference urns).map (·.2))
  unfold importText
  cases importDocument s.graph s.context s.config text reference urns <;> rfl

/-- A step changes the graph of a session as its operations do. -/
theorem graph_perform (s : Session) (step : Step) :
    (s.perform step).graph = s.graph.run (s.operations step) := by
  cases step with
  | edit op => rfl
  | replaceModel model => exact graph_replaceModel s model
  | reload surroundings ontology metadata =>
    dsimp only [perform, reload, operations]
    cases loadModel surroundings ontology metadata with
    | error error => rfl
    | ok model => exact graph_replaceModel s model
  | loadMediaTypes table =>
    dsimp only [perform, loadMediaTypes, operations]
    cases readMediaTypes table <;> rfl
  | importText text reference urns => exact graph_importText s text reference urns
  | importFile surroundings path reference urns =>
    dsimp only [perform, importFile, operations]
    cases surroundings.file? path with
    | none => rfl
    | some text => exact graph_importText s text reference urns

/-- A run changes the graph of a session as its operations do. -/
theorem graph_run (s : Session) (steps : List Step) :
    (s.run steps).graph = s.graph.run (s.operationsAlong steps) := by
  induction steps generalizing s with
  | nil => rfl
  | cons step steps ih =>
    calc ((s.perform step).run steps).graph
        = (s.perform step).graph.run ((s.perform step).operationsAlong steps) := ih _
      _ = (s.graph.run (s.operations step)).run ((s.perform step).operationsAlong steps) := by
        rw [graph_perform]
      _ = s.graph.run (s.operationsAlong (step :: steps)) := List.foldl_append.symm

theorem alwaysMintsNew_operations (h : s.MintsNew step) :
    s.graph.AlwaysMintsNew (s.operations step) := by
  cases step with
  | edit op => exact ⟨h, trivial⟩
  | replaceModel model => exact ⟨trivial, trivial⟩
  | reload surroundings ontology metadata =>
    dsimp only [operations]
    split
    · exact ⟨trivial, trivial⟩
    · trivial
  | loadMediaTypes table =>
    dsimp only [operations]
    split
    · exact ⟨trivial, trivial, trivial⟩
    · trivial
  | importText text reference urns => exact ⟨trivial, trivial⟩
  | importFile surroundings path reference urns =>
    dsimp only [operations]
    split
    · exact ⟨trivial, trivial⟩
    · trivial

theorem alwaysMintsNew_operationsAlong (h : s.AlwaysMintsNew steps) :
    s.graph.AlwaysMintsNew (s.operationsAlong steps) := by
  induction steps generalizing s with
  | nil => trivial
  | cons step steps ih =>
    refine alwaysMintsNew_append.2 ⟨alwaysMintsNew_operations h.1, ?_⟩
    rw [← graph_perform]
    exact ih h.2

theorem mem_operationsAlong {op : Operation} (h : .edit op ∈ steps) :
    op ∈ s.operationsAlong steps := by
  induction steps generalizing s with
  | nil => cases h
  | cons step steps ih =>
    rcases List.mem_cons.1 h with rfl | h
    · exact List.mem_append_left _ (List.mem_singleton_self op)
    · exact List.mem_append_right _ (ih h)

/-- A table of media types is followed by a check of all values, and other steps do not change the
catalog at all. -/
theorem checksCatalogs_operations {ops : List Operation} (hops : InstanceGraph.ChecksCatalogs ops)
    (hstep : ∀ catalog, step = .edit (.setCatalog catalog) → .revalidate ∈ ops) :
    InstanceGraph.ChecksCatalogs (s.operations step ++ ops) := by
  cases step with
  | edit op =>
    refine checksCatalogs_cons.2 ⟨?_, hops⟩
    rintro catalog rfl
    exact hstep catalog rfl
  | replaceModel model => exact checksCatalogs_cons.2 ⟨by rintro _ ⟨⟩, hops⟩
  | reload surroundings ontology metadata =>
    dsimp only [operations]
    split
    · exact checksCatalogs_cons.2 ⟨by rintro _ ⟨⟩, hops⟩
    · exact hops
  | loadMediaTypes table =>
    dsimp only [operations]
    split
    · refine checksCatalogs_cons.2 ⟨fun _ _ ↦ List.mem_cons_self, ?_⟩
      exact checksCatalogs_cons.2 ⟨by rintro _ ⟨⟩, hops⟩
    · exact hops
  | importText text reference urns => exact checksCatalogs_cons.2 ⟨by rintro _ ⟨⟩, hops⟩
  | importFile surroundings path reference urns =>
    dsimp only [operations]
    split
    · exact checksCatalogs_cons.2 ⟨by rintro _ ⟨⟩, hops⟩
    · exact hops

theorem checksCatalogs_operationsAlong (h : ChecksCatalogs steps) :
    InstanceGraph.ChecksCatalogs (s.operationsAlong steps) := by
  induction steps generalizing s with
  | nil => exact checksCatalogs_nil
  | cons step steps ih =>
    refine checksCatalogs_operations (ih h.2) ?_
    rintro catalog hstep
    exact mem_operationsAlong (h.1 catalog hstep)

/-! ## Reports -/

variable {config : Configuration} {context : TermContext} {model : Model} {settings : GraphSettings}

/-- What a session does to its graph is a run that starts with an empty graph. -/
theorem reachable_run
    (hnew : AlwaysMintsNew { config, context, graph := { model, settings } } steps) :
    (run { config, context, graph := { model, settings } } steps).graph.Reachable := by
  rw [graph_run]
  exact ⟨model, settings, _, alwaysMintsNew_operationsAlong hnew, rfl⟩

/-- If all values are checked again after changes of the catalog, the marks in the graph of a
session are up to date. -/
theorem upToDate_graph_run
    (hnew : AlwaysMintsNew { config, context, graph := { model, settings } } steps)
    (hchecks : ChecksCatalogs steps) :
    (run { config, context, graph := { model, settings } } steps).graph.UpToDate := by
  rw [graph_run]
  exact InstanceGraph.upToDate_run (alwaysMintsNew_operationsAlong hnew)
    (checksCatalogs_operationsAlong hchecks)

/-- Whatever a session did, the marks in its graph are those that the present catalog gives, and
the report is the one that is made when everything is computed again. It is clean exactly if every
value is valid and every declaration on the chain of a node's class, as the present model has it,
has as many valid values as it asks for. -/
theorem report_run_from_scratch
    (hnew : AlwaysMintsNew { config, context, graph := { model, settings } } steps)
    (hchecks : ChecksCatalogs steps) :
    let g := (run { config, context, graph := { model, settings } } steps).graph
    (∀ n ∈ g.nodes, ∀ e ∈ n.entries,
      e.isValid = Graph.isValid g.settings.catalog e.property e.value) ∧
    g.validate = g.revalidate.validate ∧
    (∀ n ∈ g.nodes, g.model.chain n.cls.iri = .ok n.chain) ∧
    (g.validate.isClean = true ↔
      (∀ n ∈ g.nodes, ∀ e ∈ n.entries,
        Graph.isValid g.settings.catalog e.property e.value = true) ∧
      ∀ n ∈ g.nodes, ∀ cp ∈ n.chain.declarations, ∀ min, cp.minCount = some min → 1 ≤ min →
        min ≤ g.recomputedCount n cp) := by
  intro g
  have hmarks : g.UpToDate := upToDate_graph_run hnew hchecks
  have htyped := (reachable_run hnew).consistent.typed
  exact ⟨fun n hn e he ↦ hmarks.isValid_eq hn he, by rw [hmarks.revalidate_eq],
    fun n hn ↦ (htyped n hn).chain, hmarks.isClean_iff⟩

def contentType : ClassProperty :=
  { parentClass := "https://example.org/Software/Package"
    path := "https://example.org/Software/contentType"
    name := "contentType"
    minCount := some 1
    constraint := .literal .mediaType }

def package : Ontology.Class :=
  { iri := "https://example.org/Software/Package"
    name := "Package"
    profileName := "Software"
    properties := .ofList [("contentType", contentType)] }

def packages : Model :=
  .ofProfiles {} (.ofList [("Software", { classes := .ofList [("Package", package)] })])

/-- A package is given a media type, which a table then lists, and the model is read anew. -/
def packaging : List Step :=
  [.edit (.setCatalog {}), .edit (.addNodeWithId "urn:package" package.iri {}),
    .edit (.setEntry "urn:package" "entry-0" (some (.text "text/plain"))), .edit .revalidate,
    .loadMediaTypes "Name,Template\nplain,text/plain\n".toUTF8.data.toList,
    .replaceModel packages]

theorem report_run_packaging :
    AlwaysMintsNew { config := {}, context := {}, graph := { model := packages } } packaging ∧
      ChecksCatalogs packaging ∧
      let g := (run { config := {}, context := {}, graph := { model := packages } } packaging).graph
      g.settings.catalog.hasOptions contentType.path = true ∧ g.nodes.length = 1 ∧
      (∀ n ∈ g.nodes, ∀ e ∈ n.entries,
        e.isValid = Graph.isValid g.settings.catalog e.property e.value) ∧
      g.validate = g.revalidate.validate ∧ g.validate.isClean = true := by
  have hnew : AlwaysMintsNew { config := {}, context := {}, graph := { model := packages } }
      packaging := ⟨trivial, trivial, trivial, trivial, trivial, trivial, trivial⟩
  have hchecks : ChecksCatalogs packaging := by simp [packaging, ChecksCatalogs]
  obtain ⟨hmarks, hreport, -, -⟩ := report_run_from_scratch hnew hchecks
  exact ⟨hnew, hchecks, by decide +kernel, by decide +kernel, hmarks, hreport, by decide +kernel⟩

end OntoGraph.Session
