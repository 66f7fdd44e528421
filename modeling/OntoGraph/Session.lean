import OntoGraph.Document.Export
import OntoGraph.Document.Import
import OntoGraph.Graph.Retype
import OntoGraph.Ontology.Compile
import OntoGraph.Ontology.Metadata
import OntoGraph.Ontology.Source

/-!
# Editing sessions

A session holds what an editor works with: a configuration, the graph over a model, and the
context for its documents. All that a session needs from outside is handed in.
-/

namespace OntoGraph

open Ontology OntoGraph.Graph Document Settings Catalog

/-- Why a session does not start or go on. -/
inductive SessionError where
  | load (error : LoadError)
  | compile (error : CompileError)
  | metadata (error : MetadataError)
  | resolve (error : ResolveError)
  | context (error : ContextError)
  | graph (error : GraphError)
  | catalog (error : CatalogError)
  deriving DecidableEq, Repr

/-- A model in which the chain of every class resolves. -/
def checked (model : Model) : Except SessionError Model :=
  match (Resolver.mk model ∅).warm.1 with
  | .ok _ => .ok model
  | .error error => .error (.resolve error)

def loadMetadata (surroundings : Surroundings) (path : String) : Except MetadataError Metadata :=
  match surroundings.file? path with
  | some text => Metadata.read text
  | none => .error (.unreadable path)

def loadModel (surroundings : Surroundings) (ontology : Source) (metadata : Option String) :
    Except SessionError Model := do
  let store ← (ontology.load surroundings).mapError .load
  let model ← (compile store).mapError .compile
  match metadata with
  | none => checked model
  | some path => checked (model.enrich (← (loadMetadata surroundings path).mapError .metadata))

/-- An editing session over one model. -/
structure Session where
  config : Configuration
  context : TermContext
  graph : InstanceGraph

namespace Session

/-- A session with an empty graph over a model. The context is read from the source that the
configuration names, or else derived from the model. -/
def start (surroundings : Surroundings) (config : Configuration) (model : Model) :
    Except SessionError Session := do
  let context ← match config.contextSource with
    | some place => (TermContext.load surroundings place).mapError .context
    | none => .ok (.ofModel model)
  return { config, context, graph := { model, settings := .ofConfiguration config } }

/-- A session over the model of an ontology. -/
def openOn (surroundings : Surroundings) (config : Configuration) (ontology : Source)
    (metadata : Option String) : Except SessionError Session := do
  start surroundings config (← loadModel surroundings ontology metadata)

/-- The session over another model, with the same graph as far as that admits it. A derived
context is derived anew. -/
def replaceModel (s : Session) (model : Model) : Except SessionError Session := do
  let graph ← (s.graph.replaceModel model).mapError .graph
  return { s with
    graph
    context := if s.config.contextSource.isNone then .ofModel model else s.context }

def reload (s : Session) (surroundings : Surroundings) (ontology : Source)
    (metadata : Option String) : Except SessionError Session := do
  s.replaceModel (← loadModel surroundings ontology metadata)

/-- The paths of the properties whose values are media types, once for each declaration. -/
def mediaTypePaths (model : Model) : List String :=
  ((model.classes.flatMap (·.properties.values)).filter
    (·.datatype? = some .mediaType)).map (·.path)

/-- Adds options to the catalog of a graph for every given path and checks all values again. -/
def addOptions (g : InstanceGraph) (paths : List String) (options : List ValueOption) :
    InstanceGraph :=
  { g with settings.catalog :=
      paths.foldl (fun catalog path ↦ catalog.extend path options) g.settings.catalog }.revalidate

/-- Takes a table of media types as the options for all properties whose values are media types.
The result has the number of options. -/
def loadMediaTypes (s : Session) (table : List UInt8) : Except SessionError (Nat × Session) := do
  let options ← (readMediaTypes table).mapError .catalog
  return (options.length,
    { s with graph := addOptions s.graph (mediaTypePaths s.graph.model) options })

/-- Adds the content of a document. `urns` gives new names. -/
def importText (s : Session) (text : String) (reference : Position) (urns : Nat → String) :
    Except ImportError (ImportSummary × Session) := do
  let (summary, graph) ← importDocument s.graph s.context s.config text reference urns
  return (summary, { s with graph })

def importFile (s : Session) (surroundings : Surroundings) (path : String) (reference : Position)
    (urns : Nat → String) : Except ImportError (ImportSummary × Session) :=
  match surroundings.file? path with
  | some text => s.importText text reference urns
  | none => .error (.load (.unreadable path))

def exportAll (s : Session) : ExportedDocument := exportGraph s.graph s.context s.config

def exportFrom (s : Session) (root : String) : ExportedDocument :=
  exportSubtree s.graph s.context s.config root

end Session

end OntoGraph
