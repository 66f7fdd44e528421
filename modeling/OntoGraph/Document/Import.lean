import OntoGraph.Document.Labels
import OntoGraph.Document.TermContext
import OntoGraph.Graph.Edit
import OntoGraph.LinkedData.Reader
import OntoGraph.Ontology.Source

/-!
# Reading documents

A document has to name the expected context. It is read as linked data, and for every subject of
its triples the graph gets a node. The other triples become values and edges. A document is taken
as a whole or not at all.
-/

namespace OntoGraph.Document

open Ontology OntoGraph.Graph Rdf

/-- Why a document is not taken. -/
inductive ImportError where
  | contextMismatch (expected : String)
  | malformed
  | duplicateNodeId (id : String)
  | missingType (subject : String)
  | unknownProperty (cls path : String)
  | missingTarget (id : String)
  | graph (error : GraphError)
  | load (error : LoadError)
  deriving DecidableEq, Repr

def ImportError.message : ImportError → String
  | .contextMismatch expected => "the document context has to match \"" ++ expected ++ "\""
  | .malformed => "failed to parse document"
  | .duplicateNodeId id =>
    "a node with id " ++ id ++ " already exists; remove it before importing"
  | .missingType subject => "subject " ++ subject ++ " has no type"
  | .unknownProperty cls path => cls ++ " has no property " ++ path
  | .missingTarget id => "no target node found with id " ++ id
  | .graph error => error.message
  | .load error => error.message

/-- What came of a document. -/
structure ImportSummary where
  /-- The new nodes, in the order of the document. -/
  nodeIds : List String
  /-- The first new node of the class of document roots, or else the first new node. -/
  root : Option String
  /-- The number of values and edges that were left out because their property was full. -/
  dropped : Nat

/-! ## From the document to triples -/

def topLevelSubjects (c : TermContext) (document : Json) : List Term :=
  let items := match document.member? "@graph" with
    | some (.array items) => items
    | some item => [item]
    | none => [document]
  items.filterMap fun item ↦
    match (item.members?.getD []).find? fun member ↦ c.isIdKey member.1 with
    | some (_, .string id) => some (subjectNamed c id)
    | _ => none

/-- A document as it is rebuilt. -/
structure Statements where
  store : Store
  /-- The labels of blank nodes as the document has them. -/
  labels : List (Term × String)
  /-- The subjects at the top of the document. -/
  order : List Term
  /-- The places of nodes. -/
  dots : Json

/-- Does the document name the expected context? -/
def namesContext (config : Settings.Configuration) (document : Json) : Bool :=
  match document.member? "@context" with
  | some (.string url) => url == config.contextUrl
  | _ => false

def withoutMember (name : String) : Json → Json
  | .object members => .object (members.filter (·.1 ≠ name))
  | json => json

def readStatements (c : TermContext) (config : Settings.Configuration) (text : String) :
    Except ImportError Statements := do
  let some document := Json.readDocument? text | throw .malformed
  if !namesContext config document then throw (.contextMismatch config.contextUrl)
  let body := withoutMember "dots" document
  let documents := SortedMap.insert ∅ config.contextUrl c.document.compact
  let some expanded := LinkedData.toStore? documents (protectLabels c false body)
    | throw .malformed
  let (store, labels) := restoreLabels expanded
  return {
    store
    labels
    order := topLevelSubjects c body
    dots := (document.member? "dots").getD .null }

/-! ## From triples to the graph -/

namespace Statements

/-- The subjects in the order in which they become nodes: those at the top of the document, then
the others. -/
def subjects (s : Statements) : List Term :=
  (s.order.filter (fun t ↦ !(s.store.triplesOf t).isEmpty) ++ s.store.subjects.toList).eraseDups

/-- A node by the name that the document has for it. -/
def documentId (s : Statements) (t : Term) : String := (s.labels.lookup t).getD t.id

/-- A coordinate of an offset; zero if it is missing. -/
def coordinate (offset : Json) (name : String) : Float :=
  ((offset.member? name).bind Json.float?).getD 0.0

/-- The position of a subject: the reference, moved by the place that the document has for it. -/
def position (s : Statements) (grid : Float × Float) (reference : Position) (t : Term) :
    Position :=
  match s.dots.member? (s.documentId t) with
  | some offset =>
    { x := coordinate offset "x" * grid.1 + reference.x
      y := coordinate offset "y" * grid.2 + reference.y }
  | none => reference

/-- The class of a subject: the first of its types that is a class of the model, or else the first
of its types. -/
def classIri? (s : Statements) (model : Model) (t : Term) : Option String :=
  let types := (s.store.objects t rdfType).filterMap Term.iri?
  types.find? (fun iri ↦ (model.class? iri).isSome)
    <|> (s.store.object? t rdfType).bind Term.iri?

end Statements

/-- A graph while a document is added to it. -/
structure Rebuilding where
  graph : InstanceGraph
  /-- The new nodes by their subjects, last first. -/
  nodeIds : List (Term × String) := []
  /-- The entries that new nodes started with and that are not filled yet. -/
  placeholders : List String := []
  dropped : Nat := 0

/-- The identifier of the node for a subject: its IRI, or a new URN for a blank node. -/
def nodeIdFor (urns : Nat → String) (r : Rebuilding) : Term → String
  | .iri iri => iri
  | _ => urns r.nodeIds.length

def addSubject (s : Statements) (grid : Float × Float) (reference : Position)
    (urns : Nat → String) (r : Rebuilding) (t : Term) : Except ImportError Rebuilding :=
  match s.classIri? r.graph.model t with
  | none => .error (.missingType (s.documentId t))
  | some classIri =>
    let id := nodeIdFor urns r t
    match r.graph.addNode id classIri (s.position grid reference t) with
    | .error error => .error (.graph error)
    | .ok graph =>
      let entries := ((graph.node? id).map (·.entries)).getD []
      .ok { r with
        graph
        nodeIds := (t, id) :: r.nodeIds
        placeholders := r.placeholders ++ entries.map (·.id) }

/-- The value that the object of a triple stands for under a datatype. A truth value is kept as
text where none is expected, and a number with an exponent is a number where one is expected. -/
def valueOf (datatype : Datatype) (object : Term) : Value :=
  match object with
  | .literal lexical type _ =>
    if type = xsdBoolean ∧ datatype ≠ .boolean then .text lexical
    else if datatype.isNumeric ∧ lexical.toList.any fun ch ↦ ch == 'E' || ch == 'e' then
      match Number.read? lexical with
      | some x => .number x
      | none => .text lexical
    else datatype.ofLexical lexical
  | object => datatype.ofLexical object.value

def entryValue (cp : ClassProperty) (object : Term) : Value :=
  match cp.constraint with
  | .literal datatype => valueOf datatype object
  | _ => .text object.value

/-- The entry that a value goes into, if one is open: an entry that holds the value already, or
else the first. -/
def placeholderFor? (r : Rebuilding) (n : Node) (path : String) (value : Value) : Option Entry :=
  let openEntries := (n.entriesOf path).filter fun e ↦ r.placeholders.contains e.id
  openEntries.find? (fun e ↦ e.value.any value.same) <|> openEntries.head?

/-- Counts a value or edge that was left out. -/
def Rebuilding.record (r : Rebuilding) : Except GraphError (Addition × InstanceGraph) →
    Except ImportError Rebuilding
  | .error error => .error (.graph error)
  | .ok (.added _, graph) => .ok { r with graph }
  | .ok (.full, graph) => .ok { r with graph, dropped := r.dropped + 1 }

/-- Adds the value or the edge of a triple of a node. -/
def addStatement (s : Statements) (id : String) (r : Rebuilding) (t : Triple) :
    Except ImportError Rebuilding :=
  if t.predicate = rdfType then .ok r
  else
    match r.graph.node? id with
    | none => .error (.graph (.unknownNode id))
    | some n =>
      match n.property? t.predicate with
      | none => .error (.unknownProperty n.cls.iri t.predicate)
      | some cp =>
        if cp.isObject then
          match r.nodeIds.lookup t.object with
          | none => .error (.missingTarget (s.documentId t.object))
          | some target => r.record (r.graph.addEdge id target cp)
        else
          let value := entryValue cp t.object
          match placeholderFor? r n cp.path value with
          | some entry =>
            match r.graph.setEntry id entry.id (some value) with
            | .error error => .error (.graph error)
            | .ok (_, graph) =>
              .ok { r with graph, placeholders := r.placeholders.filter (· ≠ entry.id) }
          | none => r.record (r.graph.addEntry id cp (some value))

def addStatements (s : Statements) (r : Rebuilding) (t : Term) : Except ImportError Rebuilding :=
  match r.nodeIds.lookup t with
  | none => .ok r
  | some id => (s.store.triplesOf t).toList.foldlM (addStatement s id) r

/-- The first new node of the class of document roots, or else the first new node. -/
def rootOf (documentClass : String) (g : InstanceGraph) (ids : List String) : Option String :=
  ids.find? (fun id ↦ (g.node? id).any (·.cls.name == documentClass)) <|> ids.head?

/-- The first IRI among the subjects that is the name of a node. -/
def takenIri? (g : InstanceGraph) (subjects : List Term) : Option String :=
  (subjects.filterMap Term.iri?).find? fun iri ↦ (g.node? iri).isSome

/-- The graph with the nodes, values and edges of some statements. `urns` gives new names. -/
def rebuild (g : InstanceGraph) (config : Settings.Configuration) (s : Statements)
    (reference : Position) (urns : Nat → String) :
    Except ImportError (ImportSummary × InstanceGraph) :=
  match takenIri? g s.subjects with
  | some iri => .error (.duplicateNodeId iri)
  | none => do
    let r ← s.subjects.foldlM (addSubject s config.grid reference urns) { graph := g }
    let r ← s.subjects.foldlM (addStatements s) r
    let ids := r.nodeIds.reverse.map (·.2)
    return ({ nodeIds := ids, root := rootOf config.documentClass r.graph ids,
              dropped := r.dropped }, r.graph)

def importDocument (g : InstanceGraph) (c : TermContext) (config : Settings.Configuration)
    (text : String) (reference : Position) (urns : Nat → String) :
    Except ImportError (ImportSummary × InstanceGraph) := do
  rebuild g config (← readStatements c config text) reference urns

end OntoGraph.Document
