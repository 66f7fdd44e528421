import OntoGraph.Document.TermContext
import OntoGraph.Graph.Reach
import OntoGraph.Graph.Validation
import OntoGraph.Json.Printer
import OntoGraph.Rdf.Store

/-!
# Writing documents

A graph becomes a set of triples, where elements keep their identifiers and all other nodes are
blank, and the triples become a document in the terms of a context. The document also holds the
places of the nodes, relative to the first of them and in cells of the grid.
-/

namespace OntoGraph.Document

open Ontology OntoGraph.Graph Rdf

/-- A document with the triples that it says and the findings on its nodes. -/
structure ExportedDocument where
  document : Json
  store : Store
  report : Report

def ExportedDocument.text (e : ExportedDocument) : String := e.document.indented

/-! ## Triples -/

/-- The subjects by identifier with that of one more node, and the store that makes the blank
ones. -/
def assignSubject (state : SortedMap Term × Store) (n : Node) : SortedMap Term × Store :=
  if n.isElement then (state.1.insert n.id (.iri n.id), state.2)
  else
    let (subject, store) := state.2.freshBlank
    (state.1.insert n.id subject, store)

/-- The subjects of some nodes by identifier, and the store that made the blank ones. A node that
is given again gets its subject anew. -/
def assignSubjects (nodes : List Node) : SortedMap Term × Store :=
  nodes.foldl assignSubject (∅, default)

def entryTerm? (e : Entry) : Option Term :=
  e.value.bind fun v ↦
    match e.property.constraint with
    | .literal datatype => some (.typed v.lexical datatype.xsd)
    | .enumerated _ => some (.iri v.lexical)
    | .object _ => none

/-- The triples of a node: its type, its values, and its edges to nodes that have a subject. -/
def nodeTriples (g : InstanceGraph) (subjects : SortedMap Term) (n : Node) (subject : Term) :
    List Triple :=
  ⟨subject, rdfType, .iri n.cls.iri⟩
    :: n.entries.filterMap (fun e ↦ (entryTerm? e).map (⟨subject, e.path, ·⟩))
    ++ (g.outEdges n.id).filterMap fun e ↦ (subjects.get? e.target).map (⟨subject, e.path, ·⟩)

def withSubjects (subjects : SortedMap Term) (nodes : List Node) : List (Node × Term) :=
  nodes.filterMap fun n ↦ (subjects.get? n.id).map (n, ·)

/-- The triples of some nodes. Edges to other nodes are left out. -/
def exportStore (g : InstanceGraph) (nodes : List Node) : List (Node × Term) × Store :=
  let (subjects, store) := assignSubjects nodes
  let order := withSubjects subjects nodes
  let triples := order.flatMap fun (n, subject) ↦ nodeTriples g subjects n subject
  (order, triples.foldl Store.insert store)

/-! ## Compacting -/

def truthOf? : String → Option Bool
  | "true" => some true
  | "false" => some false
  | _ => none

def compactValue (c : TermContext) (definition : Option TermDefinition) (term : Term) : Json :=
  let coercion := definition.bind (·.coercion)
  match term with
  | .iri iri =>
    match coercion, definition with
    | some .id, _ => .string iri
    | some .vocab, some definition => .string (c.compactVocabValue definition iri)
    | _, _ => .object [("@id", .string iri)]
  | .blank _ =>
    if coercion = some .id then .string term.id else .object [("@id", .string term.id)]
  | .literal lexical _ (some language) =>
    .object [("@language", .string language), ("@value", .string lexical)]
  | .literal lexical datatype none =>
    match if datatype = xsdBoolean then truthOf? lexical else none with
    | some b => .bool b
    | none =>
      if coercion = some (.datatype datatype) ∨ (coercion = none ∧ datatype = xsdString) then
        .string lexical
      else .object [("@type", .string (c.compactIri datatype)), ("@value", .string lexical)]

/-- The key for a predicate, with the definition of its term. -/
def predicateKey (c : TermContext) (predicate : String) : String × Option TermDefinition :=
  match c.termFor? predicate with
  | some (term, definition) => (term, some definition)
  | none => (c.compactIri predicate, none)

/-- A list of values by key, with one more value. -/
def addValue (groups : List (String × List Json)) (key : String) (value : Json) :
    List (String × List Json) :=
  match groups with
  | [] => [(key, [value])]
  | (k, values) :: rest =>
    if k = key then (k, values ++ [value]) :: rest else (k, values) :: addValue rest key value

/-- One value by itself, any other number of values as an array. -/
def unlessSingle : List Json → Json
  | [value] => value
  | values => .array values

def compactSubject (c : TermContext) (store : Store) (subject : Term) : Json :=
  let triples := (store.triplesOf subject).toList
  let types := (triples.filter (·.predicate = rdfType)).filterMap (·.object.iri?)
  let idKey := if subject.isBlank then "@id" else c.idKey
  let groups := (triples.filter (·.predicate ≠ rdfType)).foldl (fun groups t ↦
    let (key, definition) := predicateKey c t.predicate
    addValue groups key (compactValue c definition t.object)) []
  .ofMembers <|
    (idKey, .string subject.id)
      :: (c.typeKey, unlessSingle (types.map fun iri ↦ .string (c.compactIri iri)))
      :: groups.map fun (key, values) ↦ (key, unlessSingle values)

/-! ## Documents -/

/-- The place of a node relative to another, in cells of the grid. -/
def offset (grid : Float × Float) (origin position : Position) : Json :=
  .object [("x", .ofFloat ((position.x - origin.x) / grid.1)),
    ("y", .ofFloat ((position.y - origin.y) / grid.2))]

/-- The places of some nodes by the identifiers of their subjects. -/
def dots (grid : Float × Float) (order : List (Node × Term)) : Json :=
  match order with
  | [] => .object []
  | (origin, _) :: _ =>
    .ofMembers <| order.map fun (n, subject) ↦
      (subject.id, offset grid origin.position n.position)

def exportNodes (g : InstanceGraph) (c : TermContext) (config : Settings.Configuration)
    (nodes : List Node) : ExportedDocument :=
  let (order, store) := exportStore g nodes
  { document := .object [
      ("@context", .string config.contextUrl),
      ("@graph", .array (order.map fun (_, subject) ↦ compactSubject c store subject)),
      ("dots", dots config.grid order)]
    store
    report := g.validateNodes nodes }

def exportGraph (g : InstanceGraph) (c : TermContext) (config : Settings.Configuration) :
    ExportedDocument :=
  exportNodes g c config g.nodes

def exportSubtree (g : InstanceGraph) (c : TermContext) (config : Settings.Configuration)
    (root : String) : ExportedDocument :=
  exportNodes g c config (g.nodesAt (g.subtree root))

end OntoGraph.Document
