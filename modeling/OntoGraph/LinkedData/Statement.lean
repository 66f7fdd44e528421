import OntoGraph.LinkedData.Canonical
import OntoGraph.Rdf.Store

/-!
# Statements

An expanded document is taken apart into statements about its nodes. A node without a name gets a
label, and the labels of the document are replaced so that none of them can clash with a new one.
A statement that is made twice about a node is one statement, lists included.
-/

namespace OntoGraph.LinkedData

open Rdf

inductive Value where
  | node (id : Identifier)
  | literal (value : Literal)
  | list (items : List Value)

namespace Value

mutual

def same : Value → Value → Bool
  | .node id, .node id' => id == id'
  | .literal value, .literal value' => value == value'
  | .list items, .list items' => sameItems items items'
  | _, _ => false

def sameItems : List Value → List Value → Bool
  | [], [] => true
  | item :: items, item' :: items' => same item item' && sameItems items items'
  | _, _ => false

end

instance : BEq Value := ⟨same⟩

end Value

/-- A statement in one of the graphs of a document. -/
structure Statement where
  graph : Option Identifier
  subject : Identifier
  predicate : Identifier
  value : Value
  deriving BEq

/-- The statements of a document while it is taken apart. -/
structure Collection where
  /-- The number of labels in use. -/
  labelCount : Nat := 0
  /-- The labels that stand for those of the document. -/
  labels : SortedMap String := ∅
  statements : Array Statement := #[]
  /-- The indices of the nodes of each graph. -/
  indices : List ((Option Identifier × Identifier) × String) := []

/-- A step of taking a document apart. -/
abbrev Collecting := StateT Collection Option

/-- A label that was not used before. -/
def freshLabel : Collecting String := do
  let n := (← get).labelCount
  modify fun c ↦ { c with labelCount := n + 1 }
  return toString n

/-- The identifier in place of one of the document. -/
def relabel : Identifier → Collecting Identifier
  | .blank name => do
    match (← get).labels.get? name with
    | some label => return .blank label
    | none =>
      let label ← freshLabel
      modify fun c ↦ { c with labels := c.labels.insert name label }
      return .blank label
  | i => return i

/-- The identifier of a node, which is a new one if the node has no name. -/
def nameNode : Option Identifier → Collecting Identifier
  | some id => relabel id
  | none => return .blank (← freshLabel)

/-- Notes the index of a node. A node cannot have two of them. -/
def noteIndex (graph : Option Identifier) (id : Identifier) : Option String → Collecting Unit
  | none => return
  | some index => do
    match (← get).indices.lookup (graph, id) with
    | some other => if other ≠ index then failure
    | none => modify fun c ↦ { c with indices := ((graph, id), index) :: c.indices }

/-- Makes a statement, unless it is about a list and was made before. Other repetitions leave no
trace in a store. -/
def state (s : Statement) : Collecting Unit :=
  modify fun c ↦
    match s.value with
    | .list _ => if c.statements.contains s then c else { c with statements := c.statements.push s }
    | _ => { c with statements := c.statements.push s }

mutual

/-- Makes the statements of an item in a graph; the result is the item as a value. `fuel` bounds
the depth of the recursion. -/
def collect (fuel : Nat) (graph : Option Identifier) (item : Item) : Collecting Value :=
  match fuel with
  | 0 => failure
  | fuel + 1 =>
    match item with
    | .literal value _ => return .literal value
    | .list items _ => return .list (← items.mapM (collect fuel graph))
    | .node id types properties reverse named included index =>
      return .node (← collectNode fuel graph
        { id, types, properties, reverse, graph := named, included, index })

/-- Makes the statements of a node; the result is its identifier. -/
def collectNode (fuel : Nat) (graph : Option Identifier) (n : NodeParts) :
    Collecting Identifier :=
  match fuel with
  | 0 => failure
  | fuel + 1 => do
    let id ← nameNode n.id
    noteIndex graph id n.index
    for type in n.types do
      state ⟨graph, id, .iri rdfType, .node (← relabel type)⟩
    for item in n.graph.getD [] do
      let _ ← collect fuel (some id) item
    for item in n.included do
      let _ ← collect fuel graph item
    for (property, item) in n.properties do
      let value ← collect fuel graph item
      state ⟨graph, id, property, value⟩
    for (property, item) in n.reverse do
      match ← collect fuel graph item with
      | .node subject => state ⟨graph, subject, property, .node id⟩
      | _ => failure
    return id

end

/-! ## Triples -/

def Identifier.toTerm? : Identifier → Option Term
  | .iri name => some (.iri name)
  | .blank label => some (.blank label)
  | .invalid _ => none

/-- The triples of a document while they are made. -/
structure Emission where
  labelCount : Nat
  store : Store := default

def Emission.freshNode (e : Emission) : Term × Emission :=
  (.blank (toString e.labelCount), { e with labelCount := e.labelCount + 1 })

def Emission.add (e : Emission) (subject : Term) (predicate : String) (object : Term) :
    Emission :=
  { e with store := e.store.add subject predicate object }

mutual

/-- The term for a value. A list is a chain of blank nodes. -/
def emitValue (e : Emission) : Value → Option Term × Emission
  | .node id => (id.toTerm?, e)
  | .literal value => (value.toTerm?, e)
  | .list items =>
    let (head, e) := emitList e items
    (some head, e)

/-- The head of the chain for the items of a list. -/
def emitList (e : Emission) : List Value → Term × Emission
  | [] => (.iri rdfNil, e)
  | item :: items =>
    let (node, e) := e.freshNode
    let (object?, e) := emitValue e item
    let e := match object? with
      | some object => e.add node rdfFirst object
      | none => e
    let (next, e) := emitList e items
    (node, e.add node rdfRest next)

end

/-- Adds the triple of a statement. A statement whose subject or value refers to nothing, or whose
predicate is no IRI, has none. -/
def emitStatement (e : Emission) (s : Statement) : Emission :=
  match s.subject.toTerm?, s.predicate with
  | some subject, .iri predicate =>
    match emitValue e s.value with
    | (some object, e) => e.add subject predicate object
    | (none, e) => e
  | _, _ => e

def storeOf? (fuel : Nat) (items : List Item) : Option Store := do
  let (_, c) ← (items.forM fun item ↦ do
    let _ ← collect fuel none item : Collecting Unit).run {}
  return (c.statements.foldl emitStatement { labelCount := c.labelCount }).store

end OntoGraph.LinkedData
