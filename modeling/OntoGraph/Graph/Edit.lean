import OntoGraph.Graph.Basic

/-!
# Editing a graph

Every edit checks the constraints of the model and leaves the graph as it is if it fails. Abstract
classes are not instantiated, a property never gets more values than it may have, and an edge
leads to an instance of the class that its property asks for. Values may be invalid, so that they
can be corrected in place.
-/

namespace OntoGraph.Graph

open Ontology

/-- What came of adding a value or an edge. -/
inductive Addition where
  /-- It has this identifier. -/
  | added (id : String)
  /-- The property has as many values as it may have, and nothing changed. -/
  | full
  deriving DecidableEq, Repr

/-- The identifier of the entry or edge that was the n-th to get one. -/
def issuedId (n : Nat) : String := "entry-" ++ toString n

namespace InstanceGraph

/-! ## Nodes -/

/-- The value that a required entry of a new node starts with. A specification version is that of
the settings or of the ontology; any other value is the default of its datatype. -/
def initialValue (g : InstanceGraph) (cp : ClassProperty) : Option Value :=
  let version :=
    if cp.name = "specVersion" ∧ lastSegment cp.parentClass = "CreationInfo" then
      g.settings.specVersion <|> g.model.info.version
    else none
  (version.map .text) <|> cp.datatype?.bind Datatype.default?

/-- The declarations for which a new node of a class with this chain gets an entry: the required
ones that are not object properties, each path once. -/
def prefilled (chain : Chain) : List ClassProperty :=
  ClassProperty.firstOfEachPath [] (chain.required.filter (!·.isObject))

/-- The entry of a new node for a declaration. -/
def initialEntry (g : InstanceGraph) (cp : ClassProperty) (id : String) : Entry :=
  let value := g.initialValue cp
  { id
    property := cp
    value
    isValid := Graph.isValid g.settings.catalog cp value
    isRequired := true }

def instantiable (g : InstanceGraph) (classIri : String) : Except GraphError (Ontology.Class × Chain) :=
  match g.model.class? classIri with
  | none => .error (.unknownClass classIri)
  | some cls =>
    if cls.isAbstract then .error (.abstractClass classIri)
    else
      match g.model.chain classIri with
      | .ok chain => .ok (cls, chain)
      | .error error => .error (.ofResolveError error)

/-- A new instance of a class, with an entry for each required value. -/
def newNode (g : InstanceGraph) (id classIri : String) (position : Position) :
    Except GraphError Node := do
  let (cls, chain) ← g.instantiable classIri
  let entries := (prefilled chain).mapIdx fun i cp ↦ g.initialEntry cp (issuedId (g.issued + i))
  return { id, position, cls, chain, entries
           isElement := g.settings.isElementChain g.model chain }

def insertNode (g : InstanceGraph) (n : Node) : InstanceGraph :=
  { g with nodes := g.nodes ++ [n], issued := g.issued + n.entries.length }

/-- Adds an instance of a class under a name that was just minted, which is not looked up. -/
def addMintedNode (g : InstanceGraph) (urn classIri : String) (position : Position) :
    Except GraphError InstanceGraph :=
  (g.newNode urn classIri position).map g.insertNode

/-- Adds an instance of a class under a name that no node may have yet. -/
def addNode (g : InstanceGraph) (id classIri : String) (position : Position) :
    Except GraphError InstanceGraph :=
  if (g.node? id).isSome then .error (.duplicateNodeId id)
  else g.addMintedNode id classIri position

/-- Removes a node with the edges that leave or enter it. The result says whether it was there. -/
def deleteNode (g : InstanceGraph) (id : String) : Bool × InstanceGraph :=
  if (g.node? id).isSome then
    (true, { g with
      nodes := g.nodes.filter (·.id ≠ id)
      edges := g.edges.filter fun e ↦ e.source ≠ id && e.target ≠ id })
  else (false, g)

def modifyNode (g : InstanceGraph) (id : String) (f : Node → Node) : InstanceGraph :=
  { g with nodes := g.nodes.map fun n ↦ if n.id = id then f n else n }

def moveNode (g : InstanceGraph) (id : String) (position : Position) :
    Except GraphError InstanceGraph :=
  (g.existing id).map fun _ ↦ g.modifyNode id fun n ↦ { n with position }

def reset (g : InstanceGraph) : InstanceGraph := { g with nodes := [], edges := [] }

/-! ## Values -/

/-- A new entry for a value. Without a value it gets the default of its datatype. -/
def newEntry (g : InstanceGraph) (cp : ClassProperty) (value : Option Value) : Entry :=
  let value := value <|> cp.datatype?.bind Datatype.default?
  { id := issuedId g.issued
    property := cp
    value
    isValid := Graph.isValid g.settings.catalog cp value
    isRequired := false }

def insertEntry (g : InstanceGraph) (id : String) (e : Entry) : InstanceGraph :=
  { g.modifyNode id fun n ↦ { n with entries := n.entries ++ [e] } with issued := g.issued + 1 }

def addEntry (g : InstanceGraph) (id : String) (cp : ClassProperty) (value : Option Value) :
    Except GraphError (Addition × InstanceGraph) :=
  if cp.isObject then .error (.objectPropertyAsValue cp.path)
  else do
    let n ← g.existing id
    if !n.declares cp then throw (.unknownProperty id cp.path)
    if g.isFull id cp then return (.full, g)
    let entry := g.newEntry cp value
    return (.added entry.id, g.insertEntry id entry)

def existingEntry (g : InstanceGraph) (id entryId : String) : Except GraphError Entry := do
  let n ← g.existing id
  match n.entries.find? (·.id = entryId) with
  | some entry => return entry
  | none => throw (.unknownProperty id entryId)

/-- The graph with another value, and what is known of it, in an entry of a node. -/
def writeEntry (g : InstanceGraph) (id entryId : String) (value : Option Value) (isValid : Bool) :
    InstanceGraph :=
  g.modifyNode id fun n ↦
    { n with entries := n.entries.map fun e ↦
        if e.id = entryId then { e with value, isValid } else e }

/-- Replaces the value of an entry. The result says whether the new value is valid. -/
def setEntry (g : InstanceGraph) (id entryId : String) (value : Option Value) :
    Except GraphError (Bool × InstanceGraph) := do
  let entry ← g.existingEntry id entryId
  let isValid := Graph.isValid g.settings.catalog entry.property value
  return (isValid, g.writeEntry id entryId value isValid)

def eraseEntry (g : InstanceGraph) (id entryId : String) : InstanceGraph :=
  g.modifyNode id fun n ↦ { n with entries := n.entries.filter (·.id ≠ entryId) }

/-- Removes an entry, which is the result. -/
def deleteEntry (g : InstanceGraph) (id entryId : String) :
    Except GraphError (Entry × InstanceGraph) := do
  let entry ← g.existingEntry id entryId
  return (entry, g.eraseEntry id entryId)

/-- Checks every value again. -/
def revalidate (g : InstanceGraph) : InstanceGraph :=
  { g with nodes := g.nodes.map fun n ↦
    { n with entries := n.entries.map (Entry.revalidate g.settings.catalog) } }

/-! ## Edges -/

/-- A new edge, labelled with the name of its property. -/
def newEdge (g : InstanceGraph) (source target : String) (cp : ClassProperty) : Edge :=
  { id := issuedId g.issued, source, target, property := cp, label := cp.name }

def insertEdge (g : InstanceGraph) (e : Edge) : InstanceGraph :=
  { g with edges := g.edges ++ [e], issued := g.issued + 1 }

def addEdge (g : InstanceGraph) (source target : String) (cp : ClassProperty) :
    Except GraphError (Addition × InstanceGraph) :=
  match cp.target? with
  | none => .error (.notAnObjectProperty cp.path)
  | some targetClass => do
    let sourceNode ← g.existing source
    let targetNode ← g.existing target
    if !sourceNode.declares cp then throw (.unknownProperty source cp.path)
    if !targetNode.isA targetClass then throw (.targetClassMismatch target targetClass)
    if g.isFull source cp then return (.full, g)
    let edge := g.newEdge source target cp
    return (.added edge.id, g.insertEdge edge)

def deleteEdge (g : InstanceGraph) (id : String) : Except GraphError (Edge × InstanceGraph) :=
  match g.edge? id with
  | some edge => .ok (edge, { g with edges := g.edges.filter (·.id ≠ id) })
  | none => .error (.unknownEdge id)

end InstanceGraph

end OntoGraph.Graph
