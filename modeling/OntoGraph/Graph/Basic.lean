import OntoGraph.Graph.Validity
import OntoGraph.Ontology.Resolver
import OntoGraph.Settings.Configuration

/-!
# Instance graphs

The nodes of an instance graph are instances of the classes of a model. Values of literal and
enumerated properties are entries of a node; the values of object properties are edges to other
nodes.
-/

namespace OntoGraph.Graph

open Ontology Catalog

structure Position where
  x : Float := 0.0
  y : Float := 0.0
  deriving DecidableEq, Inhabited

/-- A value of a node, or a place for one. -/
structure Entry where
  /-- The identifier of the entry, unique in its graph. -/
  id : String
  /-- The declaration that the value is checked against. -/
  property : ClassProperty
  value : Option Value
  /-- Was the value valid when it was last checked? -/
  isValid : Bool
  /-- Was the entry made because the property is required? -/
  isRequired : Bool
  deriving DecidableEq

def Entry.path (e : Entry) : String := e.property.path

def Entry.revalidate (catalog : OptionCatalog) (e : Entry) : Entry :=
  { e with isValid := Graph.isValid catalog e.property e.value }

/-- An instance of a class. -/
structure Node where
  id : String
  position : Position
  cls : Ontology.Class
  /-- The class and its ancestors, with the properties that they declare. -/
  chain : Chain
  /-- The values, in the order in which they were added. -/
  entries : List Entry
  /-- Does the class descend from the class of elements? -/
  isElement : Bool
  deriving DecidableEq

namespace Node

/-- Is the node an instance of the class, by itself or by inheritance? -/
def isA (n : Node) (classIri : String) : Bool := n.chain.hasClass classIri

def entriesOf (n : Node) (path : String) : List Entry := n.entries.filter (·.path = path)

/-- The nearest declaration of a path. -/
def property? (n : Node) (path : String) : Option ClassProperty := n.chain.nearest? path

/-- Does the class of the node, or an ancestor, declare the property? -/
def declares (n : Node) (cp : ClassProperty) : Bool := n.chain.declarations.contains cp

end Node

/-- A value of an object property: a link from one node to another. -/
structure Edge where
  /-- The identifier of the edge, unique in its graph. -/
  id : String
  source : String
  target : String
  property : ClassProperty
  label : String
  deriving DecidableEq

def Edge.path (e : Edge) : String := e.property.path

/-- What shapes the nodes of a graph beside its model. -/
structure GraphSettings where
  /-- The profile and the name of the class whose descendants are elements. -/
  elementClass : String × String := ("Core", "Element")
  /-- The version that new nodes are marked with, in place of that of the ontology. -/
  specVersion : Option String := none
  catalog : OptionCatalog := {}
  deriving DecidableEq

/-- The settings of a configuration, without options. -/
def GraphSettings.ofConfiguration (c : Settings.Configuration) : GraphSettings :=
  { elementClass := c.elementClassParts, specVersion := c.specVersion }

def GraphSettings.elementIri? (s : GraphSettings) (model : Model) : Option String :=
  (model.classNamed? s.elementClass.1 s.elementClass.2).map (·.iri)

/-- Are the instances of a class with this chain elements? -/
def GraphSettings.isElementChain (s : GraphSettings) (model : Model) (chain : Chain) : Bool :=
  (s.elementIri? model).any chain.hasClass

/-- Nodes and edges that are typed by a model. -/
structure InstanceGraph where
  model : Model
  settings : GraphSettings := {}
  /-- The nodes, in the order in which they were added. -/
  nodes : List Node := []
  /-- The edges, in the order in which they were added. -/
  edges : List Edge := []
  /-- The number of identifiers that were given to entries and edges. -/
  issued : Nat := 0
  deriving DecidableEq

/-- Why a graph is not changed. -/
inductive GraphError where
  | abstractClass (iri : String)
  | unknownClass (iri : String)
  | unknownNode (id : String)
  | unknownProperty (node property : String)
  | unknownEdge (id : String)
  | objectPropertyAsValue (path : String)
  | notAnObjectProperty (path : String)
  | targetClassMismatch (target expected : String)
  | duplicateNodeId (id : String)
  | inheritanceCycle (iri : String)
  deriving DecidableEq, Repr

def GraphError.message : GraphError → String
  | .abstractClass iri => "class " ++ iri ++ " is abstract and cannot be instantiated"
  | .unknownClass iri => "unknown class: " ++ iri
  | .unknownNode id => "unknown node: " ++ id
  | .unknownProperty node property => "node " ++ node ++ " has no property " ++ property
  | .unknownEdge id => "unknown edge: " ++ id
  | .objectPropertyAsValue path => path ++ " is an object property; add an edge instead"
  | .notAnObjectProperty path => path ++ " is not an object property"
  | .targetClassMismatch target expected => "target " ++ target ++ " is not a " ++ expected
  | .duplicateNodeId id => "a node with id " ++ id ++ " already exists"
  | .inheritanceCycle iri => "inheritance cycle through class " ++ iri

def GraphError.ofResolveError : ResolveError → GraphError
  | .unknownClass iri => .unknownClass iri
  | .inheritanceCycle iri => .inheritanceCycle iri

namespace InstanceGraph

/-! ## Looking things up -/

def node? (g : InstanceGraph) (id : String) : Option Node := g.nodes.find? (·.id = id)

/-- The node with an identifier, which has to exist. -/
def existing (g : InstanceGraph) (id : String) : Except GraphError Node :=
  match g.node? id with
  | some n => .ok n
  | none => .error (.unknownNode id)

def edge? (g : InstanceGraph) (id : String) : Option Edge := g.edges.find? (·.id = id)

def outEdges (g : InstanceGraph) (id : String) : List Edge := g.edges.filter (·.source = id)

def inEdges (g : InstanceGraph) (id : String) : List Edge := g.edges.filter (·.target = id)

def outEdgeCount (g : InstanceGraph) (id path : String) : Nat :=
  ((g.outEdges id).filter (·.path = path)).length

def entryCount (g : InstanceGraph) (id path : String) : Nat :=
  ((g.node? id).map fun n ↦ (n.entriesOf path).length).getD 0 + g.outEdgeCount id path

def isFull (g : InstanceGraph) (id : String) (cp : ClassProperty) : Bool :=
  cp.maxCount.any (· ≤ g.entryCount id cp.path)

/-- As `isFull`, for a node that has to exist. -/
def reachedMaxCount (g : InstanceGraph) (id : String) (cp : ClassProperty) :
    Except GraphError Bool :=
  (g.existing id).map fun _ ↦ g.isFull id cp

end InstanceGraph

end OntoGraph.Graph
