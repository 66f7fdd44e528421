import OntoGraph.Graph.Basic

/-!
# Changing the model of a graph

A graph is carried over to another model as a whole or not at all: every class of a node has to
resolve. Values and edges that the new model does not admit are dropped; the others are bound to
the nearest declaration of their path.
-/

namespace OntoGraph.Graph

open Ontology

namespace InstanceGraph

def resolveIn (model : Model) (classIri : String) : Except GraphError (Ontology.Class × Chain) :=
  match model.class? classIri with
  | none => .error (.unknownClass classIri)
  | some cls =>
    match model.chain cls.iri with
    | .ok chain => .ok (cls, chain)
    | .error error => .error (.ofResolveError error)

/-- The entry bound to the nearest declaration of its path, unless that is missing or an object
property. -/
def reboundEntry (settings : GraphSettings) (chain : Chain) (e : Entry) : Option Entry :=
  match chain.nearest? e.path with
  | some cp =>
    if cp.isObject then none
    else some ({ e with property := cp }.revalidate settings.catalog)
  | none => none

/-- The node as an instance of its class in another model. -/
def retypeNode (settings : GraphSettings) (model : Model) (n : Node) : Except GraphError Node := do
  let (cls, chain) ← resolveIn model n.cls.iri
  return { n with
    cls
    chain
    entries := n.entries.filterMap (reboundEntry settings chain)
    isElement := settings.isElementChain model chain }

/-- The edge bound to the nearest declaration of its path at its source, unless that is missing,
is no object property, or asks for another class than the target has. -/
def reboundEdge (nodes : List Node) (e : Edge) : Option Edge := do
  let source ← nodes.find? (·.id = e.source)
  let target ← nodes.find? (·.id = e.target)
  let cp ← source.property? e.path
  let targetClass ← cp.target?
  if target.isA targetClass then some { e with property := cp } else none

def replaceModel (g : InstanceGraph) (model : Model) : Except GraphError InstanceGraph := do
  let nodes ← g.nodes.mapM (retypeNode g.settings model)
  return { g with model, nodes, edges := g.edges.filterMap (reboundEdge nodes) }

end InstanceGraph

end OntoGraph.Graph
