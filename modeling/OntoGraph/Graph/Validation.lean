import OntoGraph.Graph.Basic
import OntoGraph.Text.Quoted

/-!
# Validation

Each node is checked for invalid values, for entries without a value, and for required properties
that it has too few values of. What is found is reported and changes nothing.
-/

namespace OntoGraph.Graph

open Ontology

/-! ## Required properties -/

namespace InstanceGraph

/-- The number of values of a node that count for a declaration: the valid entries of its path, or
the edges of its path for an object property. -/
def satisfyingCount (g : InstanceGraph) (n : Node) (cp : ClassProperty) : Nat :=
  if cp.isObject then g.outEdgeCount n.id cp.path
  else (n.entries.filter fun e ↦ e.isValid && e.path = cp.path).length

/-- Does the node have fewer values than the declaration asks for? -/
def isUnmet (g : InstanceGraph) (n : Node) (cp : ClassProperty) : Bool :=
  cp.minCount.any (g.satisfyingCount n cp < ·)

/-- The declarations that ask for more values than the node has. A path is listed once, with the
nearest such declaration. -/
def unmetRequired (g : InstanceGraph) (n : Node) : List ClassProperty :=
  ClassProperty.firstOfEachPath [] (n.chain.declarations.filter (g.isUnmet n))

end InstanceGraph

/-! ## Reports -/

inductive Severity where
  | pass
  | warning
  | failure
  deriving DecidableEq, Repr

/-- What a check found out about a node. -/
structure Finding where
  check : String
  node : String
  severity : Severity
  message : String
  details : List String := []
  deriving DecidableEq, Repr

/-- Findings in the order of the nodes. -/
abbrev Report := List Finding

namespace Report

def count (r : Report) (s : Severity) : Nat := (r.filter (·.severity = s)).length

/-- Is there no failure? -/
def isClean (r : Report) : Bool := r.all (·.severity ≠ .failure)

end Report

def invalidDetail (e : Entry) : String :=
  match e.value with
  | some v => e.property.name ++ " = " ++ Text.quoted v.lexical
  | none => e.property.name ++ " has no value"

def emptyDetail (e : Entry) : String := e.property.name ++ " is empty and will not be exported"

def unmetDetail (cp : ClassProperty) : String :=
  "missing " ++ (if cp.isObject then "edge" else "value") ++ " " ++ cp.name ++ " (minCount "
    ++ toString (cp.minCount.getD 0) ++ ")"

/-- How a node is called in messages. -/
def Node.caption (n : Node) : String := n.cls.name ++ " " ++ n.id

namespace InstanceGraph

def checkValues (n : Node) : Finding :=
  match (n.entries.filter (!·.isValid)).map invalidDetail with
  | [] =>
    { check := "node/values", node := n.id, severity := .pass
      message := n.caption ++ ": all values valid" }
  | details =>
    { check := "node/values", node := n.id, severity := .failure
      message := n.caption ++ ": " ++ toString details.length ++ " invalid value(s)"
      details }

def checkEmpty (n : Node) : List Finding :=
  match (n.entries.filter fun e ↦ e.isValid && e.value.isNone).map emptyDetail with
  | [] => []
  | details =>
    [{ check := "node/empty", node := n.id, severity := .warning
       message := n.caption ++ ": " ++ toString details.length ++ " empty optional value(s)"
       details }]

def checkRequired (g : InstanceGraph) (n : Node) : Finding :=
  match (g.unmetRequired n).map unmetDetail with
  | [] =>
    { check := "node/required", node := n.id, severity := .pass
      message := n.caption ++ ": required properties met" }
  | details =>
    { check := "node/required", node := n.id, severity := .failure
      message := n.caption ++ ": " ++ toString details.length ++ " unmet required property(ies)"
      details }

def validateNode (g : InstanceGraph) (n : Node) : Report :=
  checkValues n :: checkEmpty n ++ [g.checkRequired n]

def validateNodes (g : InstanceGraph) (nodes : List Node) : Report :=
  nodes.flatMap g.validateNode

def validate (g : InstanceGraph) : Report := g.validateNodes g.nodes

end InstanceGraph

end OntoGraph.Graph
