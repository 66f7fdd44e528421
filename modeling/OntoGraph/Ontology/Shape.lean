import OntoGraph.Ontology.Model
import OntoGraph.Rdf.Store

/-!
# Property shapes

The shapes of a class say which properties it declares. A shape is read field by field; a field
that occurs again replaces what was read before. A shape that has no path, whose path is no
property, or whose kind of values cannot be told declares nothing.
-/

namespace OntoGraph.Ontology

open Rdf

/-- The pattern by which a shape marks semantic versions. -/
def versionPattern : String :=
  r"^(0|[1-9]\d*)\.(0|[1-9]\d*)\.(0|[1-9]\d*)(?:-((?:0|[1-9]\d*|\d*[a-zA-Z-][0-9a-zA-Z-]*)(?:\.(?:0|[1-9]\d*|\d*[a-zA-Z-][0-9a-zA-Z-]*))*))?(?:\+([0-9a-zA-Z-]+(?:\.[0-9a-zA-Z-]+)*))?$"

/-- The pattern by which a shape marks media types. -/
def mediaTypePattern : String := r"^[^\/]+\/[^\/]+$"

structure ShapeFields where
  path : Option String := none
  minCount : Option Nat := none
  maxCount : Option Nat := none
  nodeKind : Option NodeKind := none
  datatype : Option String := none
  patternType : Option Datatype := none
  target : Option String := none
  options : Option (List ValueOption) := none

/-- A count: digits after an optional plus sign, for a number of at most thirty-two bits. -/
def readCount? (s : String) : Option Nat :=
  let digits := match s.toList with
    | '+' :: rest => rest
    | cs => cs
  if digits ≠ [] ∧ digits.all Number.isAsciiDigit ∧ Number.ofDigits digits < Number.twoTo 32 then
    some (Number.ofDigits digits)
  else none

/-- The datatype that a pattern marks. -/
def patternType? (pattern : String) : Option Datatype :=
  if pattern = versionPattern then some .semVer
  else if pattern = mediaTypePattern then some .mediaType
  else none

/-- The fields with one more statement about the shape. -/
def ShapeFields.read (store : Store) (fields : ShapeFields) (t : Triple) : ShapeFields :=
  let object := t.object
  match localName t.predicate with
  | "path" => { fields with path := object.iri? }
  | "minCount" => { fields with minCount := object.lexical?.bind readCount? }
  | "maxCount" => { fields with maxCount := object.lexical?.bind readCount? }
  | "in" =>
    { fields with
      options := (store.list? object).map fun items ↦
        (items.filterMap Term.iri?).map ValueOption.ofIri }
  | "nodeKind" =>
    { fields with nodeKind := object.iri?.bind fun iri ↦ NodeKind.ofName? (localName iri) }
  | "datatype" => { fields with datatype := object.iri?.map localName }
  | "pattern" =>
    { fields with patternType := (object.lexical?.bind patternType?) <|> fields.patternType }
  | "class" => { fields with target := object.iri? }
  | _ => fields

def shapeFields (store : Store) (shape : Term) : ShapeFields :=
  (store.triplesOf shape).toList.foldl (ShapeFields.read store) {}

/-- The node kind of a shape: as stated, else as its other fields imply. -/
def ShapeFields.kind? (fields : ShapeFields) : Option NodeKind :=
  fields.nodeKind <|>
    if fields.options.isSome then some .iri
    else if fields.target.isSome then some .blankNodeOrIri
    else if fields.datatype.isSome then some .literal
    else none

/-- The constraint that a shape lays on its values. The class of an object has to be a class of
the ontology. -/
def ShapeFields.constraint? (fields : ShapeFields) (classIris : List String) :
    Option Constraint :=
  match fields.kind?, fields.options, fields.target with
  | some .literal, _, _ =>
    (fields.patternType <|> fields.datatype.bind Datatype.ofName?).map .literal
  | some _, some options, _ => some (.enumerated options)
  | some _, none, some target =>
    if classIris.contains target then some (.object target) else none
  | _, _, _ => none

/-- The property that a shape declares on a class. -/
def compileShape? (store : Store) (classIri : String) (shape : Term) (classIris : List String)
    (properties : SortedMap Property) : Option ClassProperty := do
  let fields := shapeFields store shape
  let path ← fields.path
  if !properties.contains path then failure
  let constraint ← fields.constraint? classIris
  return {
    parentClass := classIri
    path
    name := lastSegment path
    minCount := fields.minCount
    maxCount := fields.maxCount
    constraint }

end OntoGraph.Ontology
