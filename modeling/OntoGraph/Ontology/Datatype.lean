import OntoGraph.Iri.Grammar
import OntoGraph.Number.Reading
import OntoGraph.Number.Written
import OntoGraph.Rdf.Names
import OntoGraph.Text.Blank
import OntoGraph.Text.Timestamp
import OntoGraph.Text.Version

/-!
# Datatypes and values

The values of literal properties and the lexical rules that they have to follow. A value may be
kept although it breaks its rule, so that it can be corrected in place.
-/

namespace OntoGraph.Ontology

open Rdf

inductive Value where
  | bool (value : Bool)
  | number (value : Float)
  | text (value : String)
  deriving DecidableEq

namespace Value

def lexical : Value → String
  | .bool b => if b then "true" else "false"
  | .number x => Number.written Number.valueStyle x
  | .text s => s

def text? : Value → Option String
  | .text s => some s
  | _ => none

/-- Do two values count as the same? Numbers are compared as numbers: zero has no sign, and what is
not a number differs from everything. -/
def same : Value → Value → Bool
  | .bool a, .bool b => a == b
  | .number x, .number y => x == y
  | .text s, .text t => s == t
  | _, _ => false

end Value

/-- The datatype of a literal property. -/
inductive Datatype where
  | anyUri
  | boolean
  | dateTimeStamp
  | decimal
  | nonNegativeInteger
  | positiveInteger
  | string
  | semVer
  | mediaType
  deriving DecidableEq, Repr

/-- The number that a text spells in its canonical form, blanks around it apart: the shortest
decimal without an exponent. -/
def canonicalNumber? (s : String) : Option Float :=
  let trimmed := Text.trim s
  match Number.read? trimmed with
  | some x =>
    match Number.magnitude x with
    | .finite _ _ => if Number.written Number.valueStyle x = trimmed then some x else none
    | _ => none
  | none => none

/-- Is the text a media type: two parts that are not empty, with the only slash between them? -/
def isMediaType (s : String) : Bool :=
  match Text.splitOnce? '/' s.toList with
  | some (type, subtype) => type != [] && subtype != [] && !subtype.contains '/'
  | none => false

namespace Datatype

def all : List Datatype :=
  [.anyUri, .boolean, .dateTimeStamp, .decimal, .nonNegativeInteger, .positiveInteger, .string,
    .semVer, .mediaType]

def name : Datatype → String
  | .anyUri => "anyURI"
  | .boolean => "boolean"
  | .dateTimeStamp => "dateTimeStamp"
  | .decimal => "decimal"
  | .nonNegativeInteger => "nonNegativeInteger"
  | .positiveInteger => "positiveInteger"
  | .string => "string"
  | .semVer => "SemVer"
  | .mediaType => "MediaType"

def ofName? (name : String) : Option Datatype := all.find? (·.name = name)

def xsd : Datatype → String
  | .anyUri => xsdAnyUri
  | .boolean => xsdBoolean
  | .dateTimeStamp => xsdDateTimeStamp
  | .decimal => xsdDecimal
  | .nonNegativeInteger => xsdNonNegativeInteger
  | .positiveInteger => xsdPositiveInteger
  | .string => xsdString
  | .semVer => xsdString
  | .mediaType => xsdString

def isNumeric : Datatype → Bool
  | .decimal => true
  | .nonNegativeInteger => true
  | .positiveInteger => true
  | _ => false

/-- The value that a new entry starts with. -/
def default? : Datatype → Option Value
  | .boolean => some (.bool false)
  | _ => none

/-- The value that a lexical form stands for. What is neither a boolean nor a canonical number
stays text. -/
def ofLexical (d : Datatype) (lexical : String) : Value :=
  if d = .boolean then
    if lexical = "true" ∨ lexical = "1" then .bool true
    else if lexical = "false" ∨ lexical = "0" then .bool false
    else .text lexical
  else if d.isNumeric then
    match canonicalNumber? lexical with
    | some x => .number x
    | none => .text lexical
  else .text lexical

def acceptsLexical (d : Datatype) (s : String) : Bool :=
  match d with
  | .anyUri => Iri.isAbsolute .pathCharacters s
  | .boolean => s == "true" || s == "false"
  | .dateTimeStamp => Text.isTimestamp s
  | .decimal => (canonicalNumber? s).isSome
  | .nonNegativeInteger => (canonicalNumber? s).any fun x ↦ Number.isWhole x && 0.0 ≤ x
  | .positiveInteger => (canonicalNumber? s).any fun x ↦ Number.isWhole x && 0.0 < x
  | .string => s != ""
  | .semVer => Text.isVersion s
  | .mediaType => isMediaType s

/-- Is the value one of the datatype? Booleans are the values of the boolean type and of no other;
any other value is judged by its written form. -/
def accepts (d : Datatype) (v : Value) : Bool :=
  match d, v with
  | .boolean, .bool _ => true
  | .boolean, _ => false
  | _, .bool _ => false
  | d, v => d.acceptsLexical v.lexical

end Datatype

end OntoGraph.Ontology
