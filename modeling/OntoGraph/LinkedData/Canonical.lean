import OntoGraph.Json.Printer
import OntoGraph.LinkedData.Item
import OntoGraph.Rdf.Term
import OntoGraph.Text.LanguageTag

/-!
# The literals of RDF

A literal of a document becomes a literal of RDF in one canonical form. A number is whole if its
canonical JSON text is that of a whole number of sixty-four bits, and a double otherwise.
-/

namespace OntoGraph.LinkedData

open Rdf Number

def numberOf (spelling : String) : Float := (read? spelling).getD 0.0

/-- The canonical JSON text of a number. -/
def canonicalNumber (x : Float) : String :=
  if x == 0.0 then "0" else written canonicalStyle x

/-- Is the text that of a whole number of sixty-four bits? -/
def isWord (text : String) : Bool :=
  let (negative, digits) := takeSign text.toList
  digits != [] && digits.all isAsciiDigit
    && decide (ofDigits digits < (if negative then twoTo 63 + 1 else twoTo 63))

mutual

def canonicalJson : Json → Json
  | .number spelling => .number (canonicalNumber (numberOf spelling))
  | .array items => .array (canonicalItems items)
  | .object members =>
    .object ((canonicalMembers members).mergeSort fun a b ↦ decide (a.1 ≤ b.1))
  | json => json

def canonicalItems : List Json → List Json
  | [] => []
  | item :: items => canonicalJson item :: canonicalItems items

def canonicalMembers : List (String × Json) → List (String × Json)
  | [] => []
  | (name, value) :: members => (name, canonicalJson value) :: canonicalMembers members

end

/-- The lexical form of a scalar, and the datatype that it has of its own accord. -/
def lexicalOf (value : Scalar) (datatype : Option String) : String × String :=
  match value with
  | .text s => (s, xsdString)
  | .bool b => (if b then "true" else "false", xsdBoolean)
  | .number spelling =>
    let x := numberOf spelling
    let canonical := canonicalNumber x
    if isWord canonical && datatype ≠ some xsdDouble then (canonical, xsdInteger)
    else (written canonicalDoubleStyle x, xsdDouble)

/-- The RDF literal for a literal. There is none for a language tag that is malformed. Tags are
kept in lower case. -/
def Literal.toTerm? : Literal → Option Term
  | .json value => some (.typed (canonicalJson value).compact rdfJson)
  | .localized s none => some (.typed s xsdString)
  | .localized s (some tag) =>
    if Text.isLanguageTag tag then some (.inLanguage s (Text.asciiLower tag)) else none
  | .typed value datatype =>
    let (lexical, ownDatatype) := lexicalOf value datatype
    some (.typed lexical (datatype.getD ownDatatype))

end OntoGraph.LinkedData
