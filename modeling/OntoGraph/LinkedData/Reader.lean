import OntoGraph.LinkedData.Expansion
import OntoGraph.LinkedData.Statement

/-!
# Reading linked data

A JSON-LD document is read in three steps: its text as JSON, the JSON as an expanded document, and
the expanded document as triples. The names of graphs are not kept.
-/

namespace OntoGraph.LinkedData

open Rdf

/-- The base of documents, which come from nowhere in particular. -/
def documentBase : String := "x-string://"

mutual

/-- The number of values and members in a value, itself included. -/
def size : Json → Nat
  | .array items => sizeOfItems items + 1
  | .object members => sizeOfMembers members + 1
  | _ => 1

def sizeOfItems : List Json → Nat
  | [] => 0
  | item :: items => size item + sizeOfItems items

def sizeOfMembers : List (String × Json) → Nat
  | [] => 0
  | (_, value) :: members => size value + sizeOfMembers members + 1

end

/-- The store of a document. Context documents are taken from `documents`, by IRI. A document
nests no deeper than its size, and each context document is under way at most once at a time, so
that their sizes bound the depth of every recursion. -/
def toStore? (documents : SortedMap String) (document : Json) : Option Store := do
  let bound := (documents.values.map String.length).foldl (· + ·) (size document)
  let setting : Setting :=
    { documents, base := documentBase, contextFuel := 8 * bound + 8 }
  let items ← expandDocument? setting (4 * bound + 8) document
  storeOf? (8 * bound + 8) items

def read? (documents : SortedMap String) (text : String) : Option Store :=
  (Json.read? text).bind (toStore? documents)

end OntoGraph.LinkedData
