import OntoGraph.Iri.Grammar

/-!
# The keywords of linked data

A keyword is a name after an at sign. Names of the same form that are no keywords are reserved:
they stand for nothing.
-/

namespace OntoGraph.LinkedData

inductive Keyword where
  | base
  | container
  | context
  | direction
  | graph
  | id
  | importing
  | included
  | index
  | json
  | language
  | list
  | nest
  | none
  | prefixFlag
  | propagate
  | protection
  | reverse
  | set
  | type
  | value
  | version
  | vocab
  deriving DecidableEq, Repr

namespace Keyword

def spellings : List (String × Keyword) :=
  [("@base", base), ("@container", container), ("@context", context), ("@direction", direction),
    ("@graph", graph), ("@id", id), ("@import", importing), ("@included", included),
    ("@index", index), ("@json", json), ("@language", language), ("@list", list), ("@nest", nest),
    ("@none", none), ("@prefix", prefixFlag), ("@propagate", propagate),
    ("@protected", protection), ("@reverse", reverse), ("@set", set), ("@type", type),
    ("@value", value), ("@version", version), ("@vocab", vocab)]

def ofText? (text : String) : Option Keyword := spellings.lookup text

end Keyword

/-- Does the text have the form of a keyword: an at sign and letters? -/
def isKeywordLike (text : String) : Bool :=
  match text.toList with
  | '@' :: letters => letters != [] && letters.all Iri.isLetter
  | _ => false

end OntoGraph.LinkedData
