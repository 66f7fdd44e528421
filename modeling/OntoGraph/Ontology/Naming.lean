import OntoGraph.Iri.Parts

/-!
# Names within IRIs

An entity is named by the last path segment of its IRI and belongs to the profile named by the
segment before it. The terms of the RDF vocabularies are named by what follows the last hash.
-/

namespace OntoGraph.Ontology

/-- The segments of an IRI, last first. -/
def segmentsFromEnd (iri : String) : List String :=
  (Iri.segments iri.toList).reverse.map String.ofList

/-- The last segment of an IRI: the name of the entity. -/
def lastSegment (iri : String) : String := (segmentsFromEnd iri)[0]?.getD ""

/-- The segment before the last: the name of the profile. -/
def parentSegment (iri : String) : String := (segmentsFromEnd iri)[1]?.getD ""

/-- What follows the last hash of an IRI, or all of it. -/
def localName (iri : String) : String :=
  String.ofList (iri.toList.reverse.takeWhile (· ≠ '#')).reverse

end OntoGraph.Ontology
