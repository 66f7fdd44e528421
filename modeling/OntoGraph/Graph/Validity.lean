import OntoGraph.Catalog.Options

/-!
# Valid values

Whether a value satisfies the declaration of a property, given a catalog of further options.
-/

namespace OntoGraph.Graph

open Ontology Catalog

/-- Is the value, or its absence, valid for the property? Where no value is required there may be
none. A literal has to follow the rule of its datatype and to be one of the options of the
catalog, if that has any. A member of an enumeration is one of its options or of those of the
catalog. An object property has no values. -/
def isValid (catalog : OptionCatalog) (cp : ClassProperty) (value : Option Value) : Bool :=
  match cp.constraint, value with
  | .object _, _ => false
  | _, none => !cp.isRequired
  | .literal datatype, some v =>
    datatype.accepts v && (!catalog.hasOptions cp.path || catalog.contains cp.path v.lexical)
  | .enumerated options, some v =>
    v.text?.any fun s ↦ options.any (·.value == s) || catalog.contains cp.path s

end OntoGraph.Graph
