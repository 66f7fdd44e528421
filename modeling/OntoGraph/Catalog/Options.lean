import OntoGraph.Catalog.Csv
import OntoGraph.Ontology.Model
import OntoGraph.Text.Blank

/-!
# Catalogs of options

Some lists of values are too large for an ontology. A catalog attaches such lists to the paths of
properties. They extend the members of an enumeration, and they narrow the values of a literal
property.
-/

namespace OntoGraph.Catalog

open Ontology

/-- Lists of options by the path of the property that they belong to. -/
structure OptionCatalog where
  lists : SortedMap (List ValueOption) := ∅
  deriving DecidableEq, Inhabited

namespace OptionCatalog

def options (c : OptionCatalog) (path : String) : List ValueOption := (c.lists.get? path).getD []

/-- Adds options for a path after those that it has. -/
def extend (c : OptionCatalog) (path : String) (options : List ValueOption) : OptionCatalog :=
  ⟨c.lists.insert path (c.options path ++ options)⟩

def hasOptions (c : OptionCatalog) (path : String) : Bool := !(c.options path).isEmpty

def contains (c : OptionCatalog) (path value : String) : Bool :=
  (c.options path).any (·.value == value)

/-- All options of a class property: the members of its enumeration, then those of the catalog. -/
def optionsFor (c : OptionCatalog) (cp : ClassProperty) : List ValueOption :=
  cp.options?.getD [] ++ c.options cp.path

end OptionCatalog

/-- A table of options that is not text. -/
inductive CatalogError where
  | malformed
  deriving DecidableEq, Repr

/-- The option of a record: its first field is the label and its second the value. A record
without a value stands for no option. -/
def optionOf? (fields : List String) : Option ValueOption :=
  match fields.map Text.trim with
  | label :: value :: _ => if value = "" then none else some ⟨label, value⟩
  | _ => none

def readMediaTypes (table : List UInt8) : Except CatalogError (List ValueOption) :=
  match (records table).tail.mapM fun fields ↦
    fields.mapM fun bytes ↦ String.fromUTF8? (ByteArray.mk bytes.toArray) with
  | some records => .ok (records.filterMap optionOf?)
  | none => .error .malformed

end OntoGraph.Catalog
