import OntoGraph.Json.Normal
import OntoGraph.Ontology.Model
import OntoGraph.Text.Blank

/-!
# Metadata

A metadata document carries what the graph of an ontology does not: descriptions, and which
classes are abstract. Enriching a model copies them into the entities with the same names and
changes nothing else.
-/

namespace OntoGraph.Ontology

inductive MetadataError where
  /-- It is not JSON of the expected shape. -/
  | malformed
  /-- The file cannot be read. -/
  | unreadable (path : String)
  deriving DecidableEq, Repr

structure ItemMetadata where
  name : String := ""
  description : Option String := none
  isAbstract : Bool := false
  deriving DecidableEq, Inhabited

structure ProfileMetadata where
  name : String := ""
  iri : Option String := none
  summary : Option String := none
  description : Option String := none
  classes : SortedMap ItemMetadata := ∅
  properties : SortedMap ItemMetadata := ∅
  vocabularies : SortedMap ItemMetadata := ∅
  individuals : SortedMap ItemMetadata := ∅
  deriving DecidableEq, Inhabited

/-- A metadata document: profiles by keys of its own. -/
structure Metadata where
  profiles : SortedMap ProfileMetadata := ∅
  deriving DecidableEq, Inhabited

/-! ## Reading -/

/-- A record of a document: an object, whose known members occur once, or an array that lists the
values of the first fields in order. The result has the value of each field. -/
def record? (fields : List String) : Json → Option (List (Option Json))
  | .object members =>
    fields.mapM fun field ↦
      match members.filter (·.1 = field) with
      | [] => some none
      | [(_, value)] => some (some value)
      | _ => none
  | .array items =>
    if items.length ≤ fields.length then
      some (items.map some ++ List.replicate (fields.length - items.length) none)
    else none
  | _ => none

/-- A text, or nothing for `null` or a missing field. -/
def optionalText? : Option Json → Option (Option String)
  | none => some none
  | some .null => some none
  | some (.string s) => some (some s)
  | some _ => none

/-- A text, empty for a missing field. -/
def text? : Option Json → Option String
  | none => some ""
  | some (.string s) => some s
  | some _ => none

/-- An object as a map, empty for a missing field. -/
def map? {α : Type} (read? : Json → Option α) : Option Json → Option (SortedMap α)
  | none => some ∅
  | some (.object members) =>
    let pairs? : Option (List (String × α)) :=
      members.mapM fun (key, value) ↦ (read? value).map (key, ·)
    pairs?.map .ofList
  | some _ => none

/-- The depth that is left for the values in the table of an item. -/
def tableDepth : Nat := Json.maxDepth - 6

def ItemMetadata.ofJson? (json : Json) : Option ItemMetadata := do
  match ← record? ["name", "description", "metadata"] json with
  | [name, description, table] =>
    let name ← text? name
    let description ← optionalText? description
    let table ← map? (Json.normalizeWithin? tableDepth) table
    let isAbstract := match table.get? "Instantiability" with
      | some (.string s) => s == "Abstract"
      | _ => false
    return { name, description, isAbstract }
  | _ => none

def ProfileMetadata.ofJson? (json : Json) : Option ProfileMetadata := do
  let fields := ["name", "iri", "summary", "description", "classes", "properties",
    "vocabularies", "individuals"]
  match ← record? fields json with
  | [name, iri, summary, description, classes, properties, vocabularies, individuals] =>
    return {
      name := ← text? name
      iri := ← optionalText? iri
      summary := ← optionalText? summary
      description := ← optionalText? description
      classes := ← map? ItemMetadata.ofJson? classes
      properties := ← map? ItemMetadata.ofJson? properties
      vocabularies := ← map? ItemMetadata.ofJson? vocabularies
      individuals := ← map? ItemMetadata.ofJson? individuals }
  | _ => none

def Metadata.ofJson? (json : Json) : Option Metadata := do
  match ← record? ["namespaces"] json with
  | [profiles] => return { profiles := ← map? ProfileMetadata.ofJson? profiles }
  | _ => none

def Metadata.read (text : String) : Except MetadataError Metadata :=
  match (Json.read? text).bind Metadata.ofJson? with
  | some metadata => .ok metadata
  | none => .error .malformed

/-! ## Enriching -/

/-- The first profile with a given name, in the order of keys. -/
def Metadata.profile? (m : Metadata) (name : String) : Option ProfileMetadata :=
  m.profiles.values.find? (·.name = name)

/-- The first item with a given name, in the order of keys. -/
def itemNamed? (items : SortedMap ItemMetadata) (name : String) : Option ItemMetadata :=
  items.values.find? (·.name = name)

def profileNameOf (iri : String) : String :=
  lastSegment (String.ofList (Text.dropRightWhile (· = '/') iri.toList))

/-- Changes every entity of a map that has an item of its name. -/
def enrichEach {α : Type} (items : SortedMap ItemMetadata) (f : α → ItemMetadata → α)
    (entities : SortedMap α) : SortedMap α :=
  entities.mapValues fun name entity ↦
    match itemNamed? items name with
    | some item => f entity item
    | none => entity

/-- Copies what the metadata says about a profile into it. -/
def Profile.enrich (p : Profile) (m : ProfileMetadata) : Profile :=
  { iri := m.iri <|> p.iri
    name := m.iri.map profileNameOf <|> p.name
    summary := m.summary
    description := m.description
    classes := enrichEach m.classes
      (fun c item ↦ { c with description := item.description, isAbstract := item.isAbstract })
      p.classes
    properties := enrichEach m.properties
      (fun q item ↦ { q with description := item.description }) p.properties
    vocabularies := enrichEach m.vocabularies
      (fun v item ↦ { v with description := item.description }) p.vocabularies
    individuals := enrichEach m.individuals
      (fun i item ↦ { i with description := item.description }) p.individuals }

/-- Copies a metadata document into a model. Profiles and entities that it does not name stay as
they are. -/
def Model.enrich (model : Model) (m : Metadata) : Model :=
  .ofProfiles model.info <| model.profiles.mapValues fun name profile ↦
    match m.profile? name with
    | some found => profile.enrich found
    | none => profile

end OntoGraph.Ontology
