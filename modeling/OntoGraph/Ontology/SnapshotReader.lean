import OntoGraph.Ontology.Snapshot

/-!
# Reading snapshots

A snapshot of a model is read back leniently: a name that is missing is the key of the entity, a
missing profile is taken from its IRI, and any other missing text is empty. The index of the model
is made anew.
-/

namespace OntoGraph.Ontology

def memberOf (json : Json) (name : String) : Json := (json.member? name).getD .null

def textOf (json : Json) (name : String) : String := (json.textMember? name).getD ""

def countOf? (json : Json) (name : String) : Option Nat :=
  match json.member? name with
  | some (.number spelling) => spelling.toNat?
  | _ => none

def mapOf {α : Type} (read : String → Json → α) (json : Json) (name : String) : SortedMap α :=
  .ofList <| ((memberOf json name).members?.getD []).map fun (key, value) ↦ (key, read key value)

/-- An option: its label and its value, or an IRI. -/
def ValueOption.ofJson : Json → ValueOption
  | .string iri => .ofIri iri
  | json => ⟨textOf json "label", textOf json "value"⟩

/-- The constraint of a class property. Without a node kind the values are literals. -/
def Constraint.ofJson (json : Json) : Constraint :=
  match (json.textMember? "nodeKind").bind NodeKind.ofName?, json.member? "options" with
  | some .iri, some (.array options) => .enumerated (options.map .ofJson)
  | some .iri, _ => .enumerated []
  | some .blankNodeOrIri, _ => .object (textOf json "targetClass")
  | _, _ => .literal (((json.textMember? "datatype").bind Datatype.ofName?).getD .string)

def ClassProperty.ofJson (json : Json) : ClassProperty where
  parentClass := textOf json "parentClass"
  path := textOf json "path"
  name := textOf json "name"
  minCount := countOf? json "minCount"
  maxCount := countOf? json "maxCount"
  constraint := .ofJson json

def Class.ofJson (key : String) (json : Json) : Class :=
  let iri := textOf json "iri"
  { iri
    name := (json.textMember? "name").getD key
    profileName := (json.textMember? "profileName").getD (parentSegment iri)
    summary := json.textMember? "summary"
    description := json.textMember? "description"
    isAbstract := memberOf json "abstract" == .bool true
    subClassOf := json.textMember? "subClassOf"
    properties := mapOf (fun _ ↦ ClassProperty.ofJson) json "properties" }

def Property.ofJson (key : String) (json : Json) : Property :=
  let iri := textOf json "iri"
  { iri
    name := (json.textMember? "name").getD key
    profileName := (json.textMember? "profileName").getD (parentSegment iri)
    summary := json.textMember? "summary"
    description := json.textMember? "description"
    kind := if json.textMember? "kind" = some "Object" then .object else .datatype
    range := json.textMember? "range" }

def VocabularyEntry.ofJson (key : String) (json : Json) : VocabularyEntry :=
  let iri := (json.textMember? "iri").getD key
  { iri
    name := (json.textMember? "name").getD (lastSegment iri)
    profileName := (json.textMember? "profileName").getD (parentSegment iri)
    summary := json.textMember? "summary" }

def Vocabulary.ofJson (key : String) (json : Json) : Vocabulary :=
  let iri := textOf json "iri"
  { iri
    name := (json.textMember? "name").getD key
    profileName := (json.textMember? "profileName").getD (parentSegment iri)
    summary := json.textMember? "summary"
    description := json.textMember? "description"
    entries := mapOf VocabularyEntry.ofJson json "entries" }

def Individual.ofJson (key : String) (json : Json) : Individual :=
  let iri := textOf json "iri"
  { iri
    name := (json.textMember? "name").getD key
    profileName := (json.textMember? "profileName").getD (parentSegment iri)
    summary := json.textMember? "summary"
    description := json.textMember? "description"
    range := textOf json "range" }

def Profile.ofJson (json : Json) : Profile where
  iri := json.textMember? "iri"
  name := json.textMember? "name"
  summary := json.textMember? "summary"
  description := json.textMember? "description"
  classes := mapOf Class.ofJson json "classes"
  properties := mapOf Property.ofJson json "properties"
  vocabularies := mapOf Vocabulary.ofJson json "vocabularies"
  individuals := mapOf Individual.ofJson json "individuals"

def OntologyInfo.ofJson (json : Json) : OntologyInfo where
  iri := json.textMember? "iri"
  version := json.textMember? "version"
  summary := json.textMember? "summary"

def Model.ofJson (json : Json) : Model :=
  .ofProfiles (.ofJson (memberOf json "ontology"))
    (mapOf (fun _ ↦ Profile.ofJson) json "profiles")

end OntoGraph.Ontology
