import OntoGraph.Json.Basic
import OntoGraph.Ontology.Resolver

/-!
# Snapshots of models

A model is handed to front ends as JSON: the profiles with their entities, and the entities by
IRI. A field without a value is left out.
-/

namespace OntoGraph.Ontology

/-- The members for the fields that have a value. -/
def present (fields : List (String × Option Json)) : List (String × Json) :=
  fields.filterMap fun (name, value?) ↦ value?.map (name, ·)

def mapJson {α : Type} (toJson : α → Json) (m : SortedMap α) : Json :=
  .ofMap (m.mapValues fun _ value ↦ toJson value)

def entityFields (iri name profileName : String) (summary description : Option String) :
    List (String × Option Json) :=
  [("iri", some (.string iri)), ("name", some (.string name)),
    ("profileName", some (.string profileName)), ("summary", summary.map .string),
    ("description", description.map .string)]

def ValueOption.toJson (o : ValueOption) : Json :=
  .ofMembers [("label", .string o.label), ("value", .string o.value)]

def Constraint.fields (c : Constraint) : List (String × Option Json) :=
  ("nodeKind", some (.string c.nodeKind.name)) ::
    match c with
    | .literal datatype => [("datatype", some (.string datatype.name))]
    | .enumerated options => [("options", some (.array (options.map (·.toJson))))]
    | .object target => [("targetClass", some (.string target))]

def ClassProperty.toJson (cp : ClassProperty) : Json :=
  .ofMembers <| present <|
    [("parentClass", some (.string cp.parentClass)), ("path", some (.string cp.path)),
      ("name", some (.string cp.name)), ("minCount", cp.minCount.map fun n ↦ .ofInt n),
      ("maxCount", cp.maxCount.map fun n ↦ .ofInt n)] ++ cp.constraint.fields

def Class.toJson (c : Class) : Json :=
  .ofMembers <| present <|
    entityFields c.iri c.name c.profileName c.summary c.description ++
    [("abstract", some (.bool c.isAbstract)), ("subClassOf", c.subClassOf.map .string),
      ("properties", some (mapJson ClassProperty.toJson c.properties))]

def PropertyKind.name : PropertyKind → String
  | .datatype => "Datatype"
  | .object => "Object"

def Property.toJson (p : Property) : Json :=
  .ofMembers <| present <|
    entityFields p.iri p.name p.profileName p.summary p.description ++
    [("kind", some (.string p.kind.name)), ("range", p.range.map .string)]

def VocabularyEntry.toJson (e : VocabularyEntry) : Json :=
  .ofMembers (present (entityFields e.iri e.name e.profileName e.summary none))

def Vocabulary.toJson (v : Vocabulary) : Json :=
  .ofMembers <| present <|
    entityFields v.iri v.name v.profileName v.summary v.description ++
    [("entries", some (mapJson VocabularyEntry.toJson v.entries))]

def Individual.toJson (i : Individual) : Json :=
  .ofMembers <| present <|
    entityFields i.iri i.name i.profileName i.summary i.description ++
    [("range", some (.string i.range))]

def Entity.toJson : Entity → Json
  | .ofClass c => c.toJson
  | .ofProperty p => p.toJson
  | .ofVocabulary v => v.toJson
  | .ofIndividual i => i.toJson

def Profile.toJson (p : Profile) : Json :=
  .ofMembers <| present
    [("iri", p.iri.map .string), ("name", p.name.map .string), ("summary", p.summary.map .string),
      ("description", p.description.map .string),
      ("classes", some (mapJson Class.toJson p.classes)),
      ("properties", some (mapJson Property.toJson p.properties)),
      ("vocabularies", some (mapJson Vocabulary.toJson p.vocabularies)),
      ("individuals", some (mapJson Individual.toJson p.individuals))]

def OntologyInfo.toJson (info : OntologyInfo) : Json :=
  .ofMembers <| present
    [("iri", info.iri.map .string), ("version", info.version.map .string),
      ("summary", info.summary.map .string)]

def ChainLink.toJson (link : ChainLink) : Json :=
  .ofMembers
    [("classIri", .string link.classIri), ("className", .string link.className),
      ("properties", mapJson ClassProperty.toJson link.properties)]

namespace Model

def profilesJson (m : Model) : Json := mapJson Profile.toJson m.profiles

def indexJson (m : Model) : Json := mapJson Entity.toJson m.index

end Model

end OntoGraph.Ontology
