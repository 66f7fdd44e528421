import OntoGraph.Ontology.Datatype
import OntoGraph.Ontology.Naming
import OntoGraph.SortedMap

/-!
# Ontology models

A model groups the entities of an ontology by profile: classes with the properties they declare,
properties, vocabularies with their entries, and individuals. Beside the groups it holds an index
by IRI. Where several entities have one IRI, the index keeps the one that comes last in the order
of profiles, kinds and names.
-/

namespace OntoGraph.Ontology

/-- A selectable member of an enumerated property. -/
structure ValueOption where
  label : String
  value : String
  deriving DecidableEq, Repr

/-- The option for an IRI, labelled with its last segment. -/
def ValueOption.ofIri (iri : String) : ValueOption := ⟨lastSegment iri, iri⟩

inductive NodeKind where
  | literal
  | iri
  | blankNodeOrIri
  deriving DecidableEq, Repr

def NodeKind.name : NodeKind → String
  | .literal => "Literal"
  | .iri => "IRI"
  | .blankNodeOrIri => "BlankNodeOrIRI"

def NodeKind.ofName? : String → Option NodeKind
  | "Literal" => some .literal
  | "IRI" => some .iri
  | "BlankNodeOrIRI" => some .blankNodeOrIri
  | _ => none

/-- What kind of values a class property has. -/
inductive Constraint where
  /-- Literals of a datatype. -/
  | literal (datatype : Datatype)
  /-- Members of an enumeration. -/
  | enumerated (options : List ValueOption)
  /-- Instances of a class. -/
  | object (target : String)
  deriving DecidableEq, Repr

def Constraint.nodeKind : Constraint → NodeKind
  | .literal _ => .literal
  | .enumerated _ => .iri
  | .object _ => .blankNodeOrIri

/-- A property as a class declares it. -/
structure ClassProperty where
  /-- The IRI of the declaring class. -/
  parentClass : String
  /-- The IRI of the property. -/
  path : String
  /-- The last segment of the path. -/
  name : String
  minCount : Option Nat := none
  maxCount : Option Nat := none
  constraint : Constraint
  deriving DecidableEq, Repr

namespace ClassProperty

def target? (cp : ClassProperty) : Option String :=
  match cp.constraint with
  | .object target => some target
  | _ => none

def datatype? (cp : ClassProperty) : Option Datatype :=
  match cp.constraint with
  | .literal datatype => some datatype
  | _ => none

def options? (cp : ClassProperty) : Option (List ValueOption) :=
  match cp.constraint with
  | .enumerated options => some options
  | _ => none

/-- Are the values instances of a class? -/
def isObject (cp : ClassProperty) : Bool := cp.target?.isSome

/-- Is at least one value required? -/
def isRequired (cp : ClassProperty) : Bool := cp.minCount.any (1 ≤ ·)

/-- Of the declarations of each path the first, unless the path was seen before. -/
def firstOfEachPath : (seen : List String) → List ClassProperty → List ClassProperty
  | _, [] => []
  | seen, cp :: rest =>
    if seen.contains cp.path then firstOfEachPath seen rest
    else cp :: firstOfEachPath (cp.path :: seen) rest

end ClassProperty

structure Class where
  iri : String
  name : String
  profileName : String
  summary : Option String := none
  description : Option String := none
  /-- Abstract classes have no instances of their own. -/
  isAbstract : Bool := false
  /-- The IRI of the parent class. -/
  subClassOf : Option String := none
  /-- The properties that the class itself declares, by name. -/
  properties : SortedMap ClassProperty := ∅
  deriving DecidableEq

/-- Whether a property relates to literals or to other resources. -/
inductive PropertyKind where
  | datatype
  | object
  deriving DecidableEq, Repr

structure Property where
  iri : String
  name : String
  profileName : String
  summary : Option String := none
  description : Option String := none
  kind : PropertyKind
  range : Option String := none
  deriving DecidableEq

def Property.datatypeName? (p : Property) : Option String :=
  match p.kind with
  | .datatype => p.range.map localName
  | .object => none

/-- A member of a vocabulary. -/
structure VocabularyEntry where
  iri : String
  name : String
  profileName : String
  summary : Option String := none
  deriving DecidableEq

/-- A class whose instances are the members of an enumeration. -/
structure Vocabulary where
  iri : String
  name : String
  profileName : String
  summary : Option String := none
  description : Option String := none
  /-- The entries by IRI. -/
  entries : SortedMap VocabularyEntry := ∅
  deriving DecidableEq

/-- A named individual of a declared range. -/
structure Individual where
  iri : String
  name : String
  profileName : String
  summary : Option String := none
  description : Option String := none
  range : String
  deriving DecidableEq

/-- The entities of one profile, each kind by name. -/
structure Profile where
  iri : Option String := none
  name : Option String := none
  summary : Option String := none
  description : Option String := none
  classes : SortedMap Class := ∅
  properties : SortedMap Property := ∅
  vocabularies : SortedMap Vocabulary := ∅
  individuals : SortedMap Individual := ∅
  deriving DecidableEq, Inhabited

inductive Entity where
  | ofClass (c : Class)
  | ofProperty (p : Property)
  | ofVocabulary (v : Vocabulary)
  | ofIndividual (i : Individual)
  deriving DecidableEq

namespace Entity

def iri : Entity → String
  | .ofClass c => c.iri
  | .ofProperty p => p.iri
  | .ofVocabulary v => v.iri
  | .ofIndividual i => i.iri

def name : Entity → String
  | .ofClass c => c.name
  | .ofProperty p => p.name
  | .ofVocabulary v => v.name
  | .ofIndividual i => i.name

end Entity

/-- The entities of a profile in the order in which they are indexed. -/
def Profile.entities (p : Profile) : List Entity :=
  p.classes.values.map .ofClass ++ p.properties.values.map .ofProperty
    ++ p.vocabularies.values.map .ofVocabulary ++ p.individuals.values.map .ofIndividual

structure OntologyInfo where
  iri : Option String := none
  version : Option String := none
  summary : Option String := none
  deriving DecidableEq

/-- A model: profiles by name, and every entity by IRI. -/
structure Model where
  info : OntologyInfo := {}
  profiles : SortedMap Profile := ∅
  index : SortedMap Entity := ∅
  /-- Every entity of the index stands under its own IRI. -/
  keyed : ∀ pair ∈ index.toList, pair.2.iri = pair.1 := by rintro _ ⟨⟩
  deriving DecidableEq

instance : Inhabited Model := ⟨{}⟩

namespace Model

/-- The index of the entities of some profiles; the last entity with an IRI is kept. -/
def indexOf (profiles : SortedMap Profile) : SortedMap Entity :=
  .ofList ((profiles.values.flatMap Profile.entities).map fun e ↦ (e.iri, e))

theorem keyed_indexOf (profiles : SortedMap Profile) :
    ∀ pair ∈ (indexOf profiles).toList, pair.2.iri = pair.1 := by
  intro pair h
  obtain ⟨entity, -, rfl⟩ := List.mem_map.1 (SortedMap.mem_ofList h)
  rfl

def ofProfiles (info : OntologyInfo) (profiles : SortedMap Profile) : Model :=
  { info, profiles, index := indexOf profiles, keyed := keyed_indexOf profiles }

def entity? (m : Model) (iri : String) : Option Entity := m.index.get? iri

def class? (m : Model) (iri : String) : Option Class :=
  match m.entity? iri with
  | some (.ofClass c) => some c
  | _ => none

def property? (m : Model) (iri : String) : Option Property :=
  match m.entity? iri with
  | some (.ofProperty p) => some p
  | _ => none

def vocabulary? (m : Model) (iri : String) : Option Vocabulary :=
  match m.entity? iri with
  | some (.ofVocabulary v) => some v
  | _ => none

def classNamed? (m : Model) (profile name : String) : Option Class :=
  (m.profiles.get? profile).bind (·.classes.get? name)

def classes (m : Model) : List Class := m.profiles.values.flatMap (·.classes.values)

def classCount (m : Model) : Nat := m.classes.length

def propertyCount (m : Model) : Nat := (m.profiles.values.flatMap (·.properties.values)).length

def vocabularyCount (m : Model) : Nat := (m.profiles.values.flatMap (·.vocabularies.values)).length

def individualCount (m : Model) : Nat := (m.profiles.values.flatMap (·.individuals.values)).length

end Model

end OntoGraph.Ontology
