import OntoGraph.Ontology.Shape

/-!
# Compiling an ontology

A graph that describes an ontology becomes a model. Classes are the subjects of type `owl:Class`
that type nothing; those that type something are vocabularies, and what they type is their
entries. Parent links that form a cycle are refused.
-/

namespace OntoGraph.Ontology

open Rdf

/-- Why a graph is not compiled. -/
inductive CompileError where
  /-- The parent links from some class come back to this class. -/
  | inheritanceCycle (iri : String)
  deriving DecidableEq, Repr

def CompileError.message : CompileError → String
  | .inheritanceCycle iri => "inheritance cycle through class " ++ iri

def comment? (store : Store) (subject : Term) : Option String :=
  (store.object? subject rdfsComment).bind Term.lexical?

/-- What the first `owl:Ontology` of the graph says about itself. -/
def ontologyInfo (store : Store) : OntologyInfo :=
  match store.subjectsWith rdfType (.iri owlOntology) with
  | [] => {}
  | subject :: _ =>
    { iri := subject.iri?
      version := (store.object? subject owlVersionInfo).bind Term.lexical?
      summary := comment? store subject }

/-- The IRIs of the subjects of a type, in store order. -/
def irisOfType (store : Store) (type : String) : List String :=
  (store.subjectsWith rdfType (.iri type)).filterMap Term.iri?

def compileProperty (store : Store) (kind : PropertyKind) (iri : String) : Property :=
  { iri
    name := lastSegment iri
    profileName := parentSegment iri
    summary := comment? store (.iri iri)
    kind
    range := (store.object? (.iri iri) rdfsRange).bind Term.iri? }

/-- The properties by IRI. What is declared as both kinds is an object property. -/
def compileProperties (store : Store) : SortedMap Property :=
  .ofList <|
    ((irisOfType store owlDatatypeProperty).map (compileProperty store .datatype)
      ++ (irisOfType store owlObjectProperty).map (compileProperty store .object)).map
      fun p ↦ (p.iri, p)

/-- The IRIs typed `owl:Class` that type nothing: those of the classes. -/
def classIris (store : Store) : List String :=
  (irisOfType store owlClass).filter fun iri ↦ !store.isUsedAsType (.iri iri)

/-- The IRIs typed `owl:Class` that type something: those of the vocabularies. -/
def vocabularyIris (store : Store) : List String :=
  (irisOfType store owlClass).filter fun iri ↦ store.isUsedAsType (.iri iri)

/-- The class with a given IRI. Its parent is the first superclass, if that is a class. -/
def compileClass (store : Store) (classes : List String) (properties : SortedMap Property)
    (iri : String) : Class :=
  let parent := (store.object? (.iri iri) rdfsSubClassOf).bind Term.iri?
  let declared := (store.objects (.iri iri) shProperty).filterMap fun shape ↦
    compileShape? store iri shape classes properties
  { iri
    name := lastSegment iri
    profileName := parentSegment iri
    summary := comment? store (.iri iri)
    subClassOf := parent.filter classes.contains
    properties := .ofList (declared.map fun cp ↦ (cp.name, cp)) }

def compileClasses (store : Store) (properties : SortedMap Property) : SortedMap Class :=
  let iris := classIris store
  .ofList (iris.map fun iri ↦ (iri, compileClass store iris properties iri))

def compileEntry (store : Store) (iri : String) : VocabularyEntry :=
  { iri
    name := lastSegment iri
    profileName := parentSegment iri
    summary := comment? store (.iri iri) }

def compileVocabulary (store : Store) (iri : String) : Vocabulary :=
  { iri
    name := lastSegment iri
    profileName := parentSegment iri
    summary := comment? store (.iri iri)
    entries := .ofList ((irisOfType store iri).map fun entry ↦ (entry, compileEntry store entry)) }

def compileIndividual? (store : Store) (iri : String) : Option Individual :=
  ((store.object? (.iri iri) rdfsRange).bind Term.iri?).map fun range ↦
    { iri
      name := lastSegment iri
      profileName := parentSegment iri
      summary := comment? store (.iri iri)
      range }

/-! ## Cycles -/

/-- Follows the parent links from a class. The result is the first class that comes a second time;
`fuel` bounds the number of links, and the number of classes is enough. -/
def revisitedFrom (classes : SortedMap Class) :
    (fuel : Nat) → (visited : List String) → (iri : String) → Option String
  | 0, _, _ => none
  | fuel + 1, visited, iri =>
    match classes.get? iri with
    | none => none
    | some c =>
      if visited.contains c.iri then some c.iri
      else c.subClassOf.bind (revisitedFrom classes fuel (c.iri :: visited))

/-- The class that is revisited from the first class, by IRI, whose parent links do not end. -/
def cycle? (classes : SortedMap Class) : Option String :=
  classes.keys.findSome? (revisitedFrom classes (classes.size + 1) [])

/-! ## The model -/

/-- Changes the profile with a given name, which starts empty. -/
def updateProfile (profiles : SortedMap Profile) (name : String) (f : Profile → Profile) :
    SortedMap Profile :=
  profiles.insert name (f ((profiles.get? name).getD {}))

def addProperty (profiles : SortedMap Profile) (p : Property) : SortedMap Profile :=
  updateProfile profiles p.profileName fun profile ↦
    { profile with properties := profile.properties.insert p.name p }

def addClass (profiles : SortedMap Profile) (c : Class) : SortedMap Profile :=
  updateProfile profiles c.profileName fun profile ↦
    { profile with classes := profile.classes.insert c.name c }

def addVocabulary (profiles : SortedMap Profile) (v : Vocabulary) : SortedMap Profile :=
  updateProfile profiles v.profileName fun profile ↦
    { profile with vocabularies := profile.vocabularies.insert v.name v }

def addIndividual (profiles : SortedMap Profile) (i : Individual) : SortedMap Profile :=
  updateProfile profiles i.profileName fun profile ↦
    { profile with individuals := profile.individuals.insert i.name i }

/-- The model of the ontology that a graph describes. -/
def compile (store : Store) : Except CompileError Model :=
  let properties := compileProperties store
  let classes := compileClasses store properties
  match cycle? classes with
  | some iri => .error (.inheritanceCycle iri)
  | none =>
    let vocabularies := (vocabularyIris store).map (compileVocabulary store)
    let individuals := (irisOfType store owlNamedIndividual).filterMap (compileIndividual? store)
    let profiles := properties.values.foldl addProperty ∅
    let profiles := classes.values.foldl addClass profiles
    let profiles := vocabularies.foldl addVocabulary profiles
    let profiles := individuals.foldl addIndividual profiles
    .ok (.ofProfiles (ontologyInfo store) profiles)

end OntoGraph.Ontology
