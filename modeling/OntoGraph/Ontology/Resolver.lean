import OntoGraph.Ontology.Model

/-!
# Inheritance

The chain of a class lists the class itself, its parent and so on up to the root, each with the
properties that it declares itself. A chain cannot be resolved when it meets an IRI that is no
class, or one that it met before. A resolver remembers the chains of the current model that it has
resolved.
-/

namespace OntoGraph.Ontology

/-- Why a chain is not resolved. -/
inductive ResolveError where
  /-- The IRI is no class of the model. -/
  | unknownClass (iri : String)
  /-- The chain comes back to this class. -/
  | inheritanceCycle (iri : String)
  deriving DecidableEq, Repr

def ResolveError.message : ResolveError → String
  | .unknownClass iri => "unknown class: " ++ iri
  | .inheritanceCycle iri => "inheritance cycle through class " ++ iri

/-- One class of a chain, with the properties that it declares. -/
structure ChainLink where
  classIri : String
  className : String
  properties : SortedMap ClassProperty
  deriving DecidableEq

/-- A class and its ancestors, nearest first. -/
abbrev Chain := List ChainLink

namespace Chain

def iris (chain : Chain) : List String := chain.map (·.classIri)

def hasClass (chain : Chain) (iri : String) : Bool := chain.any (·.classIri == iri)

def link? (chain : Chain) (iri : String) : Option ChainLink := chain.find? (·.classIri = iri)

/-- The declarations of all classes, nearest class first and by name within a class. -/
def declarations (chain : Chain) : List ClassProperty := chain.flatMap (·.properties.values)

def nearest? (chain : Chain) (path : String) : Option ClassProperty :=
  (declarations chain).find? (·.path = path)

/-- The declarations that ask for at least one value. -/
def required (chain : Chain) : List ClassProperty :=
  (declarations chain).filter ClassProperty.isRequired

end Chain

namespace Model

/-- The chain from `iri` on, when the IRIs in `visited` may not come again. `fuel` bounds the
number of links. -/
def chainFrom (m : Model) :
    (fuel : Nat) → (visited : List String) → (iri : String) → Except ResolveError Chain
  | fuel, visited, iri =>
    if visited.contains iri then .error (.inheritanceCycle iri)
    else
      match m.class? iri with
      | none => .error (.unknownClass iri)
      | some c =>
        let link : ChainLink := ⟨c.iri, c.name, c.properties⟩
        match fuel, c.subClassOf with
        | _, none => .ok [link]
        | 0, some parent => .error (.unknownClass parent)
        | fuel + 1, some parent => (chainFrom m fuel (iri :: visited) parent).map (link :: ·)

/-- The chain of the class with an IRI. A chain without repetition is no longer than the index. -/
def chain (m : Model) (iri : String) : Except ResolveError Chain :=
  m.chainFrom (m.index.size + 1) [] iri

end Model

/-- A model with the chains that were resolved in it. -/
structure Resolver where
  model : Model
  cache : SortedMap Chain := ∅

namespace Resolver

def isCached (r : Resolver) (iri : String) : Bool := r.cache.contains iri

/-- A resolver over another model, which remembers nothing. -/
def replaceModel (_ : Resolver) (model : Model) : Resolver := { model }

/-- The chain of a class, which is remembered if there is one. -/
def chain (r : Resolver) (iri : String) : Except ResolveError Chain × Resolver :=
  match r.cache.get? iri with
  | some chain => (.ok chain, r)
  | none =>
    match r.model.chain iri with
    | .ok chain => (.ok chain, { r with cache := r.cache.insert iri chain })
    | .error error => (.error error, r)

def inheritanceList (r : Resolver) (iri : String) :
    Except ResolveError (List String) × Resolver :=
  let (chain, r) := r.chain iri
  (chain.map Chain.iris, r)

def isSubclassOf (r : Resolver) (iri ancestor : String) : Except ResolveError Bool × Resolver :=
  let (chain, r) := r.chain iri
  (chain.map (Chain.hasClass · ancestor), r)

def warmEach (r : Resolver) : List Class → Except ResolveError Nat × Resolver
  | [] => (.ok 0, r)
  | c :: rest =>
    match r.chain c.iri with
    | (.error error, r) => (.error error, r)
    | (.ok _, r) =>
      let (count, r) := r.warmEach rest
      (count.map (· + 1), r)

/-- Resolves every class of the model, and counts them. -/
def warm (r : Resolver) : Except ResolveError Nat × Resolver := r.warmEach r.model.classes

end Resolver

end OntoGraph.Ontology
