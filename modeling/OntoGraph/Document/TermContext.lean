import OntoGraph.Json.Normal
import OntoGraph.Ontology.Model
import OntoGraph.Rdf.Names
import OntoGraph.Surroundings
import OntoGraph.Text.Lowercase

/-!
# Term contexts

Documents are written with short terms in place of IRIs. A term context holds the namespaces and
the definitions of terms that lead from the one to the other and back. It is read from a context
document or derived from a model, and it can be written as a context document again.
-/

namespace OntoGraph.Document

open Ontology

/-- Why a context document is not read. -/
inductive ContextError where
  /-- The document is no JSON object. -/
  | noObject
  /-- The `@context` of the document is no object. -/
  | nestedNoObject
  /-- The type of a term is a keyword without a meaning here. -/
  | unsupportedType (type term : String)
  /-- The document is not JSON. -/
  | malformed
  /-- The file cannot be read. -/
  | unreadable (path : String)
  /-- The URL cannot be fetched. -/
  | unreachable (url : String)
  deriving DecidableEq, Repr

def ContextError.message : ContextError → String
  | .noObject => "invalid JSON-LD context: expected a JSON object"
  | .nestedNoObject => "invalid JSON-LD context: @context must be an object"
  | .unsupportedType type term =>
    "invalid JSON-LD context: unsupported @type " ++ type ++ " for term " ++ term
  | .malformed => "failed to parse JSON-LD context"
  | .unreadable path => "failed to read " ++ path
  | .unreachable url => "failed to fetch " ++ url

/-- How the texts that are values of a term are read. -/
inductive Coercion where
  /-- As identifiers of nodes. -/
  | id
  /-- As terms of a vocabulary. -/
  | vocab
  /-- As literals of a datatype. -/
  | datatype (iri : String)
  deriving DecidableEq, Repr

structure TermDefinition where
  iri : String
  coercion : Option Coercion := none
  /-- The start of the IRIs that values of the vocabulary are completed to. -/
  vocab : Option String := none
  deriving DecidableEq, Repr

/-- The namespaces, terms and keyword aliases of a context. -/
structure TermContext where
  /-- The namespaces by the names that stand before the colon of a compact IRI. -/
  namespaces : SortedMap String := ∅
  terms : SortedMap TermDefinition := ∅
  /-- For each IRI the term that was first defined for it. -/
  termsByIri : SortedMap String := ∅
  idAlias : Option String := none
  typeAlias : Option String := none
  vocab : Option String := none
  /-- The document that the context was read from. -/
  source : Option Json := none

namespace TermContext

/-! ## Expanding and compacting -/

def term? (c : TermContext) (term : String) : Option TermDefinition := c.terms.get? term

def termFor? (c : TermContext) (iri : String) : Option (String × TermDefinition) :=
  (c.termsByIri.get? iri).bind fun term ↦ (c.term? term).map (term, ·)

def idKey (c : TermContext) : String := c.idAlias.getD "@id"

def typeKey (c : TermContext) : String := c.typeAlias.getD "@type"

def isIdKey (c : TermContext) (key : String) : Bool := key == "@id" || c.idAlias == some key

def isTypeKey (c : TermContext) (key : String) : Bool := key == "@type" || c.typeAlias == some key

/-- The IRI that a term, a compact IRI or a name of the vocabulary stands for. Every other text
with a colon stands for itself. -/
def expandIri (c : TermContext) (name : String) : String :=
  match c.term? name with
  | some definition => definition.iri
  | none =>
    if name.startsWith "_:" then name
    else
      match Text.splitOnce? ':' name.toList with
      | some (front, back) =>
        match c.namespaces.get? (String.ofList front) with
        | some start =>
          if (Text.after? ['/', '/'] back).isSome then name else start ++ String.ofList back
        | none => name
      | none =>
        match c.vocab with
        | some vocab => vocab ++ name
        | none => name

/-- What follows a given start of a text. -/
def dropStart? (start text : String) : Option String :=
  (Text.after? start.toList text.toList).map String.ofList

/-- The longer of two choices; of equally long ones the second. -/
def longer (best : Option (String × String × String)) (found : String × String × String) :
    Option (String × String × String) :=
  match best with
  | some (name, start, rest) =>
    if found.2.1.length < start.length then some (name, start, rest) else some found
  | none => some found

/-- The IRI as the name of a namespace and what follows the namespace, which has to satisfy a
condition. The longest namespace is taken, and of equally long ones the last by name. -/
def compactBy (c : TermContext) (condition : String → Bool) (iri : String) : String :=
  let found := c.namespaces.toList.filterMap fun (name, start) ↦
    ((dropStart? start iri).filter condition).map fun rest ↦ (name, start, rest)
  match found.foldl longer none with
  | some (name, _, rest) => name ++ ":" ++ rest
  | none => iri

/-- The shortest name of an IRI: its term, or a compact IRI, or the IRI itself. -/
def compactIri (c : TermContext) (iri : String) : String :=
  match c.termsByIri.get? iri with
  | some term => term
  | none => c.compactBy (· ≠ "") iri

/-- The name of a value of a term that is read in a vocabulary: what follows the start of the
vocabulary, unless that could be taken for something else. -/
def compactVocabValue (c : TermContext) (definition : TermDefinition) (iri : String) : String :=
  match definition.vocab.bind (dropStart? · iri) with
  | some name =>
    if name ≠ "" ∧ name.toList.all fun ch ↦ ch != '/' && ch != ':' && ch != '#' then name
    else c.compactIri iri
  | none => c.compactIri iri

/-! ## Reading -/

/-- Does the text end like the start of many IRIs? -/
def isNamespace (text : String) : Bool := text.endsWith "/" || text.endsWith "#"

/-- Puts a definition into a context. Neither the term nor the IRI loses what it had. -/
def define (c : TermContext) (term : String) (definition : TermDefinition) : TermContext :=
  { c with
    termsByIri := c.termsByIri.insertIfNew definition.iri term
    terms := c.terms.insertIfNew term definition }

/-- Takes a namespace, an alias or the vocabulary from a member of a context. -/
def readNamespace (c : TermContext) (key : String) (entry : Json) : TermContext :=
  match entry with
  | .string text =>
    if key = "@vocab" then { c with vocab := some text }
    else if text = "@id" then { c with idAlias := some key }
    else if text = "@type" then { c with typeAlias := some key }
    else if !key.startsWith "@" && !key.toList.contains ':' && isNamespace text then
      { c with namespaces := c.namespaces.insert key text }
    else c
  | _ => c

def readCoercion (c : TermContext) (term : String) : Option String →
    Except ContextError (Option Coercion)
  | none => .ok none
  | some "@id" => .ok (some .id)
  | some "@vocab" => .ok (some .vocab)
  | some type =>
    if type.startsWith "@" then .error (.unsupportedType type term)
    else .ok (some (.datatype (c.expandIri type)))

def readDefinition (c : TermContext) (term : String) (entry : Json) :
    Except ContextError TermDefinition := do
  let iri := c.expandIri ((entry.textMember? "@id").getD term)
  let coercion ← c.readCoercion term (entry.textMember? "@type")
  let vocab := (entry.member? "@context").bind (·.textMember? "@vocab")
  return { iri, coercion, vocab := vocab.map c.expandIri }

def readTerm (c : TermContext) (key : String) (entry : Json) : Except ContextError TermContext :=
  if key.startsWith "@" || c.namespaces.contains key then .ok c
  else
    match entry with
    | .string text =>
      if text.startsWith "@" then .ok c else .ok (c.define key { iri := c.expandIri text })
    | .object _ => (c.readDefinition key entry).map (c.define key)
    | _ => .ok c

/-- The context with the given members. Namespaces are taken first, so that terms may use them
wherever they stand. -/
def ofMembers (members : List (String × Json)) : Except ContextError TermContext :=
  let start : TermContext := { source := some (.object [("@context", .object members)]) }
  let c := members.foldl (fun c (key, entry) ↦ c.readNamespace key entry) start
  members.foldlM (fun c (key, entry) ↦ c.readTerm key entry) c

/-- The context that a document in normal form holds: its `@context`, or all of it. -/
def ofJson (document : Json) : Except ContextError TermContext :=
  match document.member? "@context" with
  | some (.object members) => ofMembers members
  | some _ => .error .nestedNoObject
  | none =>
    match document with
    | .object members => ofMembers members
    | _ => .error .noObject

def read (text : String) : Except ContextError TermContext :=
  match Json.readDocument? text with
  | some document => ofJson document
  | none => .error .malformed

def load (surroundings : Surroundings) (place : String) : Except ContextError TermContext :=
  match surroundings.read place with
  | .text content => read content
  | .unreadable path => .error (.unreadable path)
  | .unreachable url => .error (.unreachable url)

/-! ## Deriving -/

def withoutLastSegment (iri : String) : String :=
  String.ofList (iri.toList.take (iri.length - (lastSegment iri).length))

/-- The namespace of a profile: its IRI, or else where the IRIs of its entities start. -/
def namespaceOf? (profile : Profile) : Option String :=
  match profile.iri with
  | some iri => some (if isNamespace iri then iri else iri ++ "/")
  | none =>
    ((profile.classes.values.map (·.iri) ++ profile.properties.values.map (·.iri)).head?).map
      withoutLastSegment

/-- The term for an entity of a profile. The entities of the core have no mark. -/
def termName (profileName name : String) : String :=
  if profileName = "Core" then name else Text.lowercase profileName ++ "_" ++ name

/-- The definition of the term for a property. The values of an object property are read as
members of its range, if that is a vocabulary. -/
def definitionOf (model : Model) (p : Property) : TermDefinition :=
  match p.kind with
  | .object =>
    match p.range.bind model.vocabulary? with
    | some v => { iri := p.iri, coercion := some .vocab, vocab := some (v.iri ++ "/") }
    | none => { iri := p.iri, coercion := some .id }
  | .datatype => { iri := p.iri, coercion := some (.datatype (p.range.getD Rdf.xsdString)) }

/-- Adds the namespace and the terms of a profile. -/
def addProfile (model : Model) (c : TermContext) (profileName : String) (profile : Profile) :
    TermContext :=
  let c := match namespaceOf? profile with
    | some start =>
      { c with namespaces := c.namespaces.insert (Text.lowercase profileName) start }
    | none => c
  let c := profile.classes.values.foldl
    (fun c cls ↦ c.define (termName profileName cls.name) { iri := cls.iri }) c
  profile.properties.values.foldl
    (fun c p ↦ c.define (termName profileName p.name) (definitionOf model p)) c

def ofModel (model : Model) : TermContext :=
  model.profiles.toList.foldl (fun c (name, profile) ↦ c.addProfile model name profile)
    { idAlias := some "spdxId"
      typeAlias := some "type"
      namespaces := SortedMap.insert ∅ "xsd" Rdf.xsdNamespace }

/-! ## Writing -/

/-- An IRI with the name of its namespace, if it has one. -/
def withNamespace (c : TermContext) (iri : String) : String := c.compactBy (fun _ ↦ true) iri

def coercionText (c : TermContext) : Coercion → String
  | .id => "@id"
  | .vocab => "@vocab"
  | .datatype iri => c.withNamespace iri

def definitionJson (c : TermContext) (definition : TermDefinition) : Json :=
  let id : Json := .string (c.withNamespace definition.iri)
  match definition.coercion with
  | none => id
  | some coercion =>
    .ofMembers <|
      [("@id", id), ("@type", .string (c.coercionText coercion))] ++
      (match definition.vocab with
        | some vocab =>
          [("@context", .object [("@vocab", .string (c.withNamespace vocab))])]
        | none => [])

def toJson (c : TermContext) : Json :=
  let namespaces := c.namespaces.toList.map fun (name, start) ↦ (name, Json.string start)
  let settings := (c.vocab.map fun vocab ↦ ("@vocab", Json.string vocab)).toList
    ++ (c.idAlias.map fun key ↦ (key, Json.string "@id")).toList
    ++ (c.typeAlias.map fun key ↦ (key, Json.string "@type")).toList
  let terms := c.terms.toList.map fun (term, definition) ↦ (term, c.definitionJson definition)
  .object [("@context", .ofMembers (namespaces ++ settings ++ terms))]

/-- The context document that documents are read with: the one that the context was read from, or
else the context itself. -/
def document (c : TermContext) : Json := c.source.getD c.toJson

end TermContext

end OntoGraph.Document
