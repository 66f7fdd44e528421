import OntoGraph.Iri.Grammar
import OntoGraph.Json.Basic
import OntoGraph.LinkedData.Keyword
import OntoGraph.Text.NameCharacter

/-!
# Active contexts

An active context says what the keys and values of a document stand for: the base and the
vocabulary that complete relative names, the default language, and the definitions of terms.
-/

namespace OntoGraph.LinkedData

/-- What an identifier of a document refers to. -/
inductive Identifier where
  | iri (name : String)
  | blank (label : String)
  | invalid (text : String)
  deriving DecidableEq, Repr

def isBlankName (text : String) : Bool :=
  match text.toList with
  | '_' :: ':' :: c :: rest =>
    (Text.isLabelStart c || c == ':' || Number.isAsciiDigit c)
      && rest.all fun c ↦ Text.isNameChar c || c == ':'
  | _ => false

namespace Identifier

/-- What a complete name refers to. -/
def ofText (text : String) : Identifier :=
  if Iri.isAbsolute .standard text then .iri text
  else if isBlankName text then .blank text
  else .invalid text

def text : Identifier → String
  | .iri name => name
  | .blank label => label
  | .invalid text => text

/-- Does the identifier refer to something? -/
def isValid : Identifier → Bool
  | .invalid _ => false
  | _ => true

end Identifier

/-- What a name of a document stands for. -/
inductive Meaning where
  | nothing
  | keyword (k : Keyword)
  | identifier (i : Identifier)
  deriving DecidableEq, Repr

def Meaning.text : Meaning → String
  | .identifier i => i.text
  | _ => ""

/-- How the values of a term are arranged. -/
inductive Container where
  | graph
  | id
  | index
  | language
  | list
  | set
  | type
  deriving DecidableEq, Repr

/-- How the values of a term are read. -/
inductive Coercion where
  | id
  | vocab
  | json
  | none
  | datatype (iri : String)
  deriving DecidableEq, Repr

structure TermDefinition where
  meaning : Meaning := .nothing
  /-- May the term stand before the colon of a compact name? -/
  isPrefix : Bool := false
  isProtected : Bool := false
  isReverse : Bool := false
  containers : List Container := []
  coercion : Option Coercion := none
  language : Option (Option String) := none
  index : Option String := none
  nest : Option String := none
  /-- The context for the values of the term, and the base it is read against. -/
  localContext : Option (Json × String) := none
  deriving BEq

/-- The text that a compact name with the term in front starts with. -/
def TermDefinition.namespace? (d : TermDefinition) : Option String :=
  match d.meaning with
  | .identifier i => if d.isPrefix then some i.text else none
  | _ => none

/-- What the names of a document stand for at one place of it. -/
structure ActiveContext where
  base : Option String
  /-- The base of the whole document. -/
  documentBase : String
  vocab : Option Identifier := none
  language : Option String := none
  terms : SortedMap TermDefinition := ∅
  /-- The context to return to at the next node. -/
  previous : Option ActiveContext := none

namespace ActiveContext

def initial (documentBase : String) : ActiveContext :=
  { base := some documentBase, documentBase }

def term? (c : ActiveContext) (term : String) : Option TermDefinition := c.terms.get? term

/-- The parts of a name around its first colon, unless the name starts with it. -/
def compactParts? (text : String) : Option (String × String) :=
  match Text.splitOnce? ':' text.toList with
  | some (c :: front, back) => some (String.ofList (c :: front), String.ofList back)
  | _ => none

/-- What a defined term stands for. Outside of the vocabulary only aliases of keywords count. -/
def definedMeaning? (c : ActiveContext) (vocab : Bool) (text : String) : Option Meaning :=
  (c.term? text).bind fun d ↦
    match d.meaning with
    | .keyword k => some (.keyword k)
    | m => if vocab then some m else none

/-- What a name with a colon stands for: a complete name for itself, a compact name for the
joined IRI if its front names a namespace, and any other IRI for itself. -/
def compactMeaning? (c : ActiveContext) (text : String) : Option Identifier :=
  (compactParts? text).bind fun (front, back) ↦
    if front = "_" then some (if isBlankName text then .blank text else .invalid text)
    else if back.startsWith "//" then
      some (if Iri.isAbsolute .standard text then .iri text else .invalid text)
    else
      match (c.term? front).bind TermDefinition.namespace? with
      | some start => some (.ofText (start ++ back))
      | none => if Iri.isAbsolute .standard text then some (.iri text) else none

/-- What a relative name stands for: it is completed by the vocabulary, or else by the base. -/
def relativeMeaning (c : ActiveContext) (relative vocab : Bool) (text : String) : Identifier :=
  match vocab, c.vocab with
  | true, some i => .ofText (i.text ++ text)
  | _, _ =>
    if relative ∧ Iri.isReference .standard text then
      match c.base with
      | some base => .ofText (Iri.resolve base text)
      | none => if Iri.isAbsolute .standard text then .iri text else .invalid text
    else .invalid text

/-- What a name stands for. `relative` allows names relative to the base, and `vocab` names of
the vocabulary. -/
def expand (c : ActiveContext) (relative vocab : Bool) (text : String) : Meaning :=
  match Keyword.ofText? text with
  | some k => .keyword k
  | none =>
    if isKeywordLike text then .nothing
    else
      match c.definedMeaning? vocab text with
      | some m => m
      | none =>
        .identifier <|
          match c.compactMeaning? text with
          | some i => i
          | none => c.relativeMeaning relative vocab text

end ActiveContext

end OntoGraph.LinkedData
