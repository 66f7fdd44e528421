import Std.Data.TreeMap
import OntoGraph.Rdf.Names

/-!
# RDF terms and triples

A term is an IRI, a blank node or a literal. Its text is the one that N-Triples gives it, where a
literal of type `xsd:string` stands without its type.
-/

namespace OntoGraph.Rdf

inductive Term where
  | iri (name : String)
  | blank (label : String)
  | literal (lexical : String) (datatype : String) (language : Option String)
  deriving DecidableEq, Hashable, Repr, Inhabited

/-- A statement; its predicate is an IRI. -/
structure Triple where
  subject : Term
  predicate : String
  object : Term
  deriving DecidableEq, Hashable, Repr, Inhabited

namespace Term

/-- A blank node; one leading `_:` of the label is not part of it. -/
def ofLabel (label : String) : Term :=
  match label.toList with
  | '_' :: ':' :: rest => .blank (String.ofList rest)
  | _ => .blank label

def typed (lexical datatype : String) : Term := .literal lexical datatype none

def inLanguage (lexical language : String) : Term := .literal lexical rdfLangString (some language)

def iri? : Term → Option String
  | .iri name => some name
  | _ => none

def lexical? : Term → Option String
  | .literal lexical _ _ => some lexical
  | _ => none

def isBlank : Term → Bool
  | .blank _ => true
  | _ => false

/-- The IRI, label or lexical form by itself. -/
def value : Term → String
  | .iri name => name
  | .blank label => label
  | .literal lexical _ _ => lexical

/-- The name of a node in a document: its IRI, or its label after `_:`. -/
def id : Term → String
  | .iri name => name
  | .blank label => "_:" ++ label
  | .literal lexical _ _ => lexical

def escapedCharacter (c : Char) : List Char :=
  match c with
  | '\\' => ['\\', '\\']
  | '"' => ['\\', '"']
  | '\n' => ['\\', 'n']
  | '\r' => ['\\', 'r']
  | c => [c]

/-- The characters of a lexical form between the quotes of a literal. -/
def escaped (lexical : String) : String :=
  String.ofList (lexical.toList.flatMap escapedCharacter)

/-- The text of a term in N-Triples. -/
def text : Term → String
  | .iri name => "<" ++ name ++ ">"
  | .blank label => "_:" ++ label
  | .literal lexical _ (some language) => "\"" ++ escaped lexical ++ "\"@" ++ language
  | .literal lexical datatype none =>
    if datatype = xsdString then "\"" ++ escaped lexical ++ "\""
    else "\"" ++ escaped lexical ++ "\"^^<" ++ datatype ++ ">"

/-- The texts that a term is made of, with its kind before them. -/
def key : Term → List String
  | .iri name => ["iri", name]
  | .blank label => ["blank", label]
  | .literal lexical datatype none => ["literal", lexical, datatype]
  | .literal lexical datatype (some language) => ["literal", lexical, datatype, language]

theorem key_injective {s t : Term} (h : s.key = t.key) : s = t := by
  unfold key at h
  split at h <;> split at h <;> simp_all

/-- The order in which an index of a store holds terms. -/
def order (s t : Term) : Ordering := compareOn key s t

instance : Std.TransCmp order := inferInstanceAs (Std.TransCmp (compareOn key))

instance : Std.LawfulEqCmp order where
  eq_of_compare h := key_injective (Std.LawfulEqCmp.eq_of_compare h)

def relabel (f : String → String) : Term → Term
  | .blank label => .blank (f label)
  | term => term

end Term

def Triple.relabel (f : String → String) (t : Triple) : Triple :=
  ⟨t.subject.relabel f, t.predicate, t.object.relabel f⟩

/-- The text of a statement without its final point. -/
def Triple.text (t : Triple) : String :=
  t.subject.text ++ " <" ++ t.predicate ++ "> " ++ t.object.text

end OntoGraph.Rdf
