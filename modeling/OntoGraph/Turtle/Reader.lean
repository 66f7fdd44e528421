import OntoGraph.Turtle.Token
import OntoGraph.Rdf.Store
import OntoGraph.SortedMap

/-!
# Reading Turtle

A document is a sequence of directives and statements. Statements are collected in the order in
which they are complete: those inside brackets and parentheses come before the statement they are
an object of. Statements about quoted triples have no term to stand for their subject or object,
and are left out.
-/

namespace OntoGraph.Turtle

open Rdf Text

/-- What the directives read so far have laid down, and the stem of the labels for blank nodes
without one. -/
structure Scope where
  namespaces : SortedMap String := {}
  base : Option String := none
  stem : String := "b"

/-- The state of a reader: the input that is left, the statements found so far, last first, and
the number of blank nodes that had no label. -/
structure State where
  input : List Char
  found : List Triple := []
  unlabelled : Nat := 0

/-- A reader gives up at the first error. -/
abbrev Reader := StateT State Option

/-- A term, or nothing in place of a quoted triple. -/
abbrev Node := Option Term

/-! ## Steps -/

def token {α : Type} (read : List Char → Option (α × List Char)) : Reader α := do
  let s ← get
  let (a, rest) ← read s.input
  set { s with input := rest }
  return a

/-- Skips white space and comments. -/
def space : Reader Unit := modify fun s ↦ { s with input := skipSpace s.input }

/-- The next character, which is left where it is. -/
def peek : Reader (Option Char) := return (← get).input.head?

def expect (cs : String) : Reader Unit :=
  token fun input ↦ (after? cs.toList input).map ((), ·)

/-- Records a statement, unless it is about a quoted triple. -/
def emit (subject : Node) (predicate : String) (object : Node) : Reader Unit :=
  match subject, object with
  | some subject, some object =>
    modify fun s ↦ { s with found := ⟨subject, predicate, object⟩ :: s.found }
  | _, _ => pure ()

/-- A blank node for which the document has no label. -/
def freshNode (scope : Scope) : Reader Term := do
  let s ← get
  set { s with unlabelled := s.unlabelled + 1 }
  return .blank (scope.stem ++ toString s.unlabelled)

/-! ## Names and literals -/

def prefixedName (scope : Scope) : Reader String := do
  let name ← token readNamespaceName?
  let space ← scope.namespaces.get? name
  let rest ← token readLocal?
  return space ++ String.ofList rest

/-- An IRI in brackets or a prefixed name. -/
def iri (scope : Scope) : Reader String := do
  if (← peek) = some '<' then token (readIri? scope.base) else prefixedName scope

/-- A predicate: an IRI, or `a` for `rdf:type`. -/
def verb (scope : Scope) : Reader String := do
  match (← get).input with
  | 'a' :: rest =>
    if rest.head?.any fun c ↦ isNameChar c || c == '.' || c == ':' || c.toNat > 0x7F then
      iri scope
    else
      expect "a"
      return rdfType
  | _ => iri scope

def stringLiteral (scope : Scope) : Reader Term := do
  let lexical ← token readString?
  space
  match ← peek with
  | some '@' =>
    expect "@"
    return .inLanguage lexical (← token readLanguage?)
  | some '^' =>
    expect "^^"
    space
    return .typed lexical (← iri scope)
  | _ => return .typed lexical xsdString

def numberLiteral : Reader Term := do
  let (lexical, datatype) ← token fun input ↦
    (readNumber? input).map fun (lexical, datatype, rest) ↦ ((lexical, datatype), rest)
  return .typed lexical datatype

def startsWithWord (word : String) (input : List Char) : Bool :=
  match after? word.toList input with
  | some (c :: _) => !isNameChar c && c != ':' && c.toNat ≤ 0x7F
  | some [] => true
  | none => false

/-- A boolean or an IRI. -/
def wordObject (scope : Scope) : Reader Term := do
  let input := (← get).input
  if startsWithWord "true" input then
    expect "true"
    return .typed "true" xsdBoolean
  else if startsWithWord "false" input then
    expect "false"
    return .typed "false" xsdBoolean
  else return .iri (← iri scope)

/-- A labelled blank node, or brackets with nothing between them. -/
def blankNode (scope : Scope) : Reader Term := do
  if (← peek) = some '_' then return .blank (← token readLabel?)
  else
    expect "["
    space
    expect "]"
    freshNode scope

def isEmptyBrackets (input : List Char) : Bool :=
  match input with
  | '[' :: rest => (rest.dropWhile isSpace).head? == some ']'
  | _ => false

def startsNumber (c : Char) : Bool :=
  Number.isAsciiDigit c || c == '+' || c == '-' || c == '.'

/-! ## Statements -/

mutual

/-- The triple between `<<` and `>>`. Its parts are read and dropped. -/
def quotedTriple (scope : Scope) : (fuel : Nat) → Reader Unit
  | 0 => failure
  | fuel + 1 => do
    expect "<<"
    space
    quotedPart scope fuel false
    space
    let _ ← verb scope
    space
    quotedPart scope fuel true
    space
    expect ">>"

def quotedPart (scope : Scope) : (fuel : Nat) → (literals : Bool) → Reader Unit
  | 0, _ => failure
  | fuel + 1, literals => do
    match (← get).input with
    | '<' :: '<' :: _ => quotedTriple scope fuel
    | c :: _ =>
      if c = '_' ∨ c = '[' then
        let _ ← blankNode scope
      else if literals && (c = '"' || c = '\'') then
        let _ ← stringLiteral scope
      else if literals && startsNumber c then
        let _ ← numberLiteral
      else if literals then
        let _ ← wordObject scope
      else
        let _ ← iri scope
    | [] => failure

end

mutual

/-- An object, after the statements inside it. -/
def object (scope : Scope) : (fuel : Nat) → Reader Node
  | 0 => failure
  | fuel + 1 => do
    let input := (← get).input
    match input with
    | '<' :: '<' :: rest =>
      quotedTriple scope (rest.length + 2)
      return none
    | '(' :: _ => return some (← collection scope fuel)
    | '[' :: _ =>
      if isEmptyBrackets input then return some (← blankNode scope)
      else return some (← propertyList scope fuel)
    | '_' :: _ => return some (← blankNode scope)
    | c :: _ =>
      if c = '"' ∨ c = '\'' then return some (← stringLiteral scope)
      else if startsNumber c then return some (← numberLiteral)
      else return some (← wordObject scope)
    | [] => failure

/-- The statements between brackets, about a blank node of their own. -/
def propertyList (scope : Scope) : (fuel : Nat) → Reader Term
  | 0 => failure
  | fuel + 1 => do
    expect "["
    space
    let node ← freshNode scope
    predicatesToBracket scope fuel (some node)
    return node

/-- Predicates with their objects up to the closing bracket. Between brackets the semicolon may be
left out. -/
def predicatesToBracket (scope : Scope) : (fuel : Nat) → (subject : Node) → Reader Unit
  | 0, _ => failure
  | fuel + 1, subject => do
    predicateObjects scope fuel subject
    if (← peek) = some ']' then expect "]"
    else predicatesToBracket scope fuel subject

def collection (scope : Scope) : (fuel : Nat) → Reader Term
  | 0 => failure
  | fuel + 1 => do
    expect "("
    space
    if (← peek) = some ')' then
      expect ")"
      return .iri rdfNil
    else
      let node ← freshNode scope
      collectionFrom scope fuel node
      return node

def collectionFrom (scope : Scope) : (fuel : Nat) → (node : Term) → Reader Unit
  | 0, _ => failure
  | fuel + 1, node => do
    let item ← object scope fuel
    emit (some node) rdfFirst item
    space
    if (← peek) = some ')' then
      expect ")"
      emit (some node) rdfRest (some (.iri rdfNil))
    else
      let next ← freshNode scope
      emit (some node) rdfRest (some next)
      collectionFrom scope fuel next

def objects (scope : Scope) : (fuel : Nat) → (subject : Node) → (predicate : String) → Reader Unit
  | 0, _, _ => failure
  | fuel + 1, subject, predicate => do
    let node ← object scope fuel
    emit subject predicate node
    space
    if (← peek) = some '\x7b' then
      expect "\x7b|"
      space
      predicateObjects scope fuel none
      expect "|\x7d"
      space
    if (← peek) = some ',' then
      expect ","
      space
      objects scope fuel subject predicate

def predicateObjects (scope : Scope) : (fuel : Nat) → (subject : Node) → Reader Unit
  | 0, _ => failure
  | fuel + 1, subject => do
    let predicate ← verb scope
    space
    objects scope fuel subject predicate
    if (← peek) = some ';' then
      modify fun s ↦ { s with input := skipSemicolons s.input.length s.input }
      match ← peek with
      | none => pure ()
      | some c =>
        if c = '.' ∨ c = ']' ∨ c = '\x7d' then pure ()
        else predicateObjects scope fuel subject
where
  skipSemicolons : Nat → List Char → List Char
    | fuel + 1, ';' :: rest => skipSemicolons fuel (skipSpace rest)
    | _, input => input

end

def statement (scope : Scope) (fuel : Nat) : Reader Unit := do
  let input := (← get).input
  match input with
  | '[' :: _ =>
    if isEmptyBrackets input then ordinary
    else
      let node ← propertyList scope fuel
      space
      if (← peek) ≠ some '.' then predicateObjects scope fuel (some node)
  | _ => ordinary
  expect "."
where
  subject : Reader Node := do
    match (← get).input with
    | '_' :: _ => return some (← blankNode scope)
    | '[' :: _ => return some (← blankNode scope)
    | '(' :: _ => return some (← collection scope fuel)
    | '<' :: '<' :: _ =>
      quotedTriple scope fuel
      return none
    | _ => return some (.iri (← iri scope))
  ordinary : Reader Unit := do
    let node ← subject
    space
    predicateObjects scope fuel node

/-! ## Documents -/

/-- What follows a keyword that stands as a word of its own, in any mixture of cases. -/
def afterKeyword? (word : String) (input : List Char) : Option (List Char) :=
  let n := word.length
  if asciiLower (String.ofList (input.take n)) = word ∧ n ≤ input.length then
    match input.drop n with
    | [] => some []
    | c :: rest => if isSpace c then some (c :: rest) else none
  else none

def namespaceDeclaration (scope : Scope) : Reader Scope := do
  space
  let name ← token readNamespaceName?
  space
  let space ← token (readIri? scope.base)
  return { scope with namespaces := scope.namespaces.insert name space }

def baseDeclaration (scope : Scope) : Reader Scope := do
  space
  let base ← token (readIri? scope.base)
  return { scope with base := some base }

def item (scope : Scope) (fuel : Nat) : Reader Scope := do
  let s ← get
  match after? "@prefix".toList s.input with
  | some rest =>
    set { s with input := rest }
    closed (← namespaceDeclaration scope)
  | none =>
  match after? "@base".toList s.input with
  | some rest =>
    set { s with input := rest }
    closed (← baseDeclaration scope)
  | none =>
  match afterKeyword? "base" s.input with
  | some rest =>
    set { s with input := rest }
    baseDeclaration scope
  | none =>
  match afterKeyword? "prefix" s.input with
  | some rest =>
    set { s with input := rest }
    namespaceDeclaration scope
  | none =>
    statement scope fuel
    return scope
where
  closed (scope : Scope) : Reader Scope := do
    space
    expect "."
    return scope

/-- The items of a document up to its end. `fuel` bounds the number of steps in each of them and
`rounds` the number of items. -/
def items (fuel : Nat) : (rounds : Nat) → (scope : Scope) → Reader Unit
  | 0, _ => failure
  | rounds + 1, scope => do
    space
    if (← get).input = [] then pure ()
    else items fuel rounds (← item scope fuel)

def usesStem (stem : List Char) : List Char → Bool
  | [] => false
  | c :: rest => (after? ('_' :: ':' :: stem) (c :: rest)).isSome || usesStem stem rest

/-- A stem that no label of the input starts with; `fuel` bounds its length. -/
def unusedStem (input : List Char) : (fuel : Nat) → (stem : List Char) → List Char
  | 0, stem => stem
  | fuel + 1, stem => if usesStem stem input then unusedStem input fuel ('b' :: stem) else stem

def readTriples? (text : String) : Option (List Triple) := do
  let input := text.toList
  let stem := String.ofList (unusedStem input input.length ['b'])
  let fuel := 4 * input.length + 8
  let (_, s) ← (items fuel fuel { stem }).run { input }
  return s.found.reverse

def read? (text : String) : Option Store := (readTriples? text).map Store.ofList

end OntoGraph.Turtle
