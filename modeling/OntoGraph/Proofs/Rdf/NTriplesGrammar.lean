import OntoGraph.Rdf.NTriples
import OntoGraph.Turtle.Token

/-!
# A reader of N-Triples

A document of N-Triples is a sequence of lines, each with one statement, a comment or nothing on
it. No token goes over the end of a line, so that the lines can be told apart first. A text is a
document exactly if the reader gives its statements.
-/

namespace OntoGraph.Rdf.NTriples

open Text Turtle Number

/-! ## Characters -/

/-- Characters that stand for themselves between the angle brackets of an IRI. -/
def isIriChar (c : Char) : Bool := 0x20 < c.toNat && !"<>\"\x7b\x7d|^`\\".toList.contains c

/-- Can the IRI be written as it is? -/
def isIriText (name : String) : Bool := name.toList.all isIriChar

/-- Characters that stand for themselves between the quotes of a literal. -/
def isStringChar (c : Char) : Bool := c != '"' && c != '\\' && !isLineEnd c

def isLabelStart (c : Char) : Bool := Text.isLabelStart c || c == ':' || isAsciiDigit c

/-- Characters inside a label of a blank node. Points may stand between them. -/
def isLabelChar (c : Char) : Bool := isNameChar c || c == ':'

def isLabel (label : String) : Bool :=
  match label.toList with
  | [] => false
  | c :: rest =>
    isLabelStart c && rest.all (fun c ↦ isLabelChar c || c == '.') && rest.getLast? != some '.'

def isTagChar (c : Char) : Bool := Iri.isLetter c || isAsciiDigit c || c == '-'

def isTag (tag : List Char) : Bool :=
  match Iri.splitOn '-' tag with
  | [] => false
  | first :: rest =>
    first != [] && first.all Iri.isLetter
      && rest.all fun part ↦ part != [] && part.all fun c ↦ Iri.isLetter c || isAsciiDigit c

/-! ## Tokens -/

def skipBlanks (input : List Char) : List Char := input.dropWhile fun c ↦ c == ' ' || c == '\t'

/-- The text up to a closing mark, made of characters that stand for themselves and of escapes, and
the rest of the input after the mark. `fuel` bounds the number of characters. -/
def readUntil? (close : Char) (isPlain : Char → Bool)
    (readEscape? : List Char → Option (Char × List Char)) :
    (fuel : Nat) → List Char → Option (List Char × List Char)
  | fuel + 1, c :: rest =>
    if c = close then some ([], rest)
    else if c = '\\' then do
      let (c, rest) ← readEscape? rest
      let (text, rest) ← readUntil? close isPlain readEscape? fuel rest
      return (c :: text, rest)
    else if isPlain c then do
      let (text, rest) ← readUntil? close isPlain readEscape? fuel rest
      return (c :: text, rest)
    else none
  | _, _ => none

def readIri? : List Char → Option (String × List Char)
  | '<' :: rest => do
    let (text, rest) ← readUntil? '>' isIriChar readCodeEscape? rest.length rest
    return (String.ofList text, rest)
  | _ => none

def readBlank? : List Char → Option (Term × List Char)
  | '_' :: ':' :: c :: rest =>
    if isLabelStart c then
      let (name, rest) := takeName isLabelChar isLabelChar rest
      some (.blank (String.ofList (c :: name)), rest)
    else none
  | _ => none

def readNode? (input : List Char) : Option (Term × List Char) :=
  match readIri? input with
  | some (name, rest) => some (.iri name, rest)
  | none => readBlank? input

/-- A literal with a given lexical form, from what follows its quotes. -/
def readKind? (lexical : String) : List Char → Option (Term × List Char)
  | '@' :: rest =>
    let tag := rest.takeWhile isTagChar
    if isTag tag then some (.inLanguage lexical (String.ofList tag), rest.drop tag.length) else none
  | '^' :: '^' :: rest => do
    let (datatype, rest) ← readIri? (skipBlanks rest)
    return (.typed lexical datatype, rest)
  | rest => some (.typed lexical xsdString, rest)

def readObject? (input : List Char) : Option (Term × List Char) :=
  match input with
  | '"' :: rest => do
    let (text, rest) ← readUntil? '"' isStringChar readStringEscape? rest.length rest
    readKind? (String.ofList text) (skipBlanks rest)
  | _ => readNode? input

/-! ## Statements -/

/-- A statement with its final point. -/
def readStatement? (input : List Char) : Option (Triple × List Char) := do
  let (subject, rest) ← readNode? input
  let (predicate, rest) ← readIri? (skipBlanks rest)
  let (object, rest) ← readObject? (skipBlanks rest)
  let rest ← after? ['.'] (skipBlanks rest)
  return (⟨subject, predicate, object⟩, rest)

/-- Are there only blanks and a comment, if anything? -/
def isRemark (line : List Char) : Bool := (skipBlanks line).head?.all (· == '#')

def readLine? (line : List Char) : Option (Option Triple) :=
  if isRemark line then some none
  else do
    let (t, rest) ← readStatement? (skipBlanks line)
    if isRemark rest then some (some t) else none

def readLines? (lines : List (List Char)) : Option (List Triple) :=
  (lines.mapM readLine?).map (·.filterMap id)

def read? (text : String) : Option (List Triple) := readLines? (text.toList.splitOnP isLineEnd)

end OntoGraph.Rdf.NTriples
