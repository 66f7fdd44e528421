import OntoGraph.Iri.Grammar
import OntoGraph.Rdf.Names
import OntoGraph.Text.LanguageTag
import OntoGraph.Text.NameCharacter

/-!
# The tokens of Turtle

Each reader takes one token from the start of the input and gives back the rest. None of them
skips white space first.
-/

namespace OntoGraph.Turtle

open Text Number

def isSpace (c : Char) : Bool := c == ' ' || c == '\t' || c == '\r' || c == '\n'

def isLineEnd (c : Char) : Bool := c == '\r' || c == '\n'

/-- The input after white space and comments. A comment runs to the end of its line. -/
def skipSpace (input : List Char) : List Char := go false input
where
  go (inComment : Bool) : List Char → List Char
    | [] => []
    | c :: rest =>
      if inComment then go (!isLineEnd c) rest
      else if isSpace c then go false rest
      else if c = '#' then go true rest
      else c :: rest

/-! ## Escapes -/

def stringEscape? : Char → Option Char
  | 't' => some '\t'
  | 'b' => some '\x08'
  | 'n' => some '\n'
  | 'r' => some '\r'
  | 'f' => some '\x0c'
  | '"' => some '"'
  | '\'' => some '\''
  | '\\' => some '\\'
  | _ => none

/-- The character given by `n` hexadecimal digits. -/
def readCode? (n : Nat) (input : List Char) : Option (Char × List Char) := do
  let (code, rest) ← takeHex? n input
  let c ← character? code
  return (c, rest)

def readCodeEscape? : List Char → Option (Char × List Char)
  | 'u' :: rest => readCode? 4 rest
  | 'U' :: rest => readCode? 8 rest
  | _ => none

def readStringEscape? (input : List Char) : Option (Char × List Char) :=
  match readCodeEscape? input with
  | some found => some found
  | none =>
    match input with
    | c :: rest => (stringEscape? c).map (·, rest)
    | [] => none

/-! ## IRIs and names -/

/-- The text of an IRI after its opening angle bracket. `fuel` bounds the number of characters and
`read` holds those read so far, last first. -/
def readIriText? : (fuel : Nat) → (read : List Char) → List Char → Option (String × List Char)
  | 0, _, _ => none
  | _ + 1, _, [] => none
  | _ + 1, read, '>' :: rest => some (String.ofList read.reverse, rest)
  | fuel + 1, read, '\\' :: rest => do
    let (c, rest) ← readCodeEscape? rest
    readIriText? fuel (c :: read) rest
  | fuel + 1, read, c :: rest => readIriText? fuel (c :: read) rest

/-- An IRI in angle brackets. Without a base it has to be absolute; with one it is resolved. -/
def readIri? (base : Option String) (input : List Char) : Option (String × List Char) := do
  let rest ← after? ['<'] input
  let (reference, rest) ← readIriText? (rest.length + 1) [] rest
  match base with
  | none => if Iri.isAbsolute .numericPort reference then some (reference, rest) else none
  | some base =>
    if Iri.isReference .numericPort reference then some (Iri.resolve base reference, rest)
    else none

/-- Characters of a name with points inside it: a point belongs to the name when another character
of the name follows. `more` tells the characters that may follow a point. -/
def takeName (inside : Char → Bool) (more : Char → Bool) : List Char → List Char × List Char
  | [] => ([], [])
  | c :: rest =>
    if inside c then
      let (name, rest) := takeName inside more rest
      (c :: name, rest)
    else if c = '.' && (rest.dropWhile (· == '.')).head?.any more then
      let (name, rest) := takeName inside more rest
      ('.' :: name, rest)
    else ([], c :: rest)

def readLabel? (input : List Char) : Option (String × List Char) := do
  let rest ← after? ['_', ':'] input
  match rest with
  | c :: rest =>
    if isLabelStart c || isAsciiDigit c then
      let (name, rest) := takeName isNameChar isNameChar rest
      some (String.ofList (c :: name), rest)
    else none
  | [] => none

def readNamespaceName? (input : List Char) : Option (String × List Char) :=
  match input with
  | ':' :: rest => some ("", rest)
  | c :: rest =>
    if isNameStart c then
      let name := rest.takeWhile fun c ↦ isNameChar c || c == '.'
      match rest.drop name.length with
      | ':' :: rest =>
        if name.getLast? = some '.' then none else some (String.ofList (c :: name), rest)
      | _ => none
    else none
  | [] => none

/-- The characters that a backslash keeps as they are in a local name. -/
def localEscapes : List Char := "_~.-!$&'()*+,;=/?#@%".toList

/-- One character of a local name that is written with a percent sign or a backslash, as it stands
in the IRI. -/
def readLocalEscape? : List Char → Option (List Char × List Char)
  | '%' :: a :: b :: rest =>
    if Iri.isHexDigit a && Iri.isHexDigit b then some (['%', a, b], rest) else none
  | '\\' :: c :: rest => if localEscapes.contains c then some ([c], rest) else none
  | _ => none

/-- May the character go on with a local name after points? -/
def continuesLocal (c : Char) : Bool := isNameChar c || c == ':' || c == '%' || c == '\\'

/-- The rest of a local name after its first character. `fuel` bounds the number of characters. -/
def readLocalRest? : (fuel : Nat) → List Char → Option (List Char × List Char)
  | 0, _ => none
  | _ + 1, [] => some ([], [])
  | fuel + 1, c :: rest =>
    if c = '%' ∨ c = '\\' then do
      let (here, rest) ← readLocalEscape? (c :: rest)
      let (name, rest) ← readLocalRest? fuel rest
      return (here ++ name, rest)
    else if isNameChar c || c == ':' ||
        (c == '.' && (rest.dropWhile (· == '.')).head?.any continuesLocal) then do
      let (name, rest) ← readLocalRest? fuel rest
      return (c :: name, rest)
    else some ([], c :: rest)

def readLocal? (input : List Char) : Option (List Char × List Char) :=
  match input with
  | c :: _ =>
    if c == '%' || c == '\\' || c == ':' || isLabelStart c || isAsciiDigit c then
      readLocalRest? (input.length + 1) input
    else some ([], input)
  | [] => some ([], [])

/-! ## Literals -/

/-- The rest of a string between single marks. `fuel` bounds the number of characters and `read`
holds those read so far, last first. -/
def readShortString? (quote : Char) :
    (fuel : Nat) → (read : List Char) → List Char → Option (String × List Char)
  | 0, _, _ => none
  | _ + 1, _, [] => none
  | fuel + 1, read, c :: rest =>
    if c = quote then some (String.ofList read.reverse, rest)
    else if c = '\\' then do
      let (c, rest) ← readStringEscape? rest
      readShortString? quote fuel (c :: read) rest
    else if isLineEnd c then none
    else readShortString? quote fuel (c :: read) rest

def readLongString? (quote : Char) :
    (fuel : Nat) → (read : List Char) → List Char → Option (String × List Char)
  | 0, _, _ => none
  | _ + 1, _, [] => none
  | fuel + 1, read, c :: rest =>
    if c = quote ∧ rest.take 2 = [quote, quote] then
      some (String.ofList read.reverse, rest.drop 2)
    else if c = '\\' then do
      let (c, rest) ← readStringEscape? rest
      readLongString? quote fuel (c :: read) rest
    else readLongString? quote fuel (c :: read) rest

/-- A string with its marks: single or double, once or three times. -/
def readString? (input : List Char) : Option (String × List Char) :=
  match input with
  | quote :: rest =>
    if quote = '"' ∨ quote = '\'' then
      if rest.take 2 = [quote, quote] then
        readLongString? quote (rest.length + 1) [] (rest.drop 2)
      else readShortString? quote (rest.length + 1) [] rest
    else none
  | [] => none

/-- A language tag after its at sign, in lower case. -/
def readLanguage? (input : List Char) : Option (String × List Char) :=
  let tag := input.takeWhile fun c ↦ Iri.isLetter c || isAsciiDigit c || c == '-'
  let text := asciiLower (String.ofList tag)
  if isLanguageTag text then some (text, input.drop tag.length) else none

def readExponent? : List Char → Option (List Char × List Char)
  | e :: rest =>
    let (sign, rest) := match rest with
      | '+' :: rest => (['+'], rest)
      | '-' :: rest => (['-'], rest)
      | rest => ([], rest)
    let digits := rest.takeWhile isAsciiDigit
    if digits = [] then none else some (e :: sign ++ digits, rest.drop digits.length)
  | [] => none

/-- A number as it is spelled, and its datatype. A point belongs to the number when a digit or an
exponent follows it. -/
def readNumber? (input : List Char) : Option (String × String × List Char) := do
  let (sign, rest) := match input with
    | '+' :: rest => (['+'], rest)
    | '-' :: rest => (['-'], rest)
    | rest => ([], rest)
  let whole := rest.takeWhile isAsciiDigit
  let rest := rest.drop whole.length
  let goesOn (c : Char) : Bool := isAsciiDigit c || c == 'e' || c == 'E'
  let fraction? := match rest with
    | '.' :: c :: after =>
      if goesOn c then some ((c :: after).takeWhile isAsciiDigit) else none
    | _ => none
  let (written, rest) := match fraction? with
    | some fraction => (sign ++ whole ++ '.' :: fraction, rest.drop (fraction.length + 1))
    | none => (sign ++ whole, rest)
  let digits := whole.length + (fraction?.getD []).length
  match rest with
  | c :: _ =>
    if c = 'e' ∨ c = 'E' then
      if digits = 0 then none
      else
        let (exponent, rest) ← readExponent? rest
        return (String.ofList (written ++ exponent), Rdf.xsdDouble, rest)
    else finish written digits fraction? rest
  | [] => finish written digits fraction? rest
where
  finish (written : List Char) (digits : Nat) (fraction? : Option (List Char))
      (rest : List Char) : Option (String × String × List Char) :=
    if digits = 0 then none
    else
      match fraction? with
      | none => some (String.ofList written, Rdf.xsdInteger, rest)
      | some [] => none
      | some _ => some (String.ofList written, Rdf.xsdDecimal, rest)

end OntoGraph.Turtle
