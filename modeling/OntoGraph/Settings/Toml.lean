import OntoGraph.Number.Reading
import OntoGraph.Text.Scan

/-!
# Settings files

Settings are written in TOML: one key with its value to a line. Keys stand for themselves, so that
this module reads no tables. Text is between quotes of either kind, on one line or on several, and
numbers are whole or fractional.
-/

namespace OntoGraph.Settings

open Text Number

inductive Setting where
  | text (value : String)
  | number (value : Float)
  | truth (value : Bool)
  | array (items : List Setting)

/-! ## Blanks -/

def isBlank (c : Char) : Bool := c == ' ' || c == '\t'

def skipBlanks (input : List Char) : List Char := input.dropWhile isBlank

/-- A character that may stand in a comment or in text as it is. -/
def isVisible (c : Char) : Bool := c == '\t' || (0x20 ≤ c.toNat && c != '\x7f')

def afterLineEnd? : List Char → Option (List Char)
  | '\n' :: rest => some rest
  | '\r' :: '\n' :: rest => some rest
  | _ => none

def skipComment (input : List Char) : List Char :=
  match input with
  | '#' :: rest => rest.dropWhile isVisible
  | _ => input

/-- The input after blanks, comments and ends of lines. `fuel` bounds the number of lines. -/
def skipLines : (fuel : Nat) → List Char → List Char
  | 0, input => input
  | fuel + 1, input =>
    let input := skipComment (skipBlanks input)
    match afterLineEnd? input with
    | some rest => skipLines fuel rest
    | none => input

/-! ## Text -/

def readEscape? : List Char → Option (Char × List Char)
  | 'b' :: rest => some ('\x08', rest)
  | 't' :: rest => some ('\t', rest)
  | 'n' :: rest => some ('\n', rest)
  | 'f' :: rest => some ('\x0c', rest)
  | 'r' :: rest => some ('\r', rest)
  | '"' :: rest => some ('"', rest)
  | '\\' :: rest => some ('\\', rest)
  | 'u' :: rest => do
    let (code, rest) ← takeHex? 4 rest
    return (← character? code, rest)
  | 'U' :: rest => do
    let (code, rest) ← takeHex? 8 rest
    return (← character? code, rest)
  | _ => none

/-- The rest of a text on one line, with escapes if it is between double quotes. `fuel` bounds the
number of characters and `read` holds those read so far, last first. -/
def readLine? (quote : Char) :
    (fuel : Nat) → (read : List Char) → List Char → Option (String × List Char)
  | 0, _, _ => none
  | _ + 1, _, [] => none
  | fuel + 1, read, c :: rest =>
    if c = quote then some (String.ofList read.reverse, rest)
    else if c = '\\' ∧ quote = '"' then do
      let (c, rest) ← readEscape? rest
      readLine? quote fuel (c :: read) rest
    else if isVisible c then readLine? quote fuel (c :: read) rest
    else none

/-- The input after a backslash that ends a line: the blanks and line ends that follow do not
count. -/
def afterContinuation? (fuel : Nat) (input : List Char) : Option (List Char) :=
  (afterLineEnd? (skipBlanks input)).map (skip fuel)
where
  skip : (fuel : Nat) → List Char → List Char
    | 0, input => input
    | fuel + 1, input =>
      match afterLineEnd? (skipBlanks input) with
      | some rest => skip fuel rest
      | none => skipBlanks input

/-- The rest of a text on several lines. It ends in three quotes, and may have up to two more
before them. Every end of a line is read as one line feed. -/
def readLines? (quote : Char) :
    (fuel : Nat) → (read : List Char) → List Char → Option (String × List Char)
  | 0, _, _ => none
  | _ + 1, _, [] => none
  | fuel + 1, read, c :: rest =>
    let quotes := ((c :: rest).takeWhile (· = quote)).length
    if 3 ≤ quotes then
      let extra := min (quotes - 3) 2
      some (String.ofList (List.replicate extra quote ++ read).reverse,
        (c :: rest).drop (extra + 3))
    else if c = '\\' ∧ quote = '"' then
      match afterContinuation? fuel rest with
      | some rest => readLines? quote fuel read rest
      | none => do
        let (c, rest) ← readEscape? rest
        readLines? quote fuel (c :: read) rest
    else
      match afterLineEnd? (c :: rest) with
      | some rest => readLines? quote fuel ('\n' :: read) rest
      | none => if isVisible c then readLines? quote fuel (c :: read) rest else none

/-- A text in quotes; `several` allows texts on several lines. A line end right after the opening
quotes is not part of the text. -/
def readText? (several : Bool) : List Char → Option (String × List Char)
  | [] => none
  | quote :: rest =>
    if quote ≠ '"' ∧ quote ≠ '\'' then none
    else
      match if several then after? [quote, quote] rest else none with
      | some rest => readLines? quote (rest.length + 1) [] ((afterLineEnd? rest).getD rest)
      | none => readLine? quote (rest.length + 1) [] rest

/-! ## Numbers -/

/-- The characters of a numeral without the underscores between digits. An underscore stands
between two digits. -/
def digitsOf? (isDigit : Char → Bool) : List Char → Option (List Char)
  | [] => none
  | [c] => if isDigit c then some [c] else none
  | c :: '_' :: rest => if isDigit c then (digitsOf? isDigit rest).map (c :: ·) else none
  | c :: rest => if isDigit c then (digitsOf? isDigit rest).map (c :: ·) else none

def readInBase? (base : Nat) (cs : List Char) : Option Nat := do
  let digits ← digitsOf? (fun c ↦ (hexDigit? c).any (· < base)) cs
  digits.foldlM (fun n c ↦ (hexDigit? c).map (base * n + ·)) 0

/-- A whole number of sixty-four bits as a double. -/
def ofWord? (n : Int) : Option Float :=
  if -(twoTo 63) ≤ n ∧ n < twoTo 63 then
    some (if n < 0 then -Float.ofNat n.natAbs else Float.ofNat n.natAbs)
  else none

/-- The digits before the point: a single zero, or digits that do not start with one. -/
def wholeDigits? (cs : List Char) : Option (List Char) := do
  let digits ← digitsOf? isAsciiDigit cs
  if digits.head? = some '0' ∧ digits.length ≠ 1 then none else some digits

def exponentOf? (cs : List Char) : Option Int := do
  let (negative, rest) := takeSign cs
  let digits ← digitsOf? isAsciiDigit rest
  return if negative then -(ofDigits digits : Int) else ofDigits digits

/-- A number without its sign: digits, then a fraction, an exponent or both. A fractional number
beyond the range of doubles is refused. -/
def readUnsigned? (negative : Bool) (cs : List Char) : Option Float := do
  let isMark (c : Char) : Bool := c == 'e' || c == 'E'
  let mantissa := cs.takeWhile fun c ↦ !isMark c
  let exponent ← match cs.dropWhile fun c ↦ !isMark c with
    | [] => some none
    | _ :: rest => (exponentOf? rest).map some
  let (whole, fraction) ← match splitOnce? '.' mantissa with
    | none => (wholeDigits? mantissa).map (·, none)
    | some (whole, fraction) => do
      let whole ← wholeDigits? whole
      let fraction ← digitsOf? isAsciiDigit fraction
      some (whole, some fraction)
  match fraction, exponent with
  | none, none => ofWord? (if negative then -(ofDigits whole : Int) else ofDigits whole)
  | fraction, exponent =>
    let x := Numeral.toFloat
      { negative, whole, fraction := fraction.getD [], exponent := exponent.getD 0 }
    if magnitude x = .infinite ∧ !negative then none else some x

def readNumber? (cs : List Char) : Option Float :=
  match cs with
  | '0' :: 'x' :: rest => (readInBase? 16 rest).bind fun n ↦ ofWord? n
  | '0' :: 'o' :: rest => (readInBase? 8 rest).bind fun n ↦ ofWord? n
  | '0' :: 'b' :: rest => (readInBase? 2 rest).bind fun n ↦ ofWord? n
  | cs =>
    let (negative, rest) := takeSign cs
    if rest = ['i', 'n', 'f'] then some (withSign negative (1.0 / 0.0))
    else if rest = ['n', 'a', 'n'] then some (withSign negative (0.0 / 0.0))
    else readUnsigned? negative rest

/-! ## Values and lines -/

def isWordChar (c : Char) : Bool :=
  isAsciiDigit c || ('a' ≤ c && c ≤ 'z') || ('A' ≤ c && c ≤ 'Z') || "_+-.".toList.contains c

mutual

/-- A value at the start of the input, and what follows it. `fuel` bounds the number of steps. -/
def readValue? : (fuel : Nat) → List Char → Option (Setting × List Char)
  | 0, _ => none
  | _ + 1, [] => none
  | fuel + 1, c :: rest =>
    if c = '[' then
      (readItems? fuel (skipLines (rest.length + 1) rest)).map fun (items, rest) ↦
        (.array items, rest)
    else if c = '"' ∨ c = '\'' then
      (readText? true (c :: rest)).map fun (text, rest) ↦ (.text text, rest)
    else
      let word := (c :: rest).takeWhile isWordChar
      let rest := (c :: rest).dropWhile isWordChar
      if word = ['t', 'r', 'u', 'e'] then some (.truth true, rest)
      else if word = ['f', 'a', 'l', 's', 'e'] then some (.truth false, rest)
      else (readNumber? word).map fun x ↦ (.number x, rest)

/-- The items of an array up to its closing bracket. There may be a comma after the last item. -/
def readItems? : (fuel : Nat) → List Char → Option (List Setting × List Char)
  | 0, _ => none
  | _ + 1, ']' :: rest => some ([], rest)
  | fuel + 1, input => do
    let (item, rest) ← readValue? fuel input
    match skipLines (rest.length + 1) rest with
    | ',' :: rest =>
      (readItems? fuel (skipLines (rest.length + 1) rest)).map fun (items, rest) ↦
        (item :: items, rest)
    | ']' :: rest => some ([item], rest)
    | _ => none

end

/-- A key: a word, or a text in quotes. -/
def readKey? (input : List Char) : Option (String × List Char) :=
  let isKeyChar (c : Char) : Bool := isWordChar c && c != '+' && c != '.'
  match input.takeWhile isKeyChar with
  | [] => readText? false input
  | word => some (String.ofList word, input.dropWhile isKeyChar)

/-- The keys of the remaining lines with their values. `fuel` bounds the number of lines. -/
def readEntries? : (fuel : Nat) → List Char → Option (List (String × Setting))
  | 0, _ => none
  | fuel + 1, input => do
    let input := skipLines (input.length + 1) input
    if input = [] then return []
    let (key, rest) ← readKey? input
    let rest ← after? ['='] (skipBlanks rest)
    let rest := skipBlanks rest
    let (value, rest) ← readValue? (rest.length + 1) rest
    let rest := skipComment (skipBlanks rest)
    if rest = [] then return [(key, value)]
    else
      let rest ← afterLineEnd? rest
      let entries ← readEntries? fuel rest
      return (key, value) :: entries

/-- The keys of a settings file with their values. A byte order mark does not count, and no key
comes twice. -/
def readSettings? (text : String) : Option (List (String × Setting)) := do
  let input := match text.toList with
    | '\ufeff' :: rest => rest
    | cs => cs
  let entries ← readEntries? (input.length + 1) input
  let keys := entries.map (·.1)
  if keys.eraseDups.length = keys.length then some entries else none

end OntoGraph.Settings
