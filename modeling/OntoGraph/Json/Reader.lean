import OntoGraph.Json.Basic
import OntoGraph.Text.Scan

/-!
# Reading JSON

The grammar of RFC 8259. Numbers keep their spelling and objects keep their members as listed, so
that each use can take its own decision on both. An escaped surrogate is accepted only as half of
a pair.
-/

namespace OntoGraph.Json

open Text

def isSpace (c : Char) : Bool := c == ' ' || c == '\t' || c == '\n' || c == '\r'

def skipSpace (input : List Char) : List Char := input.dropWhile isSpace

def simpleEscape? : Char → Option Char
  | '"' => some '"'
  | '\\' => some '\\'
  | '/' => some '/'
  | 'b' => some '\x08'
  | 'f' => some '\x0c'
  | 'n' => some '\n'
  | 'r' => some '\r'
  | 't' => some '\t'
  | _ => none

/-- The character after `\u`: four hexadecimal digits, or two such escapes for a pair of
surrogates. -/
def readUnicodeEscape? (input : List Char) : Option (Char × List Char) := do
  let (unit, rest) ← takeHex? 4 input
  if 0xD800 ≤ unit ∧ unit < 0xDC00 then
    let rest ← after? ['\\', 'u'] rest
    let (low, rest) ← takeHex? 4 rest
    if 0xDC00 ≤ low ∧ low < 0xE000 then
      let c ← character? (0x10000 + (unit - 0xD800) * 0x400 + (low - 0xDC00))
      return (c, rest)
    else none
  else
    let c ← character? unit
    return (c, rest)

/-- The rest of a string after its opening quote; `fuel` bounds the number of characters and
`read` holds those read so far, last first. -/
def readString? : (fuel : Nat) → (read : List Char) → List Char → Option (String × List Char)
  | 0, _, _ => none
  | _ + 1, _, [] => none
  | _ + 1, read, '"' :: rest => some (String.ofList read.reverse, rest)
  | fuel + 1, read, '\\' :: 'u' :: rest => do
    let (c, rest) ← readUnicodeEscape? rest
    readString? fuel (c :: read) rest
  | fuel + 1, read, '\\' :: c :: rest => do
    let c ← simpleEscape? c
    readString? fuel (c :: read) rest
  | fuel + 1, read, c :: rest =>
    if c.toNat < 0x20 ∨ c = '\\' then none else readString? fuel (c :: read) rest

/-- At least one digit, and what follows the digits. -/
def readDigits? (input : List Char) : Option (List Char × List Char) :=
  match input.takeWhile Number.isAsciiDigit with
  | [] => none
  | digits => some (digits, input.dropWhile Number.isAsciiDigit)

def takeMinus : List Char → List Char × List Char
  | '-' :: rest => (['-'], rest)
  | input => ([], input)

def takePlusOrMinus : List Char → List Char × List Char
  | '+' :: rest => (['+'], rest)
  | '-' :: rest => (['-'], rest)
  | input => ([], input)

def readWholePart? : List Char → Option (List Char × List Char)
  | '0' :: rest => some (['0'], rest)
  | input => readDigits? input

def readFractionPart? : List Char → Option (List Char × List Char)
  | '.' :: rest => (readDigits? rest).map fun (digits, rest) ↦ ('.' :: digits, rest)
  | input => some ([], input)

def readExponentPart? : List Char → Option (List Char × List Char)
  | [] => some ([], [])
  | c :: input =>
    if c = 'e' ∨ c = 'E' then
      let (sign, rest) := takePlusOrMinus input
      (readDigits? rest).map fun (digits, rest) ↦ (c :: sign ++ digits, rest)
    else some ([], c :: input)

/-- The spelling of a number and what follows it. -/
def readNumber? (input : List Char) : Option (List Char × List Char) := do
  let (sign, rest) := takeMinus input
  let (whole, rest) ← readWholePart? rest
  let (fraction, rest) ← readFractionPart? rest
  let (exponent, rest) ← readExponentPart? rest
  return (sign ++ whole ++ fraction ++ exponent, rest)

mutual

/-- A value at the start of the input, after white space, and what follows it. `fuel` bounds the
number of steps. -/
def readValue? : (fuel : Nat) → List Char → Option (Json × List Char)
  | 0, _ => none
  | fuel + 1, input =>
    match skipSpace input with
    | '{' :: rest =>
      match skipSpace rest with
      | '}' :: rest => some (.object [], rest)
      | rest => (readMembers? fuel rest).map fun (members, rest) ↦ (.object members, rest)
    | '[' :: rest =>
      match skipSpace rest with
      | ']' :: rest => some (.array [], rest)
      | rest => (readItems? fuel rest).map fun (items, rest) ↦ (.array items, rest)
    | '"' :: rest => (readString? (rest.length + 1) [] rest).map fun (s, rest) ↦ (.string s, rest)
    | 't' :: 'r' :: 'u' :: 'e' :: rest => some (.bool true, rest)
    | 'f' :: 'a' :: 'l' :: 's' :: 'e' :: rest => some (.bool false, rest)
    | 'n' :: 'u' :: 'l' :: 'l' :: rest => some (.null, rest)
    | rest => (readNumber? rest).map fun (digits, rest) ↦ (.number (String.ofList digits), rest)

def readItems? : (fuel : Nat) → List Char → Option (List Json × List Char)
  | 0, _ => none
  | fuel + 1, input => do
    let (item, rest) ← readValue? fuel input
    match skipSpace rest with
    | ',' :: rest => (readItems? fuel rest).map fun (items, rest) ↦ (item :: items, rest)
    | ']' :: rest => some ([item], rest)
    | _ => none

def readMembers? : (fuel : Nat) → List Char → Option (List (String × Json) × List Char)
  | 0, _ => none
  | fuel + 1, input => do
    let rest ← after? ['"'] (skipSpace input)
    let (name, rest) ← readString? (rest.length + 1) [] rest
    let rest ← after? [':'] (skipSpace rest)
    let (value, rest) ← readValue? fuel rest
    match skipSpace rest with
    | ',' :: rest =>
      (readMembers? fuel rest).map fun (members, rest) ↦ ((name, value) :: members, rest)
    | '}' :: rest => some ([(name, value)], rest)
    | _ => none

end

def read? (text : String) : Option Json := do
  let input := text.toList
  let (value, rest) ← readValue? (2 * input.length + 1) input
  if skipSpace rest = [] then some value else none

end OntoGraph.Json
