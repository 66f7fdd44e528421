import OntoGraph.Json.Reader

/-!
# The normal form of a JSON document

In normal form the members of an object are in the order of their names, the last of those with
one name being kept, and each number has one spelling: a whole number that fits in sixty-four bits
is written in full, every other number is the text of a double. A document nests at most 127
arrays and objects, and a number beyond the range of doubles is refused.
-/

namespace OntoGraph.Json

open Number

/-- Scales a number by a power of ten, one step of at most 308 places at a time; `none` when the
result is not finite. `fuel` bounds the number of steps. -/
def scale? : (fuel : Nat) → Float → Int → Option Float
  | 0, x, _ => some x
  | fuel + 1, x, exponent =>
    if exponent.natAbs ≤ 308 then
      let power := Float.ofScientific 1 false exponent.natAbs
      if 0 ≤ exponent then
        let y := x * power
        if magnitude y = .infinite then none else some y
      else some (x / power)
    else if magnitude x = .finite 0 (-1074) then some x
    else if 0 ≤ exponent then none
    else scale? fuel (x / Float.ofScientific 1 false 308) (exponent + 308)

/-- Takes digits into a significand for as long as it fits in sixty-four bits. The result is the
significand and the digits that were left over. -/
def takeSignificand : (significand : Nat) → List Char → Nat × List Char
  | significand, [] => (significand, [])
  | significand, c :: rest =>
    let next := 10 * significand + (c.toNat - '0'.toNat)
    if next < twoTo 64 then takeSignificand next rest else (significand, c :: rest)

/-- The double that the document takes for a numeral: up to twenty digits as an exact whole
number, scaled by a power of ten. -/
def approximate? (n : Numeral) : Option Float :=
  let (significand, beyond) := takeSignificand 0 n.whole
  let (significand, unused) := takeSignificand significand n.fraction
  let exponent :=
    n.exponent + beyond.length - ((n.fraction.length - unused.length : Nat) : Int)
  if n.exponent.natAbs < twoTo 31 then
    (scale? 32 (Float.ofNat significand) exponent).map (withSign n.negative)
  else if significand ≠ 0 ∧ 0 < n.exponent then none
  else some (withSign n.negative 0.0)

/-- A number of a document: whole within sixty-four bits, or a double. -/
inductive Quantity where
  | whole (n : Int)
  | fractional (x : Float)

/-- The number that a spelling stands for. Minus zero is a double. -/
def quantity? (spelling : String) : Option Quantity := do
  let n ← readNumeral? spelling.toList
  if spelling.toList.any fun c ↦ c == '.' || c == 'e' || c == 'E' then
    (approximate? n).map .fractional
  else
    let value := ofDigits n.whole
    if n.negative then
      if 0 < value ∧ value ≤ twoTo 63 then return .whole (-(value : Int))
      else if value < twoTo 64 then return .fractional (-Float.ofNat value)
      else (approximate? n).map .fractional
    else if value < twoTo 64 then return .whole value
    else (approximate? n).map .fractional

def Quantity.toFloat : Quantity → Float
  | .whole n => if n < 0 then -Float.ofNat n.natAbs else Float.ofNat n.natAbs
  | .fractional x => x

/-- The one spelling of a number. -/
def Quantity.spelling : Quantity → String
  | .whole n => toString n
  | .fractional x => written documentStyle x

def float? : Json → Option Float
  | .number spelling => (quantity? spelling).map Quantity.toFloat
  | _ => none

mutual

/-- The normal form of a value in which at most `depth` further arrays and objects nest. -/
def normalizeWithin? : (depth : Nat) → Json → Option Json
  | _, .number spelling => (quantity? spelling).map fun q ↦ .number q.spelling
  | depth + 1, .array items => (normalizeItems? depth items).map .array
  | depth + 1, .object members => (normalizeMembers? depth members).map ofMembers
  | 0, .array _ => none
  | 0, .object _ => none
  | _, json => some json

def normalizeItems? : (depth : Nat) → List Json → Option (List Json)
  | _, [] => some []
  | depth, item :: items => do
    let item ← normalizeWithin? depth item
    let items ← normalizeItems? depth items
    return item :: items

def normalizeMembers? : (depth : Nat) → List (String × Json) → Option (List (String × Json))
  | _, [] => some []
  | depth, (name, value) :: members => do
    let value ← normalizeWithin? depth value
    let members ← normalizeMembers? depth members
    return (name, value) :: members

end

/-- The greatest number of arrays and objects around a value. -/
def maxDepth : Nat := 127

def normalize? (json : Json) : Option Json := normalizeWithin? maxDepth json

/-- The document that a text spells, in normal form. -/
def readDocument? (text : String) : Option Json := (read? text).bind normalize?

end OntoGraph.Json
