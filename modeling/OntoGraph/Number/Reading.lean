import OntoGraph.Number.Shortest

/-!
# Reading numbers

Decimal numerals become the nearest double.
-/

namespace OntoGraph.Number

def isAsciiDigit (c : Char) : Bool := decide ('0' ≤ c) && decide (c ≤ '9')

def ofDigits (cs : List Char) : Nat :=
  cs.foldl (fun n c ↦ 10 * n + (c.toNat - '0'.toNat)) 0

/-- The double nearest to `digits * 10 ^ exponent`. Exponents far outside the range of doubles
give infinity or zero without computing the power. -/
def ofDecimal (digits : Nat) (exponent : Int) : Float :=
  let point := (digitCount digits : Int) + exponent
  if digits = 0 ∨ point < -330 then 0.0
  else if 330 < point then Float.ofScientific 1 false 400
  else Float.ofScientific digits (decide (exponent < 0)) exponent.natAbs

def withSign (negative : Bool) (x : Float) : Float := if negative then -x else x

/-- A decimal numeral taken apart: sign, digits before and after the point, and exponent. -/
structure Numeral where
  negative : Bool := false
  whole : List Char := []
  fraction : List Char := []
  exponent : Int := 0

/-- The double nearest to a numeral. -/
def Numeral.toFloat (n : Numeral) : Float :=
  withSign n.negative
    (ofDecimal (ofDigits (n.whole ++ n.fraction)) (n.exponent - n.fraction.length))

def takeSign : List Char → Bool × List Char
  | '-' :: rest => (true, rest)
  | '+' :: rest => (false, rest)
  | cs => (false, cs)

/-- An exponent part that fills the rest of the text; nothing stands for zero. -/
def readExponent? : List Char → Option Int
  | [] => some 0
  | c :: rest =>
    if c = 'e' ∨ c = 'E' then
      let (negative, digits) := takeSign rest
      if digits ≠ [] ∧ digits.all isAsciiDigit then
        some (if negative then -(ofDigits digits : Int) else ofDigits digits)
      else none
    else none

def takeFraction : List Char → List Char × List Char
  | '.' :: rest => (rest.takeWhile isAsciiDigit, rest.dropWhile isAsciiDigit)
  | cs => ([], cs)

/-- A numeral with optional sign, point and exponent, and a digit before or after the point. -/
def readNumeral? (cs : List Char) : Option Numeral :=
  let (negative, rest) := takeSign cs
  let whole := rest.takeWhile isAsciiDigit
  let (fraction, rest) := takeFraction (rest.dropWhile isAsciiDigit)
  if whole = [] ∧ fraction = [] then none
  else (readExponent? rest).map (⟨negative, whole, fraction, ·⟩)

/-- The special values, named in any mixture of cases. -/
def readSpecial? (cs : List Char) : Option Float :=
  let (negative, rest) := takeSign cs
  match String.ofList (rest.map Char.toLower) with
  | "inf" | "infinity" => some (withSign negative (1.0 / 0.0))
  | "nan" => some (0.0 / 0.0)
  | _ => none

/-- The double named by a text: a decimal numeral, an infinity, or the value that is not a
number. -/
def read? (s : String) : Option Float :=
  match readSpecial? s.toList with
  | some x => some x
  | none => (readNumeral? s.toList).map Numeral.toFloat

/-- A finite double is whole when nothing follows the point. -/
def isWhole (x : Float) : Bool :=
  match magnitude x with
  | .finite significand exponent =>
    decide (0 ≤ exponent) || significand % twoTo (-exponent).toNat == 0
  | _ => false

end OntoGraph.Number
