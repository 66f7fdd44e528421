import OntoGraph.Number.Shortest

/-!
# Written forms of a double

A written form of a double spells its shortest decimal. The forms differ only in where positional
writing ends and in how whole numbers and exponents are marked; each is one value of `Style`.
-/

namespace OntoGraph.Number

/-- The choices that a written form makes. -/
structure Style where
  /-- Is a number with this position of the decimal point written without an exponent? -/
  positional : Int → Bool
  /-- What follows a whole number that is written without an exponent. -/
  afterWhole : String
  /-- What follows a mantissa of a single digit. -/
  afterSingleDigit : String
  /-- The mark before the exponent. -/
  exponentMark : String
  /-- The sign of an exponent that is not negative. -/
  positiveExponent : String
  /-- The spelling of infinity. -/
  infinity : String
  /-- The spelling of the value that is not a number. -/
  notANumber : String

/-- Digits with a decimal point, without an exponent. -/
def positionalDigits (style : Style) (d : Decimal) : String :=
  let digits := Nat.toDigits 10 d.digits
  let point := d.point
  if 0 ≤ d.exponent then
    String.ofList (digits ++ List.replicate d.exponent.toNat '0') ++ style.afterWhole
  else if 0 < point then
    String.ofList (digits.take point.toNat ++ '.' :: digits.drop point.toNat)
  else
    String.ofList ('0' :: '.' :: List.replicate (-point).toNat '0' ++ digits)

/-- Digits with the point after the first of them, and an exponent. -/
def scientificDigits (style : Style) (d : Decimal) : String :=
  let exponent := d.point - 1
  let mantissa := match Nat.toDigits 10 d.digits with
    | [c] => String.ofList [c] ++ style.afterSingleDigit
    | c :: rest => String.ofList (c :: '.' :: rest)
    | [] => ""
  let sign := if exponent < 0 then "-" else style.positiveExponent
  mantissa ++ style.exponentMark ++ sign ++ String.ofList (Nat.toDigits 10 exponent.natAbs)

def Magnitude.written (style : Style) : Magnitude → String
  | .infinite => style.infinity
  | .notANumber => style.notANumber
  | .finite significand exponent =>
    let d := shortest significand exponent
    if style.positional d.point then positionalDigits style d else scientificDigits style d

/-- The written form of a double: a sign if it is negative, then its absolute value. -/
def written (style : Style) (x : Float) : String :=
  let size := magnitude x
  let text := size.written style
  if isNegative x && size != .notANumber then "-" ++ text else text

/-- The form in which property values are shown and compared: never an exponent, and no point in
a whole number. -/
def valueStyle : Style :=
  { positional := fun _ ↦ true
    afterWhole := ""
    afterSingleDigit := ""
    exponentMark := "e"
    positiveExponent := ""
    infinity := "inf"
    notANumber := "NaN" }

/-- The form of a fractional number in a JSON document: a whole number keeps `.0`, and numbers
from ten to the sixteenth up or below one hundred thousandth have an exponent. -/
def documentStyle : Style :=
  { positional := fun point ↦ decide (-5 < point) && decide (point ≤ 16)
    afterWhole := ".0"
    afterSingleDigit := ""
    exponentMark := "e"
    positiveExponent := "+"
    infinity := "null"
    notANumber := "null" }

/-- The form of a number in canonical JSON: positional up to twenty-one digits before the point
and down to one millionth, otherwise with an exponent. Zero has no sign. -/
def canonicalStyle : Style :=
  { positional := fun point ↦ decide (-6 < point) && decide (point ≤ 21)
    afterWhole := ""
    afterSingleDigit := ""
    exponentMark := "e"
    positiveExponent := "+"
    infinity := "null"
    notANumber := "null" }

/-- The canonical form of an `xsd:double`: always an exponent, and at least one digit after the
point. -/
def canonicalDoubleStyle : Style :=
  { positional := fun _ ↦ false
    afterWhole := ""
    afterSingleDigit := ".0"
    exponentMark := "E"
    positiveExponent := ""
    infinity := "INF"
    notANumber := "NaN" }

end OntoGraph.Number
