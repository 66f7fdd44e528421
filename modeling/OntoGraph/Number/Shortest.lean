import OntoGraph.Number.Power

/-!
# The shortest decimal of a double

A double stands for every real number that rounds to it. Of the decimals among those reals this
module finds one with the fewest digits, and of these the nearest to the double itself. All
arithmetic is exact: the double is taken apart into a significand and a binary exponent.
-/

namespace OntoGraph.Number

/-- The absolute value of a double. -/
inductive Magnitude where
  | finite (significand : Nat) (exponent : Int)
  | infinite
  | notANumber
  deriving DecidableEq, Repr

/-- The absolute value of a double, read off its bits. A finite one is
`significand * 2 ^ exponent`. -/
def magnitude (x : Float) : Magnitude :=
  let bits := x.toBits.toNat
  let field : Nat := bits / twoTo 52 % 2048
  let fraction : Nat := bits % twoTo 52
  if field = 2047 then
    if fraction = 0 then .infinite else .notANumber
  else if field = 0 then .finite fraction (-1074 : Int)
  else .finite (twoTo 52 + fraction) ((field : Int) - 1075)

def isNegative (x : Float) : Bool := x.toBits.toNat / twoTo 63 % 2 == 1

/-- A decimal `digits * 10 ^ exponent`. -/
structure Decimal where
  digits : Nat
  exponent : Int
  deriving DecidableEq, Repr

/-- The number of decimal digits of a number; zero has one. -/
def digitCount (n : Nat) : Nat := (Nat.toDigits 10 n).length

/-- The position of the decimal point, counted in digits from the left of the first digit. -/
def Decimal.point (d : Decimal) : Int := digitCount d.digits + d.exponent

/-- Moves trailing zeros of the digits into the exponent; `fuel` bounds their number. -/
def Decimal.stripZeros : Nat → Decimal → Decimal
  | 0, d => d
  | fuel + 1, d =>
    if d.digits ≠ 0 ∧ d.digits % 10 = 0 then
      stripZeros fuel ⟨d.digits / 10, d.exponent + 1⟩
    else d

/-- The reals that round to a double, as numerators over one denominator: the double itself, the
two ends, and whether the ends belong to the interval. -/
structure Interval where
  value : Nat
  lower : Nat
  upper : Nat
  denominator : Nat
  closed : Bool

/-- The rounding interval of `significand * 2 ^ exponent`. The ends lie half way to the
neighbours, and belong to the interval when the significand is even. The lower neighbour of a
power of two is nearer than the upper one. -/
def roundingInterval (significand : Nat) (exponent : Int) : Interval :=
  let scale := twoTo (exponent - 2).toNat
  let below := if significand = twoTo 52 ∧ exponent > -1074 then 1 else 2
  { value := 4 * significand * scale
    lower := (4 * significand - below) * scale
    upper := (4 * significand + 2) * scale
    denominator := twoTo (2 - exponent).toNat
    closed := significand % 2 == 0 }

def Interval.holds (i : Interval) (c : Nat) (k : Int) : Bool :=
  let x := c * tenTo k.toNat * i.denominator
  let unit := tenTo (-k).toNat
  if i.closed then decide (i.lower * unit ≤ x) && decide (x ≤ i.upper * unit)
  else decide (i.lower * unit < x) && decide (x < i.upper * unit)

/-- The nearest point of the grid `10 ^ k` that lies in the interval, if one does. Only the two
neighbours of the value can be nearest; of two equally near ones the even one is taken. -/
def Interval.nearestOnGrid? (i : Interval) (k : Int) : Option Nat :=
  let unit := tenTo k.toNat * i.denominator
  let value := i.value * tenTo (-k).toNat
  let c := value / unit
  let rest := value % unit
  match i.holds c k, i.holds (c + 1) k with
  | false, false => none
  | true, false => some c
  | false, true => some (c + 1)
  | true, true =>
    if 2 * rest < unit then some c
    else if unit < 2 * rest then some (c + 1)
    else if c % 2 = 0 then some c else some (c + 1)

/-- The number of digits before the decimal point of `num / den`, which is negative or zero for
numbers below one tenth or one. -/
def pointOf (num den : Nat) : Int :=
  let estimate := (((num.log2 : Int) - den.log2 - 1) * 1233).fdiv 4096
  let reaches (k : Int) : Bool := decide (tenTo k.toNat * den ≤ num * tenTo (-k).toNat)
  if !reaches estimate then estimate
  else if !reaches (estimate + 1) then estimate + 1
  else if !reaches (estimate + 2) then estimate + 2
  else estimate + 3

/-- The decimal with the fewest digits that rounds to `significand * 2 ^ exponent`. Seventeen
digits always suffice. -/
def shortest (significand : Nat) (exponent : Int) : Decimal :=
  if significand = 0 then ⟨0, 0⟩
  else
    let i := roundingInterval significand exponent
    let point := pointOf i.value i.denominator
    let found := (List.range 17).findSome? fun (n : Nat) ↦
      let k : Int := point - (n + 1 : Nat)
      (i.nearestOnGrid? k).map (Decimal.mk · k)
    Decimal.stripZeros 18 (found.getD ⟨0, 0⟩)

end OntoGraph.Number
