import Mathlib.Tactic.FieldSimp
import Mathlib.Tactic.Linarith
import Mathlib.Tactic.NormNum
import Mathlib.Tactic.Positivity
import Mathlib.Tactic.Ring
import OntoGraph.Number.Shortest
import OntoGraph.Proofs.Number.Powers

/-!
# What the shortest decimal stands for

The decimal of a double lies in the interval of the reals that round to it. So it is zero only in
one way, and greater than the double by half a step at most.
-/

namespace OntoGraph.Number

def Decimal.value (d : Decimal) : ℚ := d.digits * 10 ^ d.exponent

/-! ## The interval -/

theorem Interval.holds_le {i : Interval} {c : Nat} {k : Int} (h : i.holds c k = true) :
    i.lower * tenTo (-k).toNat ≤ c * tenTo k.toNat * i.denominator ∧
      c * tenTo k.toNat * i.denominator ≤ i.upper * tenTo (-k).toNat := by
  unfold Interval.holds at h
  dsimp only at h
  split at h
  · simpa using h
  · simp only [Bool.and_eq_true, decide_eq_true_eq] at h
    exact ⟨h.1.le, h.2.le⟩

theorem Interval.holds_of_nearestOnGrid? {i : Interval} {k : Int} {c : Nat}
    (h : i.nearestOnGrid? k = some c) : i.holds c k = true := by
  revert h
  fun_cases Interval.nearestOnGrid? i k with
  | case1 => rintro ⟨⟩
  | case2 unit value floor _ hfloor =>
    intro h
    rwa [← Option.some.inj h]
  | case3 unit value floor hnext _ =>
    intro h
    rwa [← Option.some.inj h]
  | case4 unit value floor rest _ hfloor _ =>
    intro h
    rwa [← Option.some.inj h]
  | case5 unit value floor rest hnext _ _ _ =>
    intro h
    rwa [← Option.some.inj h]
  | case6 unit value floor rest _ hfloor _ _ _ =>
    intro h
    rwa [← Option.some.inj h]
  | case7 unit value floor rest hnext _ _ _ _ =>
    intro h
    rwa [← Option.some.inj h]

/-- A point of the grid is at most the upper end of the interval that it lies in. -/
theorem Interval.value_le_upper {i : Interval} {c : Nat} {k : Int} (h : i.holds c k = true)
    (hden : 0 < i.denominator) : (c : ℚ) * 10 ^ k ≤ i.upper / i.denominator := by
  have hle := (holds_le h).2
  have hq : (c : ℚ) * 10 ^ k.toNat * i.denominator ≤ i.upper * 10 ^ (-k).toNat := by
    exact_mod_cast hle
  have hden' : (0 : ℚ) < i.denominator := by exact_mod_cast hden
  rw [le_div_iff₀ hden']
  have hpos : (0 : ℚ) < 10 ^ (-k).toNat := by positivity
  refine le_of_mul_le_mul_right ?_ hpos
  calc (c : ℚ) * 10 ^ k * i.denominator * 10 ^ (-k).toNat
      = c * (10 ^ k * 10 ^ (-k).toNat) * i.denominator := by ring
    _ = c * 10 ^ k.toNat * i.denominator := by rw [← pow_toNat (by norm_num)]
    _ ≤ i.upper * 10 ^ (-k).toNat := hq

theorem Interval.pos_of_holds {i : Interval} {c : Nat} {k : Int} (h : i.holds c k = true)
    (hlower : 0 < i.lower) : 0 < c := by
  have hle := (holds_le h).1
  rcases Nat.eq_zero_or_pos c with rfl | hc
  · have hten : 0 < tenTo (-k).toNat := Nat.pow_pos (by decide)
    have := Nat.mul_pos hlower hten
    omega
  · exact hc

theorem lower_roundingInterval_pos {significand : Nat} (exponent : Int) (h : significand ≠ 0) :
    0 < (roundingInterval significand exponent).lower := by
  unfold roundingInterval
  dsimp only
  refine Nat.mul_pos ?_ (Nat.pow_pos (by decide))
  split <;> omega

/-- The two scales of the interval differ by a quarter of a step. -/
theorem scale_roundingInterval (exponent : Int) : ((twoTo (exponent - 2).toNat : Nat) : ℚ) =
    2 ^ exponent / 4 * (twoTo (2 - exponent).toNat : Nat) := by
  have hfour : (2 : ℚ) ^ (2 : ℤ) = 4 := by norm_num
  rw [cast_twoTo, cast_twoTo, pow_toNat (by norm_num), neg_sub, zpow_sub₀ (by norm_num), hfour]

/-- The upper end of the interval lies half a step above the double. -/
theorem upper_roundingInterval (significand : Nat) (exponent : Int) :
    ((roundingInterval significand exponent).upper : ℚ) /
      (roundingInterval significand exponent).denominator =
        (significand + 1 / 2) * 2 ^ exponent := by
  have hden : ((twoTo (2 - exponent).toNat : Nat) : ℚ) ≠ 0 := by
    rw [cast_twoTo]
    positivity
  unfold roundingInterval
  dsimp only
  rw [div_eq_iff hden]
  push_cast
  rw [scale_roundingInterval]
  ring

/-! ## Zeros at the end -/

theorem Decimal.stripZeros_digits_pos (fuel : Nat) {d : Decimal} (h : 0 < d.digits) :
    0 < (d.stripZeros fuel).digits := by
  induction fuel generalizing d with
  | zero => exact h
  | succ fuel ih =>
    unfold stripZeros
    by_cases hzero : d.digits ≠ 0 ∧ d.digits % 10 = 0
    · rw [if_pos hzero]
      refine ih ?_
      dsimp only
      omega
    · rwa [if_neg hzero]

@[simp] theorem Decimal.value_stripZeros (fuel : Nat) (d : Decimal) :
    (d.stripZeros fuel).value = d.value := by
  induction fuel generalizing d with
  | zero => rfl
  | succ fuel ih =>
    unfold stripZeros
    by_cases hzero : d.digits ≠ 0 ∧ d.digits % 10 = 0
    · rw [if_pos hzero, ih]
      have hten : d.digits = 10 * (d.digits / 10) := by omega
      have hdigits : (d.digits : ℚ) = 10 * ((d.digits / 10 : Nat) : ℚ) := by exact_mod_cast hten
      unfold value
      dsimp only
      rw [hdigits, zpow_add₀ (by norm_num)]
      ring
    · rw [if_neg hzero]

/-! ## The shortest decimal -/

/-- The shortest decimal of a double is zero, or positive and at most half a step greater than the
double. -/
theorem shortest_bounds (significand : Nat) (exponent : Int) :
    shortest significand exponent = ⟨0, 0⟩ ∨
      0 < (shortest significand exponent).digits ∧
        (shortest significand exponent).value ≤ (significand + 1 / 2) * 2 ^ exponent := by
  by_cases hzero : significand = 0
  · left
    rw [shortest, if_pos hzero]
  · unfold shortest
    rw [if_neg hzero]
    dsimp only
    cases hfound : (List.range 17).findSome? _ with
    | none => exact .inl rfl
    | some d =>
      right
      obtain ⟨n, -, hn⟩ := List.exists_of_findSome?_eq_some hfound
      obtain ⟨c, hc, rfl⟩ := Option.map_eq_some_iff.1 hn
      have hholds := Interval.holds_of_nearestOnGrid? hc
      rw [Option.getD_some, Decimal.value_stripZeros]
      refine ⟨Decimal.stripZeros_digits_pos 18
        (Interval.pos_of_holds hholds (lower_roundingInterval_pos exponent hzero)), ?_⟩
      rw [← upper_roundingInterval]
      exact Interval.value_le_upper hholds (Nat.pow_pos (by decide))

end OntoGraph.Number
