import OntoGraph.Json.Normal
import OntoGraph.Proofs.Number.Scaling

/-!
# Numerals in the range of doubles

The reader of documents takes digits as a whole number and scales it by a power of ten, and it
refuses a number if that leaves the range of doubles. It does not if the number is a few steps
below the greatest double.
-/

namespace OntoGraph.Json

open Number

/-! ## Digits -/

theorem ofDigitChars_lt {cs : List Char} (h : ∀ c ∈ cs, isAsciiDigit c = true) (start : Nat) :
    Nat.ofDigitChars 10 cs start < (start + 1) * 10 ^ cs.length := by
  induction cs generalizing start with
  | nil =>
    rw [Nat.ofDigitChars_nil]
    simp
  | cons c cs ih =>
    have hc := h c List.mem_cons_self
    simp only [isAsciiDigit, Bool.and_eq_true, decide_eq_true_eq, Char.le_def, UInt32.le_iff_toNat_le] at hc
    have hdigit : c.toNat - '0'.toNat ≤ 9 := by
      have := hc.2
      change c.toNat ≤ 57 at this
      change c.toNat - 48 ≤ 9
      omega
    have hrest := ih (fun c hc ↦ h c (List.mem_cons_of_mem _ hc)) (10 * start + (c.toNat - '0'.toNat))
    rw [Nat.ofDigitChars_cons, List.length_cons, Nat.pow_succ]
    calc _ < (10 * start + (c.toNat - '0'.toNat) + 1) * 10 ^ cs.length := hrest
      _ ≤ (10 * start + 10) * 10 ^ cs.length := Nat.mul_le_mul_right _ (by omega)
      _ = (start + 1) * (10 ^ cs.length * 10) := by ring

theorem ofDigits_append (cs ds : List Char) :
    ofDigits (cs ++ ds) = Nat.ofDigitChars 10 ds (ofDigits cs) := Nat.ofDigitChars_append 0

theorem le_ofDigitChars (cs : List Char) (start : Nat) :
    start * 10 ^ cs.length ≤ Nat.ofDigitChars 10 cs start := by
  rw [Nat.ofDigitChars_eq_ofDigitChars_zero, Nat.mul_comm]
  exact Nat.le_add_right _ _

/-- The reader takes digits for as long as they fit. -/
theorem takeSignificand_eq (start : Nat) (cs : List Char) (h : start < 2 ^ 64) :
    ∃ taken rest, cs = taken ++ rest ∧ Nat.ofDigitChars 10 taken start < 2 ^ 64 ∧
      takeSignificand start cs = (Nat.ofDigitChars 10 taken start, rest) := by
  induction cs generalizing start with
  | nil => exact ⟨[], [], rfl, h, rfl⟩
  | cons c cs ih =>
    unfold takeSignificand
    dsimp only
    split_ifs with hnext
    · obtain ⟨taken, rest, rfl, hlt, heq⟩ := ih _ hnext
      exact ⟨c :: taken, rest, rfl, by rwa [Nat.ofDigitChars_cons],
        by rw [heq, Nat.ofDigitChars_cons]⟩
    · exact ⟨[], c :: cs, rfl, h, rfl⟩

/-- Digits of a small number are all taken. -/
theorem takeSignificand_of_lt (start : Nat) (cs : List Char)
    (h : Nat.ofDigitChars 10 cs start < 2 ^ 64) :
    takeSignificand start cs = (Nat.ofDigitChars 10 cs start, []) := by
  induction cs generalizing start with
  | nil => rfl
  | cons c cs ih =>
    rw [Nat.ofDigitChars_cons] at h
    have hle := le_ofDigitChars cs (10 * start + (c.toNat - '0'.toNat))
    have hpos : 1 ≤ 10 ^ cs.length := Nat.pow_pos (by decide)
    have hnext : 10 * start + (c.toNat - '0'.toNat) < twoTo 64 :=
      (Nat.le_mul_of_pos_right _ hpos).trans_lt (hle.trans_lt h)
    rw [takeSignificand, if_pos hnext, ih _ h, Nat.ofDigitChars_cons]

/-! ## Scaling -/

theorem scale?_isSome_of_neg (fuel : Nat) (x : Float) {exponent : Int} (h : exponent < 0) :
    (scale? fuel x exponent).isSome = true := by
  induction fuel generalizing x exponent with
  | zero => rfl
  | succ fuel ih =>
    rw [scale?]
    split
    · dsimp only
      rw [if_neg (by omega)]
      rfl
    · split
      · rfl
      · rw [if_neg (by omega)]
        exact ih _ (by omega)

theorem range_lt_tenTo : (2 ^ 53 - 10 : ℚ) * 2 ^ (971 : ℤ) < 10 ^ 309 := by
  have hlt : (2 ^ 53 - 10) * 2 ^ 971 < 10 ^ 309 := by decide +kernel
  have hlt' : (((2 ^ 53 - 10) * 2 ^ 971 : Nat) : ℚ) < (10 ^ 309 : Nat) := Nat.cast_lt.2 hlt
  have hlast : (2 : ℚ) ^ (971 : ℤ) = 2 ^ 971 := zpow_natCast 2 971
  rw [Nat.cast_mul, Nat.cast_pow, Nat.cast_pow] at hlt'
  rw [hlast]
  refine (le_of_eq ?_).trans_lt hlt'
  norm_num

/-- A number is scaled if the exact result is a few steps below the greatest double. -/
theorem scale?_ofNat_isSome {n : Nat} {exponent : Int} (fuel : Nat) (hn : n < 2 ^ 64)
    (hrange : (n : ℚ) * 10 ^ exponent ≤ (2 ^ 53 - 10) * 2 ^ (971 : ℤ)) :
    (scale? fuel (Float.ofNat n) exponent).isSome = true := by
  by_cases hneg : exponent < 0
  · exact scale?_isSome_of_neg fuel _ hneg
  cases fuel with
  | zero => rfl
  | succ fuel =>
    obtain ⟨k, rfl⟩ := Int.eq_ofNat_of_zero_le (not_lt.1 hneg)
    rw [zpow_natCast] at hrange
    rw [scale?]
    by_cases hsmall : (k : Int).natAbs ≤ 308
    · rw [if_pos hsmall]
      dsimp only
      rw [if_pos (by omega), if_neg (magnitude_mul_tenTo_ne hn hsmall hrange)]
      rfl
    rw [if_neg hsmall]
    by_cases hmagnitude : magnitude (Float.ofNat n) = .finite 0 (-1074)
    · rw [if_pos hmagnitude]
      rfl
    · have hzero : n ≠ 0 := by
        rintro rfl
        exact hmagnitude (by decide)
      have hone : (1 : ℚ) ≤ n := by exact_mod_cast Nat.one_le_iff_ne_zero.2 hzero
      have hpow : (10 : ℚ) ^ 309 ≤ 10 ^ k := pow_le_pow_right₀ (by norm_num) (by omega)
      have hle : (10 : ℚ) ^ 309 ≤ n * 10 ^ k :=
        hpow.trans (le_mul_of_one_le_left (by positivity) hone)
      exact absurd (hle.trans hrange) range_lt_tenTo.not_ge

/-! ## Reading -/

/-- A numeral is read if it stands for a number a few steps below the greatest double. -/
theorem approximate?_isSome {n : Numeral} (hwhole : ∀ c ∈ n.whole, isAsciiDigit c = true)
    (hlength : n.whole.length ≤ 16) (hexponent : n.exponent < 2 ^ 31)
    (hrange : (ofDigits (n.whole ++ n.fraction) : ℚ) * 10 ^ (n.exponent - n.fraction.length) ≤
      (2 ^ 53 - 10) * 2 ^ (971 : ℤ)) : (approximate? n).isSome = true := by
  have hsmall : ofDigits n.whole < 2 ^ 64 := by
    have hlt : ofDigits n.whole < (0 + 1) * 10 ^ n.whole.length := ofDigitChars_lt hwhole 0
    have hle : 10 ^ n.whole.length ≤ 10 ^ 16 := Nat.pow_le_pow_right (by decide) hlength
    omega
  obtain ⟨taken, rest, hsplit, hlt, hfraction⟩ :=
    takeSignificand_eq (ofDigits n.whole) n.fraction hsmall
  have hrest : n.fraction.length = taken.length + rest.length := by
    rw [hsplit, List.length_append]
  generalize hsignificand : Nat.ofDigitChars 10 taken (ofDigits n.whole) = significand
    at hlt hfraction
  have hdigits : significand * 10 ^ rest.length ≤ ofDigits (n.whole ++ n.fraction) := by
    rw [ofDigits_append, hsplit, Nat.ofDigitChars_append, hsignificand]
    exact le_ofDigitChars rest significand
  have hscaled : (significand : ℚ) * 10 ^ (n.exponent - taken.length) ≤
      (2 ^ 53 - 10) * 2 ^ (971 : ℤ) := by
    have hdigits' : (significand : ℚ) * 10 ^ rest.length ≤ ofDigits (n.whole ++ n.fraction) := by
      exact_mod_cast hdigits
    have hpow : (10 : ℚ) ^ (n.exponent - taken.length) =
        10 ^ rest.length * 10 ^ (n.exponent - n.fraction.length) := by
      rw [← zpow_natCast, ← zpow_add₀ (by norm_num), hrest]
      congr 1
      push_cast
      ring
    rw [hpow, ← mul_assoc]
    exact (mul_le_mul_of_nonneg_right hdigits' (by positivity)).trans hrange
  have hexponents : n.exponent + ([] : List Char).length -
      ((n.fraction.length - rest.length : Nat) : Int) = n.exponent - taken.length := by
    rw [hrest, Nat.add_sub_cancel]
    simp
  have hbits : twoTo 31 = 2 ^ 31 := rfl
  unfold approximate?
  rw [takeSignificand_of_lt 0 n.whole hsmall]
  dsimp only
  rw [show Nat.ofDigitChars 10 n.whole 0 = ofDigits n.whole from rfl, hfraction]
  dsimp only
  rw [hexponents]
  split
  · rw [Option.isSome_map]
    exact scale?_ofNat_isSome 32 hlt hscaled
  · rw [if_neg (by omega)]
    rfl

end OntoGraph.Json
