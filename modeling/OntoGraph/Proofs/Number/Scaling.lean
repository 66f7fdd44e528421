import Mathlib.Tactic.FieldSimp
import OntoGraph.Proofs.Number.Powers
import OntoGraph.Proofs.Number.Rounding

/-!
# Doubles scaled by powers of ten

A natural number and a power of ten become doubles that are hardly greater than they are. So their
product is finite where the exact product is a little below the greatest double.
-/

namespace OntoGraph.Number

open Float.Model Float.Model.UnpackedFloat

/-! ## Natural numbers -/

theorem isNormal_one : IsNormal (Float.ofBits 0x3FF0000000000000) (2 ^ 52) (-52) where
  unpack := ⟨.positive, by decide, by rfl⟩
  lower := le_rfl
  upper := by norm_num
  exponent := by norm_num
  exponent_le := by norm_num

/-- Small numbers are in range. -/
theorem lt_range {q : ℚ} (h : q ≤ 2 ^ (65 : ℤ)) : q < (2 ^ 53 - 1) * 2 ^ (971 : ℤ) := by
  have hle : (2 : ℚ) ^ (65 : ℤ) ≤ 2 ^ (971 : ℤ) := zpow_le_zpow_right₀ (by norm_num) (by norm_num)
  have hpos : (0 : ℚ) < 2 ^ (971 : ℤ) := by positivity
  generalize (2 : ℚ) ^ (971 : ℤ) = last at hle hpos
  linarith

theorem log2_shiftLeft {n : Nat} (hn : n ≠ 0) (j : Nat) : (n <<< j).log2 = n.log2 + j := by
  obtain ⟨hlower, hupper⟩ := (Nat.log2_eq_iff hn).1 rfl
  rw [Nat.shiftLeft_eq, Nat.log2_eq_iff (by positivity), Nat.pow_add, Nat.add_right_comm,
    Nat.pow_add]
  exact ⟨Nat.mul_le_mul_right _ hlower, Nat.mul_lt_mul_of_pos_right hupper (by positivity)⟩

theorem round_eq {n j : Nat} (hj : n.log2 + j = 52) (s : Sign) :
    UnpackedFloat.round Format.binary64 s n 0 =
      roundWithAccuracy Format.binary64 s (n <<< j) (-(j : Int)) .exact := by
  have ht : Format.binary64.targetExponent (totalExponent n 0) = -(j : Int) := by
    unfold Format.targetExponent totalExponent Format.minExponent Format.mantissaBits
    norm_num
    omega
  unfold UnpackedFloat.round
  dsimp only
  rw [ht, decreaseExponent]
  simp

theorem toModel_toFloat {n j : Nat} (hn : n ≠ 0) (hlt : n < 2 ^ 53) (hj : n.log2 + j = 52) :
    n.toUInt64.toFloat.toModel = Float.Model.pack
      (roundWithAccuracy Format.binary64 .positive (n <<< j) (-(j : Int)) .exact) := by
  have hn' : n.toUInt64.toNat = n := by
    rw [Nat.toUInt64_eq, UInt64.toNat_ofNat']
    omega
  change Float.Model.pack
    (UnpackedFloat.normalize Format.binary64 (n.toUInt64.toNat : Int) 0 .positive) = _
  rw [hn', UnpackedFloat.normalize, ← round_eq hj]
  have hpositive : compare (n : Int) 0 = .gt := by
    rw [compare_gt_iff_gt]
    omega
  rw [hpositive]
  rfl

theorem exists_log2_add {n : Nat} (hn : n ≠ 0) (hlt : n < 2 ^ 53) : ∃ j, n.log2 + j = 52 := by
  have hlog := (Nat.log2_lt hn).2 hlt
  exact ⟨52 - n.log2, by omega⟩

theorem exists_isNormal_toFloat {n : Nat} (hn : n ≠ 0) (hlt : n < 2 ^ 53) :
    ∃ r E, IsNormal n.toUInt64.toFloat r E ∧ -52 ≤ E ∧ (r : ℚ) * 2 ^ E ≤ n * (1 + 1 / 2 ^ 52) := by
  obtain ⟨j, hj⟩ := exists_log2_add hn hlt
  have hmodel := toModel_toFloat hn hlt hj
  have hvalue : ((n <<< j : Nat) : ℚ) * 2 ^ (-(j : Int)) = n := by
    rw [Nat.shiftLeft_eq, zpow_neg, zpow_natCast]
    push_cast
    field_simp
  have hlog' : (n <<< j).log2 = 52 + 0 := by
    rw [log2_shiftLeft hn, hj]
  have hrange : ((n <<< j : Nat) : ℚ) * 2 ^ (-(j : Int)) < (2 ^ 53 - 1) * 2 ^ (971 : ℤ) := by
    rw [hvalue]
    have hle : (n : ℚ) ≤ 2 ^ 53 := by exact_mod_cast hlt.le
    exact lt_range (hle.trans (by norm_num))
  obtain ⟨r, E, hnormal, hE, hle⟩ := exists_isNormal_of_round hmodel hlog'
    (by rw [Nat.shiftLeft_eq]; positivity) (by omega) hrange
  rw [hvalue] at hle
  exact ⟨r, E, hnormal, by omega, hle⟩

theorem toModel_ofScientific {n k : Nat} (hn : n ≠ 0) (hslow : ¬(n < 2 ^ 53 ∧ k ≤ 22))
    (hk : k ≤ 308) :
    (Float.ofScientific n false k).toModel =
      Float.Model.pack (roundWithAccuracy Format.binary64 (.positive * .positive)
        (n <<< 53 * 10 ^ k) (-53 + 0) .exact) := by
  unfold Float.ofScientific
  rw [dif_neg hslow]
  change Float.Model.pack (UnpackedFloat.ofScientific Format.binary64 n k) = _
  have hbits : (2 : Int) ^ Format.binary64.exponentBits = 2048 := by rfl
  unfold UnpackedFloat.ofScientific
  rw [dif_neg hn, if_neg (by omega), if_neg (by omega), if_pos (by omega)]
  rfl

/-- A decimal that is not exact by a table is rounded once. -/
theorem exists_isNormal_ofScientific {n k : Nat} (hn : n ≠ 0) (hslow : ¬(n < 2 ^ 53 ∧ k ≤ 22))
    (hk : k ≤ 308) (hrange : (n * 10 ^ k : ℚ) < (2 ^ 53 - 1) * 2 ^ (971 : ℤ)) :
    ∃ r E, IsNormal (Float.ofScientific n false k) r E ∧ -52 ≤ E ∧
      (r : ℚ) * 2 ^ E ≤ n * 10 ^ k * (1 + 1 / 2 ^ 52) := by
  have hmodel := toModel_ofScientific hn hslow hk
  have hvalue : ((n <<< 53 * 10 ^ k : Nat) : ℚ) * 2 ^ (-53 + 0 : ℤ) = n * 10 ^ k := by
    rw [Nat.shiftLeft_eq]
    push_cast
    norm_num
    ring
  have hpos : 0 < n <<< 53 * 10 ^ k := by
    rw [Nat.shiftLeft_eq]
    positivity
  have hlog : 53 ≤ (n <<< 53 * 10 ^ k).log2 := by
    rw [Nat.le_log2 hpos.ne', Nat.shiftLeft_eq, Nat.mul_right_comm]
    exact Nat.le_mul_of_pos_left _ (by positivity)
  obtain ⟨r, E, hnormal, hE, hle⟩ := exists_isNormal_of_round hmodel
    (Nat.add_sub_cancel' (by omega : 52 ≤ _)).symm hpos.ne' (by omega) (by rwa [hvalue])
  rw [hvalue] at hle
  exact ⟨r, E, hnormal, by omega, hle⟩

theorem exists_isNormal_ofNat {n : Nat} (hn : n ≠ 0) (hlt : n < 2 ^ 64) :
    ∃ r E, IsNormal (Float.ofNat n) r E ∧ -52 ≤ E ∧ (r : ℚ) * 2 ^ E ≤ n * (1 + 1 / 2 ^ 52) ^ 2 := by
  have hle : (n : ℚ) ≤ 2 ^ 64 := by exact_mod_cast hlt.le
  change ∃ r E, IsNormal (Float.ofScientific n false 0) r E ∧ _
  by_cases hsmall : n < 2 ^ 53 ∧ 0 ≤ 22
  · have hfast : Float.ofScientific n false 0 =
        n.toUInt64.toFloat * Float.ofBits 0x3FF0000000000000 := by
      unfold Float.ofScientific
      rw [dif_pos hsmall]
      rfl
    obtain ⟨r, E, hnormal, hE, hvalue⟩ := exists_isNormal_toFloat hn hsmall.1
    have hone : ((2 ^ 52 : Nat) : ℚ) * 2 ^ (-52 : ℤ) = 1 := by norm_num
    have hrange : (r : ℚ) * 2 ^ E * ((2 ^ 52 : Nat) * 2 ^ (-52 : ℤ)) <
        (2 ^ 53 - 1) * 2 ^ (971 : ℤ) := by
      rw [hone, mul_one]
      exact lt_range (hvalue.trans ((mul_le_mul_of_nonneg_right hle (by positivity)).trans
        (by norm_num)))
    obtain ⟨r', E', hnormal', hE', hvalue'⟩ := hnormal.mul isNormal_one (by omega) hrange
    rw [hone, mul_one] at hvalue'
    rw [hfast]
    refine ⟨r', E', hnormal', by omega, hvalue'.trans ?_⟩
    rw [pow_two, ← mul_assoc]
    exact mul_le_mul_of_nonneg_right hvalue (by positivity)
  · obtain ⟨r, E, hnormal, hE, hvalue⟩ := exists_isNormal_ofScientific hn hsmall (by norm_num)
      (lt_range (by rw [pow_zero, mul_one]; exact hle.trans (by norm_num)))
    refine ⟨r, E, hnormal, hE, hvalue.trans ?_⟩
    rw [pow_zero, mul_one]
    have : (0 : ℚ) ≤ n := by positivity
    nlinarith

/-! ## Powers of ten -/

/-- Is the double normal, and equal to a natural number? -/
def isExactly (x : Float) (n : Nat) : Bool :=
  match x.toModel.unpack with
  | .finite _ m e _ => decide (2 ^ 52 ≤ m) && decide (m < 2 ^ 53) && decide (-52 ≤ e) &&
      decide (e ≤ 971) && decide (m * 2 ^ e.toNat = n * 2 ^ (-e).toNat)
  | _ => false

theorem exists_isNormal_of_isExactly {x : Float} {n : Nat} (h : isExactly x n = true) :
    ∃ r E, IsNormal x r E ∧ -52 ≤ E ∧ (r : ℚ) * 2 ^ E = n := by
  unfold isExactly at h
  cases hunpack : x.toModel.unpack with
  | finite s m e hm =>
    rw [hunpack] at h
    simp only [Bool.and_eq_true, decide_eq_true_eq] at h
    obtain ⟨⟨⟨⟨hlower, hupper⟩, hE⟩, hE'⟩, hvalue⟩ := h
    refine ⟨m, e, ⟨⟨s, hm, hunpack⟩, hlower, hupper, by omega, hE'⟩, hE, ?_⟩
    have hvalue' : (m : ℚ) * 2 ^ e.toNat = n * 2 ^ (-e).toNat := by exact_mod_cast hvalue
    rw [pow_toNat (by norm_num) e, ← mul_assoc] at hvalue'
    exact mul_right_cancel₀ (by positivity) hvalue'
  | _ =>
    rw [hunpack] at h
    cases h

theorem isExactly_tenTo :
    ∀ k : Fin 23, isExactly (Float.ofScientific 1 false k) (10 ^ k.val) = true := by
  decide +kernel

theorem exists_isNormal_tenTo {k : Nat} (hk : k ≤ 308) :
    ∃ r E, IsNormal (Float.ofScientific 1 false k) r E ∧ -52 ≤ E ∧
      (r : ℚ) * 2 ^ E ≤ 10 ^ k * (1 + 1 / 2 ^ 52) := by
  by_cases hsmall : k ≤ 22
  · obtain ⟨r, E, hnormal, hE, hvalue⟩ :=
      exists_isNormal_of_isExactly (isExactly_tenTo ⟨k, by omega⟩)
    refine ⟨r, E, hnormal, hE, hvalue.le.trans ?_⟩
    push_cast
    exact le_mul_of_one_le_right (by positivity) (by norm_num)
  · have hrange : ((1 : Nat) * 10 ^ k : ℚ) < (2 ^ 53 - 1) * 2 ^ (971 : ℤ) := by
      have hle : (10 : ℚ) ^ k ≤ 10 ^ 308 := pow_le_pow_right₀ (by norm_num) hk
      have hlt : 10 ^ 308 < (2 ^ 53 - 1) * 2 ^ 971 := by decide +kernel
      have hlt' : ((10 ^ 308 : Nat) : ℚ) < ((2 ^ 53 - 1) * 2 ^ 971 : Nat) := Nat.cast_lt.2 hlt
      have hlast : (2 : ℚ) ^ (971 : ℤ) = 2 ^ 971 := zpow_natCast 2 971
      rw [Nat.cast_mul, Nat.cast_pow, Nat.cast_pow] at hlt'
      rw [Nat.cast_one, one_mul, hlast]
      refine hle.trans_lt (hlt'.trans_eq ?_)
      norm_num
    have h := exists_isNormal_ofScientific one_ne_zero (fun hfast ↦ hsmall hfast.2) hk hrange
    rwa [Nat.cast_one, one_mul] at h

/-! ## Scaled numbers -/

theorem magnitude_zero_mul {x : Float} {m : Nat} {e : Int} (h : IsNormal x m e) :
    magnitude (Float.ofNat 0 * x) ≠ .infinite := by
  obtain ⟨s, hm, hunpack⟩ := h.unpack
  have hzero : (Float.ofNat 0).toModel.unpack = .zero .positive := by rfl
  have hproduct : Float.ofNat 0 * x = .ofModel (Float.Model.pack (.zero (.positive * s))) := by
    change Float.ofModel (Float.Model.pack
      (UnpackedFloat.mul Format.binary64 (Float.ofNat 0).toModel.unpack x.toModel.unpack)) = _
    rw [hzero, hunpack]
    rfl
  rw [hproduct]
  cases s <;> decide

/-- A product with a power of ten is finite if it is a few steps below the greatest double. -/
theorem magnitude_mul_tenTo_ne {n k : Nat} (hn : n < 2 ^ 64) (hk : k ≤ 308)
    (hrange : (n * 10 ^ k : ℚ) ≤ (2 ^ 53 - 10) * 2 ^ (971 : ℤ)) :
    magnitude (Float.ofNat n * Float.ofScientific 1 false k) ≠ .infinite := by
  obtain ⟨p, e, hpower, he, hple⟩ := exists_isNormal_tenTo hk
  by_cases hzero : n = 0
  · rw [hzero]
    exact magnitude_zero_mul hpower
  · obtain ⟨m, d, hnumber, hd, hmle⟩ := exists_isNormal_ofNat hzero hn
    have hproduct : (m : ℚ) * 2 ^ d * (p * 2 ^ e) < (2 ^ 53 - 1) * 2 ^ (971 : ℤ) := by
      have hlast : (0 : ℚ) < 2 ^ (971 : ℤ) := by positivity
      generalize (2 : ℚ) ^ (971 : ℤ) = last at hlast hrange
      calc (m : ℚ) * 2 ^ d * (p * 2 ^ e)
          ≤ n * (1 + 1 / 2 ^ 52) ^ 2 * (10 ^ k * (1 + 1 / 2 ^ 52)) :=
            mul_le_mul hmle hple (by positivity) (by positivity)
        _ = n * 10 ^ k * (1 + 1 / 2 ^ 52) ^ 3 := by ring
        _ ≤ (2 ^ 53 - 10) * last * (1 + 1 / 2 ^ 52) ^ 3 :=
            mul_le_mul_of_nonneg_right hrange (by positivity)
        _ < (2 ^ 53 - 1) * last := by
            rw [mul_right_comm]
            exact mul_lt_mul_of_pos_right (by norm_num) hlast
    obtain ⟨r, E, hnormal, -⟩ := hnumber.mul hpower (by omega) hproduct
    exact hnormal.magnitude_ne

end OntoGraph.Number
