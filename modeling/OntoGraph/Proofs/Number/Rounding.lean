import Mathlib.Algebra.Order.Field.Power
import Mathlib.Tactic.Linarith
import Mathlib.Tactic.NormNum
import Mathlib.Tactic.Positivity
import Mathlib.Tactic.Ring
import OntoGraph.Number.Shortest

/-!
# How much rounding adds

A product of doubles is the exact product, rounded to fifty-three bits. Rounding adds at most one
step of the last bit, so a product that is clearly in the range of doubles stays finite.
-/

namespace OntoGraph.Number

open Float.Model Float.Model.UnpackedFloat

/-! ## Shifting -/

@[simp] theorem mantissa_shiftRight (em : ExtendedMantissa) (k : Nat) :
    (em >>> k).mantissa = em.mantissa / 2 ^ k := by
  induction k with
  | zero => exact (Nat.div_one _).symm
  | succ k ih =>
    change (em >>> k).mantissa / 2 = _
    rw [ih, Nat.div_div_eq_div_mul, Nat.pow_succ]

theorem roundedMantissa_le (em : ExtendedMantissa) :
    em.mantissa ≤ em.roundedMantissa ∧ em.roundedMantissa ≤ em.mantissa + 1 := by
  obtain ⟨mantissa, roundBit, stickyBit⟩ := em
  cases roundBit <;> cases stickyBit <;>
    simp [ExtendedMantissa.roundedMantissa, ExtendedMantissa.accuracy, Accuracy.roundToNearestEven]
  omega

/-- The exponent at which a number of full length has fifty-three bits. -/
theorem targetExponent_eq {m k : Nat} {e : Int} (hk : m.log2 = 52 + k) (he : -1074 ≤ e + k) :
    Format.binary64.targetExponent (totalExponent m e) = e + k := by
  unfold Format.targetExponent totalExponent Format.minExponent Format.mantissaBits
  rw [hk]
  norm_num
  omega

theorem shiftToTargetExponent_eq {m k : Nat} {e : Int} (hk : m.log2 = 52 + k)
    (he : -1074 ≤ e + k) :
    shiftToTargetExponent Format.binary64 m e .exact =
      (ExtendedMantissa.mk m false false >>> k, e + k) := by
  rw [shiftToTargetExponent, targetExponent_eq hk he, shiftToExponent]
  simp [ExtendedMantissa.ofMantissaAndAccuracy]

theorem log2_eq_of_bounds {m : Nat} (hlower : 2 ^ 52 ≤ m) (hupper : m < 2 ^ 53) : m.log2 = 52 :=
  (Nat.log2_eq_iff (by omega)).2 ⟨hlower, hupper⟩

/-! ## Rounding -/

theorem roundWithAccuracy_eq {m k r j q : Nat} {e f : Int} (s : Sign)
    (hk : m.log2 = 52 + k) (he : -1074 ≤ e + k)
    (hr : (ExtendedMantissa.mk m false false >>> k).roundedMantissa = r) (hj : r.log2 = 52 + j)
    (hq : r / 2 ^ j = q) (hf : e + k + j = f) (hpos : 0 < q) :
    roundWithAccuracy Format.binary64 s m e .exact = .finite s q f hpos := by
  subst hq hf
  rw [roundWithAccuracy, shiftToTargetExponent_eq hk he]
  dsimp only
  rw [hr, shiftToTargetExponent_eq hj (by omega)]
  dsimp only
  have hmantissa : (ExtendedMantissa.mk r false false >>> j).mantissa = r / 2 ^ j :=
    mantissa_shiftRight _ j
  rw [dif_neg (by rw [hmantissa]; exact hpos.ne')]
  congr 1

theorem roundWithAccuracy_of_lt {m k r : Nat} {e : Int} (s : Sign) (hk : m.log2 = 52 + k)
    (he : -1074 ≤ e + k) (hr : (ExtendedMantissa.mk m false false >>> k).roundedMantissa = r)
    (hlower : 2 ^ 52 ≤ r) (hupper : r < 2 ^ 53) (hpos : 0 < r) :
    roundWithAccuracy Format.binary64 s m e .exact = .finite s r (e + k) hpos :=
  roundWithAccuracy_eq (j := 0) s hk he hr (log2_eq_of_bounds hlower hupper)
    (by rw [pow_zero, Nat.div_one]) (by rw [Nat.cast_zero, add_zero]) hpos

/-- Where all kept bits are set, rounding up takes one more bit. -/
theorem roundWithAccuracy_of_eq {m k : Nat} {e : Int} (s : Sign) (hk : m.log2 = 52 + k)
    (he : -1074 ≤ e + k)
    (hr : (ExtendedMantissa.mk m false false >>> k).roundedMantissa = 2 ^ 53) :
    roundWithAccuracy Format.binary64 s m e .exact =
      .finite s (2 ^ 52) (e + k + 1) (Nat.two_pow_pos 52) :=
  roundWithAccuracy_eq (j := 1) s hk he hr Nat.log2_two_pow (by norm_num) (by rw [Nat.cast_one])
    (Nat.two_pow_pos 52)

/-! ## The bits that are kept -/

theorem kept_bounds {m k : Nat} (hk : m.log2 = 52 + k) (hm : m ≠ 0) :
    2 ^ 52 ≤ m / 2 ^ k ∧ m / 2 ^ k < 2 ^ 53 := by
  obtain ⟨hlower, hupper⟩ := (Nat.log2_eq_iff hm).1 hk
  rw [Nat.add_right_comm] at hupper
  rw [Nat.le_div_iff_mul_le (by positivity), Nat.div_lt_iff_lt_mul (by positivity),
    ← Nat.pow_add, ← Nat.pow_add]
  exact ⟨hlower, hupper⟩

/-- The value before rounding is at least as great as the bits that are kept. -/
theorem kept_le (m k : Nat) (e : Int) : ((m / 2 ^ k : ℕ) : ℚ) * 2 ^ (e + k) ≤ m * 2 ^ e := by
  have hle : ((m / 2 ^ k : ℕ) : ℚ) * 2 ^ k ≤ m := by exact_mod_cast Nat.div_mul_le_self m (2 ^ k)
  rw [zpow_add₀ (by norm_num), zpow_natCast, mul_comm (2 ^ e), ← mul_assoc]
  exact mul_le_mul_of_nonneg_right hle (by positivity)

/-- One step of the last bit is a small part of a number of fifty-three bits. -/
theorem rounded_le {m k r : Nat} {e : Int} (hk : m.log2 = 52 + k) (hm : m ≠ 0)
    (hr : r ≤ m / 2 ^ k + 1) : (r : ℚ) * 2 ^ (e + k) ≤ m * 2 ^ e * (1 + 1 / 2 ^ 52) := by
  have hpow : (0 : ℚ) < 2 ^ (e + k) := by positivity
  have hkept := kept_le m k e
  have hlower : (2 ^ 52 : ℚ) ≤ (m / 2 ^ k : ℕ) := by exact_mod_cast (kept_bounds hk hm).1
  have hr' : (r : ℚ) ≤ (m / 2 ^ k : ℕ) + 1 := by exact_mod_cast hr
  have hstep : (2 : ℚ) ^ (e + k) ≤ m * 2 ^ e * (1 / 2 ^ 52) := by
    rw [mul_one_div, le_div_iff₀ (by positivity), mul_comm]
    exact (mul_le_mul_of_nonneg_right hlower hpow.le).trans hkept
  calc (r : ℚ) * 2 ^ (e + k) ≤ ((m / 2 ^ k : ℕ) + 1) * 2 ^ (e + k) :=
        mul_le_mul_of_nonneg_right hr' hpow.le
    _ = (m / 2 ^ k : ℕ) * 2 ^ (e + k) + 2 ^ (e + k) := by ring
    _ ≤ m * 2 ^ e + m * 2 ^ e * (1 / 2 ^ 52) := add_le_add hkept hstep
    _ = m * 2 ^ e * (1 + 1 / 2 ^ 52) := by ring

/-- A number in the range of doubles has at most their greatest exponent. -/
theorem exponent_le_of_range {m k : Nat} {e : Int} (hk : m.log2 = 52 + k) (hm : m ≠ 0)
    (hrange : (m : ℚ) * 2 ^ e < (2 ^ 53 - 1) * 2 ^ (971 : ℤ)) : e + k ≤ 971 := by
  by_contra hgreat
  have hlower : (2 ^ 52 : ℚ) ≤ (m / 2 ^ k : ℕ) := by exact_mod_cast (kept_bounds hk hm).1
  have hle : (2 : ℚ) ^ (972 : ℤ) ≤ 2 ^ (e + k) := zpow_le_zpow_right₀ (by norm_num) (by omega)
  have hkept : (2 ^ 52 : ℚ) * 2 ^ (972 : ℤ) ≤ m * 2 ^ e :=
    (mul_le_mul hlower hle (by positivity) (by positivity)).trans (kept_le m k e)
  have htwo : (2 : ℚ) ^ (972 : ℤ) = 2 * 2 ^ (971 : ℤ) := by
    rw [show (972 : ℤ) = 1 + 971 by norm_num, zpow_add₀ (by norm_num), zpow_one]
  have hpos : (0 : ℚ) < 2 ^ (971 : ℤ) := by positivity
  rw [htwo] at hkept
  generalize (2 : ℚ) ^ (971 : ℤ) = last at hkept hpos hrange
  linarith

/-- A number of at least fifty-three bits is rounded to exactly as many, and becomes greater by at
most one step of the last of them. -/
theorem exists_roundWithAccuracy {m k : Nat} {e : Int} (s : Sign) (hk : m.log2 = 52 + k)
    (hm : m ≠ 0) (he : -1074 ≤ e + k)
    (hrange : (m : ℚ) * 2 ^ e < (2 ^ 53 - 1) * 2 ^ (971 : ℤ)) :
    ∃ r E hr, roundWithAccuracy Format.binary64 s m e .exact = .finite s r E hr ∧
      2 ^ 52 ≤ r ∧ r < 2 ^ 53 ∧ e + k ≤ E ∧ E ≤ 971 ∧
      (r : ℚ) * 2 ^ E ≤ m * 2 ^ e * (1 + 1 / 2 ^ 52) := by
  obtain ⟨hlower, hupper⟩ := kept_bounds hk hm
  have hexponent := exponent_le_of_range hk hm hrange
  have hrounded := roundedMantissa_le (ExtendedMantissa.mk m false false >>> k)
  rw [mantissa_shiftRight] at hrounded
  dsimp only at hrounded
  generalize hr : (ExtendedMantissa.mk m false false >>> k).roundedMantissa = r at hrounded
  have hvalue := rounded_le (e := e) hk hm hrounded.2
  rcases Nat.lt_or_ge r (2 ^ 53) with hless | hcarry
  · exact ⟨r, e + k, by omega, roundWithAccuracy_of_lt s hk he hr (by omega) hless (by omega),
      by omega, hless, le_rfl, hexponent, hvalue⟩
  · have hr' : r = 2 ^ 53 := by omega
    rw [hr'] at hr hvalue
    refine ⟨2 ^ 52, e + k + 1, by positivity, roundWithAccuracy_of_eq s hk he hr, le_rfl,
      by norm_num, by omega, ?_, ?_⟩
    · -- at the greatest exponent the kept bits would already leave the range
      by_contra hgreat
      have hlast : e + k = 971 := by omega
      have hall : m / 2 ^ k = 2 ^ 53 - 1 := by omega
      have hall' : ((m / 2 ^ k : ℕ) : ℚ) = 2 ^ 53 - 1 := by
        rw [hall]
        norm_num
      have hkept := kept_le m k e
      rw [hlast, hall'] at hkept
      exact absurd hrange hkept.not_gt
    · calc ((2 ^ 52 : ℕ) : ℚ) * 2 ^ (e + k + 1) = ((2 ^ 53 : ℕ) : ℚ) * 2 ^ (e + k) := by
            rw [zpow_add₀ (by norm_num) (e + k) 1, zpow_one]
            push_cast
            ring
        _ ≤ m * 2 ^ e * (1 + 1 / 2 ^ 52) := hvalue

/-! ## Packing -/

theorem unpack_normal (bits : BitVec Format.binary64.numBits)
    (hzero : (unpackExponent bits).toNat ≠ 0) (hspecial : (unpackExponent bits).toNat ≠ 2047) :
    ∃ s h, UnpackedFloat.unpack Format.binary64 bits =
      .finite s (2 ^ 52 + (unpackMantissa bits).toNat) ((unpackExponent bits).toNat - 1075) h := by
  have hfinite : unpackExponent bits ≠ -1#11 := fun heq ↦ hspecial (by rw [heq]; rfl)
  have hnormal : unpackExponent bits ≠ 0#11 := fun heq ↦ hzero (by rw [heq]; rfl)
  have hmantissa : (1#1 ++ unpackMantissa bits).toNat = 2 ^ 52 + (unpackMantissa bits).toNat := by
    rw [BitVec.toNat_append, ← Nat.shiftLeft_add_eq_or_of_lt (unpackMantissa bits).isLt]
    rfl
  refine ⟨Sign.ofBitVec (unpackSign bits), by positivity, ?_⟩
  unfold UnpackedFloat.unpack
  dsimp only
  rw [if_neg hfinite, if_neg hnormal]
  congr 1

/-- Packing keeps a number of fifty-three bits whose exponent is in range. -/
theorem unpack_pack {m : Nat} {e : Int} (s : Sign) (hm : 0 < m) (hlower : 2 ^ 52 ≤ m)
    (hupper : m < 2 ^ 53) (he : -1074 ≤ e) (he' : e ≤ 971) :
    ∃ s' h, (Float.Model.pack (.finite s m e hm)).unpack = .finite s' m e h := by
  have hlog := log2_eq_of_bounds hlower hupper
  let bits := packComponents Format.binary64 s (BitVec.ofNat 11 (e + 1023 + 52).toNat)
    (BitVec.ofNat 52 m)
  have hpack : UnpackedFloat.pack Format.binary64 (.finite s m e hm) = bits := by
    unfold UnpackedFloat.pack
    dsimp only
    rw [hlog, if_neg, if_pos (by rfl)]
    · rfl
    · change ¬ 2 ^ 11 ≤ (e + (1023 : Nat) + (52 : Nat)).toNat + 1
      omega
  have hexponent : (unpackExponent bits).toNat = (e + 1023 + 52).toNat := by
    rw [unpackExponent_packComponents, BitVec.toNat_ofNat]
    change _ % 2 ^ 11 = _
    omega
  have hmantissa : (unpackMantissa bits).toNat = m - 2 ^ 52 := by
    rw [unpackMantissa_packComponents, BitVec.toNat_ofNat]
    change m % 2 ^ 52 = m - 2 ^ 52
    omega
  obtain ⟨s', h, hunpack⟩ := unpack_normal bits (by omega) (by omega)
  refine ⟨s', hm, ?_⟩
  rw [Float.Model.unpack, Float.Model.pack]
  dsimp only
  rw [hpack]
  refine hunpack.trans ?_
  congr 1
  · omega
  · omega

theorem toNat_unpackExponent (bits : BitVec Format.binary64.numBits) :
    (unpackExponent bits).toNat = bits.toNat / 2 ^ 52 % 2048 := by
  rw [unpackExponent, BitVec.toNat_cast, BitVec.extractLsb_toNat, Nat.shiftRight_eq_div_pow]
  rfl

theorem toNat_unpackMantissa (bits : BitVec Format.binary64.numBits) :
    (unpackMantissa bits).toNat = bits.toNat % 2 ^ 52 := by
  rw [unpackMantissa, BitVec.toNat_cast, BitVec.extractLsb_toNat, Nat.shiftRight_zero]
  rfl

/-- A finite double has a finite magnitude. -/
theorem magnitude_ne_infinite {x : Float} {m : Nat} {e : Int} {s : Sign} {hm : 0 < m}
    (h : x.toModel.unpack = .finite s m e hm) : magnitude x ≠ .infinite := by
  intro hinfinite
  let bits : BitVec Format.binary64.numBits := x.toModel.toBits.toBitVec
  have hspecial : unpackExponent bits = -1#11 ∧ unpackMantissa bits = 0#52 := by
    unfold magnitude at hinfinite
    dsimp only at hinfinite
    split_ifs at hinfinite with hfield hfraction
    exact ⟨BitVec.eq_of_toNat_eq ((toNat_unpackExponent bits).trans hfield),
      BitVec.eq_of_toNat_eq ((toNat_unpackMantissa bits).trans hfraction)⟩
  change UnpackedFloat.unpack Format.binary64 bits = _ at h
  unfold UnpackedFloat.unpack at h
  dsimp only at h
  rw [if_pos hspecial.1, if_pos hspecial.2] at h
  cases h

/-! ## Products -/

/-- Is the double normal, and `m * 2 ^ e` but for its sign? -/
structure IsNormal (x : Float) (m : Nat) (e : Int) : Prop where
  unpack : ∃ s h, x.toModel.unpack = .finite s m e h
  lower : 2 ^ 52 ≤ m
  upper : m < 2 ^ 53
  exponent : -1074 ≤ e
  exponent_le : e ≤ 971

theorem IsNormal.magnitude_ne {x : Float} {m : Nat} {e : Int} (h : IsNormal x m e) :
    magnitude x ≠ .infinite := by
  obtain ⟨s, hm, hunpack⟩ := h.unpack
  exact magnitude_ne_infinite hunpack

/-- A number of at least fifty-three bits that is clearly in range becomes a normal double. -/
theorem exists_isNormal_of_round {x : Float} {m k : Nat} {e : Int} {s : Sign}
    (hx : x.toModel = Float.Model.pack (roundWithAccuracy Format.binary64 s m e .exact))
    (hk : m.log2 = 52 + k) (hm : m ≠ 0) (he : -1074 ≤ e + k)
    (hrange : (m : ℚ) * 2 ^ e < (2 ^ 53 - 1) * 2 ^ (971 : ℤ)) :
    ∃ r E, IsNormal x r E ∧ e + k ≤ E ∧ (r : ℚ) * 2 ^ E ≤ m * 2 ^ e * (1 + 1 / 2 ^ 52) := by
  obtain ⟨r, E, hr, hround, hlower, hupper, hE, hE', hvalue⟩ :=
    exists_roundWithAccuracy s hk hm he hrange
  obtain ⟨s', h, hunpack⟩ := unpack_pack s hr hlower hupper (he.trans hE) hE'
  refine ⟨r, E, ⟨⟨s', h, ?_⟩, hlower, hupper, he.trans hE, hE'⟩, hE, hvalue⟩
  rw [hx, hround, hunpack]

theorem log2_mul_le {m n : Nat} (hm : 2 ^ 52 ≤ m) (hn : 2 ^ 52 ≤ n) :
    ∃ k, (m * n).log2 = 52 + k ∧ 52 ≤ k := by
  have hle : 2 ^ 104 ≤ m * n := by
    calc 2 ^ 104 = 2 ^ 52 * 2 ^ 52 := by norm_num
      _ ≤ m * n := Nat.mul_le_mul hm hn
  have hlog : 104 ≤ (m * n).log2 := (Nat.le_log2 (by omega)).2 hle
  exact ⟨(m * n).log2 - 52, by omega, by omega⟩

/-- A product of normal doubles that is clearly in range is normal. -/
theorem IsNormal.mul {x y : Float} {m n : Nat} {d e : Int} (hx : IsNormal x m d)
    (hy : IsNormal y n e) (hexponent : -1074 ≤ d + e + 52)
    (hrange : (m : ℚ) * 2 ^ d * (n * 2 ^ e) < (2 ^ 53 - 1) * 2 ^ (971 : ℤ)) :
    ∃ r E, IsNormal (x * y) r E ∧ d + e + 52 ≤ E ∧
      (r : ℚ) * 2 ^ E ≤ m * 2 ^ d * (n * 2 ^ e) * (1 + 1 / 2 ^ 52) := by
  obtain ⟨s, hm, hunpack⟩ := hx.unpack
  obtain ⟨t, hn, hunpack'⟩ := hy.unpack
  have hproduct : ((m * n : Nat) : ℚ) * 2 ^ (d + e) = m * 2 ^ d * (n * 2 ^ e) := by
    rw [zpow_add₀ (by norm_num)]
    push_cast
    ring
  have hmodel : (x * y).toModel =
      Float.Model.pack (roundWithAccuracy Format.binary64 (s * t) (m * n) (d + e) .exact) := by
    change Float.Model.pack (UnpackedFloat.mul Format.binary64 x.toModel.unpack y.toModel.unpack) = _
    rw [hunpack, hunpack']
    rfl
  obtain ⟨k, hk, hk'⟩ := log2_mul_le hx.lower hy.lower
  rw [← hproduct] at hrange ⊢
  obtain ⟨r, E, hnormal, hE, hvalue⟩ :=
    exists_isNormal_of_round hmodel hk (Nat.mul_pos hm hn).ne' (by omega) hrange
  exact ⟨r, E, hnormal, by omega, hvalue⟩

end OntoGraph.Number
