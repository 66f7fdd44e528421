import OntoGraph.Proofs.Number.Rounding

/-!
# Sign and magnitude of a double

A double that is a number is its sign and its magnitude. So they decide how it compares with zero,
and both are found again in what has been packed.
-/

namespace OntoGraph.Number

open Float.Model Float.Model.UnpackedFloat

def signOf (x : Float) : Sign := if isNegative x then .negative else .positive

theorem isNegative_eq_false_iff {x : Float} : isNegative x = false ↔ signOf x = .positive := by
  unfold signOf
  cases isNegative x <;> simp

def Magnitude.unpacked (s : Sign) : Magnitude → UnpackedFloat
  | .infinite => .infinity s
  | .notANumber => .notANumber
  | .finite m e => if h : m = 0 then .zero s else .finite s m e (Nat.pos_of_ne_zero h)

theorem Magnitude.unpacked_finite (s : Sign) {m : Nat} (e : Int) (hm : 0 < m) :
    (Magnitude.finite m e).unpacked s = .finite s m e hm :=
  dif_neg hm.ne'

theorem signOf_eq (x : Float) :
    signOf x = Sign.ofBitVec (@unpackSign .binary64 x.toModel.toBits.toBitVec) := by
  have hbit : (@unpackSign .binary64 x.toModel.toBits.toBitVec).toNat =
      x.toBits.toNat / twoTo 63 % 2 := by
    unfold unpackSign
    rw [BitVec.toNat_cast, BitVec.extractLsb_toNat, Nat.shiftRight_eq_div_pow]
    rfl
  unfold signOf isNegative Sign.ofBitVec
  rw [← hbit]
  rcases BitVec.eq_zero_or_eq_one (@unpackSign .binary64 x.toModel.toBits.toBitVec) with
    hsign | hsign <;> rw [hsign] <;> rfl

/-- A double is unpacked into its sign and its magnitude. -/
theorem unpack_eq (x : Float) : x.toModel.unpack = (magnitude x).unpacked (signOf x) := by
  let bits : BitVec Format.binary64.numBits := x.toModel.toBits.toBitVec
  have hexponent : (unpackExponent bits).toNat = x.toBits.toNat / twoTo 52 % 2048 :=
    toNat_unpackExponent bits
  have hmantissa : (unpackMantissa bits).toNat = x.toBits.toNat % twoTo 52 :=
    toNat_unpackMantissa bits
  have hspecial : unpackExponent bits = -1#11 ↔ (unpackExponent bits).toNat = 2047 :=
    BitVec.toNat_inj.symm
  have hzero : unpackExponent bits = 0#11 ↔ (unpackExponent bits).toNat = 0 :=
    BitVec.toNat_inj.symm
  have hnone : unpackMantissa bits = 0#52 ↔ (unpackMantissa bits).toNat = 0 :=
    BitVec.toNat_inj.symm
  rw [signOf_eq]
  change UnpackedFloat.unpack Format.binary64 bits = _
  unfold magnitude UnpackedFloat.unpack
  dsimp only
  rw [← hexponent, ← hmantissa]
  by_cases hfield : (unpackExponent bits).toNat = 2047
  · rw [if_pos hfield, if_pos (hspecial.2 hfield)]
    by_cases hfraction : (unpackMantissa bits).toNat = 0
    · rw [if_pos hfraction, if_pos (hnone.2 hfraction)]
      rfl
    · rw [if_neg hfraction, if_neg (mt hnone.1 hfraction)]
      rfl
  · rw [if_neg hfield, if_neg (mt hspecial.1 hfield)]
    by_cases hsmall : (unpackExponent bits).toNat = 0
    · rw [if_pos hsmall, if_pos (hzero.2 hsmall), Magnitude.unpacked]
      by_cases hfraction : (unpackMantissa bits).toNat = 0
      · rw [dif_pos hfraction, dif_pos (hnone.2 hfraction)]
      · rw [dif_neg hfraction, dif_neg (mt hnone.1 hfraction), hsmall]
        rfl
    · rw [if_neg hsmall, if_neg (mt hzero.1 hsmall)]
      have hbits : (1#1 ++ unpackMantissa bits).toNat = twoTo 52 + (unpackMantissa bits).toNat := by
        rw [BitVec.toNat_append, ← Nat.shiftLeft_add_eq_or_of_lt (unpackMantissa bits).isLt]
        rfl
      have hpos : 0 < twoTo 52 + (unpackMantissa bits).toNat :=
        Nat.add_pos_left (Nat.pow_pos (by decide)) _
      rw [Magnitude.unpacked_finite _ _ hpos, UnpackedFloat.finite.injEq]
      exact ⟨rfl, hbits, rfl⟩

theorem magnitude_of_unpack {x : Float} {s : Sign} {m : Nat} {e : Int} {hm : 0 < m}
    (h : x.toModel.unpack = .finite s m e hm) : magnitude x = .finite m e ∧ signOf x = s := by
  rw [unpack_eq] at h
  cases hx : magnitude x with
  | infinite =>
    rw [hx] at h
    cases h
  | notANumber =>
    rw [hx] at h
    cases h
  | finite m' e' =>
    rw [hx, Magnitude.unpacked] at h
    by_cases hzero : m' = 0
    · rw [dif_pos hzero] at h
      cases h
    · rw [dif_neg hzero] at h
      cases h
      exact ⟨rfl, rfl⟩

theorem magnitude_of_unpack_infinity {x : Float} {s : Sign} (h : x.toModel.unpack = .infinity s) :
    magnitude x = .infinite := by
  rw [unpack_eq] at h
  cases hx : magnitude x with
  | infinite => rfl
  | notANumber =>
    rw [hx] at h
    cases h
  | finite m' e' =>
    rw [hx, Magnitude.unpacked] at h
    by_cases hzero : m' = 0
    · rw [dif_pos hzero] at h
      cases h
    · rw [dif_neg hzero] at h
      cases h

/-- A finite double is subnormal, or has fifty-three bits. -/
theorem magnitude_eq_finite {x : Float} {m : Nat} {e : Int} (h : magnitude x = .finite m e) :
    (m < 2 ^ 52 ∧ e = -1074) ∨ (2 ^ 52 ≤ m ∧ m < 2 ^ 53 ∧ -1074 ≤ e ∧ e ≤ 971) := by
  have htwo : twoTo 52 = 2 ^ 52 := rfl
  unfold magnitude at h
  dsimp only at h
  rw [htwo] at h
  split at h
  · split at h <;> cases h
  · split at h
    · cases h
      omega
    · cases h
      omega

/-! ## Packing -/

theorem unpackSign_packComponents {spec : Format} {s : Sign} {e : BitVec spec.exponentBits}
    {m : BitVec spec.mantissaBitsWithoutImplicit} :
    unpackSign (packComponents spec s e m) = s.toBitVec := by
  ext i hi
  have hi' : i = 0 := by omega
  subst hi'
  unfold unpackSign packComponents
  simp [BitVec.getLsbD_eq_getElem, BitVec.getLsbD_append, BitVec.getElem_append]

theorem signOf_pack (s : Sign) {m : Nat} (e : Int) (hm : 0 < m) :
    signOf (.ofModel (Float.Model.pack (.finite s m e hm))) = s := by
  have hsign : Sign.ofBitVec s.toBitVec = s := by cases s <;> rfl
  rw [signOf_eq]
  change Sign.ofBitVec (unpackSign (UnpackedFloat.pack Format.binary64 (.finite s m e hm))) = s
  unfold UnpackedFloat.pack
  dsimp only
  split
  · rw [packedInfinity, unpackSign_packComponents, hsign]
  · split <;> rw [unpackSign_packComponents, hsign]

/-- A number of fifty-three bits is packed as it is unless it is too great. -/
theorem magnitude_pack (s : Sign) {m : Nat} {e : Int} (hm : 0 < m) (hlower : 2 ^ 52 ≤ m)
    (hupper : m < 2 ^ 53) (he : -1074 ≤ e) (he' : e ≤ 971) :
    magnitude (.ofModel (Float.Model.pack (.finite s m e hm))) = .finite m e := by
  obtain ⟨s', h, hunpack⟩ := unpack_pack s hm hlower hupper he he'
  exact (magnitude_of_unpack hunpack).1

theorem unpack_pack_eq (s : Sign) {m : Nat} {e : Int} (hm : 0 < m) (hlower : 2 ^ 52 ≤ m)
    (hupper : m < 2 ^ 53) (he : -1074 ≤ e) (he' : e ≤ 971) :
    (Float.Model.pack (.finite s m e hm)).unpack = .finite s m e hm := by
  have h := unpack_eq (.ofModel (Float.Model.pack (.finite s m e hm)))
  rwa [signOf_pack, magnitude_pack s hm hlower hupper he he', Magnitude.unpacked_finite s e hm] at h

theorem magnitude_pack_of_lt (s : Sign) {m : Nat} {e : Int} (hm : 0 < m) (he : 971 < e) :
    magnitude (.ofModel (Float.Model.pack (.finite s m e hm))) = .infinite := by
  have hpack : UnpackedFloat.pack Format.binary64 (.finite s m e hm) =
      packedInfinity Format.binary64 s := by
    unfold UnpackedFloat.pack
    apply if_pos
    change 2 ^ 11 ≤ (e + (1023 : Nat) + (52 : Nat)).toNat + 1
    omega
  have hmantissa : unpackMantissa (packComponents Format.binary64 s (-1#11) 0) = 0#52 :=
    unpackMantissa_packComponents
  apply magnitude_of_unpack_infinity (s := Sign.ofBitVec s.toBitVec)
  change UnpackedFloat.unpack Format.binary64 (UnpackedFloat.pack Format.binary64 _) = _
  rw [hpack, packedInfinity]
  unfold UnpackedFloat.unpack
  dsimp only
  rw [if_pos unpackExponent_packComponents, if_pos hmantissa, unpackSign_packComponents]

/-! ## Comparison with zero -/

section Comparison

variable {x : Float} {m : Nat} {e : Int}

/-- Zero compares with a double that is a number by its sign alone, unless it is zero itself. -/
theorem compare_zero_unpack (h : magnitude x = .finite m e) :
    (UnpackedFloat.zero .positive).compare x.toModel.unpack =
      some (if m = 0 then .eq else if isNegative x then .gt else .lt) := by
  rw [unpack_eq, h, signOf]
  rcases Nat.eq_zero_or_pos m with rfl | hm
  · cases isNegative x <;> rfl
  · rw [Magnitude.unpacked_finite _ _ hm, if_neg hm.ne']
    cases isNegative x <;> rfl

theorem zero_le_iff (h : magnitude x = .finite m e) :
    (0.0 : Float) ≤ x ↔ m = 0 ∨ isNegative x = false := by
  have hmodel : (0.0 : Float) ≤ x ↔ (UnpackedFloat.zero .positive).le x.toModel.unpack = true :=
    decide_eq_true_iff
  rw [hmodel, UnpackedFloat.le, compare_zero_unpack h]
  by_cases hm : m = 0 <;> cases hsign : isNegative x <;> simp [hm]

theorem zero_lt_iff (h : magnitude x = .finite m e) :
    (0.0 : Float) < x ↔ m ≠ 0 ∧ isNegative x = false := by
  have hmodel : (0.0 : Float) < x ↔ (UnpackedFloat.zero .positive).lt x.toModel.unpack = true :=
    decide_eq_true_iff
  rw [hmodel, UnpackedFloat.lt, compare_zero_unpack h]
  by_cases hm : m = 0 <;> cases hsign : isNegative x <;> simp [hm]

end Comparison

end OntoGraph.Number
