import OntoGraph.Number.Reading
import OntoGraph.Proofs.Number.Bits
import OntoGraph.Proofs.Number.Scaling
import OntoGraph.Proofs.Number.Shortest

/-!
# Nearest doubles

The numbers that round to a double form an interval around it, and the intervals of different
doubles are disjoint. A natural number is read as the double in whose interval it lies.
-/

namespace OntoGraph.Number

open Float.Model Float.Model.UnpackedFloat

/-! ## Rounding to even -/

/-- Do the bits behind the point say where a number lies between two mantissas? -/
def Represents (em : ExtendedMantissa) (x : ℚ) : Prop :=
  match em.roundBit, em.stickyBit with
  | false, false => x = em.mantissa
  | false, true => em.mantissa < x ∧ x < em.mantissa + 1 / 2
  | true, false => x = em.mantissa + 1 / 2
  | true, true => em.mantissa + 1 / 2 < x ∧ x < em.mantissa + 1

theorem Represents.shiftRightOne {em : ExtendedMantissa} {x : ℚ} (h : Represents em x) :
    Represents em.shiftRightOne (x / 2) := by
  obtain ⟨m, roundBit, stickyBit⟩ := em
  have hm : (m : ℚ) = 2 * ((m / 2 : Nat) : ℚ) + ((m % 2 : Nat) : ℚ) := by
    exact_mod_cast (Nat.div_add_mod m 2).symm
  rcases Nat.mod_two_eq_zero_or_one m with hbit | hbit <;>
    cases roundBit <;> cases stickyBit <;>
      simp only [Represents, ExtendedMantissa.shiftRightOne, hbit, Bool.or_false, Bool.or_true,
        bne_self_eq_false, Nat.cast_zero, Nat.cast_one] at h hm ⊢ <;>
      grind

theorem Represents.shiftRight {em : ExtendedMantissa} {x : ℚ} (h : Represents em x) (k : Nat) :
    Represents (em >>> k) (x / 2 ^ k) := by
  induction k with
  | zero => rwa [pow_zero, div_one]
  | succ k ih =>
    rw [pow_succ, ← div_div]
    exact ih.shiftRightOne

/-- A number is rounded by half a step at most, and by exactly half a step only to an even one. -/
theorem Represents.roundedMantissa {em : ExtendedMantissa} {x : ℚ} (h : Represents em x) :
    (em.roundedMantissa - 1 / 2 ≤ x ∧ x ≤ em.roundedMantissa + 1 / 2) ∧
      (em.roundedMantissa % 2 = 1 →
        em.roundedMantissa - 1 / 2 < x ∧ x < em.roundedMantissa + 1 / 2) := by
  obtain ⟨m, roundBit, stickyBit⟩ := em
  cases roundBit <;> cases stickyBit <;>
    simp only [Represents, ExtendedMantissa.roundedMantissa, ExtendedMantissa.accuracy,
      Accuracy.roundToNearestEven] at h ⊢
  · constructor
    · constructor <;> linarith
    · exact fun _ ↦ ⟨by linarith, by linarith⟩
  · constructor
    · constructor <;> linarith
    · exact fun _ ↦ ⟨by linarith, by linarith⟩
  · -- half way between two mantissas the even one is taken
    have heven : (m + m % 2) % 2 = 0 := by omega
    rcases Nat.mod_two_eq_zero_or_one m with hbit | hbit
    · rw [hbit] at heven ⊢
      push_cast
      exact ⟨⟨by linarith, by linarith⟩, fun hodd ↦ by omega⟩
    · rw [hbit] at heven ⊢
      push_cast
      exact ⟨⟨by linarith, by linarith⟩, fun hodd ↦ by omega⟩
  · push_cast
    constructor
    · constructor <;> linarith
    · exact fun _ ↦ ⟨by linarith, by linarith⟩

/-! ## The interval of a double -/

def Interval.Contains (i : Interval) (q : ℚ) : Prop :=
  if i.closed then i.lower ≤ q * i.denominator ∧ q * i.denominator ≤ i.upper
  else i.lower < q * i.denominator ∧ q * i.denominator < i.upper

def lowerEnd (m : Nat) (e : Int) : ℚ :=
  (m - if m = 2 ^ 52 ∧ -1074 < e then 1 / 4 else 1 / 2) * 2 ^ e

def upperEnd (m : Nat) (e : Int) : ℚ := (m + 1 / 2) * 2 ^ e

theorem roundingInterval_ends {m : Nat} (e : Int) (hm : m ≠ 0) :
    ((roundingInterval m e).lower : ℚ) = lowerEnd m e * (roundingInterval m e).denominator ∧
      ((roundingInterval m e).value : ℚ) = m * 2 ^ e * (roundingInterval m e).denominator ∧
      ((roundingInterval m e).upper : ℚ) = upperEnd m e * (roundingInterval m e).denominator := by
  have hbelow : ∀ below : Nat, below ≤ 2 → ((4 * m - below : Nat) : ℚ) = 4 * m - below := by
    intro below hle
    rw [Nat.cast_sub (by omega)]
    push_cast
    rfl
  have htwo : twoTo 52 = 2 ^ 52 := rfl
  unfold roundingInterval lowerEnd upperEnd
  dsimp only
  rw [htwo]
  refine ⟨?_, ?_, ?_⟩
  · rw [Nat.cast_mul, scale_roundingInterval]
    split <;> rw [hbelow _ (by norm_num)] <;> push_cast <;> ring
  · push_cast
    rw [scale_roundingInterval]
    ring
  · push_cast
    rw [scale_roundingInterval]
    ring

theorem contains_roundingInterval_iff {m : Nat} {e : Int} (hm : m ≠ 0) {q : ℚ} :
    (roundingInterval m e).Contains q ↔ (lowerEnd m e ≤ q ∧ q ≤ upperEnd m e) ∧
      (m % 2 = 1 → lowerEnd m e < q ∧ q < upperEnd m e) := by
  obtain ⟨hlower, -, hupper⟩ := roundingInterval_ends e hm
  have hden : (0 : ℚ) < (roundingInterval m e).denominator := by
    exact_mod_cast (Nat.pow_pos (by decide) : 0 < twoTo (2 - e).toNat)
  have hclosed : (roundingInterval m e).closed = (m % 2 == 0) := rfl
  unfold Interval.Contains
  rw [hlower, hupper, hclosed]
  simp only [mul_le_mul_iff_left₀ hden, mul_lt_mul_iff_left₀ hden]
  rcases Nat.mod_two_eq_zero_or_one m with hbit | hbit
  · simp [hbit]
  · simp only [hbit]
    exact ⟨fun h ↦ ⟨⟨h.1.le, h.2.le⟩, fun _ ↦ h⟩, fun h ↦ h.2 trivial⟩

/-- The intervals of the doubles lie in the order of the doubles. -/
theorem lt_of_contains {m m' : Nat} {e e' : Int} {q q' : ℚ} (hm : 2 ^ 52 ≤ m) (hm' : m < 2 ^ 53)
    (hn : 2 ^ 52 ≤ m') (he : -1074 ≤ e) (h : e < e' ∨ e = e' ∧ m < m')
    (hq : (roundingInterval m e).Contains q) (hq' : (roundingInterval m' e').Contains q') :
    q < q' := by
  obtain ⟨⟨-, hupper⟩, hodd⟩ := (contains_roundingInterval_iff (by omega)).1 hq
  obtain ⟨⟨hlower, -⟩, hodd'⟩ := (contains_roundingInterval_iff (by omega)).1 hq'
  have hpow : (0 : ℚ) < 2 ^ e := by positivity
  unfold upperEnd at hupper hodd
  unfold lowerEnd at hlower hodd'
  rcases h with hlt | ⟨rfl, hlt⟩
  · -- the last mantissa is odd, so that the upper end of its interval is excluded
    have hbelow : q < (2 ^ 53 - 1 / 2) * 2 ^ e := by
      rcases Nat.lt_or_ge m (2 ^ 53 - 1) with hless | hlast
      · have hle : (m : ℚ) + 2 ≤ 2 ^ 53 := by exact_mod_cast (by omega : m + 2 ≤ 2 ^ 53)
        exact hupper.trans_lt (mul_lt_mul_of_pos_right (by linarith) hpow)
      · have hle : (m : ℚ) + 1 ≤ 2 ^ 53 := by exact_mod_cast hm'
        exact (hodd (by omega)).2.trans_le (mul_le_mul_of_nonneg_right (by linarith) hpow.le)
    have habove : (2 ^ 52 - 1 / 4) * 2 ^ e' ≤ q' := by
      refine le_trans (mul_le_mul_of_nonneg_right ?_ (by positivity)) hlower
      split_ifs with hleast
      · rw [hleast.1]
        norm_num
      · have hle : (2 : ℚ) ^ 52 + 1 ≤ m' := by exact_mod_cast (by omega : 2 ^ 52 + 1 ≤ m')
        linarith
    have hdouble : 2 * (2 : ℚ) ^ e ≤ 2 ^ e' := by
      calc 2 * (2 : ℚ) ^ e = 2 ^ (e + 1) := by rw [zpow_add₀ (by norm_num), zpow_one, mul_comm]
        _ ≤ 2 ^ e' := zpow_le_zpow_right₀ (by norm_num) (by omega)
    calc q < (2 ^ 53 - 1 / 2) * 2 ^ e := hbelow
      _ = (2 ^ 52 - 1 / 4) * (2 * 2 ^ e) := by ring
      _ ≤ (2 ^ 52 - 1 / 4) * 2 ^ e' := mul_le_mul_of_nonneg_left hdouble (by norm_num)
      _ ≤ q' := habove
  · rw [if_neg (by omega)] at hlower hodd'
    have hnext : (m : ℚ) + 1 ≤ m' := by exact_mod_cast hlt
    have hstep : ((m : ℚ) + 1 / 2) * 2 ^ e ≤ (m' - 1 / 2) * 2 ^ e :=
      mul_le_mul_of_nonneg_right (by linarith) hpow.le
    rcases Nat.mod_two_eq_zero_or_one m with hbit | hbit
    · rcases Nat.lt_or_ge (m + 1) m' with hgap | hgap
      · have hgap' : (m : ℚ) + 1 < m' := by exact_mod_cast hgap
        have hstrict : ((m : ℚ) + 1 / 2) * 2 ^ e < (m' - 1 / 2) * 2 ^ e :=
          mul_lt_mul_of_pos_right (by linarith) hpow
        exact hupper.trans_lt (hstrict.trans_le hlower)
      · exact hupper.trans_lt (hstep.trans_lt (hodd' (by omega)).1)
    · exact (hodd hbit).2.trans_le (hstep.trans hlower)

/-- No number rounds to two doubles. -/
theorem eq_of_contains {m m' : Nat} {e e' : Int} {q : ℚ} (hm : 2 ^ 52 ≤ m) (hm' : m < 2 ^ 53)
    (hn : 2 ^ 52 ≤ m') (hn' : m' < 2 ^ 53) (he : -1074 ≤ e) (he' : -1074 ≤ e')
    (hq : (roundingInterval m e).Contains q) (hq' : (roundingInterval m' e').Contains q) :
    m = m' ∧ e = e' := by
  have hless : ¬(e < e' ∨ e = e' ∧ m < m') := fun h ↦
    lt_irrefl q (lt_of_contains hm hm' hn he h hq hq')
  have hgreater : ¬(e' < e ∨ e' = e ∧ m' < m) := fun h ↦
    lt_irrefl q (lt_of_contains hn hn' hm he' h hq' hq)
  omega

/-! ## Rounding natural numbers -/

/-- A number of at least fifty-three bits is rounded to the double in whose interval it lies. -/
theorem exists_contains_of_round {m k : Nat} {e : Int} (s : Sign) (hk : m.log2 = 52 + k)
    (hm : m ≠ 0) (he : -1074 < e + k) :
    ∃ r E hr, roundWithAccuracy Format.binary64 s m e .exact = .finite s r E hr ∧
      2 ^ 52 ≤ r ∧ r < 2 ^ 53 ∧ e + k ≤ E ∧ (roundingInterval r E).Contains (m * 2 ^ e) := by
  obtain ⟨hlower, hupper⟩ := (Nat.log2_eq_iff hm).1 hk
  rw [Nat.add_right_comm] at hupper
  have hkept := kept_bounds hk hm
  have hrounded := roundedMantissa_le (ExtendedMantissa.mk m false false >>> k)
  rw [mantissa_shiftRight] at hrounded
  dsimp only at hrounded
  have hexact : Represents (ExtendedMantissa.mk m false false) m := Eq.refl (m : ℚ)
  obtain ⟨⟨hbelow, habove⟩, hodd⟩ := (hexact.shiftRight k).roundedMantissa
  generalize hr : (ExtendedMantissa.mk m false false >>> k).roundedMantissa = r
    at hrounded hbelow habove hodd
  have hpow : (0 : ℚ) < 2 ^ (e + k) := by positivity
  have hscaled : (m : ℚ) * 2 ^ e = m / 2 ^ k * 2 ^ (e + k) := by
    rw [zpow_add₀ (by norm_num), zpow_natCast]
    field_simp
  have hfull : (2 : ℚ) ^ 52 ≤ m / 2 ^ k ∧ (m : ℚ) / 2 ^ k < 2 ^ 53 := by
    rw [le_div_iff₀ (by positivity), div_lt_iff₀ (by positivity), ← pow_add, ← pow_add]
    constructor
    · exact_mod_cast hlower
    · exact_mod_cast hupper
  rw [hscaled]
  generalize (m : ℚ) / 2 ^ k = x at hbelow habove hodd hfull
  rcases Nat.lt_or_ge r (2 ^ 53) with hless | hcarry
  · refine ⟨r, e + k, by omega, roundWithAccuracy_of_lt s hk he.le hr (by omega) hless (by omega),
      by omega, hless, le_rfl, ?_⟩
    rw [contains_roundingInterval_iff (by omega)]
    unfold lowerEnd upperEnd
    simp only [mul_le_mul_iff_left₀ hpow, mul_lt_mul_iff_left₀ hpow]
    split_ifs with hleast
    · rw [hleast.1] at habove ⊢
      push_cast at habove ⊢
      exact ⟨⟨by linarith, habove⟩, fun h ↦ h.elim⟩
    · exact ⟨⟨hbelow, habove⟩, hodd⟩
  · have hr' : r = 2 ^ 53 := by omega
    rw [hr'] at hr hbelow
    refine ⟨2 ^ 52, e + k + 1, by positivity, roundWithAccuracy_of_eq s hk he.le hr, le_rfl,
      by norm_num, by omega, ?_⟩
    have hdouble : (2 : ℚ) ^ (e + k + 1) = 2 * 2 ^ (e + k) := by
      rw [zpow_add₀ (by norm_num) (e + k), zpow_one, mul_comm]
    rw [contains_roundingInterval_iff (by positivity)]
    unfold lowerEnd upperEnd
    rw [if_pos ⟨rfl, by omega⟩, hdouble, ← mul_assoc, ← mul_assoc]
    simp only [mul_le_mul_iff_left₀ hpow, mul_lt_mul_iff_left₀ hpow]
    push_cast at hbelow ⊢
    exact ⟨⟨by linarith, by linarith⟩, fun h ↦ h.elim⟩

/-! ## Reading natural numbers -/

/-- A natural number below the fifty-fourth bit is a double. -/
theorem toModel_toFloat_eq {n j : Nat} (hn : n ≠ 0) (hlt : n < 2 ^ 53) (hj : n.log2 + j = 52) :
    ∃ h, n.toUInt64.toFloat.toModel = Float.Model.pack (.finite .positive (n <<< j) (-(j : Int)) h) ∧
      2 ^ 52 ≤ n <<< j ∧ n <<< j < 2 ^ 53 := by
  have hlog : (n <<< j).log2 = 52 := by rw [log2_shiftLeft hn, hj]
  have hne : n <<< j ≠ 0 := by
    rw [Nat.shiftLeft_eq]
    positivity
  obtain ⟨hlower, hupper⟩ := (Nat.log2_eq_iff hne).1 hlog
  refine ⟨Nat.pos_of_ne_zero hne, ?_, hlower, hupper⟩
  rw [toModel_toFloat hn hlt hj, roundWithAccuracy_of_lt (k := 0) .positive hlog (by omega) rfl hlower
    hupper (Nat.pos_of_ne_zero hne)]
  congr 2
  rw [Nat.cast_zero, add_zero]

/-- A natural number is read as the double in whose interval it lies. -/
theorem exists_contains_ofScientific {n : Nat} (hn : n ≠ 0) :
    ∃ m e h, (Float.ofScientific n false 0).toModel =
        Float.Model.pack (.finite .positive m e h) ∧
      2 ^ 52 ≤ m ∧ m < 2 ^ 53 ∧ -52 ≤ e ∧ (roundingInterval m e).Contains n := by
  by_cases hsmall : n < 2 ^ 53
  · obtain ⟨j, hj⟩ := exists_log2_add hn hsmall
    obtain ⟨hpos, hexact, hlower, hupper⟩ := toModel_toFloat_eq hn hsmall hj
    have hone : (Float.ofBits 0x3FF0000000000000).toModel.unpack =
        .finite .positive (2 ^ 52) (-52) (by decide) := by rfl
    have hmodel : (Float.ofScientific n false 0).toModel = Float.Model.pack
        (roundWithAccuracy Format.binary64 .positive (n <<< j * 2 ^ 52) (-(j : Int) + -52) .exact) := by
      unfold Float.ofScientific
      rw [dif_pos ⟨hsmall, by norm_num⟩]
      change Float.Model.pack (UnpackedFloat.mul Format.binary64 n.toUInt64.toFloat.toModel.unpack
        (Float.ofBits 0x3FF0000000000000).toModel.unpack) = _
      rw [hexact, unpack_pack_eq _ hpos hlower hupper (by omega) (by omega), hone]
      rfl
    have hlog : (n <<< j * 2 ^ 52).log2 = 52 + 52 := by
      rw [← Nat.shiftLeft_eq, log2_shiftLeft (by omega), log2_eq_of_bounds hlower hupper]
    have hvalue : ((n <<< j * 2 ^ 52 : Nat) : ℚ) * 2 ^ (-(j : Int) + -52) = n := by
      rw [Nat.shiftLeft_eq, zpow_add₀ (by norm_num), zpow_neg, zpow_natCast]
      push_cast
      field_simp
      norm_num
    obtain ⟨r, E, hr, hround, hlower', hupper', hE, hcontains⟩ :=
      exists_contains_of_round (e := -(j : Int) + -52) .positive hlog (by positivity) (by omega)
    rw [hvalue] at hcontains
    exact ⟨r, E, hr, by rw [hmodel, hround], hlower', hupper', by omega, hcontains⟩
  · have hmodel := toModel_ofScientific (k := 0) hn (fun h ↦ hsmall h.1) (by norm_num)
    rw [pow_zero, mul_one, add_zero] at hmodel
    have hlog : (n <<< 53).log2 = 52 + (n.log2 + 1) := by
      rw [log2_shiftLeft hn]
      omega
    have hvalue : ((n <<< 53 : Nat) : ℚ) * 2 ^ (-53 : ℤ) = n := by
      rw [Nat.shiftLeft_eq]
      push_cast
      rw [mul_assoc]
      norm_num
    have hne : n <<< 53 ≠ 0 := by
      rw [Nat.shiftLeft_eq]
      positivity
    obtain ⟨r, E, hr, hround, hlower, hupper, hE, hcontains⟩ :=
      exists_contains_of_round (e := -53) .positive hlog hne (by omega)
    rw [hvalue] at hcontains
    exact ⟨r, E, hr, by rw [hmodel]; exact congrArg _ hround, hlower, hupper, by omega, hcontains⟩

theorem ofDecimal_eq {n : Nat} (hn : n ≠ 0) : ofDecimal n 0 =
    if 330 < digitCount n then Float.ofScientific 1 false 400
    else Float.ofScientific n false 0 := by
  unfold ofDecimal
  dsimp only
  rw [if_neg (by omega), add_zero]
  simp only [Nat.ofNat_lt_cast]
  rfl

theorem digitCount_le_of_lt {n k : Nat} (hk : 0 < k) (h : n < tenTo k) : digitCount n ≤ k :=
  (Nat.length_toDigits_le_iff (by decide) hk).2 h

/-- A number in the interval of a double has few digits. -/
theorem digitCount_le_of_contains {n m : Nat} {e : Int} (hm : m ≠ 0) (hm' : m < 2 ^ 53)
    (he : e ≤ 971) (h : (roundingInterval m e).Contains n) : digitCount n ≤ 330 := by
  have hupper := ((contains_roundingInterval_iff hm).1 h).1.2
  have hle : (m : ℚ) + 1 / 2 ≤ 2 ^ 53 := by
    have hm'' : (m : ℚ) + 1 ≤ 2 ^ 53 := by exact_mod_cast hm'
    linarith
  have hlast : (2 : ℚ) ^ e ≤ 2 ^ 971 := by
    rw [← zpow_natCast]
    exact zpow_le_zpow_right₀ (by norm_num) he
  have hcast : (n : ℚ) ≤ ((2 ^ 53 * 2 ^ 971 : Nat) : ℚ) := by
    rw [Nat.cast_mul, Nat.cast_pow, Nat.cast_pow, Nat.cast_ofNat]
    exact hupper.trans (mul_le_mul hle hlast (by positivity) (by positivity))
  have hgreat : 2 ^ 53 * 2 ^ 971 < tenTo 330 := by decide +kernel
  have hlt : n < tenTo 330 := Nat.lt_of_le_of_lt (Nat.cast_le.1 hcast) hgreat
  exact digitCount_le_of_lt (by decide) hlt

/-- A natural number is read as a double exactly if it lies in its interval. -/
theorem magnitude_ofDecimal_iff {n m : Nat} {e : Int} (hn : n ≠ 0) :
    magnitude (ofDecimal n 0) = .finite m e ↔
      2 ^ 52 ≤ m ∧ m < 2 ^ 53 ∧ -52 ≤ e ∧ e ≤ 971 ∧ (roundingInterval m e).Contains n := by
  obtain ⟨r, E, hr, hmodel, hlower, hupper, hE, hcontains⟩ := exists_contains_ofScientific hn
  have hread : Float.ofScientific n false 0 =
      .ofModel (Float.Model.pack (.finite .positive r E hr)) := by
    rw [← hmodel]
  rw [ofDecimal_eq hn]
  constructor
  · intro h
    split at h
    · have hinfinite : magnitude (Float.ofScientific 1 false 400) = .infinite := by decide +kernel
      rw [hinfinite] at h
      cases h
    · rw [hread] at h
      rcases le_or_gt E 971 with hle | hgt
      · rw [magnitude_pack .positive hr hlower hupper (by omega) hle] at h
        cases h
        exact ⟨hlower, hupper, hE, hle, hcontains⟩
      · rw [magnitude_pack_of_lt .positive hr hgt] at h
        cases h
  · rintro ⟨hlower', hupper', he, he', hcontains'⟩
    obtain ⟨rfl, rfl⟩ := eq_of_contains hlower hupper hlower' hupper' (by omega) (by omega)
      hcontains hcontains'
    have hcount := digitCount_le_of_contains hr.ne' hupper he' hcontains
    rw [if_neg hcount.not_gt, hread]
    exact magnitude_pack .positive hr hlower hupper (by omega) he'

@[simp] theorem isNegative_ofDecimal (n : Nat) : isNegative (ofDecimal n 0) = false := by
  rcases Nat.eq_zero_or_pos n with rfl | hn
  · decide +kernel
  · rw [ofDecimal_eq hn.ne']
    split
    · decide +kernel
    · obtain ⟨m, e, h, hmodel, -⟩ := exists_contains_ofScientific hn.ne'
      have hsign := signOf_pack .positive e h
      rw [← hmodel] at hsign
      exact isNegative_eq_false_iff.2 hsign

end OntoGraph.Number
