import Mathlib.Data.List.TakeWhile
import OntoGraph.Number.Written
import OntoGraph.Proofs.Number.Digits
import OntoGraph.Proofs.Number.ShortestNumeral

/-!
# Whole doubles as numerals

A whole double is written as the numeral of its shortest number, and a numeral is read as the double
nearest to its number.
-/

namespace OntoGraph.Number

/-! ## Reading numerals -/

theorem isAsciiDigit_iff_toNat {c : Char} :
    isAsciiDigit c = true ↔ 48 ≤ c.toNat ∧ c.toNat ≤ 57 :=
  Char.isDigit_iff_toNat

theorem toLower_of_isAsciiDigit {c : Char} (h : isAsciiDigit c = true) : c.toLower = c := by
  have hbounds := isAsciiDigit_iff_toNat.1 h
  unfold Char.toLower
  rw [dif_neg]
  rintro ⟨hupper, -⟩
  have hle : 65 ≤ c.toNat := UInt32.le_iff_toNat_le.1 hupper
  omega

theorem readSpecial?_of_digits {cs : List Char} (h : ∀ c ∈ cs, isAsciiDigit c = true)
    (hsign : takeSign cs = (false, cs)) : readSpecial? cs = none := by
  have hlower : cs.map Char.toLower = cs := by
    rw [List.map_congr_left fun c hc ↦ toLower_of_isAsciiDigit (h c hc), List.map_id']
  have hne : ∀ {s : String}, String.ofList cs = s → ∀ c ∈ s.toList, isAsciiDigit c = true := by
    rintro _ rfl
    rwa [String.toList_ofList]
  unfold readSpecial?
  rw [hsign]
  dsimp only
  rw [hlower]
  split
  case h_1 heq => exact absurd (hne heq 'i' (by decide)) (by decide)
  case h_2 heq => exact absurd (hne heq 'i' (by decide)) (by decide)
  case h_3 heq => exact absurd (hne heq 'n' (by decide)) (by decide)
  case h_4 => rfl

theorem takeSign_of_digits {cs : List Char} (h : ∀ c ∈ cs, isAsciiDigit c = true) :
    takeSign cs = (false, cs) := by
  unfold takeSign
  split
  · exact absurd (h '-' List.mem_cons_self) (by decide)
  · exact absurd (h '+' List.mem_cons_self) (by decide)
  · rfl

theorem readNumeral?_of_digits {cs : List Char} (hne : cs ≠ [])
    (h : ∀ c ∈ cs, isAsciiDigit c = true) : readNumeral? cs = some ⟨false, cs, [], 0⟩ := by
  have htake : cs.takeWhile isAsciiDigit = cs := List.takeWhile_eq_self_iff.2 h
  have hdrop : cs.dropWhile isAsciiDigit = [] := List.dropWhile_eq_nil_iff.2 h
  have hfraction : takeFraction [] = ([], []) := rfl
  unfold readNumeral?
  rw [takeSign_of_digits h]
  dsimp only
  rw [htake, hdrop, hfraction]
  dsimp only
  rw [if_neg fun hnone ↦ hne hnone.1]
  rfl

/-- A numeral is read as the double nearest to its number. -/
theorem read?_toString (n : Nat) : read? (toString n) = some (ofDecimal n 0) := by
  have hdigits : ∀ c ∈ Nat.toDigits 10 n, isAsciiDigit c = true := fun c ↦
    isAsciiDigit_of_mem_toDigits
  have hvalue : ofDigits (Nat.toDigits 10 n) = n := Nat.ofDigitChars_ten_toDigits
  unfold read?
  rw [Nat.toString_eq_ofList_toDigits, String.toList_ofList,
    readSpecial?_of_digits hdigits (takeSign_of_digits hdigits),
    readNumeral?_of_digits Nat.toDigits_ne_nil hdigits]
  simp only [Option.map_some, Numeral.toFloat, List.append_nil, hvalue]
  rfl

/-! ## Writing numerals -/

theorem toDigits_mul_tenTo {n : Nat} (hn : 0 < n) (k : Nat) :
    Nat.toDigits 10 (n * 10 ^ k) = Nat.toDigits 10 n ++ List.replicate k '0' := by
  induction k with
  | zero => rw [pow_zero, Nat.mul_one, List.replicate_zero, List.append_nil]
  | succ k ih =>
    have hpos : 0 < n * 10 ^ k := by positivity
    rw [Nat.pow_succ, ← Nat.mul_assoc, Nat.toDigits_of_base_le (by decide) (by omega),
      Nat.mul_div_cancel _ (by decide), Nat.mul_mod_left, ih, List.append_assoc,
      List.replicate_succ']
    rfl

/-- A decimal without digits behind the point is written as the numeral of its value. -/
theorem positionalDigits_of_whole {d : Decimal} {n : Nat} (hexponent : 0 ≤ d.exponent)
    (hdigits : d.digits = 0 → d.exponent = 0) (hvalue : d.value = n) :
    positionalDigits valueStyle d = toString n := by
  obtain ⟨k, hk⟩ := Int.eq_ofNat_of_zero_le hexponent
  have hn : n = d.digits * 10 ^ k := by
    rw [Decimal.value, hk, zpow_natCast] at hvalue
    exact_mod_cast hvalue.symm
  have htext : Nat.toDigits 10 n = Nat.toDigits 10 d.digits ++ List.replicate k '0' := by
    rcases Nat.eq_zero_or_pos d.digits with hzero | hpos
    · have hk' : k = 0 := by
        have := hdigits hzero
        omega
      rw [hn, hk', hzero]
      rfl
    · rw [hn, toDigits_mul_tenTo hpos]
  unfold positionalDigits
  dsimp only
  rw [if_pos hexponent, hk, Int.toNat_natCast, ← htext, Nat.toString_eq_ofList_toDigits]
  exact String.append_empty

/-! ## Whole doubles -/

section Whole

variable {x : Float} {m : Nat} {e : Int}

theorem isWhole_iff (h : magnitude x = .finite m e) :
    isWhole x = true ↔ ∃ v : Nat, (v : ℚ) = m * 2 ^ e := by
  unfold isWhole
  rw [h]
  simp only [Bool.or_eq_true, decide_eq_true_eq, beq_iff_eq]
  rcases le_or_gt 0 e with he | he
  · obtain ⟨j, rfl⟩ := Int.eq_ofNat_of_zero_le he
    simp only [he, true_or, true_iff]
    exact ⟨m * 2 ^ j, by push_cast; rfl⟩
  · obtain ⟨j, rfl⟩ := Int.exists_eq_neg_ofNat he.le
    rw [neg_neg, Int.toNat_natCast, or_iff_right he.not_ge, ← Nat.dvd_iff_mod_eq_zero, zpow_neg,
      zpow_natCast]
    apply exists_congr
    intro v
    rw [← div_eq_mul_inv, eq_div_iff (by positivity), Nat.mul_comm]
    change m = v * 2 ^ j ↔ _
    rw [eq_comm, ← Nat.cast_inj (R := ℚ)]
    push_cast
    rfl

/-- A whole double is zero, or it has fifty-three bits. -/
theorem bounds_of_whole (h : magnitude x = .finite m e) (hm : m ≠ 0) {v : Nat}
    (hv : (v : ℚ) = m * 2 ^ e) : 2 ^ 52 ≤ m ∧ m < 2 ^ 53 ∧ -52 ≤ e ∧ e ≤ 971 := by
  have hpos : (1 : ℚ) ≤ m * 2 ^ e := by
    have hne : v ≠ 0 := by
      rintro rfl
      rw [Nat.cast_zero, eq_comm, mul_eq_zero] at hv
      exact hv.elim (by exact_mod_cast hm) (by positivity)
    rw [← hv]
    exact_mod_cast Nat.pos_of_ne_zero hne
  have hexponent : m < 2 ^ 53 → -52 ≤ e := by
    intro hm'
    by_contra hlt
    have hpow : (2 : ℚ) ^ e ≤ 2 ^ (-53 : ℤ) := zpow_le_zpow_right₀ (by norm_num) (by omega)
    have hless : (m : ℚ) * 2 ^ e < 2 ^ 53 * 2 ^ (-53 : ℤ) :=
      mul_lt_mul_of_lt_of_le_of_nonneg_of_pos (by exact_mod_cast hm') hpow (by positivity)
        (by positivity)
    norm_num at hless
    linarith
  rcases magnitude_eq_finite h with ⟨hsmall, hleast⟩ | ⟨hlower, hupper, -, he⟩
  · have := hexponent (by omega)
    omega
  · exact ⟨hlower, hupper, hexponent hupper, he⟩

@[simp] theorem shortest_zero (e : Int) : shortest 0 e = ⟨0, 0⟩ := if_pos rfl

/-- A whole double is written as the numeral of its shortest decimal. -/
theorem exists_written_eq_toString (h : magnitude x = .finite m e) (hsign : isNegative x = false)
    (hwhole : isWhole x = true) :
    ∃ n : Nat, written valueStyle x = toString n ∧ (shortest m e).value = n := by
  have hwritten : written valueStyle x = positionalDigits valueStyle (shortest m e) := by
    unfold written
    rw [h, hsign]
    rfl
  rcases Nat.eq_zero_or_pos m with rfl | hm
  · rw [shortest_zero] at hwritten ⊢
    have hvalue : (Decimal.mk 0 0).value = (0 : Nat) := by rw [Decimal.value, Nat.cast_zero, zero_mul]
    exact ⟨0, hwritten.trans (positionalDigits_of_whole le_rfl (fun _ ↦ rfl) hvalue), hvalue⟩
  · obtain ⟨v, hv⟩ := (isWhole_iff h).1 hwhole
    obtain ⟨hlower, hupper, he, he'⟩ := bounds_of_whole h hm.ne' hv
    obtain ⟨hexponent, -, -, n, -, hvalue⟩ := exists_firstGrid hlower hupper he he' hv
    refine ⟨n, hwritten.trans (positionalDigits_of_whole hexponent ?_ hvalue), hvalue⟩
    intro hzero
    rcases shortest_bounds m e with hnone | ⟨hpos, -⟩
    · rw [hnone]
    · exact absurd hzero hpos.ne'

/-- A negative zero is written with its sign. -/
theorem written_negative_zero (h : magnitude x = .finite 0 e) (hsign : isNegative x = true) :
    written valueStyle x = "-0" := by
  have hzero : (Magnitude.finite 0 e).written valueStyle = "0" := by
    unfold Magnitude.written
    dsimp only
    rw [shortest_zero]
    decide +kernel
  have hnumber : (Magnitude.finite 0 e != .notANumber) = true := rfl
  unfold written
  rw [h, hsign]
  dsimp only
  rw [hzero, hnumber]
  decide +kernel

/-- The double that the shortest number is read as is written as that number. -/
theorem written_of_isShortestFor {n : Nat} (h : IsShortestFor n m e) :
    isWhole (ofDecimal n 0) = true ∧ written valueStyle (ofDecimal n 0) = toString n := by
  obtain ⟨hread, hvalue⟩ := isShortestFor_iff_value.1 h
  have hwhole : isWhole (ofDecimal n 0) = true := by
    rw [isWhole_iff hread]
    rcases Nat.eq_zero_or_pos m with rfl | hm
    · exact ⟨0, by rw [Nat.cast_zero, zero_mul]⟩
    · exact exists_whole hm.ne' (contains_of_readAs hread hm.ne').2.2.2.2.2
  obtain ⟨n', hwritten, hvalue'⟩ :=
    exists_written_eq_toString hread (isNegative_ofDecimal n) hwhole
  have hequal : n' = n := by exact_mod_cast hvalue'.symm.trans hvalue
  exact ⟨hwhole, by rw [hwritten, hequal]⟩

end Whole

end OntoGraph.Number
