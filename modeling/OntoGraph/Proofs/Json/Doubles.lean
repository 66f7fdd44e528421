import OntoGraph.Proofs.Json.Approximation
import OntoGraph.Proofs.Json.Normal
import OntoGraph.Proofs.Json.Numerals
import OntoGraph.Proofs.Number.Bits

/-!
# Doubles in documents

The number that a document has for a double is read back, if not always as the same double. Its
exact value is at most half a step above the double, and the few greatest doubles are checked one
by one.
-/

namespace OntoGraph.Json

open Number

/-! ## Reading numerals -/

namespace Numeric

def exponentValue (n : Numeric) : Int :=
  if n.exponentSign = ['-'] then -(ofDigits n.exponent : Int) else ofDigits n.exponent

/-- The parts as the reader of numbers finds them. -/
def toNumeral (n : Numeric) : Numeral := ⟨n.negative, n.whole, n.fraction, n.exponentValue⟩

variable {n : Numeric}

theorem WellFormed.readExponent? (h : n.WellFormed) (hsign : n.exponent = [] → n.exponentSign = []) :
    Number.readExponent? n.exponentText = some n.exponentValue := by
  unfold exponentText exponentValue
  by_cases hne : n.exponent = []
  · rw [if_pos hne, hsign hne, hne]
    rfl
  · rw [if_neg hne]
    have hall : n.exponent.all isAsciiDigit = true := List.all_eq_true.2 h.exponent
    have htake : takeSign (n.exponentSign ++ n.exponent) =
        (decide (n.exponentSign = ['-']), n.exponent) := by
      obtain ⟨c, cs, hcs⟩ := List.exists_cons_of_ne_nil hne
      have hc := h.exponent c (by rw [hcs]; exact List.mem_cons_self)
      have hsigns := h.exponentSign
      simp only [List.mem_cons, List.not_mem_nil, or_false] at hsigns
      rcases hsigns with hs | hs | hs
      · rw [hs, hcs, List.nil_append, takeSign]
        · rfl
        · rintro rest heq
          rw [(List.cons.inj heq).1] at hc
          exact absurd hc (by decide)
        · rintro rest heq
          rw [(List.cons.inj heq).1] at hc
          exact absurd hc (by decide)
      · rw [hs]
        rfl
      · rw [hs]
        rfl
    rw [Number.readExponent?, if_pos (.inl rfl), htake]
    dsimp only
    rw [if_pos ⟨hne, hall⟩]
    simp only [decide_eq_true_eq]

/-- The reader of numbers takes the text of a number apart. -/
theorem WellFormed.readNumeral? (h : n.WellFormed)
    (hsign : n.exponent = [] → n.exponentSign = []) :
    Number.readNumeral? n.text = some n.toNumeral := by
  have hstart : takeSign n.text =
      (n.negative, n.whole ++ (n.fractionText ++ n.exponentText)) := by
    obtain ⟨c, cs, hcs⟩ := List.exists_cons_of_ne_nil h.whole_ne_nil
    have hc := h.whole c (by rw [hcs]; exact List.mem_cons_self)
    unfold text
    cases n.negative with
    | true => rfl
    | false =>
      rw [if_neg Bool.false_ne_true, List.nil_append, hcs, List.cons_append, takeSign]
      · rintro rest heq
        rw [(List.cons.inj heq).1] at hc
        exact absurd hc (by decide)
      · rintro rest heq
        rw [(List.cons.inj heq).1] at hc
        exact absurd hc (by decide)
  have hend : ∀ c ∈ ([] : List Char).head?, isNumberCharacter c = false := by rintro _ ⟨⟩
  have hfraction := WellFormed.not_digit_of_fractionText (n := n) hend
  have hexponent := WellFormed.not_digit_of_exponentText (n := n) hend
  rw [List.append_nil] at hfraction hexponent
  obtain ⟨hwhole, hrest⟩ := takeWhile_digits h.whole hfraction
  have hparts : takeFraction (n.fractionText ++ n.exponentText) = (n.fraction, n.exponentText) := by
    unfold fractionText
    by_cases hnone : n.fraction = []
    · rw [if_pos hnone, List.nil_append, hnone, takeFraction]
      rintro rest heq
      rw [heq] at hexponent
      exact (hexponent '.' rfl).2 rfl
    · obtain ⟨htake, hdrop⟩ := takeWhile_digits h.fraction fun c hc ↦ (hexponent c hc).1
      rw [if_neg hnone, List.cons_append, takeFraction, htake, hdrop]
  unfold Number.readNumeral?
  rw [hstart]
  dsimp only
  rw [hwhole, hrest, hparts]
  dsimp only
  rw [if_neg fun hnone ↦ h.whole_ne_nil hnone.1, h.readExponent? hsign]
  rfl

end Numeric

/-! ## Shortest decimals -/

@[simp] theorem ofDigits_toDigits (n : Nat) : ofDigits (Nat.toDigits 10 n) = n :=
  Nat.ofDigitChars_ten_toDigits

theorem exponentSign_numericOf {negative : Bool} {d : Decimal}
    (h : (numericOf negative d).exponent = []) : (numericOf negative d).exponentSign = [] := by
  revert h
  fun_cases numericOf negative d with
  | case1 => exact fun _ ↦ rfl
  | case2 => exact fun _ ↦ rfl
  | case3 => exact fun _ ↦ rfl
  | case4 => exact fun h ↦ absurd h Nat.toDigits_ne_nil

@[simp] theorem exponentValue_nil (negative : Bool) (whole fraction : List Char) :
    Numeric.exponentValue ⟨negative, whole, fraction, [], []⟩ = 0 := by
  rw [Numeric.exponentValue, if_neg (List.cons_ne_nil _ _).symm]
  rfl

theorem exponentValue_toDigits (negative : Bool) (whole fraction : List Char) (e : Int) :
    Numeric.exponentValue
      ⟨negative, whole, fraction, if e < 0 then ['-'] else ['+'], Nat.toDigits 10 e.natAbs⟩ = e := by
  rw [Numeric.exponentValue]
  dsimp only
  rw [ofDigits_toDigits]
  by_cases hneg : e < 0
  · rw [if_pos hneg, if_pos rfl]
    omega
  · rw [if_neg hneg, if_neg (by decide)]
    omega

@[simp] theorem ofDigits_zeros_append (k : Nat) (cs : List Char) :
    ofDigits (List.replicate k '0' ++ cs) = ofDigits cs := by
  rw [ofDigits_append, show ofDigits (List.replicate k '0') = 0 from ?_]
  · rfl
  · exact (Nat.ofDigitChars_replicate_zero).trans (Nat.mul_zero _)

@[simp] theorem ofDigits_append_zeros (cs : List Char) (k : Nat) :
    ofDigits (cs ++ List.replicate k '0') = ofDigits cs * 10 ^ k := by
  rw [ofDigits_append, Nat.ofDigitChars_replicate_zero, Nat.mul_comm]

/-- The parts of a decimal stand for that decimal. -/
theorem value_numericOf (negative : Bool) (d : Decimal) :
    (ofDigits ((numericOf negative d).whole ++ (numericOf negative d).fraction) : ℚ) *
      10 ^ ((numericOf negative d).exponentValue - (numericOf negative d).fraction.length) =
        d.value := by
  have hpoint : d.point = digitCount d.digits + d.exponent := rfl
  have hlength : (Nat.toDigits 10 d.digits).length = digitCount d.digits := rfl
  fun_cases numericOf negative d with
  | case1 digits _ hexponent =>
    rw [exponentValue_nil]
    dsimp only [digits]
    rw [List.append_assoc, show List.replicate d.exponent.toNat '0' ++ ['0'] =
      List.replicate (d.exponent.toNat + 1) '0' from List.replicate_succ'.symm,
      ofDigits_append_zeros, ofDigits_toDigits, Decimal.value]
    push_cast
    rw [mul_assoc, ← zpow_natCast, ← zpow_add₀ (by norm_num)]
    congr 2
    simp
    omega
  | case2 digits _ hexponent hpositive =>
    rw [exponentValue_nil]
    dsimp only [digits]
    rw [List.take_append_drop, ofDigits_toDigits, Decimal.value, List.length_drop, hlength]
    congr 2
    omega
  | case3 digits _ hexponent hpositive =>
    rw [exponentValue_nil]
    dsimp only [digits]
    rw [← List.append_assoc, show ['0'] ++ List.replicate (-d.point).toNat '0' =
      List.replicate ((-d.point).toNat + 1) '0' from rfl, ofDigits_zeros_append,
      ofDigits_toDigits, Decimal.value, List.length_append, List.length_replicate, hlength]
    congr 2
    push_cast
    omega
  | case4 digits _ =>
    rw [exponentValue_toDigits]
    dsimp only [digits]
    rw [List.take_append_drop, ofDigits_toDigits, Decimal.value, List.length_drop, hlength]
    congr 2
    have := Nat.length_toDigits_pos (b := 10) (n := d.digits)
    omega

theorem length_whole_numericOf (negative : Bool) (d : Decimal) :
    (numericOf negative d).whole.length ≤ 16 := by
  have hpoint : d.point = digitCount d.digits + d.exponent := rfl
  have hlength : (Nat.toDigits 10 d.digits).length = digitCount d.digits := rfl
  fun_cases numericOf negative d with
  | case1 digits hpositional hexponent =>
    simp only [documentStyle, Bool.and_eq_true, decide_eq_true_eq] at hpositional
    dsimp only [digits]
    rw [List.length_append, List.length_replicate, hlength]
    omega
  | case2 digits hpositional =>
    simp only [documentStyle, Bool.and_eq_true, decide_eq_true_eq] at hpositional
    dsimp only [digits]
    rw [List.length_take, hlength]
    omega
  | case3 => simp
  | case4 digits =>
    dsimp only [digits]
    rw [List.length_take]
    omega

/-- A decimal has a fraction or an exponent, so it is read as a double. -/
theorem fractional_numericOf (negative : Bool) (d : Decimal) :
    ((numericOf negative d).text.any fun c ↦ c == '.' || c == 'e' || c == 'E') = true := by
  have hpoint : d.point = digitCount d.digits + d.exponent := rfl
  have hlength : (Nat.toDigits 10 d.digits).length = digitCount d.digits := rfl
  have hmarks : (numericOf negative d).fraction ≠ [] ∨ (numericOf negative d).exponent ≠ [] := by
    unfold numericOf
    dsimp only
    split
    · left
      split
      · exact List.cons_ne_nil _ _
      · split
        · dsimp only
          rw [Ne, List.drop_eq_nil_iff, hlength]
          omega
        · exact List.append_ne_nil_of_right_ne_nil _ Nat.toDigits_ne_nil
    · exact .inr Nat.toDigits_ne_nil
  rw [List.any_eq_true]
  rcases hmarks with hfraction | hexponent
  · exact ⟨'.', by simp [Numeric.text, Numeric.fractionText, hfraction], by decide⟩
  · exact ⟨'e', by simp [Numeric.text, Numeric.exponentText, hexponent], by decide⟩

theorem tenTo_le_value {d : Decimal} (hd : 0 < d.digits) : (10 : ℚ) ^ (d.point - 1) ≤ d.value := by
  have hpoint : d.point = digitCount d.digits + d.exponent := rfl
  have hpos : 0 < digitCount d.digits := Nat.length_toDigits_pos
  have hle : 10 ^ (digitCount d.digits - 1) ≤ d.digits := by
    rcases Nat.eq_zero_or_pos (digitCount d.digits - 1) with hone | hmany
    · rw [hone]
      exact hd
    · by_contra hlt
      have := (Nat.length_toDigits_le_iff (by decide) hmany).2 (not_le.1 hlt)
      change digitCount d.digits ≤ _ at this
      omega
  have hle' : (10 : ℚ) ^ (digitCount d.digits - 1) ≤ d.digits := by exact_mod_cast hle
  have hsplit : (10 : ℚ) ^ (d.point - 1) = 10 ^ (digitCount d.digits - 1) * 10 ^ d.exponent := by
    rw [← zpow_natCast, ← zpow_add₀ (by norm_num)]
    congr 1
    omega
  rw [hsplit, Decimal.value]
  exact mul_le_mul_of_nonneg_right hle' (by positivity)

theorem exponentValue_lt {negative : Bool} {d : Decimal} (hd : 0 < d.digits)
    (hrange : d.value ≤ (2 ^ 53 - 10) * 2 ^ (971 : ℤ)) :
    (numericOf negative d).exponentValue < 2 ^ 31 := by
  have hlt : (10 : ℚ) ^ (d.point - 1) < 10 ^ (309 : ℤ) :=
    ((tenTo_le_value hd).trans hrange).trans_lt range_lt_tenTo
  have hexponent : d.point - 1 < 309 := (zpow_lt_zpow_iff_right₀ (by norm_num)).1 hlt
  unfold numericOf
  dsimp only
  split
  · split
    · rw [exponentValue_nil]
      norm_num
    · split
      · rw [exponentValue_nil]
        norm_num
      · rw [exponentValue_nil]
        norm_num
  · rw [exponentValue_toDigits]
    omega

/-- A decimal that is a few steps below the greatest double is read. -/
theorem quantity?_numericOf_isSome (negative : Bool) {d : Decimal} (hd : 0 < d.digits)
    (hrange : d.value ≤ (2 ^ 53 - 10) * 2 ^ (971 : ℤ)) :
    (quantity? (String.ofList (numericOf negative d).text)).isSome = true := by
  have hwell := wellFormed_numericOf negative (d := d) (by omega)
  have hread := hwell.readNumeral? exponentSign_numericOf
  have happroximate : (approximate? (numericOf negative d).toNumeral).isSome = true := by
    refine approximate?_isSome hwell.whole (length_whole_numericOf negative d)
      (exponentValue_lt hd hrange) ?_
    rw [← value_numericOf negative d] at hrange
    exact hrange
  unfold quantity?
  rw [String.toList_ofList, hread]
  simp only [Option.bind_eq_bind, Option.bind_some]
  rw [if_pos (fractional_numericOf negative d), Option.isSome_map]
  exact happroximate

/-! ## Doubles -/

theorem magnitude_bounds {x : Float} {significand : Nat} {exponent : Int}
    (h : magnitude x = .finite significand exponent) : significand < 2 ^ 53 ∧ exponent ≤ 971 := by
  rcases magnitude_eq_finite h with ⟨hsignificand, rfl⟩ | ⟨-, hsignificand, -, hexponent⟩
  · exact ⟨by omega, by norm_num⟩
  · exact ⟨hsignificand, hexponent⟩

/-- Half a step above all but the greatest doubles there is still room. -/
theorem half_step_le {significand : Nat} {exponent : Int} (hsignificand : significand < 2 ^ 53)
    (hexponent : exponent ≤ 971) (hgreat : ¬(exponent = 971 ∧ 2 ^ 53 - 10 ≤ significand)) :
    ((significand : ℚ) + 1 / 2) * 2 ^ exponent ≤ (2 ^ 53 - 10) * 2 ^ (971 : ℤ) := by
  have hlast : (0 : ℚ) < 2 ^ (971 : ℤ) := by positivity
  by_cases hequal : exponent = 971
  · have hlt : significand + 11 ≤ 2 ^ 53 := by omega
    have hle : (significand : ℚ) + 11 ≤ 2 ^ 53 := by exact_mod_cast hlt
    rw [hequal]
    exact mul_le_mul_of_nonneg_right (by linarith) hlast.le
  · have hpow : (2 : ℚ) ^ exponent ≤ 2 ^ (971 : ℤ) / 2 := by
      calc (2 : ℚ) ^ exponent ≤ 2 ^ ((971 : ℤ) - 1) :=
            zpow_le_zpow_right₀ (by norm_num) (by omega)
        _ = 2 ^ (971 : ℤ) / 2 := by rw [zpow_sub₀ (by norm_num), zpow_one]
    have hle : (significand : ℚ) + 1 ≤ 2 ^ 53 := by exact_mod_cast hsignificand
    generalize (2 : ℚ) ^ (971 : ℤ) = last at hpow hlast
    calc ((significand : ℚ) + 1 / 2) * 2 ^ exponent ≤ 2 ^ 53 * (last / 2) :=
          mul_le_mul (by linarith) hpow (by positivity) (by positivity)
      _ ≤ (2 ^ 53 - 10) * last := by linarith

theorem quantity?_greatest : ∀ (negative : Bool) (k : Fin 10),
    (quantity? (String.ofList (numericOf negative (shortest (2 ^ 53 - 10 + k) 971)).text)).isSome =
      true := by
  decide +kernel

theorem quantity?_zero (negative : Bool) :
    (quantity? (String.ofList (numericOf negative ⟨0, 0⟩).text)).isSome = true := by
  cases negative <;> decide +kernel

/-- Every finite double is read back as some number. -/
theorem quantity?_written_isSome {x : Float} {significand : Nat} {exponent : Int}
    (h : magnitude x = .finite significand exponent) :
    (quantity? (written documentStyle x)).isSome = true := by
  obtain ⟨hsignificand, hexponent⟩ := magnitude_bounds h
  rw [written_eq_text h]
  by_cases hgreat : exponent = 971 ∧ 2 ^ 53 - 10 ≤ significand
  · obtain ⟨rfl, hle⟩ := hgreat
    have hk := quantity?_greatest (isNegative x) ⟨significand - (2 ^ 53 - 10), by omega⟩
    rwa [Nat.add_sub_cancel' hle] at hk
  · rcases shortest_bounds significand exponent with hzero | ⟨hpos, hvalue⟩
    · rw [hzero]
      exact quantity?_zero _
    · exact quantity?_numericOf_isSome _ hpos
        (hvalue.trans (half_step_le hsignificand hexponent hgreat))

@[simp] theorem normalizeWithin?_ofFloat_isSome (depth : Nat) (x : Float) :
    (normalizeWithin? depth (ofFloat x)).isSome = true := by
  fun_cases ofFloat x with
  | case1 significand exponent hx =>
    rw [normalizeWithin?, Option.isSome_map]
    exact quantity?_written_isSome hx
  | case2 => simp [normalizeWithin?]

end OntoGraph.Json
