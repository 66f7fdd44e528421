import OntoGraph.Proofs.Number.WholeNumerals
import OntoGraph.Proofs.Ontology.LexicalForms

/-!
# Integers as values

An integer is valid if its numeral is the one that its double is written with. Up to `2 ^ 53` these
are all natural numbers; beyond, several numbers share a double and only the shortest of them is
valid.
-/

namespace OntoGraph.Ontology

open Number Text

theorem isBlank_of_isAsciiDigit {c : Char} (h : isAsciiDigit c = true) : isBlank c = false := by
  have hdigits : ∀ n < 10, isBlank (Char.ofNat (48 + n)) = false := by decide
  have hbounds := isAsciiDigit_iff_toNat.1 h
  have hblank := hdigits (c.toNat - 48) (by omega)
  rwa [Nat.add_sub_cancel' hbounds.1, Char.ofNat_toNat] at hblank

/-- A numeral has no blanks. -/
theorem trim_toString (n : Nat) : trim (toString n) = toString n := by
  apply trim_of_no_blanks
  rw [Nat.toString_eq_ofList_toDigits, String.toList_ofList]
  exact fun c hc ↦ isBlank_of_isAsciiDigit (isAsciiDigit_of_mem_toDigits hc)

/-- A canonical whole number without a sign is the shortest for its double. -/
theorem isShortestFor_of_canonical {s : String} {x : Float} {m : Nat} {e : Int}
    (hx : canonicalNumber? s = some x) (hm : magnitude x = .finite m e)
    (hsign : isNegative x = false) (hwhole : isWhole x = true) :
    ∃ n : Nat, trim s = toString n ∧ x = ofDecimal n 0 ∧ IsShortestFor n m e := by
  obtain ⟨hread, hwritten, -⟩ := canonicalNumber?_eq_some_iff.1 hx
  obtain ⟨n, htext, hvalue⟩ := exists_written_eq_toString hm hsign hwhole
  rw [← hwritten, htext, read?_toString, Option.some.injEq] at hread
  refine ⟨n, hwritten.symm.trans htext, hread.symm, isShortestFor_iff_value.2 ⟨?_, hvalue⟩⟩
  rw [ReadAs, hread]
  exact hm

/-- The shortest number for a double is canonical. -/
theorem canonicalNumber?_of_isShortestFor {s : String} {n m : Nat} {e : Int}
    (hs : trim s = toString n) (h : IsShortestFor n m e) :
    canonicalNumber? s = some (ofDecimal n 0) := by
  rw [canonicalNumber?_eq_some_iff, hs, read?_toString]
  exact ⟨rfl, (written_of_isShortestFor h).2, m, e, h.read⟩

/-- The texts of the type of positive integers are the numerals of the positive shortest numbers. -/
theorem acceptsLexical_positiveInteger_iff {s : String} :
    Datatype.acceptsLexical .positiveInteger s = true ↔
      ∃ n : Nat, trim s = toString n ∧ 0 < n ∧ IsShortest n := by
  change ((canonicalNumber? s).any fun x ↦ isWhole x && decide (0.0 < x)) = true ↔ _
  rw [Option.any_eq_true]
  constructor
  · rintro ⟨x, hx, haccepts⟩
    rw [Bool.and_eq_true, decide_eq_true_eq] at haccepts
    obtain ⟨-, m, e, hm⟩ := canonicalNumber?_eq_some hx
    obtain ⟨hne, hsign⟩ := (zero_lt_iff hm).1 haccepts.2
    obtain ⟨n, htext, rfl, hn⟩ := isShortestFor_of_canonical hx hm hsign haccepts.1
    exact ⟨n, htext, Nat.pos_of_ne_zero (contains_of_readAs hn.read hne).1, m, e, hn⟩
  · rintro ⟨n, htext, hpos, m, e, hn⟩
    refine ⟨_, canonicalNumber?_of_isShortestFor htext hn, ?_⟩
    rw [Bool.and_eq_true, decide_eq_true_eq, zero_lt_iff hn.read]
    refine ⟨(written_of_isShortestFor hn).1, ?_, isNegative_ofDecimal n⟩
    have hlower := ((magnitude_ofDecimal_iff hpos.ne').1 hn.read).1
    omega

/-- The texts of the type of natural numbers are the numerals of the shortest numbers and a zero
with a sign. -/
theorem acceptsLexical_nonNegativeInteger_iff {s : String} :
    Datatype.acceptsLexical .nonNegativeInteger s = true ↔
      trim s = "-0" ∨ ∃ n : Nat, trim s = toString n ∧ IsShortest n := by
  constructor
  · intro h
    change ((canonicalNumber? s).any fun x ↦ isWhole x && decide (0.0 ≤ x)) = true at h
    rw [Option.any_eq_true] at h
    obtain ⟨x, hx, haccepts⟩ := h
    rw [Bool.and_eq_true, decide_eq_true_eq] at haccepts
    obtain ⟨hwritten, m, e, hm⟩ := canonicalNumber?_eq_some hx
    cases hsign : isNegative x with
    | true =>
      left
      have hzero := ((zero_le_iff hm).1 haccepts.2).resolve_right (by rw [hsign]; decide)
      subst hzero
      rw [← hwritten, written_negative_zero hm hsign]
    | false =>
      obtain ⟨n, htext, -, hn⟩ := isShortestFor_of_canonical hx hm hsign haccepts.1
      exact .inr ⟨n, htext, m, e, hn⟩
  · rintro (hzero | ⟨n, htext, m, e, hn⟩)
    · have haccepts : Datatype.acceptsLexical .nonNegativeInteger "-0" = true := by decide +kernel
      rw [← hzero] at haccepts
      rwa [← acceptsLexical_writtenForm]
    · change ((canonicalNumber? s).any fun x ↦ isWhole x && decide (0.0 ≤ x)) = true
      rw [Option.any_eq_true]
      refine ⟨_, canonicalNumber?_of_isShortestFor htext hn, ?_⟩
      rw [Bool.and_eq_true, decide_eq_true_eq, zero_le_iff hn.read]
      exact ⟨(written_of_isShortestFor hn).1, .inr (isNegative_ofDecimal n)⟩

/-- A numeral is kept as it is, as a number or as text. -/
theorem lexical_ofLexical_toString {d : Datatype} (hd : d.isNumeric = true) (n : Nat) :
    (d.ofLexical (toString n)).lexical = toString n := by
  have hboolean : d ≠ .boolean := by
    rintro rfl
    cases hd
  unfold Datatype.ofLexical
  rw [if_neg hboolean, if_pos hd]
  cases hx : canonicalNumber? (toString n) with
  | some x => exact (canonicalNumber?_eq_some hx).1.trans (trim_toString n)
  | none => rfl

/-- A numeral is the text of one number only. -/
theorem exists_toString_iff {n : Nat} {P : Nat → Prop} :
    (∃ k : Nat, trim (toString n) = toString k ∧ P k) ↔ P n := by
  rw [trim_toString]
  constructor
  · rintro ⟨k, htext, hk⟩
    rw [Nat.toString_eq_ofList_toDigits, Nat.toString_eq_ofList_toDigits] at htext
    rwa [toDigits_injective (String.ofList_injective htext)]
  · exact fun h ↦ ⟨n, rfl, h⟩

theorem trim_toString_ne (n : Nat) : trim (toString n) ≠ "-0" := by
  rw [trim_toString, Nat.toString_eq_ofList_toDigits]
  intro h
  have hmem : '-' ∈ Nat.toDigits 10 n := by
    rw [← String.toList_ofList (l := Nat.toDigits 10 n), h]
    decide
  exact absurd (isAsciiDigit_of_mem_toDigits hmem) (by decide)

/-- The numeral of a number is valid exactly if the number is the shortest for its double, as all
numbers up to `2 ^ 53` are, and it is kept in any case. No other text is valid but for blanks around
a numeral and for zero with a sign; so no negative number is. -/
theorem integers_accepted (n : Nat) (s : String) :
    ((Datatype.acceptsLexical .nonNegativeInteger (toString n) = true ↔ IsShortest n) ∧
      (Datatype.acceptsLexical .positiveInteger (toString n) = true ↔ 0 < n ∧ IsShortest n) ∧
      (Datatype.ofLexical .nonNegativeInteger (toString n)).lexical = toString n ∧
      (Datatype.ofLexical .positiveInteger (toString n)).lexical = toString n ∧
      (n ≤ 2 ^ 53 → IsShortest n)) ∧
    (Datatype.acceptsLexical .nonNegativeInteger s = true ↔
      trim s = "-0" ∨ ∃ k : Nat, trim s = toString k ∧ IsShortest k) ∧
    (Datatype.acceptsLexical .positiveInteger s = true ↔
      ∃ k : Nat, trim s = toString k ∧ 0 < k ∧ IsShortest k) := by
  refine ⟨⟨?_, ?_, lexical_ofLexical_toString rfl n, lexical_ofLexical_toString rfl n,
    isShortest_of_le⟩, acceptsLexical_nonNegativeInteger_iff, acceptsLexical_positiveInteger_iff⟩
  · rw [acceptsLexical_nonNegativeInteger_iff, or_iff_right (trim_toString_ne n),
      exists_toString_iff]
  · rw [acceptsLexical_positiveInteger_iff, exists_toString_iff]

/-- The number after `2 ^ 53` is read as `2 ^ 53`, so that its numeral is not valid. -/
theorem not_accepts_successor :
    Datatype.acceptsLexical .nonNegativeInteger (toString (2 ^ 53 + 1)) = false := by
  decide +kernel

end OntoGraph.Ontology
