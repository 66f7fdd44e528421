import OntoGraph.Proofs.Json.RoundTrip
import OntoGraph.Proofs.Number.Shortest
import OntoGraph.Proofs.Number.Written

/-!
# The numbers of documents

A numeral has a sign, digits before and after the point, and an exponent. By the grammar of JSON it
is a number unless its whole part starts with zero needlessly, and the written form of a double is
such a numeral.
-/

namespace OntoGraph.Json

open Number

/-- The parts of a number: a sign, digits before and after the point, and the exponent with its
sign. A part that is left out is empty. -/
structure Numeric where
  negative : Bool
  whole : List Char
  fraction : List Char
  exponentSign : List Char
  exponent : List Char

namespace Numeric

def fractionText (n : Numeric) : List Char :=
  if n.fraction = [] then [] else '.' :: n.fraction

def exponentText (n : Numeric) : List Char :=
  if n.exponent = [] then [] else 'e' :: (n.exponentSign ++ n.exponent)

def text (n : Numeric) : List Char :=
  (if n.negative then ['-'] else []) ++ (n.whole ++ (n.fractionText ++ n.exponentText))

/-- Are all parts digits and signs, and is no leading zero needless? -/
structure WellFormed (n : Numeric) : Prop where
  whole_ne_nil : n.whole ≠ []
  whole : ∀ c ∈ n.whole, isAsciiDigit c = true
  leading : n.whole.head? = some '0' → n.whole = ['0']
  fraction : ∀ c ∈ n.fraction, isAsciiDigit c = true
  exponentSign : n.exponentSign ∈ [[], ['+'], ['-']]
  exponent : ∀ c ∈ n.exponent, isAsciiDigit c = true

end Numeric

/-! ## Reading by the grammar -/

/-- Digits are taken up to the first character that is none. -/
theorem takeWhile_digits {digits rest : List Char} (hdigits : ∀ c ∈ digits, isAsciiDigit c = true)
    (hrest : ∀ c ∈ rest.head?, isAsciiDigit c = false) :
    (digits ++ rest).takeWhile isAsciiDigit = digits ∧
      (digits ++ rest).dropWhile isAsciiDigit = rest := by
  rw [List.takeWhile_append_of_pos hdigits, List.dropWhile_append_of_pos hdigits]
  cases rest with
  | nil => exact ⟨List.append_nil _, rfl⟩
  | cons c rest =>
    have hc : ¬ isAsciiDigit c = true := by simp [hrest c rfl]
    rw [List.takeWhile_cons_of_neg hc, List.dropWhile_cons_of_neg hc, List.append_nil]
    exact ⟨rfl, rfl⟩

theorem readDigits?_append {digits rest : List Char} (hne : digits ≠ [])
    (hdigits : ∀ c ∈ digits, isAsciiDigit c = true)
    (hrest : ∀ c ∈ rest.head?, isAsciiDigit c = false) :
    readDigits? (digits ++ rest) = some (digits, rest) := by
  obtain ⟨htake, hdrop⟩ := takeWhile_digits hdigits hrest
  rw [readDigits?, htake, hdrop]
  split
  · exact absurd rfl hne
  · rfl

theorem takeMinus_of_head {input : List Char} (h : ∀ c ∈ input.head?, isAsciiDigit c = true) :
    takeMinus input = ([], input) := by
  unfold takeMinus
  split
  · exact absurd (h '-' rfl) (by decide)
  · rfl

theorem takePlusOrMinus_append {sign rest : List Char} (hsign : sign ∈ [[], ['+'], ['-']])
    (h : ∀ c ∈ rest.head?, isAsciiDigit c = true) :
    takePlusOrMinus (sign ++ rest) = (sign, rest) := by
  simp only [List.mem_cons, List.not_mem_nil, or_false] at hsign
  rcases hsign with rfl | rfl | rfl
  · rw [List.nil_append, takePlusOrMinus]
    · rintro rest rfl
      exact absurd (h '+' rfl) (by decide)
    · rintro rest rfl
      exact absurd (h '-' rfl) (by decide)
  · rfl
  · rfl

namespace Numeric.WellFormed

variable {n : Numeric}

theorem readWholePart? (h : n.WellFormed) {rest : List Char}
    (hrest : ∀ c ∈ rest.head?, isAsciiDigit c = false) :
    Json.readWholePart? (n.whole ++ rest) = some (n.whole, rest) := by
  obtain ⟨c, cs, hcs⟩ := List.exists_cons_of_ne_nil h.whole_ne_nil
  by_cases hc : c = '0'
  · have hzero : n.whole = ['0'] := h.leading (by rw [hcs, hc]; rfl)
    rw [hzero]
    rfl
  · rw [← readDigits?_append h.whole_ne_nil h.whole hrest, hcs, List.cons_append,
      Json.readWholePart?]
    exact fun _ heq ↦ absurd (List.cons.inj heq).1 hc

theorem readFractionPart? (h : n.WellFormed) {rest : List Char}
    (hrest : ∀ c ∈ rest.head?, isAsciiDigit c = false) (hpoint : rest.head? ≠ some '.') :
    Json.readFractionPart? (n.fractionText ++ rest) = some (n.fractionText, rest) := by
  unfold fractionText
  split_ifs with hne
  · rw [List.nil_append, Json.readFractionPart?]
    rintro rest rfl
    exact absurd rfl hpoint
  · rw [List.cons_append, Json.readFractionPart?, readDigits?_append hne h.fraction hrest]
    rfl

theorem readExponentPart? (h : n.WellFormed) {rest : List Char}
    (hrest : ∀ c ∈ rest.head?, isNumberCharacter c = false) :
    Json.readExponentPart? (n.exponentText ++ rest) = some (n.exponentText, rest) := by
  have hdigit : ∀ c ∈ rest.head?, isAsciiDigit c = false := by
    intro c hc
    have := hrest c hc
    simp only [isNumberCharacter, Bool.or_eq_false_iff] at this
    exact this.1.1.1
  unfold exponentText
  split_ifs with hne
  · rw [List.nil_append]
    cases rest with
    | nil => rfl
    | cons c rest =>
      have hc := hrest c rfl
      simp only [isNumberCharacter, Bool.or_eq_false_iff, beq_eq_false_iff_ne] at hc
      rw [Json.readExponentPart?, if_neg (not_or.2 ⟨hc.1.2, hc.2⟩)]
  · have hsign : takePlusOrMinus (n.exponentSign ++ (n.exponent ++ rest)) =
        (n.exponentSign, n.exponent ++ rest) := by
      refine takePlusOrMinus_append h.exponentSign fun c hc ↦ ?_
      rw [List.head?_append_of_ne_nil _ hne] at hc
      exact h.exponent c (List.mem_of_mem_head? hc)
    rw [List.cons_append, List.append_assoc, Json.readExponentPart?, if_pos (.inl rfl), hsign]
    dsimp only
    rw [readDigits?_append hne h.exponent hdigit]
    rfl

theorem not_digit_of_exponentText {rest : List Char}
    (hrest : ∀ c ∈ rest.head?, isNumberCharacter c = false) :
    ∀ c ∈ (n.exponentText ++ rest).head?, isAsciiDigit c = false ∧ c ≠ '.' := by
  intro c hc
  unfold exponentText at hc
  split at hc
  · have hchar := hrest c hc
    simp only [isNumberCharacter, Bool.or_eq_false_iff, beq_eq_false_iff_ne] at hchar
    exact hchar.1.1
  · cases hc
    decide

theorem not_digit_of_fractionText {rest : List Char}
    (hrest : ∀ c ∈ rest.head?, isNumberCharacter c = false) :
    ∀ c ∈ (n.fractionText ++ (n.exponentText ++ rest)).head?, isAsciiDigit c = false := by
  intro c hc
  unfold fractionText at hc
  split at hc
  · exact (not_digit_of_exponentText hrest c hc).1
  · cases hc
    decide

/-- A well-formed number is read up to the first character that continues none. -/
theorem readNumber? (h : n.WellFormed) {rest : List Char}
    (hrest : ∀ c ∈ rest.head?, isNumberCharacter c = false) :
    Json.readNumber? (n.text ++ rest) = some (n.text, rest) := by
  have hexponent := not_digit_of_exponentText (n := n) hrest
  have hsign : takeMinus (n.text ++ rest) = (if n.negative then ['-'] else [],
      n.whole ++ (n.fractionText ++ (n.exponentText ++ rest))) := by
    unfold text
    rw [List.append_assoc, List.append_assoc, List.append_assoc]
    cases n.negative with
    | true => rfl
    | false =>
      refine takeMinus_of_head fun c hc ↦ ?_
      rw [if_neg Bool.false_ne_true, List.nil_append,
        List.head?_append_of_ne_nil _ h.whole_ne_nil] at hc
      exact h.whole c (List.mem_of_mem_head? hc)
  unfold Json.readNumber?
  rw [hsign]
  dsimp only
  rw [h.readWholePart? (not_digit_of_fractionText hrest)]
  simp only [Option.bind_eq_bind, Option.bind_some]
  rw [h.readFractionPart? (fun c hc ↦ (hexponent c hc).1) fun hpoint ↦ (hexponent _ hpoint).2 rfl]
  simp only [Option.bind_some]
  rw [h.readExponentPart? hrest]
  simp only [Option.bind_some, text, List.append_assoc]
  rfl

theorem isNumber (h : n.WellFormed) : IsNumber (String.ofList n.text) where
  starts := by
    obtain ⟨c, cs, hcs⟩ := List.exists_cons_of_ne_nil h.whole_ne_nil
    have hc : isAsciiDigit c = true := h.whole c (by rw [hcs]; exact List.mem_cons_self)
    rw [String.toList_ofList, text]
    cases n.negative with
    | true => exact ⟨'-', rfl, .inl rfl⟩
    | false =>
      rw [hcs]
      exact ⟨c, rfl, .inr hc⟩
  reads := by
    intro rest hrest
    rw [String.toList_ofList]
    exact h.readNumber? hrest

end Numeric.WellFormed

/-! ## Written doubles -/

def numericOf (negative : Bool) (d : Decimal) : Numeric :=
  let digits := Nat.toDigits 10 d.digits
  if documentStyle.positional d.point then
    if 0 ≤ d.exponent then
      ⟨negative, digits ++ List.replicate d.exponent.toNat '0', ['0'], [], []⟩
    else if 0 < d.point then
      ⟨negative, digits.take d.point.toNat, digits.drop d.point.toNat, [], []⟩
    else ⟨negative, ['0'], List.replicate (-d.point).toNat '0' ++ digits, [], []⟩
  else
    ⟨negative, digits.take 1, digits.drop 1, if d.point - 1 < 0 then ['-'] else ['+'],
      Nat.toDigits 10 (d.point - 1).natAbs⟩

theorem text_numericOf (negative : Bool) (d : Decimal) :
    (numericOf negative d).text = (if negative then ['-'] else []) ++
      (if documentStyle.positional d.point then positionalDigits documentStyle d
        else scientificDigits documentStyle d).toList := by
  have hlength : (Nat.toDigits 10 d.digits).length = digitCount d.digits := rfl
  unfold numericOf
  dsimp only
  split
  · unfold positionalDigits
    dsimp only
    split
    · simp [Numeric.text, Numeric.fractionText, Numeric.exponentText, documentStyle]
    · split
      · have hpoint : d.point = digitCount d.digits + d.exponent := rfl
        have hdrop : (Nat.toDigits 10 d.digits).drop d.point.toNat ≠ [] := by
          rw [Ne, List.drop_eq_nil_iff, hlength]
          omega
        simp [Numeric.text, Numeric.fractionText, Numeric.exponentText, hdrop]
      · simp [Numeric.text, Numeric.fractionText, Numeric.exponentText, Nat.toDigits_ne_nil]
  · unfold scientificDigits
    dsimp only
    obtain ⟨c, cs, hcs⟩ := List.exists_cons_of_ne_nil (Nat.toDigits_ne_nil (n := d.digits) (b := 10))
    generalize hsign : (if d.point - 1 < 0 then "-" else documentStyle.positiveExponent) = sign
    have hsigns : (if d.point - 1 < 0 then ['-'] else ['+']) = sign.toList := by
      rw [← hsign]
      split <;> rfl
    rw [hcs, hsigns]
    cases cs with
    | nil => simp [Numeric.text, Numeric.fractionText, Numeric.exponentText, documentStyle]
    | cons next cs => simp [Numeric.text, Numeric.fractionText, Numeric.exponentText, documentStyle]

theorem isAsciiDigit_of_mem_zeros {n : Nat} {c : Char} (h : c ∈ List.replicate n '0') :
    isAsciiDigit c = true := by
  rw [List.eq_of_mem_replicate h]
  decide

theorem Numeric.wellFormed_of_no_exponent {negative : Bool} {whole fraction : List Char}
    (hne : whole ≠ []) (hwhole : ∀ c ∈ whole, isAsciiDigit c = true)
    (hleading : whole.head? = some '0' → whole = ['0'])
    (hfraction : ∀ c ∈ fraction, isAsciiDigit c = true) :
    (Numeric.mk negative whole fraction [] []).WellFormed where
  whole_ne_nil := hne
  whole := hwhole
  leading := hleading
  fraction := hfraction
  exponentSign := List.mem_cons_self
  exponent := by rintro _ ⟨⟩

theorem wellFormed_numericOf (negative : Bool) {d : Decimal} (h : d.digits = 0 → d.exponent = 0) :
    (numericOf negative d).WellFormed := by
  have hdigits : ∀ c ∈ Nat.toDigits 10 d.digits, isAsciiDigit c = true := fun c ↦
    isAsciiDigit_of_mem_toDigits
  have hzero : ∀ c ∈ ['0'], isAsciiDigit c = true := fun _ ↦ isAsciiDigit_of_mem_zeros (n := 1)
  have hne : Nat.toDigits 10 d.digits ≠ [] := Nat.toDigits_ne_nil
  have hpoint : d.point = digitCount d.digits + d.exponent := rfl
  fun_cases numericOf negative d with
  | case1 digits =>
    -- a whole number: only zero starts with a zero
    apply Numeric.wellFormed_of_no_exponent (List.append_ne_nil_of_left_ne_nil hne _)
    · exact fun c hc ↦ (List.mem_append.1 hc).elim (hdigits c) isAsciiDigit_of_mem_zeros
    · intro hhead
      rw [List.head?_append_of_ne_nil _ hne] at hhead
      have hnone : d.digits = 0 := Decidable.byContradiction fun hd ↦ head_toDigits_ne hd hhead
      rw [hnone, h hnone]
      rfl
    · exact hzero
  | case2 digits _ hexponent hpositive =>
    -- a number with a point between its digits, the first of which is no zero
    have hd : d.digits ≠ 0 := fun hnone ↦ hexponent (h hnone).ge
    obtain ⟨k, hk⟩ : ∃ k, d.point.toNat = k + 1 := ⟨d.point.toNat - 1, by omega⟩
    apply Numeric.wellFormed_of_no_exponent
    · simp [hk, digits, hne]
    · exact fun c hc ↦ hdigits c (List.mem_of_mem_take hc)
    · intro hhead
      rw [hk, List.head?_take, if_neg (Nat.succ_ne_zero k)] at hhead
      exact absurd hhead (head_toDigits_ne hd)
    · exact fun c hc ↦ hdigits c (List.mem_of_mem_drop hc)
  | case3 =>
    -- a number below one
    apply Numeric.wellFormed_of_no_exponent (List.cons_ne_nil _ _) hzero fun _ ↦ rfl
    exact fun c hc ↦ (List.mem_append.1 hc).elim isAsciiDigit_of_mem_zeros (hdigits c)
  | case4 digits =>
    constructor
    case whole_ne_nil => simp [digits, hne]
    case whole => exact fun c hc ↦ hdigits c (List.mem_of_mem_take hc)
    case leading =>
      intro hhead
      obtain ⟨c, cs, hcs⟩ := List.exists_cons_of_ne_nil hne
      dsimp only [digits] at hhead
      rw [hcs] at hhead
      dsimp only [digits]
      rw [hcs]
      exact congrArg ([·]) (Option.some.inj hhead)
    case fraction => exact fun c hc ↦ hdigits c (List.mem_of_mem_drop hc)
    case exponentSign =>
      dsimp only
      split <;> simp
    case exponent => exact fun c ↦ isAsciiDigit_of_mem_toDigits

/-- The written form of a finite double is made of parts. -/
theorem written_eq_text {x : Float} {significand : Nat} {exponent : Int}
    (h : magnitude x = .finite significand exponent) :
    written documentStyle x =
      String.ofList (numericOf (isNegative x) (shortest significand exponent)).text := by
  have hsize : (magnitude x != .notANumber) = true := by
    rw [h]
    rfl
  rw [← String.toList_inj, String.toList_ofList, text_numericOf, written,
    hsize, Bool.and_true, h, Magnitude.written]
  cases isNegative x with
  | true =>
    rw [if_pos rfl, if_pos rfl, String.toList_append]
    rfl
  | false => rfl

/-- A double is a number of JSON, or no number is written at all. -/
theorem isNumber_of_ofFloat (x : Float) : ∀ n ∈ (ofFloat x).numbers, IsNumber n := by
  fun_cases ofFloat x with
  | case1 significand exponent hx =>
    intro n hn
    rw [numbers, List.mem_singleton] at hn
    rw [hn, written_eq_text hx]
    refine (wellFormed_numericOf _ fun hzero ↦ ?_).isNumber
    rcases shortest_bounds significand exponent with heq | ⟨hpos, -⟩
    · rw [heq]
    · omega
  | case2 => exact fun n hn ↦ absurd hn List.not_mem_nil

end OntoGraph.Json
