import Mathlib.Data.List.TakeWhile
import OntoGraph.Text.Scan

/-!
# What the steps of the readers find

Each step is characterized by the text that it takes apart.
-/

namespace OntoGraph.Text

@[simp] theorem after?_eq_some_iff {token input rest : List Char} :
    after? token input = some rest ↔ input = token ++ rest := by
  induction token generalizing input with
  | nil => simp [after?]
  | cons c token ih =>
    cases input with
    | nil => simp [after?]
    | cons d input =>
      rw [after?]
      by_cases heq : c = d
      · rw [if_pos heq, ih, heq, List.cons_append, List.cons_inj_right]
      · simp [heq, Ne.symm heq]

@[simp] theorem after?_isSome_iff {token input : List Char} :
    (after? token input).isSome = true ↔ token <+: input := by
  rw [Option.isSome_iff_exists]
  exact exists_congr fun rest ↦ after?_eq_some_iff.trans eq_comm

theorem splitOnce?_append {separator : Char} {front : List Char} (back : List Char)
    (h : separator ∉ front) :
    splitOnce? separator (front ++ separator :: back) = some (front, back) := by
  have hall : ∀ c ∈ front, decide (c ≠ separator) = true := fun c hc ↦
    decide_eq_true fun heq ↦ h (heq ▸ hc)
  unfold splitOnce?
  rw [List.dropWhile_append_of_pos hall, List.takeWhile_append_of_pos hall]
  simp

/-- A text is split at the first occurrence of the separator. -/
theorem splitOnce?_eq_some_iff {separator : Char} {cs front back : List Char} :
    splitOnce? separator cs = some (front, back) ↔
      cs = front ++ separator :: back ∧ separator ∉ front := by
  constructor
  · intro h
    unfold splitOnce? at h
    cases hdrop : cs.dropWhile (· ≠ separator) with
    | nil =>
      rw [hdrop] at h
      cases h
    | cons c rest =>
      rw [hdrop] at h
      cases h
      have hhead : c = separator := by
        have := List.head?_dropWhile_not (fun c ↦ decide (c ≠ separator)) cs
        rw [hdrop] at this
        simpa using this
      subst hhead
      constructor
      · rw [← hdrop]
        exact List.takeWhile_append_dropWhile.symm
      · intro hmem
        simpa using List.mem_takeWhile_imp hmem
  · rintro ⟨rfl, h⟩
    exact splitOnce?_append back h

@[simp] theorem splitOnce?_eq_none_iff {separator : Char} {cs : List Char} :
    splitOnce? separator cs = none ↔ separator ∉ cs := by
  constructor
  · intro h hmem
    obtain ⟨front, back, rfl, hfront⟩ := List.eq_append_cons_of_mem hmem
    rw [splitOnce?_append back hfront] at h
    cases h
  · intro h
    rw [Option.eq_none_iff_forall_ne_some]
    rintro ⟨front, back⟩ hsplit
    obtain ⟨rfl, -⟩ := splitOnce?_eq_some_iff.1 hsplit
    exact h (List.mem_append_right _ List.mem_cons_self)

/-! ## Characters by their code points -/

theorem takeHex?_append {digits : List Char} {n value : Nat} (hlength : digits.length = n)
    (hvalue : hexNumber? digits = some value) (rest : List Char) :
    takeHex? n (digits ++ rest) = some (value, rest) := by
  subst hlength
  rw [takeHex?, if_pos (by simp), List.take_left, List.drop_left, hvalue]
  rfl

/-- What is read as a number of so many digits consists of these digits. -/
theorem takeHex?_eq_some_iff {n value : Nat} {input rest : List Char} :
    takeHex? n input = some (value, rest) ↔
      ∃ digits, digits.length = n ∧ hexNumber? digits = some value ∧ input = digits ++ rest := by
  constructor
  · intro h
    unfold takeHex? at h
    by_cases hle : n ≤ input.length
    · rw [if_pos hle] at h
      obtain ⟨number, hnumber, heq⟩ := Option.map_eq_some_iff.1 h
      cases heq
      exact ⟨input.take n, List.length_take_of_le hle, hnumber,
        (List.take_append_drop n input).symm⟩
    · rw [if_neg hle] at h
      cases h
  · rintro ⟨digits, hlength, hvalue, rfl⟩
    exact takeHex?_append hlength hvalue rest

@[simp] theorem character?_toNat (c : Char) : character? c.toNat = some c := by
  have hvalid : c.toNat.isValidChar := c.valid
  rw [character?, if_pos hvalid, Char.ofNat_toNat]

@[simp] theorem character?_eq_some_iff {code : Nat} {c : Char} :
    character? code = some c ↔ code = c.toNat := by
  constructor
  · intro h
    unfold character? at h
    by_cases hvalid : code.isValidChar
    · rw [if_pos hvalid] at h
      cases h
      rw [Char.ofNat, dif_pos hvalid]
      rfl
    · rw [if_neg hvalid] at h
      cases h
  · rintro rfl
    exact character?_toNat c

/-- The digits of a number are hexadecimal. -/
theorem isSome_hexDigit?_of_hexNumber? {digits : List Char} {value : Nat}
    (h : hexNumber? digits = some value) : ∀ c ∈ digits, (hexDigit? c).isSome = true := by
  unfold hexNumber? at h
  generalize (0 : Nat) = start at h
  induction digits generalizing start with
  | nil => exact fun _ hc ↦ absurd hc List.not_mem_nil
  | cons c digits ih =>
    obtain ⟨next, hc, h⟩ := Option.bind_eq_some_iff.1 h
    obtain ⟨digit, hdigit, -⟩ := Option.map_eq_some_iff.1 hc
    exact List.forall_mem_cons.2 ⟨by rw [hdigit]; rfl, ih _ h⟩

end OntoGraph.Text
