import Mathlib.Tactic.LinearCombination
import OntoGraph.Proofs.Number.Nearest

/-!
# The coarsest grid

The shortest decimal is searched on finer and finer decimal grids. On each grid the nearest point
of the interval is found if the interval has a point of the grid at all.
-/

namespace OntoGraph.Number

namespace Interval

variable {i : Interval} {q q' : ℚ}

/-- The number in the interval that the others round to. -/
def center (i : Interval) : ℚ := i.value / i.denominator

/-- Does the number lie between the ends? -/
structure Proper (i : Interval) : Prop where
  lower : i.lower < i.value
  upper : i.value < i.upper
  denominator : 0 < i.denominator

/-- The interval has every number between two of its numbers. -/
theorem Contains.between {a b : ℚ} (ha : i.Contains a) (hb : i.Contains b) (hle : a ≤ q)
    (hge : q ≤ b) : i.Contains q := by
  have hden : (0 : ℚ) ≤ i.denominator := by positivity
  have hle' := mul_le_mul_of_nonneg_right hle hden
  have hge' := mul_le_mul_of_nonneg_right hge hden
  unfold Contains at *
  by_cases hclosed : i.closed
  · rw [if_pos hclosed] at ha hb ⊢
    exact ⟨ha.1.trans hle', hge'.trans hb.2⟩
  · rw [if_neg hclosed] at ha hb ⊢
    exact ⟨ha.1.trans_le hle', hge'.trans_lt hb.2⟩

theorem Proper.contains_center (h : i.Proper) : i.Contains i.center := by
  have hden : (i.denominator : ℚ) ≠ 0 := by exact_mod_cast h.denominator.ne'
  have hlower : (i.lower : ℚ) < i.value := by exact_mod_cast h.lower
  have hupper : (i.value : ℚ) < i.upper := by exact_mod_cast h.upper
  unfold Contains center
  rw [div_mul_cancel₀ _ hden]
  split
  · exact ⟨hlower.le, hupper.le⟩
  · exact ⟨hlower, hupper⟩

/-! ## The grids -/

theorem holds_iff_contains {c : Nat} {k : Int} :
    i.holds c k = true ↔ i.Contains (c * 10 ^ k) := by
  have hpos : (0 : ℚ) < 10 ^ (-k).toNat := by positivity
  have hpoint : (c : ℚ) * 10 ^ k.toNat * i.denominator =
      c * 10 ^ k * i.denominator * 10 ^ (-k).toNat := by
    rw [pow_toNat (by norm_num)]
    ring
  unfold holds Contains
  dsimp only
  split <;>
    simp only [Bool.and_eq_true, decide_eq_true_eq, ← Nat.cast_le (α := ℚ),
      ← Nat.cast_lt (α := ℚ), Nat.cast_mul, cast_tenTo, hpoint, mul_le_mul_iff_left₀ hpos,
      mul_lt_mul_iff_left₀ hpos]

/-- The step of a grid and the center over one denominator. -/
theorem exists_scale (k : Int) (hden : 0 < i.denominator) :
    ∃ scale : ℚ, 0 < scale ∧ ((tenTo k.toNat * i.denominator : Nat) : ℚ) = 10 ^ k * scale ∧
      ((i.value * tenTo (-k).toNat : Nat) : ℚ) = i.center * scale := by
  have hden' : (0 : ℚ) < i.denominator := by exact_mod_cast hden
  refine ⟨i.denominator * 10 ^ (-k).toNat, by positivity, ?_, ?_⟩
  · rw [Nat.cast_mul, cast_tenTo, pow_toNat (by norm_num)]
    ring
  · rw [Nat.cast_mul, cast_tenTo, center]
    field_simp

/-- The index of the last point of a grid that is at most the center. -/
def floorOnGrid (i : Interval) (k : Int) : Nat :=
  i.value * tenTo (-k).toNat / (tenTo k.toNat * i.denominator)

theorem floorOnGrid_le_center (k : Int) (hden : 0 < i.denominator) :
    (i.floorOnGrid k : ℚ) * 10 ^ k ≤ i.center := by
  obtain ⟨scale, hscale, hunit, hvalue⟩ := i.exists_scale k hden
  have hle : i.floorOnGrid k * (tenTo k.toNat * i.denominator) ≤ i.value * tenTo (-k).toNat :=
    Nat.div_mul_le_self _ _
  rw [← Nat.cast_le (α := ℚ), Nat.cast_mul, hunit, hvalue, ← mul_assoc] at hle
  exact le_of_mul_le_mul_right hle hscale

theorem center_lt_floorOnGrid_succ (k : Int) (hden : 0 < i.denominator) :
    i.center < ((i.floorOnGrid k + 1 : Nat) : ℚ) * 10 ^ k := by
  obtain ⟨scale, hscale, hunit, hvalue⟩ := i.exists_scale k hden
  have hpos : 0 < tenTo k.toNat * i.denominator := Nat.mul_pos (Nat.pow_pos (by decide)) hden
  have hlt : i.value * tenTo (-k).toNat <
      (i.floorOnGrid k + 1) * (tenTo k.toNat * i.denominator) := by
    rw [Nat.mul_comm (_ + 1)]
    exact Nat.lt_mul_div_succ _ hpos
  rw [← Nat.cast_lt (α := ℚ), Nat.cast_mul (_ + 1), hunit, hvalue, ← mul_assoc] at hlt
  exact lt_of_mul_lt_mul_right hlt hscale.le

/-- The distances of the two points beside the center are compared by the rest of a division. -/
theorem rest_lt_iff (k : Int) (hden : 0 < i.denominator) :
    let unit := tenTo k.toNat * i.denominator
    let rest := i.value * tenTo (-k).toNat % unit
    let below := i.center - i.floorOnGrid k * 10 ^ k
    let above := ((i.floorOnGrid k + 1 : Nat) : ℚ) * 10 ^ k - i.center
    (2 * rest < unit ↔ below < above) ∧ (unit < 2 * rest ↔ above < below) := by
  intro unit rest below above
  obtain ⟨scale, hscale, hunit, hvalue⟩ := i.exists_scale k hden
  have hsplit : i.floorOnGrid k * unit + rest = i.value * tenTo (-k).toNat := by
    rw [Nat.mul_comm]
    exact Nat.div_add_mod _ _
  change (unit : ℚ) = 10 ^ k * scale at hunit
  have hrest : (rest : ℚ) = below * scale := by
    have hsplit' : (i.floorOnGrid k : ℚ) * (10 ^ k * scale) + rest = i.center * scale := by
      rw [← hvalue, ← hunit, ← hsplit, Nat.cast_add, Nat.cast_mul _ unit]
    linear_combination hsplit'
  have hunit' : (unit : ℚ) = (below + above) * scale := by
    rw [hunit]
    simp only [below, above]
    push_cast
    ring
  rw [← Nat.cast_lt (α := ℚ), ← Nat.cast_lt (α := ℚ), Nat.cast_mul, hrest, hunit', ← mul_assoc,
    mul_lt_mul_iff_left₀ hscale, mul_lt_mul_iff_left₀ hscale]
  constructor
  · push_cast
    constructor <;> intro h <;> linarith
  · push_cast
    constructor <;> intro h <;> linarith

/-! ## The nearest point -/

/-- Is the point of a grid in the interval, and is none in the interval nearer to the center? -/
structure IsNearestOnGrid (i : Interval) (k : Int) (c : Nat) : Prop where
  contains : i.Contains (c * 10 ^ k)
  nearest : ∀ c' : Nat, i.Contains (c' * 10 ^ k) →
    |(c : ℚ) * 10 ^ k - i.center| ≤ |(c' : ℚ) * 10 ^ k - i.center|

section Nearest

variable {k : Int} {c : Nat}

/-- A point below the center is no nearer than the last one, which lies between them. -/
theorem Proper.floorOnGrid_of_contains (h : i.Proper) (hle : c ≤ i.floorOnGrid k)
    (hc : i.Contains (c * 10 ^ k)) : i.Contains (i.floorOnGrid k * 10 ^ k) ∧
      |(i.floorOnGrid k : ℚ) * 10 ^ k - i.center| ≤ |(c : ℚ) * 10 ^ k - i.center| := by
  have hfloor := floorOnGrid_le_center k h.denominator
  have hpoint : (c : ℚ) * 10 ^ k ≤ i.floorOnGrid k * 10 ^ k :=
    mul_le_mul_of_nonneg_right (by exact_mod_cast hle) (by positivity)
  refine ⟨hc.between h.contains_center hpoint hfloor, ?_⟩
  rw [abs_of_nonpos (by linarith), abs_of_nonpos (by linarith)]
  linarith

theorem Proper.succ_floorOnGrid_of_contains (h : i.Proper) (hlt : i.floorOnGrid k < c)
    (hc : i.Contains (c * 10 ^ k)) : i.Contains ((i.floorOnGrid k + 1 : Nat) * 10 ^ k) ∧
      |((i.floorOnGrid k + 1 : Nat) : ℚ) * 10 ^ k - i.center| ≤ |(c : ℚ) * 10 ^ k - i.center| := by
  have hnext := (center_lt_floorOnGrid_succ k h.denominator).le
  have hpoint : ((i.floorOnGrid k + 1 : Nat) : ℚ) * 10 ^ k ≤ c * 10 ^ k :=
    mul_le_mul_of_nonneg_right (by exact_mod_cast hlt) (by positivity)
  refine ⟨h.contains_center.between hc hnext hpoint, ?_⟩
  rw [abs_of_nonneg (by linarith), abs_of_nonneg (by linarith)]
  linarith

/-- The last point at most the center is nearest if the next one is out or no nearer. -/
theorem Proper.isNearestOnGrid_floor (h : i.Proper)
    (hfloor : i.Contains (i.floorOnGrid k * 10 ^ k))
    (hnext : i.Contains ((i.floorOnGrid k + 1 : Nat) * 10 ^ k) →
      |(i.floorOnGrid k : ℚ) * 10 ^ k - i.center| ≤
        |((i.floorOnGrid k + 1 : Nat) : ℚ) * 10 ^ k - i.center|) :
    i.IsNearestOnGrid k (i.floorOnGrid k) where
  contains := hfloor
  nearest c hc := by
    rcases Nat.lt_or_ge (i.floorOnGrid k) c with hlt | hle
    · have hsucc := h.succ_floorOnGrid_of_contains hlt hc
      exact (hnext hsucc.1).trans hsucc.2
    · exact (h.floorOnGrid_of_contains hle hc).2

theorem Proper.isNearestOnGrid_succ (h : i.Proper)
    (hnext : i.Contains ((i.floorOnGrid k + 1 : Nat) * 10 ^ k))
    (hfloor : i.Contains (i.floorOnGrid k * 10 ^ k) →
      |((i.floorOnGrid k + 1 : Nat) : ℚ) * 10 ^ k - i.center| ≤
        |(i.floorOnGrid k : ℚ) * 10 ^ k - i.center|) :
    i.IsNearestOnGrid k (i.floorOnGrid k + 1) where
  contains := hnext
  nearest c hc := by
    rcases Nat.lt_or_ge (i.floorOnGrid k) c with hlt | hle
    · exact (h.succ_floorOnGrid_of_contains hlt hc).2
    · have hprevious := h.floorOnGrid_of_contains hle hc
      exact (hfloor hprevious.1).trans hprevious.2

theorem nearestOnGrid?_eq (i : Interval) (k : Int) : i.nearestOnGrid? k =
    match i.holds (i.floorOnGrid k) k, i.holds (i.floorOnGrid k + 1) k with
    | false, false => none
    | true, false => some (i.floorOnGrid k)
    | false, true => some (i.floorOnGrid k + 1)
    | true, true =>
      if 2 * (i.value * tenTo (-k).toNat % (tenTo k.toNat * i.denominator)) <
          tenTo k.toNat * i.denominator then some (i.floorOnGrid k)
      else if tenTo k.toNat * i.denominator <
          2 * (i.value * tenTo (-k).toNat % (tenTo k.toNat * i.denominator)) then
        some (i.floorOnGrid k + 1)
      else if i.floorOnGrid k % 2 = 0 then some (i.floorOnGrid k)
      else some (i.floorOnGrid k + 1) :=
  rfl

theorem nearestOnGrid?_eq_none_iff : i.nearestOnGrid? k = none ↔
    i.holds (i.floorOnGrid k) k = false ∧ i.holds (i.floorOnGrid k + 1) k = false := by
  rw [nearestOnGrid?_eq]
  cases i.holds (i.floorOnGrid k) k <;> cases i.holds (i.floorOnGrid k + 1) k <;> simp
  split_ifs <;> simp

/-- Nothing is found on a grid without points in the interval. -/
theorem Proper.nearestOnGrid?_eq_none (h : i.Proper) (hnone : i.nearestOnGrid? k = none) (c : Nat) :
    ¬i.Contains (c * 10 ^ k) := by
  obtain ⟨hfloor, hnext⟩ := nearestOnGrid?_eq_none_iff.1 hnone
  intro hc
  rcases Nat.lt_or_ge (i.floorOnGrid k) c with hlt | hle
  · have hsucc := holds_iff_contains.2 (h.succ_floorOnGrid_of_contains hlt hc).1
    exact Bool.false_ne_true (hnext.symm.trans hsucc)
  · have hprevious := holds_iff_contains.2 (h.floorOnGrid_of_contains hle hc).1
    exact Bool.false_ne_true (hfloor.symm.trans hprevious)

/-- What is found on a grid is a nearest point of the interval. -/
theorem Proper.nearestOnGrid?_eq_some (h : i.Proper) (hc : i.nearestOnGrid? k = some c) :
    i.IsNearestOnGrid k c := by
  have hbelow : |(i.floorOnGrid k : ℚ) * 10 ^ k - i.center| = i.center - i.floorOnGrid k * 10 ^ k := by
    have hfloor := floorOnGrid_le_center k h.denominator
    rw [abs_of_nonpos (by linarith), neg_sub]
  have habove : |((i.floorOnGrid k + 1 : Nat) : ℚ) * 10 ^ k - i.center| =
      ((i.floorOnGrid k + 1 : Nat) : ℚ) * 10 ^ k - i.center := by
    have hnext := (center_lt_floorOnGrid_succ k h.denominator).le
    exact abs_of_nonneg (by linarith)
  obtain ⟨hless, hgreater⟩ := rest_lt_iff k h.denominator
  rw [← hbelow, ← habove] at hless hgreater
  rw [nearestOnGrid?_eq] at hc
  cases hfloor : i.holds (i.floorOnGrid k) k with
  | false =>
    rw [hfloor] at hc
    cases hnext : i.holds (i.floorOnGrid k + 1) k with
    | false =>
      rw [hnext] at hc
      cases hc
    | true =>
      rw [hnext] at hc
      cases hc
      refine h.isNearestOnGrid_succ (holds_iff_contains.1 hnext) fun hcontains ↦ ?_
      exact absurd (hfloor.symm.trans (holds_iff_contains.2 hcontains)) Bool.false_ne_true
  | true =>
    rw [hfloor] at hc
    rw [holds_iff_contains] at hfloor
    cases hnext : i.holds (i.floorOnGrid k + 1) k with
    | false =>
      rw [hnext] at hc
      cases hc
      refine h.isNearestOnGrid_floor hfloor fun hcontains ↦ ?_
      exact absurd (hnext.symm.trans (holds_iff_contains.2 hcontains)) Bool.false_ne_true
    | true =>
      rw [hnext] at hc
      rw [holds_iff_contains] at hnext
      dsimp only at hc
      split_ifs at hc with hbelowHalf haboveHalf heven
      · cases hc
        exact h.isNearestOnGrid_floor hfloor fun _ ↦ (hless.1 hbelowHalf).le
      · cases hc
        exact h.isNearestOnGrid_succ hnext fun _ ↦ (hgreater.1 haboveHalf).le
      · cases hc
        exact h.isNearestOnGrid_floor hfloor fun _ ↦ not_lt.1 (mt hgreater.2 haboveHalf)
      · cases hc
        exact h.isNearestOnGrid_succ hnext fun _ ↦ not_lt.1 (mt hless.2 hbelowHalf)

end Nearest

/-! ## The position of the point -/

theorem ten_le_center_iff (k : Int) (hden : 0 < i.denominator) :
    tenTo k.toNat * i.denominator ≤ i.value * tenTo (-k).toNat ↔ (10 : ℚ) ^ k ≤ i.center := by
  obtain ⟨scale, hscale, hunit, hvalue⟩ := i.exists_scale k hden
  rw [← Nat.cast_le (α := ℚ), hunit, hvalue, mul_le_mul_iff_left₀ hscale]

/-- The point is found if its estimate is at most one too great and three too small. -/
theorem pointOf_bounds {estimate : Int} (hden : 0 < i.denominator)
    (hestimate : (((i.value.log2 : Int) - i.denominator.log2 - 1) * 1233).fdiv 4096 = estimate)
    (hlower : (10 : ℚ) ^ (estimate - 1) ≤ i.center) (hupper : i.center < 10 ^ (estimate + 3)) :
    (10 : ℚ) ^ (pointOf i.value i.denominator - 1) ≤ i.center ∧
      i.center < 10 ^ pointOf i.value i.denominator := by
  unfold pointOf
  dsimp only
  rw [hestimate]
  simp only [Bool.not_eq_true', decide_eq_false_iff_not, ten_le_center_iff _ hden, not_le]
  split_ifs with hzero hone htwo
  · exact ⟨hlower, hzero⟩
  · rw [add_sub_cancel_right]
    exact ⟨not_lt.1 hzero, hone⟩
  · rw [show estimate + 2 - 1 = estimate + 1 by ring]
    exact ⟨not_lt.1 hone, htwo⟩
  · rw [show estimate + 3 - 1 = estimate + 2 by ring]
    exact ⟨not_lt.1 htwo, hupper⟩

end Interval

/-! ## The interval of a double -/

section Double

variable {m : Nat} {e : Int}

theorem proper_roundingInterval (e : Int) (hm : m ≠ 0) : (roundingInterval m e).Proper := by
  have hscale : 0 < twoTo (e - 2).toNat := Nat.pow_pos (by decide)
  constructor
  · unfold roundingInterval
    dsimp only
    apply Nat.mul_lt_mul_of_pos_right _ hscale
    split <;> omega
  · exact Nat.mul_lt_mul_of_pos_right (by omega) hscale
  · exact Nat.pow_pos (by decide)

theorem center_roundingInterval (e : Int) (hm : m ≠ 0) :
    (roundingInterval m e).center = m * 2 ^ e := by
  have hden : ((roundingInterval m e).denominator : ℚ) ≠ 0 := by
    exact_mod_cast (proper_roundingInterval e hm).denominator.ne'
  rw [Interval.center, (roundingInterval_ends e hm).2.1, mul_div_cancel_right₀ _ hden]

theorem log2_roundingInterval (hm : 2 ^ 52 ≤ m) (hm' : m < 2 ^ 53) :
    ((roundingInterval m e).value.log2 : Int) - (roundingInterval m e).denominator.log2 - 1 =
      51 + e := by
  have hvalue : (roundingInterval m e).value.log2 = 54 + (e - 2).toNat := by
    change (4 * m * 2 ^ (e - 2).toNat).log2 = _
    have hfour : (4 * m).log2 = 54 := (Nat.log2_eq_iff (by omega)).2 ⟨by omega, by omega⟩
    rw [← Nat.shiftLeft_eq, log2_shiftLeft (by omega), hfour]
  have hden : (roundingInterval m e).denominator.log2 = (2 - e).toNat := Nat.log2_two_pow
  rw [hvalue, hden]
  omega

/-- The first estimate of the number of decimal digits of a number between two powers of two. -/
def estimate (b : Nat) : Int := (((b : Int) - 1) * 1233).fdiv 4096

theorem estimate_bounds_nat : ∀ b : Fin 1024, 0 ≤ estimate b + 3 ∧
    tenTo (estimate b - 1).toNat ≤ twoTo b * tenTo (1 - estimate b).toNat ∧
      twoTo (b + 1) ≤ tenTo (estimate b + 3).toNat := by
  decide +kernel

/-- The logarithm of two to the base ten is a little more than `1233 / 4096`. -/
theorem estimate_bounds {b : Nat} (hb : b < 1024) :
    (10 : ℚ) ^ (estimate b - 1) ≤ 2 ^ b ∧ (2 : ℚ) ^ (b + 1) ≤ 10 ^ (estimate b + 3) := by
  obtain ⟨hpos, hlower, hupper⟩ := estimate_bounds_nat ⟨b, hb⟩
  dsimp only at hpos hlower hupper
  constructor
  · have hscale : (0 : ℚ) < 10 ^ (1 - estimate b).toNat := by positivity
    rw [← Nat.cast_le (α := ℚ), Nat.cast_mul, cast_tenTo, cast_tenTo, cast_twoTo,
      pow_toNat (by norm_num), neg_sub] at hlower
    exact le_of_mul_le_mul_right hlower hscale
  · have hpow : (10 : ℚ) ^ (estimate b + 3) = 10 ^ (estimate b + 3).toNat := by
      rw [← zpow_natCast]
      congr 1
      omega
    rw [← Nat.cast_le (α := ℚ), cast_tenTo, cast_twoTo] at hupper
    rwa [hpow]

/-- The number of digits before the point is that of the double. -/
theorem pointOf_roundingInterval (hm : 2 ^ 52 ≤ m) (hm' : m < 2 ^ 53) (he : -52 ≤ e)
    (he' : e ≤ 971) :
    let point := pointOf (roundingInterval m e).value (roundingInterval m e).denominator
    (10 : ℚ) ^ (point - 1) ≤ m * 2 ^ e ∧ (m : ℚ) * 2 ^ e < 10 ^ point := by
  obtain ⟨b, hb⟩ := Int.eq_ofNat_of_zero_le (by omega : 0 ≤ 52 + e)
  obtain ⟨hlower, hupper⟩ := estimate_bounds (b := b) (by omega)
  have hpow : (2 : ℚ) ^ b = 2 ^ 52 * 2 ^ e := by
    rw [← zpow_natCast, ← hb, zpow_add₀ (by norm_num)]
    rfl
  have hpos : (0 : ℚ) < 2 ^ e := by positivity
  have hbelow : (2 : ℚ) ^ b ≤ m * 2 ^ e := by
    rw [hpow]
    exact mul_le_mul_of_nonneg_right (by exact_mod_cast hm) hpos.le
  have habove : (m : ℚ) * 2 ^ e < 2 ^ (b + 1) := by
    rw [pow_succ, hpow, mul_right_comm]
    refine mul_lt_mul_of_pos_right ?_ hpos
    have hcast : (m : ℚ) < 2 ^ 53 := by exact_mod_cast hm'
    linarith
  have hestimate : ((((roundingInterval m e).value.log2 : Int) -
      (roundingInterval m e).denominator.log2 - 1) * 1233).fdiv 4096 = estimate b := by
    rw [log2_roundingInterval hm hm', estimate]
    congr 2
    omega
  rw [← center_roundingInterval e (by omega)] at hbelow habove ⊢
  exact Interval.pointOf_bounds (proper_roundingInterval e (by omega)).denominator hestimate
    (hlower.trans hbelow) (habove.trans_le hupper)

/-! ## The search -/

theorem contains_of_lt (hm : m ≠ 0) {q : ℚ} (h : lowerEnd m e < q) (h' : q < upperEnd m e) :
    (roundingInterval m e).Contains q :=
  (contains_roundingInterval_iff hm).2 ⟨⟨h.le, h'.le⟩, fun _ ↦ ⟨h, h'⟩⟩

/-- The interval is wider than the step of a grid that gives the double seventeen digits. -/
theorem lt_width (hm' : m < 2 ^ 53) {u : ℚ} (hu : u * 10 ^ 16 ≤ m * 2 ^ e) :
    lowerEnd m e + u < upperEnd m e := by
  have hpow : (0 : ℚ) < 2 ^ e := by positivity
  unfold lowerEnd upperEnd
  split_ifs with hleast
  · rw [hleast.1] at hu ⊢
    push_cast at hu ⊢
    linarith
  · have hle : (m : ℚ) * 2 ^ e ≤ 2 ^ 53 * 2 ^ e :=
      mul_le_mul_of_nonneg_right (by exact_mod_cast hm'.le) hpow.le
    linarith

/-- Seventeen digits suffice. -/
theorem exists_contains_of_seventeen (hm : 2 ^ 52 ≤ m) (hm' : m < 2 ^ 53) {k : Int}
    (hk : (10 : ℚ) ^ (k + 16) ≤ m * 2 ^ e) :
    ∃ c : Nat, (roundingInterval m e).Contains (c * 10 ^ k) := by
  have hproper := proper_roundingInterval e (m := m) (by omega)
  have hfloor := Interval.floorOnGrid_le_center k hproper.denominator
  have hnext := Interval.center_lt_floorOnGrid_succ k hproper.denominator
  rw [center_roundingInterval e (by omega)] at hfloor hnext
  generalize (roundingInterval m e).floorOnGrid k = c at hfloor hnext
  have hpow : (0 : ℚ) < 2 ^ e := by positivity
  have hlower : lowerEnd m e ≤ m * 2 ^ e := by
    unfold lowerEnd
    refine mul_le_mul_of_nonneg_right ?_ hpow.le
    split <;> linarith
  have hupper : (m : ℚ) * 2 ^ e < upperEnd m e :=
    mul_lt_mul_of_pos_right (by linarith) hpow
  by_cases hnear : lowerEnd m e < c * 10 ^ k
  · exact ⟨c, contains_of_lt (by omega) hnear (hfloor.trans_lt hupper)⟩
  · refine ⟨c + 1, contains_of_lt (by omega) (hlower.trans_lt hnext) ?_⟩
    have hwidth : lowerEnd m e + 10 ^ k < upperEnd m e := by
      apply lt_width hm'
      rwa [zpow_add₀ (by norm_num)] at hk
    calc ((c + 1 : Nat) : ℚ) * 10 ^ k = c * 10 ^ k + 10 ^ k := by
          push_cast
          ring
      _ ≤ lowerEnd m e + 10 ^ k := add_le_add_left (not_lt.1 hnear) _
      _ < upperEnd m e := hwidth

/-- What a search along the natural numbers finds first. -/
theorem findSome?_range_eq_some {α : Type} {f : Nat → Option α} {n : Nat} {a : α}
    (h : (List.range n).findSome? f = some a) :
    ∃ k < n, f k = some a ∧ ∀ j < k, f j = none := by
  induction n with
  | zero => cases h
  | succ n ih =>
    rw [List.range_succ, List.findSome?_append, Option.or_eq_some_iff] at h
    rcases h with h | ⟨hnone, h⟩
    · obtain ⟨k, hk, hfirst⟩ := ih h
      exact ⟨k, hk.trans n.lt_succ_self, hfirst⟩
    · refine ⟨n, n.lt_succ_self, by simpa using h, fun j hj ↦ ?_⟩
      exact List.findSome?_eq_none_iff.1 hnone j (List.mem_range.2 hj)

/-- The shortest decimal is a nearest point of the coarsest grid that has a point in the
interval. -/
theorem exists_shortest_eq (hm : 2 ^ 52 ≤ m) (hm' : m < 2 ^ 53) (he : -52 ≤ e) (he' : e ≤ 971) :
    ∃ (point k : Int) (c : Nat), k < point ∧
      (10 : ℚ) ^ (point - 1) ≤ m * 2 ^ e ∧ (m : ℚ) * 2 ^ e < 10 ^ point ∧
      shortest m e = Decimal.stripZeros 18 ⟨c, k⟩ ∧
      (roundingInterval m e).IsNearestOnGrid k c ∧
      ∀ k', k < k' → k' < point → ∀ c' : Nat, ¬(roundingInterval m e).Contains (c' * 10 ^ k') := by
  have hproper := proper_roundingInterval e (m := m) (by omega)
  obtain ⟨hlower, hupper⟩ := pointOf_roundingInterval hm hm' he he'
  rw [shortest, if_neg (by omega)]
  dsimp only
  generalize pointOf (roundingInterval m e).value (roundingInterval m e).denominator = point
    at hlower hupper
  cases hfound : (List.range 17).findSome? fun (n : Nat) ↦
      ((roundingInterval m e).nearestOnGrid? (point - (n + 1 : Nat))).map
        (Decimal.mk · (point - (n + 1 : Nat))) with
  | none =>
    have hlast := List.findSome?_eq_none_iff.1 hfound 16 (by decide)
    obtain ⟨c, hc⟩ := exists_contains_of_seventeen (k := point - (16 + 1 : Nat)) hm hm' (by
      rwa [show point - ((16 + 1 : Nat) : Int) + 16 = point - 1 by omega])
    exact absurd hc (hproper.nearestOnGrid?_eq_none (Option.map_eq_none_iff.1 hlast) c)
  | some d =>
    obtain ⟨n, -, hn, hfirst⟩ := findSome?_range_eq_some hfound
    obtain ⟨c, hc, rfl⟩ := Option.map_eq_some_iff.1 hn
    refine ⟨point, point - (n + 1 : Nat), c, by omega, hlower, hupper, rfl,
      hproper.nearestOnGrid?_eq_some hc, ?_⟩
    intro k' hk hk' c'
    obtain ⟨j, rfl⟩ : ∃ j : Nat, k' = point - (j + 1 : Nat) :=
      ⟨(point - k' - 1).toNat, by omega⟩
    exact hproper.nearestOnGrid?_eq_none (Option.map_eq_none_iff.1 (hfirst j (by omega))) c'

end Double

end OntoGraph.Number
