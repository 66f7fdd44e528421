import OntoGraph.Proofs.Number.Grids

/-!
# Numerals that are the shortest of their double

Several natural numbers may be read as one double. The shortest decimal of the double is the one of
them that ends in the most zeros, and among those with as many zeros the one nearest to the double.
-/

namespace OntoGraph.Number

/-- Is the numeral of the number read as the double `m * 2 ^ e`? -/
def ReadAs (n m : Nat) (e : Int) : Prop := magnitude (ofDecimal n 0) = .finite m e

theorem readAs_zero : ReadAs 0 0 (-1074) := by
  unfold ReadAs
  decide +kernel

/-- Does the first number end in at least as many zeros as the second? -/
def AsRound (n q : Nat) : Prop := ∀ k, 10 ^ k ∣ q → 10 ^ k ∣ n

/-- Among the numbers that are read as a double, does none end in more zeros, and is none that ends
in as many zeros nearer to the double? -/
structure IsShortestFor (n m : Nat) (e : Int) : Prop where
  read : ReadAs n m e
  round : ∀ q, ReadAs q m e → AsRound n q
  nearest : ∀ q, ReadAs q m e → AsRound q n → |(n : ℚ) - m * 2 ^ e| ≤ |(q : ℚ) - m * 2 ^ e|

/-- Is the number the shortest of those that are read as the same double? -/
def IsShortest (n : Nat) : Prop := ∃ m e, IsShortestFor n m e

section Interval

variable {m : Nat} {e : Int}

theorem pos_of_contains (hm : m ≠ 0) {q : ℚ} (h : (roundingInterval m e).Contains q) : 0 < q := by
  have hle := ((contains_roundingInterval_iff hm).1 h).1.1
  have hm' : (1 : ℚ) ≤ m := by exact_mod_cast Nat.pos_of_ne_zero hm
  refine lt_of_lt_of_le (mul_pos ?_ (by positivity)) hle
  split <;> linarith

theorem contains_of_readAs {n : Nat} (h : ReadAs n m e) (hm : m ≠ 0) :
    n ≠ 0 ∧ 2 ^ 52 ≤ m ∧ m < 2 ^ 53 ∧ -52 ≤ e ∧ e ≤ 971 ∧ (roundingInterval m e).Contains n := by
  have hn : n ≠ 0 := by
    rintro rfl
    cases readAs_zero.symm.trans h
    exact hm rfl
  exact ⟨hn, (magnitude_ofDecimal_iff hn).1 h⟩

theorem readAs_of_contains {n : Nat} (hm : 2 ^ 52 ≤ m) (hm' : m < 2 ^ 53) (he : -52 ≤ e)
    (he' : e ≤ 971) (h : (roundingInterval m e).Contains n) : ReadAs n m e := by
  have hn : n ≠ 0 := by
    have hpos := pos_of_contains (by omega) h
    exact (Nat.cast_pos.1 hpos).ne'
  exact (magnitude_ofDecimal_iff hn).2 ⟨hm, hm', he, he', h⟩

/-- A number that rounds to a double is at most half a step away. -/
theorem abs_sub_center_le (hm : m ≠ 0) {q : ℚ} (h : (roundingInterval m e).Contains q) :
    |q - m * 2 ^ e| ≤ 2 ^ e / 2 := by
  obtain ⟨hlower, hupper⟩ := ((contains_roundingInterval_iff hm).1 h).1
  have hpow : (0 : ℚ) < 2 ^ e := by positivity
  have hhalf : (m - 1 / 2 : ℚ) * 2 ^ e ≤ lowerEnd m e := by
    refine mul_le_mul_of_nonneg_right ?_ hpow.le
    split <;> linarith
  unfold upperEnd at hupper
  rw [abs_le]
  constructor <;> linarith

/-- Two numbers that round to a double are at most one step apart. -/
theorem abs_sub_le_of_contains (hm : m ≠ 0) {q q' : ℚ} (h : (roundingInterval m e).Contains q)
    (h' : (roundingInterval m e).Contains q') : |q - q'| ≤ 2 ^ e := by
  calc |q - q'| ≤ |q - m * 2 ^ e| + |m * 2 ^ e - q'| := abs_sub_le _ _ _
    _ ≤ 2 ^ e / 2 + 2 ^ e / 2 := by
      rw [abs_sub_comm _ q']
      exact add_le_add (abs_sub_center_le hm h) (abs_sub_center_le hm h')
    _ = 2 ^ e := add_halves _

/-- Where the step is at most one, the only natural number that rounds to a double is the double
itself. -/
theorem eq_of_contains_of_nonpos (hm : m ≠ 0) (he : e ≤ 0) {n : Nat}
    (h : (roundingInterval m e).Contains n) : (n : ℚ) = m * 2 ^ e := by
  obtain ⟨j, rfl⟩ := Int.exists_eq_neg_ofNat he
  have hnear := abs_sub_center_le hm h
  have hscaled : |((n * 2 ^ j : Nat) : ℚ) - m| ≤ 1 / 2 := by
    have hpow : (0 : ℚ) < 2 ^ j := by positivity
    rw [zpow_neg, zpow_natCast] at hnear
    calc |((n * 2 ^ j : Nat) : ℚ) - m| = |(n : ℚ) - m * (2 ^ j)⁻¹| * 2 ^ j := by
          rw [← abs_of_pos hpow, ← abs_mul, abs_of_pos hpow]
          congr 1
          push_cast
          field_simp
      _ ≤ (2 ^ j)⁻¹ / 2 * 2 ^ j := mul_le_mul_of_nonneg_right hnear hpow.le
      _ = 1 / 2 := by field_simp
  have hequal : n * 2 ^ j = m := by
    have hlt : |((n * 2 ^ j : Nat) : Int) - m| < 1 := by
      have hlt' : |((n * 2 ^ j : Nat) : ℚ) - m| < 1 := hscaled.trans_lt (by norm_num)
      exact_mod_cast hlt'
    rw [Int.abs_lt_one_iff] at hlt
    omega
  rw [← hequal, zpow_neg, zpow_natCast]
  push_cast
  field_simp

/-- A double that a natural number rounds to is whole. -/
theorem exists_whole (hm : m ≠ 0) {n : Nat} (h : (roundingInterval m e).Contains n) :
    ∃ v : Nat, (v : ℚ) = m * 2 ^ e := by
  rcases le_or_gt e 0 with he | he
  · exact ⟨n, eq_of_contains_of_nonpos hm he h⟩
  · obtain ⟨j, rfl⟩ := Int.eq_ofNat_of_zero_le he.le
    exact ⟨m * 2 ^ j, by push_cast; rfl⟩

end Interval

/-! ## The first grid of a whole double -/

theorem Decimal.exponent_le_stripZeros (fuel : Nat) (d : Decimal) :
    d.exponent ≤ (d.stripZeros fuel).exponent := by
  induction fuel generalizing d with
  | zero => exact le_rfl
  | succ fuel ih =>
    unfold stripZeros
    split
    · exact (Int.le_add_of_nonneg_right (by decide)).trans (ih _)
    · exact le_rfl

/-- Is the number a nearest point of the coarsest grid with a point in the interval of a double? The
double has `point` digits, and coarser grids than all of its digits are left out. -/
structure FirstGrid (m : Nat) (e : Int) (point k n : Nat) : Prop where
  upper : (m : ℚ) * 2 ^ e < 10 ^ point
  contains : (roundingInterval m e).Contains n
  dvd : 10 ^ k ∣ n
  nearest : ∀ q : Nat, 10 ^ k ∣ q → (roundingInterval m e).Contains q →
    |(n : ℚ) - m * 2 ^ e| ≤ |(q : ℚ) - m * 2 ^ e|
  coarser : ∀ q : Nat, 10 ^ (k + 1) ∣ q → (roundingInterval m e).Contains q → point = k + 1

/-- The search stops at the latest at the grid of the whole numbers. -/
theorem exists_firstGrid {m : Nat} {e : Int} (hm : 2 ^ 52 ≤ m) (hm' : m < 2 ^ 53) (he : -52 ≤ e)
    (he' : e ≤ 971) {v : Nat} (hv : (v : ℚ) = m * 2 ^ e) :
    0 ≤ (shortest m e).exponent ∧
      ∃ point k n, FirstGrid m e point k n ∧ (shortest m e).value = n := by
  obtain ⟨point, k, c, hk, hlower, hupper, hshortest, hnearest, hcoarser⟩ :=
    exists_shortest_eq hm hm' he he'
  have hproper := proper_roundingInterval e (m := m) (by omega)
  have hcenter := hproper.contains_center
  rw [center_roundingInterval e (by omega), ← hv] at hcenter
  have hpoint : 0 < point := by
    have hpos : (1 : ℚ) ≤ v := by exact_mod_cast pos_of_contains (by omega) hcenter
    rw [← hv] at hupper
    by_contra hle
    have hone : (10 : ℚ) ^ point ≤ 1 := zpow_le_one_of_nonpos₀ (by norm_num) (not_lt.1 hle)
    linarith
  have hwhole : 0 ≤ k := by
    by_contra hneg
    apply hcoarser 0 (by omega) hpoint v
    rwa [zpow_zero, mul_one]
  obtain ⟨k, rfl⟩ := Int.eq_ofNat_of_zero_le hwhole
  obtain ⟨point, rfl⟩ := Int.eq_ofNat_of_zero_le hpoint.le
  have hgrid : ∀ (c j : Nat), ((c * 10 ^ j : Nat) : ℚ) = c * 10 ^ (j : Int) := by
    intro c j
    push_cast
    rfl
  rw [hshortest]
  refine ⟨hwhole.trans (Decimal.exponent_le_stripZeros 18 ⟨c, k⟩), point, k, c * 10 ^ k, ?_, ?_⟩
  · constructor
    · exact_mod_cast hupper
    · rw [hgrid]
      exact hnearest.contains
    · exact Nat.dvd_mul_left _ _
    · rintro q ⟨a, rfl⟩ hq
      rw [Nat.mul_comm _ a, hgrid] at hq ⊢
      rw [hgrid, ← center_roundingInterval e (by omega)]
      exact hnearest.nearest a hq
    · rintro q ⟨a, rfl⟩ hq
      rw [Nat.mul_comm, hgrid] at hq
      by_contra hne
      exact hcoarser (k + 1 : Nat) (by omega) (by omega) a hq
  · rw [Decimal.value_stripZeros, hgrid]
    rfl

/-! ## The shortest number -/

/-- Multiples of a number that are less than it apart are equal. -/
theorem eq_of_dvd_of_abs_sub_lt {d a b : Nat} (ha : d ∣ a) (hb : d ∣ b)
    (h : |(a : ℚ) - b| < d) : a = b := by
  have hdvd : (d : Int) ∣ a - b := dvd_sub (Int.natCast_dvd_natCast.2 ha) (Int.natCast_dvd_natCast.2 hb)
  have hlt : |(a : Int) - b| < d := by exact_mod_cast h
  have hzero := Int.eq_zero_of_abs_lt_dvd hdvd hlt
  omega

/-- No whole double is half way between two points of a grid in its interval. -/
theorem ne_midpoint {a k m e : Nat} (h : 10 ^ k ≤ 2 ^ e) : (2 * a + 1) * 10 ^ k ≠ m * 2 ^ (e + 1) := by
  intro heq
  have hle : k ≤ e := by
    have hpow : 2 ^ k ≤ 2 ^ e := (Nat.pow_le_pow_left (by decide) k).trans h
    exact (Nat.pow_le_pow_iff_right (by decide)).1 hpow
  have hdvd : 2 ^ (k + 1) ∣ (2 * a + 1) * 5 ^ k * 2 ^ k := by
    rw [Nat.mul_assoc, ← Nat.mul_pow, heq]
    exact (Nat.pow_dvd_pow 2 (by omega)).trans (Nat.dvd_mul_left _ _)
  rw [Nat.pow_succ, Nat.mul_comm (2 ^ k)] at hdvd
  have heven : 2 ∣ (2 * a + 1) * 5 ^ k := Nat.dvd_of_mul_dvd_mul_right (by positivity) hdvd
  have hodd : Odd ((2 * a + 1) * 5 ^ k) := (odd_two_mul_add_one a).mul (Odd.pow (by decide))
  exact (Nat.not_even_iff_odd.2 hodd) (even_iff_two_dvd.2 heven)

section FirstGrid

variable {m : Nat} {e : Int} {point k n : Nat}

/-- On the coarsest grid of all the interval has one point only. -/
theorem FirstGrid.eq_of_coarsest (h : FirstGrid m e point k n) (hm : 2 ^ 52 ≤ m)
    (hpoint : point = k + 1) {q : Nat} (hq : 10 ^ k ∣ q) (hcontains : (roundingInterval m e).Contains q) :
    q = n := by
  apply eq_of_dvd_of_abs_sub_lt hq h.dvd
  have hpow : (0 : ℚ) < 2 ^ e := by positivity
  have hupper := h.upper
  rw [hpoint, pow_succ] at hupper
  have hstep : (2 : ℚ) ^ 52 * 2 ^ e ≤ m * 2 ^ e :=
    mul_le_mul_of_nonneg_right (by exact_mod_cast hm) hpow.le
  have hwidth := abs_sub_le_of_contains (by omega) hcontains h.contains
  push_cast
  linarith

/-- Two points of the grid in the interval are not equally near to the double. -/
theorem FirstGrid.not_equally_near (h : FirstGrid m e point k n) (hm : m ≠ 0) {lower upper : Nat}
    (hlt : lower < upper) (hdvd : 10 ^ k ∣ lower) (hdvd' : 10 ^ k ∣ upper)
    (hcontains : (roundingInterval m e).Contains lower)
    (hcontains' : (roundingInterval m e).Contains upper)
    (hnear : |(lower : ℚ) - m * 2 ^ e| = |(n : ℚ) - m * 2 ^ e|)
    (hnear' : |(upper : ℚ) - m * 2 ^ e| = |(n : ℚ) - m * 2 ^ e|) : False := by
  have hlt' : (lower : ℚ) < upper := by exact_mod_cast hlt
  have hmiddle : (lower : ℚ) + upper = 2 * (m * 2 ^ e) := by
    rcases abs_eq_abs.1 (hnear.trans hnear'.symm) with heq | heq <;> linarith
  have hnext : lower + 10 ^ k ≤ upper := by
    have hle := Nat.le_of_dvd (by omega) (Nat.dvd_sub hdvd' hdvd)
    omega
  have hpos : (0 : ℚ) < 10 ^ k := by positivity
  -- a further point between the two would be nearer
  have hequal : lower + 10 ^ k = upper := by
    by_contra hne
    have hnext' : ((lower + 10 ^ k : Nat) : ℚ) < upper := by
      exact_mod_cast lt_of_le_of_ne hnext hne
    have hinside : (roundingInterval m e).Contains (lower + 10 ^ k : Nat) := by
      refine hcontains.between hcontains' ?_ hnext'.le
      push_cast
      linarith
    have hle := h.nearest (lower + 10 ^ k) (Dvd.dvd.add hdvd dvd_rfl) hinside
    rw [← hnear, abs_of_neg (by linarith)] at hle
    push_cast at hle hnext'
    rcases abs_cases ((lower : ℚ) + 10 ^ k - m * 2 ^ e) with habs | habs <;> linarith
  have hstep : (10 : ℚ) ^ k ≤ 2 ^ e := by
    have hwidth := abs_sub_le_of_contains hm hcontains' hcontains
    rw [← hequal, abs_of_pos (by push_cast; linarith)] at hwidth
    push_cast at hwidth
    linarith
  have he : 0 ≤ e := by
    have hone : (1 : ℚ) ≤ 10 ^ k := one_le_pow₀ (by norm_num)
    have hle : (2 : ℚ) ^ (0 : ℤ) ≤ 2 ^ e := by
      rw [zpow_zero]
      exact hone.trans hstep
    exact (zpow_le_zpow_iff_right₀ (by norm_num)).1 hle
  obtain ⟨j, rfl⟩ := Int.eq_ofNat_of_zero_le he
  obtain ⟨a, rfl⟩ := hdvd
  refine ne_midpoint (a := a) (k := k) (m := m) (e := j) (by exact_mod_cast hstep) ?_
  rw [← hequal, zpow_natCast] at hmiddle
  have hcast : 10 ^ k * a + (10 ^ k * a + 10 ^ k) = 2 * (m * 2 ^ j) := by exact_mod_cast hmiddle
  rw [Nat.pow_succ]
  linarith

/-- The nearest point of the grid is unique. -/
theorem FirstGrid.eq_of_nearest (h : FirstGrid m e point k n) (hm : 2 ^ 52 ≤ m) {q : Nat}
    (hq : 10 ^ k ∣ q) (hcontains : (roundingInterval m e).Contains q)
    (hnear : |(q : ℚ) - m * 2 ^ e| ≤ |(n : ℚ) - m * 2 ^ e|) : q = n := by
  have hequal := le_antisymm hnear (h.nearest q hq hcontains)
  rcases Nat.lt_trichotomy q n with hlt | heq | hgt
  · exact (h.not_equally_near (by omega) hlt hq h.dvd hcontains h.contains hequal rfl).elim
  · exact heq
  · exact (h.not_equally_near (by omega) hgt h.dvd hq h.contains hcontains rfl hequal).elim

theorem FirstGrid.isShortestFor_iff (h : FirstGrid m e point k n) (hm : 2 ^ 52 ≤ m)
    (hm' : m < 2 ^ 53) (he : -52 ≤ e) (he' : e ≤ 971) {q : Nat} :
    IsShortestFor q m e ↔ q = n := by
  have hreads : ∀ {q : Nat}, ReadAs q m e ↔ (roundingInterval m e).Contains q := fun {q} ↦
    ⟨fun hq ↦ (contains_of_readAs hq (by omega)).2.2.2.2.2, readAs_of_contains hm hm' he he'⟩
  constructor
  · intro hq
    have hcontains := hreads.1 hq.read
    have hgrid : 10 ^ k ∣ q := hq.round n (hreads.2 h.contains) k h.dvd
    by_cases hpoint : point = k + 1
    · exact h.eq_of_coarsest hm hpoint hgrid hcontains
    · apply h.eq_of_nearest hm hgrid hcontains
      apply hq.nearest n (hreads.2 h.contains)
      intro j hj
      rcases Nat.lt_or_ge k j with hlt | hle
      · exact absurd (h.coarser q ((Nat.pow_dvd_pow 10 hlt).trans hj) hcontains) hpoint
      · exact (Nat.pow_dvd_pow 10 hle).trans h.dvd
  · rintro rfl
    refine ⟨hreads.2 h.contains, fun q hq j hj ↦ ?_, fun q hq hround ↦ ?_⟩
    · rcases Nat.lt_or_ge k j with hlt | hle
      · have hnext : 10 ^ (k + 1) ∣ q := (Nat.pow_dvd_pow 10 hlt).trans hj
        have hpoint := h.coarser q hnext (hreads.1 hq)
        rwa [← h.eq_of_coarsest hm hpoint ((Nat.pow_dvd_pow 10 k.le_succ).trans hnext) (hreads.1 hq)]
      · exact (Nat.pow_dvd_pow 10 hle).trans h.dvd
    · exact h.nearest q (hround k h.dvd) (hreads.1 hq)

end FirstGrid

/-! ## The shortest decimal -/

/-- A number is the shortest for a double exactly if the double is written as that number. -/
theorem isShortestFor_iff_value {n m : Nat} {e : Int} :
    IsShortestFor n m e ↔ ReadAs n m e ∧ (shortest m e).value = n := by
  rcases Nat.eq_zero_or_pos m with rfl | hm
  · have hzero : ∀ {q : Nat}, ReadAs q 0 e → q = 0 := by
      intro q hq
      by_contra hne
      have hlower := ((magnitude_ofDecimal_iff hne).1 hq).1
      omega
    have hvalue : (shortest 0 e).value = 0 := zero_mul _
    constructor
    · intro h
      rw [hvalue, hzero h.read, Nat.cast_zero]
      exact ⟨hzero h.read ▸ h.read, rfl⟩
    · rintro ⟨hread, -⟩
      refine ⟨hread, fun q hq ↦ ?_, fun q hq _ ↦ ?_⟩
      · rw [hzero hq, hzero hread]
        exact fun _ ↦ id
      · rw [hzero hq, hzero hread]
  · have hgrid (hread : ReadAs n m e) : IsShortestFor n m e ↔ (shortest m e).value = n := by
      obtain ⟨-, hlower, hupper, he, he', hcontains⟩ := contains_of_readAs hread hm.ne'
      obtain ⟨v, hv⟩ := exists_whole hm.ne' hcontains
      obtain ⟨-, point, k, n', hfirst, hvalue⟩ := exists_firstGrid hlower hupper he he' hv
      rw [hfirst.isShortestFor_iff hlower hupper he he', hvalue, Nat.cast_inj, eq_comm]
    exact ⟨fun h ↦ ⟨h.read, (hgrid h.read).1 h⟩, fun h ↦ (hgrid h.1).2 h.2⟩

/-- The natural numbers up to `2 ^ 53` are the shortest for their doubles. -/
theorem isShortest_of_le {n : Nat} (hn : n ≤ 2 ^ 53) : IsShortest n := by
  rcases Nat.eq_zero_or_pos n with rfl | hpos
  · exact ⟨0, -1074, isShortestFor_iff_value.2 ⟨readAs_zero, zero_mul _⟩⟩
  · rcases Nat.lt_or_ge n (2 ^ 53) with hlt | hge
    · obtain ⟨j, hj⟩ := exists_log2_add hpos.ne' hlt
      have hlog : (n <<< j).log2 = 52 := by rw [log2_shiftLeft hpos.ne', hj]
      have hne : n <<< j ≠ 0 := by
        rw [Nat.shiftLeft_eq]
        positivity
      obtain ⟨hlower, hupper⟩ := (Nat.log2_eq_iff hne).1 hlog
      have hvalue : ((n <<< j : Nat) : ℚ) * 2 ^ (-(j : Int)) = n := by
        rw [Nat.shiftLeft_eq, zpow_neg, zpow_natCast]
        push_cast
        field_simp
      have hcenter := (proper_roundingInterval (-(j : Int)) hne).contains_center
      rw [center_roundingInterval _ hne, hvalue] at hcenter
      have honly : ∀ {q : Nat}, ReadAs q (n <<< j) (-(j : Int)) → q = n := by
        intro q hq
        have hequal := eq_of_contains_of_nonpos hne (by omega) (contains_of_readAs hq hne).2.2.2.2.2
        rw [hvalue] at hequal
        exact_mod_cast hequal
      refine ⟨n <<< j, -(j : Int),
        readAs_of_contains hlower hupper (by omega) (by omega) hcenter, fun q hq ↦ ?_,
        fun q hq _ ↦ ?_⟩
      · rw [honly hq]
        exact fun _ ↦ id
      · rw [honly hq]
    · rw [le_antisymm hn hge]
      have hread : ReadAs (2 ^ 53) (2 ^ 52) 1 := by
        unfold ReadAs
        decide +kernel
      have hshortest : shortest (2 ^ 52) 1 = ⟨2 ^ 53, 0⟩ := by decide +kernel
      refine ⟨2 ^ 52, 1, isShortestFor_iff_value.2 ⟨hread, ?_⟩⟩
      rw [hshortest, Decimal.value, zpow_zero, mul_one]

end OntoGraph.Number
