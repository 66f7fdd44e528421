import OntoGraph.Ontology.Datatype
import OntoGraph.Proofs.Number.Written
import OntoGraph.Proofs.Text.Blank

/-!
# Lexical forms of valid values

What the written form of a valid value stands for has that form again and is valid again. Blanks
around a number do not count.
-/

namespace OntoGraph.Ontology

open Text Number

theorem mem_trimBy {p : Char → Bool} {cs : List Char} {c : Char} (h : c ∈ cs)
    (hc : p c = false) : c ∈ trimBy p cs := by
  have hkept : ∀ {cs : List Char}, c ∈ cs → c ∈ cs.dropWhile p := by
    intro cs hmem
    rw [← List.takeWhile_append_dropWhile (p := p) (l := cs), List.mem_append] at hmem
    rcases hmem with hmem | hmem
    · rw [List.all_eq_true.1 List.all_takeWhile c hmem] at hc
      cases hc
    · exact hmem
  rw [trimBy, dropRightWhile, List.mem_reverse]
  exact hkept (List.mem_reverse.2 (hkept h))

/-- The written form of a value under a datatype: the blanks around a number do not count. -/
def Datatype.writtenForm (d : Datatype) (lexical : String) : String :=
  if d.isNumeric then trim lexical else lexical

/-- A number is canonical if it is written as it was read. -/
theorem canonicalNumber?_eq_some_iff {s : String} {x : Float} : canonicalNumber? s = some x ↔
    read? (trim s) = some x ∧ written valueStyle x = trim s ∧
      ∃ significand exponent, magnitude x = .finite significand exponent := by
  unfold canonicalNumber?
  dsimp only
  cases hread : read? (trim s) with
  | none => simp
  | some y =>
    dsimp only
    rw [Option.some.injEq]
    constructor
    · intro h
      cases hmagnitude : magnitude y with
      | finite significand exponent =>
        rw [hmagnitude] at h
        by_cases hwritten : written valueStyle y = trim s
        · rw [if_pos hwritten] at h
          cases h
          exact ⟨rfl, hwritten, significand, exponent, hmagnitude⟩
        · rw [if_neg hwritten] at h
          cases h
      | _ =>
        rw [hmagnitude] at h
        cases h
    · rintro ⟨rfl, hwritten, significand, exponent, hfinite⟩
      rw [hfinite]
      exact if_pos hwritten

theorem canonicalNumber?_eq_some {s : String} {x : Float} (h : canonicalNumber? s = some x) :
    written valueStyle x = trim s ∧ ∃ significand exponent,
      magnitude x = .finite significand exponent :=
  (canonicalNumber?_eq_some_iff.1 h).2

/-- The blanks around a number do not count. -/
@[simp]
theorem canonicalNumber?_trim (s : String) : canonicalNumber? (trim s) = canonicalNumber? s := by
  unfold canonicalNumber?
  rw [trim_trim]

/-- A canonical number has no exponent. -/
theorem not_exponent_of_canonicalNumber? {s : String} {x : Float}
    (h : canonicalNumber? s = some x) :
    (s.toList.any fun c ↦ c == 'E' || c == 'e') = false := by
  obtain ⟨hwritten, significand, exponent, hfinite⟩ := canonicalNumber?_eq_some h
  rw [List.any_eq_false]
  intro c hc
  by_contra hexponent
  rw [Bool.or_eq_true, beq_iff_eq, beq_iff_eq] at hexponent
  have hblank : isBlank c = false := by
    rcases hexponent with rfl | rfl <;> decide
  have hmem : c ∈ (written valueStyle x).toList := by
    rw [hwritten, trim, String.toList_ofList]
    exact mem_trimBy hc hblank
  obtain ⟨hupper, hlower⟩ := not_exponent_of_mem_written hfinite hmem
  exact hexponent.elim hupper hlower

theorem accepts_boolean {v : Value} (h : Datatype.accepts .boolean v = true) :
    ∃ b, v = .bool b := by
  cases v with
  | bool b => exact ⟨b, rfl⟩
  | number x => simp only [Datatype.accepts, Bool.false_eq_true] at h
  | text s => simp only [Datatype.accepts, Bool.false_eq_true] at h

theorem acceptsLexical_of_accepts {d : Datatype} {v : Value} (hd : d ≠ .boolean)
    (h : d.accepts v = true) : d.acceptsLexical v.lexical = true := by
  unfold Datatype.accepts at h
  split at h
  · exact absurd rfl hd
  · exact absurd rfl hd
  · cases h
  · exact h

/-- What is not a truth value is judged by its text. -/
theorem accepts_eq_acceptsLexical {d : Datatype} {v : Value} (hd : d ≠ .boolean)
    (hv : ∀ b, v ≠ .bool b) : d.accepts v = d.acceptsLexical v.lexical := by
  unfold Datatype.accepts
  cases v with
  | bool b => exact absurd rfl (hv b)
  | number x =>
    cases d with
    | boolean => exact absurd rfl hd
    | _ => rfl
  | text s =>
    cases d with
    | boolean => exact absurd rfl hd
    | _ => rfl

theorem isSome_canonicalNumber?_of_accepts {d : Datatype} {v : Value} (hd : d.isNumeric = true)
    (h : d.accepts v = true) : ∃ x, canonicalNumber? v.lexical = some x := by
  have hlexical := acceptsLexical_of_accepts (by rintro rfl; cases hd) h
  rw [← Option.isSome_iff_exists]
  unfold Datatype.acceptsLexical at hlexical
  cases d with
  | decimal => exact hlexical
  | nonNegativeInteger => exact Option.isSome_of_any hlexical
  | positiveInteger => exact Option.isSome_of_any hlexical
  | _ => cases hd

/-- A text is judged by its written form. -/
@[simp] theorem acceptsLexical_writtenForm (d : Datatype) (s : String) :
    d.acceptsLexical (d.writtenForm s) = d.acceptsLexical s := by
  unfold Datatype.writtenForm Datatype.acceptsLexical
  cases d with
  | decimal => simp [Datatype.isNumeric]
  | nonNegativeInteger => simp [Datatype.isNumeric]
  | positiveInteger => simp [Datatype.isNumeric]
  | _ => rfl

/-- What the text of a valid value stands for has that text again. -/
theorem lexical_ofLexical {d : Datatype} {v : Value} (h : d.accepts v = true) :
    (d.ofLexical v.lexical).lexical = d.writtenForm v.lexical := by
  unfold Datatype.ofLexical Datatype.writtenForm
  by_cases hboolean : d = .boolean
  · subst hboolean
    obtain ⟨b, rfl⟩ := accepts_boolean h
    cases b <;> simp [Value.lexical, Datatype.isNumeric]
  · rw [if_neg hboolean]
    cases hd : d.isNumeric with
    | true =>
      obtain ⟨x, hx⟩ := isSome_canonicalNumber?_of_accepts hd h
      rw [if_pos rfl, if_pos rfl, hx]
      exact (canonicalNumber?_eq_some hx).1
    | false => rfl

/-- What the text of a valid value stands for is valid. -/
theorem accepts_ofLexical {d : Datatype} {v : Value} (h : d.accepts v = true) :
    d.accepts (d.ofLexical v.lexical) = true := by
  by_cases hboolean : d = .boolean
  · subst hboolean
    obtain ⟨b, rfl⟩ := accepts_boolean h
    cases b <;> rfl
  · have hwritten : d.acceptsLexical (d.ofLexical v.lexical).lexical = true := by
      rw [lexical_ofLexical h, acceptsLexical_writtenForm]
      exact acceptsLexical_of_accepts hboolean h
    have hnoBool : ∀ b, d.ofLexical v.lexical ≠ .bool b := by
      intro b
      unfold Datatype.ofLexical
      rw [if_neg hboolean]
      split
      · split <;> exact Value.noConfusion
      · exact Value.noConfusion
    rw [accepts_eq_acceptsLexical hboolean hnoBool]
    exact hwritten

/-- Reading the written form of what was read gives the same value. -/
theorem ofLexical_lexical_ofLexical {d : Datatype} {v : Value} (h : d.accepts v = true) :
    d.ofLexical (d.ofLexical v.lexical).lexical = d.ofLexical v.lexical := by
  rw [lexical_ofLexical h]
  unfold Datatype.writtenForm
  cases hd : d.isNumeric with
  | true =>
    unfold Datatype.ofLexical
    obtain ⟨x, hx⟩ := isSome_canonicalNumber?_of_accepts hd h
    have hboolean : d ≠ .boolean := by
      rintro rfl
      cases hd
    rw [if_neg hboolean, if_neg hboolean, if_pos hd, if_pos rfl, if_pos hd, canonicalNumber?_trim,
      hx]
  | false => rfl

end OntoGraph.Ontology
