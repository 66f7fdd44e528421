import OntoGraph.Number.Written
import OntoGraph.Proofs.Number.Digits

/-!
# The characters of written numbers

What can stand in the written form of a double. A property value has digits, a point and a sign,
and never an exponent.
-/

namespace OntoGraph.Number

/-- Without an exponent, a number is written with digits and a point. -/
theorem mem_positionalDigits {style : Style} {d : Decimal} {c : Char}
    (h : c ∈ (positionalDigits style d).toList) :
    isAsciiDigit c = true ∨ c = '.' ∨ c ∈ style.afterWhole.toList := by
  have hdigit : ∀ {c}, c ∈ Nat.toDigits 10 d.digits → isAsciiDigit c = true :=
    isAsciiDigit_of_mem_toDigits
  unfold positionalDigits at h
  dsimp only at h
  split at h
  · rw [String.toList_append, String.toList_ofList, List.mem_append, List.mem_append] at h
    rcases h with (h | h) | h
    · exact .inl (hdigit h)
    · rw [List.eq_of_mem_replicate h]
      exact .inl rfl
    · exact .inr (.inr h)
  · split at h
    · rw [String.toList_ofList, List.mem_append, List.mem_cons] at h
      rcases h with h | rfl | h
      · exact .inl (hdigit (List.mem_of_mem_take h))
      · exact .inr (.inl rfl)
      · exact .inl (hdigit (List.mem_of_mem_drop h))
    · rw [String.toList_ofList, List.mem_append, List.mem_cons, List.mem_cons] at h
      rcases h with (rfl | rfl | h) | h
      · exact .inl rfl
      · exact .inr (.inl rfl)
      · rw [List.eq_of_mem_replicate h]
        exact .inl rfl
      · exact .inl (hdigit h)

theorem toList_written (style : Style) (x : Float) :
    ∃ sign : List Char, (sign = [] ∨ sign = ['-']) ∧
      (written style x).toList = sign ++ ((magnitude x).written style).toList := by
  unfold written
  dsimp only
  split
  · exact ⟨['-'], .inr rfl, by rw [String.toList_append]; rfl⟩
  · exact ⟨[], .inl rfl, rfl⟩

/-- A property value that is finite is written without an exponent. -/
theorem not_exponent_of_mem_written {x : Float} {significand : Nat} {exponent : Int} {c : Char}
    (hx : magnitude x = .finite significand exponent)
    (hc : c ∈ (written valueStyle x).toList) : c ≠ 'E' ∧ c ≠ 'e' := by
  obtain ⟨sign, hsign, hwritten⟩ := toList_written valueStyle x
  rw [hwritten, hx, List.mem_append] at hc
  rcases hc with hc | hc
  · rcases hsign with rfl | rfl
    · cases hc
    · cases List.mem_singleton.1 hc
      exact ⟨by decide, by decide⟩
  · rcases mem_positionalDigits hc with hdigit | rfl | hc
    · constructor <;>
        · rintro rfl
          cases hdigit
    · exact ⟨by decide, by decide⟩
    · cases hc

end OntoGraph.Number
