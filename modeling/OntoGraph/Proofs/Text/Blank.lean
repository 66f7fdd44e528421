import Mathlib.Data.List.DropRight
import OntoGraph.Text.Blank

/-!
# Trimming

A trimmed text neither starts nor ends with a blank, and a text that does neither is left as it is.
So trimming twice is trimming once.
-/

namespace OntoGraph.Text

variable {p : Char → Bool} {cs : List Char}

theorem trimBy_eq (p : Char → Bool) (cs : List Char) :
    trimBy p cs = (cs.dropWhile p).rdropWhile p := rfl

/-- What starts a list from which as much as possible was dropped is not dropped either. -/
theorem dropWhile_of_prefix {front : List Char} (h : front <+: cs.dropWhile p) :
    front.dropWhile p = front := by
  rw [List.dropWhile_eq_self_iff]
  intro hfront
  have hback : 0 < (cs.dropWhile p).length := hfront.trans_le h.length_le
  rw [h.getElem hfront]
  exact List.dropWhile_get_zero_not p cs hback

@[simp] theorem trimBy_trimBy (p : Char → Bool) (cs : List Char) :
    trimBy p (trimBy p cs) = trimBy p cs := by
  rw [trimBy_eq p cs, trimBy_eq, dropWhile_of_prefix (List.rdropWhile_prefix p _)]
  exact List.rdropWhile_idempotent p _

@[simp] theorem trim_trim (s : String) : trim (trim s) = trim s := by
  unfold trim
  rw [String.toList_ofList, trimBy_trimBy]

/-- A text without blanks is not trimmed. -/
theorem trim_of_no_blanks {s : String} (h : ∀ c ∈ s.toList, isBlank c = false) : trim s = s := by
  have hstart : s.toList.dropWhile isBlank = s.toList := by
    rw [List.dropWhile_eq_self_iff]
    intro hlength
    simp [h _ (List.getElem_mem hlength)]
  have hend : s.toList.rdropWhile isBlank = s.toList := by
    rw [List.rdropWhile_eq_self_iff]
    intro hne
    simp [h _ (List.getLast_mem hne)]
  rw [trim, trimBy_eq, hstart, hend, String.ofList_toList]

end OntoGraph.Text
