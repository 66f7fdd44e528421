import Mathlib.Data.List.Basic
import Mathlib.Data.List.TakeWhile
import OntoGraph.Proofs.Text.Scan
import OntoGraph.Text.Version

/-!
# The grammar of semantic versions

The grammar of Semantic Versioning 2.0.0 has ASCII digits only. The check of versions takes a text
apart at its separators, and inside a number it admits the decimal digits of every script. So the
versions of the grammar are exactly the texts that pass the check and whose decimal digits are all
ASCII.
-/

namespace OntoGraph.Text

/-! ## The grammar -/

/-- A zero, or digits that do not start with a zero. -/
inductive NumericIdentifier : List Char → Prop
  | zero : NumericIdentifier ['0']
  | positive {c : Char} {cs : List Char} (hc : c.isDigit = true) (hne : c ≠ '0')
      (hcs : ∀ d ∈ cs, d.isDigit = true) : NumericIdentifier (c :: cs)

def IsNonDigit (c : Char) : Prop := c.isAlpha = true ∨ c = '-'

def IsIdentifierCharacter (c : Char) : Prop := c.isDigit = true ∨ IsNonDigit c

/-- Digits, letters and hyphens that are not all digits. -/
structure AlphanumericIdentifier (cs : List Char) : Prop where
  characters : ∀ c ∈ cs, IsIdentifierCharacter c
  nonDigit : ∃ c ∈ cs, IsNonDigit c

/-- An identifier of a pre-release has no leading zeros if it is a number. -/
inductive PreReleaseIdentifier (cs : List Char) : Prop
  | alphanumeric (h : AlphanumericIdentifier cs)
  | numeric (h : NumericIdentifier cs)

/-- An identifier of a build may have leading zeros. -/
inductive BuildIdentifier (cs : List Char) : Prop
  | alphanumeric (h : AlphanumericIdentifier cs)
  | digits (hne : cs ≠ []) (h : ∀ c ∈ cs, c.isDigit = true)

/-- One identifier or several with points between them. -/
inductive DotSeparated (identifier : List Char → Prop) : List Char → Prop
  | single {cs : List Char} (h : identifier cs) : DotSeparated identifier cs
  | cons {cs rest : List Char} (h : identifier cs) (hrest : DotSeparated identifier rest) :
      DotSeparated identifier (cs ++ '.' :: rest)

/-- Three numbers with points between them. -/
inductive VersionCore (number : List Char → Prop) : List Char → Prop
  | mk {major minor patch : List Char} (hmajor : number major) (hminor : number minor)
      (hpatch : number patch) : VersionCore number (major ++ '.' :: (minor ++ '.' :: patch))

/-- Nothing, or a mark with content after it. -/
inductive OptionalPart (mark : Char) (content : List Char → Prop) : List Char → Prop
  | absent : OptionalPart mark content []
  | present {cs : List Char} (h : content cs) : OptionalPart mark content (mark :: cs)

/-- A version with given forms of its identifiers. -/
inductive VersionOf (number preRelease build : List Char → Prop) : List Char → Prop
  | mk {core pre suffix : List Char} (hcore : VersionCore number core)
      (hpre : OptionalPart '-' (DotSeparated preRelease) pre)
      (hbuild : OptionalPart '+' (DotSeparated build) suffix) :
      VersionOf number preRelease build (core ++ (pre ++ suffix))

/-- A version of the grammar. -/
def SemanticVersion (cs : List Char) : Prop :=
  VersionOf NumericIdentifier PreReleaseIdentifier BuildIdentifier cs

/-! ## Characters of the parts -/

/-- Do all characters satisfy a predicate, and does the text have a form? -/
def WithAll (good : Char → Prop) (form : List Char → Prop) (cs : List Char) : Prop :=
  form cs ∧ ∀ c ∈ cs, good c

section Characters

variable {P Q R : List Char → Prop} {good : Char → Prop} {cs : List Char}

theorem dotSeparated_withAll (hdot : good '.') :
    DotSeparated (WithAll good P) cs ↔ DotSeparated P cs ∧ ∀ c ∈ cs, good c := by
  constructor
  · intro h
    induction h with
    | single h => exact ⟨.single h.1, h.2⟩
    | cons h _ ih =>
      simp only [List.forall_mem_append, List.forall_mem_cons]
      exact ⟨.cons h.1 ih.1, h.2, hdot, ih.2⟩
  · rintro ⟨h, hgood⟩
    induction h with
    | single h => exact .single ⟨h, hgood⟩
    | cons h _ ih =>
      simp only [List.forall_mem_append, List.forall_mem_cons] at hgood
      exact .cons ⟨h, hgood.1⟩ (ih hgood.2.2)

theorem versionCore_withAll (hdot : good '.') :
    VersionCore (WithAll good P) cs ↔ VersionCore P cs ∧ ∀ c ∈ cs, good c := by
  constructor
  · rintro ⟨hmajor, hminor, hpatch⟩
    simp only [List.forall_mem_append, List.forall_mem_cons]
    exact ⟨.mk hmajor.1 hminor.1 hpatch.1, hmajor.2, hdot, hminor.2, hdot, hpatch.2⟩
  · rintro ⟨⟨hmajor, hminor, hpatch⟩, hgood⟩
    simp only [List.forall_mem_append, List.forall_mem_cons] at hgood
    exact .mk ⟨hmajor, hgood.1⟩ ⟨hminor, hgood.2.2.1⟩ ⟨hpatch, hgood.2.2.2.2⟩

theorem optionalPart_withAll {mark : Char} (hmark : good mark) :
    OptionalPart mark (WithAll good P) cs ↔ OptionalPart mark P cs ∧ ∀ c ∈ cs, good c := by
  constructor
  · rintro (_ | h)
    · exact ⟨.absent, List.forall_mem_nil _⟩
    · exact ⟨.present h.1, List.forall_mem_cons.2 ⟨hmark, h.2⟩⟩
  · rintro ⟨_ | h, hgood⟩
    · exact .absent
    · exact .present ⟨h, (List.forall_mem_cons.1 hgood).2⟩

/-- A version whose identifiers have certain characters is a version with these characters. -/
theorem versionOf_withAll (hdot : good '.') (hhyphen : good '-') (hplus : good '+') :
    VersionOf (WithAll good P) (WithAll good Q) (WithAll good R) cs ↔
      VersionOf P Q R cs ∧ ∀ c ∈ cs, good c := by
  have hparts : ∀ form : List Char → Prop,
      DotSeparated (WithAll good form) = WithAll good (DotSeparated form) := fun form ↦
    funext fun cs ↦ propext (dotSeparated_withAll hdot)
  constructor
  · rintro ⟨hcore, hpre, hbuild⟩
    rw [hparts, optionalPart_withAll hhyphen] at hpre
    rw [hparts, optionalPart_withAll hplus] at hbuild
    rw [versionCore_withAll hdot] at hcore
    simp only [List.forall_mem_append]
    exact ⟨.mk hcore.1 hpre.1 hbuild.1, hcore.2, hpre.2, hbuild.2⟩
  · rintro ⟨⟨hcore, hpre, hbuild⟩, hgood⟩
    simp only [List.forall_mem_append] at hgood
    apply VersionOf.mk
    · exact (versionCore_withAll hdot).2 ⟨hcore, hgood.1⟩
    · rw [hparts, optionalPart_withAll hhyphen]
      exact ⟨hpre, hgood.2.1⟩
    · rw [hparts, optionalPart_withAll hplus]
      exact ⟨hbuild, hgood.2.2⟩

end Characters

/-! ## Separators -/

theorem splitOn_eq (separator : Char) (cs : List Char) :
    Iri.splitOn separator cs = cs.splitOn separator := by
  unfold Iri.splitOn
  induction cs with
  | nil => exact List.splitOn_nil separator
  | cons c cs ih =>
    rw [List.foldr_cons, List.splitOn_cons_eq_if_modifyHead, ih]
    by_cases hc : c = separator
    · rw [if_pos hc, if_pos (beq_iff_eq.2 hc)]
    · rw [if_neg hc, if_neg (fun h ↦ hc (beq_iff_eq.1 h))]
      cases hparts : cs.splitOn separator with
      | nil => exact absurd hparts (List.splitOn_ne_nil _ _)
      | cons part parts => rfl

theorem dotSeparated_intercalate {P : List Char → Prop} {parts : List (List Char)}
    (hne : parts ≠ []) (h : ∀ part ∈ parts, P part) :
    DotSeparated P (['.'].intercalate parts) := by
  induction parts with
  | nil => exact absurd rfl hne
  | cons part parts ih =>
    obtain ⟨hpart, hparts⟩ := List.forall_mem_cons.1 h
    by_cases hlast : parts = []
    · subst hlast
      rw [List.intercalate_singleton]
      exact .single hpart
    · rw [List.intercalate_cons_of_ne_nil hlast, List.append_assoc]
      exact .cons hpart (ih hlast hparts)

/-- Where no identifier has a point, the identifiers are the parts between the points. -/
theorem dotSeparated_iff {P : List Char → Prop} (hdot : ∀ part, P part → '.' ∉ part)
    {cs : List Char} : DotSeparated P cs ↔ ∀ part ∈ Iri.splitOn '.' cs, P part := by
  rw [splitOn_eq]
  constructor
  · intro h
    induction h with
    | single h =>
      rw [List.splitOn_eq_singleton (hdot _ h), List.forall_mem_singleton]
      exact h
    | cons h _ ih =>
      rw [List.splitOn_append_cons_self_of_not_mem (hdot _ h), List.forall_mem_cons]
      exact ⟨h, ih⟩
  · intro h
    have hjoined := dotSeparated_intercalate (List.splitOn_ne_nil '.' cs) h
    rwa [List.intercalate_splitOn] at hjoined

theorem isVersionCore_iff (hdot : ∀ part, isVersionNumber part = true → '.' ∉ part)
    {cs : List Char} :
    isVersionCore cs = true ↔ VersionCore (fun part ↦ isVersionNumber part = true) cs := by
  unfold isVersionCore
  simp only [Bool.and_eq_true, beq_iff_eq, List.all_eq_true, splitOn_eq]
  constructor
  · rintro ⟨hlength, hall⟩
    obtain ⟨major, minor, patch, hparts⟩ := List.length_eq_three.1 hlength
    rw [hparts] at hall
    simp only [List.forall_mem_cons] at hall
    have hjoined : cs = major ++ '.' :: (minor ++ '.' :: patch) := by
      calc cs = ['.'].intercalate [major, minor, patch] := by
            rw [← hparts, List.intercalate_splitOn]
        _ = major ++ '.' :: (minor ++ '.' :: patch) := by
            simp only [List.intercalate_cons_cons, List.intercalate_singleton, List.append_assoc,
              List.cons_append, List.nil_append]
    rw [hjoined]
    exact .mk hall.1 hall.2.1 hall.2.2.1
  · rintro ⟨hmajor, hminor, hpatch⟩
    rw [List.splitOn_append_cons_self_of_not_mem (hdot _ hmajor),
      List.splitOn_append_cons_self_of_not_mem (hdot _ hminor),
      List.splitOn_eq_singleton (hdot _ hpatch)]
    simp only [List.forall_mem_cons]
    exact ⟨rfl, hmajor, hminor, hpatch, List.forall_mem_nil _⟩

/-- A text that is split at a mark has a front, and what follows the mark if it is there. -/
theorem splitOnce?_iff {mark : Char} {front back : List Char → Bool}
    (hfront : ∀ part, front part = true → mark ∉ part) {cs : List Char} :
    (match splitOnce? mark cs with
      | some (first, second) => front first && back second
      | none => front cs) = true ↔
    ∃ first second, cs = first ++ second ∧ front first = true ∧
      OptionalPart mark (fun part ↦ back part = true) second := by
  constructor
  · intro h
    rcases hsplit : splitOnce? mark cs with _ | ⟨first, second⟩
    · rw [hsplit] at h
      exact ⟨cs, [], (List.append_nil cs).symm, h, .absent⟩
    · rw [hsplit, Bool.and_eq_true] at h
      exact ⟨first, mark :: second, (splitOnce?_eq_some_iff.1 hsplit).1, h.1, .present h.2⟩
  · rintro ⟨first, _, rfl, hfirst, _ | hback⟩
    · rw [List.append_nil, splitOnce?_eq_none_iff.2 (hfront _ hfirst)]
      exact hfirst
    · rw [splitOnce?_append _ (hfront _ hfirst)]
      exact Bool.and_eq_true_iff.2 ⟨hfirst, hback⟩

end OntoGraph.Text
