import Mathlib.Computability.Language
import OntoGraph.Ontology.Datatype
import OntoGraph.Proofs.Text.VersionGrammar

/-!
# Versions and their pattern

The check of versions accepts the language of a regular expression, in which `\d` stands for the
decimal digits of every script. The main statement compares it with the grammar of semantic
versions: a text is derivable exactly if it is accepted and all its decimal digits are ASCII.
-/

namespace OntoGraph.Text

open Computability

/-! ## Characters -/

/-- Is the character an ASCII digit, if it is a decimal digit of some script at all? -/
def HasAsciiDigit (c : Char) : Prop := isDecimalDigit c = true → c.isDigit = true

/-- Of the ASCII characters, the decimal digits are those from zero to nine. -/
theorem isDecimalDigit_eq_isDigit {c : Char} (h : c.toNat < 128) :
    isDecimalDigit c = c.isDigit := by
  have hsplit : decimalDigits.toList = [48, 58] ++ decimalDigits.toList.drop 2 := by rfl
  have hothers : ∀ boundary ∈ decimalDigits.toList.drop 2, 128 ≤ boundary := by
    decide +kernel
  have hnone : (decimalDigits.toList.drop 2).countP (decide <| · ≤ c.toNat) = 0 := by
    rw [List.countP_eq_zero]
    intro boundary hboundary
    have hle := hothers boundary hboundary
    rw [decide_eq_true_eq]
    omega
  have hdigit : c.isDigit = true ↔ 48 ≤ c.toNat ∧ c.toNat ≤ 57 := Char.isDigit_iff_toNat
  rw [Bool.eq_iff_iff, hdigit, isDecimalDigit, Boundaries.has, ← Array.countP_toList, hsplit,
    List.countP_append, hnone, List.countP_cons, List.countP_cons, List.countP_nil, beq_iff_eq]
  simp only [decide_eq_true_eq]
  split <;> split <;> omega

theorem hasAsciiDigit_of_lt {c : Char} (h : c.toNat < 128) : HasAsciiDigit c := fun hc ↦
  (isDecimalDigit_eq_isDigit h).symm.trans hc

theorem toNat_lt_of_isDigit {c : Char} (h : c.isDigit = true) : c.toNat < 128 := by
  have hle := (Char.isDigit_iff_toNat.1 h).2
  exact lt_of_le_of_lt hle (by decide)

theorem isDecimalDigit_of_isDigit {c : Char} (h : c.isDigit = true) : isDecimalDigit c = true :=
  (isDecimalDigit_eq_isDigit (toNat_lt_of_isDigit h)).trans h

theorem isAlpha_iff_toNat {c : Char} : c.isAlpha = true ↔
    (65 ≤ c.toNat ∧ c.toNat ≤ 90) ∨ 97 ≤ c.toNat ∧ c.toNat ≤ 122 := by
  change (decide (65 ≤ c.val ∧ c.val ≤ 90) ||
    decide (97 ≤ c.val) && decide (c.val ≤ 122)) = true ↔ _
  simp only [Bool.or_eq_true, Bool.and_eq_true, decide_eq_true_eq, UInt32.le_iff_toNat_le]
  exact Iff.rfl

theorem IsNonDigit.toNat_lt {c : Char} (h : IsNonDigit c) : c.toNat < 128 := by
  rcases h with h | rfl
  · have := isAlpha_iff_toNat.1 h
    omega
  · decide

theorem IsNonDigit.not_isDecimalDigit {c : Char} (h : IsNonDigit c) : isDecimalDigit c = false := by
  rw [isDecimalDigit_eq_isDigit h.toNat_lt, ← Bool.not_eq_true]
  intro hdigit
  have hbounds : 48 ≤ c.toNat ∧ c.toNat ≤ 57 := Char.isDigit_iff_toNat.1 hdigit
  rcases h with h | rfl
  · have := isAlpha_iff_toNat.1 h
    omega
  · cases hdigit

theorem IsIdentifierCharacter.toNat_lt {c : Char} (h : IsIdentifierCharacter c) : c.toNat < 128 :=
  h.elim toNat_lt_of_isDigit IsNonDigit.toNat_lt

theorem isIdentifierLetter_iff {c : Char} : isIdentifierLetter c = true ↔ IsNonDigit c := by
  have hletter : Iri.isLetter c = c.isAlpha := by
    rw [Bool.eq_iff_iff, isAlpha_iff_toNat, or_comm]
    simp only [Iri.isLetter, Bool.or_eq_true, Bool.and_eq_true, decide_eq_true_eq, Char.le_def,
      UInt32.le_iff_toNat_le]
    exact Iff.rfl
  rw [isIdentifierLetter, hletter, Bool.or_eq_true, beq_iff_eq]
  exact Iff.rfl

theorem isIdentifierChar_iff {c : Char} :
    isIdentifierChar c = true ↔ IsIdentifierCharacter c := by
  rw [isIdentifierChar, Bool.or_eq_true, isIdentifierLetter_iff, or_comm]
  exact Iff.rfl

theorem isIdentifierChar_separators :
    isIdentifierChar '.' = false ∧ isIdentifierChar '+' = false ∧ isDecimalDigit '.' = false ∧
      isDecimalDigit '+' = false ∧ isDecimalDigit '-' = false := by
  decide +kernel

/-! ## Identifiers -/

def isPositiveDigit (c : Char) : Bool := decide ('1' ≤ c) && decide (c ≤ '9')

theorem isPositiveDigit_iff {c : Char} :
    isPositiveDigit c = true ↔ c.isDigit = true ∧ c ≠ '0' := by
  have hzero : c = '0' ↔ c.toNat = 48 :=
    ⟨fun h ↦ by rw [h]; rfl, fun h ↦ Char.toNat_inj.1 h⟩
  have hbounds : isPositiveDigit c = true ↔ 49 ≤ c.toNat ∧ c.toNat ≤ 57 := by
    simp only [isPositiveDigit, Bool.and_eq_true, decide_eq_true_eq, Char.le_def,
      UInt32.le_iff_toNat_le]
    exact Iff.rfl
  have hdigit : c.isDigit = true ↔ 48 ≤ c.toNat ∧ c.toNat ≤ 57 := Char.isDigit_iff_toNat
  rw [hbounds, hdigit, Ne, hzero]
  omega

theorem isVersionNumber_iff {cs : List Char} : isVersionNumber cs = true ↔
    cs = ['0'] ∨ ∃ c rest, cs = c :: rest ∧ isPositiveDigit c = true ∧
      ∀ d ∈ rest, isDecimalDigit d = true := by
  fun_cases isVersionNumber cs with
  | case1 => simp
  | case2 => simp
  | case3 c rest hnot =>
    have hzero : c :: rest ≠ ['0'] := fun h ↦ hnot (List.cons.inj h).1 (List.cons.inj h).2
    simp only [hzero, false_or, Bool.and_eq_true, List.all_eq_true]
    constructor
    · rintro ⟨hc, hrest⟩
      exact ⟨c, rest, rfl, Bool.and_eq_true_iff.2 hc, hrest⟩
    · rintro ⟨_, _, heq, hc, hrest⟩
      cases heq
      exact ⟨Bool.and_eq_true_iff.1 hc, hrest⟩

theorem isAlphanumericIdentifier_iff {cs : List Char} : isAlphanumericIdentifier cs = true ↔
    ∃ digits c rest, cs = digits ++ c :: rest ∧ (∀ d ∈ digits, isDecimalDigit d = true) ∧
      isIdentifierLetter c = true ∧ ∀ d ∈ rest, isIdentifierChar d = true := by
  unfold isAlphanumericIdentifier
  constructor
  · intro h
    cases hdrop : cs.dropWhile isDecimalDigit with
    | nil =>
      rw [hdrop] at h
      cases h
    | cons c rest =>
      rw [hdrop, Bool.and_eq_true, List.all_eq_true] at h
      refine ⟨cs.takeWhile isDecimalDigit, c, rest, ?_, fun d hd ↦ List.mem_takeWhile_imp hd, h⟩
      rw [← hdrop, List.takeWhile_append_dropWhile]
  · rintro ⟨digits, c, rest, rfl, hdigits, hc, hrest⟩
    have hstop : isDecimalDigit c = false := (isIdentifierLetter_iff.1 hc).not_isDecimalDigit
    rw [List.dropWhile_append_of_pos hdigits, List.dropWhile_cons_of_neg (by simp [hstop])]
    exact Bool.and_eq_true_iff.2 ⟨hc, List.all_eq_true.2 hrest⟩

theorem isBuildIdentifier_iff {cs : List Char} : isBuildIdentifier cs = true ↔
    cs ≠ [] ∧ ∀ c ∈ cs, isIdentifierChar c = true := by
  simp only [isBuildIdentifier, Bool.and_eq_true, bne_iff_ne, List.all_eq_true]

/-- The digits of a number are decimal. -/
theorem isDecimalDigit_of_isVersionNumber {cs : List Char} (h : isVersionNumber cs = true) :
    ∀ c ∈ cs, isDecimalDigit c = true := by
  rcases isVersionNumber_iff.1 h with rfl | ⟨c, rest, rfl, hc, hrest⟩
  · exact List.forall_mem_singleton.2 (isDecimalDigit_of_isDigit (by decide))
  · exact List.forall_mem_cons.2
      ⟨isDecimalDigit_of_isDigit (isPositiveDigit_iff.1 hc).1, hrest⟩

/-- An identifier of a pre-release has digits, letters and hyphens. -/
theorem mem_of_isPreReleaseIdentifier {cs : List Char} (h : isPreReleaseIdentifier cs = true) :
    ∀ c ∈ cs, isDecimalDigit c = true ∨ isIdentifierChar c = true := by
  rcases Bool.or_eq_true_iff.1 h with h | h
  · exact fun c hc ↦ .inl (isDecimalDigit_of_isVersionNumber h c hc)
  · obtain ⟨digits, c, rest, rfl, hdigits, hc, hrest⟩ := isAlphanumericIdentifier_iff.1 h
    simp only [List.forall_mem_append, List.forall_mem_cons]
    exact ⟨fun d hd ↦ .inl (hdigits d hd), .inr (Bool.or_eq_true_iff.2 (.inl hc)),
      fun d hd ↦ .inr (hrest d hd)⟩

/-! ## Identifiers of the grammar -/

theorem numericIdentifier_iff {cs : List Char} : NumericIdentifier cs ↔
    WithAll HasAsciiDigit (fun part ↦ isVersionNumber part = true) cs := by
  change _ ↔ isVersionNumber cs = true ∧ _
  rw [isVersionNumber_iff]
  constructor
  · rintro (_ | ⟨hc, hne, hcs⟩)
    · exact ⟨.inl rfl, List.forall_mem_singleton.2 (hasAsciiDigit_of_lt (by decide))⟩
    · constructor
      · exact .inr ⟨_, _, rfl, isPositiveDigit_iff.2 ⟨hc, hne⟩,
          fun d hd ↦ isDecimalDigit_of_isDigit (hcs d hd)⟩
      · exact List.forall_mem_cons.2 ⟨fun _ ↦ hc, fun d hd _ ↦ hcs d hd⟩
  · rintro ⟨rfl | ⟨c, rest, rfl, hc, hrest⟩, hgood⟩
    · exact .zero
    · have hfirst := isPositiveDigit_iff.1 hc
      exact .positive hfirst.1 hfirst.2 fun d hd ↦
        hgood d (List.mem_cons_of_mem _ hd) (hrest d hd)

/-- Some character of an alphanumeric identifier is the first that is no digit. -/
theorem AlphanumericIdentifier.isAlphanumericIdentifier {cs : List Char}
    (h : AlphanumericIdentifier cs) : isAlphanumericIdentifier cs = true := by
  have hsplit := List.takeWhile_append_dropWhile (p := isDecimalDigit) (l := cs)
  have hrest : ∀ c ∈ cs.dropWhile isDecimalDigit, IsIdentifierCharacter c := fun c hc ↦
    h.characters c (List.dropWhile_subset _ hc)
  cases hdrop : cs.dropWhile isDecimalDigit with
  | nil =>
    -- a text of digits has no other character
    obtain ⟨c, hc, hnon⟩ := h.nonDigit
    rw [hdrop, List.append_nil] at hsplit
    rw [← hsplit] at hc
    exact absurd (List.mem_takeWhile_imp hc) (Bool.eq_false_iff.1 hnon.not_isDecimalDigit)
  | cons c rest =>
    rw [hdrop] at hsplit hrest
    have hstop : isDecimalDigit c = false := by
      have hhead := List.head?_dropWhile_not isDecimalDigit cs
      rw [hdrop] at hhead
      exact hhead
    have hnon : IsNonDigit c := (hrest c List.mem_cons_self).resolve_left fun hdigit ↦
      absurd (isDecimalDigit_of_isDigit hdigit) (Bool.eq_false_iff.1 hstop)
    exact isAlphanumericIdentifier_iff.2 ⟨_, c, rest, hsplit.symm,
      fun d hd ↦ List.mem_takeWhile_imp hd, isIdentifierLetter_iff.2 hnon,
      fun d hd ↦ isIdentifierChar_iff.2 (hrest d (List.mem_cons_of_mem _ hd))⟩

theorem alphanumericIdentifier_iff {cs : List Char} : AlphanumericIdentifier cs ↔
    WithAll HasAsciiDigit (fun part ↦ isAlphanumericIdentifier part = true) cs := by
  constructor
  · intro h
    exact ⟨h.isAlphanumericIdentifier,
      fun c hc ↦ hasAsciiDigit_of_lt (h.characters c hc).toNat_lt⟩
  · rintro ⟨h, hgood⟩
    obtain ⟨digits, c, rest, rfl, hdigits, hc, hrest⟩ := isAlphanumericIdentifier_iff.1 h
    simp only [List.forall_mem_append, List.forall_mem_cons] at hgood
    have hnon : IsNonDigit c := isIdentifierLetter_iff.1 hc
    refine ⟨?_, c, List.mem_append_right _ List.mem_cons_self, hnon⟩
    simp only [List.forall_mem_append, List.forall_mem_cons]
    exact ⟨fun d hd ↦ .inl (hgood.1 d hd (hdigits d hd)), .inr hnon,
      fun d hd ↦ isIdentifierChar_iff.1 (hrest d hd)⟩

theorem preReleaseIdentifier_iff {cs : List Char} : PreReleaseIdentifier cs ↔
    WithAll HasAsciiDigit (fun part ↦ isPreReleaseIdentifier part = true) cs := by
  change _ ↔ (isVersionNumber cs || isAlphanumericIdentifier cs) = true ∧ _
  rw [Bool.or_eq_true, or_and_right]
  constructor
  · rintro (h | h)
    · exact .inr (alphanumericIdentifier_iff.1 h)
    · exact .inl (numericIdentifier_iff.1 h)
  · rintro (h | h)
    · exact .numeric (numericIdentifier_iff.2 h)
    · exact .alphanumeric (alphanumericIdentifier_iff.2 h)

theorem buildIdentifier_iff {cs : List Char} : BuildIdentifier cs ↔
    WithAll HasAsciiDigit (fun part ↦ isBuildIdentifier part = true) cs := by
  change _ ↔ isBuildIdentifier cs = true ∧ _
  simp only [isBuildIdentifier_iff, isIdentifierChar_iff]
  constructor
  · rintro (h | ⟨hne, h⟩)
    · have hne : cs ≠ [] := List.ne_nil_of_mem h.nonDigit.choose_spec.1
      exact ⟨⟨hne, h.characters⟩, fun c hc ↦ hasAsciiDigit_of_lt (h.characters c hc).toNat_lt⟩
    · exact ⟨⟨hne, fun c hc ↦ .inl (h c hc)⟩, fun c hc _ ↦ h c hc⟩
  · rintro ⟨⟨hne, h⟩, -⟩
    by_cases hdigits : ∀ c ∈ cs, c.isDigit = true
    · exact .digits hne hdigits
    · push Not at hdigits
      obtain ⟨c, hc, hnot⟩ := hdigits
      exact .alphanumeric ⟨h, c, hc, (h c hc).resolve_left hnot⟩

/-! ## The check of versions -/

theorem not_mem_of_isVersionNumber {c : Char} (hc : isDecimalDigit c = false) {part : List Char}
    (h : isVersionNumber part = true) : c ∉ part := fun hmem ↦
  absurd (isDecimalDigit_of_isVersionNumber h c hmem) (Bool.eq_false_iff.1 hc)

theorem not_mem_of_isPreReleaseIdentifier {c : Char} (hdigit : isDecimalDigit c = false)
    (hc : isIdentifierChar c = false) {part : List Char} (h : isPreReleaseIdentifier part = true) :
    c ∉ part := fun hmem ↦
  (mem_of_isPreReleaseIdentifier h c hmem).elim
    (fun h ↦ absurd h (Bool.eq_false_iff.1 hdigit)) fun h ↦ absurd h (Bool.eq_false_iff.1 hc)

theorem dotSeparated_of_all {identifier : List Char → Bool}
    (hdot : ∀ part, identifier part = true → '.' ∉ part) :
    (fun cs ↦ (Iri.splitOn '.' cs).all identifier = true) =
      DotSeparated fun part ↦ identifier part = true := by
  funext cs
  rw [List.all_eq_true]
  exact propext (dotSeparated_iff hdot).symm

theorem not_mem_versionCore {c : Char} (hdot : c ≠ '.') (hdigit : isDecimalDigit c = false)
    {cs : List Char} (h : VersionCore (fun part ↦ isVersionNumber part = true) cs) : c ∉ cs := by
  rcases h with ⟨hmajor, hminor, hpatch⟩
  simp only [List.mem_append, List.mem_cons, not_or]
  exact ⟨not_mem_of_isVersionNumber hdigit hmajor, hdot,
    not_mem_of_isVersionNumber hdigit hminor, hdot, not_mem_of_isVersionNumber hdigit hpatch⟩

theorem not_mem_dotSeparated {c : Char} (hdot : c ≠ '.') {form : List Char → Prop}
    (hform : ∀ part, form part → c ∉ part) {cs : List Char} (h : DotSeparated form cs) :
    c ∉ cs := by
  induction h with
  | single h => exact hform _ h
  | cons h _ ih =>
    rw [List.mem_append, List.mem_cons, not_or, not_or]
    exact ⟨hform _ h, hdot, ih⟩

theorem isVersionWithoutBuild_iff {cs : List Char} : isVersionWithoutBuild cs = true ↔
    ∃ core pre, cs = core ++ pre ∧ VersionCore (fun part ↦ isVersionNumber part = true) core ∧
      OptionalPart '-' (DotSeparated fun part ↦ isPreReleaseIdentifier part = true) pre := by
  have hdigits := isIdentifierChar_separators
  have hcore {part : List Char} : isVersionCore part = true ↔ _ :=
    isVersionCore_iff fun _ ↦ not_mem_of_isVersionNumber hdigits.2.2.1
  have hhyphen : ∀ part, isVersionCore part = true → '-' ∉ part := fun part h ↦
    not_mem_versionCore (by decide) hdigits.2.2.2.2 (hcore.1 h)
  have hpre : ∀ part, isPreReleaseIdentifier part = true → '.' ∉ part := fun part ↦
    not_mem_of_isPreReleaseIdentifier hdigits.2.2.1 hdigits.1
  refine (splitOnce?_iff hhyphen).trans ?_
  rw [dotSeparated_of_all hpre]
  simp only [hcore]

/-- A plus sign stands before the identifiers of the build only. -/
theorem not_mem_of_isVersionWithoutBuild {cs : List Char} (h : isVersionWithoutBuild cs = true) :
    '+' ∉ cs := by
  have hdigits := isIdentifierChar_separators
  obtain ⟨core, pre, rfl, hcore, hpre⟩ := isVersionWithoutBuild_iff.1 h
  rw [List.mem_append, not_or]
  constructor
  · exact not_mem_versionCore (by decide) hdigits.2.2.2.1 hcore
  · rcases hpre with _ | hpre
    · exact List.not_mem_nil
    · rw [List.mem_cons, not_or]
      exact ⟨by decide, not_mem_dotSeparated (by decide) (fun part ↦
        not_mem_of_isPreReleaseIdentifier hdigits.2.2.2.1 hdigits.2.1) hpre⟩

/-- The check takes a text apart as the grammar does. -/
theorem isVersion_iff {s : String} : isVersion s = true ↔
    VersionOf (fun part ↦ isVersionNumber part = true)
      (fun part ↦ isPreReleaseIdentifier part = true)
      (fun part ↦ isBuildIdentifier part = true) s.toList := by
  have hbuild : ∀ part, isBuildIdentifier part = true → '.' ∉ part := fun part h hmem ↦
    absurd ((isBuildIdentifier_iff.1 h).2 _ hmem) (by decide)
  refine (splitOnce?_iff fun _ ↦ not_mem_of_isVersionWithoutBuild).trans ?_
  rw [dotSeparated_of_all hbuild]
  simp only [isVersionWithoutBuild_iff]
  constructor
  · rintro ⟨_, suffix, heq, ⟨core, pre, rfl, hcore, hpre⟩, hsuffix⟩
    rw [heq, List.append_assoc]
    exact .mk hcore hpre hsuffix
  · intro h
    generalize s.toList = cs at h
    rcases h with @⟨core, pre, suffix, hcore, hpre, hsuffix⟩
    exact ⟨core ++ pre, suffix, (List.append_assoc ..).symm, ⟨core, pre, rfl, hcore, hpre⟩, hsuffix⟩

/-- The versions of the grammar are those that the check admits and that have ASCII digits. -/
theorem semanticVersion_iff_isVersion {s : String} : SemanticVersion s.toList ↔
    isVersion s = true ∧ ∀ c ∈ s.toList, HasAsciiDigit c := by
  have hnumber := funext fun cs ↦ propext (@numericIdentifier_iff cs)
  have hpre := funext fun cs ↦ propext (@preReleaseIdentifier_iff cs)
  have hbuild := funext fun cs ↦ propext (@buildIdentifier_iff cs)
  have hmark {c : Char} (hc : c.toNat < 128) : HasAsciiDigit c := hasAsciiDigit_of_lt hc
  rw [isVersion_iff, SemanticVersion, hnumber, hpre, hbuild]
  exact versionOf_withAll (hmark (by decide)) (hmark (by decide)) (hmark (by decide))

/-! ## The pattern -/

def oneOf (p : Char → Bool) : Language Char := {cs | ∃ c, cs = [c] ∧ p c = true}

def mark (c : Char) : Language Char := oneOf (· == c)

def separated (item : Language Char) : Language Char := item * (mark '.' * item)∗

def optional (c : Char) (content : Language Char) : Language Char := 1 + mark c * content

/-- The pattern `0|[1-9]\d*`. -/
def numberPattern : Language Char := mark '0' + oneOf isPositiveDigit * (oneOf isDecimalDigit)∗

/-- The pattern `0|[1-9]\d*|\d*[a-zA-Z-][0-9a-zA-Z-]*`. -/
def preReleasePattern : Language Char :=
  numberPattern +
    (oneOf isDecimalDigit)∗ * (oneOf isIdentifierLetter * (oneOf isIdentifierChar)∗)

/-- The pattern `[0-9a-zA-Z-]+`. -/
def buildPattern : Language Char := oneOf isIdentifierChar * (oneOf isIdentifierChar)∗

/-- The pattern of versions: three numbers with points between them, an optional list of
pre-release identifiers behind a hyphen and an optional list of build identifiers behind a plus
sign. -/
def versionPattern : Language Char :=
  (numberPattern * (mark '.' * (numberPattern * (mark '.' * numberPattern)))) *
    (optional '-' (separated preReleasePattern) * optional '+' (separated buildPattern))

section Patterns

variable {p : Char → Bool} {cs : List Char}

theorem mem_star_oneOf : cs ∈ (oneOf p)∗ ↔ ∀ c ∈ cs, p c = true := by
  rw [Language.mem_kstar]
  constructor
  · rintro ⟨parts, rfl, hparts⟩ c hc
    obtain ⟨part, hpart, hmem⟩ := List.mem_flatten.1 hc
    obtain ⟨d, rfl, hd⟩ := hparts part hpart
    rwa [List.mem_singleton.1 hmem]
  · intro h
    refine ⟨cs.map ([·]), by rw [← List.flatMap_def, List.flatMap_singleton'], ?_⟩
    rw [List.forall_mem_map]
    exact fun c hc ↦ ⟨c, rfl, h c hc⟩

theorem mem_oneOf_mul {l : Language Char} :
    cs ∈ oneOf p * l ↔ ∃ c rest, cs = c :: rest ∧ p c = true ∧ rest ∈ l := by
  rw [Language.mem_mul]
  constructor
  · rintro ⟨_, ⟨c, rfl, hc⟩, rest, hrest, rfl⟩
    exact ⟨c, rest, rfl, hc, hrest⟩
  · rintro ⟨c, rest, rfl, hc, hrest⟩
    exact ⟨[c], ⟨c, rfl, hc⟩, rest, hrest, rfl⟩

theorem mem_mark_mul {c : Char} {l : Language Char} :
    cs ∈ mark c * l ↔ ∃ rest, cs = c :: rest ∧ rest ∈ l := by
  rw [mark, mem_oneOf_mul]
  constructor
  · rintro ⟨d, rest, rfl, hd, hrest⟩
    exact ⟨rest, by rw [beq_iff_eq.1 hd], hrest⟩
  · rintro ⟨rest, rfl, hrest⟩
    exact ⟨c, rest, rfl, beq_self_eq_true c, hrest⟩

theorem mem_numberPattern : cs ∈ numberPattern ↔ isVersionNumber cs = true := by
  rw [isVersionNumber_iff, numberPattern, Language.mem_add, mem_oneOf_mul]
  apply or_congr
  · constructor
    · rintro ⟨c, rfl, hc⟩
      rw [beq_iff_eq.1 hc]
    · rintro rfl
      exact ⟨'0', rfl, rfl⟩
  · simp only [mem_star_oneOf]

theorem mem_preReleasePattern : cs ∈ preReleasePattern ↔ isPreReleaseIdentifier cs = true := by
  rw [isPreReleaseIdentifier, Bool.or_eq_true, preReleasePattern, Language.mem_add,
    mem_numberPattern, isAlphanumericIdentifier_iff, Language.mem_mul]
  apply or_congr Iff.rfl
  simp only [mem_oneOf_mul, mem_star_oneOf]
  constructor
  · rintro ⟨digits, hdigits, _, ⟨c, rest, rfl, h⟩, rfl⟩
    exact ⟨digits, c, rest, rfl, hdigits, h⟩
  · rintro ⟨digits, c, rest, rfl, hdigits, h⟩
    exact ⟨digits, hdigits, _, ⟨c, rest, rfl, h⟩, rfl⟩

theorem mem_buildPattern : cs ∈ buildPattern ↔ isBuildIdentifier cs = true := by
  rw [isBuildIdentifier_iff, buildPattern, mem_oneOf_mul]
  cases cs with
  | nil => simp
  | cons c rest => simp [mem_star_oneOf]

variable {l : Language Char} {form : List Char → Prop}

/-- An item and further parts, each of which is a point and an item. -/
theorem dotSeparated_flatten (h : ∀ part, part ∈ l → form part) {first : List Char}
    (hfirst : form first) {parts : List (List Char)} (hparts : ∀ part ∈ parts, part ∈ mark '.' * l) :
    DotSeparated form (first ++ parts.flatten) := by
  induction parts generalizing first with
  | nil =>
    rw [List.flatten_nil, List.append_nil]
    exact .single hfirst
  | cons part parts ih =>
    rw [List.forall_mem_cons] at hparts
    obtain ⟨next, rfl, hnext⟩ := mem_mark_mul.1 hparts.1
    exact .cons hfirst (ih (h next hnext) hparts.2)

theorem mem_separated (h : ∀ part, part ∈ l ↔ form part) :
    cs ∈ separated l ↔ DotSeparated form cs := by
  constructor
  · intro hcs
    obtain ⟨first, hfirst, _, hrest, rfl⟩ := Language.mem_mul.1 hcs
    obtain ⟨parts, rfl, hparts⟩ := Language.mem_kstar.1 hrest
    exact dotSeparated_flatten (fun part ↦ (h part).1) ((h first).1 hfirst) hparts
  · intro hcs
    induction hcs with
    | single hpart =>
      exact Language.mem_mul.2 ⟨_, (h _).2 hpart, [], Language.nil_mem_kstar _, List.append_nil _⟩
    | cons hpart _ ih =>
      obtain ⟨next, hnext, rest, hrest, rfl⟩ := Language.mem_mul.1 ih
      refine Language.mem_mul.2 ⟨_, (h _).2 hpart, '.' :: (next ++ rest), ?_, rfl⟩
      obtain ⟨parts, rfl, hparts⟩ := Language.mem_kstar.1 hrest
      exact Language.mem_kstar.2 ⟨('.' :: next) :: parts, rfl,
        List.forall_mem_cons.2 ⟨mem_mark_mul.2 ⟨next, rfl, hnext⟩, hparts⟩⟩

theorem mem_optional {c : Char} (h : ∀ part, part ∈ l ↔ form part) :
    cs ∈ optional c l ↔ OptionalPart c form cs := by
  rw [optional, Language.mem_add, Language.mem_one, mem_mark_mul]
  constructor
  · rintro (rfl | ⟨rest, rfl, hrest⟩)
    · exact .absent
    · exact .present ((h rest).1 hrest)
  · rintro (_ | hrest)
    · exact .inl rfl
    · exact .inr ⟨_, rfl, (h _).2 hrest⟩

theorem mem_core : cs ∈ numberPattern * (mark '.' * (numberPattern * (mark '.' * numberPattern))) ↔
    VersionCore (fun part ↦ isVersionNumber part = true) cs := by
  constructor
  · intro h
    obtain ⟨major, hmajor, _, hfirst, rfl⟩ := Language.mem_mul.1 h
    obtain ⟨_, rfl, hmiddle⟩ := mem_mark_mul.1 hfirst
    obtain ⟨minor, hminor, _, hsecond, rfl⟩ := Language.mem_mul.1 hmiddle
    obtain ⟨patch, rfl, hpatch⟩ := mem_mark_mul.1 hsecond
    exact .mk (mem_numberPattern.1 hmajor) (mem_numberPattern.1 hminor)
      (mem_numberPattern.1 hpatch)
  · rintro ⟨hmajor, hminor, hpatch⟩
    apply Language.append_mem_mul (mem_numberPattern.2 hmajor)
    refine mem_mark_mul.2 ⟨_, rfl, Language.append_mem_mul (mem_numberPattern.2 hminor) ?_⟩
    exact mem_mark_mul.2 ⟨_, rfl, mem_numberPattern.2 hpatch⟩

theorem mem_versionPattern : cs ∈ versionPattern ↔
    VersionOf (fun part ↦ isVersionNumber part = true)
      (fun part ↦ isPreReleaseIdentifier part = true)
      (fun part ↦ isBuildIdentifier part = true) cs := by
  have hpre {part : List Char} : part ∈ optional '-' (separated preReleasePattern) ↔ _ :=
    mem_optional fun _ ↦ mem_separated fun _ ↦ mem_preReleasePattern
  have hbuild {part : List Char} : part ∈ optional '+' (separated buildPattern) ↔ _ :=
    mem_optional fun _ ↦ mem_separated fun _ ↦ mem_buildPattern
  constructor
  · intro h
    obtain ⟨core, hcore, _, hrest, rfl⟩ := Language.mem_mul.1 h
    obtain ⟨pre, hpreMem, suffix, hsuffix, rfl⟩ := Language.mem_mul.1 hrest
    exact .mk (mem_core.1 hcore) (hpre.1 hpreMem) (hbuild.1 hsuffix)
  · rintro ⟨hcore, hpreForm, hsuffix⟩
    apply Language.append_mem_mul (mem_core.2 hcore)
    exact Language.append_mem_mul (hpre.2 hpreForm) (hbuild.2 hsuffix)

end Patterns

/-! ## Versions of the grammar -/

/-- The check of versions accepts the language of its pattern, and the versions of the grammar are
the accepted texts without digits of other scripts. -/
theorem acceptsLexical_semVer (s : String) :
    (Ontology.Datatype.semVer.acceptsLexical s = true ↔ s.toList ∈ versionPattern) ∧
      (SemanticVersion s.toList ↔
        Ontology.Datatype.semVer.acceptsLexical s = true ∧ ∀ c ∈ s.toList, HasAsciiDigit c) :=
  ⟨isVersion_iff.trans mem_versionPattern.symm, semanticVersion_iff_isVersion⟩

/-- The version `1.1٣.0` has an Arabic digit: it is accepted and is no version of the grammar. -/
theorem accepts_arabicDigit :
    Ontology.Datatype.semVer.acceptsLexical "1.1٣.0" = true ∧
      ¬ SemanticVersion "1.1٣.0".toList := by
  constructor
  · decide +kernel
  · rw [semanticVersion_iff_isVersion]
    rintro ⟨-, h⟩
    exact absurd (h '٣' (by decide) (by decide +kernel)) (by decide)

end OntoGraph.Text
