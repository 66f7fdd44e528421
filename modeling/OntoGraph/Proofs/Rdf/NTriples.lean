import Mathlib.Data.List.Forall2
import OntoGraph.Proofs.Iri.Characters
import OntoGraph.Proofs.Rdf.NTriplesGrammar

/-!
# What documents of N-Triples say

The document of a store is read back as the triples of the store, in their order, if every IRI and
label in them can be written as it is. Lexical forms are free: the escapes keep whatever they
consist of between the quotes of its literal. An IRI is not escaped, so that one with a character
that may not stand in it changes what the document says, or makes it say nothing at all.
-/

namespace OntoGraph.Rdf

open NTriples

/-! ## What can be written -/

namespace Term

def iris : Term → List String
  | .iri name => [name]
  | .blank _ => []
  | .literal _ datatype _ => [datatype]

def isLiteral (t : Term) : Bool := t.lexical?.isSome

/-- Is the text of the term one that the grammar gives it? A literal in a language is of the
datatype for such literals. -/
def isWritable : Term → Bool
  | .iri name => isIriText name
  | .blank label => isLabel label
  | .literal _ datatype none => isIriText datatype
  | .literal _ datatype (some language) => datatype = rdfLangString && isTag language.toList

theorem isIriText_of_mem_iris {t : Term} (h : t.isWritable = true) :
    ∀ iri ∈ t.iris, isIriText iri = true := by
  cases t with
  | iri name => exact List.forall_mem_singleton.2 h
  | blank label => exact fun _ hiri ↦ absurd hiri List.not_mem_nil
  | literal lexical datatype language =>
    refine List.forall_mem_singleton.2 ?_
    cases language with
    | none => exact h
    | some language =>
      rw [of_decide_eq_true (Bool.and_eq_true_iff.1 h).1]
      decide

theorem eq_of_iri? {t : Term} {name : String} (h : t.iri? = some name) : t = .iri name := by
  cases t <;> cases h
  rfl

end Term

namespace Triple

def iris (t : Triple) : List String := t.subject.iris ++ t.predicate :: t.object.iris

/-- Do the subject and the predicate of the statement have the texts that the grammar gives
them? -/
def startIsWritable (t : Triple) : Bool :=
  !t.subject.isLiteral && t.subject.isWritable && isIriText t.predicate

/-- Is the text of the statement one that the grammar gives it? -/
def isWritable (t : Triple) : Bool := t.startIsWritable && t.object.isWritable

/-- Where all but an IRI as object can be written, the statement can be if its IRIs can. -/
theorem isWritable_iff_iris {t : Triple} (hstart : t.startIsWritable = true)
    (hobject : t.object.isWritable = true ∨ t.object.iri?.isSome = true) :
    (∀ iri ∈ t.iris, isIriText iri = true) ↔ t.isWritable = true := by
  constructor
  · intro h
    refine Bool.and_eq_true_iff.2 ⟨hstart, ?_⟩
    rcases hobject with hobject | hiri
    · exact hobject
    · obtain ⟨name, hname⟩ := Option.isSome_iff_exists.1 hiri
      rw [Term.eq_of_iri? hname]
      refine h name ?_
      rw [iris, Term.eq_of_iri? hname]
      simp [Term.iris]
  · intro h
    have hobject := (Bool.and_eq_true_iff.1 h).2
    simp only [startIsWritable, Bool.and_eq_true] at hstart
    exact List.forall_mem_append.2 ⟨Term.isIriText_of_mem_iris hstart.1.2,
      List.forall_mem_cons.2 ⟨hstart.2, Term.isIriText_of_mem_iris hobject⟩⟩

end Triple

namespace NTriples

open Text Turtle Number

/-! ## Text between marks -/

section

variable {close : Char} {isPlain : Char → Bool}
  {readEscape? : List Char → Option (Char × List Char)}

/-- Does a piece of text stand for the character: by itself, or as an escape? -/
inductive StandsFor (close : Char) (isPlain : Char → Bool)
    (readEscape? : List Char → Option (Char × List Char)) (c : Char) : List Char → Prop where
  | plain (hclose : c ≠ close) (hescape : c ≠ '\\') (hplain : isPlain c = true) :
    StandsFor close isPlain readEscape? c [c]
  | escape {code : List Char} (hcode : ∀ rest, readEscape? (code ++ rest) = some (c, rest)) :
    StandsFor close isPlain readEscape? c ('\\' :: code)

/-- Where each character is written as a piece that stands for it, the text is read back. -/
theorem readUntil?_flatten (hclose : close ≠ '\\') {text : List Char} {pieces : List (List Char)}
    (h : List.Forall₂ (StandsFor close isPlain readEscape?) text pieces) (rest : List Char)
    {fuel : Nat} (hfuel : (pieces.flatten ++ close :: rest).length ≤ fuel) :
    readUntil? close isPlain readEscape? fuel (pieces.flatten ++ close :: rest) =
      some (text, rest) := by
  induction h generalizing fuel with
  | nil =>
    cases fuel with
    | zero => simp at hfuel
    | succ fuel => simp [readUntil?]
  | @cons c piece text pieces hpiece _ ih =>
    rw [List.flatten_cons, List.append_assoc] at hfuel ⊢
    have hpos : 0 < piece.length := by cases hpiece <;> exact Nat.succ_pos _
    obtain ⟨fuel, rfl⟩ : ∃ n, fuel = n + 1 := by
      cases fuel with
      | zero => simp at hfuel
      | succ fuel => exact ⟨fuel, rfl⟩
    have htext : (pieces.flatten ++ close :: rest).length ≤ fuel := by
      rw [List.length_append] at hfuel
      omega
    have hread := ih htext
    cases hpiece with
    | plain hne hescape hplain =>
      rw [List.singleton_append, readUntil?, if_neg hne, if_neg hescape, if_pos hplain, hread]
      rfl
    | escape hcode =>
      rw [List.cons_append, readUntil?, if_neg (Ne.symm hclose), if_pos rfl, hcode]
      dsimp only [Option.bind_eq_bind, Option.bind_some]
      rw [hread]
      rfl

/-- As `readUntil?_flatten`, where a character is always written in the same way. -/
theorem readUntil?_flatMap {write : Char → List Char} (hclose : close ≠ '\\') {text : List Char}
    (h : ∀ c ∈ text, StandsFor close isPlain readEscape? c (write c)) (rest : List Char)
    {fuel : Nat} (hfuel : (text.flatMap write ++ close :: rest).length ≤ fuel) :
    readUntil? close isPlain readEscape? fuel (text.flatMap write ++ close :: rest) =
      some (text, rest) := by
  have hpieces : List.Forall₂ (StandsFor close isPlain readEscape?) text (text.map write) :=
    List.forall₂_map_right_iff.2 (List.forall₂_same.2 h)
  rw [List.flatMap_def] at hfuel ⊢
  exact readUntil?_flatten hclose hpieces rest hfuel

/-- Reading up to a mark ends there, or takes an escape or a plain character and goes on. -/
theorem cases_of_readUntil? {fuel : Nat} {input text rest : List Char}
    (h : readUntil? close isPlain readEscape? (fuel + 1) input = some (text, rest)) :
    (input = close :: rest ∧ text = []) ∨
    (∃ code c later text', input = '\\' :: code ∧ '\\' ≠ close ∧
      readEscape? code = some (c, later) ∧
      readUntil? close isPlain readEscape? fuel later = some (text', rest) ∧ text = c :: text') ∨
    (∃ c later text', input = c :: later ∧ c ≠ close ∧ isPlain c = true ∧
      readUntil? close isPlain readEscape? fuel later = some (text', rest) ∧
      text = c :: text') := by
  cases input with
  | nil => cases h
  | cons c input =>
    rw [readUntil?] at h
    by_cases hclose : c = close
    · rw [if_pos hclose] at h
      cases h
      exact .inl ⟨by rw [hclose], rfl⟩
    rw [if_neg hclose] at h
    by_cases hescape : c = '\\'
    · rw [if_pos hescape] at h
      obtain ⟨⟨d, later⟩, hd, h⟩ := Option.bind_eq_some_iff.1 h
      obtain ⟨⟨text', rest'⟩, htext, h⟩ := Option.bind_eq_some_iff.1 h
      cases h
      exact .inr (.inl ⟨input, d, later, text', by rw [hescape], hescape ▸ hclose, hd, htext, rfl⟩)
    rw [if_neg hescape] at h
    by_cases hplain : isPlain c = true
    · rw [if_pos hplain] at h
      obtain ⟨⟨text', rest'⟩, htext, h⟩ := Option.bind_eq_some_iff.1 h
      cases h
      exact .inr (.inr ⟨c, input, text', rfl, hclose, hplain, htext, rfl⟩)
    · rw [if_neg hplain] at h
      cases h

/-- Does each escape that is read consist of characters of its own, without the closing mark? -/
def TakesCode (close : Char) (readEscape? : List Char → Option (Char × List Char)) : Prop :=
  ∀ input c rest, readEscape? input = some (c, rest) →
    ∃ code, input = code ++ rest ∧ code ≠ [] ∧ close ∉ code

/-- What is read ends at the first closing mark, and an escape makes it shorter than what stands
before the mark. -/
theorem exists_of_readUntil? (hcode : TakesCode close readEscape?)
    {fuel : Nat} {input text rest : List Char}
    (h : readUntil? close isPlain readEscape? fuel input = some (text, rest)) :
    ∃ written, input = written ++ close :: rest ∧ close ∉ written ∧
      text.length ≤ written.length ∧
      (text.length = written.length → text = written ∧ ∀ c ∈ text, isPlain c = true) := by
  induction fuel generalizing input text with
  | zero => cases input <;> cases h
  | succ fuel ih =>
    obtain ⟨rfl, rfl⟩ | ⟨code, c, later, text, rfl, hclose, hescape, htext, rfl⟩ |
      ⟨c, later, text, rfl, hclose, hplain, htext, rfl⟩ := cases_of_readUntil? h
    · exact ⟨[], rfl, List.not_mem_nil, Nat.le_refl _,
        fun _ ↦ ⟨rfl, fun _ hc ↦ absurd hc List.not_mem_nil⟩⟩
    · obtain ⟨code, rfl, hne, hnot⟩ := hcode _ _ _ hescape
      obtain ⟨written, rfl, hwritten, hle, -⟩ := ih htext
      have hpos := List.length_pos_iff.2 hne
      have hlength : ('\\' :: (code ++ written)).length = code.length + written.length + 1 := by simp
      refine ⟨'\\' :: (code ++ written), by simp, ?_, ?_, ?_⟩
      · simp [hclose.symm, hnot, hwritten]
      · rw [hlength, List.length_cons]
        omega
      · intro hsame
        rw [hlength, List.length_cons] at hsame
        omega
    · obtain ⟨written, rfl, hwritten, hle, hsame⟩ := ih htext
      refine ⟨c :: written, rfl, ?_, Nat.succ_le_succ hle, fun hlength ↦ ?_⟩
      · simp [hclose.symm, hwritten]
      · obtain ⟨rfl, hall⟩ := hsame (Nat.succ.inj hlength)
        exact ⟨rfl, List.forall_mem_cons.2 ⟨hplain, hall⟩⟩

end

/-- An escape by code point holds no closing angle bracket. -/
theorem takesCode_readCodeEscape? : TakesCode '>' readCodeEscape? := by
  intro input c rest h
  have hdigits : ∀ n input, readCode? n input = some (c, rest) →
      ∃ digits, input = digits ++ rest ∧ '>' ∉ digits := by
    intro n input h
    obtain ⟨⟨value, input'⟩, hvalue, h⟩ := Option.bind_eq_some_iff.1 h
    obtain ⟨d, -, h⟩ := Option.bind_eq_some_iff.1 h
    cases h
    obtain ⟨digits, -, hnumber, rfl⟩ := takeHex?_eq_some_iff.1 hvalue
    refine ⟨digits, rfl, fun hmem ↦ ?_⟩
    exact absurd (isSome_hexDigit?_of_hexNumber? hnumber _ hmem) (by decide)
  unfold readCodeEscape? at h
  split at h
  · obtain ⟨digits, rfl, hnot⟩ := hdigits _ _ h
    exact ⟨'u' :: digits, rfl, List.cons_ne_nil _ _, by simp [hnot]⟩
  · obtain ⟨digits, rfl, hnot⟩ := hdigits _ _ h
    exact ⟨'U' :: digits, rfl, List.cons_ne_nil _ _, by simp [hnot]⟩
  · cases h

/-! ## Terms -/

theorem isIriText_iff {name : String} :
    isIriText name = true ↔ ∀ c ∈ name.toList, isIriChar c = true := List.all_eq_true

theorem readIri?_text {name : String} (h : isIriText name = true) (rest : List Char) :
    readIri? ('<' :: (name.toList ++ '>' :: rest)) = some (name, rest) := by
  have hplain : ∀ c ∈ name.toList, StandsFor '>' isIriChar readCodeEscape? c [c] := by
    intro c hc
    have hchar := isIriText_iff.1 h c hc
    refine .plain ?_ ?_ hchar <;> (rintro rfl; exact absurd hchar (by decide))
  have hread := readUntil?_flatMap (by decide) hplain rest (Nat.le_refl _)
  rw [List.flatMap_singleton'] at hread
  rw [readIri?, hread]
  simp

theorem standsFor_escapedCharacter (c : Char) :
    StandsFor '"' isStringChar readStringEscape? c (Term.escapedCharacter c) := by
  fun_cases Term.escapedCharacter c with
  | case1 => exact .escape fun _ ↦ rfl
  | case2 => exact .escape fun _ ↦ rfl
  | case3 => exact .escape fun _ ↦ rfl
  | case4 => exact .escape fun _ ↦ rfl
  | case5 c hescape hquote hnewline hreturn =>
    have hplain : isStringChar c = true := by
      simp only [isStringChar, isLineEnd, Bool.and_eq_true, Bool.not_eq_true', Bool.or_eq_false_iff,
        bne_iff_ne, beq_eq_false_iff_ne]
      exact ⟨⟨hquote, hescape⟩, hreturn, hnewline⟩
    exact .plain hquote hescape hplain

/-- Points before a character of a label belong to the label. -/
theorem head?_dropWhile_points {name : List Char} (hne : name ≠ [])
    (hall : ∀ c ∈ name, (isLabelChar c || c == '.') = true) (hlast : name.getLast? ≠ some '.')
    (rest : List Char) :
    ((name ++ rest).dropWhile (· == '.')).head?.any isLabelChar = true := by
  induction name with
  | nil => exact absurd rfl hne
  | cons c name ih =>
    by_cases hpoint : c = '.'
    · have hrest : name ≠ [] := by
        rintro rfl
        exact hlast (by rw [hpoint]; rfl)
      rw [List.getLast?_cons_of_ne_nil hrest] at hlast
      rw [List.cons_append, List.dropWhile_cons_of_pos (by simpa using hpoint)]
      exact ih hrest (fun d hd ↦ hall d (List.mem_cons_of_mem _ hd)) hlast
    · have hc := hall c List.mem_cons_self
      rw [List.cons_append, List.dropWhile_cons_of_neg (by simpa using hpoint)]
      simpa [hpoint] using hc

/-- Can a label end before the text? -/
def EndsLabel (rest : List Char) : Prop := takeName isLabelChar isLabelChar rest = ([], rest)

theorem endsLabel_cons {c : Char} (hchar : isLabelChar c = false) (hpoint : c ≠ '.')
    (rest : List Char) : EndsLabel (c :: rest) := by
  rw [EndsLabel, takeName, hchar]
  simp [hpoint]

theorem takeName_label {name rest : List Char}
    (hall : ∀ c ∈ name, (isLabelChar c || c == '.') = true) (hlast : name.getLast? ≠ some '.')
    (hrest : EndsLabel rest) :
    takeName isLabelChar isLabelChar (name ++ rest) = (name, rest) := by
  induction name with
  | nil => exact hrest
  | cons c name ih =>
    have htail : name.getLast? ≠ some '.' := by
      intro heq
      have hne : name ≠ [] := by
        rintro rfl
        cases heq
      exact hlast ((List.getLast?_cons_of_ne_nil hne).trans heq)
    have hname := ih (fun d hd ↦ hall d (List.mem_cons_of_mem _ hd)) htail
    have hc := hall c List.mem_cons_self
    by_cases hchar : isLabelChar c = true
    · rw [List.cons_append, takeName, if_pos hchar, hname]
    · have hpoint : c = '.' := by simpa [hchar] using hc
      have hne : name ≠ [] := by
        rintro rfl
        exact hlast (by rw [hpoint]; rfl)
      have hmore := head?_dropWhile_points hne (fun d hd ↦ hall d (List.mem_cons_of_mem _ hd)) htail
        rest
      rw [List.cons_append, takeName, if_neg hchar, if_pos (by simp [hpoint, hmore]), hname, hpoint]

theorem readBlank?_text {label : String} (h : isLabel label = true) {rest : List Char}
    (hrest : EndsLabel rest) :
    readBlank? ('_' :: ':' :: (label.toList ++ rest)) = some (.blank label, rest) := by
  unfold isLabel at h
  cases hlabel : label.toList with
  | nil =>
    rw [hlabel] at h
    cases h
  | cons c name =>
    rw [hlabel] at h
    obtain ⟨⟨hstart, hall⟩, hlast⟩ : (isLabelStart c = true ∧ _) ∧ _ := by
      simpa only [Bool.and_eq_true] using h
    have hname := takeName_label (List.all_eq_true.1 hall) (by simpa using hlast) hrest
    rw [List.cons_append, readBlank?, if_pos hstart, hname]
    dsimp only
    rw [← hlabel, String.ofList_toList]

theorem readNode?_text {t : Term} (hliteral : t.isLiteral = false) (h : t.isWritable = true)
    (rest : List Char) : readNode? (t.text.toList ++ ' ' :: rest) = some (t, ' ' :: rest) := by
  cases t with
  | iri name =>
    have htext : (Term.iri name).text.toList ++ ' ' :: rest =
        '<' :: (name.toList ++ '>' :: ' ' :: rest) := by simp [Term.text]
    rw [htext, readNode?, readIri?_text h]
  | blank label =>
    have htext : (Term.blank label).text.toList ++ ' ' :: rest =
        '_' :: ':' :: (label.toList ++ ' ' :: rest) := by simp [Term.text]
    rw [htext, readNode?, readBlank?_text h (endsLabel_cons (by decide) (by decide) _)]
    rfl
  | literal => cases hliteral

/-- A tag ends at the first character that belongs to no tag. -/
theorem isTagChar_of_isTag {tag : List Char} (h : isTag tag = true) :
    ∀ c ∈ tag, isTagChar c = true := by
  intro c hc
  rcases Iri.mem_splitOn '-' hc with rfl | ⟨part, hpart, hc⟩
  · decide
  unfold isTag at h
  cases hparts : Iri.splitOn '-' tag with
  | nil =>
    rw [hparts] at hpart
    cases hpart
  | cons first rest =>
    rw [hparts] at h hpart
    simp only [Bool.and_eq_true, List.all_eq_true, Bool.or_eq_true] at h
    rcases List.mem_cons.1 hpart with rfl | hpart
    · simp [isTagChar, h.1.2 c hc]
    · rcases (h.2 part hpart).2 c hc with hc | hc <;> simp [isTagChar, hc]

theorem readKind?_language {tag : List Char} (h : isTag tag = true) (lexical : String)
    (rest : List Char) : readKind? lexical ('@' :: (tag ++ ' ' :: rest)) =
      some (.inLanguage lexical (String.ofList tag), ' ' :: rest) := by
  have hall := isTagChar_of_isTag h
  have htag : (tag ++ ' ' :: rest).takeWhile isTagChar = tag := by
    rw [List.takeWhile_append_of_pos hall]
    simp [show isTagChar ' ' = false by decide]
  rw [readKind?, htag, if_pos h, List.drop_left]

theorem readKind?_datatype {datatype : String} (h : isIriText datatype = true) (lexical : String)
    (rest : List Char) :
    readKind? lexical ('^' :: '^' :: '<' :: (datatype.toList ++ '>' :: rest)) =
      some (.typed lexical datatype, rest) := by
  rw [readKind?, show skipBlanks ('<' :: (datatype.toList ++ '>' :: rest)) =
    '<' :: (datatype.toList ++ '>' :: rest) from rfl, readIri?_text h]
  rfl

/-- The text of a literal after its quotes. -/
def kindText (datatype : String) : Option String → List Char
  | some language => '@' :: language.toList
  | none => if datatype = xsdString then [] else '^' :: '^' :: '<' :: (datatype.toList ++ ['>'])

theorem toList_text_literal (lexical datatype : String) (language : Option String) :
    (Term.literal lexical datatype language).text.toList =
      '"' :: (lexical.toList.flatMap Term.escapedCharacter ++
        '"' :: kindText datatype language) := by
  cases language with
  | some language => simp [Term.text, Term.escaped, kindText]
  | none =>
    by_cases hstring : datatype = xsdString
    · simp [Term.text, Term.escaped, kindText, hstring]
    · simp [Term.text, Term.escaped, kindText, hstring]

theorem readKind?_kindText {lexical datatype : String} {language : Option String}
    (h : (Term.literal lexical datatype language).isWritable = true) :
    ∃ rest, readKind? lexical (skipBlanks (kindText datatype language ++ [' ', '.'])) =
      some (.literal lexical datatype language, rest) ∧ skipBlanks rest = ['.'] := by
  cases language with
  | some language =>
    obtain ⟨hdatatype, htag⟩ := Bool.and_eq_true_iff.1 h
    have hkind := readKind?_language htag lexical ['.']
    rw [String.ofList_toList] at hkind
    refine ⟨[' ', '.'], ?_, rfl⟩
    rw [of_decide_eq_true hdatatype]
    exact hkind
  | none =>
    by_cases hstring : datatype = xsdString
    · refine ⟨['.'], ?_, rfl⟩
      rw [kindText, if_pos hstring, hstring]
      rfl
    · refine ⟨[' ', '.'], ?_, rfl⟩
      rw [kindText, if_neg hstring]
      have htext : '^' :: '^' :: '<' :: (datatype.toList ++ ['>']) ++ [' ', '.'] =
          '^' :: '^' :: '<' :: (datatype.toList ++ '>' :: [' ', '.']) := by simp
      rw [htext]
      exact readKind?_datatype h lexical [' ', '.']

/-- An object is read back with the point after it. -/
theorem readObject?_text {t : Term} (h : t.isWritable = true) :
    ∃ rest, readObject? (t.text.toList ++ [' ', '.']) = some (t, rest) ∧
      skipBlanks rest = ['.'] := by
  cases t with
  | literal lexical datatype language =>
    obtain ⟨rest, hkind, hrest⟩ := readKind?_kindText h
    have hread := readUntil?_flatMap (by decide)
      (fun c (_ : c ∈ lexical.toList) ↦ standsFor_escapedCharacter c)
      (kindText datatype language ++ [' ', '.']) (Nat.le_refl _)
    refine ⟨rest, ?_, hrest⟩
    rw [toList_text_literal, List.cons_append, List.append_assoc, List.cons_append, readObject?,
      hread]
    dsimp only [Option.bind_eq_bind, Option.bind_some]
    rw [String.ofList_toList, hkind]
  | _ =>
    refine ⟨[' ', '.'], ?_, rfl⟩
    rw [← readNode?_text rfl h ['.']]
    simp [Term.text, readObject?]

/-! ## Statements -/

/-- The text of a term starts with the mark of its kind. -/
theorem exists_text (t : Term) :
    ∃ mark rest, t.text.toList = mark :: rest ∧ (mark = '<' ∨ mark = '_' ∨ mark = '"') := by
  cases t with
  | iri name => exact ⟨'<', name.toList ++ ['>'], by simp [Term.text], .inl rfl⟩
  | blank label => exact ⟨'_', ':' :: label.toList, by simp [Term.text], .inr (.inl rfl)⟩
  | literal => exact ⟨'"', _, toList_text_literal _ _ _, .inr (.inr rfl)⟩

@[simp] theorem skipBlanks_text (t : Term) (rest : List Char) :
    skipBlanks (t.text.toList ++ rest) = t.text.toList ++ rest := by
  obtain ⟨mark, front, htext, hmark⟩ := exists_text t
  rw [htext]
  rcases hmark with rfl | rfl | rfl <;> rfl

@[simp] theorem isRemark_text (t : Term) (rest : List Char) :
    isRemark (t.text.toList ++ rest) = false := by
  rw [isRemark, skipBlanks_text]
  obtain ⟨mark, front, htext, hmark⟩ := exists_text t
  rw [htext]
  rcases hmark with rfl | rfl | rfl <;> rfl

/-- The text of a statement before its object. -/
def startText (t : Triple) : List Char :=
  t.subject.text.toList ++ ' ' :: '<' :: (t.predicate.toList ++ ['>', ' '])

theorem toList_text (t : Triple) : t.text.toList = startText t ++ t.object.text.toList := by
  simp [Triple.text, startText]

theorem toList_line (t : Triple) :
    t.line.toList = startText t ++ (t.object.text.toList ++ [' ', '.', '\n']) := by
  simp [Triple.line, toList_text]

/-- After the start of a statement, its object and its point are read. -/
theorem readStatement?_startText {t : Triple} (h : t.startIsWritable = true) (rest : List Char) :
    readStatement? (startText t ++ rest) = (do
      let (object, rest) ← readObject? (skipBlanks rest)
      let rest ← after? ['.'] (skipBlanks rest)
      return (⟨t.subject, t.predicate, object⟩, rest)) := by
  simp only [Triple.startIsWritable, Bool.and_eq_true, Bool.not_eq_true'] at h
  obtain ⟨⟨hliteral, hsubject⟩, hpredicate⟩ := h
  have htext : startText t ++ rest = t.subject.text.toList ++
      ' ' :: '<' :: (t.predicate.toList ++ '>' :: ' ' :: rest) := by simp [startText]
  have hskip : ∀ rest, skipBlanks (' ' :: rest) = skipBlanks rest := fun _ ↦ rfl
  have hmark : ∀ rest, skipBlanks ('<' :: rest) = '<' :: rest := fun _ ↦ rfl
  rw [htext, readStatement?, readNode?_text hliteral hsubject]
  dsimp only [Option.bind_eq_bind, Option.bind_some]
  rw [hskip, hmark, readIri?_text hpredicate]
  dsimp only [Option.bind_some]
  rw [hskip]

theorem readStatement?_text {t : Triple} (h : t.isWritable = true) :
    readStatement? (t.text.toList ++ [' ', '.']) = some (t, []) := by
  obtain ⟨hstart, hobject⟩ := Bool.and_eq_true_iff.1 h
  obtain ⟨rest, hread, hrest⟩ := readObject?_text hobject
  rw [toList_text, List.append_assoc, readStatement?_startText hstart, skipBlanks_text, hread]
  dsimp only [Option.bind_eq_bind, Option.bind_some]
  rw [hrest]
  rfl

theorem readLine?_text {t : Triple} (h : t.isWritable = true) :
    readLine? (t.text.toList ++ [' ', '.']) = some (some t) := by
  have hremark : isRemark (t.text.toList ++ [' ', '.']) = false := by
    rw [toList_text, startText, List.append_assoc, List.append_assoc]
    exact isRemark_text _ _
  have hskip : skipBlanks (t.text.toList ++ [' ', '.']) = t.text.toList ++ [' ', '.'] := by
    rw [toList_text, startText, List.append_assoc, List.append_assoc]
    exact skipBlanks_text _ _
  rw [readLine?, hremark, if_neg Bool.false_ne_true, hskip, readStatement?_text h]
  rfl

/-! ## Lines -/

/-- Does the text stay on one line? -/
def OnOneLine (cs : List Char) : Prop := ∀ c ∈ cs, isLineEnd c = false

theorem onOneLine_nil : OnOneLine [] := by
  rintro _ ⟨⟩

theorem OnOneLine.cons {c : Char} {cs : List Char} (hc : isLineEnd c = false) (h : OnOneLine cs) :
    OnOneLine (c :: cs) := List.forall_mem_cons.2 ⟨hc, h⟩

theorem OnOneLine.append {cs ds : List Char} (h : OnOneLine cs) (h' : OnOneLine ds) :
    OnOneLine (cs ++ ds) := List.forall_mem_append.2 ⟨h, h'⟩

/-- A class of characters has no end of a line if neither of the two is in it. -/
theorem onOneLine_of_all {p : Char → Bool} (hreturn : p '\r' = false) (hnewline : p '\n' = false)
    {cs : List Char} (h : ∀ c ∈ cs, p c = true) : OnOneLine cs := by
  intro c hc
  have hp := h c hc
  simp only [isLineEnd, Bool.or_eq_false_iff, beq_eq_false_iff_ne]
  constructor
  · rintro rfl
    rw [hreturn] at hp
    cases hp
  · rintro rfl
    rw [hnewline] at hp
    cases hp

theorem onOneLine_iri {name : String} (h : isIriText name = true) : OnOneLine name.toList :=
  onOneLine_of_all (by decide) (by decide) (isIriText_iff.1 h)

theorem onOneLine_label {label : String} (h : isLabel label = true) : OnOneLine label.toList := by
  unfold isLabel at h
  cases hlabel : label.toList with
  | nil =>
    rw [hlabel] at h
    cases h
  | cons first rest =>
    rw [hlabel] at h
    simp only [Bool.and_eq_true, List.all_eq_true] at h
    exact .append (onOneLine_of_all (p := isLabelStart) (by decide) (by decide)
      (List.forall_mem_singleton.2 h.1.1)) (onOneLine_of_all (by decide) (by decide) h.1.2)

/-- An escape keeps the ends of lines out of a literal. -/
theorem onOneLine_escaped (lexical : List Char) :
    OnOneLine (lexical.flatMap Term.escapedCharacter) := by
  intro c hc
  obtain ⟨d, -, hc⟩ := List.mem_flatMap.1 hc
  revert hc
  fun_cases Term.escapedCharacter d with
  | case5 d hescape hquote hnewline hreturn =>
    intro hc
    cases List.mem_singleton.1 hc
    simpa [isLineEnd] using ⟨hreturn, hnewline⟩
  | _ =>
    intro hc
    simp only [List.mem_cons, List.not_mem_nil, or_false] at hc
    rcases hc with rfl | rfl <;> decide

theorem onOneLine_kindText {lexical datatype : String} {language : Option String}
    (h : (Term.literal lexical datatype language).isWritable = true) :
    OnOneLine (kindText datatype language) := by
  cases language with
  | some language =>
    have htag := (Bool.and_eq_true_iff.1 h).2
    exact .cons (by decide) (onOneLine_of_all (by decide) (by decide) (isTagChar_of_isTag htag))
  | none =>
    rw [kindText]
    split
    · exact onOneLine_nil
    · exact .cons (by decide) (.cons (by decide) (.cons (by decide)
        ((onOneLine_iri h).append (.cons (by decide) onOneLine_nil))))

/-- The text of a term that can be written stays on its line. -/
theorem onOneLine_text {t : Term} (h : t.isWritable = true) : OnOneLine t.text.toList := by
  cases t with
  | iri name =>
    have htext : (Term.iri name).text.toList = '<' :: (name.toList ++ ['>']) := by simp [Term.text]
    rw [htext]
    exact .cons (by decide) ((onOneLine_iri h).append (.cons (by decide) onOneLine_nil))
  | blank label =>
    have htext : (Term.blank label).text.toList = '_' :: ':' :: label.toList := by simp [Term.text]
    rw [htext]
    exact .cons (by decide) (.cons (by decide) (onOneLine_label h))
  | literal lexical datatype language =>
    rw [toList_text_literal]
    exact .cons (by decide) ((onOneLine_escaped _).append
      (.cons (by decide) (onOneLine_kindText h)))

theorem onOneLine_startText {t : Triple} (h : t.startIsWritable = true) :
    OnOneLine (startText t) := by
  simp only [Triple.startIsWritable, Bool.and_eq_true] at h
  exact (onOneLine_text h.1.2).append (.cons (by decide) (.cons (by decide)
    ((onOneLine_iri h.2).append (.cons (by decide) (.cons (by decide) onOneLine_nil)))))

/-! ## Documents -/

theorem toList_toNTriples (store : Store) :
    store.toNTriples.toList = store.triples.toList.flatMap fun t ↦ t.line.toList := by
  rw [Store.toNTriples, String.toList_join, List.flatMap_map]

theorem readLines?_cons (line : List Char) (lines : List (List Char)) :
    readLines? (line :: lines) = (do
      let t ← readLine? line
      let ts ← readLines? lines
      return t.toList ++ ts) := by
  unfold readLines?
  rw [List.mapM_cons]
  cases readLine? line with
  | none => rfl
  | some t =>
    cases lines.mapM readLine? with
    | none => rfl
    | some ts => cases t <;> rfl

/-- The first line of a document with its statement, and the lines after it. -/
theorem splitOnP_line {t : Triple} (h : t.isWritable = true) (rest : List Char) :
    (t.line.toList ++ rest).splitOnP isLineEnd =
      (t.text.toList ++ [' ', '.']) :: rest.splitOnP isLineEnd := by
  obtain ⟨hstart, hobject⟩ := Bool.and_eq_true_iff.1 h
  have hline : OnOneLine (t.text.toList ++ [' ', '.']) := by
    rw [toList_text]
    exact ((onOneLine_startText hstart).append (onOneLine_text hobject)).append
      (.cons (by decide) (.cons (by decide) onOneLine_nil))
  rw [← List.splitOnP_append_cons_of_forall_mem hline '\n' (by decide) rest]
  congr 1
  simp [Triple.line]

theorem readLines?_line {t : Triple} (h : t.isWritable = true) (rest : List Char) :
    readLines? ((t.line.toList ++ rest).splitOnP isLineEnd) =
      (readLines? (rest.splitOnP isLineEnd)).map (t :: ·) := by
  rw [splitOnP_line h, readLines?_cons, readLine?_text h]
  cases readLines? (rest.splitOnP isLineEnd) <;> rfl

theorem readLines?_lines {ts : List Triple} (h : ∀ t ∈ ts, t.isWritable = true) :
    readLines? ((ts.flatMap fun t ↦ t.line.toList).splitOnP isLineEnd) = some ts := by
  induction ts with
  | nil => rfl
  | cons t ts ih =>
    rw [List.flatMap_cons, readLines?_line (h t List.mem_cons_self),
      ih fun u hu ↦ h u (List.mem_cons_of_mem _ hu)]
    rfl

/-- The document of a store whose statements can be written says these statements in their
order. -/
theorem read?_toNTriples {store : Store} (h : ∀ t ∈ store.triples.toList, t.isWritable = true) :
    read? store.toNTriples = some store.triples.toList := by
  rw [read?, toList_toNTriples, readLines?_lines h]

/-! ## IRIs that cannot be written -/

/-- The first line of a text, and some more lines. -/
theorem exists_splitOnP {α : Type} (p : α → Bool) (cs : List α) :
    ∃ lines, cs.splitOnP p = cs.takeWhile (!p ·) :: lines := by
  induction cs with
  | nil => exact ⟨[], rfl⟩
  | cons c cs ih =>
    obtain ⟨lines, hlines⟩ := ih
    rw [List.splitOnP_cons_eq_if_modifyHead, hlines]
    by_cases hc : p c = true
    · rw [if_pos hc, List.takeWhile_cons_of_neg (by simp [hc])]
      exact ⟨_, rfl⟩
    · rw [if_neg hc, List.takeWhile_cons_of_pos (by simp [hc])]
      exact ⟨lines, rfl⟩

/-- An IRI that is read back from its own text can be written. -/
theorem isIriText_of_readIri? {name : String} {input rest rest' : List Char}
    (h : readIri? ('<' :: input) = some (name, rest))
    (hinput : input <+: name.toList ++ '>' :: rest') : isIriText name = true := by
  obtain ⟨⟨text, after⟩, hread, heq⟩ := Option.bind_eq_some_iff.1 h
  cases heq
  rw [String.toList_ofList] at hinput
  obtain ⟨written, rfl, hclose, hle, hsame⟩ := exists_of_readUntil? takesCode_readCodeEscape? hread
  have hwritten : written <+: text ++ '>' :: rest' := (List.prefix_append _ _).trans hinput
  -- A longer text would have the mark that closes the IRI among its characters.
  have hlength : written.length ≤ text.length := by
    by_contra hlt
    have hopen : text ++ ['>'] <+: text ++ '>' :: rest' := ⟨rest', by simp⟩
    have hmark : text ++ ['>'] <+: written := by
      refine List.prefix_of_prefix_length_le hopen hwritten ?_
      rw [List.length_append, List.length_singleton]
      omega
    exact hclose (hmark.subset (by simp))
  rw [isIriText_iff, String.toList_ofList]
  exact (hsame (Nat.le_antisymm hle hlength)).2

/-- A line that starts as a statement is read as one with this subject and predicate. -/
theorem exists_of_readLine? {t : Triple} (h : t.startIsWritable = true) {rest : List Char}
    {read : Option Triple} (hread : readLine? (startText t ++ rest) = some read) :
    ∃ object after, readObject? (skipBlanks rest) = some (object, after) ∧
      read = some ⟨t.subject, t.predicate, object⟩ := by
  have htext : startText t ++ rest = t.subject.text.toList ++
      (' ' :: '<' :: (t.predicate.toList ++ ['>', ' ']) ++ rest) := List.append_assoc _ _ _
  have hremark : isRemark (startText t ++ rest) = false := htext ▸ isRemark_text _ _
  have hskip : skipBlanks (startText t ++ rest) = startText t ++ rest := htext ▸ skipBlanks_text _ _
  rw [readLine?, hremark, if_neg Bool.false_ne_true, hskip, readStatement?_startText h] at hread
  obtain ⟨⟨u, remark⟩, hstatement, hread⟩ := Option.bind_eq_some_iff.1 hread
  obtain ⟨⟨object, after⟩, hobject, hstatement⟩ := Option.bind_eq_some_iff.1 hstatement
  obtain ⟨point, -, hstatement⟩ := Option.bind_eq_some_iff.1 hstatement
  cases hstatement
  refine ⟨object, after, hobject, ?_⟩
  dsimp only at hread
  split at hread
  · cases hread
    rfl
  · cases hread

/-- Where a document starts with a statement whose object is an IRI and is read with the statement
first, the IRI can be written. -/
theorem isIriText_of_readLines? {t : Triple} {ts : List Triple} {name : String}
    {rest : List Char} (hstart : t.startIsWritable = true) (hobject : t.object = .iri name)
    (h : readLines? ((t.line.toList ++ rest).splitOnP isLineEnd) = some (t :: ts)) :
    isIriText name = true := by
  let input := name.toList ++ '>' :: ([' ', '.', '\n'] ++ rest)
  have htext : t.line.toList ++ rest = startText t ++ '<' :: input := by
    simp [toList_line, hobject, Term.text, input]
  obtain ⟨lines, hlines⟩ := exists_splitOnP isLineEnd (t.line.toList ++ rest)
  have hline : (t.line.toList ++ rest).takeWhile (!isLineEnd ·) =
      startText t ++ '<' :: input.takeWhile (!isLineEnd ·) := by
    rw [htext, List.takeWhile_append_of_pos fun c hc ↦ by simp [onOneLine_startText hstart c hc],
      List.takeWhile_cons_of_pos (by decide)]
  rw [hlines, hline, readLines?_cons] at h
  obtain ⟨first, hfirst, h⟩ := Option.bind_eq_some_iff.1 h
  obtain ⟨others, -, h⟩ := Option.bind_eq_some_iff.1 h
  obtain ⟨object, after, hread, rfl⟩ := exists_of_readLine? hstart hfirst
  obtain ⟨hsame, -⟩ := List.cons.inj (Option.some.inj h)
  have hiri : object = .iri name := by
    rw [← hobject, ← hsame]
  rw [hiri] at hread
  have hname : readIri? ('<' :: input.takeWhile (!isLineEnd ·)) = some (name, after) := by
    change readNode? ('<' :: input.takeWhile (!isLineEnd ·)) = _ at hread
    unfold readNode? at hread
    cases hread' : readIri? ('<' :: input.takeWhile (!isLineEnd ·)) with
    | some found =>
      rw [hread'] at hread
      cases hread
      rfl
    | none =>
      rw [hread'] at hread
      cases hread
  exact isIriText_of_readIri? hname (List.takeWhile_prefix _)

/-- Where only the objects of statements may be IRIs that cannot be written, a document that says
the statements of its store says nothing about such IRIs. -/
theorem isWritable_of_read {ts : List Triple} (hstart : ∀ t ∈ ts, t.startIsWritable = true)
    (hobject : ∀ t ∈ ts, t.object.isWritable = true ∨ t.object.iri?.isSome = true)
    (h : readLines? ((ts.flatMap fun t ↦ t.line.toList).splitOnP isLineEnd) = some ts) :
    ∀ t ∈ ts, t.isWritable = true := by
  induction ts with
  | nil => exact fun _ ht ↦ absurd ht List.not_mem_nil
  | cons t ts ih =>
    rw [List.flatMap_cons] at h
    have hfirst := hstart t List.mem_cons_self
    have ht : t.isWritable = true := by
      refine Bool.and_eq_true_iff.2 ⟨hfirst, ?_⟩
      rcases hobject t List.mem_cons_self with hobject | hiri
      · exact hobject
      · obtain ⟨name, hname⟩ := Option.isSome_iff_exists.1 hiri
        have hterm := Term.eq_of_iri? hname
        rw [hterm]
        exact isIriText_of_readLines? hfirst hterm h
    rw [readLines?_line ht] at h
    obtain ⟨us, hrest, hsame⟩ := Option.map_eq_some_iff.1 h
    cases hsame
    exact List.forall_mem_cons.2 ⟨ht, ih (fun u hu ↦ hstart u (List.mem_cons_of_mem _ hu))
      (fun u hu ↦ hobject u (List.mem_cons_of_mem _ hu)) hrest⟩

/-- A document says the statements of its store if and only if all of them can be written. -/
theorem read?_toNTriples_iff {store : Store}
    (hstart : ∀ t ∈ store.triples.toList, t.startIsWritable = true)
    (hobject : ∀ t ∈ store.triples.toList,
      t.object.isWritable = true ∨ t.object.iri?.isSome = true) :
    read? store.toNTriples = some store.triples.toList ↔
      ∀ t ∈ store.triples.toList, t.isWritable = true := by
  refine ⟨fun h ↦ isWritable_of_read hstart hobject ?_, read?_toNTriples⟩
  rw [← toList_toNTriples]
  exact h

end NTriples

end OntoGraph.Rdf
