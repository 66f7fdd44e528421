import OntoGraph.Proofs.Rdf.NTriples

/-!
# The productions of N-Triples

The grammar of N-Triples as it is laid down: which texts a token, a statement, a line and a document
have, and what each of them stands for. Blanks may stand between tokens, and a comment at the end of
a line. The productions say nothing about how a text is taken apart; what each of them starts with
tells them from each other, and none of them goes over the end of a line.
-/

namespace OntoGraph.Rdf.NTriples

open Text Turtle Number

/-! ## Tokens -/

/-- A character by its code point: four or eight hexadecimal digits after a letter that tells how
many. -/
inductive CodeEscape (c : Char) : List Char → Prop where
  | short {digits : List Char} (length : digits.length = 4)
    (value : hexNumber? digits = some c.toNat) : CodeEscape c ('u' :: digits)
  | long {digits : List Char} (length : digits.length = 8)
    (value : hexNumber? digits = some c.toNat) : CodeEscape c ('U' :: digits)

/-- A character of a string by its code point or by a letter of its own. -/
inductive StringEscape (c : Char) : List Char → Prop where
  | code {escape : List Char} (h : CodeEscape c escape) : StringEscape c escape
  | letter {letter : Char} (h : stringEscape? letter = some c) : StringEscape c [letter]

/-- A character of a text: itself, if it may stand there, or an escape after a backslash. -/
inductive Spelling (isPlain : Char → Bool) (Escape : Char → List Char → Prop) (c : Char) :
    List Char → Prop where
  | plain (h : isPlain c = true) : Spelling isPlain Escape c [c]
  | escape {code : List Char} (h : Escape c code) : Spelling isPlain Escape c ('\\' :: code)

/-- An IRI in angle brackets. -/
inductive IriText : List Char → String → Prop where
  | mk {name : String} {pieces : List (List Char)}
    (h : List.Forall₂ (Spelling isIriChar CodeEscape) name.toList pieces) :
    IriText ('<' :: (pieces.flatten ++ ['>'])) name

/-- A lexical form in quotes. -/
inductive QuotedText : List Char → String → Prop where
  | mk {lexical : String} {pieces : List (List Char)}
    (h : List.Forall₂ (Spelling isStringChar StringEscape) lexical.toList pieces) :
    QuotedText ('"' :: (pieces.flatten ++ ['"'])) lexical

/-- Spaces and tabs. -/
def Blanks (text : List Char) : Prop := ∀ c ∈ text, c = ' ' ∨ c = '\t'

/-- Nothing but blanks and a comment, which goes on up to the end of its line. -/
inductive Remark : List Char → Prop where
  | blanks {blanks : List Char} (h : Blanks blanks) : Remark blanks
  | comment {blanks comment : List Char} (h : Blanks blanks)
    (hcomment : ∀ c ∈ comment, isLineEnd c = false) : Remark (blanks ++ '#' :: comment)

theorem blanks_nil : Blanks [] := by
  rintro _ ⟨⟩

theorem Blanks.append {first second : List Char} (h : Blanks first) (h' : Blanks second) :
    Blanks (first ++ second) := List.forall_mem_append.2 ⟨h, h'⟩

/-! ## Terms and statements -/

/-- An IRI or a blank node. -/
inductive NodeText : List Char → Term → Prop where
  | iri {text : List Char} {name : String} (h : IriText text name) : NodeText text (.iri name)
  | blank {label : String} (h : isLabel label = true) :
    NodeText ('_' :: ':' :: label.toList) (.blank label)

/-- What follows the quotes of a literal: nothing, a language or a datatype. -/
inductive KindText : List Char → (datatype : String) → (language : Option String) → Prop where
  | string : KindText [] xsdString none
  | language {blanks : List Char} {tag : String} (hblanks : Blanks blanks)
    (htag : isTag tag.toList = true) :
    KindText (blanks ++ '@' :: tag.toList) rdfLangString (some tag)
  | datatype {before between iri : List Char} {datatype : String} (hbefore : Blanks before)
    (hbetween : Blanks between) (hdatatype : IriText iri datatype) :
    KindText (before ++ '^' :: '^' :: (between ++ iri)) datatype none

/-- A literal: its lexical form in quotes, and its kind. -/
inductive LiteralText : List Char → Term → Prop where
  | mk {quoted kind : List Char} {lexical datatype : String} {language : Option String}
    (hquoted : QuotedText quoted lexical) (hkind : KindText kind datatype language) :
    LiteralText (quoted ++ kind) (.literal lexical datatype language)

/-- What may be the object of a statement. -/
inductive ObjectText : List Char → Term → Prop where
  | node {text : List Char} {t : Term} (h : NodeText text t) : ObjectText text t
  | literal {text : List Char} {t : Term} (h : LiteralText text t) : ObjectText text t

/-- A subject, a predicate and an object with a point after them. -/
inductive StatementText : List Char → Triple → Prop where
  | mk {subjectText predicateText objectText first second third : List Char}
    {subject object : Term} {predicate : String} (hsubject : NodeText subjectText subject)
    (hfirst : Blanks first) (hpredicate : IriText predicateText predicate)
    (hsecond : Blanks second) (hobject : ObjectText objectText object) (hthird : Blanks third) :
    StatementText
      (subjectText ++ (first ++ (predicateText ++ (second ++ (objectText ++ (third ++ ['.']))))))
      ⟨subject, predicate, object⟩

/-! ## Documents -/

/-- A line with one statement or none. -/
inductive LineText : List Char → Option Triple → Prop where
  | remark {text : List Char} (h : Remark text) : LineText text none
  | statement {blanks text remark : List Char} {t : Triple} (hblanks : Blanks blanks)
    (h : StatementText text t) (hremark : Remark remark) :
    LineText (blanks ++ (text ++ remark)) (some t)

/-- Lines with an end of a line between any two of them. -/
inductive DocumentText : List Char → List Triple → Prop where
  | last {line : List Char} {t : Option Triple} (h : LineText line t) : DocumentText line t.toList
  | line {line rest : List Char} {lineEnd : Char} {t : Option Triple} {ts : List Triple}
    (h : LineText line t) (hend : isLineEnd lineEnd = true) (hrest : DocumentText rest ts) :
    DocumentText (line ++ lineEnd :: rest) (t.toList ++ ts)

/-! ## How texts start -/

/-- A remark is empty, or starts with a blank or with the mark of a comment. -/
theorem Remark.start {text : List Char} (h : Remark text) :
    text = [] ∨ ∃ c rest, text = c :: rest ∧ (c = ' ' ∨ c = '\t' ∨ c = '#') := by
  cases h with
  | blanks h =>
    cases text with
    | nil => exact .inl rfl
    | cons c rest => exact .inr ⟨c, rest, rfl, (h c List.mem_cons_self).imp_right .inl⟩
  | @comment blanks comment h _ =>
    cases blanks with
    | nil => exact .inr ⟨'#', comment, rfl, .inr (.inr rfl)⟩
    | cons c rest => exact .inr ⟨c, _, rfl, (h c List.mem_cons_self).imp_right .inl⟩

theorem IriText.start {text : List Char} {name : String} (h : IriText text name) :
    ∃ rest, text = '<' :: rest := by
  cases h
  exact ⟨_, rfl⟩

theorem NodeText.start {text : List Char} {t : Term} (h : NodeText text t) :
    ∃ c rest, text = c :: rest ∧ (c = '<' ∨ c = '_') := by
  cases h with
  | iri hiri =>
    obtain ⟨rest, rfl⟩ := hiri.start
    exact ⟨_, _, rfl, .inl rfl⟩
  | blank => exact ⟨_, _, rfl, .inr rfl⟩

theorem QuotedText.start {text : List Char} {lexical : String} (h : QuotedText text lexical) :
    ∃ rest, text = '"' :: rest := by
  cases h
  exact ⟨_, rfl⟩

theorem LiteralText.start {text : List Char} {t : Term} (h : LiteralText text t) :
    ∃ rest, text = '"' :: rest := by
  obtain ⟨hquoted, -⟩ := h
  obtain ⟨rest, rfl⟩ := hquoted.start
  exact ⟨_, rfl⟩

theorem ObjectText.start {text : List Char} {t : Term} (h : ObjectText text t) :
    ∃ c rest, text = c :: rest ∧ (c = '<' ∨ c = '_' ∨ c = '"') := by
  cases h with
  | node hnode =>
    obtain ⟨c, rest, rfl, hc⟩ := hnode.start
    exact ⟨c, rest, rfl, hc.imp_right .inl⟩
  | literal hliteral =>
    obtain ⟨rest, rfl⟩ := hliteral.start
    exact ⟨_, _, rfl, .inr (.inr rfl)⟩

theorem StatementText.start {text : List Char} {t : Triple} (h : StatementText text t) :
    ∃ c rest, text = c :: rest ∧ (c = '<' ∨ c = '_') := by
  obtain ⟨hsubject, -, -, -, -, -⟩ := h
  obtain ⟨c, rest, rfl, hc⟩ := hsubject.start
  exact ⟨c, _, rfl, hc⟩

theorem NodeText.isLiteral {text : List Char} {t : Term} (h : NodeText text t) :
    t.isLiteral = false := by
  cases h <;> rfl

/-! ## Ends of lines -/

theorem CodeEscape.onOneLine {c : Char} {code : List Char} (h : CodeEscape c code) :
    OnOneLine code := by
  have hdigits : ∀ {digits : List Char} {value : Nat}, hexNumber? digits = some value →
      OnOneLine digits := fun hvalue ↦
    onOneLine_of_all (p := fun d ↦ (hexDigit? d).isSome) (by decide) (by decide)
      (isSome_hexDigit?_of_hexNumber? hvalue)
  cases h with
  | short _ hvalue => exact .cons (by decide) (hdigits hvalue)
  | long _ hvalue => exact .cons (by decide) (hdigits hvalue)

theorem StringEscape.onOneLine {c : Char} {code : List Char} (h : StringEscape c code) :
    OnOneLine code := by
  cases h with
  | code hcode => exact hcode.onOneLine
  | @letter letter hletter =>
    refine onOneLine_of_all (p := fun d ↦ (stringEscape? d).isSome) (by decide) (by decide) ?_
    exact List.forall_mem_singleton.2 (by rw [hletter]; rfl)

theorem onOneLine_pieces {isPlain : Char → Bool} {Escape : Char → List Char → Prop}
    (hreturn : isPlain '\r' = false) (hnewline : isPlain '\n' = false)
    (hescape : ∀ {c code}, Escape c code → OnOneLine code) {text : List Char}
    {pieces : List (List Char)} (h : List.Forall₂ (Spelling isPlain Escape) text pieces) :
    OnOneLine pieces.flatten := by
  induction h with
  | nil => exact onOneLine_nil
  | cons hpiece _ ih =>
    rw [List.flatten_cons]
    refine .append ?_ ih
    cases hpiece with
    | plain hplain => exact onOneLine_of_all hreturn hnewline (List.forall_mem_singleton.2 hplain)
    | escape hcode => exact .cons (by decide) (hescape hcode)

theorem IriText.onOneLine {text : List Char} {name : String} (h : IriText text name) :
    OnOneLine text := by
  obtain ⟨hpieces⟩ := h
  exact .cons (by decide) ((onOneLine_pieces (by decide) (by decide) CodeEscape.onOneLine
    hpieces).append (.cons (by decide) onOneLine_nil))

theorem QuotedText.onOneLine {text : List Char} {lexical : String} (h : QuotedText text lexical) :
    OnOneLine text := by
  obtain ⟨hpieces⟩ := h
  exact .cons (by decide) ((onOneLine_pieces (by decide) (by decide) StringEscape.onOneLine
    hpieces).append (.cons (by decide) onOneLine_nil))

theorem Blanks.onOneLine {text : List Char} (h : Blanks text) : OnOneLine text := by
  intro c hc
  rcases h c hc with rfl | rfl <;> decide

theorem Remark.onOneLine {text : List Char} (h : Remark text) : OnOneLine text := by
  cases h with
  | blanks hblanks => exact hblanks.onOneLine
  | comment hblanks hcomment => exact hblanks.onOneLine.append (.cons (by decide) hcomment)

theorem NodeText.onOneLine {text : List Char} {t : Term} (h : NodeText text t) :
    OnOneLine text := by
  cases h with
  | iri hiri => exact hiri.onOneLine
  | blank hlabel => exact .cons (by decide) (.cons (by decide) (onOneLine_label hlabel))

theorem KindText.onOneLine {text : List Char} {datatype : String} {language : Option String}
    (h : KindText text datatype language) : OnOneLine text := by
  cases h with
  | string => exact onOneLine_nil
  | language hblanks htag =>
    exact hblanks.onOneLine.append
      (.cons (by decide) (onOneLine_of_all (by decide) (by decide) (isTagChar_of_isTag htag)))
  | datatype hbefore hbetween hdatatype =>
    exact hbefore.onOneLine.append
      (.cons (by decide) (.cons (by decide) (hbetween.onOneLine.append hdatatype.onOneLine)))

theorem ObjectText.onOneLine {text : List Char} {t : Term} (h : ObjectText text t) :
    OnOneLine text := by
  cases h with
  | node hnode => exact hnode.onOneLine
  | literal hliteral =>
    obtain ⟨hquoted, hkind⟩ := hliteral
    exact hquoted.onOneLine.append hkind.onOneLine

/-- No production goes over the end of a line. -/
theorem LineText.onOneLine {text : List Char} {t : Option Triple} (h : LineText text t) :
    OnOneLine text := by
  cases h with
  | remark hremark => exact hremark.onOneLine
  | statement hblanks hstatement hremark =>
    obtain ⟨hsubject, hfirst, hpredicate, hsecond, hobject, hthird⟩ := hstatement
    have hpoint : OnOneLine ['.'] := .cons (by decide) onOneLine_nil
    exact hblanks.onOneLine.append (.append (hsubject.onOneLine.append
      (hfirst.onOneLine.append (hpredicate.onOneLine.append (hsecond.onOneLine.append
        (hobject.onOneLine.append (hthird.onOneLine.append hpoint)))))) hremark.onOneLine)

end OntoGraph.Rdf.NTriples
