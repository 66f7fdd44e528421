import OntoGraph.Proofs.Rdf.NTriplesProductions

/-!
# The reader of N-Triples finds what is derived

There is one way at most to derive a document from the productions of N-Triples, and the reader
finds it: it gives some statements for a text exactly if the text is derived as a document of these
statements. For each token there are two sides to this. What is read was derived; and what was
derived is read, if the token cannot go on with the text after it.
-/

namespace OntoGraph.Rdf.NTriples

open Text Turtle Number

/-! ## Escapes -/

theorem readCode?_eq_some_iff {n : Nat} {input rest : List Char} {c : Char} :
    readCode? n input = some (c, rest) ↔
      ∃ digits, digits.length = n ∧ hexNumber? digits = some c.toNat ∧ input = digits ++ rest := by
  constructor
  · intro h
    obtain ⟨⟨value, rest'⟩, hvalue, h⟩ := Option.bind_eq_some_iff.1 h
    obtain ⟨d, hd, heq⟩ := Option.bind_eq_some_iff.1 h
    cases heq
    obtain ⟨digits, hlength, hnumber, rfl⟩ := takeHex?_eq_some_iff.1 hvalue
    rw [character?_eq_some_iff.1 hd] at hnumber
    exact ⟨digits, hlength, hnumber, rfl⟩
  · intro h
    rw [readCode?, takeHex?_eq_some_iff.2 h]
    dsimp only [Option.bind_eq_bind, Option.bind_some]
    rw [character?_toNat]
    rfl

theorem readCodeEscape?_eq_some_iff {input rest : List Char} {c : Char} :
    readCodeEscape? input = some (c, rest) ↔ ∃ code, CodeEscape c code ∧ input = code ++ rest := by
  constructor
  · intro h
    unfold readCodeEscape? at h
    split at h
    · obtain ⟨digits, hlength, hvalue, rfl⟩ := readCode?_eq_some_iff.1 h
      exact ⟨_, .short hlength hvalue, rfl⟩
    · obtain ⟨digits, hlength, hvalue, rfl⟩ := readCode?_eq_some_iff.1 h
      exact ⟨_, .long hlength hvalue, rfl⟩
    · cases h
  · rintro ⟨_, ⟨hlength, hvalue⟩ | ⟨hlength, hvalue⟩, rfl⟩
    · exact readCode?_eq_some_iff.2 ⟨_, hlength, hvalue, rfl⟩
    · exact readCode?_eq_some_iff.2 ⟨_, hlength, hvalue, rfl⟩

theorem readStringEscape?_eq_some_iff {input rest : List Char} {c : Char} :
    readStringEscape? input = some (c, rest) ↔
      ∃ code, StringEscape c code ∧ input = code ++ rest := by
  constructor
  · intro h
    unfold readStringEscape? at h
    cases hread : readCodeEscape? input with
    | some found =>
      rw [hread] at h
      cases h
      obtain ⟨code, hcode, rfl⟩ := readCodeEscape?_eq_some_iff.1 hread
      exact ⟨code, .code hcode, rfl⟩
    | none =>
      rw [hread] at h
      cases input with
      | nil => cases h
      | cons letter input =>
        obtain ⟨d, hletter, heq⟩ := Option.map_eq_some_iff.1 h
        cases heq
        exact ⟨_, .letter hletter, rfl⟩
  · rintro ⟨code, hcode | @⟨letter, hletter⟩, rfl⟩
    · have hread : readCodeEscape? (code ++ rest) = some (c, rest) :=
        readCodeEscape?_eq_some_iff.2 ⟨code, hcode, rfl⟩
      unfold readStringEscape?
      rw [hread]
    · -- The letters of escapes by code point are none of their own.
      have hread : readCodeEscape? ([letter] ++ rest) = none := by
        rw [List.singleton_append, readCodeEscape?]
        · rintro rest heq
          cases heq
          cases hletter
        · rintro rest heq
          cases heq
          cases hletter
      unfold readStringEscape?
      rw [hread]
      dsimp only [List.cons_append, List.nil_append]
      rw [hletter]
      rfl

/-! ## Text between marks -/

section

variable {isPlain : Char → Bool} {Escape : Char → List Char → Prop}
  {readEscape? : List Char → Option (Char × List Char)}

/-- What is read up to a mark is a text that is spelled out before the mark. -/
theorem exists_pieces_of_readUntil?
    (hescape : ∀ {input rest : List Char} {c : Char}, readEscape? input = some (c, rest) →
      ∃ code, Escape c code ∧ input = code ++ rest)
    {close : Char} {fuel : Nat} {input text rest : List Char}
    (h : readUntil? close isPlain readEscape? fuel input = some (text, rest)) :
    ∃ pieces, List.Forall₂ (Spelling isPlain Escape) text pieces ∧
      input = pieces.flatten ++ close :: rest := by
  induction fuel generalizing input text with
  | zero => cases input <;> cases h
  | succ fuel ih =>
    obtain ⟨rfl, rfl⟩ | ⟨code, c, later, text, rfl, -, hread, htext, rfl⟩ |
      ⟨c, later, text, rfl, -, hplain, htext, rfl⟩ := cases_of_readUntil? h
    · exact ⟨[], .nil, rfl⟩
    · obtain ⟨code, hcode, rfl⟩ := hescape hread
      obtain ⟨pieces, hpieces, rfl⟩ := ih htext
      exact ⟨('\\' :: code) :: pieces, .cons (.escape hcode) hpieces, by simp⟩
    · obtain ⟨pieces, hpieces, rfl⟩ := ih htext
      exact ⟨[c] :: pieces, .cons (.plain hplain) hpieces, rfl⟩

/-- A text that is spelled out before a mark is read up to the mark. -/
theorem readUntil?_pieces (close : Char) (hclose : close ≠ '\\') (hmark : isPlain close = false)
    (hbackslash : isPlain '\\' = false)
    (hescape : ∀ {code rest : List Char} {c : Char}, Escape c code →
      readEscape? (code ++ rest) = some (c, rest))
    {text : List Char} {pieces : List (List Char)}
    (h : List.Forall₂ (Spelling isPlain Escape) text pieces) (rest : List Char) :
    readUntil? close isPlain readEscape? (pieces.flatten ++ close :: rest).length
      (pieces.flatten ++ close :: rest) = some (text, rest) := by
  refine readUntil?_flatten hclose (h.imp fun c piece hpiece ↦ ?_) rest (Nat.le_refl _)
  cases hpiece with
  | plain hplain =>
    have hne : ∀ {d : Char}, isPlain d = false → c ≠ d := by
      rintro d hd rfl
      rw [hd] at hplain
      cases hplain
    exact .plain (hne hmark) (hne hbackslash) hplain
  | escape hcode => exact .escape fun _ ↦ hescape hcode

end

theorem readIri?_eq_some_iff {input rest : List Char} {name : String} :
    readIri? input = some (name, rest) ↔ ∃ text, IriText text name ∧ input = text ++ rest := by
  constructor
  · intro h
    unfold readIri? at h
    split at h
    · obtain ⟨⟨text, rest'⟩, hread, heq⟩ := Option.bind_eq_some_iff.1 h
      cases heq
      obtain ⟨pieces, hpieces, rfl⟩ :=
        exists_pieces_of_readUntil? readCodeEscape?_eq_some_iff.1 hread
      rw [← String.toList_ofList (l := text)] at hpieces
      exact ⟨_, .mk hpieces, by simp⟩
    · cases h
  · rintro ⟨_, ⟨hpieces⟩, rfl⟩
    have hread := readUntil?_pieces '>' (by decide) (by decide) (by decide)
      (fun hcode ↦ readCodeEscape?_eq_some_iff.2 ⟨_, hcode, rfl⟩) hpieces rest
    rw [List.cons_append, List.append_assoc, List.singleton_append, readIri?, hread]
    dsimp only [Option.bind_eq_bind, Option.bind_some]
    rw [String.ofList_toList]
    rfl

/-- A string is read up to the quote that ends it. -/
theorem readQuoted?_eq_some_iff {input rest : List Char} {lexical : String} :
    readUntil? '"' isStringChar readStringEscape? input.length input =
        some (lexical.toList, rest) ↔
      ∃ text, QuotedText text lexical ∧ '"' :: input = text ++ rest := by
  constructor
  · intro h
    obtain ⟨pieces, hpieces, rfl⟩ :=
      exists_pieces_of_readUntil? readStringEscape?_eq_some_iff.1 h
    exact ⟨_, .mk hpieces, by simp⟩
  · rintro ⟨_, ⟨hpieces⟩, heq⟩
    have hread := readUntil?_pieces '"' (by decide) (by decide) (by decide)
      (fun hcode ↦ readStringEscape?_eq_some_iff.2 ⟨_, hcode, rfl⟩) hpieces rest
    rw [List.cons_append, List.append_assoc, List.singleton_append] at heq
    rw [(List.cons.inj heq).2]
    exact hread

/-! ## Blanks and remarks -/

theorem skipBlanks_append {blanks : List Char} (h : Blanks blanks) (rest : List Char) :
    skipBlanks (blanks ++ rest) = skipBlanks rest := by
  refine List.dropWhile_append_of_pos fun c hc ↦ ?_
  rcases h c hc with rfl | rfl <;> rfl

theorem exists_blanks (input : List Char) :
    ∃ blanks, Blanks blanks ∧ input = blanks ++ skipBlanks input := by
  refine ⟨input.takeWhile fun c ↦ c == ' ' || c == '\t', fun c hc ↦ ?_,
    List.takeWhile_append_dropWhile.symm⟩
  have hblank := List.mem_takeWhile_imp hc
  simpa using hblank

theorem isRemark_iff {line : List Char} (hline : OnOneLine line) :
    isRemark line = true ↔ Remark line := by
  constructor
  · intro h
    obtain ⟨blanks, hblanks, heq⟩ := exists_blanks line
    rw [isRemark] at h
    generalize skipBlanks line = rest at h heq
    subst heq
    cases rest with
    | nil =>
      rw [List.append_nil]
      exact .blanks hblanks
    | cons c comment =>
      obtain rfl : c = '#' := by simpa using h
      exact .comment hblanks fun d hd ↦
        hline d (List.mem_append_right _ (List.mem_cons_of_mem _ hd))
  · rintro (hblanks | ⟨hblanks, -⟩)
    · rw [isRemark, ← List.append_nil line, skipBlanks_append hblanks]
      rfl
    · rw [isRemark, skipBlanks_append hblanks]
      rfl

/-! ## Blank nodes and tags -/

/-- Points are part of a label where a character of the label follows. -/
theorem takeName_ne_nil {input : List Char}
    (h : (input.dropWhile (· == '.')).head?.any isLabelChar = true) :
    (takeName isLabelChar isLabelChar input).1 ≠ [] := by
  cases input with
  | nil => cases h
  | cons c input =>
    rw [takeName]
    by_cases hchar : isLabelChar c = true
    · rw [if_pos hchar]
      exact List.cons_ne_nil _ _
    · have hpoint : c = '.' := by
        by_contra hne
        rw [List.dropWhile_cons_of_neg (by simpa using hne)] at h
        exact hchar h
      subst hpoint
      rw [List.dropWhile_cons_of_pos rfl] at h
      rw [if_neg hchar, if_pos (by simpa using h)]
      exact List.cons_ne_nil _ _

/-- What is taken as the rest of a label has the characters of labels, and no point at its end. -/
theorem takeName_eq (input : List Char) :
    let (name, rest) := takeName isLabelChar isLabelChar input
    input = name ++ rest ∧ (∀ c ∈ name, (isLabelChar c || c == '.') = true) ∧
      name.getLast? ≠ some '.' := by
  induction input with
  | nil => exact ⟨rfl, fun _ hc ↦ absurd hc List.not_mem_nil, nofun⟩
  | cons c input ih =>
    obtain ⟨heq, hall, hlast⟩ := ih
    rw [takeName]
    by_cases hchar : isLabelChar c = true
    · rw [if_pos hchar]
      refine ⟨congrArg (c :: ·) heq, List.forall_mem_cons.2 ⟨by rw [hchar]; rfl, hall⟩, ?_⟩
      cases hname : (takeName isLabelChar isLabelChar input).1 with
      | nil =>
        rintro ⟨⟩
        exact absurd hchar (by decide)
      | cons d name =>
        rw [hname] at hlast
        rwa [List.getLast?_cons_of_ne_nil (List.cons_ne_nil _ _)]
    rw [if_neg hchar]
    by_cases hpoint : (c = '.' && (input.dropWhile (· == '.')).head?.any isLabelChar) = true
    · rw [if_pos hpoint]
      obtain ⟨hc, hmore⟩ := Bool.and_eq_true_iff.1 hpoint
      rw [of_decide_eq_true hc]
      refine ⟨congrArg ('.' :: ·) heq, List.forall_mem_cons.2 ⟨by decide, hall⟩, ?_⟩
      rwa [List.getLast?_cons_of_ne_nil (takeName_ne_nil hmore)]
    · rw [if_neg hpoint]
      exact ⟨rfl, fun _ hc ↦ absurd hc List.not_mem_nil, nofun⟩

theorem exists_label_of_readBlank? {input rest : List Char} {t : Term}
    (h : readBlank? input = some (t, rest)) :
    ∃ label, isLabel label = true ∧ t = .blank label ∧
      input = '_' :: ':' :: (label.toList ++ rest) := by
  revert h
  fun_cases readBlank? input with
  | case1 c input hstart name after hname =>
    rintro ⟨⟩
    obtain ⟨heq, hall, hlast⟩ := takeName_eq input
    rw [hname] at heq hall hlast
    refine ⟨_, ?_, rfl, ?_⟩
    · rw [isLabel, String.toList_ofList]
      simp only [Bool.and_eq_true]
      exact ⟨⟨hstart, List.all_eq_true.2 hall⟩, bne_iff_ne.2 hlast⟩
    · rw [String.toList_ofList, List.cons_append, ← heq]
  | case2 => rintro ⟨⟩
  | case3 => rintro ⟨⟩

/-- A tag that is followed by no character of tags is read as it is. -/
theorem takeWhile_tag {tag rest : List Char} (h : isTag tag = true)
    (hrest : ∀ c ∈ rest.head?, isTagChar c = false) : (tag ++ rest).takeWhile isTagChar = tag := by
  rw [List.takeWhile_append_of_pos (isTagChar_of_isTag h)]
  cases rest with
  | nil => rw [List.takeWhile_nil, List.append_nil]
  | cons c rest =>
    have hc := hrest c rfl
    rw [List.takeWhile_cons_of_neg (by rw [hc]; exact Bool.false_ne_true), List.append_nil]

/-! ## Nodes -/

theorem exists_nodeText_of_readNode? {input rest : List Char} {t : Term}
    (h : readNode? input = some (t, rest)) :
    ∃ text, NodeText text t ∧ input = text ++ rest := by
  unfold readNode? at h
  cases hiri : readIri? input with
  | some found =>
    rw [hiri] at h
    cases h
    obtain ⟨text, htext, rfl⟩ := readIri?_eq_some_iff.1 hiri
    exact ⟨text, .iri htext, rfl⟩
  | none =>
    rw [hiri] at h
    obtain ⟨label, hlabel, rfl, rfl⟩ := exists_label_of_readBlank? h
    exact ⟨_, .blank hlabel, rfl⟩

theorem NodeText.read {text rest : List Char} {t : Term} (h : NodeText text t)
    (hrest : EndsLabel rest) : readNode? (text ++ rest) = some (t, rest) := by
  cases h with
  | iri hiri => rw [readNode?, readIri?_eq_some_iff.2 ⟨text, hiri, rfl⟩]
  | blank hlabel =>
    rw [List.cons_append, List.cons_append, readNode?]
    exact readBlank?_text hlabel hrest

theorem IriText.read {text blanks : List Char} {name : String} (h : IriText text name)
    (hblanks : Blanks blanks) (rest : List Char) :
    readIri? (skipBlanks (blanks ++ (text ++ rest))) = some (name, rest) := by
  have hread : readIri? (text ++ rest) = some (name, rest) :=
    readIri?_eq_some_iff.2 ⟨text, h, rfl⟩
  obtain ⟨text, rfl⟩ := h.start
  rw [skipBlanks_append hblanks]
  exact hread

/-- A text starts with one node at most, if no label goes on after it. -/
theorem NodeText.unique {text text' rest rest' : List Char} {t t' : Term} (h : NodeText text t)
    (h' : NodeText text' t') (hrest : EndsLabel rest) (hrest' : EndsLabel rest')
    (heq : text ++ rest = text' ++ rest') : t = t' ∧ rest = rest' := by
  have hread := h.read hrest
  rw [heq, h'.read hrest'] at hread
  cases hread
  exact ⟨rfl, rfl⟩

theorem IriText.unique {text text' blanks blanks' rest rest' : List Char} {name name' : String}
    (h : IriText text name) (h' : IriText text' name') (hblanks : Blanks blanks)
    (hblanks' : Blanks blanks') (heq : blanks ++ (text ++ rest) = blanks' ++ (text' ++ rest')) :
    name = name' ∧ rest = rest' := by
  have hread := h.read hblanks rest
  rw [heq, h'.read hblanks'] at hread
  cases hread
  exact ⟨rfl, rfl⟩

/-! ## What follows a term -/

/-- The text after the object of a statement: blanks, the point and a remark. -/
theorem start_of_end {third : List Char} (hthird : Blanks third) (remark : List Char) :
    ∃ c rest, third ++ '.' :: remark = c :: rest ∧ (c = ' ' ∨ c = '\t' ∨ c = '.') := by
  cases third with
  | nil => exact ⟨'.', remark, rfl, .inr (.inr rfl)⟩
  | cons c third => exact ⟨c, _, rfl, (hthird c List.mem_cons_self).imp_right .inl⟩

/-- A label can end before blanks, and before what starts with a mark that labels do not have. -/
theorem endsLabel_blanks_append {blanks rest : List Char} (h : Blanks blanks)
    (hrest : EndsLabel rest) : EndsLabel (blanks ++ rest) := by
  cases blanks with
  | nil => exact hrest
  | cons c blanks =>
    rcases h c List.mem_cons_self with rfl | rfl <;> exact endsLabel_cons (by decide) (by decide) _

/-- The point that ends a statement is not part of a label before it. -/
theorem endsLabel_point {remark : List Char} (h : Remark remark) : EndsLabel ('.' :: remark) := by
  have hmore : (remark.dropWhile (· == '.')).head?.any isLabelChar = false := by
    rcases h.start with rfl | ⟨c, rest, rfl, hc⟩
    · rfl
    · have hmark : isLabelChar c = false ∧ (c == '.') = false := by
        rcases hc with rfl | rfl | rfl <;> decide
      rw [List.dropWhile_cons_of_neg (by rw [hmark.2]; exact Bool.false_ne_true)]
      exact hmark.1
  rw [EndsLabel, takeName, if_neg (by decide)]
  simp [hmore]

/-! ## Literals -/

theorem exists_kindText_of_readKind? {lexical : String} {input rest : List Char} {t : Term}
    (h : readKind? lexical (skipBlanks input) = some (t, rest)) :
    ∃ kind datatype language blanks, KindText kind datatype language ∧ Blanks blanks ∧
      t = .literal lexical datatype language ∧ input = kind ++ (blanks ++ rest) := by
  obtain ⟨before, hbefore, heq⟩ := exists_blanks input
  generalize skipBlanks input = text at h heq
  subst heq
  revert h
  fun_cases readKind? lexical text with
  | case1 text tag htag =>
    rintro ⟨⟩
    rw [← String.toList_ofList (l := tag)] at htag
    refine ⟨_, _, _, [], .language hbefore htag, blanks_nil, rfl, ?_⟩
    have htext := List.prefix_iff_eq_append.1 (text.takeWhile_prefix isTagChar)
    rw [String.toList_ofList, List.nil_append, List.append_assoc, List.cons_append, htext]
  | case2 => rintro ⟨⟩
  | case3 text =>
    intro h
    obtain ⟨⟨datatype, rest'⟩, hdatatype, h⟩ := Option.bind_eq_some_iff.1 h
    cases h
    obtain ⟨between, hbetween, heq⟩ := exists_blanks text
    obtain ⟨iri, hiri, hrest⟩ := readIri?_eq_some_iff.1 hdatatype
    refine ⟨_, _, _, [], .datatype hbefore hbetween hiri, blanks_nil, rfl, ?_⟩
    rw [heq, hrest]
    simp
  | case4 =>
    rintro ⟨⟩
    exact ⟨_, _, _, before, .string, hbefore, rfl, rfl⟩

theorem KindText.read {kind third : List Char} {datatype : String} {language : Option String}
    (h : KindText kind datatype language) (lexical : String) (hthird : Blanks third)
    (remark : List Char) :
    ∃ rest, readKind? lexical (skipBlanks (kind ++ (third ++ '.' :: remark))) =
      some (.literal lexical datatype language, rest) ∧ skipBlanks rest = '.' :: remark := by
  have hend : skipBlanks (third ++ '.' :: remark) = '.' :: remark := skipBlanks_append hthird _
  cases h with
  | string =>
    refine ⟨'.' :: remark, ?_, rfl⟩
    rw [List.nil_append, hend]
    rfl
  | @language blanks tag hblanks htag =>
    have hfollows : ∀ c ∈ (third ++ '.' :: remark).head?, isTagChar c = false := by
      obtain ⟨c, rest, hc, hmark⟩ := start_of_end hthird remark
      rw [hc]
      rintro _ ⟨⟩
      rcases hmark with rfl | rfl | rfl <;> decide
    refine ⟨third ++ '.' :: remark, ?_, hend⟩
    rw [List.append_assoc, skipBlanks_append hblanks, List.cons_append]
    change readKind? lexical ('@' :: (tag.toList ++ (third ++ '.' :: remark))) = _
    rw [readKind?, takeWhile_tag htag hfollows, if_pos htag, List.drop_left, String.ofList_toList]
    rfl
  | @datatype before between iri datatype hbefore hbetween hdatatype =>
    refine ⟨third ++ '.' :: remark, ?_, hend⟩
    rw [List.append_assoc, skipBlanks_append hbefore, List.cons_append, List.cons_append,
      List.append_assoc]
    change readKind? lexical ('^' :: '^' :: (between ++ (iri ++ (third ++ '.' :: remark)))) = _
    rw [readKind?, hdatatype.read hbetween]
    rfl

/-! ## Objects -/

theorem exists_objectText_of_readObject? {input rest : List Char} {t : Term}
    (h : readObject? input = some (t, rest)) :
    ∃ text blanks, ObjectText text t ∧ Blanks blanks ∧ input = text ++ (blanks ++ rest) := by
  unfold readObject? at h
  split at h
  · obtain ⟨⟨lexical, rest'⟩, hread, h⟩ := Option.bind_eq_some_iff.1 h
    rw [← String.toList_ofList (l := lexical)] at hread
    obtain ⟨quoted, hquoted, heq⟩ := readQuoted?_eq_some_iff.1 hread
    obtain ⟨kind, datatype, language, blanks, hkind, hblanks, rfl, rfl⟩ :=
      exists_kindText_of_readKind? h
    refine ⟨_, blanks, .literal ⟨hquoted, hkind⟩, hblanks, ?_⟩
    rw [heq, List.append_assoc]
  · obtain ⟨text, htext, rfl⟩ := exists_nodeText_of_readNode? h
    exact ⟨text, [], .node htext, blanks_nil, rfl⟩

/-- A literal is read whatever comes after the point behind it. -/
theorem LiteralText.read {text third : List Char} {t : Term} (h : LiteralText text t)
    (hthird : Blanks third) (remark : List Char) :
    ∃ rest, readObject? (text ++ (third ++ '.' :: remark)) = some (t, rest) ∧
      skipBlanks rest = '.' :: remark := by
  obtain @⟨quoted, kind, lexical, datatype, language, hquoted, hkind⟩ := h
  obtain ⟨rest, hread, hrest⟩ := hkind.read lexical hthird remark
  refine ⟨rest, ?_, hrest⟩
  obtain ⟨input, heq⟩ := hquoted.start
  have htext : '"' :: (input ++ (kind ++ (third ++ '.' :: remark))) =
      quoted ++ (kind ++ (third ++ '.' :: remark)) := by rw [heq, List.cons_append]
  have hlexical := readQuoted?_eq_some_iff.2 ⟨quoted, hquoted, htext⟩
  rw [List.append_assoc, ← htext, readObject?, hlexical]
  dsimp only [Option.bind_eq_bind, Option.bind_some]
  rw [String.ofList_toList]
  exact hread

theorem LiteralText.unique {text text' third third' remark remark' : List Char} {t t' : Term}
    (h : LiteralText text t) (h' : LiteralText text' t') (hthird : Blanks third)
    (hthird' : Blanks third')
    (heq : text ++ (third ++ '.' :: remark) = text' ++ (third' ++ '.' :: remark')) :
    t = t' ∧ remark = remark' := by
  obtain ⟨rest, hread, hrest⟩ := h.read hthird remark
  obtain ⟨rest', hread', hrest'⟩ := h'.read hthird' remark'
  rw [heq, hread'] at hread
  cases hread
  rw [hrest] at hrest'
  cases hrest'
  exact ⟨rfl, rfl⟩

theorem ObjectText.read {text third remark : List Char} {t : Term} (h : ObjectText text t)
    (hthird : Blanks third) (hremark : Remark remark) :
    ∃ rest, readObject? (text ++ (third ++ '.' :: remark)) = some (t, rest) ∧
      skipBlanks rest = '.' :: remark := by
  cases h with
  | node hnode =>
    have hread := hnode.read (endsLabel_blanks_append hthird (endsLabel_point hremark))
    refine ⟨third ++ '.' :: remark, ?_, skipBlanks_append hthird _⟩
    obtain ⟨c, rest, rfl, rfl | rfl⟩ := hnode.start <;> exact hread
  | literal hliteral => exact hliteral.read hthird remark

/-! ## Statements -/

theorem exists_statementText_of_readStatement? {input rest : List Char} {t : Triple}
    (h : readStatement? input = some (t, rest)) :
    ∃ text, StatementText text t ∧ input = text ++ rest := by
  obtain ⟨⟨subject, afterSubject⟩, hreadSubject, h⟩ := Option.bind_eq_some_iff.1 h
  obtain ⟨⟨predicate, afterPredicate⟩, hreadPredicate, h⟩ := Option.bind_eq_some_iff.1 h
  obtain ⟨⟨object, afterObject⟩, hreadObject, h⟩ := Option.bind_eq_some_iff.1 h
  obtain ⟨afterPoint, hpoint, h⟩ := Option.bind_eq_some_iff.1 h
  cases h
  obtain ⟨subjectText, hsubject, rfl⟩ := exists_nodeText_of_readNode? hreadSubject
  obtain ⟨first, hfirst, hafterSubject⟩ := exists_blanks afterSubject
  obtain ⟨predicateText, hpredicate, hskip⟩ := readIri?_eq_some_iff.1 hreadPredicate
  obtain ⟨second, hsecond, hafterPredicate⟩ := exists_blanks afterPredicate
  obtain ⟨objectText, blanks, hobject, hblanks, hskip'⟩ :=
    exists_objectText_of_readObject? hreadObject
  obtain ⟨third, hthird, hafterObject⟩ := exists_blanks afterObject
  refine ⟨_, .mk hsubject hfirst hpredicate hsecond hobject (hblanks.append hthird), ?_⟩
  rw [hafterSubject, hskip, hafterPredicate, hskip', hafterObject, after?_eq_some_iff.1 hpoint]
  simp only [List.append_assoc]

/-- After the subject of a statement, no label goes on. -/
theorem endsLabel_predicate {first text rest : List Char} {predicate : String}
    (hfirst : Blanks first) (h : IriText text predicate) : EndsLabel (first ++ (text ++ rest)) := by
  obtain ⟨text, rfl⟩ := h.start
  exact endsLabel_blanks_append hfirst (endsLabel_cons (by decide) (by decide) _)

theorem ObjectText.skipBlanks_append {second text : List Char} {t : Term} (h : ObjectText text t)
    (hsecond : Blanks second) (rest : List Char) :
    skipBlanks (second ++ (text ++ rest)) = text ++ rest := by
  rw [NTriples.skipBlanks_append hsecond]
  obtain ⟨c, text, rfl, rfl | rfl | rfl⟩ := h.start <;> rfl

theorem StatementText.read {text remark : List Char} {t : Triple} (h : StatementText text t)
    (hremark : Remark remark) : readStatement? (text ++ remark) = some (t, remark) := by
  obtain ⟨hsubject, hfirst, hpredicate, hsecond, hobject, hthird⟩ := h
  obtain ⟨rest, hread, hrest⟩ := hobject.read hthird hremark
  simp only [List.append_assoc, List.singleton_append]
  rw [readStatement?, hsubject.read (endsLabel_predicate hfirst hpredicate)]
  dsimp only [Option.bind_eq_bind, Option.bind_some]
  rw [hpredicate.read hfirst]
  dsimp only [Option.bind_some]
  rw [hobject.skipBlanks_append hsecond, hread]
  dsimp only [Option.bind_some]
  rw [hrest]
  rfl

/-- Of two statements that a text starts with, neither goes further than the other if the object of
one is a literal. A label may go further, over a point that could also end its statement. -/
theorem StatementText.unique {text text' rest rest' : List Char} {t t' : Triple}
    (h : StatementText text t) (h' : StatementText text' t') (heq : text ++ rest = text' ++ rest')
    (hliteral : t.object.isLiteral = true) : t = t' ∧ text = text' := by
  have htexts : rest = rest' → text = text' := by
    rintro rfl
    exact List.append_cancel_right heq
  obtain ⟨hsubject, hfirst, hpredicate, hsecond, hobject, hthird⟩ := h
  obtain ⟨hsubject', hfirst', hpredicate', hsecond', hobject', hthird'⟩ := h'
  simp only [List.append_assoc, List.singleton_append] at heq
  obtain ⟨rfl, hsubject⟩ := hsubject.unique hsubject' (endsLabel_predicate hfirst hpredicate)
    (endsLabel_predicate hfirst' hpredicate') heq
  obtain ⟨rfl, hpredicate⟩ := hpredicate.unique hpredicate' hfirst hfirst' hsubject
  have hobjects := congrArg skipBlanks hpredicate
  rw [hobject.skipBlanks_append hsecond, hobject'.skipBlanks_append hsecond'] at hobjects
  cases hobject with
  | node hnode =>
    rw [hnode.isLiteral] at hliteral
    cases hliteral
  | literal hobject =>
    cases hobject' with
    | node hnode' =>
      obtain ⟨front, rfl⟩ := hobject.start
      obtain ⟨c, front', rfl, rfl | rfl⟩ := hnode'.start <;> cases hobjects
    | literal hobject' =>
      obtain ⟨rfl, hrest⟩ := hobject.unique hobject' hthird hthird' hobjects
      exact ⟨rfl, htexts hrest⟩

/-! ## Lines -/

/-- A line is read as what it is derived as. -/
theorem readLine?_eq_some_iff {line : List Char} (hline : OnOneLine line) {t : Option Triple} :
    readLine? line = some t ↔ LineText line t := by
  constructor
  · intro h
    unfold readLine? at h
    by_cases hremark : isRemark line = true
    · rw [if_pos hremark] at h
      cases h
      exact .remark ((isRemark_iff hline).1 hremark)
    rw [if_neg hremark] at h
    obtain ⟨⟨u, rest⟩, hstatement, h⟩ := Option.bind_eq_some_iff.1 h
    dsimp only at h
    split_ifs at h with hrest
    cases h
    obtain ⟨blanks, hblanks, heq⟩ := exists_blanks line
    obtain ⟨text, htext, hskip⟩ := exists_statementText_of_readStatement? hstatement
    rw [hskip] at heq
    subst heq
    refine .statement hblanks htext ((isRemark_iff fun c hc ↦ hline c ?_).1 hrest)
    exact List.mem_append_right _ (List.mem_append_right _ hc)
  · rintro (hremark | @⟨blanks, text, remark, t, hblanks, htext, hremark⟩)
    · rw [readLine?, if_pos ((isRemark_iff hline).2 hremark)]
    · have hrest := (isRemark_iff fun c hc ↦ hline c
        (List.mem_append_right _ (List.mem_append_right _ hc))).2 hremark
      obtain ⟨c, rest, hstart, hc⟩ := htext.start
      have hskip : skipBlanks (blanks ++ (text ++ remark)) = text ++ remark := by
        rw [skipBlanks_append hblanks, hstart]
        rcases hc with rfl | rfl <;> rfl
      have hstatement : isRemark (blanks ++ (text ++ remark)) = false := by
        rw [isRemark, hskip, hstart]
        rcases hc with rfl | rfl <;> rfl
      rw [readLine?, hstatement, if_neg Bool.false_ne_true, hskip, htext.read hremark]
      dsimp only [Option.bind_eq_bind, Option.bind_some]
      rw [if_pos hrest]

/-! ## Documents -/

/-- A text has an end of a line or none. -/
theorem onOneLine_or_exists_line (text : List Char) :
    OnOneLine text ∨ ∃ line lineEnd rest, text = line ++ lineEnd :: rest ∧ OnOneLine line ∧
      isLineEnd lineEnd = true := by
  induction text with
  | nil => exact .inl onOneLine_nil
  | cons c text ih =>
    cases hc : isLineEnd c with
    | true => exact .inr ⟨[], c, text, rfl, onOneLine_nil, hc⟩
    | false =>
      rcases ih with htext | ⟨line, lineEnd, rest, rfl, hline, hend⟩
      · exact .inl (htext.cons hc)
      · exact .inr ⟨c :: line, lineEnd, rest, rfl, hline.cons hc, hend⟩

theorem splitOnP_of_onOneLine {line : List Char} (h : OnOneLine line) :
    line.splitOnP isLineEnd = [line] :=
  List.splitOnP_eq_singleton fun c hc ↦ h c hc

theorem readLines?_cons_eq_some_iff {line : List Char} {lines : List (List Char)}
    {ts : List Triple} :
    readLines? (line :: lines) = some ts ↔ ∃ t us, readLine? line = some t ∧
      readLines? lines = some us ∧ ts = t.toList ++ us := by
  rw [readLines?_cons]
  constructor
  · intro h
    obtain ⟨t, ht, h⟩ := Option.bind_eq_some_iff.1 h
    obtain ⟨us, hus, h⟩ := Option.bind_eq_some_iff.1 h
    exact ⟨t, us, ht, hus, (Option.some.inj h).symm⟩
  · rintro ⟨t, us, ht, hus, rfl⟩
    rw [ht, hus]
    rfl

theorem DocumentText.read {text : List Char} {ts : List Triple} (h : DocumentText text ts) :
    readLines? (text.splitOnP isLineEnd) = some ts := by
  induction h with
  | last hline =>
    rw [splitOnP_of_onOneLine hline.onOneLine]
    exact readLines?_cons_eq_some_iff.2
      ⟨_, [], (readLine?_eq_some_iff hline.onOneLine).2 hline, rfl, (List.append_nil _).symm⟩
  | line hline hend _ ih =>
    rw [List.splitOnP_append_cons_of_forall_mem hline.onOneLine _ hend]
    exact readLines?_cons_eq_some_iff.2
      ⟨_, _, (readLine?_eq_some_iff hline.onOneLine).2 hline, ih, rfl⟩

theorem documentText_of_read {text : List Char} {ts : List Triple}
    (h : readLines? (text.splitOnP isLineEnd) = some ts) : DocumentText text ts := by
  induction hlength : text.length using Nat.strongRecOn generalizing text ts with
  | ind length ih =>
    rcases onOneLine_or_exists_line text with hline | ⟨line, lineEnd, rest, rfl, hline, hend⟩
    · rw [splitOnP_of_onOneLine hline] at h
      obtain ⟨t, us, ht, hus, rfl⟩ := readLines?_cons_eq_some_iff.1 h
      obtain rfl : us = [] := (Option.some.inj hus).symm
      rw [List.append_nil]
      exact .last ((readLine?_eq_some_iff hline).1 ht)
    · rw [List.splitOnP_append_cons_of_forall_mem hline _ hend] at h
      obtain ⟨t, us, ht, hus, rfl⟩ := readLines?_cons_eq_some_iff.1 h
      have hshorter : rest.length < length := by
        rw [← hlength, List.length_append, List.length_cons]
        omega
      exact .line ((readLine?_eq_some_iff hline).1 ht) hend (ih _ hshorter hus rfl)

/-- The reader gives the statements as which a text is derived, and nothing for other texts. -/
theorem read?_eq_some_iff {text : String} {ts : List Triple} :
    read? text = some ts ↔ DocumentText text.toList ts :=
  ⟨documentText_of_read, DocumentText.read⟩

end OntoGraph.Rdf.NTriples
