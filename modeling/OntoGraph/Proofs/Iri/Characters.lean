import OntoGraph.Iri.Grammar
import OntoGraph.Proofs.Text.Scan

/-!
# The characters of IRIs

Whatever the rule for its authority, an IRI consists of characters that RFC 3987 lets stand in it:
letters, digits, the marks of its parts, percent signs and what lies beyond ASCII. No blank, no
control character, no quote and no angle bracket is among them.
-/

namespace OntoGraph.Iri

open Number Text

def isIriCharacter (c : Char) : Bool :=
  isUnreserved c || isSubDelimiter c || isPrivate c || ":/?#[]@%".toList.contains c

def AllIriCharacters (cs : List Char) : Prop := ∀ c ∈ cs, isIriCharacter c = true

variable {cs : List Char} {c : Char}

/-! ## Classes of characters -/

theorem isIriCharacter_of_isUnreserved (h : isUnreserved c = true) : isIriCharacter c = true := by
  simp [isIriCharacter, h]

theorem isIriCharacter_of_isLetter (h : isLetter c = true) : isIriCharacter c = true :=
  isIriCharacter_of_isUnreserved (by simp [isUnreserved, h])

theorem isIriCharacter_of_isAsciiDigit (h : isAsciiDigit c = true) : isIriCharacter c = true :=
  isIriCharacter_of_isUnreserved (by simp [isUnreserved, h])

theorem isIriCharacter_of_isSubDelimiter (h : isSubDelimiter c = true) :
    isIriCharacter c = true := by
  simp [isIriCharacter, h]

theorem isIriCharacter_of_isPrivate (h : isPrivate c = true) : isIriCharacter c = true := by
  simp [isIriCharacter, h]

theorem isIriCharacter_of_isUserChar (h : isUserChar c = true) : isIriCharacter c = true := by
  simp only [isUserChar, Bool.or_eq_true, beq_iff_eq] at h
  rcases h with (h | h) | rfl
  · exact isIriCharacter_of_isUnreserved h
  · exact isIriCharacter_of_isSubDelimiter h
  · decide

theorem isIriCharacter_of_isPathChar (h : isPathChar c = true) : isIriCharacter c = true := by
  simp only [isPathChar, Bool.or_eq_true, beq_iff_eq] at h
  rcases h with ((h | h) | rfl) | rfl
  · exact isIriCharacter_of_isUnreserved h
  · exact isIriCharacter_of_isSubDelimiter h
  · decide
  · decide

theorem isIriCharacter_of_isHexDigit (h : isHexDigit c = true) : isIriCharacter c = true := by
  unfold isHexDigit hexDigit? at h
  split_ifs at h with hdigit hlower hupper
  · exact isIriCharacter_of_isAsciiDigit (by simp [isAsciiDigit, hdigit])
  · have hle : c ≤ 'z' := Char.le_trans hlower.2 (by decide)
    exact isIriCharacter_of_isLetter (by simp [isLetter, hlower.1, hle])
  · have hle : c ≤ 'Z' := Char.le_trans hupper.2 (by decide)
    exact isIriCharacter_of_isLetter (by simp [isLetter, hupper.1, hle])
  · cases h

/-! ## Texts -/

theorem allIriCharacters_of_all {p : Char → Bool}
    (hp : ∀ c, p c = true → isIriCharacter c = true) (h : cs.all p = true) :
    AllIriCharacters cs := fun c hc ↦ hp c (List.all_eq_true.1 h c hc)

theorem allIriCharacters_nil : AllIriCharacters [] := by
  rintro _ ⟨⟩

theorem AllIriCharacters.cons (hc : isIriCharacter c = true) (h : AllIriCharacters cs) :
    AllIriCharacters (c :: cs) := List.forall_mem_cons.2 ⟨hc, h⟩

theorem AllIriCharacters.append {ds : List Char} (h : AllIriCharacters cs)
    (h' : AllIriCharacters ds) : AllIriCharacters (cs ++ ds) := List.forall_mem_append.2 ⟨h, h'⟩

theorem allIriCharacters_of_allEncoded {p : Char → Bool}
    (hp : ∀ c, p c = true → isIriCharacter c = true) (h : allEncoded p cs = true) :
    AllIriCharacters cs := by
  induction cs using allEncoded.induct with
  | case1 => exact allIriCharacters_nil
  | case2 a b rest ih =>
    simp only [allEncoded, Bool.and_eq_true] at h
    obtain ⟨⟨ha, hb⟩, hrest⟩ := h
    exact .cons (by decide) (.cons (isIriCharacter_of_isHexDigit ha)
      (.cons (isIriCharacter_of_isHexDigit hb) (ih hrest)))
  | case3 c rest hnot ih =>
    rw [allEncoded] at h
    · simp only [Bool.and_eq_true] at h
      exact .cons (hp c h.1.2) (ih h.2)
    · exact hnot

theorem splitOn_cons (separator d : Char) (cs : List Char) :
    splitOn separator (d :: cs) =
      if d = separator then [] :: splitOn separator cs
      else match splitOn separator cs with
        | part :: parts => (d :: part) :: parts
        | [] => [[d]] := rfl

/-- Every character of a text that is split is a separator or stands in one of the parts. -/
theorem mem_splitOn (separator : Char) (h : c ∈ cs) :
    c = separator ∨ ∃ part ∈ splitOn separator cs, c ∈ part := by
  induction cs with
  | nil => cases h
  | cons d cs ih =>
    rw [splitOn_cons]
    rcases List.mem_cons.1 h with rfl | h
    · by_cases hc : c = separator
      · exact .inl hc
      rw [if_neg hc]
      cases splitOn separator cs with
      | nil => exact .inr ⟨_, List.mem_cons_self, List.mem_cons_self⟩
      | cons first parts => exact .inr ⟨_, List.mem_cons_self, List.mem_cons_self⟩
    rcases ih h with hc | ⟨part, hpart, hc⟩
    · exact .inl hc
    by_cases hd : d = separator
    · rw [if_pos hd]
      exact .inr ⟨part, List.mem_cons_of_mem _ hpart, hc⟩
    rw [if_neg hd]
    cases hparts : splitOn separator cs with
    | nil =>
      rw [hparts] at hpart
      cases hpart
    | cons first parts =>
      rw [hparts] at hpart
      rcases List.mem_cons.1 hpart with rfl | hpart
      · exact .inr ⟨d :: part, List.mem_cons_self, List.mem_cons_of_mem _ hc⟩
      · exact .inr ⟨part, List.mem_cons_of_mem _ hpart, hc⟩

theorem allIriCharacters_of_splitOn (separator : Char) (hsep : isIriCharacter separator = true)
    (h : ∀ part ∈ splitOn separator cs, AllIriCharacters part) : AllIriCharacters cs := by
  intro c hc
  rcases mem_splitOn separator hc with rfl | ⟨part, hpart, hc⟩
  · exact hsep
  · exact h part hpart c hc

/-! ## Addresses -/

theorem allIriCharacters_of_isHexGroup (h : isHexGroup cs = true) : AllIriCharacters cs := by
  simp only [isHexGroup, Bool.and_eq_true] at h
  exact allIriCharacters_of_all (fun _ ↦ isIriCharacter_of_isHexDigit) h.2

theorem allIriCharacters_of_isIpv4 (h : isIpv4 cs = true) : AllIriCharacters cs := by
  simp only [isIpv4, Bool.and_eq_true, List.all_eq_true] at h
  refine allIriCharacters_of_splitOn '.' (by decide) fun part hpart ↦ ?_
  have hoctet := h.2 part hpart
  simp only [isOctet, Bool.and_eq_true] at hoctet
  exact allIriCharacters_of_all (fun _ ↦ isIriCharacter_of_isAsciiDigit) hoctet.1.1.1.2

theorem allIriCharacters_of_countGroups? {tail : Bool} {parts : List (List Char)} {n : Nat}
    (h : countGroups? tail parts = some n) : ∀ part ∈ parts, AllIriCharacters part := by
  induction parts generalizing n with
  | nil => exact fun _ hpart ↦ absurd hpart List.not_mem_nil
  | cons part parts ih =>
    cases parts with
    | nil =>
      rw [countGroups?] at h
      refine List.forall_mem_singleton.2 ?_
      split_ifs at h with hgroup haddress
      · exact allIriCharacters_of_isHexGroup hgroup
      · exact allIriCharacters_of_isIpv4 (Bool.and_eq_true_iff.1 haddress).2
    | cons next parts =>
      rw [countGroups?] at h
      · split_ifs at h with hgroup
        obtain ⟨rest, hrest, -⟩ := Option.map_eq_some_iff.1 h
        exact List.forall_mem_cons.2 ⟨allIriCharacters_of_isHexGroup hgroup, ih hrest⟩
      · exact fun heq ↦ List.cons_ne_nil _ _ heq

theorem allIriCharacters_of_pieces {tail : Bool} {n : Nat}
    (h : countGroups? tail (pieces cs) = some n) : AllIriCharacters cs := by
  unfold pieces at h
  by_cases hnil : cs = []
  · rw [hnil]
    exact allIriCharacters_nil
  · rw [if_neg hnil] at h
    exact allIriCharacters_of_splitOn ':' (by decide) (allIriCharacters_of_countGroups? h)

theorem eq_append_of_splitAtDoubleColon? {front back : List Char}
    (h : splitAtDoubleColon? cs = some (front, back)) : cs = front ++ ':' :: ':' :: back := by
  induction cs using splitAtDoubleColon?.induct generalizing front with
  | case1 rest =>
    cases h
    rfl
  | case2 c rest hnot ih =>
    rw [splitAtDoubleColon?] at h
    · obtain ⟨⟨before, after⟩, hrest, heq⟩ := Option.map_eq_some_iff.1 h
      cases heq
      rw [ih hrest, List.cons_append]
    · exact hnot
  | case3 => cases h

theorem allIriCharacters_of_isIpv6 (h : isIpv6 cs = true) : AllIriCharacters cs := by
  unfold isIpv6 at h
  rcases hsplit : splitAtDoubleColon? cs with _ | ⟨front, back⟩
  · rw [hsplit] at h
    exact allIriCharacters_of_pieces (beq_iff_eq.1 h)
  rw [hsplit] at h
  dsimp only at h
  rw [eq_append_of_splitAtDoubleColon? hsplit]
  cases hfront : countGroups? false (pieces front) with
  | none =>
    rw [hfront] at h
    cases h
  | some m =>
    cases hback : countGroups? true (pieces back) with
    | none =>
      rw [hfront, hback] at h
      cases h
    | some n =>
      exact .append (allIriCharacters_of_pieces hfront)
        (.cons (by decide) (.cons (by decide) (allIriCharacters_of_pieces hback)))

theorem allIriCharacters_of_isIpFuture (h : isIpFuture cs = true) : AllIriCharacters cs := by
  cases cs with
  | nil => cases h
  | cons c rest =>
    simp only [isIpFuture, Bool.and_eq_true, Bool.or_eq_true, beq_iff_eq] at h
    obtain ⟨hmark, hrest⟩ := h
    have hc : isIriCharacter c = true := by rcases hmark with rfl | rfl <;> decide
    refine .cons hc ?_
    rcases hsplit : splitOnce? '.' rest with _ | ⟨version, address⟩
    · rw [hsplit] at hrest
      cases hrest
    · rw [hsplit] at hrest
      simp only [Bool.and_eq_true] at hrest
      rw [(splitOnce?_eq_some_iff.1 hsplit).1]
      refine .append (allIriCharacters_of_all (fun _ ↦ isIriCharacter_of_isHexDigit)
        hrest.1.1.2) (.cons (by decide) (allIriCharacters_of_all (fun d hd ↦ ?_) hrest.2))
      simp only [Bool.or_eq_true, Bool.and_eq_true, beq_iff_eq] at hd
      rcases hd with (⟨hd, -⟩ | hd) | rfl
      · exact isIriCharacter_of_isUnreserved hd
      · exact isIriCharacter_of_isSubDelimiter hd
      · decide

/-! ## Authorities -/

theorem allIriCharacters_of_digits (h : cs.all isAsciiDigit = true) : AllIriCharacters cs :=
  allIriCharacters_of_all (fun _ ↦ isIriCharacter_of_isAsciiDigit) h

theorem allIriCharacters_of_isBracketedHost (h : isBracketedHost cs = true) :
    AllIriCharacters cs := by
  fun_cases isBracketedHost cs with
  | case1 rest address after hsplit =>
    rw [isBracketedHost, hsplit] at h
    obtain ⟨haddress, hafter⟩ := Bool.and_eq_true_iff.1 h
    rw [(splitOnce?_eq_some_iff.1 hsplit).1]
    refine .cons (by decide) (.append ?_ (.cons (by decide) ?_))
    · rcases Bool.or_eq_true_iff.1 haddress with haddress | haddress
      · exact allIriCharacters_of_isIpv6 haddress
      · exact allIriCharacters_of_isIpFuture haddress
    · split at hafter
      · exact allIriCharacters_nil
      · exact .cons (by decide) (allIriCharacters_of_digits hafter)
      · cases hafter
  | case2 rest hsplit =>
    rw [isBracketedHost, hsplit] at h
    cases h
  | case3 cs hbracket => simp [isBracketedHost] at h

/-- An authority consists of its user and its host. -/
theorem allIriCharacters_of_splitUser (huser : AllIriCharacters (splitUser cs).1)
    (hhost : AllIriCharacters (splitUser cs).2) : AllIriCharacters cs := by
  unfold splitUser at huser hhost
  cases hsplit : splitOnce? '@' cs with
  | none =>
    rw [hsplit] at hhost
    exact hhost
  | some parts =>
    rw [hsplit] at huser hhost
    rw [(splitOnce?_eq_some_iff.1 hsplit).1]
    exact huser.append (.cons (by decide) hhost)

/-- A host with a port consists of the two. -/
theorem allIriCharacters_of_splitPort (hname : AllIriCharacters (splitPort cs).1)
    (hport : AllIriCharacters (splitPort cs).2) : AllIriCharacters cs := by
  unfold splitPort at hname hport
  cases hsplit : splitOnce? ':' cs with
  | none =>
    rw [hsplit] at hname
    exact hname
  | some parts =>
    rw [hsplit] at hname hport
    rw [(splitOnce?_eq_some_iff.1 hsplit).1]
    exact hname.append (.cons (by decide) hport)

theorem allIriCharacters_of_isAuthority {rule : AuthorityRule} (h : isAuthority rule cs = true) :
    AllIriCharacters cs := by
  unfold isAuthority at h
  dsimp only at h
  by_cases hhost : isBracketedHost (splitUser cs).2 = true
  · rw [if_pos hhost] at h
    exact allIriCharacters_of_splitUser
      (allIriCharacters_of_allEncoded (fun _ ↦ isIriCharacter_of_isUserChar) h)
      (allIriCharacters_of_isBracketedHost hhost)
  · rw [if_neg hhost] at h
    cases rule with
    | standard =>
      simp only [Bool.and_eq_true] at h
      obtain ⟨⟨huser, hname⟩, hport⟩ := h
      refine allIriCharacters_of_splitUser
        (allIriCharacters_of_allEncoded (fun _ ↦ isIriCharacter_of_isUserChar) huser)
        (allIriCharacters_of_splitPort
          (allIriCharacters_of_allEncoded (fun c hc ↦ ?_) hname) (allIriCharacters_of_digits hport))
      rcases Bool.or_eq_true_iff.1 hc with hc | hc
      · exact isIriCharacter_of_isUnreserved hc
      · exact isIriCharacter_of_isSubDelimiter hc
    | numericPort =>
      simp only [Bool.and_eq_true] at h
      obtain ⟨⟨huser, hname⟩, hport⟩ := h
      exact allIriCharacters_of_splitUser
        (allIriCharacters_of_allEncoded (fun _ ↦ isIriCharacter_of_isPathChar) huser)
        (allIriCharacters_of_splitPort
          (allIriCharacters_of_allEncoded (fun _ ↦ isIriCharacter_of_isPathChar) hname)
          (allIriCharacters_of_digits hport))
    | pathCharacters =>
      exact allIriCharacters_of_allEncoded (fun _ ↦ isIriCharacter_of_isPathChar) h

/-! ## References -/

theorem allIriCharacters_of_isScheme (h : isScheme cs = true) : AllIriCharacters cs := by
  cases cs with
  | nil => cases h
  | cons c rest =>
    obtain ⟨hc, hrest⟩ := Bool.and_eq_true_iff.1 h
    refine .cons (isIriCharacter_of_isLetter hc) (allIriCharacters_of_all (fun d hd ↦ ?_) hrest)
    simp only [Bool.or_eq_true] at hd
    rcases hd with (hd | hd) | hd
    · exact isIriCharacter_of_isLetter hd
    · exact isIriCharacter_of_isAsciiDigit hd
    · have hmarks : "+-.".toList.all isIriCharacter = true := by decide
      exact List.all_eq_true.1 hmarks d (List.contains_iff_mem.1 hd)

/-! ## Parts -/

section

variable {ends cs front back : List Char}

theorem eq_of_splitAtAny (h : splitAtAny ends cs = (front, back)) : cs = front ++ back := by
  cases h
  exact List.takeWhile_append_dropWhile.symm

/-- What is left of a text starts with one of the marks at which it was split. -/
theorem head_mem_of_splitAtAny {c : Char} (h : splitAtAny ends cs = (front, c :: back)) :
    c ∈ ends := by
  have hhead := List.head?_dropWhile_not (fun c ↦ !ends.contains c) cs
  rw [(Prod.mk.inj h).2] at hhead
  simpa using hhead

end

theorem Parts.toChars_eq (p : Parts) : p.toChars =
    p.scheme.elim [] (· ++ [':']) ++ p.authority.elim [] ('/' :: '/' :: ·) ++ p.path ++
      p.query.elim [] ('?' :: ·) ++ p.fragment.elim [] ('#' :: ·) := by
  rcases p with ⟨_ | _, _ | _, _, _ | _, _ | _⟩ <;> rfl

/-- The parts of a text make up the text. -/
@[simp] theorem toChars_ofChars (cs : List Char) : (Parts.ofChars cs).toChars = cs := by
  fun_cases Parts.ofChars cs with
  | case1 scheme afterScheme hscheme authority afterAuthority hauthority path afterPath hpath
      query afterQuery hquery fragment =>
    have hcs : scheme.elim [] (· ++ [':']) ++ afterScheme = cs := by
      split at hscheme
      case h_1 c name rest hsplit =>
        cases hscheme
        rw [eq_of_splitAtAny hsplit]
        simp
      case h_2 =>
        cases hscheme
        rfl
    have hafterScheme : authority.elim [] ('/' :: '/' :: ·) ++ afterAuthority = afterScheme := by
      split at hauthority
      case h_1 rest =>
        cases hsplit : splitAtAny ['/', '?', '#'] rest
        rw [hsplit] at hauthority
        cases hauthority
        rw [eq_of_splitAtAny hsplit]
        rfl
      case h_2 =>
        cases hauthority
        rfl
    have hafterPath : query.elim [] ('?' :: ·) ++ afterQuery = afterPath := by
      split at hquery
      case h_1 rest =>
        cases hsplit : splitAtAny ['#'] rest
        rw [hsplit] at hquery
        cases hquery
        rw [eq_of_splitAtAny hsplit]
        rfl
      case h_2 =>
        cases hquery
        rfl
    -- What follows the query starts with the mark of a fragment, if anything follows.
    have hhash : ∀ c rest, afterQuery = c :: rest → c = '#' := by
      rintro c rest rfl
      split at hquery
      case h_1 later =>
        cases hsplit : splitAtAny ['#'] later
        rw [hsplit] at hquery
        cases hquery
        simpa using head_mem_of_splitAtAny hsplit
      case h_2 hno =>
        cases hquery
        have hmark := head_mem_of_splitAtAny hpath
        simp only [List.mem_cons, List.not_mem_nil, or_false] at hmark
        exact hmark.resolve_left fun heq ↦ hno rest (by rw [heq])
    rw [Parts.toChars_eq]
    simp only [List.append_assoc]
    cases afterQuery with
    | nil =>
      have hnone : fragment = none := rfl
      rw [hnone, Option.elim_none, hafterPath, ← eq_of_splitAtAny hpath, hafterScheme, hcs]
    | cons c rest =>
      obtain rfl := hhash c rest rfl
      have hsome : fragment = some rest := rfl
      rw [hsome, Option.elim_some, hafterPath, ← eq_of_splitAtAny hpath, hafterScheme, hcs]

/-- A part with the mark before it, where the part is optional. -/
theorem AllIriCharacters.marked {mark : List Char} (hmark : AllIriCharacters mark)
    {ok : List Char → Bool} (hok : ∀ cs, ok cs = true → AllIriCharacters cs)
    {part : Option (List Char)} (h : part.all ok = true) :
    AllIriCharacters (part.elim [] (mark ++ ·)) := by
  cases part with
  | none => exact allIriCharacters_nil
  | some cs => exact hmark.append (hok cs h)

theorem allIriCharacters_of_isReference {rule : AuthorityRule} {p : Parts}
    (h : p.isReference rule = true) : AllIriCharacters p.toChars := by
  have hpathChar : ∀ c, isPathChar c = true ∨ c = '/' → isIriCharacter c = true := by
    rintro c (hc | rfl)
    · exact isIriCharacter_of_isPathChar hc
    · decide
  simp only [Parts.isReference, Bool.and_eq_true] at h
  obtain ⟨⟨⟨⟨⟨hscheme, hauthority⟩, hpath⟩, -⟩, hquery⟩, hfragment⟩ := h
  rw [Parts.toChars_eq]
  refine .append (.append (.append (.append ?_ ?_) ?_) ?_) ?_
  · cases hpart : p.scheme with
    | none => exact allIriCharacters_nil
    | some scheme =>
      rw [hpart] at hscheme
      exact (allIriCharacters_of_isScheme hscheme).append (.cons (by decide) allIriCharacters_nil)
  · have hslashes : AllIriCharacters ['/', '/'] :=
      .cons (by decide) (.cons (by decide) allIriCharacters_nil)
    exact hslashes.marked (fun _ ↦ allIriCharacters_of_isAuthority) hauthority
  · exact allIriCharacters_of_allEncoded (fun c hc ↦ hpathChar c (by simpa using hc)) hpath
  · have hmark : AllIriCharacters ['?'] := .cons (by decide) allIriCharacters_nil
    refine hmark.marked (fun _ ↦ allIriCharacters_of_allEncoded fun c hc ↦ ?_) hquery
    simp only [Bool.or_eq_true, beq_iff_eq] at hc
    rcases hc with ((hc | hc) | hc) | rfl
    · exact hpathChar c (.inl hc)
    · exact isIriCharacter_of_isPrivate hc
    · exact hpathChar c (.inr hc)
    · decide
  · have hmark : AllIriCharacters ['#'] := .cons (by decide) allIriCharacters_nil
    refine hmark.marked (fun _ ↦ allIriCharacters_of_allEncoded fun c hc ↦ ?_) hfragment
    simp only [Bool.or_eq_true, beq_iff_eq] at hc
    rcases hc with (hc | hc) | rfl
    · exact hpathChar c (.inl hc)
    · exact hpathChar c (.inr hc)
    · decide

/-- An IRI consists of the characters of IRIs, whatever the rule for its authority. -/
theorem allIriCharacters_of_isAbsolute {rule : AuthorityRule} {s : String}
    (h : isAbsolute rule s = true) : AllIriCharacters s.toList := by
  have hchars := allIriCharacters_of_isReference (Bool.and_eq_true_iff.1 h).2
  rwa [toChars_ofChars] at hchars

end OntoGraph.Iri
