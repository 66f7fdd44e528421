import OntoGraph.Json.Printer
import OntoGraph.Json.Reader
import OntoGraph.Proofs.Text.Scan

/-!
# Reading printed JSON

The reader takes the printed form of a value for that value, and goes on behind it. So a value
whose numbers are spelled by the grammar is read back from its indented text.
-/

namespace OntoGraph.Json

open Text

/-! ## Strings -/

/-- A control character is written as its number, in four digits. -/
theorem hexNumber?_control {n : Nat} (h : n < 0x20) :
    (List.replicate (4 - (hexadecimal n).length) '0' ++ hexadecimal n).length = 4 ∧
      hexNumber? (List.replicate (4 - (hexadecimal n).length) '0' ++ hexadecimal n) = some n := by
  have hcontrol : ∀ n : Fin 0x20,
      (List.replicate (4 - (hexadecimal n).length) '0' ++ hexadecimal n).length = 4 ∧
        hexNumber? (List.replicate (4 - (hexadecimal n).length) '0' ++ hexadecimal n) =
          some n.val := by decide
  exact hcontrol ⟨n, h⟩

/-- The reader of strings takes the printed form of a character for that character. -/
@[simp] theorem readString?_escapedCharacter (fuel : Nat) (read : List Char) (c : Char)
    (rest : List Char) :
    readString? (fuel + 1) read (escapedCharacter c ++ rest) =
      readString? fuel (c :: read) rest := by
  unfold escapedCharacter
  split
  case h_1 => rfl
  case h_2 => rfl
  case h_3 => rfl
  case h_4 => rfl
  case h_5 => rfl
  case h_6 => rfl
  case h_7 => rfl
  case h_8 hquote hbackslash _ _ _ _ _ =>
    split_ifs with hcontrol
    · obtain ⟨hlength, hvalue⟩ := hexNumber?_control hcontrol
      generalize hdigits : List.replicate (4 - (hexadecimal c.toNat).length) '0' ++
        hexadecimal c.toNat = digits at hlength hvalue
      have hescape : readUnicodeEscape? (digits ++ rest) = some (c, rest) := by
        unfold readUnicodeEscape?
        rw [takeHex?_append hlength hvalue]
        simp only [Option.bind_eq_bind, Option.bind_some]
        rw [if_neg (by omega), character?_toNat]
        rfl
      rw [List.append_assoc ['\\', 'u'], hdigits]
      change (readUnicodeEscape? (digits ++ rest)).bind
        (fun p ↦ readString? fuel (p.1 :: read) p.2) = _
      rw [hescape]
      rfl
    · rw [List.singleton_append, readString?, if_neg (not_or.2 ⟨hcontrol, hbackslash⟩)]
      · exact hquote
      · exact fun _ heq ↦ absurd heq hbackslash
      · exact fun _ _ heq ↦ absurd heq hbackslash

theorem readString?_flatMap (s rest : List Char) :
    ∀ (fuel : Nat) (read : List Char), s.length < fuel →
      readString? fuel read (s.flatMap escapedCharacter ++ '"' :: rest) =
        some (String.ofList (read.reverse ++ s), rest) := by
  induction s with
  | nil =>
    intro fuel read hfuel
    cases fuel with
    | zero => cases hfuel
    | succ fuel =>
      rw [List.append_nil]
      rfl
  | cons c s ih =>
    intro fuel read hfuel
    cases fuel with
    | zero => cases hfuel
    | succ fuel =>
      rw [List.flatMap_cons, List.append_assoc, readString?_escapedCharacter,
        ih fuel (c :: read) (by simpa using hfuel)]
      simp

theorem toList_stringText (s : String) :
    (stringText s).toList = '"' :: (s.toList.flatMap escapedCharacter ++ ['"']) := by
  simp [stringText]

theorem length_le_flatMap (s : List Char) : s.length ≤ (s.flatMap escapedCharacter).length := by
  have hcharacter : ∀ c, 1 ≤ (escapedCharacter c).length := by
    intro c
    unfold escapedCharacter
    split
    case h_8 =>
      split
      · simp
      · simp
    all_goals simp
  induction s with
  | nil => simp
  | cons c s ih =>
    have := hcharacter c
    rw [List.flatMap_cons, List.length_append, List.length_cons]
    omega

/-- A printed string is read back, after its opening quote. -/
theorem readString?_stringText (s : String) (rest : List Char) {fuel : Nat}
    (hfuel : (s.toList.flatMap escapedCharacter ++ '"' :: rest).length < fuel) :
    readString? fuel [] (s.toList.flatMap escapedCharacter ++ '"' :: rest) = some (s, rest) := by
  have hlength := length_le_flatMap s.toList
  rw [List.length_append] at hfuel
  rw [readString?_flatMap s.toList rest fuel [] (by omega), List.reverse_nil, List.nil_append,
    String.ofList_toList]

/-! ## White space -/

theorem toList_newLine (depth : Nat) :
    (newLine depth).toList = '\n' :: List.replicate (2 * depth) ' ' := by
  simp [newLine]

@[simp] theorem skipSpace_newLine (depth : Nat) (rest : List Char) :
    skipSpace ((newLine depth).toList ++ rest) = skipSpace rest := by
  refine List.dropWhile_append_of_pos fun c hc ↦ ?_
  rw [toList_newLine] at hc
  rcases List.mem_cons.1 hc with rfl | hc
  · rfl
  · rw [List.eq_of_mem_replicate hc]
    rfl

theorem skipSpace_cons {c : Char} (rest : List Char) (h : isSpace c = false) :
    skipSpace (c :: rest) = c :: rest :=
  List.dropWhile_cons_of_neg (by simp [h])

/-! ## Numbers -/

def isNumberCharacter (c : Char) : Bool :=
  Number.isAsciiDigit c || c == '.' || c == 'e' || c == 'E'

/-- Is the text a number by the grammar? -/
structure IsNumber (spelling : String) : Prop where
  starts : ∃ c ∈ spelling.toList.head?, c = '-' ∨ Number.isAsciiDigit c = true
  reads : ∀ rest, (∀ c ∈ rest.head?, isNumberCharacter c = false) →
    readNumber? (spelling.toList ++ rest) = some (spelling.toList, rest)

mutual

def numbers : Json → List String
  | .number spelling => [spelling]
  | .array items => numbersOfItems items
  | .object members => numbersOfMembers members
  | _ => []

def numbersOfItems : List Json → List String
  | [] => []
  | item :: items => numbers item ++ numbersOfItems items

def numbersOfMembers : List (String × Json) → List String
  | [] => []
  | (_, value) :: members => numbers value ++ numbersOfMembers members

end

/-- No other token starts like a number. -/
theorem not_token_of_starts {c : Char} (h : c = '-' ∨ Number.isAsciiDigit c = true) :
    isSpace c = false ∧ c ∉ ['\x7b', '\x7d', '[', ']', '"', 't', 'f', 'n'] := by
  constructor
  · refine Bool.eq_false_iff.2 fun hspace ↦ ?_
    simp only [isSpace, Bool.or_eq_true, beq_iff_eq] at hspace
    rcases hspace with ((rfl | rfl) | rfl) | rfl <;> revert h <;> decide
  · intro hmem
    simp only [List.mem_cons, List.not_mem_nil, or_false] at hmem
    rcases hmem with rfl | rfl | rfl | rfl | rfl | rfl | rfl | rfl <;> revert h <;> decide

theorem readValue?_number {fuel : Nat} {c : Char} (rest : List Char)
    (h : c = '-' ∨ Number.isAsciiDigit c = true) :
    readValue? (fuel + 1) (c :: rest) =
      (readNumber? (c :: rest)).map fun (digits, rest) ↦ (.number (String.ofList digits), rest) := by
  obtain ⟨hspace, htoken⟩ := not_token_of_starts h
  rw [readValue?, skipSpace_cons rest hspace]
  split
  case h_7 => rfl
  case h_1 heq | h_2 heq | h_3 heq | h_4 heq | h_5 heq | h_6 heq =>
    cases heq
    exact absurd (by decide) htoken

/-! ## Values -/

theorem toList_indentedAt_array (depth : Nat) (item : Json) (items : List Json) :
    (indentedAt depth (.array (item :: items))).toList =
      '[' :: ((newLine (depth + 1)).toList ++ ((indentedItems (depth + 1) (item :: items)).toList ++
        ((newLine depth).toList ++ [']']))) := by
  simp [indentedAt]

theorem toList_indentedAt_object (depth : Nat) (member : String × Json)
    (members : List (String × Json)) :
    (indentedAt depth (.object (member :: members))).toList =
      '\x7b' :: ((newLine (depth + 1)).toList ++
        ((indentedMembers (depth + 1) (member :: members)).toList ++
          ((newLine depth).toList ++ ['\x7d']))) := by
  simp [indentedAt]

theorem toList_indentedItems_cons (depth : Nat) (item next : Json) (items : List Json) :
    (indentedItems depth (item :: next :: items)).toList =
      (indentedAt depth item).toList ++ ',' :: ((newLine depth).toList ++
        (indentedItems depth (next :: items)).toList) := by
  simp [indentedItems]

theorem toList_indentedMembers_singleton (depth : Nat) (name : String) (value : Json) :
    (indentedMembers depth [(name, value)]).toList =
      (stringText name).toList ++ ':' :: ' ' :: (indentedAt depth value).toList := by
  simp [indentedMembers]

theorem toList_indentedMembers_cons (depth : Nat) (name : String) (value : Json)
    (next : String × Json) (members : List (String × Json)) :
    (indentedMembers depth ((name, value) :: next :: members)).toList =
      (stringText name).toList ++ ':' :: ' ' :: ((indentedAt depth value).toList ++
        ',' :: ((newLine depth).toList ++ (indentedMembers depth (next :: members)).toList)) := by
  simp [indentedMembers]

/-- A printed value starts with a character that is neither white space nor closes an array. -/
theorem head_indentedAt (depth : Nat) {json : Json} (h : ∀ n ∈ json.numbers, IsNumber n) :
    ∃ c cs, (indentedAt depth json).toList = c :: cs ∧ isSpace c = false ∧ c ≠ ']' := by
  cases json with
  | null => exact ⟨'n', ['u', 'l', 'l'], by simp [indentedAt], by decide, by decide⟩
  | bool b =>
    cases b with
    | false => exact ⟨'f', ['a', 'l', 's', 'e'], by simp [indentedAt], by decide, by decide⟩
    | true => exact ⟨'t', ['r', 'u', 'e'], by simp [indentedAt], by decide, by decide⟩
  | number spelling =>
    obtain ⟨c, hc, hstarts⟩ := (h spelling (by simp [numbers])).starts
    obtain ⟨hspace, htoken⟩ := not_token_of_starts hstarts
    obtain ⟨cs, hcs⟩ := List.head?_eq_some_iff.1 hc
    refine ⟨c, cs, by rw [indentedAt, hcs], hspace, ?_⟩
    rintro rfl
    exact absurd (by decide) htoken
  | string s => exact ⟨'"', _, by rw [indentedAt, toList_stringText], by decide, by decide⟩
  | array items =>
    cases items with
    | nil => exact ⟨'[', [']'], by simp [indentedAt], by decide, by decide⟩
    | cons item items => exact ⟨'[', _, toList_indentedAt_array _ _ _, by decide, by decide⟩
  | object members =>
    cases members with
    | nil => exact ⟨'\x7b', ['\x7d'], by simp [indentedAt], by decide, by decide⟩
    | cons member members =>
      exact ⟨'\x7b', _, toList_indentedAt_object _ _ _, by decide, by decide⟩

theorem head_indentedItems (depth : Nat) {item : Json} (items : List Json)
    (h : ∀ n ∈ item.numbers, IsNumber n) :
    ∃ c cs, (indentedItems depth (item :: items)).toList = c :: cs ∧ isSpace c = false ∧
      c ≠ ']' := by
  obtain ⟨c, cs, hcs, hc⟩ := head_indentedAt depth h
  cases items with
  | nil => exact ⟨c, cs, by rw [indentedItems, hcs], hc⟩
  | cons next items =>
    exact ⟨c, _, by rw [toList_indentedItems_cons, hcs, List.cons_append], hc⟩

theorem head_indentedMembers (depth : Nat) (member : String × Json)
    (members : List (String × Json)) :
    ∃ cs, (indentedMembers depth (member :: members)).toList = '"' :: cs := by
  cases members with
  | nil =>
    rw [toList_indentedMembers_singleton, toList_stringText]
    exact ⟨_, rfl⟩
  | cons next members =>
    rw [toList_indentedMembers_cons, toList_stringText]
    exact ⟨_, rfl⟩

/-- White space before a value is no part of it. -/
theorem readValue?_of_skipSpace {input input' : List Char} (h : skipSpace input = skipSpace input')
    (fuel : Nat) : readValue? fuel input = readValue? fuel input' := by
  cases fuel with
  | zero => rw [readValue?, readValue?]
  | succ fuel => rw [readValue?, readValue?, h]

@[simp] theorem readItems?_newLine (fuel depth : Nat) (input : List Char) :
    readItems? fuel ((newLine depth).toList ++ input) = readItems? fuel input := by
  cases fuel with
  | zero => rw [readItems?, readItems?]
  | succ fuel =>
    rw [readItems?, readItems?, readValue?_of_skipSpace (skipSpace_newLine depth input)]

@[simp] theorem readMembers?_newLine (fuel depth : Nat) (input : List Char) :
    readMembers? fuel ((newLine depth).toList ++ input) = readMembers? fuel input := by
  cases fuel with
  | zero => rw [readMembers?, readMembers?]
  | succ fuel => rw [readMembers?, readMembers?, skipSpace_newLine]

theorem not_number_of_newLine (depth : Nat) (rest : List Char) :
    ∀ c ∈ ((newLine depth).toList ++ rest).head?, isNumberCharacter c = false := by
  intro c hc
  rw [toList_newLine] at hc
  cases hc
  decide

theorem not_number_of_comma (rest : List Char) :
    ∀ c ∈ (',' :: rest).head?, isNumberCharacter c = false := by
  rintro _ ⟨⟩
  decide

theorem readValue?_array {fuel : Nat} {input cs : List Char} {c : Char}
    (hinput : skipSpace input = c :: cs) (hc : c ≠ ']') :
    readValue? (fuel + 1) ('[' :: input) =
      (readItems? fuel (c :: cs)).map fun (items, rest) ↦ (.array items, rest) := by
  rw [readValue?, skipSpace_cons input (by decide)]
  simp only [hinput]
  split
  case h_1 heq => exact absurd (List.cons.inj heq).1 hc
  case h_2 => rfl

theorem readValue?_object {fuel : Nat} {input cs : List Char}
    (hinput : skipSpace input = '"' :: cs) :
    readValue? (fuel + 1) ('\x7b' :: input) =
      (readMembers? fuel ('"' :: cs)).map fun (members, rest) ↦ (.object members, rest) := by
  rw [readValue?, skipSpace_cons input (by decide)]
  simp only [hinput]
  rfl

@[simp] theorem readValue?_string {fuel : Nat} (s : String) (rest : List Char) :
    readValue? (fuel + 1) ((stringText s).toList ++ rest) = some (.string s, rest) := by
  rw [toList_stringText, List.cons_append, List.append_assoc, List.singleton_append, readValue?,
    skipSpace_cons _ (by decide)]
  change (readString? _ [] _).map (fun p ↦ (Json.string p.1, p.2)) = _
  rw [readString?_stringText s rest (Nat.lt_succ_self _)]
  rfl

theorem readValue?_numberText {fuel : Nat} {spelling : String} (h : IsNumber spelling)
    {rest : List Char} (hrest : ∀ c ∈ rest.head?, isNumberCharacter c = false) :
    readValue? (fuel + 1) (spelling.toList ++ rest) = some (.number spelling, rest) := by
  obtain ⟨c, hc, hstarts⟩ := h.starts
  obtain ⟨cs, hcs⟩ := List.head?_eq_some_iff.1 hc
  rw [hcs, List.cons_append, readValue?_number _ hstarts, ← List.cons_append, ← hcs,
    h.reads rest hrest, Option.map_some]
  dsimp only
  rw [String.ofList_toList]

/-- A printed array is read where its items are read up to the closing bracket. -/
theorem readValue?_indentedArray {item : Json} {items : List Json} {depth fuel : Nat}
    {rest : List Char} (hitem : ∀ n ∈ item.numbers, IsNumber n)
    (hread : readItems? fuel ((indentedItems (depth + 1) (item :: items)).toList ++
      ((newLine depth).toList ++ ']' :: rest)) = some (item :: items, rest)) :
    readValue? (fuel + 1) ((indentedAt depth (.array (item :: items))).toList ++ rest) =
      some (.array (item :: items), rest) := by
  obtain ⟨c, cs, hcs, hspace, hc⟩ := head_indentedItems (depth + 1) items hitem
  rw [toList_indentedAt_array, List.cons_append, List.append_assoc, List.append_assoc,
    List.append_assoc, List.singleton_append]
  rw [hcs, List.cons_append] at hread ⊢
  rw [readValue?_array (c := c) _ hc, hread]
  · rfl
  · rw [skipSpace_newLine, skipSpace_cons _ hspace]

/-- A printed object is read where its members are read up to the closing brace. -/
theorem readValue?_indentedObject {member : String × Json} {members : List (String × Json)}
    {depth fuel : Nat} {rest : List Char}
    (hread : readMembers? fuel ((indentedMembers (depth + 1) (member :: members)).toList ++
      ((newLine depth).toList ++ '\x7d' :: rest)) = some (member :: members, rest)) :
    readValue? (fuel + 1) ((indentedAt depth (.object (member :: members))).toList ++ rest) =
      some (.object (member :: members), rest) := by
  obtain ⟨cs, hcs⟩ := head_indentedMembers (depth + 1) member members
  rw [toList_indentedAt_object, List.cons_append, List.append_assoc, List.append_assoc,
    List.append_assoc, List.singleton_append]
  rw [hcs, List.cons_append] at hread ⊢
  rw [readValue?_object, hread]
  · rfl
  · rw [skipSpace_newLine, skipSpace_cons _ (by decide)]

/-- A printed member is read, up to what follows its value. -/
theorem readMembers?_member {fuel : Nat} {name : String} {value : Json} {input rest : List Char}
    (h : readValue? fuel input = some (value, rest)) :
    readMembers? (fuel + 1) ((stringText name).toList ++ ':' :: input) =
      match skipSpace rest with
      | ',' :: rest =>
        (readMembers? fuel rest).map fun (members, rest) ↦ ((name, value) :: members, rest)
      | '\x7d' :: rest => some ([(name, value)], rest)
      | _ => none := by
  have hquote : after? ['"'] (skipSpace ((stringText name).toList ++ ':' :: input)) =
      some (name.toList.flatMap escapedCharacter ++ '"' :: ':' :: input) := by
    rw [toList_stringText, List.cons_append, List.append_assoc, List.singleton_append,
      skipSpace_cons _ (by decide)]
    rfl
  have hcolon : after? [':'] (skipSpace (':' :: input)) = some input := by
    rw [skipSpace_cons _ (by decide)]
    rfl
  rw [readMembers?, hquote]
  simp only [Option.bind_eq_bind, Option.bind_some]
  rw [readString?_stringText name (':' :: input) (Nat.lt_succ_self _)]
  simp only [Option.bind_some]
  rw [hcolon]
  simp only [Option.bind_some]
  rw [h]
  rfl

mutual

/-- The printed form of a value is read for that value. -/
theorem readValue?_indentedAt (json : Json) (h : ∀ n ∈ json.numbers, IsNumber n) (depth : Nat)
    (fuel : Nat) (rest : List Char) (hfuel : 2 * (indentedAt depth json).toList.length ≤ fuel)
    (hrest : ∀ c ∈ rest.head?, isNumberCharacter c = false) :
    readValue? fuel ((indentedAt depth json).toList ++ rest) = some (json, rest) := by
  obtain ⟨c, cs, hcs, -⟩ := head_indentedAt depth h
  obtain ⟨fuel, rfl⟩ : ∃ f, fuel = f + 1 := by
    rw [hcs, List.length_cons] at hfuel
    exact ⟨fuel - 1, by omega⟩
  cases json with
  | null =>
    rw [indentedAt, readValue?]
    rfl
  | bool b =>
    cases b with
    | false =>
      rw [indentedAt, readValue?]
      rfl
    | true =>
      rw [indentedAt, readValue?]
      rfl
  | number spelling =>
    rw [indentedAt]
    exact readValue?_numberText (h spelling (by simp [numbers])) hrest
  | string s =>
    rw [indentedAt]
    exact readValue?_string s rest
  | array items =>
    cases items with
    | nil =>
      rw [indentedAt, readValue?]
      rfl
    | cons item items =>
      rw [numbers] at h
      apply readValue?_indentedArray fun n hn ↦ h n (List.mem_append_left _ hn)
      apply readItems?_indentedItems (item :: items) (List.cons_ne_nil _ _) h
      rw [toList_indentedAt_array] at hfuel
      simp only [List.length_cons, List.length_append] at hfuel
      omega
  | object members =>
    cases members with
    | nil =>
      rw [indentedAt, readValue?]
      rfl
    | cons member members =>
      rw [numbers] at h
      apply readValue?_indentedObject
      apply readMembers?_indentedMembers (member :: members) (List.cons_ne_nil _ _) h
      rw [toList_indentedAt_object] at hfuel
      simp only [List.length_cons, List.length_append] at hfuel
      omega
termination_by structural json

/-- The printed items of an array are read up to the closing bracket. -/
theorem readItems?_indentedItems (items : List Json) (hne : items ≠ [])
    (h : ∀ n ∈ numbersOfItems items, IsNumber n) (depth outer : Nat) (rest : List Char) (fuel : Nat)
    (hfuel : 2 * (indentedItems depth items).toList.length < fuel) :
    readItems? fuel ((indentedItems depth items).toList ++
      ((newLine outer).toList ++ ']' :: rest)) = some (items, rest) := by
  obtain ⟨fuel, rfl⟩ : ∃ f, fuel = f + 1 := ⟨fuel - 1, by omega⟩
  cases items with
  | nil => exact absurd rfl hne
  | cons item items =>
    rw [numbersOfItems] at h
    have hitem : ∀ n ∈ item.numbers, IsNumber n := fun n hn ↦ h n (List.mem_append_left _ hn)
    cases items with
    | nil =>
      rw [indentedItems] at hfuel ⊢
      rw [readItems?, readValue?_indentedAt item hitem depth fuel _ (by omega)
        (not_number_of_newLine outer _)]
      simp only [Option.bind_eq_bind, Option.bind_some]
      rw [skipSpace_newLine, skipSpace_cons _ (by decide)]
      rfl
    | cons next items =>
      rw [toList_indentedItems_cons] at hfuel ⊢
      simp only [List.length_cons, List.length_append] at hfuel
      have hrest := readItems?_indentedItems (next :: items) (List.cons_ne_nil _ _)
        (fun n hn ↦ h n (List.mem_append_right _ hn)) depth outer rest fuel (by omega)
      rw [List.append_assoc, List.cons_append, List.append_assoc, readItems?,
        readValue?_indentedAt item hitem depth fuel _ (by omega) (not_number_of_comma _)]
      simp only [Option.bind_eq_bind, Option.bind_some]
      rw [skipSpace_cons _ (by decide)]
      change (readItems? fuel _).map _ = _
      rw [readItems?_newLine, hrest]
      rfl
termination_by structural items

/-- The printed members of an object are read up to the closing brace. -/
theorem readMembers?_indentedMembers (members : List (String × Json)) (hne : members ≠ [])
    (h : ∀ n ∈ numbersOfMembers members, IsNumber n) (depth outer : Nat) (rest : List Char)
    (fuel : Nat) (hfuel : 2 * (indentedMembers depth members).toList.length < fuel) :
    readMembers? fuel ((indentedMembers depth members).toList ++
      ((newLine outer).toList ++ '\x7d' :: rest)) = some (members, rest) := by
  obtain ⟨fuel, rfl⟩ : ∃ f, fuel = f + 1 := ⟨fuel - 1, by omega⟩
  cases members with
  | nil => exact absurd rfl hne
  | cons member members =>
    obtain ⟨name, value⟩ := member
    rw [numbersOfMembers] at h
    have hspace : ∀ input, skipSpace (' ' :: input) = skipSpace input := fun _ ↦ rfl
    have hvalue : ∀ n ∈ value.numbers, IsNumber n := fun n hn ↦ h n (List.mem_append_left _ hn)
    cases members with
    | nil =>
      rw [toList_indentedMembers_singleton] at hfuel ⊢
      simp only [List.length_cons, List.length_append] at hfuel
      have hread := readValue?_indentedAt value hvalue depth fuel _ (by omega)
        (not_number_of_newLine outer ('\x7d' :: rest))
      rw [← readValue?_of_skipSpace (hspace _)] at hread
      rw [List.append_assoc, List.cons_append, List.cons_append, readMembers?_member hread,
        skipSpace_newLine, skipSpace_cons _ (by decide)]
      rfl
    | cons next members =>
      rw [toList_indentedMembers_cons] at hfuel ⊢
      simp only [List.length_cons, List.length_append] at hfuel
      have hread := readValue?_indentedAt value hvalue depth fuel
        (',' :: ((newLine depth).toList ++ ((indentedMembers depth (next :: members)).toList ++
          ((newLine outer).toList ++ '\x7d' :: rest)))) (by omega) (not_number_of_comma _)
      have hrest := readMembers?_indentedMembers (next :: members) (List.cons_ne_nil _ _)
        (fun n hn ↦ h n (List.mem_append_right _ hn)) depth outer rest fuel (by omega)
      rw [← readValue?_of_skipSpace (hspace _)] at hread
      rw [List.append_assoc, List.cons_append, List.cons_append, List.append_assoc,
        List.cons_append, List.append_assoc, readMembers?_member hread, skipSpace_cons _ (by decide)]
      change (readMembers? fuel _).map _ = _
      rw [readMembers?_newLine, hrest]
      rfl
termination_by structural members

end

/-- A value is read back from its indented text. -/
theorem read?_indented {json : Json} (h : ∀ n ∈ json.numbers, IsNumber n) :
    read? json.indented = some json := by
  have hread := readValue?_indentedAt json h 0 (2 * json.indented.toList.length + 1) []
    (Nat.le_succ _) (by rintro _ ⟨⟩)
  rw [List.append_nil] at hread
  unfold read?
  dsimp only
  rw [show json.indented.toList = (indentedAt 0 json).toList from rfl] at hread ⊢
  rw [hread]
  rfl

end OntoGraph.Json
