import OntoGraph.Document.TermContext
import OntoGraph.Proofs.SortedMap
import OntoGraph.Proofs.Text.Scan

/-!
# Short names of IRIs

An IRI is written with the name of a namespace where one starts it, and a short name is read back
as a term, as a compact IRI or as it stands. Here is which of these each text is.
-/

namespace OntoGraph.Document.TermContext

@[simp] theorem dropStart?_eq_some_iff {start text rest : String} :
    dropStart? start text = some rest ↔ text = start ++ rest := by
  unfold dropStart?
  rw [Option.map_eq_some_iff]
  constructor
  · rintro ⟨chars, hchars, rfl⟩
    apply String.toList_inj.1
    rw [Text.after?_eq_some_iff.1 hchars, String.toList_append, String.toList_ofList]
  · rintro rfl
    exact ⟨rest.toList, Text.after?_eq_some_iff.2 String.toList_append, String.ofList_toList⟩

theorem isNamespace_iff {text : String} :
    isNamespace text = true ↔ "/".toList <:+ text.toList ∨ "#".toList <:+ text.toList := by
  have hend : ∀ mark : String, text.endsWith mark = true ↔ mark.toList <:+ text.toList := by
    intro mark
    rw [← String.endsWith_toSlice, String.Slice.endsWith_string_iff, String.copy_toSlice]
  rw [isNamespace, Bool.or_eq_true, hend, hend]

theorem ne_colon_of_isNamespace {name start : String} (h : isNamespace start = true) :
    start ≠ name ++ ":" := by
  rintro rfl
  rcases isNamespace_iff.1 h with hend | hend
  all_goals
    obtain ⟨front, hfront⟩ := hend
    rw [String.toList_append] at hfront
    have hlast := congrArg List.getLast? hfront
    simp at hlast

/-! ## Compacting -/

theorem mem_of_foldl_longer {found : List (String × String × String)}
    {best : Option (String × String × String)} {choice : String × String × String}
    (h : found.foldl longer best = some choice) : choice ∈ found ∨ best = some choice := by
  induction found generalizing best with
  | nil => exact .inr h
  | cons first found ih =>
    rcases ih h with hmem | hlonger
    · exact .inl (List.mem_cons_of_mem _ hmem)
    · rcases best with _ | ⟨name, start, rest⟩
      · cases hlonger
        exact .inl List.mem_cons_self
      · unfold longer at hlonger
        dsimp only at hlonger
        split at hlonger
        · exact .inr hlonger
        · cases hlonger
          exact .inl List.mem_cons_self

theorem isSome_foldl_longer (found : List (String × String × String))
    (best : Option (String × String × String)) (h : best.isSome = true) :
    (found.foldl longer best).isSome = true := by
  induction found generalizing best with
  | nil => exact h
  | cons first found ih =>
    apply ih
    unfold longer
    split
    · split <;> rfl
    · rfl

/-- The choice is no shorter than any other one. -/
theorem length_le_of_foldl_longer {found : List (String × String × String)}
    {best : Option (String × String × String)} {choice : String × String × String}
    (h : found.foldl longer best = some choice) :
    (∀ other ∈ found, other.2.1.length ≤ choice.2.1.length) ∧
      ∀ other, best = some other → other.2.1.length ≤ choice.2.1.length := by
  induction found generalizing best with
  | nil => exact ⟨by rintro _ ⟨⟩, fun other hother ↦ by cases hother.symm.trans h; exact le_rfl⟩
  | cons first found ih =>
    obtain ⟨hfound, hbest⟩ := ih h
    have hfirst : first.2.1.length ≤ choice.2.1.length ∧
        ∀ other, best = some other → other.2.1.length ≤ choice.2.1.length := by
      rcases best with _ | ⟨name, start, rest⟩
      · exact ⟨hbest first rfl, by rintro _ ⟨⟩⟩
      · unfold longer at hbest
        dsimp only at hbest
        by_cases hlt : first.2.1.length < start.length
        · rw [if_pos hlt] at hbest
          have hle := hbest _ rfl
          refine ⟨hlt.le.trans hle, ?_⟩
          rintro other ⟨⟩
          exact hle
        · rw [if_neg hlt] at hbest
          have hle := hbest _ rfl
          refine ⟨hle, ?_⟩
          rintro other ⟨⟩
          exact (Nat.le_of_not_lt hlt).trans hle
    exact ⟨List.forall_mem_cons.2 ⟨hfirst.1, hfound⟩, hfirst.2⟩

/-- Does the namespace start the IRI, with an accepted rest? -/
def Starts (condition : String → Bool) (iri : String) (pair : String × String) (rest : String) :
    Prop :=
  iri = pair.2 ++ rest ∧ condition rest = true

/-- An IRI is written with the name of the longest namespace that starts it, or as it is if none
does. -/
theorem compactBy_longest (c : TermContext) (condition : String → Bool) (iri : String) :
    (∃ pair ∈ c.namespaces.toList, ∃ rest, Starts condition iri pair rest ∧
        (∀ other ∈ c.namespaces.toList, ∀ rest', Starts condition iri other rest' →
          other.2.length ≤ pair.2.length) ∧
        c.compactBy condition iri = pair.1 ++ ":" ++ rest) ∨
      ((∀ pair ∈ c.namespaces.toList, ∀ rest, ¬ Starts condition iri pair rest) ∧
        c.compactBy condition iri = iri) := by
  have hfound : ∀ name start rest, (name, start, rest) ∈ c.namespaces.toList.filterMap (fun pair ↦
      ((dropStart? pair.2 iri).filter condition).map fun rest ↦ (pair.1, pair.2, rest)) ↔
        (name, start) ∈ c.namespaces.toList ∧ Starts condition iri (name, start) rest := by
    intro name start rest
    rw [List.mem_filterMap]
    constructor
    · rintro ⟨pair, hpair, hrest⟩
      obtain ⟨found, hfound, heq⟩ := Option.map_eq_some_iff.1 hrest
      obtain ⟨hdrop, hcondition⟩ := Option.filter_eq_some_iff.1 hfound
      cases heq
      exact ⟨hpair, dropStart?_eq_some_iff.1 hdrop, hcondition⟩
    · rintro ⟨hpair, hiri, hcondition⟩
      refine ⟨(name, start), hpair, Option.map_eq_some_iff.2 ⟨rest, ?_, rfl⟩⟩
      exact Option.filter_eq_some_iff.2 ⟨dropStart?_eq_some_iff.2 hiri, hcondition⟩
  fun_cases compactBy c condition iri with
  | case1 found name start rest hchoice =>
    obtain ⟨hpair, hstarts⟩ := (hfound _ _ _).1
      ((mem_of_foldl_longer hchoice).resolve_right (by rintro ⟨⟩))
    refine .inl ⟨(name, start), hpair, rest, hstarts, fun other hother rest' hrest' ↦ ?_, rfl⟩
    exact (length_le_of_foldl_longer hchoice).1 (other.1, other.2, rest')
      ((hfound _ _ _).2 ⟨hother, hrest'⟩)
  | case2 found hnone =>
    refine .inr ⟨fun pair hpair rest hstarts ↦ ?_, rfl⟩
    have hmem : (pair.1, pair.2, rest) ∈ found := (hfound pair.1 pair.2 rest).2 ⟨hpair, hstarts⟩
    cases hlist : found with
    | nil => simp [hlist] at hmem
    | cons first found' =>
      have hsome := isSome_foldl_longer found' (longer none first) rfl
      rw [hlist, List.foldl_cons] at hnone
      rw [hnone] at hsome
      cases hsome

theorem compactBy_cases (c : TermContext) (condition : String → Bool) (iri : String) :
    (∃ pair ∈ c.namespaces.toList, ∃ rest, Starts condition iri pair rest ∧
        c.compactBy condition iri = pair.1 ++ ":" ++ rest) ∨
      ((∀ pair ∈ c.namespaces.toList, ∀ rest, ¬ Starts condition iri pair rest) ∧
        c.compactBy condition iri = iri) := by
  rcases c.compactBy_longest condition iri with ⟨pair, hpair, rest, hstarts, -, htext⟩ | hnone
  · exact .inl ⟨pair, hpair, rest, hstarts, htext⟩
  · exact .inr hnone

/-! ## Expanding -/

/-- The name of a namespace, a colon, and a rest that is no authority. -/
def IsCompact (c : TermContext) (text : String) : Prop :=
  ∃ pair ∈ c.namespaces.toList, ∃ rest, text = pair.1 ++ ":" ++ rest ∧
    ':' ∉ pair.1.toList ∧ pair.1 ≠ "_" ∧ ¬ "//".toList <+: rest.toList

theorem splitOnce?_colon {name : String} (rest : String) (h : ':' ∉ name.toList) :
    Text.splitOnce? ':' (name ++ ":" ++ rest).toList = some (name.toList, rest.toList) := by
  have hchars : (name ++ ":" ++ rest).toList = name.toList ++ ':' :: rest.toList := by
    simp [String.toList_append]
  rw [hchars]
  exact Text.splitOnce?_append rest.toList h

theorem append_eq_append_of_colon {name name' rest rest' : String} (hname : ':' ∉ name.toList)
    (hname' : ':' ∉ name'.toList) (h : name ++ ":" ++ rest = name' ++ ":" ++ rest') :
    name = name' ∧ rest = rest' := by
  have hsplit := splitOnce?_colon rest hname
  rw [h, splitOnce?_colon rest' hname'] at hsplit
  obtain ⟨hfront, hback⟩ := Prod.mk.inj (Option.some.inj hsplit)
  exact ⟨(String.toList_inj.1 hfront).symm, (String.toList_inj.1 hback).symm⟩

/-- Where one of two names before a colon holds a colon itself, the other one stands before it. -/
theorem exists_append_of_colon {name name' rest rest' : String} (hname : ':' ∉ name.toList)
    (hname' : ':' ∈ name'.toList) (h : name ++ ":" ++ rest = name' ++ ":" ++ rest') :
    ∃ between, rest = between ++ ":" ++ rest' := by
  obtain ⟨front, back, hsplit, hfront⟩ := List.eq_append_cons_of_mem hname'
  have hback : name' = String.ofList front ++ ":" ++ String.ofList back := by
    apply String.toList_inj.1
    simp [hsplit, String.toList_append]
  have hcolon : ':' ∉ (String.ofList front).toList := by
    rw [String.toList_ofList]
    exact hfront
  refine ⟨String.ofList back, (append_eq_append_of_colon hname hcolon ?_).2⟩
  rw [h, hback]
  simp only [String.append_assoc]

theorem blank_isPrefix_iff {name rest : String} (h : ':' ∉ name.toList) :
    "_:".toList <+: (name ++ ":" ++ rest).toList ↔ name = "_" := by
  constructor
  · rintro ⟨tail, htail⟩
    have hsplit := splitOnce?_colon rest h
    rw [← htail] at hsplit
    have hcolon : ':' ∉ ['_'] := by decide
    have hblank : Text.splitOnce? ':' ("_:".toList ++ tail) = some (['_'], tail) :=
      Text.splitOnce?_append tail hcolon
    rw [hblank] at hsplit
    apply String.toList_inj.1
    exact (congrArg Prod.fst (Option.some.inj hsplit)).symm
  · rintro rfl
    exact ⟨rest.toList, by simp [String.toList_append]⟩

theorem expandIri_of_term {c : TermContext} {name : String} {definition : TermDefinition}
    (h : c.term? name = some definition) : c.expandIri name = definition.iri := by
  unfold expandIri
  rw [h]

/-- A compact IRI stands for what the namespace starts. -/
theorem expandIri_compact {c : TermContext} {name start rest : String}
    (hterm : c.term? (name ++ ":" ++ rest) = none) (hname : ':' ∉ name.toList)
    (hmem : (name, start) ∈ c.namespaces.toList) (hblank : name ≠ "_")
    (hrest : ¬ "//".toList <+: rest.toList) :
    c.expandIri (name ++ ":" ++ rest) = start ++ rest := by
  have hnot : (name ++ ":" ++ rest).startsWith "_:" = false := by
    rw [String.startsWith_string_eq_false_iff, blank_isPrefix_iff hname]
    exact hblank
  have hafter : (Text.after? ['/', '/'] rest.toList).isSome = false := by
    rw [← Bool.not_eq_true, Text.after?_isSome_iff]
    exact hrest
  unfold expandIri
  rw [hterm]
  dsimp only
  rw [hnot, splitOnce?_colon rest hname]
  dsimp only
  rw [String.ofList_toList, SortedMap.get?_eq_some_iff.2 hmem, String.ofList_toList]
  dsimp only
  rw [hafter]
  rfl

/-- What is no term and no compact IRI stands for itself, or is a name of the vocabulary if it has
no colon. -/
theorem expandIri_of_not_isCompact {c : TermContext} {text : String} (hterm : c.term? text = none)
    (h : ¬ c.IsCompact text) :
    c.expandIri text = if ':' ∈ text.toList then text else c.vocab.getD "" ++ text := by
  unfold expandIri
  rw [hterm]
  dsimp only
  by_cases hblank : text.startsWith "_:" = true
  · rw [if_pos hblank]
    rw [String.startsWith_string_iff] at hblank
    rw [if_pos (hblank.subset (by decide))]
  · rw [if_neg hblank]
    cases hsplit : Text.splitOnce? ':' text.toList with
    | none =>
      rw [if_neg (Text.splitOnce?_eq_none_iff.1 hsplit)]
      cases c.vocab with
      | none => exact String.empty_append.symm
      | some vocab => rfl
    | some parts =>
      obtain ⟨front, back⟩ := parts
      obtain ⟨htext, hcolon⟩ := Text.splitOnce?_eq_some_iff.1 hsplit
      rw [if_pos (htext ▸ List.mem_append_right _ List.mem_cons_self)]
      dsimp only
      cases hstart : c.namespaces.get? (String.ofList front) with
      | none => rfl
      | some start =>
        dsimp only
        split_ifs with hback
        · rfl
        · have htext : text = String.ofList front ++ ":" ++ String.ofList back := by
            apply String.toList_inj.1
            simp [htext, String.toList_append]
          have hcolon : ':' ∉ (String.ofList front).toList := by
            rw [String.toList_ofList]
            exact hcolon
          refine absurd ⟨_, SortedMap.get?_eq_some_iff.1 hstart, _, htext, hcolon, ?_, ?_⟩ h
          · rw [htext, String.startsWith_string_iff, blank_isPrefix_iff hcolon] at hblank
            exact hblank
          · intro hprefix
            have hslashes : ['/', '/'] <+: back := by simpa using hprefix
            exact hback (Text.after?_isSome_iff.2 hslashes)

end OntoGraph.Document.TermContext
