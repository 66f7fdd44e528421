import OntoGraph.Iri.Grammar
import OntoGraph.Ontology.Compile
import OntoGraph.Proofs.Document.DerivedContext

/-!
# Values of vocabularies

A value of an enumerated property is shortened against the vocabulary of its term alone, but it is
read with the terms and the namespaces of the whole context first. So it comes back exactly where
the text written for it is none of these names by accident.
-/

namespace OntoGraph.Document.TermContext

open Ontology

/-! ## Reading -/

/-- The name of a namespace before the first colon of a text, joined with what follows it. -/
def joined? (c : TermContext) (text : String) : Option String :=
  (Text.splitOnce? ':' text.toList).bind fun (front, back) ↦
    (c.namespaces.get? (String.ofList front)).map (· ++ String.ofList back)

/-- What a value stands for where a vocabulary starts with `start`: what a term or a namespace of
its name stands for, or a compact IRI, or itself as an IRI, or a name of the vocabulary. -/
def readVocabValue (rule : Iri.AuthorityRule) (c : TermContext) (start text : String) : String :=
  match c.term? text, c.namespaces.get? text, c.joined? text with
  | some definition, _, _ => definition.iri
  | none, some namespaceStart, _ => namespaceStart
  | none, none, some iri => iri
  | none, none, none => if Iri.isAbsolute rule text then text else start ++ text

theorem joined?_eq_some_iff {c : TermContext} {text iri : String} :
    c.joined? text = some iri ↔ ∃ name start rest, ':' ∉ name.toList ∧
      c.namespaces.get? name = some start ∧ text = name ++ ":" ++ rest ∧ iri = start ++ rest := by
  unfold joined?
  rw [Option.bind_eq_some_iff]
  constructor
  · rintro ⟨⟨front, back⟩, hsplit, hjoin⟩
    obtain ⟨start, hstart, rfl⟩ := Option.map_eq_some_iff.1 hjoin
    obtain ⟨htext, hcolon⟩ := Text.splitOnce?_eq_some_iff.1 hsplit
    refine ⟨String.ofList front, start, String.ofList back, ?_, hstart, ?_, rfl⟩
    · rw [String.toList_ofList]
      exact hcolon
    · apply String.toList_inj.1
      simp [htext, String.toList_append]
  · rintro ⟨name, start, rest, hcolon, hstart, rfl, rfl⟩
    refine ⟨(name.toList, rest.toList), splitOnce?_colon rest hcolon, ?_⟩
    simp only [String.ofList_toList, hstart, Option.map_some]

theorem colon_mem_of_isAbsolute {rule : Iri.AuthorityRule} {text : String}
    (h : Iri.isAbsolute rule text = true) : ':' ∈ text.toList := by
  have hscheme : (Iri.Parts.ofChars text.toList).scheme.isSome = true :=
    (Bool.and_eq_true_iff.1 h).1
  unfold Iri.Parts.ofChars Iri.splitAtAny at hscheme
  dsimp only at hscheme
  cases hrest : text.toList.dropWhile (!([':', '/', '?', '#'] : List Char).contains ·) with
  | nil =>
    rw [hrest] at hscheme
    split at hscheme
    case h_1 heq => cases (Prod.mk.inj heq).2
    case h_2 => cases hscheme
  | cons ch rest =>
    rw [hrest] at hscheme
    split at hscheme
    case h_1 heq =>
      cases (Prod.mk.inj heq).2
      exact (List.dropWhile_suffix _).subset (hrest ▸ List.mem_cons_self)
    case h_2 => cases hscheme

/-! ## Writing -/

/-- The forms in which a value is written: as a name of the vocabulary, as a term, as the name of a
namespace with a rest, or as it is. -/
theorem compactVocabValue_cases {c : TermContext} (h : Derived c) {definition : TermDefinition}
    {start : String} (hstart : definition.vocab = some start) (value : String) :
    (value = start ++ c.compactVocabValue definition value ∧
        ':' ∉ (c.compactVocabValue definition value).toList) ∨
      (∃ held, c.term? (c.compactVocabValue definition value) = some held) ∨
      (∃ name namespaceStart rest, c.namespaces.get? name = some namespaceStart ∧
        value = namespaceStart ++ rest ∧
        c.compactVocabValue definition value = name ++ ":" ++ rest) ∨
      c.compactVocabValue definition value = value := by
  have hother : (∃ held, c.term? (c.compactIri value) = some held) ∨
      (∃ name namespaceStart rest, c.namespaces.get? name = some namespaceStart ∧
        value = namespaceStart ++ rest ∧ c.compactIri value = name ++ ":" ++ rest) ∨
      c.compactIri value = value := by
    unfold compactIri
    cases hterm : c.termsByIri.get? value with
    | some term => exact .inl (h.termsByIri _ _ hterm)
    | none =>
      rcases c.compactBy_cases (· ≠ "") value with
        ⟨pair, hpair, rest, ⟨hvalue, -⟩, htext⟩ | ⟨-, htext⟩
      · exact .inr (.inl ⟨pair.1, pair.2, rest, SortedMap.get?_eq_some_iff.2 hpair, hvalue, htext⟩)
      · exact .inr (.inr htext)
  unfold compactVocabValue
  rw [hstart, Option.bind_some]
  cases hname : dropStart? start value with
  | some name =>
    dsimp only
    split_ifs with hplain
    · refine .inl ⟨dropStart?_eq_some_iff.1 hname, fun hcolon ↦ ?_⟩
      have hall := List.all_eq_true.1 hplain.2 ':' hcolon
      exact absurd hall (by decide)
    · exact .inr hother
  | none => exact .inr hother

/-! ## What is read back -/

/-- Does the text that is written for a value stand for nothing else? -/
structure KeepsMeaning (rule : Iri.AuthorityRule) (c : TermContext) (value text : String) :
    Prop where
  /-- The text is no term for another IRI. -/
  term : ∀ definition, c.term? text = some definition → definition.iri = value
  /-- Nor is it the name of a namespace. -/
  namespaces : c.term? text = none → ∀ start, c.namespaces.get? text = some start → start = value
  /-- Otherwise, where it is the name of a namespace with a rest, the name holds no colon. -/
  shortened : c.term? text = none → c.namespaces.get? text = none →
    ∀ name start rest, c.namespaces.get? name = some start → value = start ++ rest →
      text = name ++ ":" ++ rest → ':' ∉ name.toList
  /-- And where it is the value itself, this is an IRI whose scheme is no namespace. -/
  unchanged : c.term? text = none → c.namespaces.get? text = none → text = value →
    Iri.isAbsolute rule value = true ∧ c.joined? value = none

/-- Is a text that is no name itself split only where it was joined, and the value itself only where
this is read as it is? -/
structure SplitsBack (rule : Iri.AuthorityRule) (c : TermContext) (value text : String) : Prop where
  shortened : ∀ name start rest, c.namespaces.get? name = some start → value = start ++ rest →
    text = name ++ ":" ++ rest → ':' ∉ name.toList
  unchanged : text = value → Iri.isAbsolute rule value = true ∧ c.joined? value = none

section ReadBack

variable {rule : Iri.AuthorityRule} {c : TermContext} {definition : TermDefinition}
  {start value text : String}

theorem Derived.namespace_ne_colon (h : Derived c) {name namespaceStart front : String}
    (hname : c.namespaces.get? name = some namespaceStart) : namespaceStart ≠ front ++ ":" := by
  rintro rfl
  exact h.namespaces name _ hname ⟨front.toList, String.toList_append.symm⟩

theorem readVocabValue_of_joined (hterm : c.term? text = none)
    (hnamespace : c.namespaces.get? text = none) {iri : String} (hjoined : c.joined? text = some iri) :
    readVocabValue rule c start text = iri := by
  unfold readVocabValue
  rw [hterm, hnamespace, hjoined]

theorem readVocabValue_of_not_joined (hterm : c.term? text = none)
    (hnamespace : c.namespaces.get? text = none) (hjoined : c.joined? text = none) :
    readVocabValue rule c start text = if Iri.isAbsolute rule text then text else start ++ text := by
  unfold readVocabValue
  rw [hterm, hnamespace, hjoined]

/-- A text that is split where a namespace stands before its first colon is read back exactly if it
was joined there. -/
theorem readVocabValue_eq_iff_of_joined (h : Derived c) (hstart : definition.vocab = some start)
    (htext : c.compactVocabValue definition value = text) (hterm : c.term? text = none)
    (hnamespace : c.namespaces.get? text = none) {iri : String}
    (hjoined : c.joined? text = some iri) :
    readVocabValue rule c start text = value ↔ SplitsBack rule c value text := by
  have hforms := compactVocabValue_cases h hstart value
  rw [htext] at hforms
  obtain ⟨front, frontStart, back, hfront, hget, hjoin, rfl⟩ := joined?_eq_some_iff.1 hjoined
  rw [readVocabValue_of_joined hterm hnamespace hjoined]
  constructor
  · rintro rfl
    refine ⟨fun name namespaceStart rest hname hvalue hname' hcolon ↦ ?_, fun heq ↦ ?_⟩
    · obtain ⟨between, rfl⟩ := exists_append_of_colon hfront hcolon (hjoin.symm.trans hname')
      rw [← String.append_assoc, ← String.append_assoc] at hvalue
      exact h.namespace_ne_colon hname ((String.append_left_inj rest).1 hvalue).symm
    · exact absurd ((String.append_left_inj back).1 (hjoin.symm.trans heq)).symm
        (h.namespace_ne_colon hget)
  · rintro ⟨hshortened, hunchanged⟩
    rcases hforms with ⟨-, hcolon⟩ | ⟨held, hheld⟩ | ⟨name, namespaceStart, rest, hname, hvalue,
      hname'⟩ | heq
    · refine absurd ?_ hcolon
      simp [hjoin, String.toList_append]
    · rw [hterm] at hheld
      cases hheld
    · have hcolon := hshortened name namespaceStart rest hname hvalue hname'
      obtain ⟨rfl, rfl⟩ := append_eq_append_of_colon hfront hcolon (hjoin.symm.trans hname')
      rw [hget] at hname
      rw [hvalue, Option.some.inj hname]
    · rw [← heq, hjoined] at hunchanged
      cases (hunchanged rfl).2

/-- A text that is not split is read back where it is a name of the vocabulary, or an IRI that was
left as it is. -/
theorem readVocabValue_eq_iff_of_not_joined (h : Derived c)
    (hstart : definition.vocab = some start) (hne : start ≠ "")
    (htext : c.compactVocabValue definition value = text) (hterm : c.term? text = none)
    (hnamespace : c.namespaces.get? text = none) (hjoined : c.joined? text = none) :
    readVocabValue rule c start text = value ↔ SplitsBack rule c value text := by
  have hforms := compactVocabValue_cases h hstart value
  rw [htext] at hforms
  have hself : ∀ {other : String}, start ++ other ≠ other := fun {other} heq ↦
    hne ((String.append_left_inj other).1 (heq.trans String.empty_append.symm))
  rw [readVocabValue_of_not_joined hterm hnamespace hjoined]
  rcases hforms with ⟨hvalue, hcolon⟩ | ⟨held, hheld⟩ | ⟨name, namespaceStart, rest, hname, hvalue,
      hname'⟩ | heq
  · rw [if_neg fun habsolute ↦ hcolon (colon_mem_of_isAbsolute habsolute)]
    refine iff_of_true hvalue.symm ⟨fun name namespaceStart rest _ _ hname' ↦ ?_, fun heq ↦ ?_⟩
    · refine absurd ?_ hcolon
      simp [hname', String.toList_append]
    · rw [← heq] at hvalue
      exact absurd hvalue.symm hself
  · rw [hterm] at hheld
    cases hheld
  · have hcolon : ':' ∈ name.toList := by
      by_contra hcolon
      rw [joined?_eq_some_iff.2 ⟨name, namespaceStart, rest, hcolon, hname, hname', rfl⟩] at hjoined
      cases hjoined
    refine iff_of_false (fun hback ↦ ?_) fun hsplits ↦
      hsplits.shortened name namespaceStart rest hname hvalue hname' hcolon
    rw [hvalue, hname'] at hback
    split at hback
    · exact h.namespace_ne_colon hname ((String.append_left_inj rest).1 hback).symm
    · rw [← String.append_assoc, ← String.append_assoc] at hback
      exact h.namespace_ne_colon hname ((String.append_left_inj rest).1 hback).symm
  · subst heq
    constructor
    · intro hback
      refine ⟨fun name namespaceStart rest hname hvalue hname' ↦ ?_, fun _ ↦ ⟨?_, hjoined⟩⟩
      · rw [hvalue] at hname'
        exact absurd ((String.append_left_inj rest).1 hname') (h.namespace_ne_colon hname)
      · by_contra habsolute
        rw [if_neg habsolute] at hback
        exact hself hback
    · intro hsplits
      rw [if_pos (hsplits.unchanged rfl).1]

/-- A text that is neither a term nor a namespace is read back exactly if it is split as it was
joined. -/
theorem readVocabValue_eq_iff (h : Derived c) (hstart : definition.vocab = some start)
    (hne : start ≠ "") (htext : c.compactVocabValue definition value = text)
    (hterm : c.term? text = none) (hnamespace : c.namespaces.get? text = none) :
    readVocabValue rule c start text = value ↔ SplitsBack rule c value text := by
  cases hjoined : c.joined? text with
  | some iri => exact readVocabValue_eq_iff_of_joined h hstart htext hterm hnamespace hjoined
  | none => exact readVocabValue_eq_iff_of_not_joined h hstart hne htext hterm hnamespace hjoined

end ReadBack

/-- A value of a term with a vocabulary, in a context derived from a model, is read back exactly if
the text written for it keeps its meaning. -/
theorem readVocabValue_compactVocabValue_iff (rule : Iri.AuthorityRule) (model : Model)
    {term : String} {definition : TermDefinition} {start : String}
    (hterm : (ofModel model).term? term = some definition)
    (hstart : definition.vocab = some start) (value : String) :
    readVocabValue rule (ofModel model) start
        ((ofModel model).compactVocabValue definition value) = value ↔
      KeepsMeaning rule (ofModel model) value
        ((ofModel model).compactVocabValue definition value) := by
  have hderived := derived_ofModel model
  have hne := (hderived.definitions term definition hterm).start start hstart
  generalize hc : ofModel model = c at hderived
  generalize htext : c.compactVocabValue definition value = text
  cases hheld : c.term? text with
  | some held =>
    have hread : readVocabValue rule c start text = held.iri := by
      unfold readVocabValue
      rw [hheld]
    rw [hread]
    constructor
    · intro heq
      exact ⟨by simpa [hheld] using heq, by simp [hheld], by simp [hheld], by simp [hheld]⟩
    · exact fun hkeeps ↦ hkeeps.term held hheld
  | none =>
    cases hnamespace : c.namespaces.get? text with
    | some namespaceStart =>
      have hread : readVocabValue rule c start text = namespaceStart := by
        unfold readVocabValue
        rw [hheld, hnamespace]
      rw [hread]
      constructor
      · intro heq
        exact ⟨by simp [hheld], fun _ ↦ by simpa [hnamespace] using heq, by simp [hnamespace],
          by simp [hnamespace]⟩
      · exact fun hkeeps ↦ hkeeps.namespaces hheld namespaceStart hnamespace
    | none =>
      rw [readVocabValue_eq_iff hderived hstart hne htext hheld hnamespace]
      constructor
      · rintro ⟨hshortened, hunchanged⟩
        exact ⟨by simp [hheld], by simp [hnamespace], fun _ _ ↦ hshortened, fun _ _ ↦ hunchanged⟩
      · exact fun hkeeps ↦ ⟨hkeeps.shortened hheld hnamespace, hkeeps.unchanged hheld hnamespace⟩

/-- An ontology with a vocabulary of two entries, one of which has the name of a class. -/
def kindOntology : Rdf.Store :=
  .ofList [
    ⟨.iri "https://x/Core/Agent", Rdf.rdfType, .iri Rdf.owlClass⟩,
    ⟨.iri "https://x/Core/Kind", Rdf.rdfType, .iri Rdf.owlClass⟩,
    ⟨.iri "https://x/Core/Kind/Agent", Rdf.rdfType, .iri "https://x/Core/Kind"⟩,
    ⟨.iri "https://x/Core/Kind/Tool", Rdf.rdfType, .iri "https://x/Core/Kind"⟩,
    ⟨.iri "https://x/Core/kind", Rdf.rdfType, .iri Rdf.owlObjectProperty⟩,
    ⟨.iri "https://x/Core/kind", Rdf.rdfsRange, .iri "https://x/Core/Kind"⟩]

def kindModel : Model := (compile kindOntology).toOption.getD default

def kindDefinition : TermDefinition :=
  { iri := "https://x/Core/kind", coercion := some .vocab, vocab := some "https://x/Core/Kind/" }

theorem term?_kind : (ofModel kindModel).term? "kind" = some kindDefinition := by
  decide +kernel

theorem keepsMeaning_tool :
    KeepsMeaning .standard (ofModel kindModel) "https://x/Core/Kind/Tool"
      ((ofModel kindModel).compactVocabValue kindDefinition "https://x/Core/Kind/Tool") :=
  (readVocabValue_compactVocabValue_iff .standard kindModel term?_kind rfl
    "https://x/Core/Kind/Tool").1 (by decide +kernel)

/-- The entry with the name of a class is read as the class. -/
theorem readVocabValue_agent :
    (compile kindOntology).toOption = some kindModel ∧
      (kindModel.vocabulary? "https://x/Core/Kind").any
        (·.entries.contains "https://x/Core/Kind/Agent") = true ∧
      (ofModel kindModel).term? "kind" = some kindDefinition ∧
      readVocabValue .standard (ofModel kindModel) "https://x/Core/Kind/"
        ((ofModel kindModel).compactVocabValue kindDefinition "https://x/Core/Kind/Agent") ≠
          "https://x/Core/Kind/Agent" := by
  refine ⟨by decide +kernel, by decide +kernel, term?_kind, by decide +kernel⟩

end OntoGraph.Document.TermContext
