import OntoGraph.LinkedData.Reader
import OntoGraph.Proofs.LinkedData.ProtectedExpansion
import OntoGraph.Proofs.LinkedData.ProtectedTriples

/-!
# Reading documents with protected labels

A document whose labels stand in their places, read with its labels protected and then restored,
is the document as it stands, up to the labels that reading gives to blank nodes. A label in another
place, such as in a set under a term for nodes, is torn from the node that it names.
-/

namespace OntoGraph.Document

open LinkedData Rdf

def settingFor (documents : SortedMap String) (document : Json) : Setting :=
  let bound := (documents.values.map String.length).foldl (· + ·) (size document)
  { documents, base := documentBase, contextFuel := 8 * bound + 8 }

/-- The labels of a document stand where they are protected, as far as the active contexts go that
the document leads to. -/
structure LabelsInPlace (c : TermContext) (documents : SortedMap String)
    (members : List (String × Json)) (K : ActiveContext → Prop) : Prop where
  closed : Closed c (settingFor documents (.object members)) K
  /-- The document names a context, which leads to one of the active contexts. -/
  start : ∃ url, ("@context", .string url) ∈ members ∧ ∀ next,
    (settingFor documents (.object members)).process true (.initial documentBase) (.string url) =
      some next → K next
  labels : MembersFit c (settingFor documents (.object members)) K members

/-- The second store has the triples of the first one in the same order, under other labels. -/
def SameButLabels (store relabelled : Store) : Prop :=
  ∃ f : String → String, Function.Injective f ∧
    relabelled.triples.toList = store.triples.toList.map (·.relabel f)

/-! ## Sizes -/

section

variable (c : TermContext)

mutual

/-- Documents are as large with protected labels. -/
theorem size_protectLabels (names : Bool) : ∀ json : Json,
    size (protectLabels c names json) = size json
  | .array items => by rw [protectLabels, size, size, size_protectItems names items]
  | .object members => by rw [protectLabels, size, size, size_protectMembers members]
  | .null => rfl
  | .bool _ => rfl
  | .number _ => rfl
  | .string _ => rfl

theorem size_protectItems (names : Bool) : ∀ items : List Json,
    sizeOfItems (protectItems c names items) = sizeOfItems items
  | [] => rfl
  | item :: items => by
    rw [protectItems, sizeOfItems, sizeOfItems, size_protectLabels names item,
      size_protectItems names items]

theorem size_protectMembers : ∀ members : List (String × Json),
    sizeOfMembers (protectMembers c members) = sizeOfMembers members
  | [] => rfl
  | (key, value) :: members => by
    rw [protectMembers, sizeOfMembers, sizeOfMembers, size_protectMembers members]
    split
    · rfl
    · rw [size_protectLabels _ value]

end

end

/-! ## Reading -/

section

variable {c : TermContext} {documents : SortedMap String} {members : List (String × Json)}
  {K : ActiveContext → Prop}

/-- The document enters one of the active contexts. -/
theorem LabelsInPlace.objectContext? (h : LabelsInPlace c documents members K)
    {next : ActiveContext} (hnext : objectContext? (settingFor documents (.object members))
      (.initial documentBase) none false members = some next) : K next := by
  obtain ⟨url, hurl, hstart⟩ := h.start
  have hmem : ("@context", Json.string url) ∈ members.filter (·.1 = "@context") :=
    List.mem_filter.2 ⟨hurl, by simp⟩
  -- there is no earlier context to return to
  have hcurrent : ∀ b : Bool, (if b then ActiveContext.initial documentBase else
      (ActiveContext.initial documentBase).previous.getD (.initial documentBase)) =
      .initial documentBase := by
    intro b
    cases b <;> rfl
  unfold LinkedData.objectContext? at hnext
  dsimp only [Option.bind_none] at hnext
  rw [hcurrent] at hnext
  rcases hfilter : members.filter (·.1 = "@context") with _ | ⟨first, _ | ⟨second, rest⟩⟩
  · rw [hfilter] at hmem
    cases hmem
  · rw [hfilter, List.mem_singleton] at hmem
    subst hmem
    rw [hfilter] at hnext
    exact hstart next hnext
  · rw [hfilter] at hnext
    cases hnext

/-- A single item that only holds content stands for its content. -/
theorem protected_topItems {items items' : List Item} :
    List.Forall₂ Item.Protected items items' → List.Forall₂ Item.Protected
      (match items with
        | [item] => item.content?.getD [item]
        | items => items)
      (match items' with
        | [item] => item.content?.getD [item]
        | items => items) := by
  intro h
  cases h with
  | nil => exact .nil
  | @cons item item' _ _ hitem hrest =>
    cases hrest with
    | nil =>
      have hcontent := hitem.content?
      dsimp only
      generalize item.content? = content, item'.content? = content' at hcontent
      cases hcontent with
      | some h => exact h
      | none => exact .cons hitem .nil
    | cons hother hrest => exact .cons hitem (.cons hother hrest)

theorem LabelsInPlace.expandDocument? (h : LabelsInPlace c documents members K) (fuel : Nat) :
    Option.Rel (List.Forall₂ Item.Protected)
      (expandDocument? (settingFor documents (.object members)) fuel (.object members))
      (expandDocument? (settingFor documents (.object members)) fuel
        (.object (protectMembers c members))) := by
  unfold LinkedData.expandDocument?
  refine Lockstep.bind (R := Expanded.Protected) ?_ fun e e' he ↦ ?_
  · cases fuel with
    | zero => exact .none
    | succ fuel =>
      exact (inLockstep h.closed fuel).expandObject (fun next hnext ↦ h.objectContext? hnext) h.labels
  · refine .some (Item.protected_distinct (List.rel_filter (fun item item' hitem ↦ ?_)
      (protected_topItems he.items)))
    exact Iff.of_eq (congrArg (· = true) (Lockstep.isSome_eq hitem.parts?))

/-- Reading a document with protected labels and restoring them is reading it as it stands, up to
the labels of blank nodes; and it fails only where this fails. -/
theorem toStore?_protectLabels (h : LabelsInPlace c documents members K) :
    Option.Rel SameButLabels (toStore? documents (.object members))
      ((toStore? documents (protectLabels c false (.object members))).map
        fun store ↦ (restoreLabels store).1) := by
  have hsize : size (.object (protectMembers c members)) = size (.object members) :=
    size_protectLabels c false (.object members)
  rw [protectLabels, toStore?, toStore?, hsize]
  refine Lockstep.map_right (R := fun store store' ↦ ∃ marks, marks.Nodup ∧
    List.Forall₂ (TripleMarked marks) store.triples.toList store'.triples.toList) ?_ ?_
  · exact Lockstep.bind (h.expandDocument? _) fun items items' hitems ↦ storeOf?_marked _ hitems
  · rintro store store' ⟨marks, hmarks, htriples⟩
    exact ⟨restoredLabel marks, restoredLabel_injective hmarks,
      restoreLabels_of_marked hmarks htriples⟩

end

/-! ## A part of itself -/

def partContext : Json :=
  .object [("@context", .object [("Lamp", .string "https://x/Core/Lamp"),
    ("part", .object [("@id", .string "https://x/Core/part"), ("@type", .string "@id")]),
    ("spdxId", .string "@id"), ("type", .string "@type")])]

def partTerms : TermContext :=
  match TermContext.ofJson partContext with
  | .ok c => c
  | .error _ => {}

def partUrl : String := "https://x/context.jsonld"

def partDocuments : SortedMap String := SortedMap.insert ∅ partUrl partTerms.document.compact

def partMembers (part : Json) : List (String × Json) :=
  [("@context", .string partUrl),
    ("@graph", .array [.object [("part", part), ("spdxId", .string "_:a"), ("type", .string "Lamp")]])]

def ownPart : Json := .array [.string "_:a"]

def partActive : ActiveContext :=
  ((settingFor partDocuments (.object (partMembers ownPart))).process true (.initial documentBase)
    (.string partUrl)).getD (.initial documentBase)

/-- The active context agrees with the term context, and no other one is entered from it. In it the
label of the lamp names a blank node, and the class name is plain. -/
theorem partActive_parts : Agrees partTerms partActive ∧ partActive.previous.isNone = true ∧
    (∀ p ∈ partActive.terms.toList, p.2.localContext.isNone = true) ∧
    (partActive.expand true false "_:a" = .identifier (.blank "_:a") ∧
      partActive.expand true false (labelIriStart ++ "a") =
        .identifier (.iri (labelIriStart ++ "a"))) ∧
    ∀ relative vocab, (match partActive.expand relative vocab "Lamp" with
      | .identifier i => i.isPlain
      | _ => true) = true := by
  decide +kernel

theorem closed_partActive : Closed partTerms
    (settingFor partDocuments (.object (partMembers ownPart))) (· = partActive) where
  agrees := by
    obtain ⟨hagrees, -⟩ := partActive_parts
    rintro _ rfl
    exact hagrees
  previous := by
    obtain ⟨-, hnone, -⟩ := partActive_parts
    rintro _ previous rfl heq
    rw [heq] at hnone
    cases hnone
  ofTerm := by
    obtain ⟨-, -, hlocal, -⟩ := partActive_parts
    rintro _ _ next term d overrides propagate rfl rfl hd hnext
    have hnone := hlocal (term, d) (SortedMap.get?_eq_some_iff.1 hd)
    unfold Setting.processOfTerm at hnext
    rw [Option.isNone_iff_eq_none.1 hnone] at hnext
    exact (Option.some.inj hnext).symm

theorem labelsInPlace_ownPart :
    LabelsInPlace partTerms partDocuments (partMembers ownPart) (· = partActive) where
  closed := closed_partActive
  start := by
    refine ⟨partUrl, List.mem_cons_self, fun next hnext ↦ ?_⟩
    rw [partActive, hnext]
    rfl
  labels := by
    obtain ⟨-, -, -, hblank, hname⟩ := partActive_parts
    have hlabel : IsLabel (· = partActive) "_:a" := by
      refine ⟨"a", rfl, ?_⟩
      rintro _ rfl
      exact hblank
    have hplain : IsPlain (· = partActive) "Lamp" := isPlain_iff.2 hname
    have hnames : namesNodes partTerms "part" = true ∧ namesNodes partTerms "spdxId" = true ∧
        namesNodes partTerms "type" = false := by
      decide +kernel
    simp only [partMembers, ownPart, MembersFit, LabelsFit, ItemsFit, TextFits, hnames.1,
      hnames.2.1, hnames.2.2, if_true, Bool.false_eq_true, if_false]
    refine ⟨fun h ↦ absurd rfl h, fun _ _ ↦ ⟨⟨fun context hmem ↦ ?_, ?_⟩, trivial⟩, trivial⟩
    · simp at hmem
    · exact ⟨fun _ _ ↦ ⟨.inl hlabel, trivial⟩, fun _ _ ↦ .inl hlabel, fun _ _ ↦ .inr hplain, trivial⟩

/-- The lamp is a part of itself after its label was protected and restored, too. -/
theorem toStore?_protectLabels_ownPart :
    LabelsInPlace partTerms partDocuments (partMembers ownPart) (· = partActive) ∧
      (toStore? partDocuments (.object (partMembers ownPart))).isSome = true ∧
      Option.Rel SameButLabels (toStore? partDocuments (.object (partMembers ownPart)))
        ((toStore? partDocuments (protectLabels partTerms false (.object (partMembers ownPart)))).map
          fun store ↦ (restoreLabels store).1) :=
  ⟨labelsInPlace_ownPart, by decide +kernel, toStore?_protectLabels labelsInPlace_ownPart⟩

/-- The same part in a set object. -/
def ownPartInSet : Json := .object [("@set", .array [.string "_:a"])]

/-- In a set object the label is not protected, so that the part is another node than the lamp. -/
theorem not_sameButLabels_ownPartInSet :
    ¬Option.Rel SameButLabels (toStore? partDocuments (.object (partMembers ownPartInSet)))
      ((toStore? partDocuments
        (protectLabels partTerms false (.object (partMembers ownPartInSet)))).map
          fun store ↦ (restoreLabels store).1) := by
  have hdirect : (toStore? partDocuments (.object (partMembers ownPartInSet))).any (fun store ↦
      decide (∃ t ∈ store.triples.toList, t.subject = t.object)) = true := by
    decide +kernel
  have hprotected : (toStore? partDocuments (protectLabels partTerms false
      (.object (partMembers ownPartInSet)))).all (fun store ↦
        decide (∀ t ∈ (restoreLabels store).1.triples.toList, t.subject ≠ t.object)) = true := by
    decide +kernel
  generalize toStore? _ _ = direct at hdirect
  generalize toStore? _ _ = read at hprotected
  intro hsame
  cases direct with
  | none => cases hdirect
  | some store =>
    obtain ⟨t, ht, hloop⟩ := of_decide_eq_true hdirect
    cases read with
    | none => cases hsame
    | some read =>
      cases hsame with
      | some hsame =>
        obtain ⟨f, -, htriples⟩ := hsame
        have hmem := List.mem_map_of_mem (f := Triple.relabel f) ht
        rw [← htriples] at hmem
        exact of_decide_eq_true hprotected _ hmem (congrArg (Term.relabel f) hloop)

end OntoGraph.Document
