import OntoGraph.Proofs.Document.ShortNames
import OntoGraph.Proofs.LinkedData.ProtectedStatements
import OntoGraph.Proofs.Rdf.Store

/-!
# Triples with protected labels

The statements of the two runs become triples in the same order. Once the labels are restored, the
triples of the one run are those of the other under other labels.
-/

namespace OntoGraph.LinkedData

open Rdf
open Document (labelIriStart)

/-! ## Terms -/

/-- Two terms stand for one node or literal, when the numbers of the first stand for the marks. -/
inductive TermMarked (marks : List Mark) : Term → Term → Prop
  | node {i i' : Identifier} {t t' : Term} (h : i.Marked marks i') (ht : i.toTerm? = some t)
    (ht' : i'.toTerm? = some t') : TermMarked marks t t'
  | literal (lexical datatype : String) (language : Option String) :
    TermMarked marks (.literal lexical datatype language) (.literal lexical datatype language)

/-- Two triples say the same, when the numbers of the first stand for the marks. -/
structure TripleMarked (marks : List Mark) (t t' : Triple) : Prop where
  subject : TermMarked marks t.subject t'.subject
  predicate : t.predicate = t'.predicate
  object : TermMarked marks t.object t'.object

section

variable {marks : List Mark}

theorem Identifier.toTerm?_eq_some {i : Identifier} {t : Term} (h : i.toTerm? = some t) :
    i = .iri t.value ∧ t = .iri t.value ∨ i = .blank t.value ∧ t = .blank t.value := by
  cases i with
  | iri => exact .inl (by cases h; exact ⟨rfl, rfl⟩)
  | blank => exact .inr (by cases h; exact ⟨rfl, rfl⟩)
  | invalid => cases h

theorem TermMarked.append {t t' : Term} (h : TermMarked marks t t') (more : List Mark) :
    TermMarked (marks ++ more) t t' := by
  cases h with
  | node h ht ht' => exact .node (h.append more) ht ht'
  | literal => exact .literal _ _ _

/-- Different marks stand for different terms. -/
theorem TermMarked.eq_iff (hmarks : marks.Nodup) {t t' u u' : Term} (ht : TermMarked marks t t')
    (hu : TermMarked marks u u') : t = u ↔ t' = u' := by
  have hinj : ∀ {i j : Identifier} {t u : Term}, i.toTerm? = some t → j.toTerm? = some u →
      (t = u ↔ i = j) := by
    intro i j t u hi hj
    constructor
    · rintro rfl
      rcases Identifier.toTerm?_eq_some hi with ⟨rfl, hiri⟩ | ⟨rfl, hblank⟩
      · rcases Identifier.toTerm?_eq_some hj with ⟨rfl, -⟩ | ⟨-, hblank⟩
        · rfl
        · rw [hiri] at hblank
          cases hblank
      · rcases Identifier.toTerm?_eq_some hj with ⟨-, hiri⟩ | ⟨rfl, -⟩
        · rw [hblank] at hiri
          cases hiri
        · rfl
    · rintro rfl
      exact Option.some.inj (hi.symm.trans hj)
  have hliteral : ∀ {i : Identifier} {lexical datatype : String} {language : Option String},
      i.toTerm? ≠ some (.literal lexical datatype language) := by
    intro i
    cases i <;> nofun
  cases ht with
  | node h ht ht' =>
    cases hu with
    | node k hu hu' => rw [hinj ht hu, hinj ht' hu', h.eq_iff hmarks k]
    | literal =>
      exact iff_of_false (fun heq ↦ hliteral (heq ▸ ht)) (fun heq ↦ hliteral (heq ▸ ht'))
  | literal =>
    cases hu with
    | node k hu hu' =>
      exact iff_of_false (fun heq ↦ hliteral (heq ▸ hu)) (fun heq ↦ hliteral (heq ▸ hu'))
    | literal => rfl

theorem TripleMarked.append {t t' : Triple} (h : TripleMarked marks t t') (more : List Mark) :
    TripleMarked (marks ++ more) t t' :=
  ⟨h.subject.append more, h.predicate, h.object.append more⟩

theorem Identifier.Marked.toTerm? {i i' : Identifier} (h : i.Marked marks i') :
    Option.Rel (TermMarked marks) i.toTerm? i'.toTerm? := by
  have hsome : i.toTerm?.isSome = i'.toTerm?.isSome := by
    cases h with
    | @blank k mark h => cases mark <;> rfl
    | _ => rfl
  cases ht : i.toTerm? with
  | none =>
    rw [ht, Option.isSome_none] at hsome
    rw [Option.not_isSome_iff_eq_none.1 (Bool.eq_false_iff.1 hsome.symm)]
    exact .none
  | some t =>
    rw [ht, Option.isSome_some] at hsome
    obtain ⟨t', ht'⟩ := Option.isSome_iff_exists.1 hsome.symm
    rw [ht']
    exact .some (.node h ht ht')

theorem termMarked_of_literal (value : Literal) :
    Option.Rel (TermMarked marks) value.toTerm? value.toTerm? := by
  refine Lockstep.same fun term hterm ↦ ?_
  unfold Literal.toTerm? at hterm
  split at hterm
  · cases hterm
    exact .literal _ _ _
  · cases hterm
    exact .literal _ _ _
  · split at hterm
    · cases hterm
      exact .literal _ _ _
    · cases hterm
  · cases hterm
    exact .literal _ _ _

/-! ## Restored labels -/

/-- The label of a mark in the restored store. -/
def Mark.restored : Mark → String
  | .label name => "d" ++ name
  | .fresh n => "g" ++ toString n

theorem append_ne_append {start start' : String} {c d : Char} (hc : start.toList = [c])
    (hd : start'.toList = [d]) (hne : c ≠ d) (first second : String) :
    start ++ first ≠ start' ++ second := by
  intro heq
  have hlist := congrArg String.toList heq
  rw [String.toList_append, String.toList_append, hc, hd] at hlist
  exact hne (List.cons.inj hlist).1

theorem Mark.restored_injective {a b : Mark} (h : a.restored = b.restored) : a = b := by
  cases a with
  | label m =>
    cases b with
    | label n => rw [(String.append_right_inj _).1 h]
    | fresh => exact absurd h (append_ne_append rfl rfl (c := 'd') (d := 'g') (by decide) _ _)
  | fresh m =>
    cases b with
    | label => exact absurd h (append_ne_append rfl rfl (c := 'g') (d := 'd') (by decide) _ _)
    | fresh n => rw [Number.append_toString_injective h]

/-- The label that the restored store has for a numbered blank node. No other label becomes one of
these. -/
def restoredLabel (marks : List Mark) (label : String) : String :=
  match (List.range marks.length).find? (toString · = label) with
  | some k => ((marks[k]?).map Mark.restored).getD ""
  | none => "x" ++ label

theorem restoredLabel_toString {k : Nat} {mark : Mark} (h : marks[k]? = some mark) :
    restoredLabel marks (toString k) = mark.restored := by
  have hfind : (List.range marks.length).find? (toString · = toString k) = some k := by
    cases hfound : (List.range marks.length).find? (toString · = toString k) with
    | none =>
      have hnot := List.find?_eq_none.1 hfound k
        (List.mem_range.2 (List.getElem?_eq_some_iff.1 h).1)
      simp at hnot
    | some l =>
      have hl := List.find?_some hfound
      rw [toString_injective (of_decide_eq_true hl)]
  rw [restoredLabel, hfind]
  dsimp only
  rw [h]
  rfl

theorem restoredLabel_cases (marks : List Mark) (label : String) :
    (∃ (k : Nat) (mark : Mark), marks[k]? = some mark ∧ label = toString k) ∨
      restoredLabel marks label = "x" ++ label := by
  unfold restoredLabel
  cases hfound : (List.range marks.length).find? (toString · = label) with
  | some k =>
    have hk := List.mem_range.1 (List.mem_of_find?_eq_some hfound)
    have hlabel := List.find?_some hfound
    exact .inl ⟨k, marks[k], List.getElem?_eq_getElem hk, (of_decide_eq_true hlabel).symm⟩
  | none => exact .inr rfl

theorem restoredLabel_injective (hmarks : marks.Nodup) :
    Function.Injective (restoredLabel marks) := by
  have hother : ∀ (mark : Mark) (label : String), mark.restored ≠ "x" ++ label := by
    intro mark label
    cases mark with
    | label => exact append_ne_append rfl rfl (c := 'd') (d := 'x') (by decide) _ _
    | fresh => exact append_ne_append rfl rfl (c := 'g') (d := 'x') (by decide) _ _
  intro label label' heq
  rcases restoredLabel_cases marks label with ⟨k, mark, hk, rfl⟩ | hlabel
  · rcases restoredLabel_cases marks label' with ⟨l, mark', hl, rfl⟩ | hlabel'
    · rw [restoredLabel_toString hk, restoredLabel_toString hl] at heq
      obtain rfl := Mark.restored_injective heq
      rw [(List.getElem?_inj (List.getElem?_eq_some_iff.1 hk).1 hmarks).1 (hk.trans hl.symm)]
    · rw [restoredLabel_toString hk, hlabel'] at heq
      exact absurd heq (hother mark label')
  · rcases restoredLabel_cases marks label' with ⟨l, mark', hl, rfl⟩ | hlabel'
    · rw [restoredLabel_toString hl, hlabel] at heq
      exact absurd heq.symm (hother mark' label)
    · rw [hlabel, hlabel'] at heq
      exact (String.append_right_inj _).1 heq

theorem restoreLabel_of_marked {t t' : Term} (h : TermMarked marks t t') :
    Document.restoreLabel t' = t.relabel (restoredLabel marks) := by
  cases h with
  | literal => rfl
  | node h ht ht' =>
    cases h with
    | @blank k mark h =>
      cases ht
      rw [Term.relabel, restoredLabel_toString h]
      cases mark with
      | label name =>
        cases ht'
        rw [Document.restoreLabel, Document.TermContext.dropStart?_eq_some_iff.2 rfl]
        rfl
      | fresh =>
        cases ht'
        rfl
    | iri h =>
      cases ht
      cases ht'
      rw [Document.restoreLabel]
      cases hlabel : Document.TermContext.dropStart? Document.labelIriStart _ with
      | some label =>
        exact absurd (Document.TermContext.dropStart?_eq_some_iff.1 hlabel) (h label)
      | none => rfl
    | invalid => cases ht

/-! ## Emission -/

theorem TripleMarked.eq_iff (hmarks : marks.Nodup) {t t' u u' : Triple}
    (ht : TripleMarked marks t t') (hu : TripleMarked marks u u') : t = u ↔ t' = u' := by
  obtain ⟨hsubject, hpredicate, hobject⟩ := ht
  obtain ⟨husubject, hupredicate, huobject⟩ := hu
  have hparts : ∀ t u : Triple, t = u ↔
      t.subject = u.subject ∧ t.predicate = u.predicate ∧ t.object = u.object := by
    rintro ⟨⟩ ⟨⟩
    exact Iff.of_eq (Triple.mk.injEq ..)
  rw [hparts, hparts, hsubject.eq_iff hmarks husubject, hpredicate, hupredicate,
    hobject.eq_iff hmarks huobject]

/-- The states of the two runs while triples are made, when the numbers given out by the first
stand for the marks. -/
structure EmissionPaired (marks : List Mark) (e e' : Emission) : Prop where
  numbered : Numbered marks e.labelCount e'.labelCount
  triples : List.Forall₂ (TripleMarked marks) e.store.triples.toList e'.store.triples.toList

variable {e e' : Emission}

theorem EmissionPaired.add (h : EmissionPaired marks e e') {subject subject' object object' : Term}
    (predicate : String) (hsubject : TermMarked marks subject subject')
    (hobject : TermMarked marks object object') :
    EmissionPaired marks (e.add subject predicate object) (e'.add subject' predicate object') := by
  have htriple : TripleMarked marks ⟨subject, predicate, object⟩ ⟨subject', predicate, object'⟩ :=
    ⟨hsubject, rfl, hobject⟩
  have hmem : (⟨subject, predicate, object⟩ : Triple) ∈ e.store.triples.toList ↔
      (⟨subject', predicate, object'⟩ : Triple) ∈ e'.store.triples.toList := by
    have htriples := h.triples
    generalize e.store.triples.toList = made, e'.store.triples.toList = made' at htriples
    induction htriples with
    | nil => simp
    | cons ht _ ih =>
      rw [List.mem_cons, List.mem_cons]
      exact or_congr (htriple.eq_iff h.numbered.nodup ht) ih
  refine { h with triples := ?_ }
  unfold Emission.add Store.add
  by_cases hheld : (⟨subject, predicate, object⟩ : Triple) ∈ e.store.triples.toList
  · rw [Store.triples_insert_of_mem hheld, Store.triples_insert_of_mem (hmem.1 hheld)]
    exact h.triples
  · rw [Store.triples_insert_of_new hheld, Store.triples_insert_of_new (mt hmem.2 hheld)]
    exact List.rel_append h.triples (.cons htriple .nil)

/-- An object that refers to nothing leaves the triple out. -/
theorem EmissionPaired.addFirst (h : EmissionPaired marks e e') {node node' : Term}
    (predicate : String) (hnode : TermMarked marks node node') {object? object?' : Option Term} :
    Option.Rel (TermMarked marks) object? object?' → EmissionPaired marks
      (match object? with
        | some object => e.add node predicate object
        | none => e)
      (match object?' with
        | some object => e'.add node' predicate object
        | none => e') := by
  intro hobject
  cases hobject with
  | some hobject => exact h.add predicate hnode hobject
  | none => exact h

/-- A new blank node on both sides. -/
theorem EmissionPaired.freshNode (h : EmissionPaired marks e e') :
    EmissionPaired (marks ++ [.fresh e'.labelCount]) e.freshNode.2 e'.freshNode.2 ∧
      TermMarked (marks ++ [.fresh e'.labelCount]) e.freshNode.1 e'.freshNode.1 := by
  have hnode := h.numbered.getElem?_concat (.fresh e'.labelCount)
  exact ⟨⟨h.numbered.concat_fresh, h.triples.imp fun _ _ ht ↦ ht.append _⟩,
    .node (.blank hnode) rfl rfl⟩

theorem termMarked_rdfNil : TermMarked marks (.iri rdfNil) (.iri rdfNil) := by
  refine .node (.iri fun label heq ↦ ?_) rfl rfl
  have hstart : labelIriStart.toList.head? = some 'u' := by decide
  have hhead := congrArg List.head? (congrArg String.toList heq)
  rw [String.toList_append, List.head?_append, hstart, Option.some_or] at hhead
  exact absurd hhead (by decide)

mutual

/-- Values become the same terms, with more numbers given out for lists. -/
theorem emitValue_marked : ∀ (v : Value) {v' : Value} {marks : List Mark} {e e' : Emission},
    v.Marked marks v' → EmissionPaired marks e e' → ∃ more,
      EmissionPaired (marks ++ more) (emitValue e v).2 (emitValue e' v').2 ∧
        Option.Rel (TermMarked (marks ++ more)) (emitValue e v).1 (emitValue e' v').1
  | .node id, _, marks, e, e', hv, he => by
    cases hv with
    | node h =>
      refine ⟨[], ?_, ?_⟩ <;> rw [List.append_nil]
      · exact he
      · exact h.toTerm?
  | .literal value, _, marks, e, e', hv, he => by
    cases hv
    refine ⟨[], ?_, ?_⟩ <;> rw [List.append_nil]
    · exact he
    · exact termMarked_of_literal value
  | .list items, _, marks, e, e', hv, he => by
    cases hv with
    | list h =>
      obtain ⟨more, hpaired, hhead⟩ := emitList_marked items h he
      exact ⟨more, hpaired, .some hhead⟩

theorem emitList_marked : ∀ (items : List Value) {items' : List Value} {marks : List Mark}
    {e e' : Emission}, List.Forall₂ (Value.Marked marks) items items' →
    EmissionPaired marks e e' → ∃ more,
      EmissionPaired (marks ++ more) (emitList e items).2 (emitList e' items').2 ∧
        TermMarked (marks ++ more) (emitList e items).1 (emitList e' items').1
  | [], _, marks, e, e', h, he => by
    cases h
    exact ⟨[], by rwa [List.append_nil], termMarked_rdfNil⟩
  | item :: items, _, marks, e, e', h, he => by
    cases h with
    | @cons _ item' _ items' hitem hitems =>
      obtain ⟨hfresh, hnode⟩ := he.freshNode
      obtain ⟨more, hpaired, hobject⟩ :=
        emitValue_marked item (Value.Marked.append _ item hitem) hfresh
      have hfirst := hpaired.addFirst rdfFirst (hnode.append more) hobject
      obtain ⟨more', hpaired', hnext⟩ := emitList_marked items
        (Value.Marked.append_items _ items (Value.Marked.append_items _ items hitems)) hfirst
      have hrest := hpaired'.add rdfRest ((hnode.append more).append more') hnext
      refine ⟨[.fresh e'.labelCount] ++ more ++ more', ?_, ?_⟩ <;>
        rw [← List.append_assoc, ← List.append_assoc]
      · exact hrest
      · exact (hnode.append more).append more'

end

theorem emitStatement_marked {s s' : Statement} (hs : s.Marked marks s')
    (he : EmissionPaired marks e e') :
    ∃ more, EmissionPaired (marks ++ more) (emitStatement e s) (emitStatement e' s') := by
  have hsame : ∃ more, EmissionPaired (marks ++ more) e e' := ⟨[], by rwa [List.append_nil]⟩
  unfold emitStatement
  rw [← hs.predicate]
  have hsubject := hs.subject.toTerm?
  generalize s.subject.toTerm? = subject, s'.subject.toTerm? = subject' at hsubject
  cases hsubject with
  | none => exact hsame
  | some hsubject =>
    cases s.predicate with
    | blank => exact hsame
    | invalid => exact hsame
    | iri predicate =>
      obtain ⟨more, hpaired, hobject⟩ := emitValue_marked s.value hs.value he
      dsimp only
      generalize emitValue e s.value = made, emitValue e' s'.value = made' at hpaired hobject
      obtain ⟨object?, e₁⟩ := made
      obtain ⟨object?', e₁'⟩ := made'
      dsimp only at hpaired hobject
      cases hobject with
      | some hobject => exact ⟨more, hpaired.add predicate (hsubject.append more) hobject⟩
      | none => exact ⟨more, hpaired⟩

theorem emitStatements_marked {statements statements' : List Statement}
    (hs : List.Forall₂ (Statement.Marked marks) statements statements')
    (he : EmissionPaired marks e e') : ∃ more, EmissionPaired (marks ++ more)
      (statements.foldl emitStatement e) (statements'.foldl emitStatement e') := by
  induction statements generalizing statements' marks e e' with
  | nil =>
    cases hs
    exact ⟨[], by rwa [List.append_nil]⟩
  | cons s statements ih =>
    cases hs with
    | cons hfirst hrest =>
      obtain ⟨more, hpaired⟩ := emitStatement_marked hfirst he
      obtain ⟨more', hpaired'⟩ := ih (hrest.imp fun _ _ h ↦ h.append more) hpaired
      exact ⟨more ++ more', by rwa [← List.append_assoc]⟩

/-! ## Stores -/

theorem follows_items (fuel : Nat) {items items' : List Item}
    (h : List.Forall₂ Item.Protected items items') : Follows marks (fun _ _ _ ↦ True)
      (items.forM fun item ↦ do let _ ← collect fuel none item)
      (items'.forM fun item ↦ do let _ ← collect fuel none item) := by
  induction h generalizing marks with
  | nil => exact .pure trivial
  | cons hitem _ ih =>
    refine Follows.bind (P := fun _ _ _ ↦ True) ?_ fun more _ _ _ ↦ ih
    exact ((collectsAlike fuel).item .none hitem).bind fun _ _ _ _ ↦ .pure trivial

/-- Items that are related become stores with related triples, in the same order. -/
theorem storeOf?_marked (fuel : Nat) {items items' : List Item}
    (h : List.Forall₂ Item.Protected items items') :
    Option.Rel (fun store store' ↦ ∃ marks, marks.Nodup ∧
      List.Forall₂ (TripleMarked marks) store.triples.toList store'.triples.toList)
      (storeOf? fuel items) (storeOf? fuel items') := by
  unfold storeOf?
  refine Lockstep.bind (follows_items fuel h {} {} paired_empty) ?_
  rintro ⟨⟨⟩, a⟩ ⟨⟨⟩, b⟩ ⟨marks, hpaired, _⟩
  rw [List.nil_append] at hpaired
  have hstart : EmissionPaired marks { labelCount := a.labelCount } { labelCount := b.labelCount } :=
    ⟨hpaired.numbered, .nil⟩
  obtain ⟨more, hend⟩ := emitStatements_marked hpaired.statements hstart
  rw [Array.foldl_toList, Array.foldl_toList] at hend
  exact .some ⟨marks ++ more, hend.numbered.nodup, hend.triples⟩

/-- Once the labels are restored, related triples are the same under other labels. -/
theorem restoreLabels_of_marked (hmarks : marks.Nodup) {store store' : Store}
    (h : List.Forall₂ (TripleMarked marks) store.triples.toList store'.triples.toList) :
    (Document.restoreLabels store').1.triples.toList =
      store.triples.toList.map (·.relabel (restoredLabel marks)) := by
  have hrestored : (store'.triples.toList.map fun t : Triple ↦ (⟨Document.restoreLabel t.subject,
      t.predicate, Document.restoreLabel t.object⟩ : Triple)) =
      store.triples.toList.map (·.relabel (restoredLabel marks)) := by
    generalize store.triples.toList = made, store'.triples.toList = made' at h
    induction h with
    | nil => rfl
    | cons ht _ ih =>
      rw [List.map_cons, List.map_cons, ih, restoreLabel_of_marked ht.subject,
        restoreLabel_of_marked ht.object, ← ht.predicate]
      rfl
  have hnodup := store.distinct.map (Triple.relabel_injective (restoredLabel_injective hmarks))
  rw [Document.restoreLabels, hrestored]
  exact Store.triples_ofList hnodup

end

end OntoGraph.LinkedData
