import OntoGraph.LinkedData.Statement
import OntoGraph.Proofs.LinkedData.ProtectedItems
import OntoGraph.Proofs.Number.Digits
import OntoGraph.Proofs.SortedMap

/-!
# Statements about nodes with protected labels

Taking a document apart gives new labels to its blank nodes. Where labels are protected only the
nodes without a name get one, so that the two runs give out different numbers. Every number of
the one run stands for a label of the document or for a number of the other run; the list of what
the numbers stand for grows with the runs and holds nothing twice.
-/

namespace OntoGraph.LinkedData

open Document (labelIriStart)

/-! ## What numbers stand for -/

/-- What a numbered blank node is where labels are protected: the IRI for a label of the document,
or another numbered blank node. -/
inductive Mark where
  | label (name : String)
  | fresh (n : Nat)
  deriving DecidableEq

def Mark.identifier : Mark → Identifier
  | .label name => .iri (labelIriStart ++ name)
  | .fresh n => .blank (toString n)

theorem toString_injective {m n : Nat} (h : toString m = toString n) : m = n :=
  Number.append_toString_injective (congrArg ("" ++ ·) h)

theorem Mark.identifier_injective {a b : Mark} (h : a.identifier = b.identifier) : a = b := by
  cases a with
  | label l =>
    cases b with
    | label m => rw [(String.append_right_inj _).1 (Identifier.iri.inj h)]
    | fresh => cases h
  | fresh m =>
    cases b with
    | label => cases h
    | fresh n => rw [toString_injective (Identifier.blank.inj h)]

/-- Two identifiers name one node, when the numbers of the first stand for the marks. -/
inductive Identifier.Marked (marks : List Mark) : Identifier → Identifier → Prop
  | blank {k : Nat} {mark : Mark} (h : marks[k]? = some mark) :
    Marked marks (.blank (toString k)) mark.identifier
  | iri {name : String} (h : ∀ label, name ≠ labelIriStart ++ label) :
    Marked marks (.iri name) (.iri name)
  | invalid (text : String) : Marked marks (.invalid text) (.invalid text)

/-- Two values say the same, when the numbers of the first stand for the marks. -/
inductive Value.Marked (marks : List Mark) : Value → Value → Prop
  | node {id id' : Identifier} (h : id.Marked marks id') : Marked marks (.node id) (.node id')
  | literal (value : Literal) : Marked marks (.literal value) (.literal value)
  | list {items items' : List Value} (h : List.Forall₂ (Marked marks) items items') :
    Marked marks (.list items) (.list items')

/-- Two statements say the same, when the numbers of the first stand for the marks. -/
structure Statement.Marked (marks : List Mark) (s s' : Statement) : Prop where
  graph : Option.Rel (Identifier.Marked marks) s.graph s'.graph
  subject : s.subject.Marked marks s'.subject
  predicate : s.predicate = s'.predicate
  value : s.value.Marked marks s'.value

section

variable {marks : List Mark}

/-! ### More marks -/

theorem Identifier.Marked.append {i i' : Identifier} (h : i.Marked marks i') (more : List Mark) :
    i.Marked (marks ++ more) i' := by
  cases h with
  | blank h =>
    refine .blank ?_
    rw [List.getElem?_append_left (List.getElem?_eq_some_iff.1 h).1, h]
  | iri h => exact .iri h
  | invalid text => exact .invalid text

mutual

theorem Value.Marked.append (more : List Mark) : ∀ (v : Value) {v' : Value},
    v.Marked marks v' → v.Marked (marks ++ more) v'
  | .node _, _, h => by
    cases h with
    | node h => exact .node (h.append more)
  | .literal _, _, h => by
    cases h
    exact .literal _
  | .list items, _, h => by
    cases h with
    | list h => exact .list (Value.Marked.append_items more items h)

theorem Value.Marked.append_items (more : List Mark) : ∀ (items : List Value)
    {items' : List Value}, List.Forall₂ (Value.Marked marks) items items' →
    List.Forall₂ (Value.Marked (marks ++ more)) items items'
  | [], _, h => by
    cases h
    exact .nil
  | item :: items, _, h => by
    cases h with
    | cons hitem hitems =>
      exact .cons (Value.Marked.append more item hitem) (Value.Marked.append_items more items hitems)

end

theorem Statement.Marked.append {s s' : Statement} (h : s.Marked marks s') (more : List Mark) :
    s.Marked (marks ++ more) s' where
  graph := Lockstep.imp h.graph fun _ _ hi ↦ hi.append more
  subject := h.subject.append more
  predicate := h.predicate
  value := Value.Marked.append more s.value h.value

/-! ### Equality -/

/-- Different marks stand for different nodes. -/
theorem Identifier.Marked.eq_iff (hmarks : marks.Nodup) {i i' j j' : Identifier}
    (hi : i.Marked marks i') (hj : j.Marked marks j') : i = j ↔ i' = j' := by
  cases hi with
  | @blank k mark hk =>
    cases hj with
    | @blank l mark' hl =>
      constructor
      · intro heq
        obtain rfl := toString_injective (Identifier.blank.inj heq)
        rw [hk] at hl
        rw [Option.some.inj hl]
      · intro heq
        obtain rfl := Mark.identifier_injective heq
        have hindex : k = l := (List.getElem?_inj (List.getElem?_eq_some_iff.1 hk).1 hmarks).1
          (hk.trans hl.symm)
        rw [hindex]
    | iri h =>
      refine iff_of_false nofun ?_
      cases mark with
      | label name => exact fun heq ↦ h name (Identifier.iri.inj heq).symm
      | fresh => nofun
    | invalid =>
      refine iff_of_false nofun ?_
      cases mark <;> nofun
  | iri h =>
    cases hj with
    | @blank l mark hl =>
      refine iff_of_false nofun ?_
      cases mark with
      | label name => exact fun heq ↦ h name (Identifier.iri.inj heq)
      | fresh => nofun
    | iri => rfl
    | invalid => exact iff_of_false nofun nofun
  | invalid =>
    cases hj with
    | @blank l mark hl =>
      refine iff_of_false nofun ?_
      cases mark <;> nofun
    | iri => exact iff_of_false nofun nofun
    | invalid => rfl

theorem Identifier.Marked.beq_eq (hmarks : marks.Nodup) {i i' j j' : Identifier}
    (hi : i.Marked marks i') (hj : j.Marked marks j') : (i == j) = (i' == j') := by
  rw [Bool.eq_iff_iff, beq_iff_eq, beq_iff_eq, hi.eq_iff hmarks hj]

mutual

theorem Value.Marked.same_eq (hmarks : marks.Nodup) : ∀ (v : Value) {v' w w' : Value},
    v.Marked marks v' → w.Marked marks w' → Value.same v w = Value.same v' w'
  | .node _, _, _, _, hv, hw => by
    cases hv with
    | node h =>
      cases hw with
      | node h' => exact h.beq_eq hmarks h'
      | _ => rfl
  | .literal _, _, _, _, hv, hw => by
    cases hv
    cases hw <;> rfl
  | .list items, _, _, _, hv, hw => by
    cases hv with
    | list h =>
      cases hw with
      | list h' => exact Value.Marked.sameItems_eq hmarks items h h'
      | _ => rfl

theorem Value.Marked.sameItems_eq (hmarks : marks.Nodup) : ∀ (items : List Value)
    {items' others others' : List Value}, List.Forall₂ (Value.Marked marks) items items' →
    List.Forall₂ (Value.Marked marks) others others' →
    Value.sameItems items others = Value.sameItems items' others'
  | [], _, _, _, h, h' => by
    cases h
    cases h' <;> rfl
  | item :: items, _, _, _, h, h' => by
    cases h with
    | cons hitem hitems =>
      cases h' with
      | nil => rfl
      | cons hother hothers =>
        simp only [Value.sameItems, Value.Marked.same_eq hmarks item hitem hother,
          Value.Marked.sameItems_eq hmarks items hitems hothers]

end

theorem Statement.Marked.beq_eq (hmarks : marks.Nodup) {s s' t t' : Statement}
    (hs : s.Marked marks s') (ht : t.Marked marks t') : (s == t) = (s' == t') := by
  have hgraph : (s.graph == t.graph) = (s'.graph == t'.graph) :=
    Lockstep.beq_eq hs.graph ht.graph fun _ _ _ _ hi hj ↦ hi.beq_eq hmarks hj
  have hvalue : (s.value == t.value) = (s'.value == t'.value) :=
    Value.Marked.same_eq hmarks s.value hs.value ht.value
  have hsubject := hs.subject.beq_eq hmarks ht.subject
  obtain ⟨graph, subject, predicate, value⟩ := s
  obtain ⟨graph', subject', predicate', value'⟩ := s'
  obtain rfl : predicate = predicate' := hs.predicate
  obtain ⟨other, otherSubject, otherPredicate, otherValue⟩ := t
  obtain ⟨other', otherSubject', otherPredicate', otherValue'⟩ := t'
  obtain rfl : otherPredicate = otherPredicate' := ht.predicate
  change (graph == other && (subject == otherSubject &&
      (predicate == otherPredicate && value == otherValue))) =
    (graph' == other' && (subject' == otherSubject' &&
      (predicate == otherPredicate && value' == otherValue')))
  rw [hgraph, hsubject, hvalue]

end

/-! ## Two runs -/

/-- The numbers of the first run, up to `m`, stand for the marks, among which are only numbers of
the second run below `n`, and nothing twice. -/
structure Numbered (marks : List Mark) (m n : Nat) : Prop where
  count : m = marks.length
  fresh : ∀ k, Mark.fresh k ∈ marks → k < n
  nodup : marks.Nodup

namespace Numbered

variable {marks : List Mark} {m n : Nat}

theorem getElem?_concat (h : Numbered marks m n) (mark : Mark) :
    (marks ++ [mark])[m]? = some mark := by
  rw [h.count, List.getElem?_concat_length]

theorem nodup_concat (h : Numbered marks m n) {mark : Mark} (hnew : mark ∉ marks) :
    (marks ++ [mark]).Nodup := by
  refine List.nodup_append.2 ⟨h.nodup, by simp, ?_⟩
  rintro other hother _ hmark rfl
  exact hnew (List.mem_singleton.1 hmark ▸ hother)

/-- A label of the document that is new to the first run. -/
theorem concat_label (h : Numbered marks m n) {name : String} (hnew : Mark.label name ∉ marks) :
    Numbered (marks ++ [.label name]) (m + 1) n where
  count := by rw [h.count, List.length_append, List.length_singleton]
  fresh k hk := by
    rcases List.mem_append.1 hk with hk | hk
    · exact h.fresh k hk
    · cases List.mem_singleton.1 hk
  nodup := h.nodup_concat hnew

/-- A blank node without a name that is new to both runs. -/
theorem concat_fresh (h : Numbered marks m n) :
    Numbered (marks ++ [.fresh n]) (m + 1) (n + 1) where
  count := by rw [h.count, List.length_append, List.length_singleton]
  fresh k hk := by
    rcases List.mem_append.1 hk with hk | hk
    · exact Nat.lt_succ_of_lt (h.fresh k hk)
    · cases List.mem_singleton.1 hk
      exact Nat.lt_succ_self _
  nodup := h.nodup_concat fun hmem ↦ Nat.lt_irrefl _ (h.fresh n hmem)

end Numbered

/-- The states of the two runs, when the numbers given out by the first stand for the marks. -/
structure Paired (marks : List Mark) (a b : Collection) : Prop where
  numbered : Numbered marks a.labelCount b.labelCount
  known : ∀ name label, a.labels.get? ("_:" ++ name) = some label →
    ∃ k : Nat, marks[k]? = some (.label name) ∧ label = toString k
  unknown : ∀ name, a.labels.get? ("_:" ++ name) = none → Mark.label name ∉ marks
  statements : List.Forall₂ (Statement.Marked marks) a.statements.toList b.statements.toList
  indices : List.Forall₂ (fun p q ↦ Option.Rel (Identifier.Marked marks) p.1.1 q.1.1 ∧
    p.1.2.Marked marks q.1.2 ∧ p.2 = q.2) a.indices b.indices

theorem paired_empty : Paired [] {} {} where
  numbered := ⟨rfl, nofun, .nil⟩
  known := nofun
  unknown := nofun
  statements := .nil
  indices := .nil

/-- One more number is given out, for a mark that none stands for yet. -/
theorem Paired.concat {marks : List Mark} {a b a' b' : Collection} (h : Paired marks a b)
    {mark : Mark} (hnumbered : Numbered (marks ++ [mark]) a'.labelCount b'.labelCount)
    (hlabels : ∀ name, a'.labels.get? ("_:" ++ name) =
      if mark = .label name then some (toString a.labelCount) else a.labels.get? ("_:" ++ name))
    (hstatements : a'.statements = a.statements ∧ b'.statements = b.statements)
    (hindices : a'.indices = a.indices ∧ b'.indices = b.indices) :
    Paired (marks ++ [mark]) a' b' where
  numbered := hnumbered
  known name label hlabel := by
    rw [hlabels] at hlabel
    split_ifs at hlabel with heq
    · exact ⟨a.labelCount, heq ▸ h.numbered.getElem?_concat mark, (Option.some.inj hlabel).symm⟩
    · obtain ⟨k, hk, rfl⟩ := h.known name label hlabel
      exact ⟨k, by rw [List.getElem?_append_left (List.getElem?_eq_some_iff.1 hk).1, hk], rfl⟩
  unknown name hname := by
    rw [hlabels] at hname
    split_ifs at hname with heq
    intro hmem
    rcases List.mem_append.1 hmem with hmem | hmem
    · exact h.unknown name hname hmem
    · exact heq (List.mem_singleton.1 hmem).symm
  statements := by
    rw [hstatements.1, hstatements.2]
    exact h.statements.imp fun _ _ hs ↦ hs.append _
  indices := by
    rw [hindices.1, hindices.2]
    exact h.indices.imp fun _ _ ⟨hgraph, hid, hindex⟩ ↦
      ⟨Lockstep.imp hgraph fun _ _ hi ↦ hi.append _, hid.append _, hindex⟩

/-- Two runs follow each other from paired states: both fail, or both lead to paired states, with
related results. The marks are those before the runs. -/
def Follows {α β : Type} (marks : List Mark) (P : List Mark → α → β → Prop) (x : Collecting α)
    (y : Collecting β) : Prop :=
  ∀ a b, Paired marks a b → Option.Rel (fun p q ↦ ∃ more, Paired (marks ++ more) p.2 q.2 ∧
    P (marks ++ more) p.1 q.1) (x.run a) (y.run b)

namespace Follows

variable {α β γ δ : Type} {marks : List Mark} {P : List Mark → α → β → Prop}
  {Q : List Mark → γ → δ → Prop}

theorem pure {x : α} {y : β} (h : P marks x y) : Follows marks P (pure x) (pure y) :=
  fun _ _ hab ↦ .some ⟨[], by rwa [List.append_nil], by rwa [List.append_nil]⟩

theorem bind {x : Collecting α} {y : Collecting β} {f : α → Collecting γ} {g : β → Collecting δ}
    (h : Follows marks P x y)
    (hnext : ∀ more v w, P (marks ++ more) v w → Follows (marks ++ more) Q (f v) (g w)) :
    Follows marks Q (x >>= f) (y >>= g) := by
  intro a b hab
  rw [StateT.run_bind, StateT.run_bind]
  refine Lockstep.bind (h a b hab) ?_
  rintro ⟨v, a'⟩ ⟨w, b'⟩ ⟨more, hpaired, hP⟩
  refine Lockstep.imp (hnext more v w hP a' b' hpaired) ?_
  rintro p q ⟨more', hpaired', hQ⟩
  refine ⟨more ++ more', ?_, ?_⟩ <;> rw [← List.append_assoc]
  · exact hpaired'
  · exact hQ

theorem failure : Follows marks P failure failure := fun _ _ _ ↦ .none

/-- A loop over related items. What more marks keep may be used in each round and afterwards. -/
theorem forIn {R : α → β → Prop} {I : List Mark → Prop} {as : List α} {bs : List β}
    {f : α → PUnit → Collecting (ForInStep PUnit)} {g : β → PUnit → Collecting (ForInStep PUnit)}
    {x : Collecting γ} {y : Collecting δ} (h : List.Forall₂ R as bs) (hI : I marks)
    (hmore : ∀ marks more, I marks → I (marks ++ more))
    (hbody : ∀ marks a b, I marks → R a b →
      Follows marks (fun _ x y ↦ x = .yield ⟨⟩ ∧ y = .yield ⟨⟩) (f a ⟨⟩) (g b ⟨⟩))
    (hrest : ∀ marks, I marks → Follows marks Q x y) :
    Follows marks Q (forIn as PUnit.unit f >>= fun _ ↦ x)
      (forIn bs PUnit.unit g >>= fun _ ↦ y) := by
  induction h generalizing marks with
  | nil => exact hrest marks hI
  | cons hab _ ih =>
    rw [List.forIn_cons, List.forIn_cons, bind_assoc, bind_assoc]
    refine (hbody marks _ _ hI hab).bind ?_
    rintro more _ _ ⟨rfl, rfl⟩
    exact ih (hmore marks more hI)

theorem mapM {R : α → β → Prop} {as : List α} {bs : List β} {f : α → Collecting γ}
    {g : β → Collecting δ} (h : List.Forall₂ R as bs)
    (hmore : ∀ marks more v w, Q marks v w → Q (marks ++ more) v w)
    (hbody : ∀ more a b, R a b → Follows (marks ++ more) Q (f a) (g b)) :
    Follows marks (fun marks ↦ List.Forall₂ (Q marks)) (as.mapM f) (bs.mapM g) := by
  induction h generalizing marks with
  | nil => exact .pure .nil
  | cons hab hrest ih =>
    rw [List.mapM_cons, List.mapM_cons]
    have hfirst := hbody [] _ _ hab
    rw [List.append_nil] at hfirst
    refine hfirst.bind fun more v w hvw ↦ ?_
    refine Follows.bind (ih fun more' a b hab ↦ ?_) fun more' vs ws hvws ↦ ?_
    · rw [List.append_assoc]
      exact hbody (more ++ more') a b hab
    · exact .pure (.cons (hmore _ _ _ _ hvw) hvws)

end Follows

/-! ## Steps -/

section

variable {marks : List Mark}

theorem follows_freshLabel : Follows marks
    (fun marks label label' ↦ Identifier.Marked marks (.blank label) (.blank label'))
    freshLabel freshLabel := by
  intro a b hab
  have hnumbered := hab.numbered.concat_fresh
  have hmark := hab.numbered.getElem?_concat (.fresh b.labelCount)
  exact .some ⟨_, hab.concat hnumbered (fun name ↦ by rw [if_neg nofun]) ⟨rfl, rfl⟩ ⟨rfl, rfl⟩,
    .blank hmark⟩

theorem run_relabel_blank (name : String) (a : Collection) : (relabel (.blank name)).run a =
    match a.labels.get? name with
    | some label => some (.blank label, a)
    | none => some (.blank (toString a.labelCount), { a with
        labelCount := a.labelCount + 1
        labels := a.labels.insert name (toString a.labelCount) }) := by
  change (match a.labels.get? name with
    | some label => pure (.blank label)
    | none => do
      let label ← freshLabel
      modify fun c ↦ { c with labels := c.labels.insert name label }
      return .blank label : Collecting Identifier).run a = _
  split <;> rfl

theorem follows_relabel {i i' : Identifier} (h : i.Protected i') :
    Follows marks Identifier.Marked (relabel i) (relabel i') := by
  cases h with
  | iri h => exact .pure (.iri h)
  | invalid text => exact .pure (.invalid text)
  | blank name =>
    intro a b hab
    rw [run_relabel_blank]
    cases hlabel : a.labels.get? ("_:" ++ name) with
    | some label =>
      obtain ⟨k, hk, rfl⟩ := hab.known name label hlabel
      refine .some ⟨[], ?_, ?_⟩ <;> rw [List.append_nil]
      · exact hab
      · exact .blank hk
    | none =>
      have hnumbered := hab.numbered.concat_label (hab.unknown name hlabel)
      have hmark := hab.numbered.getElem?_concat (.label name)
      refine .some ⟨_, hab.concat hnumbered (fun other ↦ ?_) ⟨rfl, rfl⟩ ⟨rfl, rfl⟩, .blank hmark⟩
      rw [SortedMap.get?_insert]
      simp only [String.append_right_inj, Mark.label.injEq, eq_comm]

theorem follows_nameNode {id id' : Option Identifier} (h : Option.Rel Identifier.Protected id id') :
    Follows marks Identifier.Marked (nameNode id) (nameNode id') := by
  cases h with
  | some h => exact follows_relabel h
  | none => exact follows_freshLabel.bind fun _ _ _ hlabel ↦ .pure hlabel

theorem follows_noteIndex {graph graph' : Option Identifier} {id id' : Identifier}
    (hgraph : Option.Rel (Identifier.Marked marks) graph graph') (hid : id.Marked marks id')
    (index : Option String) : Follows marks (fun _ _ _ ↦ True) (noteIndex graph id index)
      (noteIndex graph' id' index) := by
  cases index with
  | none => exact .pure trivial
  | some index =>
    intro a b hab
    have hlookup : a.indices.lookup (graph, id) = b.indices.lookup (graph', id') := by
      have hindices := hab.indices
      generalize a.indices = indices, b.indices = indices' at hindices
      induction hindices with
      | nil => rfl
      | @cons p q _ _ hpq _ ih =>
        obtain ⟨hpgraph, hpid, hindex⟩ := hpq
        obtain ⟨⟨pgraph, pid⟩, pindex⟩ := p
        obtain ⟨⟨qgraph, qid⟩, qindex⟩ := q
        obtain rfl : pindex = qindex := hindex
        have hkey : ((graph, id) == (pgraph, pid)) = ((graph', id') == (qgraph, qid)) := by
          change (graph == pgraph && id == pid) = (graph' == qgraph && id' == qid)
          rw [hid.beq_eq hab.numbered.nodup hpid, Lockstep.beq_eq hgraph hpgraph fun _ _ _ _ hi hj ↦
            hi.beq_eq hab.numbered.nodup hj]
        rw [List.lookup_cons, List.lookup_cons, hkey, ih]
    have hrun : ∀ (graph : Option Identifier) (id : Identifier) (c : Collection),
        (noteIndex graph id (some index)).run c =
          match c.indices.lookup (graph, id) with
          | some other => if other ≠ index then none else some ((), c)
          | none => some ((), { c with indices := ((graph, id), index) :: c.indices }) := by
      intro graph id c
      change (match c.indices.lookup (graph, id) with
        | some other => if other ≠ index then failure else pure ()
        | none => modify fun c ↦ { c with indices := ((graph, id), index) :: c.indices } :
          Collecting Unit).run c = _
      split
      · split <;> rfl
      · rfl
    rw [hrun, hrun, hlookup]
    split
    · split
      · exact .none
      · exact .some ⟨[], by rwa [List.append_nil], trivial⟩
    · refine .some ⟨[], ?_, trivial⟩
      rw [List.append_nil]
      exact { hab with indices := .cons ⟨hgraph, hid, rfl⟩ hab.indices }

theorem follows_state {t t' : Statement} (h : t.Marked marks t') :
    Follows marks (fun _ _ _ ↦ True) (state t) (state t') := by
  intro a b hab
  have hcontains : a.statements.contains t = b.statements.contains t' := by
    rw [← Array.contains_toList, ← Array.contains_toList]
    have hstatements := hab.statements
    generalize a.statements.toList = made, b.statements.toList = made' at hstatements
    induction hstatements with
    | nil => rfl
    | cons hs _ ih => rw [List.contains_cons, List.contains_cons, ih, h.beq_eq hab.numbered.nodup hs]
  have hpush : Paired marks { a with statements := a.statements.push t }
      { b with statements := b.statements.push t' } := by
    refine { hab with statements := ?_ }
    rw [Array.toList_push, Array.toList_push]
    exact List.rel_append hab.statements (.cons h .nil)
  refine .some ⟨[], ?_, trivial⟩
  rw [List.append_nil]
  obtain ⟨graph, subject, predicate, value⟩ := t
  obtain ⟨graph', subject', predicate', value'⟩ := t'
  obtain hvalue : value.Marked marks value' := h.value
  cases hvalue with
  | node => exact hpush
  | literal => exact hpush
  | list =>
    dsimp only
    rw [hcontains]
    split
    · exact hab
    · exact hpush

/-- Taking items and nodes apart follows the same with protected labels, to a given depth. -/
structure CollectsAlike (fuel : Nat) : Prop where
  item : ∀ {marks graph graph' item item'}, Option.Rel (Identifier.Marked marks) graph graph' →
    item.Protected item' → Follows marks Value.Marked (collect fuel graph item)
      (collect fuel graph' item')
  node : ∀ {marks graph graph' n n'}, Option.Rel (Identifier.Marked marks) graph graph' →
    n.Protected n' → Follows marks Identifier.Marked (collectNode fuel graph n)
      (collectNode fuel graph' n')

theorem marked_graph {graph graph' : Option Identifier}
    (h : Option.Rel (Identifier.Marked marks) graph graph') (more : List Mark) :
    Option.Rel (Identifier.Marked (marks ++ more)) graph graph' :=
  Lockstep.imp h fun _ _ hid ↦ hid.append more

theorem follows_collect {fuel : Nat} (ih : CollectsAlike fuel) {graph graph' : Option Identifier}
    {item item' : Item} (hgraph : Option.Rel (Identifier.Marked marks) graph graph')
    (h : item.Protected item') :
    Follows marks Value.Marked (collect (fuel + 1) graph item) (collect (fuel + 1) graph' item') := by
  unfold collect
  cases h with
  | literal value => exact .pure (.literal value)
  | list index hitems =>
    refine Follows.bind (Follows.mapM hitems (fun _ more v _ h ↦ Value.Marked.append more v h)
      fun more item item' hitem ↦ ih.item (marked_graph hgraph more) hitem) fun more vs ws h ↦ ?_
    exact .pure (.list h)
  | node index hid htypes hproperties hreverse hnamed hincluded =>
    refine Follows.bind (ih.node hgraph
      ⟨hid, htypes, hproperties, hreverse, hnamed, hincluded, rfl⟩) fun more i i' h ↦ ?_
    exact .pure (.node h)

/-- A round of a loop that ends in a statement. -/
theorem follows_round {graph graph' : Option Identifier} {subject subject' : Identifier}
    {value value' : Value} (hgraph : Option.Rel (Identifier.Marked marks) graph graph')
    (hsubject : subject.Marked marks subject') (property : Identifier)
    (hvalue : value.Marked marks value') :
    Follows marks (fun _ x y ↦ x = ForInStep.yield PUnit.unit ∧ y = ForInStep.yield PUnit.unit)
      (do
        state ⟨graph, subject, property, value⟩
        return .yield PUnit.unit)
      (do
        state ⟨graph', subject', property, value'⟩
        return .yield PUnit.unit) := by
  have hstatement : Statement.Marked marks ⟨graph, subject, property, value⟩
      ⟨graph', subject', property, value'⟩ := ⟨hgraph, hsubject, rfl, hvalue⟩
  exact (follows_state hstatement).bind fun _ _ _ _ ↦ .pure ⟨rfl, rfl⟩

/-- The value of a property becomes a statement about the node. -/
theorem follows_property {fuel : Nat} (ih : CollectsAlike fuel) {graph graph' : Option Identifier}
    {id id' : Identifier} (hgraph : Option.Rel (Identifier.Marked marks) graph graph')
    (hid : id.Marked marks id') {item item' : Item} (property : Identifier)
    (h : item.Protected item') :
    Follows marks (fun _ x y ↦ x = ForInStep.yield PUnit.unit ∧ y = ForInStep.yield PUnit.unit)
      (do
        let value ← collect fuel graph item
        state ⟨graph, id, property, value⟩
        return .yield PUnit.unit)
      (do
        let value ← collect fuel graph' item'
        state ⟨graph', id', property, value⟩
        return .yield PUnit.unit) := by
  refine (ih.item hgraph h).bind fun more value value' hvalue ↦ ?_
  exact follows_round (marked_graph hgraph more) (hid.append more) property hvalue

/-- The node becomes the value of a property of the nodes in a reverse property. -/
theorem follows_reverse {fuel : Nat} (ih : CollectsAlike fuel) {graph graph' : Option Identifier}
    {id id' : Identifier} (hgraph : Option.Rel (Identifier.Marked marks) graph graph')
    (hid : id.Marked marks id') {item item' : Item} (property : Identifier)
    (h : item.Protected item') :
    Follows marks (fun _ x y ↦ x = ForInStep.yield PUnit.unit ∧ y = ForInStep.yield PUnit.unit)
      (do
        match ← collect fuel graph item with
        | .node subject =>
          state ⟨graph, subject, property, .node id⟩
          return .yield PUnit.unit
        | _ =>
          failure
          return .yield PUnit.unit)
      (do
        match ← collect fuel graph' item' with
        | .node subject =>
          state ⟨graph', subject, property, .node id'⟩
          return .yield PUnit.unit
        | _ =>
          failure
          return .yield PUnit.unit) := by
  refine (ih.item hgraph h).bind fun more value value' hvalue ↦ ?_
  cases hvalue with
  | node hsubject =>
    exact follows_round (marked_graph hgraph more) hsubject property (.node (hid.append more))
  | literal => exact .failure
  | list => exact .failure

theorem follows_collectNode {fuel : Nat} (ih : CollectsAlike fuel)
    {graph graph' : Option Identifier} {n n' : NodeParts}
    (hgraph : Option.Rel (Identifier.Marked marks) graph graph') (hn : n.Protected n') :
    Follows marks Identifier.Marked (collectNode (fuel + 1) graph n)
      (collectNode (fuel + 1) graph' n') := by
  unfold collectNode
  refine (follows_nameNode hn.id).bind fun more id id' hid ↦ ?_
  rw [hn.index]
  refine (follows_noteIndex (marked_graph hgraph more) hid _).bind fun more' _ _ _ ↦ ?_
  -- each loop keeps the names of the graph and of the node
  let I : List Mark → Prop := fun marks ↦
    Option.Rel (Identifier.Marked marks) graph graph' ∧ id.Marked marks id'
  have hmore : ∀ marks more, I marks → I (marks ++ more) :=
    fun marks more hI ↦ ⟨marked_graph hI.1 more, hI.2.append more⟩
  have hI : I (marks ++ more ++ more') :=
    ⟨marked_graph (marked_graph hgraph more) more', hid.append more'⟩
  have hcontent : List.Forall₂ Item.Protected (n.graph.getD []) (n'.graph.getD []) := by
    have hcontent := hn.graph
    generalize n.graph = content, n'.graph = content' at hcontent
    cases hcontent with
    | none => exact .nil
    | some h => exact h
  refine Follows.forIn hn.types hI hmore (fun marks type type' hI htype ↦ ?_) fun marks hI ↦ ?_
  · refine (follows_relabel htype).bind fun more i i' hi ↦ ?_
    exact follows_round (marked_graph hI.1 more) (hI.2.append more) _ (.node hi)
  refine Follows.forIn hcontent hI hmore (fun marks item item' hI hitem ↦ ?_) fun marks hI ↦ ?_
  · exact (ih.item (.some hI.2) hitem).bind fun _ _ _ _ ↦ .pure ⟨rfl, rfl⟩
  refine Follows.forIn hn.included hI hmore (fun marks item item' hI hitem ↦ ?_) fun marks hI ↦ ?_
  · exact (ih.item hI.1 hitem).bind fun _ _ _ _ ↦ .pure ⟨rfl, rfl⟩
  refine Follows.forIn hn.properties hI hmore (fun marks p p' hI hp ↦ ?_) fun marks hI ↦ ?_
  · cases hp with
    | mk property h => exact follows_property ih hI.1 hI.2 property h
  refine Follows.forIn hn.reverse hI hmore (fun marks p p' hI hp ↦ ?_) fun marks hI ↦ .pure hI.2
  cases hp with
  | mk property h => exact follows_reverse ih hI.1 hI.2 property h

theorem collectsAlike (fuel : Nat) : CollectsAlike fuel := by
  induction fuel with
  | zero => exact ⟨fun _ _ ↦ .failure, fun _ _ ↦ .failure⟩
  | succ fuel ih => exact ⟨follows_collect ih, follows_collectNode ih⟩

end

end OntoGraph.LinkedData
