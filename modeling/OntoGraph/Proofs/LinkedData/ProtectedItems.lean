import OntoGraph.Document.Labels
import OntoGraph.LinkedData.Expansion
import OntoGraph.Proofs.Lockstep

/-!
# Items with protected labels

A document is read with IRIs in place of its labels. Where reading it as it stands gives an item,
reading it in this way gives the same item with these IRIs in place of its blank nodes. The
relation goes both ways: no two identifiers become one, so that items say the same as each other
exactly if they did before.
-/

namespace OntoGraph.LinkedData

open Document (labelIriStart)

/-- What an identifier becomes when labels are protected: the name of a blank node becomes the IRI
for its label, and no other identifier is such an IRI. -/
inductive Identifier.Protected : Identifier → Identifier → Prop
  | blank (label : String) : Protected (.blank ("_:" ++ label)) (.iri (labelIriStart ++ label))
  | iri {name : String} (h : ∀ label, name ≠ labelIriStart ++ label) :
    Protected (.iri name) (.iri name)
  | invalid (text : String) : Protected (.invalid text) (.invalid text)

mutual

/-- What an item becomes when labels are protected. -/
inductive Item.Protected : Item → Item → Prop
  | literal (value : Literal) (index : Option String) :
    Item.Protected (.literal value index) (.literal value index)
  | list {items items' : List Item} (index : Option String)
    (h : List.Forall₂ Item.Protected items items') :
    Item.Protected (.list items index) (.list items' index)
  | node {id id' : Option Identifier} {types types' : List Identifier}
    {properties properties' reverse reverse' : List (Identifier × Item)}
    {graph graph' : Option (List Item)} {included included' : List Item} (index : Option String)
    (hid : Option.Rel Identifier.Protected id id')
    (htypes : List.Forall₂ Identifier.Protected types types')
    (hproperties : List.Forall₂ PairProtected properties properties')
    (hreverse : List.Forall₂ PairProtected reverse reverse')
    (hgraph : Option.Rel (List.Forall₂ Item.Protected) graph graph')
    (hincluded : List.Forall₂ Item.Protected included included') :
    Item.Protected (.node id types properties reverse graph included index)
      (.node id' types' properties' reverse' graph' included' index)

inductive PairProtected : Identifier × Item → Identifier × Item → Prop
  | mk {item item' : Item} (property : Identifier) (h : Item.Protected item item') :
    PairProtected (property, item) (property, item')

end

/-! ## Identifiers -/

/-- Different identifiers stay different, and equal ones equal. -/
theorem Identifier.Protected.eq_iff {i i' j j' : Identifier} (hi : i.Protected i')
    (hj : j.Protected j') : i = j ↔ i' = j' := by
  cases hi with
  | blank l =>
    cases hj with
    | blank m => simp [String.append_right_inj]
    | iri h => exact iff_of_false (by simp) fun heq ↦ h l (Identifier.iri.inj heq).symm
    | invalid => simp
  | iri h =>
    cases hj with
    | blank m => exact iff_of_false (by simp) fun heq ↦ h m (Identifier.iri.inj heq)
    | iri => rfl
    | invalid => simp
  | invalid =>
    cases hj with
    | blank => simp
    | iri => simp
    | invalid => rfl

theorem Identifier.Protected.beq_eq {i i' j j' : Identifier} (hi : i.Protected i')
    (hj : j.Protected j') : (i == j) = (i' == j') := by
  rw [Bool.eq_iff_iff, beq_iff_eq, beq_iff_eq, hi.eq_iff hj]

theorem Identifier.Protected.forall₂_beq_eq {is is' js js' : List Identifier}
    (hi : List.Forall₂ Identifier.Protected is is') (hj : List.Forall₂ Identifier.Protected js js') :
    (is == js) = (is' == js') := by
  induction hi generalizing js js' with
  | nil => cases hj <;> rfl
  | cons h _ ih =>
    cases hj with
    | nil => rfl
    | cons h' hrest => rw [List.cons_beq_cons, List.cons_beq_cons, h.beq_eq h', ih hrest]

/-! ## What items say -/

namespace Item

variable {items items' others others' : List Item}

/-- The same item is taken out of two lists. -/
theorem removeFirst?_congr {α β : Type} {R : α → β → Prop} {as : List α} {bs : List β}
    {p : α → Bool} {q : β → Bool} (h : List.Forall₂ R as bs) (hpq : ∀ a b, R a b → p a = q b) :
    Option.Rel (List.Forall₂ R) (removeFirst? p as) (removeFirst? q bs) := by
  induction h with
  | nil => exact .none
  | cons hab hrest ih =>
    unfold removeFirst?
    rw [hpq _ _ hab]
    split
    · exact .some hrest
    · exact Lockstep.map ih fun _ _ h ↦ .cons hab h

mutual

/-- Items say the same after labels are protected exactly if they did before. -/
theorem same_congr : ∀ (a : Item) {a' b b' : Item}, a.Protected a' → b.Protected b' →
    same a b = same a' b'
  | .literal _ _, _, _, _, ha, hb => by
    cases ha
    cases hb <;> simp only [same]
  | .list items _, _, _, _, ha, hb => by
    cases ha with
    | list _ h =>
      cases hb with
      | list _ h' => simp only [same, sameList_congr items h h']
      | _ => simp only [same]
  | .node id types properties reverse graph included _, _, _, _, ha, hb => by
    cases ha with
    | node _ hid htypes hproperties hreverse hgraph hincluded =>
      cases hb with
      | node _ hid' htypes' hproperties' hreverse' hgraph' hincluded' =>
        simp only [same, Lockstep.beq_eq hid hid' fun _ _ _ _ h h' ↦ h.beq_eq h',
          Identifier.Protected.forall₂_beq_eq htypes htypes',
          samePairs_congr properties hproperties hproperties',
          samePairs_congr reverse hreverse hreverse', sameGraph_congr graph hgraph hgraph',
          sameItems_congr included hincluded hincluded']
      | _ => simp only [same]

theorem sameList_congr : ∀ (items : List Item) {items' others others' : List Item},
    List.Forall₂ Protected items items' → List.Forall₂ Protected others others' →
    sameList items others = sameList items' others'
  | [], _, _, _, h, h' => by
    cases h
    cases h' <;> simp only [sameList]
  | item :: items, _, _, _, h, h' => by
    cases h with
    | cons ha hrest =>
      cases h' with
      | nil => simp only [sameList]
      | cons hb hrest' => simp only [sameList, same_congr item ha hb, sameList_congr items hrest hrest']

theorem sameItems_congr : ∀ (items : List Item) {items' others others' : List Item},
    List.Forall₂ Protected items items' → List.Forall₂ Protected others others' →
    sameItems items others = sameItems items' others'
  | [], _, _, _, h, h' => by
    cases h
    cases h' <;> simp only [sameItems, List.isEmpty_nil, List.isEmpty_cons]
  | item :: items, _, _, _, h, h' => by
    cases h with
    | cons ha hrest =>
      simp only [sameItems]
      have hleft := removeFirst?_congr h' fun b b' hb ↦ same_congr item ha hb
      revert hleft
      generalize removeFirst? _ _ = left, removeFirst? _ _ = left'
      rintro (hleft | _)
      · exact sameItems_congr items hrest hleft
      · rfl

theorem samePairs_congr : ∀ (pairs : List (Identifier × Item))
    {pairs' others others' : List (Identifier × Item)},
    List.Forall₂ PairProtected pairs pairs' → List.Forall₂ PairProtected others others' →
    samePairs pairs others = samePairs pairs' others'
  | [], _, _, _, h, h' => by
    cases h
    cases h' <;> simp only [samePairs, List.isEmpty_nil, List.isEmpty_cons]
  | (property, item) :: pairs, _, _, _, h, h' => by
    cases h with
    | cons ha hrest =>
      cases ha with
      | mk _ ha =>
        simp only [samePairs]
        have hleft := removeFirst?_congr (p := fun other ↦ property == other.1 && same item other.2)
          (q := fun other ↦ property == other.1 && same _ other.2) h' fun b b' hb ↦ by
            cases hb with
            | mk other hb => rw [same_congr item ha hb]
        revert hleft
        generalize removeFirst? _ _ = left, removeFirst? _ _ = left'
        rintro (hleft | _)
        · exact samePairs_congr pairs hrest hleft
        · rfl

theorem sameGraph_congr : ∀ (graph : Option (List Item)) {graph' other other' : Option (List Item)},
    Option.Rel (List.Forall₂ Protected) graph graph' →
    Option.Rel (List.Forall₂ Protected) other other' → sameGraph graph other = sameGraph graph' other'
  | none, _, _, _, h, h' => by
    cases h
    cases h' <;> simp only [sameGraph]
  | some items, _, _, _, h, h' => by
    cases h with
    | some h =>
      cases h' with
      | none => simp only [sameGraph]
      | some h' => simp only [sameGraph, sameItems_congr items h h']

end

/-- The same items are left out as repetitions. -/
theorem protected_distinct (h : List.Forall₂ Protected items items') :
    List.Forall₂ Protected (distinct items) (distinct items') := by
  have hany : ∀ {item item' : Item} {kept kept' : List Item}, item.Protected item' →
      List.Forall₂ Protected kept kept' → kept.any (same item) = kept'.any (same item') := by
    intro item item' kept kept' hitem hkept
    induction hkept with
    | nil => rfl
    | cons hother _ ih => rw [List.any_cons, List.any_cons, same_congr item hitem hother, ih]
  unfold distinct
  refine List.rel_foldl (fun kept kept' hkept item item' hitem ↦ ?_) .nil h
  rw [hany hitem hkept]
  split
  · exact hkept
  · exact List.rel_append hkept (.cons hitem .nil)

theorem Protected.asGraph {item item' : Item} (h : item.Protected item') :
    item.asGraph.Protected item'.asGraph :=
  .node none .none .nil .nil .nil (.some (.cons h .nil)) .nil

theorem Protected.content? {item item' : Item} (h : item.Protected item') :
    Option.Rel (List.Forall₂ Protected) item.content? item'.content? := by
  cases h with
  | literal => exact .none
  | list => exact .none
  | node i hid htypes hproperties hreverse hgraph hincluded =>
    cases hid with
    | some => exact .none
    | none =>
      cases htypes with
      | cons => exact .none
      | nil =>
        cases hproperties with
        | cons => exact .none
        | nil =>
          cases hreverse with
          | cons => exact .none
          | nil =>
            cases hgraph with
            | none => exact .none
            | some h =>
              cases hincluded with
              | nil => exact .some h
              | cons => exact .none

end Item

/-! ## Nodes -/

structure NodeParts.Protected (n n' : NodeParts) : Prop where
  id : Option.Rel Identifier.Protected n.id n'.id
  types : List.Forall₂ Identifier.Protected n.types n'.types
  properties : List.Forall₂ PairProtected n.properties n'.properties
  reverse : List.Forall₂ PairProtected n.reverse n'.reverse
  graph : Option.Rel (List.Forall₂ Item.Protected) n.graph n'.graph
  included : List.Forall₂ Item.Protected n.included n'.included
  index : n.index = n'.index

namespace NodeParts

theorem Protected.empty : NodeParts.Protected {} {} := ⟨.none, .nil, .nil, .nil, .none, .nil, rfl⟩

theorem Protected.toItem {n n' : NodeParts} (h : n.Protected n') :
    n.toItem.Protected n'.toItem := by
  unfold NodeParts.toItem
  rw [h.index]
  exact .node _ h.id h.types h.properties h.reverse h.graph h.included

theorem Protected.isEmpty {n n' : NodeParts} (h : n.Protected n') : n.isEmpty = n'.isEmpty := by
  unfold NodeParts.isEmpty
  rw [Lockstep.isEmpty_eq h.types, Lockstep.isEmpty_eq h.properties, Lockstep.isEmpty_eq h.reverse,
    Lockstep.isNone_eq h.graph, Lockstep.isEmpty_eq h.included]

theorem Protected.hasMember {n n' : NodeParts} (h : n.Protected n') (k : Keyword) :
    n.hasMember k = n'.hasMember k := by
  cases k with
  | id => exact Lockstep.isSome_eq h.id
  | index => exact congrArg Option.isSome h.index
  | graph => exact Lockstep.isSome_eq h.graph
  | reverse => exact congrArg not (Lockstep.isEmpty_eq h.reverse)
  | _ => rfl

end NodeParts

theorem Item.Protected.parts? {item item' : Item} (h : item.Protected item') :
    Option.Rel NodeParts.Protected item.parts? item'.parts? := by
  cases h with
  | literal => exact .none
  | list => exact .none
  | node i hid htypes hproperties hreverse hgraph hincluded =>
    exact .some ⟨hid, htypes, hproperties, hreverse, hgraph, hincluded, rfl⟩

theorem protected_nodes? {items items' : List Item} (h : List.Forall₂ Item.Protected items items') :
    Option.Rel (List.Forall₂ Item.Protected) (nodes? items) (nodes? items') :=
  Lockstep.mapM h fun _ _ hitem ↦ Lockstep.map hitem.parts? fun _ _ _ ↦ hitem

theorem protected_values {items items' : List Item} (property : Identifier)
    (h : List.Forall₂ Item.Protected items items') :
    List.Forall₂ PairProtected (items.map (property, ·)) (items'.map (property, ·)) := by
  rw [List.forall₂_map_left_iff, List.forall₂_map_right_iff]
  exact h.imp fun _ _ hitem ↦ .mk property hitem

/-! ## Expanded values -/

inductive Expanded.Protected : Expanded → Expanded → Prop
  | nothing : Protected .nothing .nothing
  | single {item item' : Item} (h : item.Protected item') : Protected (.single item) (.single item')
  | many {items items' : List Item} (h : List.Forall₂ Item.Protected items items') :
    Protected (.many items) (.many items')

theorem Expanded.Protected.items {e e' : Expanded} (h : e.Protected e') :
    List.Forall₂ Item.Protected e.items e'.items := by
  cases h with
  | nothing => exact .nil
  | single h => exact .cons h .nil
  | many h => exact h

theorem Expanded.Protected.isList {e e' : Expanded} (h : e.Protected e') :
    e.isList = e'.isList := by
  cases h with
  | nothing => rfl
  | single h => cases h <;> rfl
  | many h => rfl

theorem NodeParts.Protected.addValues? {n n' : NodeParts} (h : n.Protected n') {e e' : Expanded}
    (he : e.Protected e') (definition : TermDefinition) (i : Identifier) :
    Option.Rel NodeParts.Protected (n.addValues? definition i e) (n'.addValues? definition i e') := by
  have hplaced : ∀ {items items' : List Item}, List.Forall₂ Item.Protected items items' →
      Option.Rel NodeParts.Protected
        (if definition.isReverse then
          (nodes? items).map fun nodes ↦ { n with reverse := n.reverse ++ nodes.map (i, ·) }
        else some { n with properties := n.properties ++ items.map (i, ·) })
        (if definition.isReverse then
          (nodes? items').map fun nodes ↦ { n' with reverse := n'.reverse ++ nodes.map (i, ·) }
        else some { n' with properties := n'.properties ++ items'.map (i, ·) }) := by
    intro items items' hitems
    split
    · refine Lockstep.map (protected_nodes? hitems) fun nodes nodes' hnodes ↦ ?_
      exact { h with reverse := List.rel_append h.reverse (protected_values i hnodes) }
    · exact .some { h with properties := List.rel_append h.properties (protected_values i hitems) }
  have harranged : ∀ (asList asGraph : Bool) {items items' : List Item},
      List.Forall₂ Item.Protected items items' → List.Forall₂ Item.Protected
        (if asGraph then (if asList then [Item.list items none] else items).map Item.asGraph
          else if asList then [Item.list items none] else items)
        (if asGraph then (if asList then [Item.list items' none] else items').map Item.asGraph
          else if asList then [Item.list items' none] else items') := by
    intro asList asGraph items items' hitems
    have hlist : List.Forall₂ Item.Protected (if asList then [Item.list items none] else items)
        (if asList then [Item.list items' none] else items') := by
      cases asList with
      | true => exact .cons (.list none hitems) .nil
      | false => exact hitems
    cases asGraph with
    | true =>
      rw [if_pos rfl, if_pos rfl, List.forall₂_map_left_iff, List.forall₂_map_right_iff]
      exact hlist.imp fun _ _ hitem ↦ hitem.asGraph
    | false => exact hlist
  unfold NodeParts.addValues?
  cases he with
  | nothing => exact .some h
  | single hitem =>
    dsimp only
    rw [(Expanded.Protected.single hitem).isList]
    exact hplaced (harranged _ _ (.cons hitem .nil))
  | many hitems => exact hplaced (harranged _ _ hitems)

end OntoGraph.LinkedData
