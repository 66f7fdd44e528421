import OntoGraph.Proofs.Document.LiteralValues
import OntoGraph.Proofs.Document.RoundTrip
import OntoGraph.Proofs.Document.TakenStatements

/-!
# Documents that are read and written again

A document that is read in full and written again keeps its triples, up to the labels of blank
nodes, and gains some. The new nodes start with a value for each required property that has a
default, and where the document says nothing of the property this value is written with the rest.
Where it does, the first value takes the place of the default, and is written as a value of the
required property even if a nearer declaration of its path asks for another type.
-/

namespace OntoGraph.Ontology

open Rdf

/-- Has the object the form in which values of the property are written? A literal has the type of
the property, obeys its rule, and has no language and no blanks around it. -/
def ClassProperty.admits (cp : ClassProperty) (o : Term) : Bool :=
  match cp.constraint, o with
  | .literal datatype, .literal lexical type none =>
    type == datatype.xsd && datatype.acceptsLexical lexical && Text.trim lexical == lexical
  | .literal _, _ => false
  | .enumerated _, o => o.iri?.isSome
  | .object _, _ => true

/-- The object as it is written as a value of the property. -/
def ClassProperty.restate (cp : ClassProperty) (o : Term) : Term :=
  match cp.constraint with
  | .literal datatype => .typed o.value datatype.xsd
  | .enumerated _ => .iri o.value
  | .object _ => o

variable {cp : ClassProperty} {o : Term}

theorem ClassProperty.admits_literal {datatype : Datatype}
    (hconstraint : cp.constraint = .literal datatype) (h : cp.admits o = true) :
    ∃ lexical, o = .typed lexical datatype.xsd ∧ datatype.acceptsLexical lexical = true ∧
      Text.trim lexical = lexical := by
  unfold admits at h
  rw [hconstraint] at h
  split at h
  case h_1 hsame =>
    cases hsame
    simp only [Bool.and_eq_true, beq_iff_eq] at h
    obtain ⟨⟨rfl, haccepts⟩, htrim⟩ := h
    exact ⟨_, rfl, haccepts, htrim⟩
  all_goals simp_all

theorem ClassProperty.admits_enumerated {options : List ValueOption}
    (hconstraint : cp.constraint = .enumerated options) (h : cp.admits o = true) :
    ∃ iri, o = .iri iri := by
  unfold admits at h
  rw [hconstraint] at h
  cases o <;> simp_all [Term.iri?]

/-- An object of the right form is written as it is. -/
theorem ClassProperty.restate_of_admits (h : cp.admits o = true) : cp.restate o = o := by
  unfold restate
  cases hconstraint : cp.constraint with
  | literal datatype =>
    obtain ⟨lexical, rfl, -⟩ := admits_literal hconstraint h
    rfl
  | enumerated options =>
    obtain ⟨iri, rfl⟩ := admits_enumerated hconstraint h
    rfl
  | object target => rfl

end OntoGraph.Ontology

namespace OntoGraph.Document

open Ontology OntoGraph.Graph Rdf InstanceGraph

/-! ## Values -/

/-- What is read from an object of the right form has its text. -/
theorem lexical_entryValue {cp : ClassProperty} {o : Term} (h : cp.admits o = true) :
    (entryValue cp o).lexical = o.value := by
  unfold entryValue
  cases hconstraint : cp.constraint with
  | literal datatype =>
    obtain ⟨lexical, rfl, haccepts, htrim⟩ := ClassProperty.admits_literal hconstraint h
    obtain ⟨v, hv, rfl⟩ : ∃ v, datatype.accepts v = true ∧ v.lexical = lexical := by
      by_cases hboolean : datatype = .boolean
      · subst hboolean
        simp only [Datatype.acceptsLexical, Bool.or_eq_true, beq_iff_eq] at haccepts
        rcases haccepts with rfl | rfl
        · exact ⟨.bool true, rfl, rfl⟩
        · exact ⟨.bool false, rfl, rfl⟩
      · refine ⟨.text lexical, ?_, rfl⟩
        cases datatype <;> first | exact absurd rfl hboolean | exact haccepts
    refine (lexical_valueOf hv).trans ?_
    rw [Datatype.writtenForm, htrim, ite_self]
    rfl
  | enumerated options => rfl
  | object target => rfl

/-- An object of the right form is written as a value of the declaration that its entry is bound
to. -/
theorem entryTerm?_of_admits {cp : ClassProperty} {o : Term} {e : Entry} (h : cp.admits o = true)
    (hobject : e.property.isObject = false) (hvalue : e.value = some (entryValue cp o)) :
    entryTerm? e = some (e.property.restate o) := by
  unfold entryTerm? ClassProperty.restate
  rw [hvalue, Option.bind_some, lexical_entryValue h]
  cases hconstraint : e.property.constraint with
  | literal datatype => rfl
  | enumerated options => rfl
  | object target =>
    rw [ClassProperty.isObject, ClassProperty.target?, hconstraint] at hobject
    cases hobject

/-- The term for the value that a new entry of a declaration starts with. -/
def defaultTerm? (g : InstanceGraph) (cp : ClassProperty) : Option Term :=
  entryTerm? (g.initialEntry cp "")

theorem entryTerm?_of_initialValue {g : InstanceGraph} {e : Entry}
    (h : e.value = g.initialValue e.property) : entryTerm? e = defaultTerm? g e.property := by
  unfold defaultTerm? entryTerm?
  rw [h]
  rfl

/-! ## What a document leaves open -/

namespace Statements

/-- The chain of the class of a subject; it is empty where a subject has no class. -/
def chainOf (s : Statements) (model : Model) (t : Term) : Chain :=
  match (s.classIri? model t).map model.chain with
  | some (.ok chain) => chain
  | _ => []

/-- Has each subject one type, are exactly the elements named by IRIs, and has each value the form
that its property asks for? -/
structure WellFormed (s : Statements) (model : Model) (settings : GraphSettings) : Prop where
  types : ∀ t ∈ s.subjects, (s.store.objects t rdfType).length = 1
  elements : ∀ t ∈ s.subjects,
    if settings.isElementChain model (s.chainOf model t) then t.iri?.isSome = true
    else t.isBlank = true
  values : ∀ u ∈ s.store.triples.toList, u.predicate ≠ rdfType →
    ∀ cp ∈ (s.chainOf model u.subject).nearest? u.predicate, cp.isObject = false →
      cp.admits u.object = true

instance (s : Statements) (model : Model) (settings : GraphSettings) :
    Decidable (s.WellFormed model settings) :=
  decidable_of_iff (_ ∧ _ ∧ _)
    ⟨fun ⟨types, elements, values⟩ ↦ ⟨types, elements, values⟩,
      fun ⟨types, elements, values⟩ ↦ ⟨types, elements, values⟩⟩

/-- Has each value also the form that the declaration asks for under which its node has an entry from
the start, if there is one for its path? -/
def FitsPrefilled (s : Statements) (model : Model) : Prop :=
  ∀ u ∈ s.store.triples.toList, ∀ cp ∈ prefilled (s.chainOf model u.subject),
    cp.path = u.predicate → cp.admits u.object = true

instance (s : Statements) (model : Model) : Decidable (s.FitsPrefilled model) :=
  inferInstanceAs (Decidable (∀ _ ∈ _, _))

/-- The object of a statement as it is written again: the first value of a path as a value of the
declaration that the new node has an entry for, if there is one, and all others as they are. -/
def restatedObject (s : Statements) (model : Model) (t : Term) (path : String) (o : Term) : Term :=
  if (valueObjects (s.chainOf model t) path (s.store.objects t path)).head? = some o then
    ((prefilled (s.chainOf model t)).find? (·.path = path)).elim o (·.restate o)
  else o

/-- The statement as it is written again. -/
def restated (s : Statements) (model : Model) (u : Triple) : Triple :=
  { u with object := s.restatedObject model u.subject u.predicate u.object }

/-- The defaults of a subject: those of the entries that its node starts with, where the document
gives no value for the path. -/
def defaultsOf (s : Statements) (g : InstanceGraph) (t : Term) : List Triple :=
  ((prefilled (s.chainOf g.model t)).filter fun cp ↦
    valueObjects (s.chainOf g.model t) cp.path (s.store.objects t cp.path) = []).filterMap fun cp ↦
      (defaultTerm? g cp).map (⟨t, cp.path, ·⟩)

def defaults (s : Statements) (g : InstanceGraph) : List Triple :=
  s.subjects.flatMap (s.defaultsOf g)

variable {s : Statements} {g : InstanceGraph} {t o : Term} {path : String}

theorem restatedObject_of_none {model : Model}
    (h : valueObjects (s.chainOf model t) path (s.store.objects t path) = []) :
    s.restatedObject model t path o = o := by
  rw [restatedObject, h]
  rfl

/-- A value is written as one of the declaration that its entry is bound to. -/
theorem restatedObject_of_value {model : Model} {cp : ClassProperty} (hpath : path ≠ rdfType)
    (hcp : (s.chainOf model t).nearest? path = some cp) (hobject : cp.isObject = false)
    (h : cp.admits o = true) : s.restatedObject model t path o =
      (holder (s.chainOf model t) path cp (s.store.objects t path) o).restate o := by
  unfold restatedObject holder
  rw [valueObjects_of_value hpath hcp hobject]
  split
  · cases (prefilled (s.chainOf model t)).find? (·.path = path) with
    | none => exact (cp.restate_of_admits h).symm
    | some q => rfl
  · exact (cp.restate_of_admits h).symm

theorem FitsPrefilled.restated_eq {model : Model} {u : Triple} (h : s.FitsPrefilled model)
    (hu : u ∈ s.store.triples.toList) : s.restated model u = u := by
  have hobject : s.restatedObject model u.subject u.predicate u.object = u.object := by
    unfold restatedObject
    split
    · cases hfound : (prefilled (s.chainOf model u.subject)).find? (·.path = u.predicate) with
      | none => rfl
      | some cp =>
        have hpath : cp.path = u.predicate := by simpa using List.find?_some hfound
        exact cp.restate_of_admits (h u hu cp (List.mem_of_find?_eq_some hfound) hpath)
    · rfl
  rw [restated, hobject]

theorem mem_restated {model : Model} :
    ⟨t, path, o⟩ ∈ s.store.triples.toList.map (s.restated model) ↔
      ∃ o' ∈ s.store.objects t path, s.restatedObject model t path o' = o := by
  simp only [List.mem_map, Store.mem_objects]
  constructor
  · rintro ⟨⟨t', path', o'⟩, hu, heq⟩
    cases heq
    exact ⟨o', hu, rfl⟩
  · rintro ⟨o', hu, rfl⟩
    exact ⟨_, hu, rfl⟩

theorem mem_defaultsOf : ⟨t, path, o⟩ ∈ s.defaultsOf g t ↔
    valueObjects (s.chainOf g.model t) path (s.store.objects t path) = [] ∧
      ∃ cp ∈ prefilled (s.chainOf g.model t), cp.path = path ∧ defaultTerm? g cp = some o := by
  unfold defaultsOf
  simp only [List.mem_filterMap, List.mem_filter, decide_eq_true_eq, Option.map_eq_some_iff,
    Triple.mk.injEq, true_and]
  constructor
  · rintro ⟨cp, ⟨hcp, hnone⟩, o', hdefault, rfl, rfl⟩
    exact ⟨hnone, cp, hcp, rfl, hdefault⟩
  · rintro ⟨hnone, cp, hcp, rfl, hdefault⟩
    exact ⟨cp, ⟨hcp, hnone⟩, o, hdefault, rfl, rfl⟩

theorem subject_of_mem_defaultsOf {u : Triple} (h : u ∈ s.defaultsOf g t) : u.subject = t := by
  obtain ⟨cp, -, h⟩ := List.mem_filterMap.1 h
  obtain ⟨o, -, rfl⟩ := Option.map_eq_some_iff.1 h
  rfl

theorem mem_defaults {u : Triple} :
    u ∈ s.defaults g ↔ u.subject ∈ s.subjects ∧ u ∈ s.defaultsOf g u.subject := by
  rw [defaults, List.mem_flatMap]
  constructor
  · rintro ⟨t, ht, hu⟩
    rw [subject_of_mem_defaultsOf hu]
    exact ⟨ht, hu⟩
  · exact fun ⟨ht, hu⟩ ↦ ⟨_, ht, hu⟩

theorem mem_subjects_of_mem_restated {model : Model} {u : Triple}
    (h : u ∈ s.store.triples.toList.map (s.restated model)) : u.subject ∈ s.subjects := by
  obtain ⟨v, hv, rfl⟩ := List.mem_map.1 h
  exact mem_subjects_of_mem (u := v) hv

/-- Where the type of a subject is its only one, it is its class. -/
theorem objects_rdfType_of_classIri? {model : Model} {iri : String}
    (hone : (s.store.objects t rdfType).length = 1) (h : s.classIri? model t = some iri) :
    s.store.objects t rdfType = [.iri iri] := by
  obtain ⟨type, htype⟩ := List.length_eq_one_iff.1 hone
  unfold classIri? Store.object? at h
  rw [htype] at h ⊢
  cases type with
  | iri found =>
    cases hclass : (model.class? found).isSome <;>
      simp [Term.iri?, hclass] at h <;> rw [h]
  | _ => simp [Term.iri?] at h

end Statements

/-! ## What the nodes hold -/

section

variable {s : Statements} {g : InstanceGraph} {r : Rebuilding} {name : Term → String}
  {subjects : List Term} {taken : List Triple} {t o : Term} {n : Node} {path : String}

theorem chainOf_of_holds (h : r.Holds g s name subjects taken) (ht : t ∈ subjects)
    (hn : r.graph.node? (name t) = some n) : s.chainOf g.model t = n.chain := by
  obtain ⟨m, hm, hclass⟩ := h.classes t ht
  cases hn.symm.trans hm
  rw [Statements.chainOf, hclass, Option.map_some, ← h.model,
    (h.consistent.typed n (node?_eq_some hn).1).chain]

/-- Lists with the same images agree about what their items show, if that depends on the images. -/
theorem exists_mem_iff_of_map_eq {α β γ : Type} {as : List α} {bs : List β} {f : α → γ}
    {f' : β → γ} {p : α → Prop} {q : β → Prop} (h : as.map f = bs.map f')
    (hpq : ∀ a ∈ as, ∀ b ∈ bs, f a = f' b → (p a ↔ q b)) : (∃ a ∈ as, p a) ↔ ∃ b ∈ bs, q b := by
  constructor
  · rintro ⟨a, ha, hp⟩
    obtain ⟨b, hb, heq⟩ := List.mem_map.1 (h ▸ List.mem_map_of_mem ha)
    exact ⟨b, hb, (hpq a ha b hb heq.symm).1 hp⟩
  · rintro ⟨b, hb, hq⟩
    obtain ⟨a, ha, heq⟩ := List.mem_map.1 (h.symm ▸ List.mem_map_of_mem hb)
    exact ⟨a, ha, (hpq a ha b hb heq).2 hq⟩

/-- The declarations and the values of the entries of a node. -/
theorem map_entriesOf (h : r.Holds g s name subjects taken) (ht : t ∈ subjects)
    (hn : r.graph.node? (name t) = some n) (path : String) :
    (n.entriesOf path).map (fun e ↦ (e.property, e.value)) =
      (holders n.chain path (objectsIn taken t path)).zip
        ((holdings g n.chain path (objectsIn taken t path)).map Prod.fst) := by
  rw [← h.bound t ht n hn, ← h.contents t ht n hn, boundAt, Rebuilding.contents, List.map_map,
    List.zip_map', entriesAt_of_node? hn]
  rfl

/-- Without values of a path, a node has the entry that it started with. -/
theorem exists_entry_default_iff (h : r.Holds g s name subjects taken) (ht : t ∈ subjects)
    (hn : r.graph.node? (name t) = some n)
    (hnone : valueObjects n.chain path (objectsIn taken t path) = []) :
    (∃ e ∈ n.entriesOf path, entryTerm? e = some o) ↔
      ∃ cp ∈ prefilled n.chain, cp.path = path ∧ defaultTerm? g cp = some o := by
  have hentries := map_entriesOf h ht hn path
  rw [holders_of_none hnone, holdings_of_none hnone, List.map_map,
    ← List.map_id ((prefilled n.chain).filter (·.path = path)), List.map_map,
    List.zip_map'] at hentries
  refine (exists_mem_iff_of_map_eq (q := fun cp ↦ defaultTerm? g cp = some o) hentries ?_).trans ?_
  · intro e _ cp _ hpair
    obtain ⟨rfl, hvalue⟩ := Prod.mk.inj hpair
    rw [entryTerm?_of_initialValue hvalue]
  · simp only [List.mem_filter, decide_eq_true_eq, and_assoc]

/-- The values of a path that have the right form are written as values of the declarations that
their entries are bound to. -/
theorem exists_entry_value_iff {cp : ClassProperty} (h : r.Holds g s name subjects taken)
    (ht : t ∈ subjects) (hn : r.graph.node? (name t) = some n) (hpath : path ≠ rdfType)
    (hcp : n.chain.nearest? path = some cp) (hobject : cp.isObject = false)
    (hsome : objectsIn taken t path ≠ []) (hnodup : (objectsIn taken t path).Nodup)
    (hadmits : ∀ o ∈ objectsIn taken t path, cp.admits o = true) :
    (∃ e ∈ n.entriesOf path, entryTerm? e = some o) ↔ ∃ o' ∈ objectsIn taken t path,
      (holder n.chain path cp (objectsIn taken t path) o').restate o' = o := by
  have hentries := map_entriesOf h ht hn path
  rw [holders_eq_map hpath hcp hobject hsome hnodup, holdings_of_values hpath hcp hobject hsome,
    List.map_map, List.zip_map'] at hentries
  refine exists_mem_iff_of_map_eq hentries fun e he o' ho' hpair ↦ ?_
  obtain ⟨hproperty, hvalue⟩ := Prod.mk.inj hpair
  have hbound := (h.consistent.entries n (node?_eq_some hn).1 e (List.mem_filter.1 he).1).1
  rw [entryTerm?_of_admits (hadmits o' ho') hbound hvalue, hproperty, Option.some.injEq]

end

/-! ## Labels -/

def writtenSubject (nodes : List Node) (name : Term → String) (t : Term) : Term :=
  ((assignSubjects nodes).1.get? (name t)).getD default

/-- The label for a blank node: that of the subject that its node is written under. Blank nodes
that the document does not have get labels that are not given out. -/
def rewrittenLabel (nodes : List Node) (name : Term → String) (subjects : List Term)
    (label : String) : String :=
  if .blank label ∈ subjects then (writtenSubject nodes name (.blank label)).value
  else "x" ++ label

section

variable {s : Statements} {g : InstanceGraph} {r : Rebuilding} {name : Term → String}
  {taken : List Triple} {t o : Term} {n : Node} {path : String}

theorem writtenSubject_eq (hn : r.graph.node? (name t) = some n) :
    writtenSubject r.graph.nodes name t = subjectOf r.graph.nodes n := by
  rw [writtenSubject, ← (node?_eq_some hn).2]
  rfl

variable (h : r.Holds g s name s.subjects taken)
  (htaken : ∀ t ∈ s.subjects, ∀ path, objectsIn taken t path = s.store.objects t path)
  (hform : s.WellFormed g.model g.settings) (hname : ∀ iri, name (.iri iri) = iri)

section

include h hform hname

/-- Where elements are named by IRIs and all others are blank nodes, subjects are written under
other labels. -/
theorem relabel_rewrittenLabel (ht : t ∈ s.subjects) :
    t.relabel (rewrittenLabel r.graph.nodes name s.subjects) =
      writtenSubject r.graph.nodes name t := by
  obtain ⟨n, hn, -⟩ := h.classes t ht
  have hmem := (node?_eq_some hn).1
  have hkind := hform.elements t ht
  rw [chainOf_of_holds h ht hn, ← h.model, ← h.settings,
    ← (h.consistent.typed n hmem).isElement] at hkind
  cases t with
  | iri iri =>
    cases helement : n.isElement with
    | true =>
      rw [writtenSubject_eq hn, subjectOf_element h.consistent.ids hmem helement,
        (node?_eq_some hn).2, hname]
      rfl
    | false =>
      rw [helement, if_neg Bool.false_ne_true] at hkind
      cases hkind
  | blank label =>
    cases helement : n.isElement with
    | true =>
      rw [helement, if_pos rfl] at hkind
      cases hkind
    | false =>
      have hblank := isBlank_subjectOf h.consistent.ids hmem helement
      rw [Term.relabel, rewrittenLabel, if_pos ht, writtenSubject_eq hn]
      cases hsubject : subjectOf r.graph.nodes n <;> rw [hsubject] at hblank <;>
        first | rfl | cases hblank
  | literal lexical type language => split at hkind <;> cases hkind

theorem rewrittenLabel_injective :
    Function.Injective (rewrittenLabel r.graph.nodes name s.subjects) := by
  have hwritten : ∀ label, .blank label ∈ s.subjects → ∃ n ∈ r.graph.nodes,
      n.id = name (.blank label) ∧ n.isElement = false ∧ subjectOf r.graph.nodes n =
        .blank (rewrittenLabel r.graph.nodes name s.subjects label) := by
    intro label hlabel
    obtain ⟨n, hn, -⟩ := h.classes _ hlabel
    obtain ⟨hmem, hid⟩ := node?_eq_some hn
    have hsubject := relabel_rewrittenLabel h hform hname hlabel
    rw [writtenSubject_eq hn] at hsubject
    refine ⟨n, hmem, hid, ?_, hsubject.symm⟩
    refine Bool.eq_false_iff.2 fun helement ↦ ?_
    rw [subjectOf_element h.consistent.ids hmem helement] at hsubject
    cases hsubject
  -- a label that is given out starts with another letter than those of other blank nodes
  have hgiven : ∀ label, .blank label ∈ s.subjects → ∀ other, .blank other ∉ s.subjects →
      rewrittenLabel r.graph.nodes name s.subjects label ≠
        rewrittenLabel r.graph.nodes name s.subjects other := by
    intro label hlabel other hother heq
    obtain ⟨n, hmem, -, helement, hsubject⟩ := hwritten label hlabel
    obtain ⟨k, -, hblank⟩ := (assigned_assignSubjects h.consistent.ids).blank n hmem helement
    rw [get?_assignSubjects h.consistent.ids hmem, hsubject, Option.some.injEq, heq,
      rewrittenLabel, if_neg hother, Store.numberedBlank, Term.blank.injEq] at hblank
    have hfirst := congrArg String.toList hblank
    rw [String.toList_append, String.toList_append] at hfirst
    exact absurd (List.cons.inj hfirst).1 (by decide)
  intro label other heq
  by_cases hlabel : .blank label ∈ s.subjects <;> by_cases hother : .blank other ∈ s.subjects
  · obtain ⟨n, hmem, hid, -, hsubject⟩ := hwritten label hlabel
    obtain ⟨m, hmem', hid', -, hsubject'⟩ := hwritten other hother
    have hsame := subjectOf_injective h.consistent.ids hmem hmem'
      (hsubject.trans ((congrArg Term.blank heq).trans hsubject'.symm))
    exact Term.blank.inj (h.name_injective hlabel hother (by rw [← hid, ← hid', hsame]))
  · exact absurd heq (hgiven label hlabel other hother)
  · exact absurd heq.symm (hgiven other hother label hlabel)
  · rw [rewrittenLabel, rewrittenLabel, if_neg hlabel, if_neg hother] at heq
    exact (String.append_right_inj _).1 heq

end

/-! ## What a subject is written with -/

include h htaken hform

/-- Where every statement was taken, the objects of a path are the type of the subject, or values,
or targets. -/
theorem mem_objects_iff (ht : t ∈ s.subjects) (hn : r.graph.node? (name t) = some n) :
    o ∈ s.store.objects t path ↔ (path = rdfType ∧ o = .iri n.cls.iri) ∨
      o ∈ valueObjects n.chain path (s.store.objects t path) ∨
        o ∈ targetObjects n.chain path (s.store.objects t path) := by
  by_cases hpath : path = rdfType
  · obtain ⟨m, hm, hclass⟩ := h.classes t ht
    cases hn.symm.trans hm
    subst hpath
    rw [valueObjects_rdfType, targetObjects_rdfType,
      Statements.objects_rdfType_of_classIri? (hform.types t ht) hclass]
    simp
  · rw [or_iff_right (fun htype ↦ hpath htype.1)]
    constructor
    · intro ho
      have hmem : ⟨t, path, o⟩ ∈ taken := mem_objectsIn.1 (htaken t ht path ▸ ho)
      obtain ⟨m, cp, hm, hcp, -⟩ := (h.declared _ hmem).2 hpath
      cases hn.symm.trans hm
      cases hobject : cp.isObject with
      | true =>
        rw [targetObjects_of_object hpath hcp hobject]
        exact .inr ho
      | false =>
        rw [valueObjects_of_value hpath hcp hobject]
        exact .inl ho
    · rintro (ho | ho)
      · obtain ⟨-, cp, hcp, hobject⟩ := exists_of_mem_valueObjects ho
        rwa [valueObjects_of_value hpath hcp hobject] at ho
      · obtain ⟨-, cp, hcp, hobject⟩ := exists_of_mem_targetObjects ho
        rwa [targetObjects_of_object hpath hcp hobject] at ho

/-- The values of a subject are written again, and its defaults beside them. -/
theorem exists_entry_iff (ht : t ∈ s.subjects) (hn : r.graph.node? (name t) = some n) :
    (∃ e ∈ n.entriesOf path, entryTerm? e = some o) ↔
      (∃ o' ∈ valueObjects n.chain path (s.store.objects t path),
        s.restatedObject g.model t path o' = o) ∨ ⟨t, path, o⟩ ∈ s.defaultsOf g t := by
  have hchain := chainOf_of_holds h ht hn
  rw [Statements.mem_defaultsOf, hchain]
  by_cases hnone : valueObjects n.chain path (s.store.objects t path) = []
  · rw [hnone, exists_entry_default_iff h ht hn (htaken t ht path ▸ hnone)]
    simp
  · obtain ⟨first, hfirst⟩ := List.exists_mem_of_ne_nil _ hnone
    obtain ⟨hpath, cp, hcp, hobject⟩ := exists_of_mem_valueObjects hfirst
    rw [or_iff_left fun hdefault ↦ hnone hdefault.1]
    rw [valueObjects_of_value hpath hcp hobject] at hnone ⊢
    have hadmits : ∀ o ∈ s.store.objects t path, cp.admits o = true := by
      intro o ho
      have hadmits := hform.values _ (Store.mem_objects.1 ho) hpath cp
      rw [hchain] at hadmits
      exact hadmits hcp hobject
    have hentries := exists_entry_value_iff (o := o) h ht hn hpath hcp hobject
    rw [htaken t ht path] at hentries
    refine (hentries hnone (Store.nodup_objects _ _ _) hadmits).trans
      (exists_congr fun o' ↦ and_congr_right fun ho' ↦ ?_)
    rw [Statements.restatedObject_of_value hpath (hchain.symm ▸ hcp) hobject (hadmits o' ho'),
      hchain]

include hname

/-- The targets of a subject are written as the subjects of their nodes. -/
theorem exists_target_iff (ht : t ∈ s.subjects) (hn : r.graph.node? (name t) = some n) :
    (∃ target ∈ r.graph.targetsAt n.id path,
        (assignSubjects r.graph.nodes).1.get? target = some o) ↔
      ∃ target ∈ targetObjects n.chain path (s.store.objects t path),
        target.relabel (rewrittenLabel r.graph.nodes name s.subjects) = o := by
  have htarget : ∀ target ∈ targetObjects n.chain path (s.store.objects t path),
      (assignSubjects r.graph.nodes).1.get? (name target) = some o ↔
        target.relabel (rewrittenLabel r.graph.nodes name s.subjects) = o := by
    intro target hmem
    obtain ⟨hpath, cp, hcp, hobject⟩ := exists_of_mem_targetObjects hmem
    rw [targetObjects_of_object hpath hcp hobject, ← htaken t ht path] at hmem
    obtain ⟨m, cp', hm, hcp', hsubject⟩ := (h.declared _ (mem_objectsIn.1 hmem)).2 hpath
    cases hn.symm.trans hm
    cases hcp.symm.trans hcp'
    have hsubject := hsubject hobject
    obtain ⟨m, hm, -⟩ := h.classes target hsubject
    rw [relabel_rewrittenLabel h hform hname hsubject, writtenSubject_eq hm,
      ← (node?_eq_some hm).2, get?_assignSubjects h.consistent.ids (node?_eq_some hm).1,
      Option.some.injEq]
  rw [(node?_eq_some hn).2, h.targets t ht n hn, targetNames, htaken t ht path]
  simp only [List.mem_map, exists_exists_and_eq_and]
  exact exists_congr fun target ↦ and_congr_right (htarget target)

/-- The node for a subject is written with what the document says of the subject, and with its
defaults. -/
theorem mem_triplesFor_iff (ht : t ∈ s.subjects) (hn : r.graph.node? (name t) = some n) :
    ⟨subjectOf r.graph.nodes n, path, o⟩ ∈ triplesFor r.graph r.graph.nodes n ↔
      ∃ o', (⟨t, path, o'⟩ ∈ s.store.triples.toList.map (s.restated g.model) ∨
          ⟨t, path, o'⟩ ∈ s.defaultsOf g t) ∧
        o'.relabel (rewrittenLabel r.graph.nodes name s.subjects) = o := by
  have hchain := chainOf_of_holds h ht hn
  have hentry : ∀ o', (∃ o'' ∈ valueObjects n.chain path (s.store.objects t path),
      s.restatedObject g.model t path o'' = o') ∨ ⟨t, path, o'⟩ ∈ s.defaultsOf g t →
        o'.relabel (rewrittenLabel r.graph.nodes name s.subjects) = o' := by
    intro o' ho'
    obtain ⟨e, -, he⟩ := (exists_entry_iff h htaken hform ht hn).2 ho'
    exact relabel_of_entryTerm _ he
  -- only values are written in another form
  have hkept : ∀ o', (path = rdfType ∧ o' = .iri n.cls.iri) ∨
      o' ∈ targetObjects n.chain path (s.store.objects t path) →
        s.restatedObject g.model t path o' = o' := by
    intro o' hother
    refine Statements.restatedObject_of_none ?_
    rw [hchain]
    rcases hother with ⟨rfl, -⟩ | htarget
    · exact valueObjects_rdfType
    · obtain ⟨-, cp, hcp, hobject⟩ := exists_of_mem_targetObjects htarget
      exact valueObjects_of_object hcp hobject
  rw [mem_triplesFor, exists_entry_iff h htaken hform ht hn,
    exists_target_iff h htaken hform hname ht hn]
  simp only [Statements.mem_restated, mem_objects_iff h htaken hform ht hn]
  constructor
  · rintro (⟨rfl, rfl⟩ | (⟨o', ho', rfl⟩ | hdefault) | ⟨o', ho', rfl⟩)
    · exact ⟨_, .inl ⟨_, .inl ⟨rfl, rfl⟩, hkept _ (.inl ⟨rfl, rfl⟩)⟩, rfl⟩
    · exact ⟨_, .inl ⟨o', .inr (.inl ho'), rfl⟩, hentry _ (.inl ⟨o', ho', rfl⟩)⟩
    · exact ⟨o, .inr hdefault, hentry o (.inr hdefault)⟩
    · exact ⟨o', .inl ⟨o', .inr (.inr ho'), hkept o' (.inr ho')⟩, rfl⟩
  · rintro ⟨_, ⟨o', htype | hvalue | htarget, rfl⟩ | hdefault, rfl⟩
    · rw [hkept o' (.inl htype), htype.2]
      exact .inl ⟨htype.1, rfl⟩
    · exact .inr (.inl (.inl ⟨o', hvalue, (hentry _ (.inl ⟨o', hvalue, rfl⟩)).symm⟩))
    · exact .inr (.inr ⟨o', htarget, by rw [hkept o' (.inr htarget)]⟩)
    · exact .inr (.inl (.inr ((hentry _ (.inr hdefault)).symm ▸ hdefault)))

/-- A graph that took every statement is written with the statements and the defaults, under other
labels. -/
theorem mem_exportStore_of_holds {u : Triple} :
    u ∈ (exportStore r.graph r.graph.nodes).2.triples.toList ↔
      u ∈ (s.store.triples.toList.map (s.restated g.model) ++ s.defaults g).map
        (·.relabel (rewrittenLabel r.graph.nodes name s.subjects)) := by
  have hids := h.consistent.ids
  rw [mem_exportStore hids, List.mem_map]
  simp only [List.mem_append, Statements.mem_defaults]
  constructor
  · rintro ⟨n, hn, hu⟩
    have hid : n.id ∈ s.subjects.map name := h.nodes ▸ List.mem_map_of_mem hn
    obtain ⟨t, ht, hid⟩ := List.mem_map.1 hid
    have hnode : r.graph.node? (name t) = some n := hid ▸ node?_of_mem hids hn
    have hsubject := subject_of_mem_triplesFor hu
    obtain ⟨subject, path, o⟩ := u
    subst hsubject
    obtain ⟨o', ho', rfl⟩ := (mem_triplesFor_iff h htaken hform hname ht hnode).1 hu
    refine ⟨⟨t, path, o'⟩, ho'.imp_right fun ho' ↦ ⟨ht, ho'⟩, ?_⟩
    rw [Triple.relabel, relabel_rewrittenLabel h hform hname ht, writtenSubject_eq hnode]
  · rintro ⟨⟨t, path, o⟩, hu, rfl⟩
    have ht : t ∈ s.subjects := hu.elim Statements.mem_subjects_of_mem_restated And.left
    obtain ⟨n, hn, -⟩ := h.classes t ht
    refine ⟨n, (node?_eq_some hn).1, ?_⟩
    rw [Triple.relabel, relabel_rewrittenLabel h hform hname ht, writtenSubject_eq hn]
    exact (mem_triplesFor_iff h htaken hform hname ht hn).2 ⟨o, hu.imp_right And.right, rfl⟩

end

/-! ## Reading and writing again -/

section

variable {model : Model} {settings : GraphSettings} {c : TermContext}
  {config : Settings.Configuration} {text : String} {reference : Position} {urns : Nat → String}
  {s : Statements} {summary : ImportSummary} {g' : InstanceGraph}

/-- A document that is read without loss into an empty graph is taken statement by statement. -/
theorem exists_holds_of_importDocument (hs : readStatements c config text = .ok s)
    (himport : importDocument { model, settings } c config text reference urns =
      .ok (summary, g'))
    (hdropped : summary.dropped = 0) :
    ∃ (r : Rebuilding) (taken : List Triple), r.graph = g' ∧
      (∀ t ∈ s.subjects, ∀ path, objectsIn taken t path = s.store.objects t path) ∧
      r.Holds { model, settings } s (nameIn urns s.subjects) s.subjects taken := by
  obtain ⟨s', hs', hrebuild⟩ := importDocument_eq_ok.1 himport
  cases hs.symm.trans hs'
  obtain ⟨r, hgraph, hcount, taken, hsublist, hlength, -, hholds⟩ :=
    takes_of_rebuild (g := { model, settings }) hrebuild
  rw [hcount, hdropped, Nat.zero_add] at hlength
  refine ⟨r, taken, hgraph, fun t ht path ↦ ?_, hholds⟩
  rw [hsublist.eq_of_length hlength, objectsIn_triplesOf (nodup_subjects s) ht]

/-- Where the first values have the form in which they are written, the triples of a document are
kept exactly if it says all defaults itself. -/
theorem keepsTriples_importDocument_iff (hs : readStatements c config text = .ok s)
    (hform : s.WellFormed model settings)
    (himport : importDocument { model, settings } c config text reference urns =
      .ok (summary, g'))
    (hdropped : summary.dropped = 0) (hfits : s.FitsPrefilled model) :
    (∃ f : String → String, Function.Injective f ∧
      ∀ u, u ∈ (exportGraph g' c config).store.triples.toList ↔
        u ∈ s.store.triples.toList.map (·.relabel f)) ↔
    ∀ u ∈ s.defaults { model, settings }, u ∈ s.store.triples.toList := by
  obtain ⟨r, taken, rfl, htaken, hholds⟩ := exists_holds_of_importDocument hs himport hdropped
  have hname : ∀ iri, nameIn urns s.subjects (.iri iri) = iri := fun _ ↦ rfl
  have hinjective := rewrittenLabel_injective hholds hform hname
  have hexport := fun u ↦ mem_exportStore_of_holds hholds htaken hform hname (u := u)
  rw [List.map_congr_left fun u hu ↦ hfits.restated_eq hu, List.map_id'] at hexport
  constructor
  · rintro ⟨f, -, hf⟩ u hu
    by_contra hnew
    -- the statements and one more are too many to be the statements under other labels
    have hnodup : ((u :: s.store.triples.toList).map
        (·.relabel (rewrittenLabel r.graph.nodes (nameIn urns s.subjects) s.subjects))).Nodup :=
      (List.nodup_cons.2 ⟨hnew, s.store.distinct⟩).map (Triple.relabel_injective hinjective)
    have hsubset : (u :: s.store.triples.toList).map
          (·.relabel (rewrittenLabel r.graph.nodes (nameIn urns s.subjects) s.subjects)) ⊆
        s.store.triples.toList.map (·.relabel f) := by
      intro v hv
      refine (hf v).1 ((hexport v).2 (List.map_subset _ (List.cons_subset.2 ⟨?_, ?_⟩) hv))
      · exact List.mem_append_right _ hu
      · exact List.subset_append_left _ _
    have hlength := (List.subperm_of_subset hnodup hsubset).length_le
    rw [List.length_map, List.length_map, List.length_cons] at hlength
    omega
  · intro hstated
    refine ⟨_, hinjective, fun u ↦ (hexport u).trans ?_⟩
    simp only [List.mem_map, List.mem_append]
    exact exists_congr fun v ↦ and_congr_left fun _ ↦ or_iff_left_of_imp (hstated v)

/-- A document of the right form that is read without loss and written again has all its triples,
with other labels for blank nodes, and with first values as values of the required properties. What
is added are the defaults of required properties that it says nothing of. -/
theorem exportGraph_importDocument (hs : readStatements c config text = .ok s)
    (hform : s.WellFormed model settings)
    (himport : importDocument { model, settings } c config text reference urns =
      .ok (summary, g'))
    (hdropped : summary.dropped = 0) :
    ∃ f : String → String, Function.Injective f ∧
      ∀ u, u ∈ (exportGraph g' c config).store.triples.toList ↔
        u ∈ (s.store.triples.toList.map (s.restated model) ++
          s.defaults { model, settings }).map (·.relabel f) := by
  obtain ⟨r, taken, rfl, htaken, hholds⟩ := exists_holds_of_importDocument hs himport hdropped
  have hname : ∀ iri, nameIn urns s.subjects (.iri iri) = iri := fun _ ↦ rfl
  exact ⟨_, rewrittenLabel_injective hholds hform hname, fun u ↦
    mem_exportStore_of_holds hholds htaken hform hname⟩

end

def litProperty : ClassProperty :=
  { parentClass := "https://x/Element"
    path := "https://x/lit"
    name := "lit"
    minCount := some 1
    maxCount := some 1
    constraint := .literal .boolean }

def partProperty : ClassProperty :=
  { parentClass := "https://x/Element"
    path := "https://x/part"
    name := "part"
    constraint := .object "https://x/Part" }

def lampModel : Model :=
  .ofProfiles {} (.ofList [("Core",
    { classes := .ofList [
        ("Element",
          { iri := "https://x/Element"
            name := "Element"
            profileName := "Core"
            properties := .ofList [("lit", litProperty), ("part", partProperty)] }),
        ("Part", { iri := "https://x/Part", name := "Part", profileName := "Core" })] })])

def lampDocument : Json :=
  .object [("@context", .string ({} : Settings.Configuration).contextUrl),
    ("@graph", .array [
      .object [("@id", .string "https://x/lamp"), ("@type", .string "https://x/Element"),
        ("https://x/part", .object [("@id", .string "_:p")])],
      .object [("@id", .string "_:p"), ("@type", .string "https://x/Part")]])]

def lampText : String := lampDocument.compact

def lampUrns (k : Nat) : String := "urn:uuid:" ++ toString k

/-- The document has the right form and is read without loss, and a default is not said. -/
theorem exists_reading_lampText : ∃ s summary g',
    readStatements {} {} lampText = .ok s ∧ s.WellFormed lampModel {} ∧
      importDocument { model := lampModel } {} {} lampText {} lampUrns = .ok (summary, g') ∧
      summary.dropped = 0 ∧ s.FitsPrefilled lampModel ∧
      ∃ u ∈ s.defaults { model := lampModel }, u ∉ s.store.triples.toList := by
  have hcheck : (match readStatements {} {} lampText with
      | .error _ => false
      | .ok s => decide (s.WellFormed lampModel {}) &&
          (match rebuild { model := lampModel } {} s {} lampUrns with
            | .error _ => false
            | .ok (summary, _) => summary.dropped == 0) &&
          decide (s.FitsPrefilled lampModel ∧
            ∃ u ∈ s.defaults { model := lampModel }, u ∉ s.store.triples.toList)) = true := by
    decide +kernel
  cases hs : readStatements {} {} lampText with
  | error error =>
    rw [hs] at hcheck
    cases hcheck
  | ok s =>
    rw [hs] at hcheck
    dsimp only at hcheck
    cases hrebuild : rebuild { model := lampModel } {} s {} lampUrns with
    | error error =>
      rw [hrebuild] at hcheck
      simp at hcheck
    | ok result =>
      rw [hrebuild] at hcheck
      simp only [Bool.and_eq_true, decide_eq_true_eq, beq_iff_eq] at hcheck
      obtain ⟨⟨hform, hdropped⟩, hfits, hnew⟩ := hcheck
      exact ⟨s, result.1, result.2, rfl, hform, importDocument_eq_ok.2 ⟨s, hs, hrebuild⟩,
        hdropped, hfits, hnew⟩

theorem exportGraph_importDocument_lampText : ∃ s summary g',
    readStatements {} {} lampText = .ok s ∧ s.WellFormed lampModel {} ∧
      importDocument { model := lampModel } {} {} lampText {} lampUrns = .ok (summary, g') ∧
      summary.dropped = 0 ∧
      ∃ f : String → String, Function.Injective f ∧
        ∀ u, u ∈ (exportGraph g' {} {}).store.triples.toList ↔
          u ∈ (s.store.triples.toList.map (s.restated lampModel) ++
            s.defaults { model := lampModel }).map (·.relabel f) := by
  obtain ⟨s, summary, g', hs, hform, himport, hdropped, -⟩ := exists_reading_lampText
  exact ⟨s, summary, g', hs, hform, himport, hdropped,
    exportGraph_importDocument hs hform himport hdropped⟩

/-- The lamp is written as one that is not lit. -/
theorem not_keepsTriples_lampText : ∃ s summary g',
    readStatements {} {} lampText = .ok s ∧ s.WellFormed lampModel {} ∧
      importDocument { model := lampModel } {} {} lampText {} lampUrns = .ok (summary, g') ∧
      summary.dropped = 0 ∧
      ¬∃ f : String → String, Function.Injective f ∧
        ∀ u, u ∈ (exportGraph g' {} {}).store.triples.toList ↔
          u ∈ s.store.triples.toList.map (·.relabel f) := by
  obtain ⟨s, summary, g', hs, hform, himport, hdropped, hfits, u, hu, hnew⟩ :=
    exists_reading_lampText
  refine ⟨s, summary, g', hs, hform, himport, hdropped, fun hkept ↦ hnew ?_⟩
  exact (keepsTriples_importDocument_iff hs hform himport hdropped hfits).1 hkept u hu

end OntoGraph.Document
