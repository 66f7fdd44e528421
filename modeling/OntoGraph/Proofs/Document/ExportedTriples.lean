import OntoGraph.Proofs.Document.Mirror
import OntoGraph.Proofs.SortedMap

/-!
# The triples of an exported graph

Every node of a graph is exported under a subject of its own: its identifier for an element, a new
blank node for any other. The store holds the triples of all nodes and nothing else, and for each
subject and predicate it lists the objects in the order of the values or edges of the node.
-/

namespace OntoGraph.Document

open Ontology OntoGraph.Graph Rdf InstanceGraph

/-! ## Subjects -/

/-- Has each node a subject of its own, elements their identifiers and all others blank nodes? -/
structure Assigned (nodes : List Node) (state : SortedMap Term × Store) : Prop where
  store : state.2.triples = #[]
  element : ∀ n ∈ nodes, n.isElement = true → state.1.get? n.id = some (.iri n.id)
  blank : ∀ n ∈ nodes, n.isElement = false →
    ∃ k < state.2.nextBlank, state.1.get? n.id = some (Store.numberedBlank k)
  injective : ∀ n ∈ nodes, ∀ m ∈ nodes, state.1.get? n.id = state.1.get? m.id → n.id = m.id

theorem assigned_nil : Assigned [] (∅, {}) where
  store := rfl
  element := by rintro _ ⟨⟩
  blank := by rintro _ ⟨⟩
  injective := by rintro _ ⟨⟩

/-- The subject that the next node gets. -/
def nextSubject (state : SortedMap Term × Store) (n : Node) : Term :=
  if n.isElement then .iri n.id else Store.numberedBlank state.2.nextBlank

section NextSubject

variable {nodes : List Node} {state : SortedMap Term × Store} {n : Node}

theorem nextSubject_of_element (h : n.isElement = true) : nextSubject state n = .iri n.id :=
  if_pos h

theorem nextSubject_of_not_element (h : n.isElement = false) :
    nextSubject state n = Store.numberedBlank state.2.nextBlank :=
  if_neg (Bool.eq_false_iff.1 h)

theorem get?_assignSubject (h : state.2.triples = #[]) (n : Node) (id : String) :
    (assignSubject state n).1.get? id =
      if id = n.id then some (nextSubject state n) else state.1.get? id := by
  unfold assignSubject
  cases hkind : n.isElement with
  | true =>
    rw [if_pos rfl, SortedMap.get?_insert, nextSubject_of_element hkind]
  | false =>
    rw [if_neg Bool.false_ne_true]
    dsimp only
    rw [SortedMap.get?_insert, (Store.freshBlank_of_no_triples h).1,
      nextSubject_of_not_element hkind]

theorem triples_assignSubject (h : state.2.triples = #[]) (n : Node) :
    (assignSubject state n).2.triples = #[] := by
  unfold assignSubject
  split
  · exact h
  · exact (Store.freshBlank_of_no_triples h).2.1

theorem nextBlank_assignSubject (h : state.2.triples = #[]) (n : Node) :
    (assignSubject state n).2.nextBlank =
      if n.isElement then state.2.nextBlank else state.2.nextBlank + 1 := by
  unfold assignSubject
  cases n.isElement with
  | true => rfl
  | false => exact (Store.freshBlank_of_no_triples h).2.2

/-- The next subject is new: no element has its identifier, and all blank nodes so far have smaller
numbers. -/
theorem Assigned.get?_ne_nextSubject (h : Assigned nodes state) {m : Node} (hm : m ∈ nodes)
    (hne : m.id ≠ n.id) : state.1.get? m.id ≠ some (nextSubject state n) := by
  intro heq
  cases hkind : m.isElement with
  | true =>
    rw [h.element m hm hkind] at heq
    cases hkind' : n.isElement with
    | true =>
      rw [nextSubject_of_element hkind'] at heq
      exact hne (Term.iri.inj (Option.some.inj heq))
    | false =>
      rw [nextSubject_of_not_element hkind'] at heq
      cases heq
  | false =>
    obtain ⟨k, hk, hsubject⟩ := h.blank m hm hkind
    rw [hsubject] at heq
    cases hkind' : n.isElement with
    | true =>
      rw [nextSubject_of_element hkind'] at heq
      cases heq
    | false =>
      rw [nextSubject_of_not_element hkind'] at heq
      exact Nat.ne_of_lt hk (Store.numberedBlank_injective (Option.some.inj heq))

/-- A node with a new identifier gets a subject of its own. -/
theorem Assigned.assignSubject (h : Assigned nodes state) (hn : n.id ∉ nodes.map (·.id)) :
    Assigned (nodes ++ [n]) (assignSubject state n) := by
  have hne : ∀ m ∈ nodes, m.id ≠ n.id := fun m hm heq ↦ hn (heq ▸ List.mem_map_of_mem hm)
  have hold : ∀ m ∈ nodes, (Document.assignSubject state n).1.get? m.id =
      state.1.get? m.id := fun m hm ↦ by rw [get?_assignSubject h.store, if_neg (hne m hm)]
  have hnew : (Document.assignSubject state n).1.get? n.id = some (nextSubject state n) := by
    rw [get?_assignSubject h.store, if_pos rfl]
  constructor
  case store => exact triples_assignSubject h.store n
  case element =>
    intro m hm hkind
    rcases List.mem_append.1 hm with hm | hm
    · rw [hold m hm]
      exact h.element m hm hkind
    · cases List.mem_singleton.1 hm
      rw [hnew, nextSubject_of_element hkind]
  case blank =>
    intro m hm hkind
    rw [nextBlank_assignSubject h.store]
    rcases List.mem_append.1 hm with hm | hm
    · obtain ⟨k, hk, hsubject⟩ := h.blank m hm hkind
      refine ⟨k, ?_, by rw [hold m hm, hsubject]⟩
      split <;> omega
    · cases List.mem_singleton.1 hm
      refine ⟨state.2.nextBlank, ?_, by rw [hnew, nextSubject_of_not_element hkind]⟩
      rw [hkind, if_neg Bool.false_ne_true]
      exact Nat.lt_succ_self _
  case injective =>
    intro m hm m' hm' heq
    rcases List.mem_append.1 hm with hm | hm <;> rcases List.mem_append.1 hm' with hm' | hm'
    · rw [hold m hm, hold m' hm'] at heq
      exact h.injective m hm m' hm' heq
    · cases List.mem_singleton.1 hm'
      rw [hold m hm, hnew] at heq
      exact absurd heq (h.get?_ne_nextSubject hm (hne m hm))
    · cases List.mem_singleton.1 hm
      rw [hold m' hm', hnew] at heq
      exact absurd heq.symm (h.get?_ne_nextSubject hm' (hne m' hm'))
    · rw [List.mem_singleton.1 hm, List.mem_singleton.1 hm']

end NextSubject

/-- Nodes with different identifiers get different subjects. -/
theorem assigned_assignSubjects {nodes : List Node} (h : (nodes.map (·.id)).Nodup) :
    Assigned nodes (assignSubjects nodes) := by
  induction nodes using List.reverseRecOn with
  | nil => exact assigned_nil
  | append_singleton nodes n ih =>
    rw [List.map_append, List.nodup_append] at h
    obtain ⟨hnodes, -, hnew⟩ := h
    rw [assignSubjects, List.foldl_append]
    exact (ih hnodes).assignSubject fun hmem ↦ hnew _ hmem _ (List.mem_singleton_self _) rfl

/-! ## Triples -/

def subjectOf (nodes : List Node) (n : Node) : Term :=
  ((assignSubjects nodes).1.get? n.id).getD default

theorem get?_assignSubjects {nodes : List Node} (h : (nodes.map (·.id)).Nodup) {n : Node}
    (hn : n ∈ nodes) : (assignSubjects nodes).1.get? n.id = some (subjectOf nodes n) := by
  have hassigned := assigned_assignSubjects h
  rw [subjectOf]
  cases hkind : n.isElement with
  | true =>
    rw [hassigned.element n hn hkind]
    rfl
  | false =>
    obtain ⟨k, -, hsubject⟩ := hassigned.blank n hn hkind
    rw [hsubject]
    rfl

theorem subjectOf_element {nodes : List Node} (h : (nodes.map (·.id)).Nodup) {n : Node}
    (hn : n ∈ nodes) (hkind : n.isElement = true) : subjectOf nodes n = .iri n.id := by
  rw [subjectOf, (assigned_assignSubjects h).element n hn hkind]
  rfl

theorem isBlank_subjectOf {nodes : List Node} (h : (nodes.map (·.id)).Nodup) {n : Node}
    (hn : n ∈ nodes) (hkind : n.isElement = false) : (subjectOf nodes n).isBlank = true := by
  obtain ⟨k, -, hsubject⟩ := (assigned_assignSubjects h).blank n hn hkind
  rw [subjectOf, hsubject]
  rfl

theorem subjectOf_injective {nodes : List Node} (h : (nodes.map (·.id)).Nodup) {n m : Node}
    (hn : n ∈ nodes) (hm : m ∈ nodes) (heq : subjectOf nodes n = subjectOf nodes m) : n = m := by
  refine List.inj_on_of_nodup_map h hn hm ((assigned_assignSubjects h).injective n hn m hm ?_)
  rw [get?_assignSubjects h hn, get?_assignSubjects h hm, heq]

theorem withSubjects_eq {nodes : List Node} (h : (nodes.map (·.id)).Nodup) :
    withSubjects (assignSubjects nodes).1 nodes = nodes.map fun n ↦ (n, subjectOf nodes n) := by
  rw [withSubjects, ← List.filterMap_eq_map]
  refine List.filterMap_congr fun n hn ↦ ?_
  rw [get?_assignSubjects h hn]
  rfl

def triplesFor (g : InstanceGraph) (nodes : List Node) (n : Node) : List Triple :=
  nodeTriples g (assignSubjects nodes).1 n (subjectOf nodes n)

theorem exportStore_eq {g : InstanceGraph} {nodes : List Node} (h : (nodes.map (·.id)).Nodup) :
    exportStore g nodes = (nodes.map fun n ↦ (n, subjectOf nodes n),
      (nodes.flatMap (triplesFor g nodes)).foldl Store.insert (assignSubjects nodes).2) := by
  unfold exportStore
  dsimp only
  rw [withSubjects_eq h, List.flatMap_map]
  rfl

theorem subject_of_mem_triplesFor {g : InstanceGraph} {nodes : List Node} {n : Node} {t : Triple}
    (ht : t ∈ triplesFor g nodes n) : t.subject = subjectOf nodes n := by
  rcases List.mem_cons.1 ht with rfl | ht
  · rfl
  · rcases List.mem_append.1 ht with ht | ht
    · obtain ⟨e, -, he⟩ := List.mem_filterMap.1 ht
      obtain ⟨o, -, rfl⟩ := Option.map_eq_some_iff.1 he
      rfl
    · obtain ⟨e, -, he⟩ := List.mem_filterMap.1 ht
      obtain ⟨o, -, rfl⟩ := Option.map_eq_some_iff.1 he
      rfl

/-! ## What is exported -/

section

variable {g : InstanceGraph} {n : Node} {path : String} {o : Term}

/-- A triple of a node says its type, one of its values, or the subject that one of its edges leads
to. -/
theorem mem_triplesFor : ⟨subjectOf g.nodes n, path, o⟩ ∈ triplesFor g g.nodes n ↔
    (path = rdfType ∧ o = .iri n.cls.iri) ∨ (∃ e ∈ n.entriesOf path, entryTerm? e = some o) ∨
      ∃ target ∈ g.targetsAt n.id path, (assignSubjects g.nodes).1.get? target = some o := by
  unfold triplesFor nodeTriples Node.entriesOf targetsAt
  simp only [List.cons_append, List.mem_cons, List.mem_append, List.mem_filterMap,
    Option.map_eq_some_iff, Triple.mk.injEq, List.mem_filter, List.mem_map, decide_eq_true_eq]
  grind

theorem mem_exportStore (hids : (g.nodes.map (·.id)).Nodup) {t : Triple} :
    t ∈ (exportStore g g.nodes).2.triples.toList ↔ ∃ n ∈ g.nodes, t ∈ triplesFor g g.nodes n := by
  rw [exportStore_eq hids, Store.mem_foldl_insert, (assigned_assignSubjects hids).store,
    List.mem_flatMap]
  exact or_iff_right (List.not_mem_nil)

theorem mem_objects_exportStore (hids : (g.nodes.map (·.id)).Nodup) (hn : n ∈ g.nodes) :
    o ∈ (exportStore g g.nodes).2.objects (subjectOf g.nodes n) path ↔
      (path = rdfType ∧ o = .iri n.cls.iri) ∨ (∃ e ∈ n.entriesOf path, entryTerm? e = some o) ∨
        ∃ target ∈ g.targetsAt n.id path, (assignSubjects g.nodes).1.get? target = some o := by
  rw [Store.mem_objects, mem_exportStore hids, ← mem_triplesFor]
  constructor
  · rintro ⟨m, hm, ht⟩
    obtain rfl := subjectOf_injective hids hn hm (subject_of_mem_triplesFor ht)
    exact ht
  · exact fun ht ↦ ⟨n, hn, ht⟩

end

/-! ## No triple twice -/

variable {g : InstanceGraph}

/-- The term for an entry has the written form of its value. -/
theorem value_of_entryTerm {e : Entry} {o : Term} (h : entryTerm? e = some o) :
    e.value.map Value.lexical = some o.value := by
  unfold entryTerm? at h
  obtain ⟨v, hv, h⟩ := Option.bind_eq_some_iff.1 h
  rw [hv, Option.map_some]
  split at h <;> cases h <;> rfl

/-- The triples for items are different where their paths or terms are. -/
theorem nodup_filterMap_triples {α : Type} {items : List α} {subject : Term} {path : α → String}
    {term? : α → Option Term} (h : items.Pairwise fun a b ↦ path a = path b →
      ∀ o, term? a = some o → term? b ≠ some o) :
    (items.filterMap fun a ↦ (term? a).map (⟨subject, path a, ·⟩ : Term → Triple)).Nodup := by
  rw [List.Nodup, List.pairwise_filterMap]
  refine h.imp fun hab t ht t' ht' heq ↦ ?_
  obtain ⟨o, ho, rfl⟩ := Option.map_eq_some_iff.1 ht
  obtain ⟨o', ho', rfl⟩ := Option.map_eq_some_iff.1 ht'
  obtain ⟨-, hpath, hobject⟩ := Triple.mk.inj heq
  exact hab hpath o ho (hobject ▸ ho')

theorem nodup_triplesFor (hg : g.Consistent) (hp : g.Portable) {n : Node} (hn : n ∈ g.nodes) :
    (triplesFor g g.nodes n).Nodup := by
  have hentry := fun e he ↦ property_of_mem_entries (e := e) hg hp hn he
  have hedge := fun e he ↦ property_of_mem_outEdges (e := e) hg hp hn he
  have htyped : ∀ path cp, n.property? path = some cp → path ≠ rdfType := by
    rintro _ cp hcp rfl
    exact hp.untyped n hn cp (mem_declarations_of_nearest? hcp) (path_of_nearest? hcp)
  unfold triplesFor nodeTriples
  refine List.nodup_cons.2 ⟨fun hmem ↦ ?_, List.nodup_append.2 ⟨?_, ?_, ?_⟩⟩
  · rcases List.mem_append.1 hmem with hmem | hmem
    · obtain ⟨e, he, ht⟩ := List.mem_filterMap.1 hmem
      obtain ⟨o, -, heq⟩ := Option.map_eq_some_iff.1 ht
      exact htyped _ _ (hentry e he).1 (Triple.mk.inj heq).2.1
    · obtain ⟨e, he, ht⟩ := List.mem_filterMap.1 hmem
      obtain ⟨o, -, heq⟩ := Option.map_eq_some_iff.1 ht
      exact htyped _ _ (hedge e he).1 (Triple.mk.inj heq).2.1
  · refine nodup_filterMap_triples ((List.pairwise_map.1 (hp.entries n hn)).imp_of_mem ?_)
    intro e f he hf hne hpath o ho ho'
    exact hne (Prod.ext hpath ((value_of_entryTerm ho).trans (value_of_entryTerm ho').symm))
  · have hkeys := (List.pairwise_map.1 hp.edges).sublist
      (List.filter_sublist : (g.outEdges n.id).Sublist g.edges)
    refine nodup_filterMap_triples (hkeys.imp_of_mem ?_)
    intro e f he hf hne hpath o ho ho'
    obtain ⟨-, -, m, hm, -, hid, -⟩ := hedge e he
    obtain ⟨-, -, m', hm', -, hid', -⟩ := hedge f hf
    rw [← hid, get?_assignSubjects hg.ids hm] at ho
    rw [← hid', get?_assignSubjects hg.ids hm', ← ho] at ho'
    have hsame := subjectOf_injective hg.ids hm' hm (Option.some.inj ho')
    refine hne (Prod.ext ?_ (Prod.ext hpath (by rw [← hid, ← hid', hsame])))
    rw [of_decide_eq_true (List.mem_filter.1 he).2, of_decide_eq_true (List.mem_filter.1 hf).2]
  · rintro t ht _ ht' rfl
    obtain ⟨e, he, ht⟩ := List.mem_filterMap.1 ht
    obtain ⟨o, -, rfl⟩ := Option.map_eq_some_iff.1 ht
    obtain ⟨f, hf, ht'⟩ := List.mem_filterMap.1 ht'
    obtain ⟨o', -, heq⟩ := Option.map_eq_some_iff.1 ht'
    have hproperty := (hentry e he).1
    rw [← (Triple.mk.inj heq).2.1, (hedge f hf).1] at hproperty
    have hobject := (hedge f hf).2.1
    rw [Option.some.inj hproperty, (hentry e he).2] at hobject
    cases hobject

theorem nodup_triples (hg : g.Consistent) (hp : g.Portable) :
    (g.nodes.flatMap (triplesFor g g.nodes)).Nodup := by
  rw [List.nodup_flatMap]
  refine ⟨fun n hn ↦ nodup_triplesFor hg hp hn, ?_⟩
  have hdifferent : g.nodes.Pairwise fun n m ↦ n ≠ m := hg.ids.of_map _
  refine hdifferent.imp_of_mem fun hn hm hne ↦ ?_
  intro t ht ht'
  refine hne (subjectOf_injective hg.ids hn hm ?_)
  rw [← subject_of_mem_triplesFor ht, ← subject_of_mem_triplesFor ht']

/-- The store of an exported graph holds the triples of its nodes, node by node. -/
theorem triples_exportStore (hg : g.Consistent) (hp : g.Portable) :
    (exportStore g g.nodes).2.triples.toList = g.nodes.flatMap (triplesFor g g.nodes) := by
  have hempty : (assignSubjects g.nodes).2.triples.toList = [] := by
    rw [(assigned_assignSubjects hg.ids).store]
  rw [exportStore_eq hg.ids]
  dsimp only
  rw [Store.triples_foldl_insert (nodup_triples hg hp), hempty, List.nil_append]
  rw [hempty]
  rintro t - ⟨⟩

/-! ## Objects -/

theorem objectsIn_filterMap {α : Type} (items : List α) (subject : Term) (path : α → String)
    (term? : α → Option Term) (predicate : String) :
    objectsIn (items.filterMap fun a ↦ (term? a).map (⟨subject, path a, ·⟩ : Term → Triple))
      subject predicate = (items.filter (path · = predicate)).filterMap term? := by
  induction items with
  | nil => rfl
  | cons a items ih =>
    cases hterm : term? a with
    | none =>
      rw [List.filterMap_cons_none (by rw [hterm]; rfl), ih]
      by_cases hpath : path a = predicate
      · rw [List.filter_cons_of_pos (by simpa using hpath), List.filterMap_cons_none hterm]
      · rw [List.filter_cons_of_neg (by simpa using hpath)]
    | some o =>
      rw [List.filterMap_cons_some (by rw [hterm]; rfl), ← List.singleton_append,
        objectsIn_append, objectsIn_singleton, ih]
      by_cases hpath : path a = predicate
      · rw [if_pos ⟨rfl, hpath.symm⟩, List.filter_cons_of_pos (by simpa using hpath),
          List.filterMap_cons_some hterm]
        rfl
      · rw [if_neg fun h ↦ hpath h.2.symm, List.filter_cons_of_neg (by simpa using hpath)]
        rfl

theorem objects_exportStore (hg : g.Consistent) (hp : g.Portable) {n : Node} (hn : n ∈ g.nodes)
    (predicate : String) :
    (exportStore g g.nodes).2.objects (subjectOf g.nodes n) predicate =
      (if predicate = rdfType then [.iri n.cls.iri] else []) ++
        ((g.entriesAt n.id predicate).filterMap entryTerm? ++
          (g.targetsAt n.id predicate).filterMap ((assignSubjects g.nodes).1.get? ·)) := by
  have hsubjects : (g.nodes.map (subjectOf g.nodes)).Nodup :=
    (hg.ids.of_map _).map_on fun n hn m hm heq ↦ subjectOf_injective hg.ids hn hm heq
  have hobjects : (exportStore g g.nodes).2.objects (subjectOf g.nodes n) predicate =
      objectsIn (triplesFor g g.nodes n) (subjectOf g.nodes n) predicate := by
    rw [Store.objects_eq, triples_exportStore hg hp]
    exact objectsIn_flatMap (subjectOf g.nodes) (fun n _ t ht ↦ subject_of_mem_triplesFor ht)
      hsubjects hn predicate
  rw [hobjects, triplesFor, nodeTriples, objectsIn_append, ← List.singleton_append,
    objectsIn_append, objectsIn_singleton, objectsIn_filterMap, objectsIn_filterMap,
    entriesAt_of_node? (node?_of_mem hg.ids hn), Node.entriesOf, targetsAt, List.filterMap_map,
    List.append_assoc]
  congr 1
  simp

/-- The type of a node is exported, and nothing else of this predicate. -/
theorem objects_rdfType (hg : g.Consistent) (hp : g.Portable) {n : Node} (hn : n ∈ g.nodes) :
    (exportStore g g.nodes).2.objects (subjectOf g.nodes n) rdfType = [.iri n.cls.iri] := by
  have hnone : ∀ cp, n.property? rdfType ≠ some cp := fun cp hcp ↦ by
    rw [hp.property?_rdfType hn] at hcp
    cases hcp
  rw [objects_exportStore hg hp hn, if_pos rfl,
    entriesAt_eq_nil hg hp hn fun cp hcp ↦ absurd hcp (hnone cp),
    targetsAt_eq_nil hg hp hn fun cp hcp ↦ absurd hcp (hnone cp)]
  rfl

theorem path_ne_rdfType (hp : g.Portable) {n : Node} {path : String} {cp : ClassProperty}
    (hn : n ∈ g.nodes) (hcp : n.property? path = some cp) : path ≠ rdfType := by
  rintro rfl
  rw [hp.property?_rdfType hn] at hcp
  cases hcp

/-- The values of a path are exported in their order. -/
theorem objects_of_value (hg : g.Consistent) (hp : g.Portable) {n : Node} {path : String}
    {cp : ClassProperty} (hn : n ∈ g.nodes) (hcp : n.property? path = some cp)
    (hobject : cp.isObject = false) :
    (exportStore g g.nodes).2.objects (subjectOf g.nodes n) path =
      (g.entriesAt n.id path).filterMap entryTerm? := by
  rw [objects_exportStore hg hp hn, if_neg (path_ne_rdfType hp hn hcp),
    targetsAt_eq_nil hg hp hn fun cp' h ↦ Option.some.inj (hcp.symm.trans h) ▸ hobject]
  exact List.append_nil _

/-- The subjects that the edges of a path lead to are exported in their order. -/
theorem objects_of_object (hg : g.Consistent) (hp : g.Portable) {n : Node} {path : String}
    {cp : ClassProperty} (hn : n ∈ g.nodes) (hcp : n.property? path = some cp)
    (hobject : cp.isObject = true) :
    (exportStore g g.nodes).2.objects (subjectOf g.nodes n) path =
      (g.targetsAt n.id path).filterMap fun target ↦ (g.node? target).map (subjectOf g.nodes) := by
  rw [objects_exportStore hg hp hn, if_neg (path_ne_rdfType hp hn hcp),
    entriesAt_eq_nil hg hp hn fun cp' h ↦ Option.some.inj (hcp.symm.trans h) ▸ hobject]
  refine List.filterMap_congr fun targetId htargetId ↦ ?_
  obtain ⟨-, -, -, target, htarget, -, hnode, -⟩ := property_of_mem_targetsAt hg hp hn htargetId
  rw [hnode, ← (node?_eq_some hnode).2, get?_assignSubjects hg.ids htarget]
  rfl

theorem predicate_of_mem_triplesFor (hg : g.Consistent) (hp : g.Portable) {n : Node}
    {t : Triple} (hn : n ∈ g.nodes) (ht : t ∈ triplesFor g g.nodes n) :
    t.predicate = rdfType ∨ ∃ cp, n.property? t.predicate = some cp := by
  rcases List.mem_cons.1 ht with rfl | ht
  · exact .inl rfl
  · right
    rcases List.mem_append.1 ht with ht | ht
    · obtain ⟨e, he, ht⟩ := List.mem_filterMap.1 ht
      obtain ⟨o, -, rfl⟩ := Option.map_eq_some_iff.1 ht
      exact ⟨_, (property_of_mem_entries hg hp hn he).1⟩
    · obtain ⟨e, he, ht⟩ := List.mem_filterMap.1 ht
      obtain ⟨o, -, rfl⟩ := Option.map_eq_some_iff.1 ht
      exact ⟨_, (property_of_mem_outEdges hg hp hn he).1⟩

end OntoGraph.Document
