import OntoGraph.Proofs.Document.Outcomes
import OntoGraph.Proofs.Document.Rebuilt

/-!
# The statements that a graph takes

Whatever a document says, each of its statements is taken into the graph or counted as left out.
What a node holds for a path follows from the statements that were taken: their objects as values
or as targets, after the nearest declaration of the path, or else the entry that the node started
with.
-/

namespace OntoGraph.Document

open Ontology OntoGraph.Graph Rdf InstanceGraph

/-! ## What a node holds -/

def valueObjects (chain : Chain) (path : String) (objects : List Term) : List Term :=
  if path ≠ rdfType ∧ (chain.nearest? path).any (!·.isObject) then objects else []

def targetObjects (chain : Chain) (path : String) (objects : List Term) : List Term :=
  if path ≠ rdfType ∧ (chain.nearest? path).any ClassProperty.isObject then objects else []

/-- The identifiers of the nodes that a node leads to for a path when some objects of the path were
taken. -/
def targetNames (name : Term → String) (chain : Chain) (path : String) (objects : List Term) :
    List String :=
  (targetObjects chain path objects).map name

/-- What a node holds for a path when some objects of the path were taken: their values, or the
open entry that it started with. -/
def holdings (g : InstanceGraph) (chain : Chain) (path : String) (objects : List Term) :
    List (Option Value × Bool) :=
  if valueObjects chain path objects = [] then
    ((prefilled chain).filter (·.path = path)).map fun cp ↦ (g.initialValue cp, true)
  else (valueObjects chain path objects).map fun o ↦
    ((chain.nearest? path).map (entryValue · o), false)

/-- The declarations that the entries of a node for a path are bound to when some objects of the
path were taken: that of the entry which the node started with, and the nearest one for each further
value. -/
def holders (chain : Chain) (path : String) (objects : List Term) : List ClassProperty :=
  let first := (prefilled chain).filter (·.path = path)
  first ++ ((valueObjects chain path objects).drop first.length).filterMap
    fun _ ↦ chain.nearest? path

/-- The declaration that the entry for a value of a path is bound to, by the nearest declaration of
the path. -/
def holder (chain : Chain) (path : String) (nearest : ClassProperty) (objects : List Term)
    (o : Term) : ClassProperty :=
  if objects.head? = some o then ((prefilled chain).find? (·.path = path)).getD nearest
  else nearest

section

variable {g : InstanceGraph} {chain : Chain} {path : String} {cp : ClassProperty}
  {objects : List Term}

theorem valueObjects_of_value (hpath : path ≠ rdfType) (hcp : chain.nearest? path = some cp)
    (hobject : cp.isObject = false) : valueObjects chain path objects = objects := by
  rw [valueObjects, if_pos ⟨hpath, by rw [hcp, Option.any_some, hobject]; rfl⟩]

theorem valueObjects_of_object (hcp : chain.nearest? path = some cp)
    (hobject : cp.isObject = true) : valueObjects chain path objects = [] := by
  rw [valueObjects, if_neg]
  rw [hcp, Option.any_some, hobject]
  exact fun h ↦ Bool.false_ne_true h.2

theorem targetObjects_of_object (hpath : path ≠ rdfType) (hcp : chain.nearest? path = some cp)
    (hobject : cp.isObject = true) : targetObjects chain path objects = objects := by
  rw [targetObjects, if_pos ⟨hpath, by rw [hcp, Option.any_some, hobject]⟩]

theorem targetObjects_of_value (hcp : chain.nearest? path = some cp)
    (hobject : cp.isObject = false) : targetObjects chain path objects = [] := by
  rw [targetObjects, if_neg]
  rw [hcp, Option.any_some, hobject]
  exact fun h ↦ Bool.false_ne_true h.2

@[simp] theorem valueObjects_rdfType : valueObjects chain rdfType objects = [] :=
  if_neg fun h ↦ h.1 rfl

@[simp] theorem targetObjects_rdfType : targetObjects chain rdfType objects = [] :=
  if_neg fun h ↦ h.1 rfl

@[simp] theorem valueObjects_nil : valueObjects chain path [] = [] := ite_self _

@[simp] theorem targetObjects_nil : targetObjects chain path [] = [] := ite_self _

theorem exists_of_mem_valueObjects {o : Term} (h : o ∈ valueObjects chain path objects) :
    path ≠ rdfType ∧ ∃ cp, chain.nearest? path = some cp ∧ cp.isObject = false := by
  unfold valueObjects at h
  split_ifs at h with hvalue
  · obtain ⟨hpath, hvalue⟩ := hvalue
    obtain ⟨cp, hcp, hobject⟩ := (Option.any_eq_true _ _).1 hvalue
    exact ⟨hpath, cp, hcp, by simpa using hobject⟩
  · cases h

theorem exists_of_mem_targetObjects {o : Term} (h : o ∈ targetObjects chain path objects) :
    path ≠ rdfType ∧ ∃ cp, chain.nearest? path = some cp ∧ cp.isObject = true := by
  unfold targetObjects at h
  split_ifs at h with hobject
  · obtain ⟨hpath, hobject⟩ := hobject
    obtain ⟨cp, hcp, hobject⟩ := (Option.any_eq_true _ _).1 hobject
    exact ⟨hpath, cp, hcp, hobject⟩
  · cases h

theorem holdings_of_none (h : valueObjects chain path objects = []) :
    holdings g chain path objects =
      ((prefilled chain).filter (·.path = path)).map fun cp ↦ (g.initialValue cp, true) :=
  if_pos h

theorem holdings_of_values (hpath : path ≠ rdfType) (hcp : chain.nearest? path = some cp)
    (hobject : cp.isObject = false) (hsome : objects ≠ []) :
    holdings g chain path objects = objects.map fun o ↦ (some (entryValue cp o), false) := by
  rw [holdings, valueObjects_of_value hpath hcp hobject, if_neg hsome, hcp]
  rfl

theorem holders_of_none (h : valueObjects chain path objects = []) :
    holders chain path objects = (prefilled chain).filter (·.path = path) := by
  rw [holders, h, List.drop_nil]
  exact List.append_nil _

theorem holders_of_values (hpath : path ≠ rdfType) (hcp : chain.nearest? path = some cp)
    (hobject : cp.isObject = false) :
    holders chain path objects = (prefilled chain).filter (·.path = path) ++
      (objects.drop ((prefilled chain).filter (·.path = path)).length).map fun _ ↦ cp := by
  rw [holders, valueObjects_of_value hpath hcp hobject, hcp, ← List.filterMap_eq_map]
  rfl

theorem holders_concat {o : Term} (hpath : path ≠ rdfType) (hcp : chain.nearest? path = some cp)
    (hobject : cp.isObject = false)
    (hlength : ((prefilled chain).filter (·.path = path)).length ≤ objects.length) :
    holders chain path (objects ++ [o]) = holders chain path objects ++ [cp] := by
  rw [holders_of_values hpath hcp hobject, holders_of_values hpath hcp hobject,
    List.drop_append_of_le_length hlength, List.map_append, List.append_assoc]
  rfl

/-- At most one open entry is held for a path. -/
theorem length_filter_prefilled_le_one (chain : Chain) (path : String) :
    ((prefilled chain).filter (·.path = path)).length ≤ 1 := by
  have hcount := List.nodup_iff_count_le_one.1 (nodup_path_prefilled chain) path
  rw [List.count_eq_length_filter, List.filter_map, List.length_map] at hcount
  exact hcount

/-- Each of several different values has one entry. -/
theorem holders_eq_map (hpath : path ≠ rdfType) (hcp : chain.nearest? path = some cp)
    (hobject : cp.isObject = false) (hsome : objects ≠ []) (hnodup : objects.Nodup) :
    holders chain path objects = objects.map (holder chain path cp objects) := by
  have hlength := length_filter_prefilled_le_one chain path
  rw [holders_of_values hpath hcp hobject]
  unfold holder
  rw [← List.head?_filter]
  cases hfirst : (prefilled chain).filter (·.path = path) with
  | nil => simp
  | cons q more =>
    rw [hfirst, List.length_cons] at hlength
    obtain rfl : more = [] := List.length_eq_zero_iff.1 (by omega)
    cases objects with
    | nil => exact absurd rfl hsome
    | cons first rest =>
      have hfurther : ∀ o ∈ rest, first ≠ o := fun o ho heq ↦
        (List.nodup_cons.1 hnodup).1 (heq ▸ ho)
      simp only [List.map_cons, List.head?_cons, if_pos, Option.getD_some, List.singleton_append,
        List.length_singleton, List.drop_succ_cons, List.drop_zero, Option.some.injEq]
      refine congrArg (q :: ·) (List.map_congr_left fun o ho ↦ ?_)
      rw [if_neg (hfurther o ho)]

end

/-! ## New nodes -/

/-- A new node has an entry bound to each declaration that is prefilled. -/
theorem map_property_initialEntries (g : InstanceGraph) (chain : Chain) (path : String) :
    ((g.initialEntries chain).filter (·.path = path)).map (·.property) =
      (prefilled chain).filter (·.path = path) :=
  (map_initialEntries_of_path g chain path fun cp _ ↦ cp).trans (List.map_id _)

/-- No edge leaves a node that there is not. -/
theorem targetsAt_of_unknown {g : InstanceGraph} {id : String} (h : g.Consistent)
    (hnode : g.node? id = none) (path : String) : g.targetsAt id path = [] := by
  rw [targetsAt, List.map_eq_nil_iff, List.filter_eq_nil_iff]
  intro e he _
  obtain ⟨he, hleaves⟩ := List.mem_filter.1 he
  obtain ⟨source, hsource, -, -, -, hid, -⟩ := h.edges e he
  exact node?_eq_none_iff.1 hnode source hsource (hid.trans (of_decide_eq_true hleaves))

/-! ## What a graph holds -/

/-- Is the statement one of the type of its subject, or of a property that the node of its subject
has? Where the property asks for a node there has to be one. -/
def Rebuilding.Declares (r : Rebuilding) (name : Term → String) (subjects : List Term)
    (u : Triple) : Prop :=
  u.subject ∈ subjects ∧ (u.predicate ≠ rdfType →
    ∃ n cp, r.graph.node? (name u.subject) = some n ∧ n.property? u.predicate = some cp ∧
      (cp.isObject = true → u.object ∈ subjects))

def boundAt (g : InstanceGraph) (id path : String) : List ClassProperty :=
  (g.entriesAt id path).map (·.property)

section

variable {g : InstanceGraph} {id : String}

@[simp] theorem boundAt_insertNode {m : Node} (hnode : g.node? m.id = none) (other path : String) :
    boundAt (g.insertNode m) other path =
      if other = m.id then (m.entriesOf path).map (·.property) else boundAt g other path := by
  by_cases hother : other = m.id <;> simp [boundAt, hnode, hother]

@[simp] theorem boundAt_insertEntry {e : Entry} {n : Node} (hn : g.node? id = some n)
    (other path : String) : boundAt (g.insertEntry id e) other path =
      boundAt g other path ++ if other = id ∧ path = e.path then [e.property] else [] := by
  by_cases hplace : other = id ∧ path = e.path <;> simp [boundAt, hn, hplace]

/-- Writing a value leaves its entry bound as it was. -/
@[simp] theorem boundAt_writeEntry (entryId : String) (value : Option Value) (isValid : Bool)
    (other path : String) :
    boundAt (g.writeEntry id entryId value isValid) other path = boundAt g other path := by
  unfold boundAt
  rw [entriesAt_writeEntry]
  split
  · rw [List.map_map]
    refine List.map_congr_left fun e _ ↦ ?_
    rw [Function.comp_apply, rewritten]
    split <;> rfl
  · rfl

end

/-! ## How much a node takes -/

/-- The number of statements of a path that a node with a given chain can take, if there is a bound.
An entry that the node started with counts as a value, and it is filled in any case. -/
def capacity (chain : Chain) (path : String) : Option Nat :=
  if path = rdfType then none
  else (chain.nearest? path).bind fun cp ↦ cp.maxCount.map fun max ↦
    let first := ((prefilled chain).filter (·.path = path)).length
    if cp.isObject then max - first else Nat.max first max

/-- How many of some number of statements of a path a node with a given chain takes. -/
def admitted (chain : Chain) (path : String) (count : Nat) : Nat :=
  (capacity chain path).elim count (min count)

section

variable {chain : Chain} {path : String} {cp : ClassProperty}

@[simp] theorem capacity_rdfType : capacity chain rdfType = none := if_pos rfl

theorem capacity_of_nearest? (hpath : path ≠ rdfType) (hcp : chain.nearest? path = some cp) :
    capacity chain path = cp.maxCount.map fun max ↦
      if cp.isObject then max - ((prefilled chain).filter (·.path = path)).length
      else Nat.max ((prefilled chain).filter (·.path = path)).length max := by
  rw [capacity, if_neg hpath, hcp]
  rfl

@[simp] theorem admitted_zero : admitted chain path 0 = 0 := by
  unfold admitted
  cases capacity chain path <;> simp

/-- Below the capacity one more statement is taken. -/
theorem admitted_succ_of_room {count : Nat}
    (h : ∀ most, capacity chain path = some most → admitted chain path count < most) :
    admitted chain path (count + 1) = admitted chain path count + 1 := by
  unfold admitted at h ⊢
  cases hcapacity : capacity chain path with
  | none => rfl
  | some most =>
    have hlt := h most hcapacity
    rw [hcapacity, Option.elim_some] at hlt
    rw [Option.elim_some, Option.elim_some]
    omega

/-- At the capacity no more statements are taken. -/
theorem admitted_succ_of_full {count most : Nat} (hmost : capacity chain path = some most)
    (h : most ≤ admitted chain path count) :
    admitted chain path (count + 1) = admitted chain path count := by
  unfold admitted at h ⊢
  rw [hmost, Option.elim_some] at h ⊢
  rw [Option.elim_some]
  omega

end

/-- Has every node taken as many of the statements that were read as it can? -/
def Rebuilding.Admits (r : Rebuilding) (name : Term → String) (subjects : List Term)
    (taken read : List Triple) : Prop :=
  ∀ t ∈ subjects, ∀ n, r.graph.node? (name t) = some n → ∀ path,
    (objectsIn taken t path).length = admitted n.chain path (objectsIn read t path).length

/-- Is what the node of a subject shows for a path what is expected from the objects of the path
that were taken? -/
def Rebuilding.Shows {α : Type} (r : Rebuilding) (name : Term → String) (subjects : List Term)
    (taken : List Triple) (shown : String → String → α)
    (expected : Chain → String → List Term → α) : Prop :=
  ∀ t ∈ subjects, ∀ n, r.graph.node? (name t) = some n → ∀ path,
    shown (name t) path = expected n.chain path (objectsIn taken t path)

/-- Does the graph hold what the subjects and the statements that were taken say, and beside that
only what its nodes started with? -/
structure Rebuilding.Holds (r : Rebuilding) (g : InstanceGraph) (s : Statements)
    (name : Term → String) (subjects : List Term) (taken : List Triple) : Prop where
  model : r.graph.model = g.model
  settings : r.graph.settings = g.settings
  consistent : r.graph.Consistent
  distinct : r.graph.DistinctEntries
  issued : ∀ id ∈ r.placeholders, ∃ k < r.graph.issued, id = issuedId k
  named : r.nodeIds.reverse = subjects.map fun t ↦ (t, name t)
  nodes : r.graph.nodes.map (·.id) = subjects.map name
  classes : ∀ t ∈ subjects, ∃ n, r.graph.node? (name t) = some n ∧
    s.classIri? g.model t = some n.cls.iri
  contents : r.Shows name subjects taken r.contents (holdings g)
  bound : r.Shows name subjects taken (boundAt r.graph) holders
  targets : r.Shows name subjects taken r.graph.targetsAt (targetNames name)
  declared : ∀ u ∈ taken, r.Declares name subjects u

variable {s : Statements} {g : InstanceGraph} {r r' : Rebuilding} {name : Term → String}
  {subjects : List Term} {taken : List Triple} {t : Term} {u : Triple}

theorem holds_nil (g : InstanceGraph) (s : Statements) (name : Term → String) :
    Rebuilding.Holds { graph := g.reset } g s name [] [] where
  model := rfl
  settings := rfl
  consistent := consistent_reset g
  distinct := distinctEntries_reset g
  issued := by rintro _ ⟨⟩
  named := rfl
  nodes := rfl
  classes := by rintro _ ⟨⟩
  contents := by rintro _ ⟨⟩
  bound := by rintro _ ⟨⟩
  targets := by rintro _ ⟨⟩
  declared := by rintro _ ⟨⟩

namespace Rebuilding.Holds

/-- Different subjects have nodes under different names. -/
theorem name_injective (h : r.Holds g s name subjects taken) {t u : Term} (ht : t ∈ subjects)
    (hu : u ∈ subjects) (heq : name t = name u) : t = u :=
  List.inj_on_of_nodup_map (h.nodes ▸ h.consistent.ids) ht hu heq

theorem lookup_eq_some (h : r.Holds g s name subjects taken) {o : Term} {id : String}
    (ho : r.nodeIds.lookup o = some id) : o ∈ subjects ∧ id = name o :=
  Rebuilding.Names.of_lookup h.named ho

theorem lookup_of_mem (h : r.Holds g s name subjects taken) (ht : t ∈ subjects) :
    r.nodeIds.lookup t = some (name t) :=
  Rebuilding.Names.lookup h.named ht

/-! ## Subjects -/

/-- A subject becomes a node that holds what it starts with. -/
theorem addSubject {grid : Float × Float} {reference : Position} {urns : Nat → String}
    (h : r.Holds g s name subjects [])
    (hstep : Document.addSubject s grid reference urns r t = .ok r')
    (hname : nodeIdFor urns r t = name t) : r'.Holds g s name (subjects ++ [t]) [] := by
  obtain ⟨classIri, m, hclass, hnode, hm, rfl⟩ := addSubject_eq_insert.1 hstep
  rw [hname] at hnode hm
  obtain ⟨hid, hcls, hentries⟩ := newNode_parts hm
  have hfresh := fun n hn e he ↦ notMem_entries_of_newNode (n := n) (e := e) h.distinct hm hn he
  have hlookup : ∀ other, (r.insert t m).graph.node? other =
      if other = name t then some m else r.graph.node? other :=
    hid ▸ node?_insertNode (hid.symm ▸ hnode)
  have hold : ∀ t' ∈ subjects, name t' ≠ name t := by
    intro t' ht' heq
    obtain ⟨n, hn, -⟩ := h.classes t' ht'
    rw [heq, hnode] at hn
    cases hn
  have hcases : ∀ t' ∈ subjects ++ [t], t' ∈ subjects ∨ t' = t := fun t' ht' ↦
    (List.mem_append.1 ht').imp_right List.mem_singleton.1
  constructor
  case model => exact h.model
  case settings => exact h.settings
  case consistent => exact h.consistent.insertNode hnode hm
  case distinct => exact h.distinct.insertNode hm
  case issued => exact issued_insert h.issued hentries t
  case named => simp [Rebuilding.insert, h.named, hid]
  case nodes => simp [Rebuilding.insert, insertNode, h.nodes, hid]
  case classes =>
    intro t' ht'
    rw [hlookup]
    rcases hcases t' ht' with ht' | rfl
    · rw [if_neg (hold t' ht')]
      exact h.classes t' ht'
    · rw [if_pos rfl]
      exact ⟨m, rfl, by rw [← h.model, hclass, hcls]⟩
  case contents =>
    intro t' ht' n hn path
    rw [hlookup] at hn
    rw [contents_insert (hid.symm ▸ hnode) hfresh, hid]
    rcases hcases t' ht' with ht' | rfl
    · rw [if_neg (hold t' ht')] at hn ⊢
      exact h.contents t' ht' n hn path
    · rw [if_pos rfl] at hn ⊢
      cases hn
      rw [objectsIn, List.filter_nil, List.map_nil, holdings_of_none valueObjects_nil,
        Node.entriesOf, hentries,
        map_initialEntries_of_path r.graph m.chain path fun _ value ↦ (value, true)]
      exact List.map_congr_left fun cp _ ↦ by rw [initialValue_congr h.model h.settings]
  case bound =>
    intro t' ht' n hn path
    rw [hlookup] at hn
    have hshown : boundAt (r.insert t m).graph (name t') path = _ :=
      boundAt_insertNode (hid.symm ▸ hnode) (name t') path
    rw [hshown, hid]
    rcases hcases t' ht' with ht' | rfl
    · rw [if_neg (hold t' ht')] at hn ⊢
      exact h.bound t' ht' n hn path
    · rw [if_pos rfl] at hn ⊢
      cases hn
      rw [objectsIn, List.filter_nil, List.map_nil, holders_of_none valueObjects_nil,
        Node.entriesOf, hentries, map_property_initialEntries]
  case targets =>
    intro t' ht' n hn path
    rw [hlookup] at hn
    rcases hcases t' ht' with ht' | rfl
    · rw [if_neg (hold t' ht')] at hn
      exact h.targets t' ht' n hn path
    · rw [objectsIn, List.filter_nil, List.map_nil, targetNames, targetObjects_nil]
      exact targetsAt_of_unknown h.consistent hnode path
  case declared => rintro _ ⟨⟩

/-! ## Values -/

section

variable {n : Node} {cp : ClassProperty} {path : String} {e : Entry}

/-- An entry of a path is open only before a value of the path is taken, and there is no other. -/
theorem entriesOf_of_open (h : r.Holds g s name subjects taken) (ht : t ∈ subjects)
    (hn : r.graph.node? (name t) = some n) (hpath : path ≠ rdfType)
    (hcp : n.property? path = some cp) (hobject : cp.isObject = false) (he : e ∈ n.entriesOf path)
    (hopen : r.placeholders.contains e.id = true) :
    objectsIn taken t path = [] ∧ n.entriesOf path = [e] := by
  have hcontents := h.contents t ht n hn path
  rw [Rebuilding.contents, entriesAt_of_node? hn] at hcontents
  have hmem := List.mem_map_of_mem (f := fun e ↦ (e.value, r.placeholders.contains e.id)) he
  rw [hcontents, hopen] at hmem
  have hnone : objectsIn taken t path = [] := by
    by_contra hsome
    rw [holdings_of_values hpath hcp hobject hsome] at hmem
    obtain ⟨o, -, heq⟩ := List.mem_map.1 hmem
    exact Bool.false_ne_true (Prod.mk.inj heq).2
  refine ⟨hnone, ?_⟩
  have hlength := congrArg List.length hcontents
  rw [hnone, holdings_of_none valueObjects_nil, List.length_map, List.length_map] at hlength
  have hone : (n.entriesOf path).length = 1 := Nat.le_antisymm
    (hlength ▸ length_filter_prefilled_le_one n.chain path) (List.length_pos_of_mem he)
  obtain ⟨only, honly⟩ := List.length_eq_one_iff.1 hone
  rw [honly] at he ⊢
  rw [List.mem_singleton.1 he]

/-- Where no entry of a path is open, the values are those that were taken. -/
theorem contents_of_closed (h : r.Holds g s name subjects taken) (ht : t ∈ subjects)
    (hn : r.graph.node? (name t) = some n) (hpath : path ≠ rdfType)
    (hcp : n.property? path = some cp) (hobject : cp.isObject = false)
    (hclosed : ∀ e ∈ n.entriesOf path, r.placeholders.contains e.id = false) :
    r.contents (name t) path =
      (objectsIn taken t path).map fun o ↦ (some (entryValue cp o), false) := by
  have hcontents := h.contents t ht n hn path
  by_cases hnone : objectsIn taken t path = []
  · rw [hnone, holdings_of_none valueObjects_nil] at hcontents
    rw [hcontents, hnone, List.map_nil, List.map_eq_nil_iff, List.eq_nil_iff_forall_not_mem]
    intro q hq
    have hmem := List.mem_map_of_mem (f := fun cp ↦ (g.initialValue cp, true)) hq
    rw [← hcontents, Rebuilding.contents, entriesAt_of_node? hn] at hmem
    obtain ⟨e, he, heq⟩ := List.mem_map.1 hmem
    exact Bool.false_ne_true ((hclosed e he).symm.trans (Prod.mk.inj heq).2)
  · rw [hcontents, holdings_of_values hpath hcp hobject hnone]

end

/-! ## Statements -/

section

variable {α : Type} {shown shown' : String → String → α}
  {expected : Chain → String → List Term → α} {n : Node}

/-- What is expected of a node depends on its chain alone, which no statement changes. -/
theorem shows_of_keeps {taken' : List Triple} (h : r.Holds g s name subjects taken)
    (hkeeps : r.Keeps r') (hshows : r.Shows name subjects taken' shown expected) :
    r'.Shows name subjects taken' shown expected := by
  intro t ht n' hn' path
  obtain ⟨n, hn, -⟩ := h.classes t ht
  obtain ⟨m, hm, -, hchain⟩ := hkeeps.typed _ n hn
  cases hn'.symm.trans hm
  rw [hchain]
  exact hshows t ht n hn path

/-- A statement may change what is shown for its own subject and path only. -/
theorem shows_concat (h : r.Holds g s name subjects taken)
    (hshows : r.Shows name subjects taken shown expected) (hsubject : u.subject ∈ subjects)
    (hn : r.graph.node? (name u.subject) = some n)
    (hplace : shown' (name u.subject) u.predicate =
      expected n.chain u.predicate (objectsIn taken u.subject u.predicate ++ [u.object]))
    (helse : ∀ other path, ¬(other = name u.subject ∧ path = u.predicate) →
      shown' other path = shown other path) :
    r.Shows name subjects (taken ++ [u]) shown' expected := by
  intro t ht m hm path
  rw [objectsIn_concat]
  by_cases hsame : t = u.subject ∧ path = u.predicate
  · obtain ⟨rfl, rfl⟩ := hsame
    cases hn.symm.trans hm
    rw [if_pos ⟨rfl, rfl⟩]
    exact hplace
  · rw [if_neg hsame, List.append_nil, helse]
    · exact hshows t ht m hm path
    · exact fun hplace ↦ hsame ⟨h.name_injective ht hsubject hplace.1, hplace.2⟩

/-- What is expected regardless of the object of a statement is still shown with the statement. -/
theorem shows_same (h : r.Holds g s name subjects taken)
    (hshows : r.Shows name subjects taken shown expected) (hsubject : u.subject ∈ subjects)
    (hn : r.graph.node? (name u.subject) = some n)
    (hsame : expected n.chain u.predicate (objectsIn taken u.subject u.predicate ++ [u.object]) =
      expected n.chain u.predicate (objectsIn taken u.subject u.predicate)) :
    r.Shows name subjects (taken ++ [u]) shown expected :=
  h.shows_concat hshows hsubject hn ((hshows _ hsubject n hn _).trans hsame.symm)
    fun _ _ _ ↦ rfl

end

/-- What a step that takes a statement has to establish beside leaving the rest alone. -/
theorem extend (h : r.Holds g s name subjects taken) (hkeeps : r.Keeps r')
    (hconsistent : r'.graph.Consistent) (hdeclared : r.Declares name subjects u)
    (hcontents : r.Shows name subjects (taken ++ [u]) r'.contents (holdings g))
    (hbound : r.Shows name subjects (taken ++ [u]) (boundAt r'.graph) holders)
    (htargets : r.Shows name subjects (taken ++ [u]) r'.graph.targetsAt (targetNames name)) :
    r'.Holds g s name subjects (taken ++ [u]) where
  model := hkeeps.model.trans h.model
  settings := hkeeps.settings.trans h.settings
  consistent := hconsistent
  distinct := hkeeps.distinct
  issued := hkeeps.issued
  named := by rw [hkeeps.named, h.named]
  nodes := hkeeps.nodes.trans h.nodes
  classes t ht := by
    obtain ⟨n, hn, hclass⟩ := h.classes t ht
    obtain ⟨m, hm, hcls, -⟩ := hkeeps.typed _ n hn
    exact ⟨m, hm, hcls ▸ hclass⟩
  contents := h.shows_of_keeps hkeeps hcontents
  bound := h.shows_of_keeps hkeeps hbound
  targets := h.shows_of_keeps hkeeps htargets
  declared := by
    have hkept : ∀ v, r.Declares name subjects v → r'.Declares name subjects v := by
      rintro v ⟨hsubject, hproperty⟩
      refine ⟨hsubject, fun htype ↦ ?_⟩
      obtain ⟨n, cp, hn, hcp, hobject⟩ := hproperty htype
      obtain ⟨m, hm, -, hchain⟩ := hkeeps.typed _ n hn
      exact ⟨m, cp, hm, by rw [Node.property?, hchain]; exact hcp, hobject⟩
    intro v hv
    rcases List.mem_append.1 hv with hv | hv
    · exact hkept v (h.declared v hv)
    · cases List.mem_singleton.1 hv
      exact hkept u hdeclared

/-- A statement of the type of a subject was taken with the subject. -/
theorem takeType (h : r.Holds g s name subjects taken) (hsubject : u.subject ∈ subjects)
    (htype : u.predicate = rdfType) : r.Holds g s name subjects (taken ++ [u]) := by
  obtain ⟨n, hn, -⟩ := h.classes _ hsubject
  have hkeeps : r.Keeps r :=
    ⟨rfl, rfl, rfl, rfl, rfl, fun _ m hm ↦ ⟨m, hm, rfl, rfl⟩, h.distinct, h.issued⟩
  refine h.extend hkeeps h.consistent ⟨hsubject, fun hne ↦ absurd htype hne⟩
    (h.shows_same h.contents hsubject hn ?_) (h.shows_same h.bound hsubject hn ?_)
    (h.shows_same h.targets hsubject hn ?_)
  · rw [htype, holdings_of_none valueObjects_rdfType, holdings_of_none valueObjects_rdfType]
  · rw [htype, holders_of_none valueObjects_rdfType, holders_of_none valueObjects_rdfType]
  · rw [htype, targetNames, targetNames, targetObjects_rdfType, targetObjects_rdfType]

section

variable {n : Node} {cp : ClassProperty}

/-- A target is taken as an edge. -/
theorem takeTarget (h : r.Holds g s name subjects taken) (hsubject : u.subject ∈ subjects)
    (hn : r.graph.node? (name u.subject) = some n) (htype : u.predicate ≠ rdfType)
    (hcp : n.property? u.predicate = some cp) (hobject : cp.isObject = true)
    (htarget : u.object ∈ subjects)
    (hconsistent : (r.link (name u.subject) (name u.object) cp).graph.Consistent) :
    (r.link (name u.subject) (name u.object) cp).Holds g s name subjects (taken ++ [u]) := by
  have hpath : cp.path = u.predicate := path_of_nearest? hcp
  have hlink : ∀ other path,
      (r.link (name u.subject) (name u.object) cp).graph.targetsAt other path =
        r.graph.targetsAt other path ++
          if other = name u.subject ∧ path = cp.path then [name u.object] else [] :=
    targetsAt_insertEdge _
  refine h.extend (keeps_link _ h.distinct h.issued) hconsistent
    ⟨hsubject, fun _ ↦ ⟨n, cp, hn, hcp, fun _ ↦ htarget⟩⟩
    (h.shows_same h.contents hsubject hn ?_) (h.shows_same h.bound hsubject hn ?_)
    (h.shows_concat h.targets hsubject hn ?_ fun other path hplace ↦ ?_)
  · rw [holdings_of_none (valueObjects_of_object hcp hobject),
      holdings_of_none (valueObjects_of_object hcp hobject)]
  · rw [holders_of_none (valueObjects_of_object hcp hobject),
      holders_of_none (valueObjects_of_object hcp hobject)]
  · rw [hlink, h.targets _ hsubject n hn, if_pos ⟨rfl, hpath.symm⟩, targetNames, targetNames,
      targetObjects_of_object htype hcp hobject, targetObjects_of_object htype hcp hobject,
      List.map_append]
    rfl
  · rw [hlink, hpath, if_neg hplace, List.append_nil]

/-- What a value changes about the values of its node and path is that they are those taken. -/
theorem takeValue (h : r.Holds g s name subjects taken) (hsubject : u.subject ∈ subjects)
    (hn : r.graph.node? (name u.subject) = some n) (htype : u.predicate ≠ rdfType)
    (hcp : n.property? u.predicate = some cp) (hobject : cp.isObject = false)
    (hkeeps : r.Keeps r') (hconsistent : r'.graph.Consistent)
    (hcontents : ∀ other path, r'.contents other path =
      if other = name u.subject ∧ path = u.predicate then
        (objectsIn taken u.subject u.predicate ++ [u.object]).map
          fun o ↦ (some (entryValue cp o), false)
      else r.contents other path)
    (hbound : ∀ other path, boundAt r'.graph other path =
      if other = name u.subject ∧ path = u.predicate then
        holders n.chain u.predicate (objectsIn taken u.subject u.predicate ++ [u.object])
      else boundAt r.graph other path)
    (htargets : r'.graph.targetsAt = r.graph.targetsAt) :
    r'.Holds g s name subjects (taken ++ [u]) := by
  refine h.extend hkeeps hconsistent ⟨hsubject, fun _ ↦ ⟨n, cp, hn, hcp, fun hisObject ↦ ?_⟩⟩
    (h.shows_concat h.contents hsubject hn ?_ fun other path hplace ↦ ?_)
    (h.shows_concat h.bound hsubject hn ?_ fun other path hplace ↦ ?_)
    (htargets ▸ h.shows_same h.targets hsubject hn ?_)
  · rw [hobject] at hisObject
    cases hisObject
  · rw [hcontents, if_pos ⟨rfl, rfl⟩, holdings_of_values htype hcp hobject (by simp)]
  · rw [hcontents, if_neg hplace]
  · rw [hbound, if_pos ⟨rfl, rfl⟩]
  · rw [hbound, if_neg hplace]
  · rw [targetNames, targetNames, targetObjects_of_value hcp hobject,
      targetObjects_of_value hcp hobject]

/-- The first value of a path fills the open entry. -/
theorem takeFirstValue {e : Entry} (h : r.Holds g s name subjects taken)
    (hsubject : u.subject ∈ subjects) (hn : r.graph.node? (name u.subject) = some n)
    (htype : u.predicate ≠ rdfType) (hcp : n.property? u.predicate = some cp)
    (hobject : cp.isObject = false) (he : e ∈ n.entriesOf u.predicate)
    (hopen : r.placeholders.contains e.id = true)
    (hconsistent : (r.fill (name u.subject) e (entryValue cp u.object)).graph.Consistent) :
    (r.fill (name u.subject) e (entryValue cp u.object)).Holds g s name subjects
      (taken ++ [u]) := by
  obtain ⟨hnone, honly⟩ := h.entriesOf_of_open hsubject hn htype hcp hobject he hopen
  refine h.takeValue hsubject hn htype hcp hobject (keeps_fill _ h.distinct h.issued) hconsistent
    (fun other path ↦ ?_) (fun other path ↦ ?_) rfl
  · rw [contents_fill _ h.distinct hn honly, hnone]
    rfl
  · have hkept : boundAt (r.fill (name u.subject) e (entryValue cp u.object)).graph other path =
        boundAt r.graph other path := boundAt_writeEntry _ _ _ other path
    rw [hkept]
    split_ifs with hplace
    · obtain ⟨rfl, rfl⟩ := hplace
      have hbound := h.bound _ hsubject n hn u.predicate
      rw [hnone, holders_of_none valueObjects_nil] at hbound
      have hfirst : ((prefilled n.chain).filter (·.path = u.predicate)).length = 1 := by
        rw [← hbound, boundAt, entriesAt_of_node? hn, honly]
        rfl
      rw [hbound, hnone, holders_of_values htype hcp hobject, hfirst]
      exact (List.append_nil _).symm
    · rfl

/-- Every other value gets an entry of its own. -/
theorem takeFurtherValue (h : r.Holds g s name subjects taken)
    (hsubject : u.subject ∈ subjects) (hn : r.graph.node? (name u.subject) = some n)
    (htype : u.predicate ≠ rdfType) (hcp : n.property? u.predicate = some cp)
    (hobject : cp.isObject = false)
    (hclosed : ∀ e ∈ n.entriesOf u.predicate, r.placeholders.contains e.id = false)
    (hconsistent : (r.append (name u.subject) cp (entryValue cp u.object)).graph.Consistent) :
    (r.append (name u.subject) cp (entryValue cp u.object)).Holds g s name subjects
      (taken ++ [u]) := by
  have hpath : cp.path = u.predicate := path_of_nearest? hcp
  have hcontents := h.contents_of_closed hsubject hn htype hcp hobject hclosed
  refine h.takeValue hsubject hn htype hcp hobject (keeps_append _ h.distinct h.issued) hconsistent
    (fun other path ↦ ?_) (fun other path ↦ ?_) rfl
  · rw [contents_append _ hn h.issued, hpath]
    split_ifs with hplace
    · rw [hplace.1, hplace.2, hcontents, List.map_append]
      rfl
    · exact List.append_nil _
  · have happended : boundAt (r.append (name u.subject) cp (entryValue cp u.object)).graph other
        path = boundAt r.graph other path ++
          if other = name u.subject ∧ path = cp.path then [cp] else [] :=
      boundAt_insertEntry hn other path
    rw [happended, hpath]
    split_ifs with hplace
    · have hbound := h.bound _ hsubject n hn u.predicate
      -- there are as many values as entries, so the entry that the node started with has one
      have hlength := congrArg List.length hbound
      rw [boundAt, List.length_map, ← List.length_map, ← Rebuilding.contents, hcontents] at hlength
      rw [holders_of_values htype hcp hobject] at hlength
      simp only [List.length_map, List.length_append, List.length_drop] at hlength
      rw [hplace.1, hplace.2, hbound, holders_concat htype hcp hobject (by omega)]
    · exact List.append_nil _

end

/-- Counting a statement as left out changes nothing else. -/
theorem leaveOut (h : r.Holds g s name subjects taken) :
    Rebuilding.Holds { r with dropped := r.dropped + 1 } g s name subjects taken :=
  ⟨h.model, h.settings, h.consistent, h.distinct, h.issued, h.named, h.nodes, h.classes, h.contents,
    h.bound, h.targets, h.declared⟩

/-- A statement is taken, or it is left out. -/
theorem becomes {outcome : Outcome} (h : r.Holds g s name subjects taken)
    (hsubject : u.subject ∈ subjects) (htype : u.predicate ≠ rdfType)
    (hstep : Becomes r (name u.subject) u outcome r') (hconsistent : r'.graph.Consistent) :
    r'.Holds g s name subjects (if outcome = .leftOut then taken else taken ++ [u]) := by
  cases hstep with
  | link hn hcp hobject hlookup =>
    obtain ⟨htarget, rfl⟩ := h.lookup_eq_some hlookup
    exact h.takeTarget hsubject hn htype hcp hobject htarget hconsistent
  | fill hn hcp hobject he hopen =>
    exact h.takeFirstValue hsubject hn htype hcp hobject he hopen hconsistent
  | append hn hcp hobject hclosed =>
    exact h.takeFurtherValue hsubject hn htype hcp hobject hclosed hconsistent
  | leaveOut => exact h.leaveOut

/-- A statement leaves a graph that holds what was taken. -/
theorem exists_of_addStatement (h : r.Holds g s name subjects taken)
    (hsubject : u.subject ∈ subjects)
    (hstep : Document.addStatement s (name u.subject) r u = .ok r') :
    ∃ taken, r'.Holds g s name subjects taken := by
  by_cases htype : u.predicate = rdfType
  · rw [addStatement_of_rdfType htype] at hstep
    cases hstep
    exact ⟨taken, h⟩
  · obtain ⟨outcome, hbecomes⟩ := exists_becomes h.distinct htype hstep
    exact ⟨_, h.becomes hsubject htype hbecomes
      ((edits_addStatement hstep).keep h.consistent fun _ _ hg hedit ↦ hg.edit hedit)⟩

section

variable {n : Node} {read : List Triple}

/-- Counting the entries and targets that a node shows. -/
theorem entryCount_eq_length (h : r.Holds g s name subjects taken) (ht : t ∈ subjects)
    (hn : r.graph.node? (name t) = some n) (path : String) :
    r.graph.entryCount (name t) path =
      (holdings g n.chain path (objectsIn taken t path)).length +
        (targetNames name n.chain path (objectsIn taken t path)).length := by
  rw [entryCount_eq, ← h.contents t ht n hn path, ← h.targets t ht n hn path,
    Rebuilding.contents, List.length_map]

/-- A statement is taken below the capacity of its path only. -/
theorem lt_capacity_of_becomes {outcome : Outcome} (h : r.Holds g s name subjects taken)
    (hsubject : u.subject ∈ subjects) (hn : r.graph.node? (name u.subject) = some n)
    (htype : u.predicate ≠ rdfType) (hstep : Becomes r (name u.subject) u outcome r')
    (htaken : outcome ≠ .leftOut) {most : Nat} (hmost : capacity n.chain u.predicate = some most) :
    (objectsIn taken u.subject u.predicate).length < most := by
  cases hstep with
  | leaveOut => exact absurd rfl htaken
  | link hn' hcp hobject htarget hroom =>
    cases hn.symm.trans hn'
    rw [capacity_of_nearest? htype hcp] at hmost
    obtain ⟨max, hmax, rfl⟩ := Option.map_eq_some_iff.1 hmost
    have hcount := isFull_eq_false_iff.1 hroom max hmax
    rw [path_of_nearest? hcp, h.entryCount_eq_length hsubject hn,
      holdings_of_none (valueObjects_of_object hcp hobject), List.length_map, targetNames,
      targetObjects_of_object htype hcp hobject, List.length_map] at hcount
    rw [hobject, if_pos rfl]
    omega
  | fill hn' hcp hobject he hopen =>
    cases hn.symm.trans hn'
    rw [capacity_of_nearest? htype hcp] at hmost
    obtain ⟨max, hmax, rfl⟩ := Option.map_eq_some_iff.1 hmost
    obtain ⟨hnone, honly⟩ := h.entriesOf_of_open hsubject hn htype hcp hobject he hopen
    have hlength := congrArg List.length (h.contents _ hsubject n hn u.predicate)
    rw [Rebuilding.contents, entriesAt_of_node? hn, honly, hnone,
      holdings_of_none valueObjects_nil, List.length_map, List.length_map] at hlength
    rw [hobject, if_neg Bool.false_ne_true, hnone, ← hlength]
    exact Nat.lt_of_lt_of_le Nat.zero_lt_one (Nat.le_max_left _ _)
  | append hn' hcp hobject hclosed hroom =>
    cases hn.symm.trans hn'
    rw [capacity_of_nearest? htype hcp] at hmost
    obtain ⟨max, hmax, rfl⟩ := Option.map_eq_some_iff.1 hmost
    have hcount := isFull_eq_false_iff.1 hroom max hmax
    rw [path_of_nearest? hcp, entryCount_eq, ← List.length_map, ← Rebuilding.contents,
      h.contents_of_closed hsubject hn htype hcp hobject hclosed, List.length_map] at hcount
    rw [hobject, if_neg Bool.false_ne_true]
    exact Nat.lt_of_lt_of_le (Nat.lt_of_le_of_lt (Nat.le_add_right _ _) hcount)
      (Nat.le_max_right _ _)

/-- A statement is left out when the capacity of its path is reached. -/
theorem capacity_le_of_leftOut (h : r.Holds g s name subjects taken)
    (hsubject : u.subject ∈ subjects) (hn : r.graph.node? (name u.subject) = some n)
    (htype : u.predicate ≠ rdfType) (hstep : Becomes r (name u.subject) u .leftOut r') :
    ∃ most, capacity n.chain u.predicate = some most ∧
      most ≤ (objectsIn taken u.subject u.predicate).length := by
  obtain ⟨n', cp, hn', hcp, hclosed, hfull⟩ : ∃ (n : Node) (cp : ClassProperty),
      r.graph.node? (name u.subject) = some n ∧ n.property? u.predicate = some cp ∧
        (cp.isObject = false →
          ∀ e ∈ n.entriesOf u.predicate, r.placeholders.contains e.id = false) ∧
        r.graph.isFull (name u.subject) cp = true := by
    cases hstep with
    | leaveOut hn' hcp hclosed hfull => exact ⟨_, _, hn', hcp, hclosed, hfull⟩
  cases hn.symm.trans hn'
  obtain ⟨max, hmax, hcount⟩ := isFull_eq_true_iff.1 hfull
  rw [path_of_nearest? hcp] at hcount
  refine ⟨_, (capacity_of_nearest? htype hcp).trans (congrArg _ hmax), ?_⟩
  change (if cp.isObject = true then _ else _) ≤ _
  cases hobject : cp.isObject with
  | true =>
    rw [h.entryCount_eq_length hsubject hn, holdings_of_none (valueObjects_of_object hcp hobject),
      List.length_map, targetNames, targetObjects_of_object htype hcp hobject,
      List.length_map] at hcount
    rw [if_pos rfl]
    omega
  | false =>
    have hcontents := congrArg List.length
      (h.contents_of_closed hsubject hn htype hcp hobject (hclosed hobject))
    have hbound := congrArg List.length (h.bound _ hsubject n hn u.predicate)
    rw [Rebuilding.contents, List.length_map, List.length_map] at hcontents
    rw [boundAt, List.length_map, hcontents, holders_of_values htype hcp hobject,
      List.length_append] at hbound
    rw [entryCount_eq, h.targets _ hsubject n hn, targetNames,
      targetObjects_of_value hcp hobject, hcontents] at hcount
    rw [if_neg Bool.false_ne_true]
    exact Nat.max_le.2 ⟨by omega, by simpa using hcount⟩

/-- What a node has taken changes for the subject and path of a statement only. -/
theorem admits_concat {taken' : List Triple} (h : r.Holds g s name subjects taken)
    (hadmits : r.Admits name subjects taken read)
    (htyped : ∀ id n, r.graph.node? id = some n →
      ∃ m, r'.graph.node? id = some m ∧ m.cls = n.cls ∧ m.chain = n.chain)
    (hn : r.graph.node? (name u.subject) = some n)
    (hplace : (objectsIn taken' u.subject u.predicate).length =
      admitted n.chain u.predicate ((objectsIn read u.subject u.predicate).length + 1))
    (helse : ∀ t path, ¬(t = u.subject ∧ path = u.predicate) →
      objectsIn taken' t path = objectsIn taken t path) :
    r'.Admits name subjects taken' (read ++ [u]) := by
  intro t ht m hm path
  obtain ⟨n', hn', -⟩ := h.classes t ht
  obtain ⟨m', hm', -, hchain⟩ := htyped _ n' hn'
  cases hm.symm.trans hm'
  rw [hchain, objectsIn_concat]
  by_cases hsame : t = u.subject ∧ path = u.predicate
  · obtain ⟨rfl, rfl⟩ := hsame
    cases hn.symm.trans hn'
    rw [if_pos ⟨rfl, rfl⟩, List.length_append, hplace]
    rfl
  · rw [if_neg hsame, List.append_nil, helse t path hsame]
    exact hadmits t ht n' hn' path

end

end Rebuilding.Holds

/-! ## The two passes -/

/-- Is each statement that was read taken as far as there is room, or counted as left out? -/
def Rebuilding.Takes (r : Rebuilding) (g : InstanceGraph) (s : Statements) (name : Term → String)
    (subjects : List Term) (read : List Triple) : Prop :=
  ∃ taken, taken.Sublist read ∧ r.dropped + taken.length = read.length ∧
    r.Admits name subjects taken read ∧ r.Holds g s name subjects taken

variable {read : List Triple}

theorem Rebuilding.Takes.addStatement (h : r.Takes g s name subjects read)
    (hsubject : u.subject ∈ subjects)
    (hstep : Document.addStatement s (name u.subject) r u = .ok r') :
    r'.Takes g s name subjects (read ++ [u]) := by
  obtain ⟨taken, hsublist, hcount, hadmits, hholds⟩ := h
  obtain ⟨n, hn, -⟩ := hholds.classes _ hsubject
  have hplace := hadmits _ hsubject n hn u.predicate
  have hothers : ∀ t path, ¬(t = u.subject ∧ path = u.predicate) →
      objectsIn (taken ++ [u]) t path = objectsIn taken t path := fun t path hother ↦ by
    rw [objectsIn_concat, if_neg hother, List.append_nil]
  have hone : (objectsIn (taken ++ [u]) u.subject u.predicate).length =
      (objectsIn taken u.subject u.predicate).length + 1 := by
    rw [objectsIn_concat, if_pos ⟨rfl, rfl⟩, List.length_append]
    rfl
  by_cases htype : u.predicate = rdfType
  · rw [addStatement_of_rdfType htype] at hstep
    cases hstep
    refine ⟨taken ++ [u], hsublist.append (.refl _), ?_, ?_, hholds.takeType hsubject htype⟩
    · rw [List.length_append, List.length_append]
      omega
    · refine hholds.admits_concat hadmits (fun _ m hm ↦ ⟨m, hm, rfl, rfl⟩) hn ?_ hothers
      rw [admitted_succ_of_room, hone, hplace]
      rw [htype, capacity_rdfType]
      nofun
  obtain ⟨outcome, hbecomes⟩ := exists_becomes hholds.distinct htype hstep
  have hconsistent : r'.graph.Consistent :=
    (edits_addStatement hstep).keep hholds.consistent fun _ _ hg hedit ↦ hg.edit hedit
  have hholds' := hholds.becomes hsubject htype hbecomes hconsistent
  have hkeeps := hbecomes.keeps hholds.distinct hholds.issued
  have hdropped := hbecomes.dropped
  by_cases hout : outcome = .leftOut
  · subst hout
    rw [if_pos rfl] at hholds' hdropped
    refine ⟨taken, hsublist.trans (List.sublist_append_left _ _), ?_, ?_, hholds'⟩
    · rw [hdropped, List.length_append, List.length_singleton]
      omega
    · obtain ⟨most, hmost, hle⟩ := hholds.capacity_le_of_leftOut hsubject hn htype hbecomes
      refine hholds.admits_concat hadmits hkeeps.typed hn ?_ fun _ _ _ ↦ rfl
      rw [admitted_succ_of_full hmost (hplace ▸ hle), hplace]
  · rw [if_neg hout] at hholds' hdropped
    refine ⟨taken ++ [u], hsublist.append (.refl _), ?_, ?_, hholds'⟩
    · rw [hdropped, List.length_append, List.length_append]
      omega
    · refine hholds.admits_concat hadmits hkeeps.typed hn ?_ hothers
      rw [admitted_succ_of_room, hone, hplace]
      intro most hmost
      rw [← hplace]
      exact hholds.lt_capacity_of_becomes hsubject hn htype hbecomes hout hmost

section

variable {grid : Float × Float} {reference : Position} {urns : Nat → String}

/-- In a first pass every subject becomes a node. -/
theorem holds_of_subjects
    (h : s.subjects.foldlM (addSubject s grid reference urns) { graph := g.reset } = .ok r) :
    r.Holds g s (nameIn urns s.subjects) s.subjects [] ∧ r.dropped = 0 := by
  refine Fallible.foldlM_done_induction (P := fun done (r : Rebuilding) ↦
    r.Holds g s (nameIn urns s.subjects) done [] ∧ r.dropped = 0) ⟨holds_nil g s _, rfl⟩ h ?_
  rintro done t rest r r' hitems ⟨hr, hdropped⟩ hstep
  have hlength : r.nodeIds.length = done.length := Rebuilding.Names.length hr.named
  refine ⟨hr.addSubject hstep (nodeIdFor_eq_nameIn hitems hlength), ?_⟩
  obtain ⟨-, -, -, -, -, rfl⟩ := addSubject_eq_insert.1 hstep
  exact hdropped

/-- In a second pass every statement is taken, or counted as left out. -/
theorem takes_of_rebuild {config : Settings.Configuration} {summary : ImportSummary}
    {g' : InstanceGraph}
    (h : rebuild g.reset config s reference urns = .ok (summary, g')) :
    ∃ r : Rebuilding, r.graph = g' ∧ r.dropped = summary.dropped ∧
      r.Takes g s (nameIn urns s.subjects) s.subjects
        (s.subjects.flatMap fun t ↦ (s.store.triplesOf t).toList) := by
  obtain ⟨-, r, r', hsubjects, hstatements, hresult⟩ := rebuild_eq_ok.1 h
  cases hresult
  obtain ⟨hholds, hdropped⟩ := holds_of_subjects hsubjects
  rw [Rebuilding.Names.foldlM_addStatements hholds.named] at hstatements
  refine ⟨r', rfl, rfl, Fallible.foldlM_done_induction
    (P := fun read (r : Rebuilding) ↦ r.Takes g s (nameIn urns s.subjects) s.subjects read)
    ⟨[], .slnil, hdropped, fun _ _ _ _ _ ↦ admitted_zero.symm, hholds⟩ hstatements ?_⟩
  intro read u rest r r' hitems hr hstep
  obtain ⟨t, ht, hu⟩ := List.mem_flatMap.1 (hitems ▸ List.mem_append_right _ List.mem_cons_self)
  rw [← (Store.mem_triplesOf.1 hu).2] at ht
  exact hr.addStatement ht hstep

end

end OntoGraph.Document
