import OntoGraph.Document.Export
import OntoGraph.Proofs.Document.Rebuild
import OntoGraph.Proofs.Graph.EntryIds
import OntoGraph.Proofs.Graph.Portable
import OntoGraph.Proofs.Rdf.Store

/-!
# Rebuilding a graph from its statements

Statements describe a graph when each node of it is a subject, with its class, its values and its
edges. While a graph is rebuilt from such statements, it mirrors the part of them that was read: a
list of values or of targets for each node and path. A required path shows one open entry until its
first value is read.
-/

namespace OntoGraph.Document

open Ontology OntoGraph.Graph Rdf InstanceGraph

/-! ## Statements of a graph -/

/-- Do the statements say what the graph holds, each node being named by its subject? -/
structure Statements.Describes (s : Statements) (g : InstanceGraph) (subject : Node → Term) :
    Prop where
  injective : ∀ n ∈ g.nodes, ∀ m ∈ g.nodes, subject n = subject m → n = m
  element : ∀ n ∈ g.nodes, n.isElement = true → subject n = .iri n.id
  blank : ∀ n ∈ g.nodes, n.isElement = false → (subject n).isBlank = true
  declared : ∀ t ∈ s.store.triples.toList, ∃ n ∈ g.nodes, t.subject = subject n ∧
    (t.predicate = rdfType ∨ ∃ cp, n.property? t.predicate = some cp)
  types : ∀ n ∈ g.nodes, s.store.objects (subject n) rdfType = [.iri n.cls.iri]
  values : ∀ n ∈ g.nodes, ∀ path cp, n.property? path = some cp → cp.isObject = false →
    s.store.objects (subject n) path = (g.entriesAt n.id path).filterMap entryTerm?
  edges : ∀ n ∈ g.nodes, ∀ path cp, n.property? path = some cp → cp.isObject = true →
    s.store.objects (subject n) path =
      (g.targetsAt n.id path).filterMap fun target ↦ (g.node? target).map subject

def objectsIn (triples : List Triple) (subject : Term) (predicate : String) : List Term :=
  (triples.filter fun t ↦ t.subject = subject ∧ t.predicate = predicate).map (·.object)

@[simp] theorem mem_objectsIn {triples : List Triple} {subject o : Term} {predicate : String} :
    o ∈ objectsIn triples subject predicate ↔ ⟨subject, predicate, o⟩ ∈ triples := by
  unfold objectsIn
  simp only [List.mem_map, List.mem_filter, decide_eq_true_eq]
  constructor
  · rintro ⟨⟨_, _, _⟩, ⟨ht, rfl, rfl⟩, rfl⟩
    exact ht
  · exact fun ht ↦ ⟨_, ⟨ht, rfl, rfl⟩, rfl⟩

@[simp]
theorem objectsIn_append (first second : List Triple) (subject : Term) (predicate : String) :
    objectsIn (first ++ second) subject predicate =
      objectsIn first subject predicate ++ objectsIn second subject predicate := by
  rw [objectsIn, List.filter_append, List.map_append]
  rfl

theorem objectsIn_singleton (t : Triple) (subject : Term) (predicate : String) :
    objectsIn [t] subject predicate =
      if subject = t.subject ∧ predicate = t.predicate then [t.object] else [] := by
  by_cases h : subject = t.subject ∧ predicate = t.predicate
  · rw [if_pos h, objectsIn, List.filter_cons_of_pos (by simp [h.1, h.2])]
    rfl
  · rw [if_neg h, objectsIn, List.filter_cons_of_neg]
    · rfl
    · exact fun heq ↦ h ⟨(of_decide_eq_true heq).1.symm, (of_decide_eq_true heq).2.symm⟩

/-- Of lists of triples whose subjects are different, one speaks of a given subject. -/
theorem objectsIn_flatMap {α : Type} {items : List α} {f : α → List Triple} (subject : α → Term)
    (hf : ∀ a ∈ items, ∀ t ∈ f a, t.subject = subject a) (hnodup : (items.map subject).Nodup)
    {a : α} (ha : a ∈ items) (predicate : String) :
    objectsIn (items.flatMap f) (subject a) predicate =
      objectsIn (f a) (subject a) predicate := by
  obtain ⟨before, after, rfl⟩ := List.append_of_mem ha
  rw [List.map_append, List.map_cons, List.nodup_append] at hnodup
  obtain ⟨-, hafter, hbefore⟩ := hnodup
  have hother : ∀ others : List α, (∀ b ∈ others, b ∈ before ++ a :: after) →
      subject a ∉ others.map subject → objectsIn (others.flatMap f) (subject a) predicate = [] := by
    intro others hmem hnot
    rw [objectsIn, List.map_eq_nil_iff, List.filter_eq_nil_iff]
    intro t ht hparts
    obtain ⟨b, hb, ht⟩ := List.mem_flatMap.1 ht
    rw [← (of_decide_eq_true hparts).1, hf b (hmem b hb) t ht] at hnot
    exact hnot (List.mem_map_of_mem hb)
  rw [List.flatMap_append, List.flatMap_cons, objectsIn_append, objectsIn_append,
    hother before (fun b hb ↦ List.mem_append_left _ hb)
      (fun h ↦ hbefore _ h _ List.mem_cons_self rfl),
    hother after (fun b hb ↦ List.mem_append_right _ (List.mem_cons_of_mem _ hb))
      (List.nodup_cons.1 hafter).1, List.nil_append, List.append_nil]

/-! ## Names -/

/-- The name of the node for the subject with a given number: its IRI, or a new URN. -/
def nameAt (urns : Nat → String) (i : Nat) : Term → String
  | .iri iri => iri
  | _ => urns i

/-- The name of the node for a subject, by its place among all subjects. -/
def nameIn (urns : Nat → String) (subjects : List Term) (t : Term) : String :=
  nameAt urns (subjects.idxOf t) t

theorem nodeIdFor_eq (urns : Nat → String) (r : Rebuilding) (t : Term) :
    nodeIdFor urns r t = nameAt urns r.nodeIds.length t := by
  cases t <;> rfl

/-- New URNs are different from each other and from every IRI among the subjects. -/
theorem nameIn_injective {urns : Nat → String} {subjects : List Term}
    (hurns : Function.Injective urns) (hnew : ∀ k iri, .iri iri ∈ subjects → urns k ≠ iri)
    {t u : Term} (ht : t ∈ subjects) (hu : u ∈ subjects)
    (h : nameIn urns subjects t = nameIn urns subjects u) : t = u := by
  have hplace : urns (subjects.idxOf t) = urns (subjects.idxOf u) → t = u := fun heq ↦
    (List.idxOf_inj ht).1 (hurns heq)
  unfold nameIn nameAt at h
  split at h <;> split at h
  · rw [h]
  · exact absurd h.symm (hnew _ _ ht)
  · exact absurd h (hnew _ _ hu)
  · exact hplace h

/-- Have the subjects nodes under their names, and nothing else? -/
def Rebuilding.Names (r : Rebuilding) (name : Term → String) (subjects : List Term) : Prop :=
  r.nodeIds.reverse = subjects.map fun t ↦ (t, name t)

section

variable {name : Term → String} {subjects : List Term} {r : Rebuilding} {t : Term}

theorem Rebuilding.Names.of_lookup {id : String} (h : r.Names name subjects)
    (hid : r.nodeIds.lookup t = some id) : t ∈ subjects ∧ id = name t := by
  obtain ⟨before, after, hids, -⟩ := List.lookup_eq_some_iff.1 hid
  have hmem : (t, id) ∈ r.nodeIds.reverse := by
    rw [hids]
    simp
  rw [h] at hmem
  obtain ⟨u, hu, heq⟩ := List.mem_map.1 hmem
  cases heq
  exact ⟨hu, rfl⟩

theorem Rebuilding.Names.lookup (h : r.Names name subjects) (ht : t ∈ subjects) :
    r.nodeIds.lookup t = some (name t) := by
  rw [← List.reverse_reverse r.nodeIds, h, ← List.map_reverse]
  exact List.lookup_graph name (List.mem_reverse.2 ht)

theorem Rebuilding.Names.length (h : r.Names name subjects) :
    r.nodeIds.length = subjects.length := by
  rw [← List.length_reverse, h, List.length_map]

/-- When the subjects have their nodes, adding their statements is one pass over all of them. -/
theorem Rebuilding.Names.foldlM_addStatements {s : Statements} (h : r.Names name s.subjects) :
    s.subjects.foldlM (addStatements s) r =
      (s.subjects.flatMap fun t ↦ (s.store.triplesOf t).toList).foldlM
        (fun r u ↦ addStatement s (name u.subject) r u) r := by
  suffices hsome : ∀ ts ⊆ s.subjects, ∀ r : Rebuilding, r.Names name s.subjects →
      ts.foldlM (addStatements s) r =
        (ts.flatMap fun t ↦ (s.store.triplesOf t).toList).foldlM
          (fun r u ↦ addStatement s (name u.subject) r u) r from
    hsome s.subjects (List.Subset.refl _) r h
  intro ts
  induction ts with
  | nil => exact fun _ _ _ ↦ rfl
  | cons t ts ih =>
    intro hts r h
    have hone : addStatements s r t = (s.store.triplesOf t).toList.foldlM
        (fun r u ↦ addStatement s (name u.subject) r u) r := by
      unfold addStatements
      rw [h.lookup (hts List.mem_cons_self)]
      refine Fallible.foldlM_congr r fun r u hu ↦ ?_
      rw [(Store.mem_triplesOf.1 hu).2]
    rw [List.foldlM_cons, List.flatMap_cons, List.foldlM_append, ← hone]
    cases hstep : addStatements s r t with
    | error error => rfl
    | ok r' =>
      refine ih (List.Subset.trans (List.subset_cons_self t ts) hts) r' ?_
      rw [Names, nodeIds_of_addStatements hstep, h]

end

/-! ## What a graph shows while it is rebuilt -/

/-- The values of a node for a path, each with whether it is still to be replaced. -/
def Rebuilding.contents (r : Rebuilding) (id path : String) : List (Option Value × Bool) :=
  (r.graph.entriesAt id path).map fun e ↦ (e.value, r.placeholders.contains e.id)

/-- What a node shows for a path when some objects of the path were read. -/
def slots (g : InstanceGraph) (n : Node) (path : String) (objects : List Term) :
    List (Option Value × Bool) :=
  match n.property? path with
  | none => []
  | some cp =>
    if cp.isObject then []
    else if objects = [] then if cp.isRequired then [(g.initialValue cp, true)] else []
    else objects.map fun o ↦ (some (entryValue cp o), false)

/-- The targets that a node shows for a path when some objects of the path were read. -/
def arrows (name : Term → String) (n : Node) (path : String) (objects : List Term) :
    List String :=
  if (n.property? path).any ClassProperty.isObject then objects.map name else []

/-- Does the graph show what the subjects and triples that were read say? -/
structure Rebuilding.Mirrors (r : Rebuilding) (g : InstanceGraph) (subject : Node → Term)
    (name : Term → String) (subjects : List Term) (read : List Triple) : Prop where
  model : r.graph.model = g.model
  settings : r.graph.settings = g.settings
  distinct : r.graph.DistinctEntries
  issued : ∀ id ∈ r.placeholders, ∃ k < r.graph.issued, id = issuedId k
  named : r.nodeIds.reverse = subjects.map fun t ↦ (t, name t)
  nodes : r.graph.nodes.map (·.id) = subjects.map name
  typed : ∀ n ∈ g.nodes, subject n ∈ subjects → ∃ m, r.graph.node? (name (subject n)) = some m ∧
    m.cls = n.cls ∧ m.chain = n.chain
  contents : ∀ n ∈ g.nodes, subject n ∈ subjects → ∀ path,
    r.contents (name (subject n)) path = slots g n path (objectsIn read (subject n) path)
  targets : ∀ n ∈ g.nodes, subject n ∈ subjects → ∀ path,
    r.graph.targetsAt (name (subject n)) path =
      arrows name n path (objectsIn read (subject n) path)
  sources : ∀ e ∈ r.graph.edges, e.source ∈ subjects.map name
  dropped : r.dropped = 0

/-! ## New nodes -/

/-- What a new node is made of. -/
theorem newNode_parts {g : InstanceGraph} {id classIri : String} {position : Position} {n : Node}
    (h : g.newNode id classIri position = .ok n) :
    n.id = id ∧ n.cls.iri = classIri ∧ n.entries = g.initialEntries n.chain := by
  obtain ⟨cls, chain, hcls, -, -, rfl⟩ := newNode_eq_ok.1 h
  exact ⟨rfl, Model.iri_of_class? hcls, rfl⟩

/-- A new node has no entry under an identifier that is in use. -/
theorem notMem_entries_of_newNode {g : InstanceGraph} {id classIri : String} {position : Position}
    {m n : Node} {e : Entry} (h : g.DistinctEntries) (hm : g.newNode id classIri position = .ok m)
    (hn : n ∈ g.nodes) (he : e ∈ n.entries) : e.id ∉ m.entries.map (·.id) := by
  obtain ⟨-, -, hentries⟩ := newNode_parts hm
  rw [hentries]
  intro hmem
  obtain ⟨k, hk, -, heq⟩ := exists_issued_of_mem_initialEntries hmem
  exact h.id_ne hn he hk heq

/-- The graph in which a subject has a node, whose entries are open. -/
def Rebuilding.insert (r : Rebuilding) (t : Term) (m : Node) : Rebuilding :=
  { r with
    graph := r.graph.insertNode m
    nodeIds := (t, m.id) :: r.nodeIds
    placeholders := r.placeholders ++ m.entries.map (·.id) }

section

variable {s : Statements} {grid : Float × Float} {reference : Position} {urns : Nat → String}
  {r r' : Rebuilding} {m : Node} {t : Term}

theorem insert_eq {id : String} (t : Term) (hid : m.id = id) (hnode : r.graph.node? id = none) :
    r.insert t m = { r with
      graph := r.graph.insertNode m
      nodeIds := (t, id) :: r.nodeIds
      placeholders := r.placeholders ++
        ((((r.graph.insertNode m).node? id).map (·.entries)).getD []).map (·.id) } := by
  subst hid
  rw [node?_insertNode hnode, if_pos rfl]
  rfl

theorem addSubject_eq_insert :
    addSubject s grid reference urns r t = .ok r' ↔
      ∃ classIri m, s.classIri? r.graph.model t = some classIri ∧
        r.graph.node? (nodeIdFor urns r t) = none ∧
        r.graph.newNode (nodeIdFor urns r t) classIri (s.position grid reference t) = .ok m ∧
        r' = r.insert t m := by
  constructor
  · intro h
    obtain ⟨classIri, graph, hclass, hadd, rfl⟩ := addSubject_eq_ok.1 h
    obtain ⟨hnode, m, hm, rfl⟩ := addNode_eq_ok.1 hadd
    exact ⟨classIri, m, hclass, hnode, hm, (insert_eq t (newNode_parts hm).1 hnode).symm⟩
  · rintro ⟨classIri, m, hclass, hnode, hm, rfl⟩
    exact addSubject_eq_ok.2 ⟨classIri, _, hclass, addNode_eq_ok.2 ⟨hnode, m, hm, rfl⟩,
      insert_eq t (newNode_parts hm).1 hnode⟩

/-- The open entries of a new node are issued. -/
theorem issued_insert (h : ∀ id ∈ r.placeholders, ∃ k < r.graph.issued, id = issuedId k)
    (hentries : m.entries = r.graph.initialEntries m.chain) (t : Term) :
    ∀ id ∈ (r.insert t m).placeholders, ∃ k < (r.insert t m).graph.issued, id = issuedId k := by
  intro id hmem
  rcases List.mem_append.1 hmem with hmem | hmem
  · obtain ⟨k, hk, rfl⟩ := h id hmem
    exact ⟨k, Nat.lt_add_right _ hk, rfl⟩
  · rw [hentries] at hmem
    obtain ⟨k, -, hk, rfl⟩ := exists_issued_of_mem_initialEntries hmem
    exact ⟨k, by rwa [← hentries] at hk, rfl⟩

/-- A new node shows its entries as open ones, and all others show what they did. -/
theorem contents_insert (hnode : r.graph.node? m.id = none)
    (hfresh : ∀ n ∈ r.graph.nodes, ∀ e ∈ n.entries, e.id ∉ m.entries.map (·.id)) (t : Term)
    (other path : String) : (r.insert t m).contents other path =
      if other = m.id then (m.entriesOf path).map fun e ↦ (e.value, true)
      else r.contents other path := by
  have hlookup : (r.insert t m).graph.node? other =
      if other = m.id then some m else r.graph.node? other := node?_insertNode hnode other
  have hopen : ∀ e : Entry, (r.insert t m).placeholders.contains e.id = true ↔
      r.placeholders.contains e.id = true ∨ e.id ∈ m.entries.map (·.id) := by
    intro e
    rw [List.contains_iff_mem, List.contains_iff_mem]
    exact List.mem_append
  unfold Rebuilding.contents entriesAt
  rw [hlookup]
  by_cases hother : other = m.id
  · rw [if_pos hother, if_pos hother, Option.map_some, Option.getD_some]
    refine List.map_congr_left fun e he ↦ ?_
    rw [(hopen e).2 (.inr (List.mem_map_of_mem (List.mem_filter.1 he).1))]
  · rw [if_neg hother, if_neg hother]
    refine List.map_congr_left fun e he ↦ ?_
    obtain ⟨n, hn, he, -⟩ := mem_entriesAt he
    rw [Bool.eq_iff_iff.2 ((hopen e).trans
      (or_iff_left (hfresh n (node?_eq_some hn).1 e he)))]

end

/-! ## Subjects -/

/-- A new node has an entry for each declaration that is prefilled. -/
theorem map_initialEntries_of_path {β : Type} (h : InstanceGraph) (chain : Chain) (path : String)
    (f : ClassProperty → Option Value → β) :
    ((h.initialEntries chain).filter (·.path = path)).map (fun e ↦ f e.property e.value) =
      ((prefilled chain).filter (·.path = path)).map fun cp ↦ f cp (h.initialValue cp) := by
  have hfiltered := congrArg (fun pairs ↦
    (pairs.filter fun pair : ClassProperty × Option Value ↦ pair.1.path = path).map
      fun pair ↦ f pair.1 pair.2) (h.map_initialEntries chain)
  rw [List.filter_map, List.filter_map, List.map_map, List.map_map] at hfiltered
  exact hfiltered

/-- A new node shows an open entry for each path that is required. -/
theorem initialEntries_of_path {h : InstanceGraph} {n : Node}
    (hpaths : (n.chain.declarations.map (·.path)).Nodup) (path : String) :
    ((h.initialEntries n.chain).filter (·.path = path)).map (fun e ↦ (e.value, true)) =
      slots h n path [] := by
  have hprefilled : prefilled n.chain =
      (n.chain.declarations.filter (·.isRequired)).filter (!·.isObject) :=
    firstOfEachPath_of_nodup
      (hpaths.sublist ((List.filter_sublist.trans List.filter_sublist).map _)) (by simp)
  have hfilter : (prefilled n.chain).filter (·.path = path) =
      ((n.property? path).toList.filter (·.isRequired)).filter (!·.isObject) := by
    rw [hprefilled, Node.property?, Chain.nearest?, ← filter_path_of_nodup hpaths path]
    simp only [List.filter_filter]
    congr 1
    funext cp
    cases cp.isRequired <;> cases cp.isObject <;> simp
  rw [map_initialEntries_of_path h n.chain path fun _ value ↦ (value, true), hfilter]
  unfold slots
  cases n.property? path with
  | none => rfl
  | some cp =>
    dsimp only [Option.toList_some]
    cases hrequired : cp.isRequired <;> cases hobject : cp.isObject <;> simp [hrequired, hobject]

variable {s : Statements} {g : InstanceGraph} {subject : Node → Term} {name : Term → String}
  {r r' : Rebuilding} {subjects : List Term} {read : List Triple}

theorem Statements.Describes.classIri? {n : Node} (h : s.Describes g subject)
    (hg : g.Consistent) (hn : n ∈ g.nodes) :
    s.classIri? g.model (subject n) = some n.cls.iri := by
  have hclass : (g.model.class? n.cls.iri).isSome = true := by
    rw [(hg.typed n hn).cls]
    rfl
  unfold Statements.classIri?
  rw [h.types n hn]
  simp [Term.iri?, hclass]

theorem initialValue_congr {g h : InstanceGraph} (hmodel : h.model = g.model)
    (hsettings : h.settings = g.settings) (cp : ClassProperty) :
    h.initialValue cp = g.initialValue cp := by
  unfold initialValue
  rw [hmodel, hsettings]

theorem slots_congr {g h : InstanceGraph} (hmodel : h.model = g.model)
    (hsettings : h.settings = g.settings) (n : Node) (path : String) (objects : List Term) :
    slots h n path objects = slots g n path objects := by
  unfold slots
  cases n.property? path with
  | none => rfl
  | some cp => simp only [initialValue_congr hmodel hsettings]

/-- A subject becomes a node that shows an open entry for each required path. -/
theorem Rebuilding.Mirrors.addSubject {n : Node} {grid : Float × Float} {reference : Position}
    {urns : Nat → String} (h : r.Mirrors g subject name subjects []) (hs : s.Describes g subject)
    (hg : g.Consistent) (hp : g.Portable) (hn : n ∈ g.nodes)
    (hname : nodeIdFor urns r (subject n) = name (subject n))
    (hnew : name (subject n) ∉ subjects.map name) :
    ∃ r', Document.addSubject s grid reference urns r (subject n) = .ok r' ∧
      r'.Mirrors g subject name (subjects ++ [subject n]) [] := by
  have hnode : r.graph.node? (name (subject n)) = none := by
    rw [node?_eq_none_iff]
    intro m hm hid
    exact hnew (h.nodes ▸ hid ▸ List.mem_map_of_mem hm)
  let m : Node :=
    { id := name (subject n)
      position := s.position grid reference (subject n)
      cls := n.cls
      chain := n.chain
      entries := r.graph.initialEntries n.chain
      isElement := r.graph.settings.isElementChain r.graph.model n.chain }
  have hm : r.graph.newNode (name (subject n)) n.cls.iri (s.position grid reference (subject n)) =
      .ok m := by
    refine newNode_eq_ok.2 ⟨n.cls, n.chain, ?_, hp.concrete n hn, ?_, rfl⟩
    · rw [h.model]
      exact (hg.typed n hn).cls
    · rw [h.model]
      exact (hg.typed n hn).chain
  have hlookup : ∀ other, (r.insert (subject n) m).graph.node? other =
      if other = name (subject n) then some m else r.graph.node? other :=
    node?_insertNode hnode
  have hother : ∀ n' ∈ g.nodes, subject n' ∈ subjects ++ [subject n] →
      subject n' ∈ subjects ∧ name (subject n') ≠ name (subject n) ∨ n' = n := by
    intro n' hn' hmem
    rcases List.mem_append.1 hmem with hmem | hmem
    · exact .inl ⟨hmem, fun heq ↦ hnew (heq ▸ List.mem_map_of_mem hmem)⟩
    · exact .inr (hs.injective n' hn' n hn (List.mem_singleton.1 hmem))
  refine ⟨r.insert (subject n) m, addSubject_eq_insert.2 ⟨n.cls.iri, m, ?_, ?_⟩, ?_⟩
  · rw [h.model]
    exact hs.classIri? hg hn
  · rw [hname]
    exact ⟨hnode, hm, rfl⟩
  constructor
  case model => exact h.model
  case settings => exact h.settings
  case distinct => exact h.distinct.insertNode hm
  case issued => exact issued_insert h.issued rfl _
  case named => simp [Rebuilding.insert, h.named, m]
  case nodes => simp [Rebuilding.insert, insertNode, h.nodes, m]
  case typed =>
    intro n' hn' hmem
    rw [hlookup]
    rcases hother n' hn' hmem with ⟨hmem, hne⟩ | rfl
    · rw [if_neg hne]
      exact h.typed n' hn' hmem
    · rw [if_pos rfl]
      exact ⟨m, rfl, rfl, rfl⟩
  case contents =>
    intro n' hn' hmem path
    rw [contents_insert hnode fun n' hn' e he ↦ notMem_entries_of_newNode h.distinct hm hn' he]
    rcases hother n' hn' hmem with ⟨hmem, hne⟩ | rfl
    · rw [if_neg hne]
      exact h.contents n' hn' hmem path
    · rw [if_pos rfl, objectsIn, List.filter_nil, List.map_nil, ← slots_congr h.model h.settings]
      exact initialEntries_of_path (hp.paths n' hn) path
  case targets =>
    intro n' hn' hmem path
    rcases hother n' hn' hmem with ⟨hmem, -⟩ | rfl
    · exact h.targets n' hn' hmem path
    · have hnone : r.graph.targetsAt (name (subject n')) path = [] := by
        rw [targetsAt, List.map_eq_nil_iff, List.filter_eq_nil_iff]
        intro e he _
        obtain ⟨he, hsource⟩ := List.mem_filter.1 he
        exact hnew (of_decide_eq_true hsource ▸ h.sources e he)
      have hunread : arrows name n' path (objectsIn [] (subject n') path) = [] := by
        unfold arrows
        split <;> rfl
      rw [hunread]
      exact hnone
  case sources =>
    intro e he
    rw [List.map_append]
    exact List.mem_append_left _ (h.sources e he)
  case dropped => exact h.dropped

end OntoGraph.Document
