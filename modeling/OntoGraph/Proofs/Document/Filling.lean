import OntoGraph.Proofs.Document.Mirror

/-!
# Reading the statements of a subject

Each statement of a subject extends what the graph shows for its subject and predicate by one
value or one target, and leaves everything else as it is. The first value of a required path
replaces the open entry; every other value gets an entry of its own.
-/

namespace OntoGraph.Document

open Ontology OntoGraph.Graph Rdf InstanceGraph

variable {s : Statements} {r : Rebuilding} {id path : String} {m : Node} {cp : ClassProperty}
  {t : Triple}

/-! ## Open entries -/

theorem placeholderFor?_of_closed {value : Value}
    (h : ∀ e ∈ m.entriesOf path, r.placeholders.contains e.id = false) :
    placeholderFor? r m path value = none := by
  have hnone : (m.entriesOf path).filter (fun e ↦ r.placeholders.contains e.id) = [] := by
    rw [List.filter_eq_nil_iff]
    intro e he hopen
    rw [h e he] at hopen
    cases hopen
  unfold placeholderFor?
  dsimp only
  rw [hnone]
  rfl

theorem placeholderFor?_of_open {value : Value} {e : Entry} (he : m.entriesOf path = [e])
    (hopen : r.placeholders.contains e.id = true) :
    placeholderFor? r m path value = some e := by
  have honly : [e].filter (fun e ↦ r.placeholders.contains e.id) = [e] :=
    List.filter_cons_of_pos hopen
  unfold placeholderFor?
  dsimp only
  rw [he, honly]
  cases hsame : e.value.any value.same <;> simp [hsame]

/-- The graph in which an open entry is filled. -/
def Rebuilding.fill (r : Rebuilding) (id : String) (e : Entry) (value : Value) : Rebuilding :=
  { r with
    graph := r.graph.writeEntry id e.id (some value)
      (isValid r.graph.settings.catalog e.property (some value))
    placeholders := r.placeholders.filter (· ≠ e.id) }

/-- The graph in which a value has an entry of its own. -/
def Rebuilding.append (r : Rebuilding) (id : String) (cp : ClassProperty) (value : Value) :
    Rebuilding :=
  { r with graph := r.graph.insertEntry id (r.graph.newEntry cp (some value)) }

/-- The graph in which a target has an edge. -/
def Rebuilding.link (r : Rebuilding) (id target : String) (cp : ClassProperty) : Rebuilding :=
  { r with graph := r.graph.insertEdge (r.graph.newEdge id target cp) }

/-! ## Which step is taken -/

theorem existingEntry_of_mem {e : Entry} (hdistinct : r.graph.DistinctEntries)
    (hm : r.graph.node? id = some m) (he : e ∈ m.entries) :
    r.graph.existingEntry id e.id = .ok e := by
  refine existingEntry_eq_ok.2 ⟨m, hm, ?_⟩
  obtain ⟨found, hfound⟩ := Option.isSome_iff_exists.1
    (List.find?_isSome (p := fun f : Entry ↦ f.id = e.id).2 ⟨e, he, by simp⟩)
  have hid : found.id = e.id := by simpa using List.find?_some hfound
  have hmem := List.mem_of_find?_eq_some hfound
  rw [hfound, hdistinct.eq_of_id (node?_eq_some hm).1 hmem he hid]

theorem addStatement_fill {e : Entry} (ht : t.predicate ≠ rdfType)
    (hdistinct : r.graph.DistinctEntries) (hm : r.graph.node? id = some m)
    (hcp : m.property? t.predicate = some cp) (hobject : cp.isObject = false)
    (he : m.entriesOf cp.path = [e]) (hopen : r.placeholders.contains e.id = true) :
    addStatement s id r t = .ok (r.fill id e (entryValue cp t.object)) := by
  have hmem : e ∈ m.entries :=
    (List.mem_filter.1 (he ▸ List.mem_singleton_self e : e ∈ m.entriesOf cp.path)).1
  have hset := setEntry_eq_ok.2
    ⟨e, existingEntry_of_mem hdistinct hm hmem, rfl, rfl (a := r.graph.writeEntry id e.id
      (some (entryValue cp t.object))
      (isValid r.graph.settings.catalog e.property (some (entryValue cp t.object))))⟩
  exact (addStatement_eq_ok ht).2 ⟨m, cp, hm, hcp,
    .inr ⟨hobject, .inl ⟨e, _, placeholderFor?_of_open he hopen, hset, rfl⟩⟩⟩

theorem addStatement_append (ht : t.predicate ≠ rdfType) (hm : r.graph.node? id = some m)
    (hcp : m.property? t.predicate = some cp) (hobject : cp.isObject = false)
    (hclosed : ∀ e ∈ m.entriesOf cp.path, r.placeholders.contains e.id = false)
    (hroom : r.graph.isFull id cp = false) :
    addStatement s id r t = .ok (r.append id cp (entryValue cp t.object)) := by
  have hdeclares : m.declares cp = true := declares_iff.2 (mem_declarations_of_nearest? hcp)
  refine (addStatement_eq_ok ht).2 ⟨m, cp, hm, hcp, .inr ⟨hobject, .inr ⟨?_, ?_⟩⟩⟩
  · exact placeholderFor?_of_closed hclosed
  · exact record_eq_ok.2 (.inl ⟨_, _, addEntry_eq_ok.2
      ⟨hobject, m, hm, hdeclares, .inr ⟨hroom, rfl, rfl⟩⟩, rfl⟩)

theorem addStatement_link {target targetClass : String} {targetNode : Node}
    (ht : t.predicate ≠ rdfType) (hm : r.graph.node? id = some m)
    (hcp : m.property? t.predicate = some cp) (hclass : cp.target? = some targetClass)
    (hlookup : r.nodeIds.lookup t.object = some target)
    (htarget : r.graph.node? target = some targetNode) (hisA : targetNode.isA targetClass = true)
    (hroom : r.graph.isFull id cp = false) :
    addStatement s id r t = .ok (r.link id target cp) := by
  have hdeclares : m.declares cp = true := declares_iff.2 (mem_declarations_of_nearest? hcp)
  have hobject : cp.isObject = true := by
    rw [ClassProperty.isObject, hclass]
    rfl
  refine (addStatement_eq_ok ht).2 ⟨m, cp, hm, hcp, .inl ⟨hobject, target, hlookup, ?_⟩⟩
  exact record_eq_ok.2 (.inl ⟨_, _, addEdge_eq_ok.2
    ⟨targetClass, m, targetNode, hclass, hm, htarget, hdeclares, hisA, .inr ⟨hroom, rfl, rfl⟩⟩, rfl⟩)

/-! ## What a step changes -/

/-- Filling an entry changes what its node shows for its path, and nothing else. -/
theorem contents_fill {e : Entry} (value : Value) (hdistinct : r.graph.DistinctEntries)
    (hm : r.graph.node? id = some m) (he : m.entriesOf path = [e]) (other otherPath : String) :
    (r.fill id e value).contents other otherPath =
      if other = id ∧ otherPath = path then [(some value, false)]
      else r.contents other otherPath := by
  have hmem : e ∈ m.entriesOf path := he ▸ List.mem_singleton_self e
  obtain ⟨hmem, hpath⟩ := List.mem_filter.1 hmem
  have hpath := of_decide_eq_true hpath
  have hkept : ∀ f : Entry, f.id ≠ e.id →
      (r.fill id e value).placeholders.contains f.id = r.placeholders.contains f.id := by
    intro f hf
    rw [List.contains_eq_mem, List.contains_eq_mem]
    simp [Rebuilding.fill, hf]
  have hentries : (r.fill id e value).graph.entriesAt other otherPath = _ :=
    entriesAt_writeEntry e.id (some value)
      (isValid r.graph.settings.catalog e.property (some value)) other otherPath
  unfold Rebuilding.contents
  rw [hentries]
  by_cases hother : other = id
  · subst hother
    rw [if_pos rfl, List.map_map]
    by_cases hotherPath : otherPath = path
    · subst hotherPath
      have hclosed : (r.fill other e value).placeholders.contains e.id = false := by
        rw [List.contains_eq_mem]
        simp [Rebuilding.fill]
      rw [if_pos ⟨rfl, rfl⟩, entriesAt_of_node? hm, he, List.map_singleton, Function.comp_apply,
        rewritten, if_pos rfl, hclosed]
    · rw [if_neg fun h ↦ hotherPath h.2]
      refine List.map_congr_left fun f hf ↦ ?_
      obtain ⟨m', hm', hf, hfpath⟩ := mem_entriesAt hf
      rw [hm] at hm'
      cases hm'
      have hne : f.id ≠ e.id := fun hid ↦ by
        rw [hdistinct.eq_of_id (node?_eq_some hm).1 hf hmem hid, hpath] at hfpath
        exact hotherPath hfpath.symm
      rw [Function.comp_apply, rewritten, if_neg hne, hkept f hne]
  · rw [if_neg hother, if_neg fun h ↦ hother h.1]
    refine List.map_congr_left fun f hf ↦ ?_
    obtain ⟨m', hm', hf, -⟩ := mem_entriesAt hf
    have hne : f.id ≠ e.id := fun hid ↦ by
      have hnode := hdistinct.across m' (node?_eq_some hm').1 m (node?_eq_some hm).1 f hf e hmem hid
      rw [(node?_eq_some hm').2, (node?_eq_some hm).2] at hnode
      exact hother hnode
    rw [hkept f hne]

/-- A new entry comes last in what its node shows for its path. -/
theorem contents_append (value : Value) (hm : r.graph.node? id = some m)
    (hissued : ∀ id ∈ r.placeholders, ∃ k < r.graph.issued, id = issuedId k)
    (other otherPath : String) :
    (r.append id cp value).contents other otherPath =
      r.contents other otherPath ++
        if other = id ∧ otherPath = cp.path then [(some value, false)] else [] := by
  have hclosed : r.placeholders.contains (issuedId r.graph.issued) = false := by
    rw [List.contains_eq_mem, decide_eq_false_iff_not]
    intro hmem
    obtain ⟨k, hk, heq⟩ := hissued _ hmem
    exact absurd (issuedId_injective heq) (by omega)
  have hentries : (r.append id cp value).graph.entriesAt other otherPath =
      r.graph.entriesAt other otherPath ++
        if other = id ∧ otherPath = cp.path then [r.graph.newEntry cp (some value)] else [] :=
    entriesAt_insertEntry hm other otherPath
  unfold Rebuilding.contents
  rw [hentries, List.map_append]
  congr 1
  by_cases h : other = id ∧ otherPath = cp.path
  · rw [if_pos h, if_pos h, List.map_singleton]
    exact congrArg (fun closed ↦ [(some value, closed)]) hclosed
  · rw [if_neg h, if_neg h]
    rfl

/-- Does a step leave alone what a graph has beside values and edges? -/
structure Rebuilding.Keeps (r r' : Rebuilding) : Prop where
  model : r'.graph.model = r.graph.model
  settings : r'.graph.settings = r.graph.settings
  named : r'.nodeIds = r.nodeIds
  dropped : r'.dropped = r.dropped
  nodes : r'.graph.nodes.map (·.id) = r.graph.nodes.map (·.id)
  typed : ∀ id m, r.graph.node? id = some m →
    ∃ m', r'.graph.node? id = some m' ∧ m'.cls = m.cls ∧ m'.chain = m.chain
  distinct : r'.graph.DistinctEntries
  issued : ∀ id ∈ r'.placeholders, ∃ k < r'.graph.issued, id = issuedId k

theorem map_id_modifyEntries (g : InstanceGraph) (id : String)
    (change : List Entry → List Entry) :
    (g.modifyNode id fun n ↦ { n with entries := change n.entries }).nodes.map (·.id) =
      g.nodes.map (·.id) := by
  unfold modifyNode
  rw [List.map_map]
  refine List.map_congr_left fun n _ ↦ ?_
  rw [Function.comp_apply]
  split <;> rfl

theorem typed_modifyEntries {g : InstanceGraph} {other : String} {m : Node} (id : String)
    (change : List Entry → List Entry) (hm : g.node? other = some m) :
    ∃ m', (g.modifyNode id fun n ↦ { n with entries := change n.entries }).node? other = some m' ∧
      m'.cls = m.cls ∧ m'.chain = m.chain := by
  rw [node?_modifyNode (f := fun n ↦ { n with entries := change n.entries }) (fun _ ↦ rfl), hm]
  refine ⟨_, rfl, ?_⟩
  dsimp only
  split <;> exact ⟨rfl, rfl⟩

theorem keeps_fill {e : Entry} (value : Value) (hdistinct : r.graph.DistinctEntries)
    (hissued : ∀ id ∈ r.placeholders, ∃ k < r.graph.issued, id = issuedId k) :
    r.Keeps (r.fill id e value) where
  model := rfl
  settings := rfl
  named := rfl
  dropped := rfl
  nodes := map_id_modifyEntries r.graph id _
  typed _ _ := typed_modifyEntries id _
  distinct := hdistinct.modifyNode fun n ↦ ⟨rfl, by rw [map_id_writeEntry]⟩
  issued placeholder h := hissued placeholder (List.mem_filter.1 h).1

theorem keeps_append (value : Value) (hdistinct : r.graph.DistinctEntries)
    (hissued : ∀ id ∈ r.placeholders, ∃ k < r.graph.issued, id = issuedId k) :
    r.Keeps (r.append id cp value) where
  model := rfl
  settings := rfl
  named := rfl
  dropped := rfl
  nodes := map_id_modifyEntries r.graph id fun entries ↦
    entries ++ [r.graph.newEntry cp (some value)]
  typed _ _ := typed_modifyEntries id fun entries ↦
    entries ++ [r.graph.newEntry cp (some value)]
  distinct := hdistinct.insertEntry rfl
  issued placeholder h := by
    obtain ⟨k, hk, heq⟩ := hissued placeholder h
    exact ⟨k, Nat.lt_succ_of_lt hk, heq⟩

theorem keeps_link (target : String) (hdistinct : r.graph.DistinctEntries)
    (hissued : ∀ id ∈ r.placeholders, ∃ k < r.graph.issued, id = issuedId k) :
    r.Keeps (r.link id target cp) where
  model := rfl
  settings := rfl
  named := rfl
  dropped := rfl
  nodes := rfl
  typed _ m hm := ⟨m, hm, rfl, rfl⟩
  distinct := hdistinct.of_old (Nat.le_succ _) fun m hm ↦ ⟨m, hm, rfl, .refl _⟩
  issued placeholder h := by
    obtain ⟨k, hk, heq⟩ := hissued placeholder h
    exact ⟨k, Nat.lt_succ_of_lt hk, heq⟩

/-! ## Statements -/

section

variable {g : InstanceGraph} {subject : Node → Term} {name : Term → String} {r' : Rebuilding}
  {subjects : List Term} {read : List Triple} {n : Node}

theorem Rebuilding.Mirrors.extend (h : r.Mirrors g subject name subjects read)
    (hkeeps : r.Keeps r') (hsources : ∀ e ∈ r'.graph.edges, e.source ∈ subjects.map name)
    (hcontents : ∀ n ∈ g.nodes, subject n ∈ subjects → ∀ path,
      r'.contents (name (subject n)) path =
        slots g n path (objectsIn (read ++ [t]) (subject n) path))
    (htargets : ∀ n ∈ g.nodes, subject n ∈ subjects → ∀ path,
      r'.graph.targetsAt (name (subject n)) path =
        arrows name n path (objectsIn (read ++ [t]) (subject n) path)) :
    r'.Mirrors g subject name subjects (read ++ [t]) where
  model := hkeeps.model.trans h.model
  settings := hkeeps.settings.trans h.settings
  distinct := hkeeps.distinct
  issued := hkeeps.issued
  named := by rw [hkeeps.named, h.named]
  nodes := hkeeps.nodes.trans h.nodes
  typed n hn hmem := by
    obtain ⟨m, hm, hcls, hchain⟩ := h.typed n hn hmem
    obtain ⟨m', hm', hcls', hchain'⟩ := hkeeps.typed _ m hm
    exact ⟨m', hm', hcls'.trans hcls, hchain'.trans hchain⟩
  contents := hcontents
  targets := htargets
  sources := hsources
  dropped := hkeeps.dropped.trans h.dropped

theorem slots_of_value (hcp : n.property? path = some cp) (hobject : cp.isObject = false)
    (objects : List Term) : slots g n path objects =
      if objects = [] then if cp.isRequired then [(g.initialValue cp, true)] else []
      else objects.map fun o ↦ (some (entryValue cp o), false) := by
  unfold slots
  rw [hcp]
  dsimp only
  rw [hobject, if_neg Bool.false_ne_true]

theorem slots_of_object (hcp : n.property? path = some cp) (hobject : cp.isObject = true)
    (objects : List Term) : slots g n path objects = [] := by
  unfold slots
  rw [hcp]
  dsimp only
  rw [hobject, if_pos rfl]

theorem slots_of_undeclared (hcp : n.property? path = none) (objects : List Term) :
    slots g n path objects = [] := by
  unfold slots
  rw [hcp]

theorem arrows_of_object (hcp : n.property? path = some cp) (hobject : cp.isObject = true)
    (objects : List Term) : arrows name n path objects = objects.map name := by
  unfold arrows
  rw [hcp, Option.any_some, if_pos hobject]

theorem arrows_of_value (hcp : n.property? path = some cp) (hobject : cp.isObject = false)
    (objects : List Term) : arrows name n path objects = [] := by
  unfold arrows
  rw [hcp, Option.any_some, hobject, if_neg Bool.false_ne_true]

theorem arrows_of_undeclared (hcp : n.property? path = none) (objects : List Term) :
    arrows name n path objects = [] := by
  unfold arrows
  rw [hcp, Option.any_none, if_neg Bool.false_ne_true]

/-- A statement is the last of its subject and predicate, and says nothing of others. -/
theorem objectsIn_concat (read : List Triple) (t : Triple) (other : Term) (otherPath : String) :
    objectsIn (read ++ [t]) other otherPath = objectsIn read other otherPath ++
      if other = t.subject ∧ otherPath = t.predicate then [t.object] else [] := by
  rw [objectsIn_append, objectsIn_singleton]

/-- Is what the graph shows for a node and a path what is expected from the objects that were read
for them? -/
def Reflects {α : Type} (g : InstanceGraph) (subject : Node → Term) (name : Term → String)
    (subjects : List Term) (read : List Triple) (shown : String → String → α)
    (expected : Node → String → List Term → α) : Prop :=
  ∀ n ∈ g.nodes, subject n ∈ subjects → ∀ path,
    shown (name (subject n)) path = expected n path (objectsIn read (subject n) path)

section Reflects

variable {α : Type} {shown shown' : String → String → α} {expected : Node → String → List Term → α}

/-- A statement may change what is shown for its own node and path only. -/
theorem Reflects.concat (h : Reflects g subject name subjects read shown expected)
    (hs : s.Describes g subject)
    (hinj : ∀ t ∈ subjects, ∀ u ∈ subjects, name t = name u → t = u)
    (hn : n ∈ g.nodes) (hmem : subject n ∈ subjects) (ht : t.subject = subject n)
    (hplace : shown' (name (subject n)) t.predicate =
      expected n t.predicate (objectsIn read (subject n) t.predicate ++ [t.object]))
    (helse : ∀ other path, ¬(other = name (subject n) ∧ path = t.predicate) →
      shown' other path = shown other path) :
    Reflects g subject name subjects (read ++ [t]) shown' expected := by
  intro n' hn' hmem' path
  rw [objectsIn_concat]
  by_cases hsame : subject n' = t.subject ∧ path = t.predicate
  · rw [if_pos hsame]
    obtain ⟨hsubject, rfl⟩ := hsame
    obtain rfl := hs.injective n' hn' n hn (hsubject.trans ht)
    exact hplace
  · rw [if_neg hsame, List.append_nil, helse]
    · exact h n' hn' hmem' path
    · rintro ⟨hname, hpath⟩
      exact hsame ⟨(hinj _ hmem' _ hmem hname).trans ht.symm, hpath⟩

/-- What is expected regardless of the object of a statement is still shown with the statement. -/
theorem Reflects.same (h : Reflects g subject name subjects read shown expected)
    (hsame : ∀ n ∈ g.nodes, subject n = t.subject → ∀ objects,
      expected n t.predicate (objects ++ [t.object]) = expected n t.predicate objects) :
    Reflects g subject name subjects (read ++ [t]) shown expected := by
  intro n hn hmem path
  rw [h n hn hmem, objectsIn_concat]
  by_cases hplace : subject n = t.subject ∧ path = t.predicate
  · rw [if_pos hplace]
    obtain ⟨hsubject, rfl⟩ := hplace
    exact (hsame n hn hsubject _).symm
  · rw [if_neg hplace, List.append_nil]

theorem Reflects.same_of_subject (h : Reflects g subject name subjects read shown expected)
    (hs : s.Describes g subject) (hn : n ∈ g.nodes) (ht : t.subject = subject n)
    (hsame : ∀ objects,
      expected n t.predicate (objects ++ [t.object]) = expected n t.predicate objects) :
    Reflects g subject name subjects (read ++ [t]) shown expected := by
  apply h.same
  intro n' hn' hsubject
  obtain rfl := hs.injective n' hn' n hn (hsubject.trans ht)
  exact hsame

end Reflects

/-- Once a value was read, or where none is required, a node shows no open entry for the path. -/
theorem slots_of_further {objects : List Term} (hcp : n.property? path = some cp)
    (hobject : cp.isObject = false) (h : ¬(objects = [] ∧ cp.isRequired = true)) :
    slots g n path objects = objects.map fun o ↦ (some (entryValue cp o), false) := by
  rw [slots_of_value hcp hobject]
  by_cases hnone : objects = []
  · rw [if_pos hnone, if_neg fun hrequired ↦ h ⟨hnone, hrequired⟩, hnone]
    rfl
  · rw [if_neg hnone]

theorem Rebuilding.Mirrors.property? {m : Node} (h : r.Mirrors g subject name subjects read)
    (hn : n ∈ g.nodes) (hmem : subject n ∈ subjects)
    (hm : r.graph.node? (name (subject n)) = some m) (path : String) :
    m.property? path = n.property? path := by
  obtain ⟨m', hm', -, hchain⟩ := h.typed n hn hmem
  rw [hm] at hm'
  cases hm'
  rw [Node.property?, Node.property?, hchain]

/-- There is room for one more value or target of a path where there is for one more object. -/
theorem Rebuilding.Mirrors.isFull_eq_false (h : r.Mirrors g subject name subjects read)
    (hn : n ∈ g.nodes) (hmem : subject n ∈ subjects) (hcp : n.property? path = some cp)
    (hlength : (slots g n path (objectsIn read (subject n) path)).length +
      (arrows name n path (objectsIn read (subject n) path)).length =
        (objectsIn read (subject n) path).length)
    (hroom : ∀ max, cp.maxCount = some max →
      (objectsIn read (subject n) path).length < max) :
    r.graph.isFull (name (subject n)) cp = false := by
  have hentries : (r.graph.entriesAt (name (subject n)) path).length =
      (slots g n path (objectsIn read (subject n) path)).length := by
    rw [← h.contents n hn hmem, Rebuilding.contents, List.length_map]
  rw [isFull_eq_false_iff, path_of_nearest? hcp, entryCount_eq, hentries,
    h.targets n hn hmem, hlength]
  exact hroom

/-- Where a node shows no open entry for a path, its entries of the path are closed. -/
theorem Rebuilding.Mirrors.closed (h : r.Mirrors g subject name subjects read)
    (hn : n ∈ g.nodes) (hmem : subject n ∈ subjects)
    (hm : r.graph.node? (name (subject n)) = some m)
    (hslots : ∀ slot ∈ slots g n path (objectsIn read (subject n) path), slot.2 = false) :
    ∀ e ∈ m.entriesOf path, r.placeholders.contains e.id = false := by
  intro e he
  have hcontents := h.contents n hn hmem path
  rw [Rebuilding.contents, entriesAt_of_node? hm] at hcontents
  rw [← hcontents] at hslots
  exact hslots _ (List.mem_map_of_mem he)

/-- The first value of a required path is read into the open entry. -/
theorem Rebuilding.Mirrors.readFirstValue (h : r.Mirrors g subject name subjects read)
    (hs : s.Describes g subject)
    (hinj : ∀ t ∈ subjects, ∀ u ∈ subjects, name t = name u → t = u)
    (hn : n ∈ g.nodes) (hmem : subject n ∈ subjects) (ht : t.subject = subject n)
    (htype : t.predicate ≠ rdfType) (hcp : n.property? t.predicate = some cp)
    (hobject : cp.isObject = false) (hnone : objectsIn read (subject n) t.predicate = [])
    (hrequired : cp.isRequired = true) :
    ∃ r', addStatement s (name (subject n)) r t = .ok r' ∧
      r'.Mirrors g subject name subjects (read ++ [t]) := by
  obtain ⟨m, hm, -⟩ := h.typed n hn hmem
  have hcpm : m.property? t.predicate = some cp := by
    rw [h.property? hn hmem hm, hcp]
  have hpath : cp.path = t.predicate := path_of_nearest? hcp
  have hcontents := h.contents n hn hmem t.predicate
  rw [slots_of_value hcp hobject, if_pos hnone, if_pos hrequired, Rebuilding.contents,
    entriesAt_of_node? hm, ← hpath] at hcontents
  obtain ⟨e, he, hpair⟩ := List.map_eq_singleton_iff.1 hcontents
  have hopen : r.placeholders.contains e.id = true := (Prod.mk.inj hpair).2
  refine ⟨_, addStatement_fill htype h.distinct hm hcpm hobject he hopen, ?_⟩
  rw [hpath] at he
  apply h.extend (keeps_fill _ h.distinct h.issued) h.sources
  · apply Reflects.concat h.contents hs hinj hn hmem ht
    · rw [contents_fill _ h.distinct hm he, if_pos ⟨rfl, rfl⟩, hnone,
        slots_of_further hcp hobject (by simp)]
      rfl
    · intro other path hother
      rw [contents_fill _ h.distinct hm he, if_neg hother]
  · apply Reflects.same_of_subject h.targets hs hn ht
    intro objects
    rw [arrows_of_value hcp hobject, arrows_of_value hcp hobject]

/-- A further value of a path is read into a new entry. -/
theorem Rebuilding.Mirrors.readFurtherValue (h : r.Mirrors g subject name subjects read)
    (hs : s.Describes g subject)
    (hinj : ∀ t ∈ subjects, ∀ u ∈ subjects, name t = name u → t = u)
    (hn : n ∈ g.nodes) (hmem : subject n ∈ subjects) (ht : t.subject = subject n)
    (htype : t.predicate ≠ rdfType) (hcp : n.property? t.predicate = some cp)
    (hobject : cp.isObject = false)
    (hfirst : ¬(objectsIn read (subject n) t.predicate = [] ∧ cp.isRequired = true))
    (hroom : ∀ max, cp.maxCount = some max →
      (objectsIn read (subject n) t.predicate).length < max) :
    ∃ r', addStatement s (name (subject n)) r t = .ok r' ∧
      r'.Mirrors g subject name subjects (read ++ [t]) := by
  obtain ⟨m, hm, -⟩ := h.typed n hn hmem
  have hcpm : m.property? t.predicate = some cp := by
    rw [h.property? hn hmem hm, hcp]
  have hpath : cp.path = t.predicate := path_of_nearest? hcp
  have hread := slots_of_further (g := g) hcp hobject hfirst
  have hclosed : ∀ e ∈ m.entriesOf cp.path, r.placeholders.contains e.id = false := by
    rw [hpath]
    apply h.closed hn hmem hm
    rw [hread]
    simp
  have hfull : r.graph.isFull (name (subject n)) cp = false := by
    apply h.isFull_eq_false hn hmem hcp _ hroom
    rw [hread, arrows_of_value hcp hobject, List.length_map]
    rfl
  refine ⟨_, addStatement_append htype hm hcpm hobject hclosed hfull, ?_⟩
  apply h.extend (keeps_append _ h.distinct h.issued) h.sources
  · apply Reflects.concat h.contents hs hinj hn hmem ht
    · rw [contents_append _ hm h.issued, if_pos ⟨rfl, hpath.symm⟩, h.contents n hn hmem, hread,
        slots_of_further hcp hobject (by simp), List.map_append]
      rfl
    · intro other path hother
      rw [contents_append _ hm h.issued, hpath, if_neg hother, List.append_nil]
  · apply Reflects.same_of_subject h.targets hs hn ht
    intro objects
    rw [arrows_of_value hcp hobject, arrows_of_value hcp hobject]

theorem Rebuilding.Mirrors.lookup {o : Term} (h : r.Mirrors g subject name subjects read)
    (ho : o ∈ subjects) : r.nodeIds.lookup o = some (name o) :=
  Rebuilding.Names.lookup h.named ho

/-- An object is read into an edge to its node. -/
theorem Rebuilding.Mirrors.readTarget {target : Node} {targetClass : String}
    (h : r.Mirrors g subject name subjects read) (hs : s.Describes g subject)
    (hinj : ∀ t ∈ subjects, ∀ u ∈ subjects, name t = name u → t = u)
    (hn : n ∈ g.nodes) (hmem : subject n ∈ subjects) (ht : t.subject = subject n)
    (htype : t.predicate ≠ rdfType) (hcp : n.property? t.predicate = some cp)
    (hclass : cp.target? = some targetClass) (htarget : target ∈ g.nodes)
    (hobject : t.object = subject target) (htargetMem : subject target ∈ subjects)
    (hisA : target.isA targetClass = true)
    (hroom : ∀ max, cp.maxCount = some max →
      (objectsIn read (subject n) t.predicate).length < max) :
    ∃ r', addStatement s (name (subject n)) r t = .ok r' ∧
      r'.Mirrors g subject name subjects (read ++ [t]) := by
  obtain ⟨m, hm, -⟩ := h.typed n hn hmem
  obtain ⟨m', hm', -, hchain⟩ := h.typed target htarget htargetMem
  have hcpm : m.property? t.predicate = some cp := by
    rw [h.property? hn hmem hm, hcp]
  have hpath : cp.path = t.predicate := path_of_nearest? hcp
  have hisObject : cp.isObject = true := by
    rw [ClassProperty.isObject, hclass]
    rfl
  have hlookup : r.nodeIds.lookup t.object = some (name (subject target)) := by
    rw [hobject]
    exact h.lookup htargetMem
  have hisA' : m'.isA targetClass = true := by
    rw [Node.isA, hchain]
    exact hisA
  have hfull : r.graph.isFull (name (subject n)) cp = false := by
    apply h.isFull_eq_false hn hmem hcp _ hroom
    rw [slots_of_object hcp hisObject, arrows_of_object hcp hisObject, List.length_nil,
      List.length_map, Nat.zero_add]
  have hlink : ∀ other path,
      (r.link (name (subject n)) (name (subject target)) cp).graph.targetsAt other path =
        r.graph.targetsAt other path ++
          if other = name (subject n) ∧ path = cp.path then [name (subject target)] else [] :=
    targetsAt_insertEdge _
  refine ⟨_, addStatement_link htype hm hcpm hclass hlookup hm' hisA' hfull, ?_⟩
  apply h.extend (keeps_link _ h.distinct h.issued)
  · intro e he
    rcases List.mem_append.1 he with he | he
    · exact h.sources e he
    · cases List.mem_singleton.1 he
      exact List.mem_map_of_mem hmem
  · apply Reflects.same_of_subject h.contents hs hn ht
    intro objects
    rw [slots_of_object hcp hisObject, slots_of_object hcp hisObject]
  · apply Reflects.concat h.targets hs hinj hn hmem ht
    · rw [hlink, if_pos ⟨rfl, hpath.symm⟩, h.targets n hn hmem, arrows_of_object hcp hisObject,
        arrows_of_object hcp hisObject, List.map_append, hobject]
      rfl
    · intro other path hother
      rw [hlink, hpath, if_neg hother, List.append_nil]

/-- The type of a subject was read before its values. -/
theorem Rebuilding.Mirrors.readType (h : r.Mirrors g subject name subjects read)
    (hp : g.Portable) (ht : t.predicate = rdfType) (id : String) :
    ∃ r', addStatement s id r t = .ok r' ∧
      r'.Mirrors g subject name subjects (read ++ [t]) := by
  have hkeeps : r.Keeps r :=
    ⟨rfl, rfl, rfl, rfl, rfl, fun _ m hm ↦ ⟨m, hm, rfl, rfl⟩, h.distinct, h.issued⟩
  have hundeclared : ∀ n ∈ g.nodes, n.property? t.predicate = none := fun n hn ↦
    ht ▸ hp.property?_rdfType hn
  refine ⟨r, addStatement_of_rdfType ht, h.extend hkeeps h.sources ?_ ?_⟩
  · apply Reflects.same h.contents
    intro n hn _ objects
    rw [slots_of_undeclared (hundeclared n hn), slots_of_undeclared (hundeclared n hn)]
  · apply Reflects.same h.targets
    intro n hn _ objects
    rw [arrows_of_undeclared (hundeclared n hn), arrows_of_undeclared (hundeclared n hn)]

/-- Every statement of a described graph is read, and nothing is left out. -/
theorem Rebuilding.Mirrors.readStatement (h : r.Mirrors g subject name subjects read)
    (hs : s.Describes g subject) (hg : g.Consistent) (hp : g.Portable)
    (hinj : ∀ t ∈ subjects, ∀ u ∈ subjects, name t = name u → t = u)
    (hsubjects : ∀ n ∈ g.nodes, subject n ∈ subjects) (ht : t ∈ s.store.triples.toList)
    (hroom : (objectsIn read t.subject t.predicate).length <
      (s.store.objects t.subject t.predicate).length) :
    ∃ r', addStatement s (name t.subject) r t = .ok r' ∧
      r'.Mirrors g subject name subjects (read ++ [t]) := by
  obtain ⟨n, hn, hsubject, htype | ⟨cp, hcp⟩⟩ := hs.declared t ht
  · exact h.readType hp htype _
  have htype : t.predicate ≠ rdfType := fun htype ↦ by
    rw [htype, hp.property?_rdfType hn] at hcp
    cases hcp
  have hmost : ∀ max, cp.maxCount = some max →
      (g.entriesAt n.id t.predicate).length + (g.targetsAt n.id t.predicate).length ≤ max := by
    intro max hmax
    rw [← entryCount_eq, ← path_of_nearest? hcp]
    exact hp.room n hn cp (mem_declarations_of_nearest? hcp) max hmax
  rw [hsubject] at hroom ⊢
  cases hobject : cp.isObject with
  | false =>
    rw [hs.values n hn _ cp hcp hobject] at hroom
    have hlength := List.length_filterMap_le entryTerm? (g.entriesAt n.id t.predicate)
    by_cases hfirst : objectsIn read (subject n) t.predicate = [] ∧ cp.isRequired = true
    · exact h.readFirstValue hs hinj hn (hsubjects n hn) hsubject htype hcp hobject hfirst.1 hfirst.2
    · refine h.readFurtherValue hs hinj hn (hsubjects n hn) hsubject htype hcp hobject hfirst ?_
      intro max hmax
      have := hmost max hmax
      omega
  | true =>
    have hobjects := hs.edges n hn _ cp hcp hobject
    have hmem : t.object ∈ s.store.objects (subject n) t.predicate := by
      rw [Store.mem_objects, ← hsubject]
      exact ht
    rw [hobjects] at hroom hmem
    have hlength := List.length_filterMap_le (fun target ↦ (g.node? target).map subject)
      (g.targetsAt n.id t.predicate)
    obtain ⟨targetId, htargetId, hterm⟩ := List.mem_filterMap.1 hmem
    obtain ⟨cp', hcp', -, target, htarget, targetClass, hnode, hclass, hisA⟩ :=
      property_of_mem_targetsAt hg hp hn htargetId
    rw [hcp] at hcp'
    cases hcp'
    rw [hnode] at hterm
    have hterm : t.object = subject target := (Option.some.inj hterm).symm
    refine h.readTarget hs hinj hn (hsubjects n hn) hsubject htype hcp hclass htarget hterm
      (hsubjects target htarget) hisA ?_
    intro max hmax
    have := hmost max hmax
    omega

end

end OntoGraph.Document
