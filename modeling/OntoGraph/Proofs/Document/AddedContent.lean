import OntoGraph.Proofs.Document.Reexport
import OntoGraph.Proofs.Graph.Beside

/-!
# What a document adds to a graph

A document is rebuilt beside the content that a graph has: the run is the one in a graph without
content, under names that the graph lacks. So a document that is taken only adds nodes and edges,
and one that is not taken changes nothing.
-/

namespace OntoGraph.Document

open Ontology OntoGraph.Graph Rdf InstanceGraph

/-! ## Rebuilding beside other content -/

/-- The same state in a graph that has the content of another one before its own. -/
def Rebuilding.beside (g : InstanceGraph) (r : Rebuilding) : Rebuilding :=
  { r with graph := g.beside r.graph }

variable {s : Statements} {g d : InstanceGraph} {r : Rebuilding} {grid : Float × Float}
  {reference : Position} {urns : Nat → String} {config : Settings.Configuration}

theorem addSubject_beside {t : Term} (h : g.Lacks (nodeIdFor urns r t)) :
    addSubject s grid reference urns (r.beside g) t =
      (addSubject s grid reference urns r t).map (·.beside g) := by
  have hid : nodeIdFor urns (r.beside g) t = nodeIdFor urns r t := by cases t <;> rfl
  have hclass : s.classIri? (r.beside g).graph.model t = s.classIri? r.graph.model t := rfl
  unfold addSubject
  rw [hid, hclass]
  cases s.classIri? r.graph.model t with
  | none => rfl
  | some classIri =>
    have hadd : (r.beside g).graph.addNode (nodeIdFor urns r t) classIri
        (s.position grid reference t) = _ := addNode_beside h _ _
    dsimp only
    rw [hadd]
    cases r.graph.addNode (nodeIdFor urns r t) classIri (s.position grid reference t) with
    | error error => rfl
    | ok graph =>
      simp only [Except.map, node?_beside h]
      rfl

theorem record_beside (result : Except GraphError (Addition × InstanceGraph)) :
    (r.beside g).record (result.map fun result ↦ (result.1, g.beside result.2)) =
      (r.record result).map (·.beside g) := by
  rcases result with error | ⟨_ | _, graph⟩ <;> rfl

/-- Statements are added in the same way beside nodes that they do not name. -/
theorem addStatement_beside {id : String} (hid : g.Lacks id)
    (htargets : ∀ t target, r.nodeIds.lookup t = some target → g.Lacks target) (u : Triple) :
    addStatement s id (r.beside g) u = (addStatement s id r u).map (·.beside g) := by
  unfold addStatement
  split
  · rfl
  · have hnode : (r.beside g).graph.node? id = r.graph.node? id := node?_beside hid
    rw [hnode]
    cases r.graph.node? id with
    | none => rfl
    | some n =>
      dsimp only
      cases n.property? u.predicate with
      | none => rfl
      | some cp =>
        dsimp only
        split
        · have hnames : (r.beside g).nodeIds = r.nodeIds := rfl
          rw [hnames]
          cases htarget : r.nodeIds.lookup u.object with
          | none => rfl
          | some target =>
            have hadd : (r.beside g).graph.addEdge id target cp = _ :=
              addEdge_beside hid (htargets _ _ htarget) cp
            dsimp only
            rw [hadd, record_beside]
        · have hopen : placeholderFor? (r.beside g) n cp.path (entryValue cp u.object) =
              placeholderFor? r n cp.path (entryValue cp u.object) := rfl
          rw [hopen]
          cases placeholderFor? r n cp.path (entryValue cp u.object) with
          | none =>
            have hadd : (r.beside g).graph.addEntry id cp (some (entryValue cp u.object)) = _ :=
              addEntry_beside hid cp _
            dsimp only
            rw [hadd, record_beside]
          | some e =>
            have hset : (r.beside g).graph.setEntry id e.id (some (entryValue cp u.object)) = _ :=
              setEntry_beside hid e.id _
            dsimp only
            rw [hset]
            cases r.graph.setEntry id e.id (some (entryValue cp u.object)) <;> rfl

theorem addStatements_beside
    (hnames : ∀ t id, r.nodeIds.lookup t = some id → g.Lacks id) (t : Term) :
    addStatements s (r.beside g) t = (addStatements s r t).map (·.beside g) := by
  have hkept : (r.beside g).nodeIds = r.nodeIds := rfl
  unfold addStatements
  rw [hkept]
  cases hid : r.nodeIds.lookup t with
  | none => rfl
  | some id =>
    refine Fallible.foldlM_map (P := fun _ (r' : Rebuilding) ↦ r'.nodeIds = r.nodeIds) rfl ?_
    intro done u rest r' _ hr'
    refine ⟨addStatement_beside (hnames t id hid) (hr' ▸ hnames) u, fun r'' hstep ↦ ?_⟩
    rw [nodeIds_of_addStatement hstep, hr']

theorem rootOf_beside {ids : List String} (h : ∀ id ∈ ids, g.Lacks id) (documentClass : String) :
    rootOf documentClass (g.beside d) ids = rootOf documentClass d ids := by
  have hfind : ids.find? (fun id ↦ ((g.beside d).node? id).any (·.cls.name == documentClass)) =
      ids.find? (fun id ↦ (d.node? id).any (·.cls.name == documentClass)) := by
    induction ids with
    | nil => rfl
    | cons id ids ih =>
      rw [List.find?_cons, List.find?_cons, node?_beside (h id List.mem_cons_self),
        ih fun id hid ↦ h id (List.mem_cons_of_mem _ hid)]
  rw [rootOf, rootOf, hfind]

@[simp] theorem takenIri?_reset (g : InstanceGraph) (subjects : List Term) :
    takenIri? g.reset subjects = none := by
  rw [takenIri?, List.find?_eq_none]
  exact fun _ _ ↦ Bool.false_ne_true

/-- No subject that is new is the name of a node. -/
theorem takenIri?_of_lacks {subjects : List Term}
    (h : ∀ t ∈ subjects, g.Lacks (nameIn urns subjects t)) : takenIri? g subjects = none := by
  rw [takenIri?, List.find?_eq_none]
  intro iri hiri
  obtain ⟨t, ht, hiri⟩ := List.mem_filterMap.1 hiri
  cases t with
  | iri name =>
    cases hiri
    have hnone : g.node? iri = none := node?_eq_none_iff.2 (h _ ht).nodes
    rw [hnone]
    exact Bool.false_ne_true
  | blank label => cases hiri
  | literal lexical datatype language => cases hiri

/-- A subject gets the name that its place among all subjects gives it. -/
theorem Rebuilding.Names.addSubject {r' : Rebuilding} {done rest : List Term} {t : Term}
    (h : r.Names (nameIn urns s.subjects) done) (hitems : s.subjects = done ++ t :: rest)
    (hstep : Document.addSubject s grid reference urns r t = .ok r') :
    r'.Names (nameIn urns s.subjects) (done ++ [t]) := by
  obtain ⟨classIri, graph, -, -, rfl⟩ := addSubject_eq_ok.1 hstep
  rw [Names, List.reverse_cons, h, nodeIdFor_eq_nameIn hitems h.length, List.map_append]
  rfl

/-- The first pass names all subjects. -/
theorem names_of_subjects
    (h : s.subjects.foldlM (addSubject s grid reference urns) { graph := g } = .ok r) :
    r.Names (nameIn urns s.subjects) s.subjects :=
  Fallible.foldlM_done_induction
    (P := fun done (r : Rebuilding) ↦ r.Names (nameIn urns s.subjects) done) (by exact rfl) h
    fun _ _ _ _ _ hitems hr hstep ↦ hr.addSubject hitems hstep

/-- The first pass makes the same nodes beside other content. -/
theorem foldlM_addSubject_beside (h : ∀ t ∈ s.subjects, g.Lacks (nameIn urns s.subjects t)) :
    s.subjects.foldlM (addSubject s grid reference urns) { graph := g } =
      (s.subjects.foldlM (addSubject s grid reference urns) { graph := g.reset }).map
        (·.beside g) := by
  have hstart : ({ graph := g } : Rebuilding) = Rebuilding.beside g { graph := g.reset } := by
    rw [Rebuilding.beside, beside_reset]
  rw [hstart]
  refine Fallible.foldlM_map
    (P := fun done (r : Rebuilding) ↦ r.Names (nameIn urns s.subjects) done) rfl ?_
  intro done t rest r hitems hr
  refine ⟨addSubject_beside ?_, fun r' hstep ↦ hr.addSubject hitems hstep⟩
  rw [nodeIdFor_eq_nameIn hitems hr.length]
  exact h t (hitems ▸ List.mem_append_right _ List.mem_cons_self)

/-- The second pass adds the same values and edges beside other content. -/
theorem foldlM_addStatements_beside
    (h : ∀ t id, r.nodeIds.lookup t = some id → g.Lacks id) :
    s.subjects.foldlM (addStatements s) (r.beside g) =
      (s.subjects.foldlM (addStatements s) r).map (·.beside g) := by
  refine Fallible.foldlM_map (P := fun _ (r' : Rebuilding) ↦ r'.nodeIds = r.nodeIds) rfl ?_
  intro done t rest r' _ hr'
  refine ⟨addStatements_beside (hr' ▸ h) t, fun r'' hstep ↦ ?_⟩
  rw [nodeIds_of_addStatements hstep, hr']

/-- Under names that a graph lacks, statements are rebuilt beside its content as they are without
it: with the same success, the same summary and the same nodes and edges. -/
theorem rebuild_beside (h : ∀ t ∈ s.subjects, g.Lacks (nameIn urns s.subjects t)) :
    rebuild g config s reference urns =
      (rebuild g.reset config s reference urns).map fun result ↦
        (result.1, g.beside result.2) := by
  unfold rebuild
  rw [takenIri?_of_lacks h, takenIri?_reset]
  dsimp only
  rw [foldlM_addSubject_beside h]
  cases hfirst : s.subjects.foldlM (addSubject s config.grid reference urns)
      { graph := g.reset } with
  | error error => rfl
  | ok r =>
    have hnames := names_of_subjects hfirst
    have hlacks : ∀ t id, r.nodeIds.lookup t = some id → g.Lacks id := by
      intro t id hid
      obtain ⟨ht, rfl⟩ := hnames.of_lookup hid
      exact h t ht
    have hsecond := foldlM_addStatements_beside (s := s) hlacks
    simp only [Except.map, bind, Except.bind] at hsecond ⊢
    rw [hsecond]
    cases hstatements : s.subjects.foldlM (addStatements s) r with
    | error error => rfl
    | ok r' =>
      have hids : r'.nodeIds = r.nodeIds :=
        Fallible.foldlM_induction (P := fun r' : Rebuilding ↦ r'.nodeIds = r.nodeIds) rfl
          hstatements fun _ _ _ _ hr hstep ↦ (nodeIds_of_addStatements hstep).trans hr
      have hnew : ∀ id ∈ r'.nodeIds.reverse.map (·.2), g.Lacks id := by
        rw [hids, hnames, List.map_map, List.forall_mem_map]
        exact h
      have hroot : rootOf config.documentClass (r'.beside g).graph
          ((r'.beside g).nodeIds.reverse.map (·.2)) = _ := rootOf_beside hnew config.documentClass
      simp only [pure, Except.pure, hroot]
      rfl

/-! ## The names of the new nodes -/

/-- All statements are read, subject by subject. -/
theorem perm_triples (s : Statements) :
    (s.subjects.flatMap fun t ↦ (s.store.triplesOf t).toList).Perm s.store.triples.toList := by
  have hnodup : (s.subjects.flatMap fun t ↦ (s.store.triplesOf t).toList).Nodup := by
    refine List.nodup_flatMap.2 ⟨fun t _ ↦ ?_, (nodup_subjects s).imp fun hne u ht hu ↦ ?_⟩
    · rw [Store.triplesOf_toList]
      exact s.store.distinct.filter _
    · exact hne ((Store.mem_triplesOf.1 ht).2.symm.trans (Store.mem_triplesOf.1 hu).2)
  refine (List.perm_ext_iff_of_nodup hnodup s.store.distinct).2 fun u ↦ ?_
  rw [List.mem_flatMap]
  constructor
  · rintro ⟨t, -, hu⟩
    exact (Store.mem_triplesOf.1 hu).1
  · exact fun hu ↦ ⟨u.subject, Statements.mem_subjects_of_mem hu, Store.mem_triplesOf.2 ⟨hu, rfl⟩⟩

/-- A first pass that succeeds gives no subject the name of a node. -/
theorem node?_eq_none_of_subjects
    (h : s.subjects.foldlM (addSubject s grid reference urns) { graph := g } = .ok r) :
    ∀ t ∈ s.subjects, g.node? (nameIn urns s.subjects t) = none := by
  suffices hpass : r.Names (nameIn urns s.subjects) s.subjects ∧ g.nodes ⊆ r.graph.nodes ∧
      ∀ t ∈ s.subjects, g.node? (nameIn urns s.subjects t) = none from hpass.2.2
  refine Fallible.foldlM_done_induction (P := fun done (r : Rebuilding) ↦
    r.Names (nameIn urns s.subjects) done ∧ g.nodes ⊆ r.graph.nodes ∧
      ∀ t ∈ done, g.node? (nameIn urns s.subjects t) = none)
    ⟨by exact rfl, List.Subset.refl _, by rintro _ ⟨⟩⟩ h ?_
  rintro done t rest r r' hitems ⟨hnames, hkept, hdone⟩ hstep
  obtain ⟨classIri, m, -, hnode, -, hr'⟩ := addSubject_eq_insert.1 hstep
  refine ⟨hnames.addSubject hitems hstep, ?_, fun u hu ↦ ?_⟩
  · rw [hr']
    exact List.subset_append_of_subset_left _ hkept
  · rcases List.mem_append.1 hu with hu | hu
    · exact hdone u hu
    · cases List.mem_singleton.1 hu
      rw [nodeIdFor_eq_nameIn hitems hnames.length] at hnode
      exact node?_eq_none_iff.2 fun n hn ↦ node?_eq_none_iff.1 hnode n (hkept hn)

/-- The new nodes of a summary are those of the subjects. -/
theorem nodeIds_of_rebuild {summary : ImportSummary} {g' : InstanceGraph}
    (h : rebuild g config s reference urns = .ok (summary, g')) :
    summary.nodeIds = s.subjects.map (nameIn urns s.subjects) := by
  obtain ⟨-, r, r', hsubjects, hstatements, hresult⟩ := rebuild_eq_ok.1 h
  have hids : r'.nodeIds = r.nodeIds :=
    Fallible.foldlM_induction (P := fun r' : Rebuilding ↦ r'.nodeIds = r.nodeIds) rfl hstatements
      fun _ _ _ _ hr hstep ↦ (nodeIds_of_addStatements hstep).trans hr
  cases hresult
  rw [hids, names_of_subjects hsubjects, List.map_map]
  rfl

theorem root_of_rebuild {summary : ImportSummary} {g' : InstanceGraph}
    (h : rebuild g config s reference urns = .ok (summary, g')) :
    summary.root = rootOf config.documentClass g' summary.nodeIds := by
  obtain ⟨-, r, r', -, -, hresult⟩ := rebuild_eq_ok.1 h
  cases hresult
  rfl

/-- What is rebuilt in a consistent graph stands beside its content. -/
theorem exists_beside_of_rebuild {summary : ImportSummary} {g' : InstanceGraph}
    (hg : g.Consistent) (h : rebuild g config s reference urns = .ok (summary, g')) :
    ∃ d, rebuild g.reset config s reference urns = .ok (summary, d) ∧ g' = g.beside d ∧
      ∀ t ∈ s.subjects, g.Lacks (nameIn urns s.subjects t) := by
  obtain ⟨-, r, -, hsubjects, -⟩ := rebuild_eq_ok.1 h
  have hlacks : ∀ t ∈ s.subjects, g.Lacks (nameIn urns s.subjects t) :=
    fun t ht ↦ hg.lacks (node?_eq_none_of_subjects hsubjects t ht)
  rw [rebuild_beside hlacks] at h
  obtain ⟨⟨_, d⟩, hd, hresult⟩ := Fallible.map_eq_ok.1 h
  cases hresult
  exact ⟨d, hd, rfl, hlacks⟩

/-! ## What is added -/

theorem rootOf_mem {documentClass : String} {ids : List String} {id : String}
    (h : rootOf documentClass g ids = some id) : id ∈ ids := by
  simp only [rootOf, Option.orElse_eq_orElse, Option.orElse_eq_or, Option.or_eq_some_iff] at h
  rcases h with h | ⟨-, h⟩
  · exact List.mem_of_find?_eq_some h
  · exact List.mem_of_head? h

theorem rootOf_eq_none_iff {documentClass : String} {ids : List String} :
    rootOf documentClass g ids = none ↔ ids = [] := by
  simp only [rootOf, Option.orElse_eq_orElse, Option.orElse_eq_or, Option.or_eq_none_iff,
    List.head?_eq_none_iff, and_iff_right_iff_imp]
  rintro rfl
  rfl

/-- Is the second graph the first one with some nodes and edges after its own? The nodes are those
of the summary, under names that no node had, and the edges lead between them. -/
structure Adds (g g' : InstanceGraph) (summary : ImportSummary) (newNodes : List Node)
    (newEdges : List Edge) : Prop where
  model : g'.model = g.model
  settings : g'.settings = g.settings
  nodes : g'.nodes = g.nodes ++ newNodes
  edges : g'.edges = g.edges ++ newEdges
  ids : newNodes.map (·.id) = summary.nodeIds
  distinct : summary.nodeIds.Nodup
  unused : ∀ n ∈ g.nodes, n.id ∉ summary.nodeIds
  ends : ∀ e ∈ newEdges, e.source ∈ summary.nodeIds ∧ e.target ∈ summary.nodeIds
  root : ∀ id, summary.root = some id → id ∈ summary.nodeIds
  rootless : summary.root = none ↔ newNodes = [] ∧ newEdges = []

theorem adds_of_rebuild {summary : ImportSummary} {g' : InstanceGraph} (hg : g.Consistent)
    (h : rebuild g config s reference urns = .ok (summary, g')) :
    ∃ newNodes newEdges, Adds g g' summary newNodes newEdges := by
  obtain ⟨d, hd, rfl, hlacks⟩ := exists_beside_of_rebuild hg h
  have hsummary := nodeIds_of_rebuild hd
  have hroot := root_of_rebuild hd
  obtain ⟨r, rfl, -, taken, -, -, -, hholds⟩ := takes_of_rebuild hd
  have hids : r.graph.nodes.map (·.id) = summary.nodeIds := hholds.nodes.trans hsummary.symm
  have hends : ∀ e ∈ r.graph.edges, e.source ∈ summary.nodeIds ∧ e.target ∈ summary.nodeIds := by
    intro e he
    obtain ⟨source, hsource, target, htarget, -, hsid, htid, -⟩ := hholds.consistent.edges e he
    rw [← hids, ← hsid, ← htid]
    exact ⟨List.mem_map_of_mem hsource, List.mem_map_of_mem htarget⟩
  refine ⟨r.graph.nodes, r.graph.edges, ?_⟩
  constructor
  case model => exact hholds.model
  case settings => exact hholds.settings
  case nodes => rfl
  case edges => rfl
  case ids => exact hids
  case distinct =>
    rw [← hids]
    exact hholds.consistent.ids
  case unused =>
    intro n hn hmem
    rw [hsummary] at hmem
    obtain ⟨t, ht, hid⟩ := List.mem_map.1 hmem
    exact (hlacks t ht).nodes n hn hid.symm
  case ends => exact hends
  case root =>
    intro id hid
    rw [hroot] at hid
    exact rootOf_mem hid
  case rootless =>
    rw [hroot, rootOf_eq_none_iff, ← hids, List.map_eq_nil_iff]
    refine ⟨fun hnone ↦ ⟨hnone, ?_⟩, fun hnone ↦ hnone.1⟩
    rw [List.eq_nil_iff_forall_not_mem]
    intro e he
    have hsource := (hends e he).1
    rw [← hids, hnone] at hsource
    cases hsource

/-- In a reachable graph, a document that is not taken changes nothing. One that is taken adds nodes
and edges after those of the graph, which stay as they are; the summary names the new nodes, no
name was in use, and the new edges lead between new nodes. -/
theorem importDocument_adds (hg : g.Reachable) (c : TermContext) (config : Settings.Configuration)
    (text : String) (reference : Position) (urns : Nat → String) :
    (∀ error, importDocument g c config text reference urns = .error error →
      g.perform (.importDocument c config text reference urns) = g) ∧
    ∀ summary g', importDocument g c config text reference urns = .ok (summary, g') →
      g.perform (.importDocument c config text reference urns) = g' ∧
        ∃ newNodes newEdges, Adds g g' summary newNodes newEdges := by
  have hperform : g.perform (.importDocument c config text reference urns) =
      g.orUnchanged ((importDocument g c config text reference urns).map (·.2)) := rfl
  rw [hperform]
  refine ⟨fun error herror ↦ by rw [herror]; rfl, fun summary g' himport ↦ ?_⟩
  obtain ⟨s, -, hrebuild⟩ := importDocument_eq_ok.1 himport
  exact ⟨by rw [himport]; rfl, adds_of_rebuild hg.consistent hrebuild⟩

def lampOperations : List Operation := [.addNodeWithId "https://x/first" "https://x/Element" {}]

def lampGraph : InstanceGraph := run { model := lampModel } lampOperations

theorem reachable_lampGraph : lampGraph.Reachable :=
  ⟨lampModel, {}, lampOperations, ⟨trivial, trivial⟩, rfl⟩

/-- A lamp and its part are added beside a lamp, and a second time they are not. -/
theorem importDocument_adds_lampText :
    ∃ summary g', lampGraph.Reachable ∧
      importDocument lampGraph {} {} lampText {} lampUrns = .ok (summary, g') ∧
      (∃ newNodes newEdges, Adds lampGraph g' summary newNodes newEdges) ∧
      lampGraph.nodes.length = 1 ∧ summary.nodeIds.length = 2 ∧
      g'.perform (.importDocument {} {} lampText {} lampUrns) = g' := by
  have hcheck : (match importDocument lampGraph {} {} lampText {} lampUrns with
      | .error _ => false
      | .ok (summary, g') => decide (lampGraph.nodes.length = 1 ∧ summary.nodeIds.length = 2) &&
          (match importDocument g' {} {} lampText {} lampUrns with
            | .error _ => true
            | .ok _ => false)) = true := by
    decide +kernel
  cases himport : importDocument lampGraph {} {} lampText {} lampUrns with
  | error error =>
    rw [himport] at hcheck
    cases hcheck
  | ok result =>
    obtain ⟨summary, g'⟩ := result
    rw [himport] at hcheck
    simp only [Bool.and_eq_true, decide_eq_true_eq] at hcheck
    obtain ⟨⟨hnodes, hids⟩, hagain⟩ := hcheck
    obtain ⟨hperform, hadds⟩ :=
      (importDocument_adds reachable_lampGraph {} {} lampText {} lampUrns).2 summary g' himport
    have hreachable' : g'.Reachable := hperform ▸ reachable_lampGraph.perform trivial
    refine ⟨summary, g', reachable_lampGraph, rfl, hadds, hnodes, hids, ?_⟩
    cases hsecond : importDocument g' {} {} lampText {} lampUrns with
    | error error => exact (importDocument_adds hreachable' {} {} lampText {} lampUrns).1 _ hsecond
    | ok result =>
      rw [hsecond] at hagain
      cases hagain

end OntoGraph.Document
