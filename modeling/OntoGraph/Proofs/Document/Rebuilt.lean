import OntoGraph.Proofs.Document.Filling
import OntoGraph.Proofs.Graph.Isomorphism
import OntoGraph.Proofs.Graph.Marks

/-!
# The graph that comes back

Statements that describe a graph are rebuilt without fail and without loss. What the two passes
leave mirrors all statements, and a graph that mirrors the statements of a valid graph is that
graph under other names.
-/

namespace OntoGraph.Document

open Ontology OntoGraph.Graph Rdf InstanceGraph

variable {s : Statements} {g : InstanceGraph} {subject : Node → Term} {urns : Nat → String}

/-! ## The two passes -/

theorem nodup_subjects (s : Statements) : s.subjects.Nodup := nodup_eraseDups _

/-- The next subject gets the name that its place among all subjects gives it. -/
theorem nodeIdFor_eq_nameIn {r : Rebuilding} {done rest : List Term} {t : Term}
    (hitems : s.subjects = done ++ t :: rest) (hlength : r.nodeIds.length = done.length) :
    nodeIdFor urns r t = nameIn urns s.subjects t := by
  have hnot : t ∉ done := by
    have hnodup := nodup_subjects s
    rw [hitems] at hnodup
    exact fun hdone ↦ (List.nodup_append.1 hnodup).2.2 t hdone t List.mem_cons_self rfl
  rw [nodeIdFor_eq, hlength, nameIn, hitems, List.idxOf_append_of_notMem hnot,
    List.idxOf_cons_self, Nat.add_zero]

/-- The subjects are those of the statements. -/
theorem Statements.mem_subjects {t : Term} :
    t ∈ s.subjects ↔ ∃ u ∈ s.store.triples.toList, u.subject = t := by
  rw [Statements.subjects, List.mem_eraseDups, List.mem_append]
  constructor
  · rintro (h | h)
    · obtain ⟨-, hsome⟩ := List.mem_filter.1 h
      rw [Bool.not_eq_eq_eq_not, Bool.not_true] at hsome
      have hmem := Decidable.not_not.1
        (mt Store.isEmpty_triplesOf.2 (Bool.eq_false_iff.1 hsome))
      exact List.mem_map.1 hmem
    · exact Store.mem_subjects.1 h
  · exact fun h ↦ .inr (Store.mem_subjects.2 h)

theorem Statements.mem_subjects_of_mem {u : Triple} (h : u ∈ s.store.triples.toList) :
    u.subject ∈ s.subjects :=
  Statements.mem_subjects.2 ⟨u, h, rfl⟩

theorem mem_subjects_iff (hs : s.Describes g subject) {t : Term} :
    t ∈ s.subjects ↔ ∃ n ∈ g.nodes, subject n = t := by
  rw [Statements.mem_subjects]
  constructor
  · rintro ⟨triple, htriple, rfl⟩
    obtain ⟨n, hn, hsubject, -⟩ := hs.declared triple htriple
    exact ⟨n, hn, hsubject.symm⟩
  · rintro ⟨n, hn, rfl⟩
    have hmem : .iri n.cls.iri ∈ s.store.objects (subject n) rdfType := by
      rw [hs.types n hn]
      exact List.mem_singleton_self _
    exact ⟨_, Store.mem_objects.1 hmem, rfl⟩

theorem mirrors_nil (g : InstanceGraph) (subject : Node → Term) (name : Term → String) :
    Rebuilding.Mirrors { graph := { model := g.model, settings := g.settings } }
      g subject name [] [] where
  model := rfl
  settings := rfl
  distinct := distinctEntries_empty _ _
  issued := by rintro _ ⟨⟩
  named := rfl
  nodes := rfl
  typed := by rintro _ _ ⟨⟩
  contents := by rintro _ _ ⟨⟩
  targets := by rintro _ _ ⟨⟩
  sources := by rintro _ ⟨⟩
  dropped := rfl

theorem nameIn_injective_of_describes (hs : s.Describes g subject)
    (hurns : Function.Injective urns) (hnew : ∀ k, ∀ n ∈ g.nodes, urns k ≠ n.id) :
    ∀ t ∈ s.subjects, ∀ u ∈ s.subjects,
      nameIn urns s.subjects t = nameIn urns s.subjects u → t = u := by
  intro t ht u hu
  refine nameIn_injective hurns ?_ ht hu
  intro k iri hiri heq
  obtain ⟨n, hn, hsubject⟩ := (mem_subjects_iff hs).1 hiri
  cases hkind : n.isElement with
  | true =>
    rw [hs.element n hn hkind] at hsubject
    exact hnew k n hn (heq.trans (Term.iri.inj hsubject).symm)
  | false =>
    have hblank := hs.blank n hn hkind
    rw [hsubject] at hblank
    cases hblank

/-- The first pass makes a node for every subject. -/
theorem exists_mirrors_subjects (hs : s.Describes g subject) (hg : g.Consistent)
    (hp : g.Portable) (hurns : Function.Injective urns)
    (hnew : ∀ k, ∀ n ∈ g.nodes, urns k ≠ n.id) (grid : Float × Float) (reference : Position) :
    ∃ r, s.subjects.foldlM (addSubject s grid reference urns)
        { graph := { model := g.model, settings := g.settings } } = .ok r ∧
      r.Mirrors g subject (nameIn urns s.subjects) s.subjects [] := by
  refine Fallible.exists_foldlM (P := fun done (r : Rebuilding) ↦
    r.Mirrors g subject (nameIn urns s.subjects) done []) (mirrors_nil g subject _) ?_
  intro done t rest r hitems hr
  have hmem : t ∈ s.subjects := by
    rw [hitems]
    exact List.mem_append_right _ List.mem_cons_self
  have hnot : t ∉ done := by
    have hnodup := nodup_subjects s
    rw [hitems] at hnodup
    exact fun hdone ↦ (List.nodup_append.1 hnodup).2.2 t hdone t List.mem_cons_self rfl
  obtain ⟨n, hn, rfl⟩ := (mem_subjects_iff hs).1 hmem
  refine hr.addSubject hs hg hp hn ?_ ?_
  · exact nodeIdFor_eq_nameIn hitems (Rebuilding.Names.length hr.named)
  · intro hmem'
    obtain ⟨u, hu, heq⟩ := List.mem_map.1 hmem'
    have hmem'' : u ∈ s.subjects := by
      rw [hitems]
      exact List.mem_append_left _ hu
    rw [nameIn_injective_of_describes hs hurns hnew u hmem'' _ hmem heq] at hu
    exact hnot hu

theorem objects_eq_objectsIn (store : Store) (t : Term) (path : String) :
    store.objects t path = objectsIn (store.triplesOf t).toList t path := by
  rw [Store.objects, objectsIn]
  congr 1
  refine List.filter_congr fun triple htriple ↦ ?_
  simp [(Store.mem_triplesOf.1 htriple).2]

theorem objectsIn_triplesOf {store : Store} {ts : List Term} {t : Term} (hnodup : ts.Nodup)
    (ht : t ∈ ts) (path : String) :
    objectsIn (ts.flatMap fun t ↦ (store.triplesOf t).toList) t path = store.objects t path := by
  rw [objects_eq_objectsIn]
  exact objectsIn_flatMap (fun t ↦ t) (fun t _ triple htriple ↦
    (Store.mem_triplesOf.1 htriple).2) (by rwa [List.map_id']) ht path

/-- The second pass reads every statement. -/
theorem exists_mirrors_statements {r : Rebuilding} {name : Term → String}
    (h : r.Mirrors g subject name s.subjects []) (hs : s.Describes g subject)
    (hg : g.Consistent) (hp : g.Portable)
    (hinj : ∀ t ∈ s.subjects, ∀ u ∈ s.subjects, name t = name u → t = u) :
    ∃ r', s.subjects.foldlM (addStatements s) r = .ok r' ∧
      r'.Mirrors g subject name s.subjects
        (s.subjects.flatMap fun t ↦ (s.store.triplesOf t).toList) := by
  have hsubjects : ∀ n ∈ g.nodes, subject n ∈ s.subjects :=
    fun n hn ↦ (mem_subjects_iff hs).2 ⟨n, hn, rfl⟩
  rw [Rebuilding.Names.foldlM_addStatements h.named]
  refine Fallible.exists_foldlM (P := fun read (r : Rebuilding) ↦
    r.Mirrors g subject name s.subjects read) h ?_
  intro read u rest r hitems hr
  obtain ⟨t, ht, hu⟩ := List.mem_flatMap.1 (hitems ▸ List.mem_append_right _ List.mem_cons_self)
  obtain ⟨hstored, rfl⟩ := Store.mem_triplesOf.1 hu
  refine hr.readStatement hs hg hp hinj hsubjects hstored ?_
  -- the statement itself is among those of its subject and path that are not read yet
  rw [← objectsIn_triplesOf (nodup_subjects s) ht, hitems, objectsIn_append,
    ← List.singleton_append (l := rest), objectsIn_append, objectsIn_singleton, if_pos ⟨rfl, rfl⟩]
  simp only [List.length_append, List.length_singleton]
  omega

/-! ## Values -/

/-- The term for a valid value is read back with the same written form. -/
theorem exists_entryTerm {e : Entry} (hjudged : e.Judged) (hvalid : e.isValid = true)
    (hvalued : e.value.isSome = true) (hobject : e.property.isObject = false) :
    ∃ o, entryTerm? e = some o ∧
      some (entryValue e.property o).lexical = e.writtenForm? := by
  obtain ⟨v, hvalue⟩ := Option.isSome_iff_exists.1 hvalued
  unfold entryTerm? entryValue Entry.writtenForm? ClassProperty.datatype?
  rw [hvalue]
  cases hconstraint : e.property.constraint with
  | literal datatype =>
    exact ⟨_, rfl, congrArg some (lexical_valueOf (hjudged.accepts hvalid hvalue hconstraint))⟩
  | enumerated options => exact ⟨_, rfl, rfl⟩
  | object target =>
    rw [ClassProperty.isObject, ClassProperty.target?, hconstraint] at hobject
    cases hobject

theorem map_filterMap_of_forall {α β γ : Type} {f : α → Option β} {h : β → γ} {k : α → γ}
    {items : List α} (hitems : ∀ a ∈ items, ∃ b, f a = some b ∧ h b = k a) :
    (items.filterMap f).map h = items.map k := by
  induction items with
  | nil => rfl
  | cons a items ih =>
    obtain ⟨b, hb, hk⟩ := hitems a List.mem_cons_self
    rw [List.filterMap_cons_some hb, List.map_cons, List.map_cons, hk,
      ih fun a ha ↦ hitems a (List.mem_cons_of_mem _ ha)]

/-- In a valid graph, a required path has an entry. -/
theorem entriesAt_ne_nil (hg : g.Consistent) (hclean : g.validate.isClean = true) {n : Node}
    {cp : ClassProperty} {path : String} (hn : n ∈ g.nodes) (hcp : n.property? path = some cp)
    (hobject : cp.isObject = false) (hrequired : cp.isRequired = true) :
    g.entriesAt n.id path ≠ [] := by
  have hmet := isUnmet_of_clean hclean hn (mem_declarations_of_nearest? hcp)
  unfold isUnmet satisfyingCount at hmet
  unfold ClassProperty.isRequired at hrequired
  rw [hobject, if_neg Bool.false_ne_true] at hmet
  intro hnone
  rw [entriesAt_of_node? (node?_of_mem hg.ids hn), Node.entriesOf] at hnone
  have hcount : n.entries.filter (fun e ↦ e.isValid && decide (e.path = cp.path)) = [] := by
    rw [← List.filter_filter, path_of_nearest? hcp, hnone]
    rfl
  rw [hcount] at hmet
  cases hmin : cp.minCount with
  | none =>
    rw [hmin] at hrequired
    cases hrequired
  | some count =>
    rw [hmin] at hmet hrequired
    simp only [Option.any_some, decide_eq_true_eq] at hrequired
    simp only [Option.any_some, List.length_nil, decide_eq_false_iff_not] at hmet
    omega

/-- What a node shows when all its statements were read. -/
theorem slots_of_describes (hs : s.Describes g subject) (hg : g.Consistent) (hp : g.Portable)
    (hclean : g.validate.isClean = true) (hjudged : g.Judged) {n : Node} (hn : n ∈ g.nodes)
    (path : String) :
    (slots g n path (s.store.objects (subject n) path)).map (·.1.map Value.lexical) =
      (g.entriesAt n.id path).map Entry.writtenForm? := by
  cases hcp : n.property? path with
  | none =>
    rw [slots_of_undeclared hcp, entriesAt_eq_nil hg hp hn fun cp h ↦ by rw [hcp] at h; cases h]
    rfl
  | some cp =>
    have hproperty : ∀ e ∈ g.entriesAt n.id path, e ∈ n.entries ∧ e.property = cp ∧
        e.property.isObject = false := by
      intro e he
      obtain ⟨hmem, hdeclared, hobject⟩ := property_of_mem_entriesAt hg hp hn he
      rw [hcp] at hdeclared
      exact ⟨hmem, (Option.some.inj hdeclared).symm, hobject⟩
    cases hobject : cp.isObject with
    | true =>
      rw [slots_of_object hcp hobject, entriesAt_eq_nil hg hp hn fun cp' h ↦ by
        rw [hcp] at h
        cases h
        exact hobject]
      rfl
    | false =>
      have hobjects := hs.values n hn path cp hcp hobject
      have hterms : ∀ e ∈ g.entriesAt n.id path, ∃ o, entryTerm? e = some o ∧
          some (entryValue cp o).lexical = e.writtenForm? := by
        intro e he
        obtain ⟨hmem, rfl, hvalue⟩ := hproperty e he
        exact exists_entryTerm (hjudged n hn e hmem) (isValid_of_clean hclean hn hmem)
          (hp.valued n hn e hmem) hvalue
      rw [slots_of_value hcp hobject, hobjects]
      by_cases hempty : g.entriesAt n.id path = []
      · have hfree : ¬cp.isRequired = true := fun hrequired ↦
          entriesAt_ne_nil hg hclean hn hcp hobject hrequired hempty
        rw [hempty, List.filterMap_nil, if_pos rfl, if_neg hfree]
        rfl
      · have hread : (g.entriesAt n.id path).filterMap entryTerm? ≠ [] := by
          obtain ⟨e, he⟩ := List.exists_mem_of_ne_nil _ hempty
          obtain ⟨o, ho, -⟩ := hterms e he
          exact List.ne_nil_of_mem (List.mem_filterMap.2 ⟨e, he, ho⟩)
        rw [if_neg hread, List.map_map]
        exact map_filterMap_of_forall hterms

/-! ## Edges -/

/-- What a node leads to when all its statements were read. -/
theorem arrows_of_describes (hs : s.Describes g subject) (hg : g.Consistent) (hp : g.Portable)
    {name : Term → String} {rename : String → String}
    (hrename : ∀ n ∈ g.nodes, rename n.id = name (subject n)) {n : Node} (hn : n ∈ g.nodes)
    (path : String) :
    arrows name n path (s.store.objects (subject n) path) =
      (g.targetsAt n.id path).map rename := by
  cases hcp : n.property? path with
  | none =>
    rw [arrows_of_undeclared hcp, targetsAt_eq_nil hg hp hn fun cp h ↦ by rw [hcp] at h; cases h]
    rfl
  | some cp =>
    cases hobject : cp.isObject with
    | false =>
      rw [arrows_of_value hcp hobject, targetsAt_eq_nil hg hp hn fun cp' h ↦ by
        rw [hcp] at h
        cases h
        exact hobject]
      rfl
    | true =>
      rw [arrows_of_object hcp hobject, hs.edges n hn path cp hcp hobject]
      refine map_filterMap_of_forall fun targetId htargetId ↦ ?_
      obtain ⟨-, -, -, target, htarget, -, hnode, -⟩ :=
        property_of_mem_targetsAt hg hp hn htargetId
      refine ⟨subject target, by rw [hnode]; rfl, ?_⟩
      rw [← hrename target htarget, (node?_eq_some hnode).2]

/-! ## The graph -/

/-- The name in the rebuilt graph of the node with an identifier. -/
def renamed (g : InstanceGraph) (subject : Node → Term) (name : Term → String) (id : String) :
    String :=
  ((g.node? id).map fun n ↦ name (subject n)).getD id

theorem renamed_id (hg : g.Consistent) (name : Term → String) {n : Node} (hn : n ∈ g.nodes) :
    renamed g subject name n.id = name (subject n) := by
  rw [renamed, node?_of_mem hg.ids hn]
  rfl

/-- A graph that mirrors all statements of a valid graph is that graph under other names. -/
theorem Rebuilding.Mirrors.isomorphic {r : Rebuilding}
    (h : r.Mirrors g subject (nameIn urns s.subjects) s.subjects
      (s.subjects.flatMap fun t ↦ (s.store.triplesOf t).toList))
    (hs : s.Describes g subject) (hg : g.Consistent) (hp : g.Portable)
    (hclean : g.validate.isClean = true) (hjudged : g.Judged)
    (hinj : ∀ t ∈ s.subjects, ∀ u ∈ s.subjects,
      nameIn urns s.subjects t = nameIn urns s.subjects u → t = u) :
    g.Isomorphic r.graph (renamed g subject (nameIn urns s.subjects)) := by
  have hsubject : ∀ n ∈ g.nodes, subject n ∈ s.subjects :=
    fun n hn ↦ (mem_subjects_iff hs).2 ⟨n, hn, rfl⟩
  have hrename : ∀ n ∈ g.nodes,
      renamed g subject (nameIn urns s.subjects) n.id = nameIn urns s.subjects (subject n) :=
    fun n hn ↦ renamed_id hg _ hn
  have hinjective : ∀ n ∈ g.nodes, ∀ m ∈ g.nodes,
      renamed g subject (nameIn urns s.subjects) n.id =
        renamed g subject (nameIn urns s.subjects) m.id → n.id = m.id := by
    intro n hn m hm heq
    rw [hrename n hn, hrename m hm] at heq
    rw [hs.injective n hn m hm (hinj _ (hsubject n hn) _ (hsubject m hm) heq)]
  have hsubjects : s.subjects.Perm (g.nodes.map subject) := by
    have hnodes : g.nodes.Nodup := hg.ids.of_map _
    refine (List.perm_ext_iff_of_nodup (nodup_subjects s)
      (hnodes.map_on fun n hn m hm heq ↦ hs.injective n hn m hm heq)).2 fun t ↦ ?_
    rw [mem_subjects_iff hs, List.mem_map]
  constructor
  case injective => exact hinjective
  case nodes =>
    rw [h.nodes]
    refine (hsubjects.map _).trans (.of_eq ?_)
    rw [List.map_map]
    exact List.map_congr_left fun n hn ↦ (hrename n hn).symm
  case cls =>
    intro n hn
    obtain ⟨m, hm, hcls, -⟩ := h.typed n hn (hsubject n hn)
    rw [hrename n hn, hm, Option.map_some, hcls]
  case element =>
    intro n hn helement
    rw [hrename n hn, hs.element n hn helement]
    rfl
  case values =>
    intro n hn path
    have hcontents := h.contents n hn (hsubject n hn) path
    rw [objectsIn_triplesOf (nodup_subjects s) (hsubject n hn)] at hcontents
    rw [← slots_of_describes hs hg hp hclean hjudged hn, ← hcontents, hrename n hn,
      Rebuilding.contents, List.map_map]
    rfl
  case edges =>
    refine perm_edges hinjective ?_ ?_ ?_
    · intro e he
      obtain ⟨source, hsource, -, -, -, hid, -⟩ := hg.edges e he
      exact ⟨source, hsource, hid⟩
    · intro e he
      obtain ⟨t, ht, hname⟩ := List.mem_map.1 (h.sources e he)
      obtain ⟨n, hn, rfl⟩ := (mem_subjects_iff hs).1 ht
      exact ⟨n, hn, (hrename n hn).trans hname⟩
    · intro n hn path
      rw [hrename n hn, h.targets n hn (hsubject n hn),
        objectsIn_triplesOf (nodup_subjects s) (hsubject n hn)]
      exact arrows_of_describes hs hg hp hrename hn path

/-- Statements that describe a valid graph are rebuilt into that graph under other names. -/
theorem rebuild_of_describes {config : Settings.Configuration} {reference : Position}
    (hs : s.Describes g subject) (hg : g.Consistent) (hp : g.Portable)
    (hclean : g.validate.isClean = true) (hjudged : g.Judged)
    (hurns : Function.Injective urns) (hnew : ∀ k, ∀ n ∈ g.nodes, urns k ≠ n.id) :
    ∃ summary g' name, rebuild { model := g.model, settings := g.settings } config s reference urns =
        .ok (summary, g') ∧ summary.dropped = 0 ∧ g.Isomorphic g' name := by
  obtain ⟨r, hr, hmirrors⟩ := exists_mirrors_subjects hs hg hp hurns hnew config.grid reference
  have hinj := nameIn_injective_of_describes hs hurns hnew
  obtain ⟨r', hr', hmirrors'⟩ := exists_mirrors_statements hmirrors hs hg hp hinj
  have hfree : takenIri? { model := g.model, settings := g.settings } s.subjects = none := by
    rw [takenIri?, List.find?_eq_none]
    intro iri _
    simp [node?]
  exact ⟨_, _, _, rebuild_eq_ok.2 ⟨hfree, r, r', hr, hr', rfl⟩, hmirrors'.dropped,
    hmirrors'.isomorphic hs hg hp hclean hjudged hinj⟩

end OntoGraph.Document
