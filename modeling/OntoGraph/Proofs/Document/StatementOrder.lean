import OntoGraph.Proofs.Document.AddedContent

/-!
# The order of statements

Statements may be stored in any order. Whether they are taken as a whole, which nodes they make, how
many values and edges each node gets and how many are left out depends on which statements there
are, and not on their order. Where none is left out, the values and the targets are the same too.
-/

namespace OntoGraph.Document

open Ontology OntoGraph.Graph Rdf InstanceGraph

/-! ## When statements are taken as a whole -/

namespace Statements

/-- Does the class of its subject declare the property of a statement? Where the property asks for
a node, its object has to be a subject of the right class. -/
def Admissible (s : Statements) (model : Model) (u : Triple) : Prop :=
  ∃ cp, (s.chainOf model u.subject).nearest? u.predicate = some cp ∧
    ∀ targetClass, cp.target? = some targetClass →
      u.object ∈ s.subjects ∧ (s.chainOf model u.object).hasClass targetClass = true

/-- Has each subject a class that there can be nodes of, and is each statement that is not of a type
admissible? -/
structure Fits (s : Statements) (g : InstanceGraph) : Prop where
  classes : ∀ t ∈ s.subjects, ∃ classIri kind, s.classIri? g.model t = some classIri ∧
    g.instantiable classIri = .ok kind
  admissible : ∀ u ∈ s.store.triples.toList, u.predicate ≠ rdfType → s.Admissible g.model u

end Statements

/-- Are the new names different from each other, from those of the nodes of a graph and from the
IRIs that are subjects? -/
structure FreshNames (g : InstanceGraph) (s : Statements) (urns : Nat → String) : Prop where
  injective : Function.Injective urns
  unused : ∀ k, g.node? (urns k) = none
  foreign : ∀ k, .iri (urns k) ∉ s.subjects

variable {s : Statements} {g : InstanceGraph} {r : Rebuilding} {name : Term → String}
  {subjects : List Term} {taken : List Triple} {t : Term} {u : Triple} {grid : Float × Float}
  {reference : Position} {urns : Nat → String} {config : Settings.Configuration}

theorem FreshNames.nameIn_injective (h : FreshNames g s urns) {t u : Term} (ht : t ∈ s.subjects)
    (hu : u ∈ s.subjects) (heq : nameIn urns s.subjects t = nameIn urns s.subjects u) : t = u :=
  Document.nameIn_injective h.injective (fun k _ hiri hurn ↦ h.foreign k (hurn ▸ hiri)) ht hu heq

/-- Where no IRI among the subjects is in use, no name of a subject is. -/
theorem FreshNames.node?_eq_none (h : FreshNames g s urns) (hfree : takenIri? g s.subjects = none)
    (ht : t ∈ s.subjects) : g.node? (nameIn urns s.subjects t) = none := by
  cases t with
  | iri iri =>
    rw [takenIri?, List.find?_eq_none] at hfree
    exact Option.not_isSome_iff_eq_none.1
      (hfree iri (List.mem_filterMap.2 ⟨.iri iri, ht, rfl⟩))
  | _ => exact h.unused _

theorem exists_addSubject_iff (hnode : r.graph.node? (nodeIdFor urns r t) = none) :
    (∃ r', addSubject s grid reference urns r t = .ok r') ↔
      ∃ classIri kind, s.classIri? r.graph.model t = some classIri ∧
        r.graph.instantiable classIri = .ok kind := by
  constructor
  · rintro ⟨r', hr'⟩
    obtain ⟨classIri, graph, hclass, hadd, -⟩ := addSubject_eq_ok.1 hr'
    obtain ⟨-, n, hn, -⟩ := addNode_eq_ok.1 hadd
    obtain ⟨kind, hkind, -⟩ := Fallible.bind_eq_ok.1 hn
    exact ⟨classIri, kind, hclass, hkind⟩
  · rintro ⟨classIri, ⟨cls, chain⟩, hclass, hkind⟩
    have hnew : ∃ n, r.graph.newNode (nodeIdFor urns r t) classIri
        (s.position grid reference t) = .ok n := by
      unfold newNode
      rw [hkind]
      exact ⟨_, rfl⟩
    obtain ⟨n, hn⟩ := hnew
    exact ⟨_, addSubject_eq_ok.2 ⟨classIri, _, hclass, addNode_eq_ok.2 ⟨hnode, n, hn, rfl⟩, rfl⟩⟩

/-- The first pass succeeds if every subject has a class. -/
theorem exists_subjects_iff
    (hinj : ∀ t ∈ s.subjects, ∀ u ∈ s.subjects,
      nameIn urns s.subjects t = nameIn urns s.subjects u → t = u) :
    (∃ r, s.subjects.foldlM (addSubject s grid reference urns) { graph := g.reset } = .ok r) ↔
      ∀ t ∈ s.subjects, ∃ classIri kind, s.classIri? g.model t = some classIri ∧
        g.instantiable classIri = .ok kind := by
  refine Fallible.exists_foldlM_iff (P := fun done (r : Rebuilding) ↦
    r.Holds g s (nameIn urns s.subjects) done []) (holds_nil g s _) ?_
  intro done t rest r hitems hr
  have hname : nodeIdFor urns r t = nameIn urns s.subjects t :=
    nodeIdFor_eq_nameIn hitems (Rebuilding.Names.length hr.named)
  refine ⟨?_, fun r' hstep ↦ hr.addSubject hstep hname⟩
  have hinstantiable : r.graph.instantiable = g.instantiable := by
    funext classIri
    unfold instantiable
    rw [hr.model]
  rw [exists_addSubject_iff, hr.model, hinstantiable]
  rw [hname, node?_eq_none_iff]
  intro n hn heq
  have hmem := List.mem_map_of_mem (f := fun n : Node ↦ n.id) hn
  rw [hr.nodes, heq] at hmem
  obtain ⟨u, hu, heq⟩ := List.mem_map.1 hmem
  have hsubjects : ∀ v ∈ done ++ t :: rest, v ∈ s.subjects := fun v hv ↦ hitems ▸ hv
  obtain rfl := hinj u (hsubjects u (List.mem_append_left _ hu)) t
    (hsubjects t (List.mem_append_right _ List.mem_cons_self)) heq
  have hnodup := nodup_subjects s
  rw [hitems] at hnodup
  exact (List.nodup_append.1 hnodup).2.2 u hu u List.mem_cons_self rfl

/-- A statement is taken or left out if it is admissible, and else it fails. -/
theorem exists_addStatement_iff (h : r.Holds g s name s.subjects taken)
    (hsubject : u.subject ∈ s.subjects) (htype : u.predicate ≠ rdfType) :
    (∃ r', addStatement s (name u.subject) r u = .ok r') ↔ s.Admissible g.model u := by
  obtain ⟨n, hn, -⟩ := h.classes _ hsubject
  have hchain := chainOf_of_holds h hsubject hn
  constructor
  · rintro ⟨r', hr'⟩
    obtain ⟨n', cp, hn', hcp, hcase⟩ := (addStatement_eq_ok htype).1 hr'
    cases hn.symm.trans hn'
    refine ⟨cp, by rw [hchain]; exact hcp, fun targetClass hclass ↦ ?_⟩
    rcases hcase with ⟨-, target, hlookup, hedge⟩ | ⟨hobject, -⟩
    · obtain ⟨htarget, rfl⟩ := h.lookup_eq_some hlookup
      obtain ⟨_, _, targetNode, hclass', -, hnode, -, hisA⟩ :=
        exists_addEdge_iff.1 (exists_record_iff.1 ⟨r', hedge⟩)
      cases hclass.symm.trans hclass'
      rw [chainOf_of_holds h htarget hnode]
      exact ⟨htarget, hisA⟩
    · rw [ClassProperty.isObject, hclass] at hobject
      cases hobject
  · rintro ⟨cp, hcp, htarget⟩
    rw [hchain] at hcp
    have hdeclares : n.declares cp = true := declares_iff.2 (mem_declarations_of_nearest? hcp)
    suffices hsteps : ∃ r', _ from hsteps.imp fun r' hr' ↦
      (addStatement_eq_ok htype).2 ⟨n, cp, hn, hcp, hr'⟩
    cases hclass : cp.target? with
    | some targetClass =>
      have hobject : cp.isObject = true := by rw [ClassProperty.isObject, hclass]; rfl
      obtain ⟨hmem, hisA⟩ := htarget targetClass hclass
      obtain ⟨targetNode, hnode, -⟩ := h.classes _ hmem
      rw [chainOf_of_holds h hmem hnode] at hisA
      obtain ⟨r', hr'⟩ := exists_record_iff.2 (exists_addEdge_iff.2
        ⟨_, n, targetNode, hclass, hn, hnode, hdeclares, hisA⟩)
      exact ⟨r', .inl ⟨hobject, _, h.lookup_of_mem hmem, hr'⟩⟩
    | none =>
      have hobject : cp.isObject = false := by rw [ClassProperty.isObject, hclass]; rfl
      cases hopen : placeholderFor? r n cp.path (entryValue cp u.object) with
      | some e =>
        obtain ⟨he, -⟩ := mem_of_placeholderFor? hopen
        have he' := existingEntry_of_mem h.distinct hn (List.mem_filter.1 he).1
        exact ⟨_, .inr ⟨hobject, .inl
          ⟨e, (_, _), rfl, setEntry_eq_ok.2 ⟨e, he', rfl, rfl⟩, rfl⟩⟩⟩
      | none =>
        obtain ⟨r', hr'⟩ := exists_record_iff.2 (exists_addEntry_iff.2
          ⟨hobject, n, hn, hdeclares⟩)
        exact ⟨r', .inr ⟨hobject, .inr ⟨rfl, hr'⟩⟩⟩

/-- The second pass succeeds if every statement is admissible. -/
theorem exists_statements_iff (h : r.Holds g s name s.subjects taken) :
    (∃ r', s.subjects.foldlM (addStatements s) r = .ok r') ↔
      ∀ u ∈ s.store.triples.toList, u.predicate ≠ rdfType → s.Admissible g.model u := by
  have hmem : ∀ u, u ∈ s.subjects.flatMap (fun t ↦ (s.store.triplesOf t).toList) ↔
      u ∈ s.store.triples.toList := fun u ↦ (perm_triples s).mem_iff
  rw [Rebuilding.Names.foldlM_addStatements h.named]
  refine (Fallible.exists_foldlM_iff
    (P := fun _ (r : Rebuilding) ↦ ∃ taken, r.Holds g s name s.subjects taken)
    (Q := fun u ↦ u.predicate ≠ rdfType → s.Admissible g.model u) ⟨taken, h⟩ ?_).trans
    (forall_congr' fun u ↦ imp_congr_left (hmem u))
  rintro read u rest r hitems ⟨taken, hr⟩
  have ht : u.subject ∈ s.subjects := Statements.mem_subjects_of_mem
    ((hmem u).1 (hitems ▸ List.mem_append_right _ List.mem_cons_self))
  refine ⟨?_, fun r' hstep ↦ hr.exists_of_addStatement ht hstep⟩
  by_cases htype : u.predicate = rdfType
  · exact iff_of_true ⟨r, addStatement_of_rdfType htype⟩ fun hne ↦ absurd htype hne
  · rw [exists_addStatement_iff hr ht htype]
    exact (imp_iff_right htype).symm

/-- Under new names, statements are taken as a whole if no subject is in use and all of them fit. -/
theorem exists_rebuild_iff (hg : g.Consistent) (hfresh : FreshNames g s urns) :
    (∃ result, rebuild g config s reference urns = .ok result) ↔
      takenIri? g s.subjects = none ∧ s.Fits g := by
  have hpasses : takenIri? g s.subjects = none →
      ((∃ result, rebuild g config s reference urns = .ok result) ↔ s.Fits g) := by
    intro hfree
    have hlacks : ∀ t ∈ s.subjects, g.Lacks (nameIn urns s.subjects t) :=
      fun t ht ↦ hg.lacks (hfresh.node?_eq_none hfree ht)
    have hfirst : (∃ r, s.subjects.foldlM (addSubject s config.grid reference urns)
        { graph := g.reset } = .ok r) ↔ ∀ t ∈ s.subjects, ∃ classIri kind,
          s.classIri? g.model t = some classIri ∧ g.instantiable classIri = .ok kind :=
      exists_subjects_iff fun t ht u hu ↦ hfresh.nameIn_injective ht hu
    rw [rebuild_beside hlacks]
    constructor
    · rintro ⟨result, hresult⟩
      obtain ⟨_, hd, -⟩ := Fallible.map_eq_ok.1 hresult
      obtain ⟨-, r, r', hr, hr', -⟩ := rebuild_eq_ok.1 hd
      exact ⟨hfirst.1 ⟨r, hr⟩, (exists_statements_iff (holds_of_subjects hr).1).1 ⟨r', hr'⟩⟩
    · rintro ⟨hclasses, hadmissible⟩
      obtain ⟨r, hr⟩ := hfirst.2 hclasses
      obtain ⟨r', hr'⟩ := (exists_statements_iff (holds_of_subjects hr).1).2 hadmissible
      exact ⟨_, Fallible.map_eq_ok.2
        ⟨_, rebuild_eq_ok.2 ⟨takenIri?_reset g _, r, r', hr, hr', rfl⟩, rfl⟩⟩
  constructor
  · rintro ⟨result, hresult⟩
    have hfree := (rebuild_eq_ok.1 hresult).1
    exact ⟨hfree, (hpasses hfree).1 ⟨result, hresult⟩⟩
  · exact fun ⟨hfree, hfits⟩ ↦ (hpasses hfree).2 hfits

/-! ## The same statements in another order -/

/-- Are the statements of two documents the same, with one type at most for each subject? -/
structure Reordered (s₁ s₂ : Statements) : Prop where
  triples : ∀ u, u ∈ s₁.store.triples.toList ↔ u ∈ s₂.store.triples.toList
  types : ∀ t, (s₁.store.objects t rdfType).length ≤ 1

namespace Reordered

variable {s₁ s₂ : Statements}

theorem mem_subjects (h : Reordered s₁ s₂) : t ∈ s₁.subjects ↔ t ∈ s₂.subjects := by
  rw [Statements.mem_subjects, Statements.mem_subjects]
  exact exists_congr fun u ↦ and_congr_left fun _ ↦ h.triples u

theorem perm_subjects (h : Reordered s₁ s₂) : s₁.subjects.Perm s₂.subjects :=
  (List.perm_ext_iff_of_nodup (nodup_subjects s₁) (nodup_subjects s₂)).2 fun _ ↦ h.mem_subjects

theorem perm_objects (h : Reordered s₁ s₂) (t : Term) (path : String) :
    (s₁.store.objects t path).Perm (s₂.store.objects t path) :=
  (List.perm_ext_iff_of_nodup (s₁.store.nodup_objects t path) (s₂.store.nodup_objects t path)).2
    fun _ ↦ Store.mem_objects.trans ((h.triples _).trans Store.mem_objects.symm)

theorem symm (h : Reordered s₁ s₂) : Reordered s₂ s₁ where
  triples u := (h.triples u).symm
  types t := (h.perm_objects t rdfType).length_eq ▸ h.types t

/-- A list of one type at most has no order. -/
theorem classIri?_eq (h : Reordered s₁ s₂) (model : Model) (t : Term) :
    s₁.classIri? model t = s₂.classIri? model t := by
  have hperm := h.perm_objects t rdfType
  have hobjects : s₁.store.objects t rdfType = s₂.store.objects t rdfType := by
    have htypes := h.types t
    cases hone : s₁.store.objects t rdfType with
    | nil => exact (hone ▸ hperm).nil_eq
    | cons type more =>
      rw [hone, List.length_cons] at htypes
      obtain rfl : more = [] := List.length_eq_zero_iff.1 (by omega)
      exact List.singleton_perm.1 (hone ▸ hperm)
  rw [Statements.classIri?, Statements.classIri?, Store.object?, Store.object?, hobjects]

theorem chainOf_eq (h : Reordered s₁ s₂) (model : Model) (t : Term) :
    s₁.chainOf model t = s₂.chainOf model t := by
  rw [Statements.chainOf, Statements.chainOf, h.classIri?_eq]

theorem fits (h : Reordered s₁ s₂) (hfits : s₁.Fits g) : s₂.Fits g where
  classes t ht := by
    rw [← h.classIri?_eq]
    exact hfits.classes t (h.mem_subjects.2 ht)
  admissible u hu htype := by
    obtain ⟨cp, hcp, htarget⟩ := hfits.admissible u ((h.triples u).2 hu) htype
    refine ⟨cp, h.chainOf_eq g.model _ ▸ hcp, fun targetClass hclass ↦ ?_⟩
    obtain ⟨hmem, hisA⟩ := htarget targetClass hclass
    exact ⟨h.mem_subjects.1 hmem, h.chainOf_eq g.model _ ▸ hisA⟩

theorem takenIri?_eq_none (h : Reordered s₁ s₂) (hfree : takenIri? g s₁.subjects = none) :
    takenIri? g s₂.subjects = none := by
  rw [takenIri?, List.find?_eq_none] at hfree ⊢
  intro iri hiri
  refine hfree iri ?_
  obtain ⟨t, ht, hiri⟩ := List.mem_filterMap.1 hiri
  exact List.mem_filterMap.2 ⟨t, h.mem_subjects.2 ht, hiri⟩

end Reordered

/-! ## How much is taken -/

theorem valueObjects_cases (chain : Chain) (path : String) :
    (∀ objects, valueObjects chain path objects = objects) ∨
      ∀ objects, valueObjects chain path objects = [] := by
  unfold valueObjects
  split
  · exact .inl fun _ ↦ rfl
  · exact .inr fun _ ↦ rfl

theorem targetObjects_cases (chain : Chain) (path : String) :
    (∀ objects, targetObjects chain path objects = objects) ∨
      ∀ objects, targetObjects chain path objects = [] := by
  unfold targetObjects
  split
  · exact .inl fun _ ↦ rfl
  · exact .inr fun _ ↦ rfl

/-- How many values a node holds depends on the number of objects alone. -/
theorem length_holdings_congr {chain : Chain} {path : String} {objects₁ objects₂ : List Term}
    (h : objects₁.length = objects₂.length) :
    (holdings g chain path objects₁).length = (holdings g chain path objects₂).length := by
  have hnil : objects₁ = [] ↔ objects₂ = [] := by
    rw [← List.length_eq_zero_iff, h, List.length_eq_zero_iff]
  unfold holdings
  rcases valueObjects_cases chain path with hall | hnone
  · rw [hall, hall]
    by_cases hempty : objects₁ = []
    · rw [if_pos hempty, if_pos (hnil.1 hempty)]
    · rw [if_neg hempty, if_neg (mt hnil.2 hempty), List.length_map, List.length_map, h]
  · rw [hnone, hnone]

theorem perm_holdings {chain : Chain} {path : String} {objects₁ objects₂ : List Term}
    (h : objects₁.Perm objects₂) :
    (holdings g chain path objects₁).Perm (holdings g chain path objects₂) := by
  unfold holdings
  rcases valueObjects_cases chain path with hall | hnone
  · rw [hall, hall]
    by_cases hempty : objects₁ = []
    · rw [if_pos hempty, if_pos (List.nil_perm.1 (hempty ▸ h))]
    · rw [if_neg hempty, if_neg fun hnil : objects₂ = [] ↦ hempty (List.perm_nil.1 (hnil ▸ h))]
      exact h.map _
  · rw [hnone, hnone]

/-- Statements are as many as there are objects for all subjects and predicates. -/
theorem length_eq_of_objectsIn {triples₁ triples₂ : List Triple}
    (h : ∀ t path, (objectsIn triples₁ t path).length = (objectsIn triples₂ t path).length) :
    triples₁.length = triples₂.length := by
  have hcount : ∀ (triples : List Triple) (place : Term × String),
      (triples.map fun u ↦ (u.subject, u.predicate)).count place =
        (objectsIn triples place.1 place.2).length := by
    intro triples place
    rw [List.count_eq_length_filter, List.filter_map, List.length_map, objectsIn, List.length_map]
    congr 1
    refine List.filter_congr fun u _ ↦ ?_
    rw [Bool.eq_iff_iff]
    simp [Prod.ext_iff]
  have hperm : (triples₁.map fun u ↦ (u.subject, u.predicate)).Perm
      (triples₂.map fun u ↦ (u.subject, u.predicate)) :=
    List.perm_iff_count.2 fun place ↦ by rw [hcount, hcount, h]
  simpa using hperm.length_eq

/-- What is known of a graph in which statements were rebuilt: beside the content that was there, it
holds as many of them as there is room for. -/
theorem exists_holds_of_rebuild {summary : ImportSummary} {g' : InstanceGraph}
    (hg : g.Consistent) (h : rebuild g config s reference urns = .ok (summary, g')) :
    ∃ (r : Rebuilding) (taken : List Triple), g' = g.beside r.graph ∧
      (∀ t ∈ s.subjects, g.Lacks (nameIn urns s.subjects t)) ∧
      summary.dropped + taken.length = s.store.triples.toList.length ∧
      (∀ t path, (objectsIn taken t path).length =
        admitted (s.chainOf g.model t) path (s.store.objects t path).length) ∧
      (summary.dropped = 0 → ∀ t ∈ s.subjects, ∀ path,
        objectsIn taken t path = s.store.objects t path) ∧
      r.Holds g s (nameIn urns s.subjects) s.subjects taken := by
  obtain ⟨d, hd, rfl, hlacks⟩ := exists_beside_of_rebuild hg h
  obtain ⟨r, rfl, hdropped, taken, hsublist, hcount, hadmits, hholds⟩ := takes_of_rebuild hd
  have hread : ∀ t ∈ s.subjects, ∀ path,
      objectsIn (s.subjects.flatMap fun t ↦ (s.store.triplesOf t).toList) t path =
        s.store.objects t path :=
    fun t ht path ↦ objectsIn_triplesOf (nodup_subjects s) ht path
  refine ⟨r, taken, rfl, hlacks, ?_, fun t path ↦ ?_, fun hzero t ht path ↦ ?_, hholds⟩
  · rw [← hdropped, hcount, (perm_triples s).length_eq]
  · by_cases ht : t ∈ s.subjects
    · obtain ⟨n, hn, -⟩ := hholds.classes t ht
      rw [hadmits t ht n hn, hread t ht, chainOf_of_holds hholds ht hn]
    · have hnone : ∀ o, o ∉ s.store.objects t path := fun o ho ↦
        ht (Statements.mem_subjects.2 ⟨_, Store.mem_objects.1 ho, rfl⟩)
      have hnone' : ∀ o, o ∉ objectsIn taken t path := fun o ho ↦ by
        obtain ⟨u, hu, htriple⟩ := List.mem_flatMap.1 (hsublist.subset (mem_objectsIn.1 ho))
        exact hnone o (Store.mem_objects.2 (Store.mem_triplesOf.1 htriple).1)
      rw [List.eq_nil_iff_forall_not_mem.2 hnone, List.eq_nil_iff_forall_not_mem.2 hnone']
      exact admitted_zero.symm
  · rw [← hdropped] at hzero
    rw [hsublist.eq_of_length (by omega)]
    exact hread t ht path

/-! ## What does not depend on the order -/

/-- Is a node of one graph of the same class as one of another, with as many values and edges of
each path? -/
structure SameShape (g₁ g₂ : InstanceGraph) (id₁ id₂ : String) : Prop where
  cls : ∃ n₁ n₂, g₁.node? id₁ = some n₁ ∧ g₂.node? id₂ = some n₂ ∧ n₁.cls = n₂.cls
  values : ∀ path, (g₁.entriesAt id₁ path).length = (g₂.entriesAt id₂ path).length
  edges : ∀ path, (g₁.targetsAt id₁ path).length = (g₂.targetsAt id₂ path).length

/-- Have the nodes of a subject in two graphs the same values of a path, and do they lead to the
nodes of the same subjects? -/
structure SameContent (g₁ g₂ : InstanceGraph) (name₁ name₂ : Term → String) (subjects : List Term)
    (t : Term) (path : String) : Prop where
  values : ((g₁.entriesAt (name₁ t) path).map (·.value)).Perm
    ((g₂.entriesAt (name₂ t) path).map (·.value))
  targets : ∃ objects : List Term, (∀ o ∈ objects, o ∈ subjects) ∧
    (g₁.targetsAt (name₁ t) path).Perm (objects.map name₁) ∧
    (g₂.targetsAt (name₂ t) path).Perm (objects.map name₂)

section

variable {name₁ name₂ : Term → String} {r₁ r₂ : Rebuilding} {s₁ s₂ : Statements}
  {subjects₁ subjects₂ : List Term} {taken₁ taken₂ : List Triple}

/-- The entries of a node are as many as what it holds, and have its values. -/
theorem Rebuilding.Holds.map_value (h : r.Holds g s name s.subjects taken) (ht : t ∈ s.subjects)
    (path : String) : (r.graph.entriesAt (name t) path).map (·.value) =
      (holdings g (s.chainOf g.model t) path (objectsIn taken t path)).map (·.1) := by
  obtain ⟨n, hn, -⟩ := h.classes t ht
  rw [chainOf_of_holds h ht hn, ← h.contents t ht n hn path, Rebuilding.contents, List.map_map]
  rfl

theorem Rebuilding.Holds.targetsAt_eq (h : r.Holds g s name s.subjects taken)
    (ht : t ∈ s.subjects) (path : String) : r.graph.targetsAt (name t) path =
      targetNames name (s.chainOf g.model t) path (objectsIn taken t path) := by
  obtain ⟨n, hn, -⟩ := h.classes t ht
  rw [chainOf_of_holds h ht hn, h.targets t ht n hn path]

theorem sameShape_of_holds (h : Reordered s₁ s₂) (h₁ : r₁.Holds g s₁ name₁ s₁.subjects taken₁)
    (h₂ : r₂.Holds g s₂ name₂ s₂.subjects taken₂)
    (hlength : ∀ t path, (objectsIn taken₁ t path).length = (objectsIn taken₂ t path).length)
    (ht : t ∈ s₁.subjects) : SameShape r₁.graph r₂.graph (name₁ t) (name₂ t) := by
  have ht' := h.mem_subjects.1 ht
  constructor
  case cls =>
    obtain ⟨n₁, hn₁, hclass₁⟩ := h₁.classes t ht
    obtain ⟨n₂, hn₂, hclass₂⟩ := h₂.classes t ht'
    refine ⟨n₁, n₂, hn₁, hn₂, ?_⟩
    rw [h.classIri?_eq, hclass₂] at hclass₁
    have hcls₁ := (h₁.consistent.typed n₁ (node?_eq_some hn₁).1).cls
    have hcls₂ := (h₂.consistent.typed n₂ (node?_eq_some hn₂).1).cls
    rw [h₁.model, ← Option.some.inj hclass₁, ← h₂.model, hcls₂] at hcls₁
    exact (Option.some.inj hcls₁).symm
  case values =>
    intro path
    have hcount₁ := congrArg List.length (h₁.map_value ht path)
    have hcount₂ := congrArg List.length (h₂.map_value ht' path)
    rw [List.length_map, List.length_map] at hcount₁ hcount₂
    rw [hcount₁, hcount₂, h.chainOf_eq]
    exact length_holdings_congr (hlength t path)
  case edges =>
    intro path
    rw [h₁.targetsAt_eq ht, h₂.targetsAt_eq ht', targetNames, targetNames, List.length_map,
      List.length_map, h.chainOf_eq]
    rcases targetObjects_cases (s₂.chainOf g.model t) path with hall | hnone
    · rw [hall, hall, hlength]
    · rw [hnone, hnone]

theorem sameContent_of_holds (h : Reordered s₁ s₂) (h₁ : r₁.Holds g s₁ name₁ s₁.subjects taken₁)
    (h₂ : r₂.Holds g s₂ name₂ s₂.subjects taken₂) (ht : t ∈ s₁.subjects) {path : String}
    (hperm : (objectsIn taken₁ t path).Perm (objectsIn taken₂ t path)) :
    SameContent r₁.graph r₂.graph name₁ name₂ s₁.subjects t path := by
  have ht' := h.mem_subjects.1 ht
  constructor
  case values =>
    rw [h₁.map_value ht, h₂.map_value ht', h.chainOf_eq]
    exact (perm_holdings hperm).map _
  case targets =>
    rw [h₁.targetsAt_eq ht, h₂.targetsAt_eq ht', targetNames, targetNames, h.chainOf_eq]
    refine ⟨_, fun o ho ↦ ?_, .refl _, List.Perm.map _ ?_⟩
    · obtain ⟨hpath, cp, hcp, hobject⟩ := exists_of_mem_targetObjects ho
      have htaken : ⟨t, path, o⟩ ∈ taken₁ := by
        rw [targetObjects_of_object hpath hcp hobject] at ho
        exact mem_objectsIn.1 ho
      obtain ⟨-, hdeclared⟩ := h₁.declared _ htaken
      obtain ⟨n, cp', hn, hcp', hmem⟩ := hdeclared hpath
      rw [← h.chainOf_eq, chainOf_of_holds h₁ ht hn] at hcp
      cases hcp.symm.trans hcp'
      exact hmem hobject
    · rcases targetObjects_cases (s₂.chainOf g.model t) path with hall | hnone
      · rw [hall, hall]
        exact hperm.symm
      · rw [hnone, hnone]

end

variable {s₁ s₂ : Statements} {urns₁ urns₂ : Nat → String}

/-- The order of statements does not decide whether they are taken as a whole. Where they are, the
same subjects get nodes, of the same classes and with as many values and edges, and as many
statements are left out. Where none is left out, the values and the targets are the same. -/
theorem rebuild_reordered (hg : g.Reachable) (h : Reordered s₁ s₂)
    (hfresh₁ : FreshNames g s₁ urns₁) (hfresh₂ : FreshNames g s₂ urns₂)
    (config : Settings.Configuration) (reference : Position) :
    ((∃ result, rebuild g config s₁ reference urns₁ = .ok result) ↔
      ∃ result, rebuild g config s₂ reference urns₂ = .ok result) ∧
    ∀ summary₁ g₁ summary₂ g₂, rebuild g config s₁ reference urns₁ = .ok (summary₁, g₁) →
      rebuild g config s₂ reference urns₂ = .ok (summary₂, g₂) →
      s₁.subjects.Perm s₂.subjects ∧
      summary₁.nodeIds = s₁.subjects.map (nameIn urns₁ s₁.subjects) ∧
      summary₂.nodeIds = s₂.subjects.map (nameIn urns₂ s₂.subjects) ∧
      summary₁.dropped = summary₂.dropped ∧
      (∀ t ∈ s₁.subjects,
        SameShape g₁ g₂ (nameIn urns₁ s₁.subjects t) (nameIn urns₂ s₂.subjects t)) ∧
      (summary₁.dropped = 0 → ∀ t ∈ s₁.subjects, ∀ path,
        SameContent g₁ g₂ (nameIn urns₁ s₁.subjects) (nameIn urns₂ s₂.subjects) s₁.subjects t
          path) := by
  constructor
  · rw [exists_rebuild_iff hg.consistent hfresh₁, exists_rebuild_iff hg.consistent hfresh₂]
    exact ⟨fun ⟨hfree, hfits⟩ ↦ ⟨h.takenIri?_eq_none hfree, h.fits hfits⟩,
      fun ⟨hfree, hfits⟩ ↦ ⟨h.symm.takenIri?_eq_none hfree, h.symm.fits hfits⟩⟩
  intro summary₁ g₁ summary₂ g₂ hg₁ hg₂
  have hids₁ := nodeIds_of_rebuild hg₁
  have hids₂ := nodeIds_of_rebuild hg₂
  obtain ⟨r₁, taken₁, rfl, hlacks₁, hcount₁, hadmits₁, hfull₁, h₁⟩ :=
    exists_holds_of_rebuild hg.consistent hg₁
  obtain ⟨r₂, taken₂, rfl, hlacks₂, hcount₂, hadmits₂, hfull₂, h₂⟩ :=
    exists_holds_of_rebuild hg.consistent hg₂
  have hlength : ∀ t path,
      (objectsIn taken₁ t path).length = (objectsIn taken₂ t path).length := by
    intro t path
    rw [hadmits₁, hadmits₂, h.chainOf_eq, (h.perm_objects t path).length_eq]
  have htriples : s₁.store.triples.toList.length = s₂.store.triples.toList.length :=
    ((List.perm_ext_iff_of_nodup s₁.store.distinct s₂.store.distinct).2 h.triples).length_eq
  have hdropped : summary₁.dropped = summary₂.dropped := by
    have := length_eq_of_objectsIn hlength
    omega
  refine ⟨h.perm_subjects, hids₁, hids₂, hdropped, fun t ht ↦ ?_, fun hzero t ht path ↦ ?_⟩
  · have hlack₁ := hlacks₁ t ht
    have hlack₂ := hlacks₂ t (h.mem_subjects.1 ht)
    obtain ⟨hcls, hvalues, hedges⟩ := sameShape_of_holds h h₁ h₂ hlength ht
    constructor
    · rw [node?_beside hlack₁, node?_beside hlack₂]
      exact hcls
    · intro path
      rw [entriesAt_beside hlack₁, entriesAt_beside hlack₂]
      exact hvalues path
    · intro path
      rw [targetsAt_beside hlack₁, targetsAt_beside hlack₂]
      exact hedges path
  · have ht' := h.mem_subjects.1 ht
    have hperm : (objectsIn taken₁ t path).Perm (objectsIn taken₂ t path) := by
      rw [hfull₁ hzero t ht, hfull₂ (hdropped ▸ hzero) t ht']
      exact h.perm_objects t path
    obtain ⟨hvalues, htargets⟩ := sameContent_of_holds h h₁ h₂ ht hperm
    constructor
    · rw [entriesAt_beside (hlacks₁ t ht), entriesAt_beside (hlacks₂ t ht')]
      exact hvalues
    · rw [targetsAt_beside (hlacks₁ t ht), targetsAt_beside (hlacks₂ t ht')]
      exact htargets

def lampTriples : List Triple :=
  [⟨.iri "https://x/lamp", rdfType, .iri "https://x/Element"⟩,
    ⟨.iri "https://x/lamp", "https://x/lit", .typed "true" xsdBoolean⟩,
    ⟨.iri "https://x/lamp", "https://x/part", .blank "dp"⟩,
    ⟨.iri "https://x/lamp", "https://x/part", .blank "dq"⟩,
    ⟨.blank "dp", rdfType, .iri "https://x/Part"⟩,
    ⟨.blank "dq", rdfType, .iri "https://x/Part"⟩]

def statementsOf (triples : List Triple) : Statements :=
  { store := .ofList triples, labels := [], order := [], dots := .null }

theorem reordered_statementsOf {triples₁ triples₂ : List Triple} (h : triples₁.Perm triples₂)
    (htypes : ∀ u ∈ triples₁,
      ((statementsOf triples₁).store.objects u.subject rdfType).length ≤ 1) :
    Reordered (statementsOf triples₁) (statementsOf triples₂) where
  triples u := Store.mem_ofList.trans (h.mem_iff.trans Store.mem_ofList.symm)
  types t := by
    cases hobjects : (statementsOf triples₁).store.objects t rdfType with
    | nil => exact Nat.zero_le 1
    | cons o more =>
      have ho : o ∈ (statementsOf triples₁).store.objects t rdfType :=
        hobjects ▸ List.mem_cons_self
      exact hobjects ▸ htypes _ (Store.mem_ofList.1 (Store.mem_objects.1 ho))

theorem freshNames_statementsOf {triples : List Triple}
    (h : ∀ u ∈ triples, ∀ k, u.subject ≠ .iri (lampUrns k)) :
    FreshNames lampGraph (statementsOf triples) lampUrns where
  injective _ _ h := Number.append_toString_injective h
  unused k := by
    have hids : ∀ n ∈ lampGraph.nodes, n.id.toList.take 4 ≠ "urn:".toList := by decide +kernel
    refine node?_eq_none_iff.2 fun n hn heq ↦ hids n hn ?_
    rw [heq, lampUrns, String.toList_append]
    rfl
  foreign k hk := by
    obtain ⟨u, hu, hsubject⟩ := Statements.mem_subjects.1 hk
    exact h u (Store.mem_ofList.1 hu) k hsubject

/-- The lamp is rebuilt beside another one from its statements in two orders. -/
theorem rebuild_reordered_lampTriples :
    ∃ summary₁ g₁ summary₂ g₂,
      rebuild lampGraph {} (statementsOf lampTriples) {} lampUrns = .ok (summary₁, g₁) ∧
      rebuild lampGraph {} (statementsOf lampTriples.reverse) {} lampUrns = .ok (summary₂, g₂) ∧
      summary₁.nodeIds ≠ summary₂.nodeIds ∧ summary₁.dropped = 0 ∧
      ∀ t ∈ (statementsOf lampTriples).subjects, ∀ path,
        SameContent g₁ g₂ (nameIn lampUrns (statementsOf lampTriples).subjects)
          (nameIn lampUrns (statementsOf lampTriples.reverse).subjects)
          (statementsOf lampTriples).subjects t path := by
  have hsame : Reordered (statementsOf lampTriples) (statementsOf lampTriples.reverse) :=
    reordered_statementsOf (List.reverse_perm _).symm (by decide +kernel)
  have hforeign : ∀ u ∈ lampTriples, ∀ k, u.subject ≠ .iri (lampUrns k) := by
    have hsubjects : ∀ u ∈ lampTriples, ∀ iri ∈ u.subject.iri?, iri.toList.take 4 ≠ "urn:".toList := by
      decide +kernel
    intro u hu k heq
    refine hsubjects u hu (lampUrns k) (heq ▸ rfl) ?_
    rw [lampUrns, String.toList_append]
    rfl
  have hfresh := freshNames_statementsOf hforeign
  have hfresh' : FreshNames lampGraph (statementsOf lampTriples.reverse) lampUrns :=
    freshNames_statementsOf fun u hu ↦ hforeign u (List.mem_reverse.1 hu)
  have hcheck : (rebuild lampGraph {} (statementsOf lampTriples) {} lampUrns).toOption.bind
      (fun result₁ ↦
        (rebuild lampGraph {} (statementsOf lampTriples.reverse) {} lampUrns).toOption.map
          fun result₂ ↦ decide (result₁.1.nodeIds ≠ result₂.1.nodeIds ∧ result₁.1.dropped = 0)) =
      some true := by
    decide +kernel
  obtain ⟨-, hagree⟩ := rebuild_reordered reachable_lampGraph hsame hfresh hfresh' {} {}
  cases hg₁ : rebuild lampGraph {} (statementsOf lampTriples) {} lampUrns with
  | error error =>
    rw [hg₁] at hcheck
    cases hcheck
  | ok result₁ =>
    cases hg₂ : rebuild lampGraph {} (statementsOf lampTriples.reverse) {} lampUrns with
    | error error =>
      rw [hg₁, hg₂] at hcheck
      cases hcheck
    | ok result₂ =>
      rw [hg₁, hg₂] at hcheck
      obtain ⟨hids, hzero⟩ := of_decide_eq_true (Option.some.inj hcheck)
      obtain ⟨-, -, -, -, -, hcontent⟩ := hagree _ _ _ _ hg₁ hg₂
      exact ⟨_, _, _, _, rfl, rfl, hids, hzero, hcontent hzero⟩

end OntoGraph.Document
