import OntoGraph.Document.Export
import OntoGraph.Document.Import
import OntoGraph.Proofs.Json.Doubles

/-!
# The text of an exported document

The objects for the subjects of a document have no numbers and are in normal form, so they are read
back as they are. The places of the nodes are numbers, which are read back as numbers.
-/

namespace OntoGraph.Document

open Json OntoGraph.Graph Rdf

/-! ## Subjects -/

theorem isPlain_compactValue (c : TermContext) (definition : Option TermDefinition) (term : Term)
    (depth : Nat) : IsPlain (depth + 1) (compactValue c definition term) := by
  have hsingle : ∀ name text, IsPlain (depth + 1) (.object [(name, .string text)]) := by
    intro name text
    refine isPlain_object (List.pairwise_singleton _ _) fun member hmember ↦ ?_
    rw [List.mem_singleton.1 hmember]
    exact isPlain_string depth text
  have hpair : ∀ name text text', name < "@value" →
      IsPlain (depth + 1) (.object [(name, .string text), ("@value", .string text')]) := by
    intro name text text' hlt
    refine isPlain_object (List.pairwise_pair.2 hlt) fun member hmember ↦ ?_
    rcases List.mem_pair.1 hmember with rfl | rfl
    · exact isPlain_string depth text
    · exact isPlain_string depth text'
  unfold compactValue
  dsimp only
  split
  · split
    · exact isPlain_string _ _
    · exact isPlain_string _ _
    · exact hsingle _ _
  · split
    · exact isPlain_string _ _
    · exact hsingle _ _
  · exact hpair "@language" _ _ (by decide)
  · split
    · exact isPlain_bool _ _
    · split
      · exact isPlain_string _ _
      · exact hpair "@type" _ _ (by decide)

theorem isPlain_unlessSingle {values : List Json}
    (h : ∀ value ∈ values, ∀ depth, IsPlain (depth + 1) value) (depth : Nat) :
    IsPlain (depth + 2) (unlessSingle values) := by
  fun_cases unlessSingle values with
  | case1 value => exact h value (List.mem_singleton_self _) (depth + 1)
  | case2 => exact isPlain_array fun value hvalue ↦ h value hvalue depth

theorem mem_addValue {groups : List (String × List Json)} {key : String} {value : Json}
    {group : String × List Json} (h : group ∈ addValue groups key value) {v : Json}
    (hv : v ∈ group.2) : v = value ∨ ∃ old ∈ groups, v ∈ old.2 := by
  induction groups with
  | nil =>
    rw [List.mem_singleton.1 h] at hv
    exact .inl (List.mem_singleton.1 hv)
  | cons first rest ih =>
    obtain ⟨k, values⟩ := first
    unfold addValue at h
    split at h
    · rcases List.mem_cons.1 h with rfl | h
      · rcases List.mem_append.1 hv with hv | hv
        · exact .inr ⟨_, List.mem_cons_self, hv⟩
        · exact .inl (List.mem_singleton.1 hv)
      · exact .inr ⟨group, List.mem_cons_of_mem _ h, hv⟩
    · rcases List.mem_cons.1 h with rfl | h
      · exact .inr ⟨_, List.mem_cons_self, hv⟩
      · refine (ih h).imp id ?_
        rintro ⟨old, hold, hv⟩
        exact ⟨old, List.mem_cons_of_mem _ hold, hv⟩

theorem isPlain_compactSubject (c : TermContext) (store : Store) (subject : Term) (depth : Nat) :
    IsPlain (depth + 3) (compactSubject c store subject) := by
  unfold compactSubject
  dsimp only
  refine isPlain_ofMembers fun member hmember ↦ ?_
  rcases List.mem_cons.1 hmember with rfl | hmember
  · exact isPlain_string _ _
  rcases List.mem_cons.1 hmember with rfl | hmember
  · refine isPlain_unlessSingle (fun value hvalue depth ↦ ?_) depth
    obtain ⟨iri, -, rfl⟩ := List.mem_map.1 hvalue
    exact isPlain_string _ _
  · obtain ⟨group, hgroup, rfl⟩ := List.mem_map.1 hmember
    have hgroups := List.foldlRecOn (motive := fun groups : List (String × List Json) ↦
      ∀ group ∈ groups, ∀ v ∈ group.2, ∀ depth, IsPlain (depth + 1) v)
      ((store.triplesOf subject).toList.filter (·.predicate ≠ rdfType))
      (fun groups t ↦ addValue groups (predicateKey c t.predicate).1
        (compactValue c (predicateKey c t.predicate).2 t.object))
      (b := []) (by rintro _ ⟨⟩) ?_
    · exact isPlain_unlessSingle (hgroups group hgroup) depth
    · intro groups ih t _ group hgroup v hv depth
      rcases mem_addValue hgroup hv with rfl | ⟨old, hold, hv⟩
      · exact isPlain_compactValue c _ _ depth
      · exact ih old hold v hv depth

/-! ## Places -/

theorem isNumber_of_offset {grid : Float × Float} {origin position : Graph.Position} :
    ∀ n ∈ (offset grid origin position).numbers, IsNumber n := by
  intro n hn
  unfold offset at hn
  rw [numbers] at hn
  obtain ⟨member, hmember, hn⟩ := mem_numbersOfMembers hn
  rcases List.mem_pair.1 hmember with rfl | rfl
  · exact isNumber_of_ofFloat _ n hn
  · exact isNumber_of_ofFloat _ n hn

theorem normalizeWithin?_offset_isSome (depth : Nat) (grid : Float × Float)
    (origin position : Graph.Position) :
    (normalizeWithin? (depth + 1) (offset grid origin position)).isSome = true := by
  unfold offset
  rw [normalizeWithin?, Option.isSome_map]
  refine normalizeMembers?_isSome fun member hmember ↦ ?_
  rcases List.mem_pair.1 hmember with rfl | rfl
  · exact normalizeWithin?_ofFloat_isSome depth _
  · exact normalizeWithin?_ofFloat_isSome depth _

/-- The places are an object whose members are offsets. -/
theorem dots_eq (grid : Float × Float) (order : List (Node × Term)) :
    ∃ members, dots grid order = .object members ∧
      ∀ member ∈ members, ∃ origin position, member.2 = offset grid origin position := by
  cases order with
  | nil => exact ⟨[], rfl, by rintro _ ⟨⟩⟩
  | cons first rest =>
    refine ⟨_, ofMembers_eq _, fun member hmember ↦ ?_⟩
    obtain ⟨⟨n, subject⟩, -, rfl⟩ := List.mem_map.1 (SortedMap.mem_ofList hmember)
    exact ⟨_, _, rfl⟩

theorem isNumber_of_dots (grid : Float × Float) (order : List (Node × Term)) :
    ∀ n ∈ (dots grid order).numbers, IsNumber n := by
  obtain ⟨members, heq, hmembers⟩ := dots_eq grid order
  intro n hn
  rw [heq, numbers] at hn
  obtain ⟨member, hmember, hn⟩ := mem_numbersOfMembers hn
  obtain ⟨origin, position, hoffset⟩ := hmembers member hmember
  rw [hoffset] at hn
  exact isNumber_of_offset n hn

theorem normalizeWithin?_dots_isSome (depth : Nat) (grid : Float × Float)
    (order : List (Node × Term)) :
    (normalizeWithin? (depth + 2) (dots grid order)).isSome = true := by
  obtain ⟨members, heq, hmembers⟩ := dots_eq grid order
  rw [heq, normalizeWithin?, Option.isSome_map]
  refine normalizeMembers?_isSome fun member hmember ↦ ?_
  obtain ⟨origin, position, hoffset⟩ := hmembers member hmember
  rw [hoffset]
  exact normalizeWithin?_offset_isSome depth grid origin position

/-! ## Documents -/

/-- An exported document is read back, but for the spelling of the places. -/
theorem readDocument?_exportNodes (g : InstanceGraph) (c : TermContext)
    (config : Settings.Configuration) (nodes : List Node) :
    ∃ subjects dots places,
      (exportNodes g c config nodes).document = .object [("@context", .string config.contextUrl),
        ("@graph", .array subjects), ("dots", dots)] ∧
      readDocument? (exportNodes g c config nodes).text =
        some (.object [("@context", .string config.contextUrl), ("@graph", .array subjects),
          ("dots", places)]) := by
  obtain ⟨places, hplaces⟩ := Option.isSome_iff_exists.1
    (normalizeWithin?_dots_isSome 124 config.grid (exportStore g nodes).1)
  let subjects := (exportStore g nodes).1.map fun p ↦
    compactSubject c (exportStore g nodes).2 p.2
  have hsubjects : IsPlain 126 (.array subjects) := by
    refine isPlain_array fun item hitem ↦ ?_
    obtain ⟨⟨n, subject⟩, -, rfl⟩ := List.mem_map.1 hitem
    exact isPlain_compactSubject c _ subject 122
  have hnumbers : ∀ n ∈ (exportNodes g c config nodes).document.numbers, IsNumber n := by
    intro n hn
    change n ∈ numbers (.object _) at hn
    rw [numbers] at hn
    obtain ⟨member, hmember, hn⟩ := mem_numbersOfMembers hn
    simp only [List.mem_cons, List.not_mem_nil, or_false] at hmember
    rcases hmember with rfl | rfl | rfl
    · rw [(isPlain_string 0 _).numbers] at hn
      cases hn
    · change n ∈ (Json.array subjects).numbers at hn
      rw [hsubjects.numbers] at hn
      cases hn
    · exact isNumber_of_dots config.grid _ n hn
  refine ⟨subjects, _, places, rfl, ?_⟩
  rw [readDocument?, ExportedDocument.text, read?_indented hnumbers, Option.bind_some]
  have hmembers : normalizeMembers? 126 [("@context", .string config.contextUrl),
      ("@graph", .array subjects), ("dots", dots config.grid (exportStore g nodes).1)] =
        some [("@context", .string config.contextUrl), ("@graph", .array subjects),
          ("dots", places)] := by
    simp only [normalizeMembers?, (isPlain_string 126 config.contextUrl).normal, hsubjects.normal,
      hplaces, Option.bind_eq_bind, Option.bind_some, Option.pure_def]
  change normalizeWithin? (126 + 1) (.object _) = _
  rw [normalizeWithin?]
  change (normalizeMembers? 126 [("@context", .string config.contextUrl),
    ("@graph", .array subjects), ("dots", dots config.grid (exportStore g nodes).1)]).map _ = _
  have hnames : ["@context", "@graph", "dots"].Pairwise (· < ·) := by decide
  rw [hmembers, Option.map_some, ofMembers_of_sorted]
  exact List.pairwise_map.1 hnames

/-- The document that is read as linked data: without the places, and with IRIs for labels. -/
def linkedDocument (c : TermContext) (document : Json) : Json :=
  protectLabels c false (withoutMember "dots" document)

/-- The statements of an exported document are what reading it as linked data gives. -/
theorem readStatements_exportNodes (g : InstanceGraph) (c : TermContext)
    (config : Settings.Configuration) (nodes : List Node) {expanded : Store}
    (h : LinkedData.toStore? (SortedMap.insert ∅ config.contextUrl c.document.compact)
      (linkedDocument c (exportNodes g c config nodes).document) = some expanded) :
    ∃ s, readStatements c config (exportNodes g c config nodes).text = .ok s ∧
      s.store = (restoreLabels expanded).1 := by
  obtain ⟨subjects, dots, places, hdocument, hread⟩ := readDocument?_exportNodes g c config nodes
  have hbody : ∀ places, withoutMember "dots" (.object [("@context", .string config.contextUrl),
      ("@graph", .array subjects), ("dots", places)]) =
        .object [("@context", .string config.contextUrl), ("@graph", .array subjects)] := by
    intro places
    simp [withoutMember]
  have hcontext : namesContext config (.object [("@context", .string config.contextUrl),
      ("@graph", .array subjects), ("dots", places)]) = true := by
    simp [namesContext, member?, members?]
  rw [linkedDocument, hdocument, hbody] at h
  unfold readStatements
  rw [hread]
  simp only [hcontext, hbody, h]
  exact ⟨_, rfl, rfl⟩

end OntoGraph.Document
