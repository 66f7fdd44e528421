import OntoGraph.Proofs.Document.CompactedSubject
import OntoGraph.Proofs.Document.ExportedCounts

/-!
# The members of exported objects

An exported graph has one object for each node. The terms of a derived context are made of the names
of an ontology, and its keys for identifiers and types are fixed. So whether something is lost in
the objects is a question of the names: it is not if the properties of each node have different
keys, and none of them has one of the fixed keys.
-/

namespace OntoGraph.Document

open Ontology OntoGraph.Graph Rdf InstanceGraph

/-- The paths for which a node is exported with values or edges. -/
def exportedPaths (g : InstanceGraph) (n : Node) : List String :=
  ((n.entries.filter (·.value.isSome)).map (·.path) ++ (g.outEdges n.id).map (·.path)).filter
    (· ≠ rdfType)

instance (c : TermContext) (taken paths : List String) : Decidable (NamesApart c taken paths) :=
  decidable_of_iff (_ ∧ _) ⟨fun ⟨apart, free⟩ ↦ ⟨apart, free⟩, fun ⟨apart, free⟩ ↦ ⟨apart, free⟩⟩

section

variable {g : InstanceGraph} {n : Node}

/-- A path has objects in the export of a node exactly if the node has values or edges of it. -/
theorem exists_object_iff (hg : g.Consistent) (hn : n ∈ g.nodes) {path : String}
    (hpath : path ≠ rdfType) :
    (∃ o, o ∈ (exportStore g g.nodes).2.objects (subjectOf g.nodes n) path) ↔
      path ∈ exportedPaths g n := by
  rw [exportedPaths, List.mem_filter, List.mem_append]
  constructor
  · rintro ⟨o, ho⟩
    refine ⟨?_, decide_eq_true hpath⟩
    rcases (mem_objects_exportStore hg.ids hn).1 ho with
      ⟨htype, -⟩ | ⟨e, he, hterm⟩ | ⟨target, htarget, -⟩
    · exact absurd htype hpath
    · left
      obtain ⟨he, heq⟩ := List.mem_filter.1 he
      apply List.mem_map.2 ⟨e, List.mem_filter.2 ⟨he, _⟩, of_decide_eq_true heq⟩
      have hvalue := value_of_entryTerm hterm
      cases hv : e.value with
      | none =>
        rw [hv] at hvalue
        cases hvalue
      | some v => rfl
    · right
      obtain ⟨e, he, -⟩ := List.mem_map.1 htarget
      obtain ⟨he, heq⟩ := List.mem_filter.1 he
      exact List.mem_map.2 ⟨e, he, of_decide_eq_true heq⟩
  · rintro ⟨hmem | hmem, -⟩
    · obtain ⟨e, he, rfl⟩ := List.mem_map.1 hmem
      obtain ⟨he, hvalued⟩ := List.mem_filter.1 he
      obtain ⟨o, ho⟩ := Option.isSome_iff_exists.1
        (isSome_entryTerm? (hg.entries n hn e he).1 hvalued)
      refine ⟨o, (mem_objects_exportStore hg.ids hn).2 (.inr (.inl ⟨e, ?_, ho⟩))⟩
      exact List.mem_filter.2 ⟨he, decide_eq_true rfl⟩
    · obtain ⟨e, he, rfl⟩ := List.mem_map.1 hmem
      obtain ⟨-, target, htarget, -, hid, -⟩ := hg.outEdge hn he
      refine ⟨subjectOf g.nodes target,
        (mem_objects_exportStore hg.ids hn).2 (.inr (.inr ⟨e.target, ?_, ?_⟩))⟩
      · exact List.mem_map.2 ⟨e, List.mem_filter.2 ⟨he, decide_eq_true rfl⟩, rfl⟩
      · rw [← hid]
        exact get?_assignSubjects hg.ids htarget

/-- The predicates of an exported node, its types apart, are its exported paths. -/
theorem mem_predicates_iff (hg : g.Consistent) (hn : n ∈ g.nodes) {path : String} :
    path ∈ (valueTriples (exportStore g g.nodes).2 (subjectOf g.nodes n)).map (·.predicate) ↔
      path ∈ exportedPaths g n := by
  constructor
  · intro hmem
    obtain ⟨t, ht, rfl⟩ := List.mem_map.1 hmem
    obtain ⟨ht, htype⟩ := List.mem_filter.1 ht
    rw [← exists_object_iff hg hn (of_decide_eq_true htype)]
    exact ⟨t.object, List.mem_map.2 ⟨t, List.mem_filter.2 ⟨ht, decide_eq_true rfl⟩, rfl⟩⟩
  · intro hmem
    have htype : path ≠ rdfType := of_decide_eq_true (List.mem_filter.1 hmem).2
    obtain ⟨o, ho⟩ := (exists_object_iff hg hn htype).2 hmem
    obtain ⟨t, hfiltered, -⟩ := List.mem_map.1 ho
    obtain ⟨ht, hpath⟩ := List.mem_filter.1 hfiltered
    obtain rfl : t.predicate = path := of_decide_eq_true hpath
    exact List.mem_map_of_mem (List.mem_filter.2 ⟨ht, decide_eq_true htype⟩)

/-- A node is exported only with paths that its chain declares. -/
theorem exportedPaths_subset (hg : g.Consistent) (hn : n ∈ g.nodes) :
    exportedPaths g n ⊆ n.chain.declarations.map (·.path) := by
  intro path hmem
  rcases List.mem_append.1 (List.mem_filter.1 hmem).1 with hmem | hmem
  · obtain ⟨e, he, rfl⟩ := List.mem_map.1 hmem
    exact List.mem_map_of_mem (hg.entries n hn e (List.mem_filter.1 he).1).2
  · obtain ⟨e, he, rfl⟩ := List.mem_map.1 hmem
    exact List.mem_map_of_mem (hg.outEdge hn he).1

def exportedObject (g : InstanceGraph) (c : TermContext) (n : Node) : Json :=
  compactSubject c (exportStore g g.nodes).2 (subjectOf g.nodes n)

/-- In the export of a graph by a derived context, nothing is overwritten in the object of a node
exactly if its exported paths have different keys, none of which is fixed. -/
theorem overwritesNothing_exportedObject_iff {c : TermContext} (hc : c.Derived)
    (hg : g.Consistent) (hn : n ∈ g.nodes) :
    OverwritesNothing c (exportStore g g.nodes).2 (subjectOf g.nodes n) (exportedObject g c n) ↔
      NamesApart c [identifierKey c (subjectOf g.nodes n), c.typeKey] (exportedPaths g n) := by
  have hkeys : identifierKey c (subjectOf g.nodes n) ≠ c.typeKey := by
    rw [identifierKey, hc.idKey, hc.typeKey]
    split <;> decide
  rw [exportedObject, overwritesNothing_iff hkeys]
  constructor
  · intro h
    exact h.mono (List.Subset.refl _) fun path hpath ↦ (mem_predicates_iff hg hn).2 hpath
  · intro h
    exact h.mono (List.Subset.refl _) fun path hpath ↦ (mem_predicates_iff hg hn).1 hpath

end

/-- Is nothing overwritten in any object of an exported graph? -/
def ExportsInFull (g : InstanceGraph) (c : TermContext) : Prop :=
  ∀ n ∈ g.nodes,
    OverwritesNothing c (exportStore g g.nodes).2 (subjectOf g.nodes n) (exportedObject g c n)

/-- The exported document of a reachable graph over a compiled model, in the context derived from
the model, has one object for each node. Nothing is overwritten in the objects exactly if the
exported paths of each node have different keys, none of which is the key of its identifier or that
of its types. Where the paths that the classes of a model declare have such keys, this holds of
every graph. The key of a path that is known by name is made of its name and that of its profile. -/
theorem exportsInFull_iff {ontology : Store} {m : Model} {g : InstanceGraph}
    (hcompile : compile ontology = .ok m) (hg : g.Reachable) (hmodel : g.model = m)
    (config : Settings.Configuration) :
    let c := TermContext.ofModel m
    (exportGraph g c config).document.member? "@graph" =
      some (.array (g.nodes.map (exportedObject g c))) ∧
    (ExportsInFull g c ↔ ∀ n ∈ g.nodes,
      NamesApart c [identifierKey c (subjectOf g.nodes n), c.typeKey] (exportedPaths g n)) ∧
    ((∀ iri chain, m.chain iri = .ok chain →
        NamesApart c ["@id", "spdxId", "type"] (chain.declarations.map (·.path))) →
      ExportsInFull g c) ∧
    ∀ path ∈ TermContext.entityIris m, (predicateKey c path).1 = TermContext.termOf path := by
  intro c
  have hconsistent := hg.consistent
  have hderived : c.Derived := TermContext.derived_ofModel m
  refine ⟨?_, ?_, ?_, ?_⟩
  · have hgraph : (exportGraph g c config).document.member? "@graph" =
        some (.array ((exportStore g g.nodes).1.map fun pair ↦
          compactSubject c (exportStore g g.nodes).2 pair.2)) := rfl
    rw [hgraph, exportStore_eq hconsistent.ids, List.map_map, ← exportStore_eq hconsistent.ids]
    rfl
  · exact forall₂_congr fun n hn ↦ overwritesNothing_exportedObject_iff hderived hconsistent hn
  · intro hnames n hn
    apply (overwritesNothing_exportedObject_iff hderived hconsistent hn).2
    have hchain := (hconsistent.typed n hn).chain
    rw [hmodel] at hchain
    apply (hnames _ _ hchain).mono _ (exportedPaths_subset hconsistent hn)
    rw [identifierKey, hderived.idKey, hderived.typeKey]
    split <;> decide
  · obtain ⟨-, rfl⟩ := compile_eq_ok_iff.1 hcompile
    intro path hpath
    obtain ⟨definition, -, -, hkey, -⟩ := TermContext.named_compiledModel hpath
    rw [hkey]

def deskOntology (path : String) : Store :=
  .ofList [
    ⟨.iri path, rdfType, .iri owlDatatypeProperty⟩,
    ⟨.iri path, rdfsRange, .iri xsdString⟩,
    ⟨.iri "https://x/Core/Element", rdfType, .iri owlClass⟩,
    ⟨.iri "https://x/Core/Lamp", rdfType, .iri owlClass⟩,
    ⟨.iri "https://x/Core/Lamp", rdfsSubClassOf, .iri "https://x/Core/Element"⟩,
    ⟨.iri "https://x/Core/Lamp", shProperty, .blank "shape"⟩,
    ⟨.blank "shape", "http://www.w3.org/ns/shacl#path", .iri path⟩,
    ⟨.blank "shape", "http://www.w3.org/ns/shacl#datatype", .iri xsdString⟩]

def deskProperty (path : String) : ClassProperty :=
  { parentClass := "https://x/Core/Lamp"
    path
    name := lastSegment path
    constraint := .literal .string }

def deskOperations (path : String) : List Operation :=
  [.addNodeWithId "https://x/lamp" "https://x/Core/Lamp" {},
    .addEntry "https://x/lamp" (deskProperty path) (some (.text "desk"))]

def deskGraph (path : String) : InstanceGraph :=
  run { model := compiledModel (deskOntology path) } (deskOperations path)

theorem reachable_deskGraph (path : String) : (deskGraph path).Reachable :=
  ⟨compiledModel (deskOntology path), {}, deskOperations path, ⟨trivial, trivial, trivial⟩, rfl⟩

/-- A property with a key of its own has a member beside those of the identifier and the type. -/
theorem exportsInFull_deskKind : ∃ m,
    compile (deskOntology "https://x/Core/kind") = .ok m ∧
    (deskGraph "https://x/Core/kind").Reachable ∧ (deskGraph "https://x/Core/kind").model = m ∧
    (deskGraph "https://x/Core/kind").nodes.map (fun n ↦
      ["spdxId", "type", "kind"].map (exportedObject (deskGraph "https://x/Core/kind")
        (TermContext.ofModel m) n).textMember?) =
      [[some "https://x/lamp", some "Lamp", some "desk"]] ∧
    ExportsInFull (deskGraph "https://x/Core/kind") (TermContext.ofModel m) := by
  have hchecks : cycle? (compiledClasses (deskOntology "https://x/Core/kind")) = none ∧
      (deskGraph "https://x/Core/kind").model =
        compiledModel (deskOntology "https://x/Core/kind") ∧
      let c := TermContext.ofModel (compiledModel (deskOntology "https://x/Core/kind"))
      (deskGraph "https://x/Core/kind").nodes.map (fun n ↦ ["spdxId", "type", "kind"].map
        (exportedObject (deskGraph "https://x/Core/kind") c n).textMember?) =
          [[some "https://x/lamp", some "Lamp", some "desk"]] ∧
      ∀ n ∈ (deskGraph "https://x/Core/kind").nodes,
        NamesApart c [identifierKey c (subjectOf (deskGraph "https://x/Core/kind").nodes n),
          c.typeKey] (exportedPaths (deskGraph "https://x/Core/kind") n) := by
    decide +kernel
  obtain ⟨hcycle, hmodel, hmembers, hnames⟩ := hchecks
  have hcompile := compile_eq_ok_iff.2 ⟨hcycle, rfl⟩
  have hreachable := reachable_deskGraph "https://x/Core/kind"
  refine ⟨_, hcompile, hreachable, hmodel, hmembers, ?_⟩
  exact (exportsInFull_iff hcompile hreachable hmodel {}).2.1.2 hnames

/-- A property of the core that is named like the key of the types takes the member of the
types. -/
theorem not_exportsInFull_deskType : ∃ m,
    compile (deskOntology "https://x/Core/type") = .ok m ∧
    (deskGraph "https://x/Core/type").Reachable ∧ (deskGraph "https://x/Core/type").model = m ∧
    (deskGraph "https://x/Core/type").nodes.map (fun n ↦
      (exportedObject (deskGraph "https://x/Core/type") (TermContext.ofModel m) n).textMember?
        "type") = [some "desk"] ∧
    ¬ ExportsInFull (deskGraph "https://x/Core/type") (TermContext.ofModel m) := by
  have hchecks : cycle? (compiledClasses (deskOntology "https://x/Core/type")) = none ∧
      (deskGraph "https://x/Core/type").model =
        compiledModel (deskOntology "https://x/Core/type") ∧
      let c := TermContext.ofModel (compiledModel (deskOntology "https://x/Core/type"))
      (deskGraph "https://x/Core/type").nodes.map (fun n ↦
        (exportedObject (deskGraph "https://x/Core/type") c n).textMember? "type") =
          [some "desk"] ∧
      ∃ n ∈ (deskGraph "https://x/Core/type").nodes,
        ¬ NamesApart c [identifierKey c (subjectOf (deskGraph "https://x/Core/type").nodes n),
          c.typeKey] (exportedPaths (deskGraph "https://x/Core/type") n) := by
    decide +kernel
  obtain ⟨hcycle, hmodel, hmembers, n, hn, hnames⟩ := hchecks
  have hreachable := reachable_deskGraph "https://x/Core/type"
  refine ⟨_, compile_eq_ok_iff.2 ⟨hcycle, rfl⟩, hreachable, hmodel, hmembers, fun hfull ↦ ?_⟩
  have hderived := TermContext.derived_ofModel (compiledModel (deskOntology "https://x/Core/type"))
  exact hnames
    ((overwritesNothing_exportedObject_iff hderived hreachable.consistent hn).1 (hfull n hn))

end OntoGraph.Document
