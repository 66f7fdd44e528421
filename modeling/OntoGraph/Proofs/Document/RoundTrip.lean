import OntoGraph.Proofs.Document.ExportedText
import OntoGraph.Proofs.Document.ExportedTriples
import OntoGraph.Proofs.Document.Rebuilt

/-!
# Documents and back

A graph that is written as a document and read back is the same graph up to the names of nodes that
are no elements. Of the layer that reads linked data it is assumed that it gives the triples of the
exported document back, with other labels for blank nodes.
-/

namespace OntoGraph.Rdf

@[simp] theorem Term.isBlank_relabel (f : String → String) (t : Term) :
    (t.relabel f).isBlank = t.isBlank := by
  cases t <;> rfl

/-- Does the first store hold the triples of the second one under other labels, and for each
subject and predicate in the same order? -/
structure Store.Relabels (restored exported : Store) (f : String → String) : Prop where
  injective : Function.Injective f
  triples : ∀ t ∈ restored.triples.toList, t ∈ exported.triples.toList.map (·.relabel f)
  objects : ∀ t ∈ exported.triples.toList,
    restored.objects (t.subject.relabel f) t.predicate =
      (exported.objects t.subject t.predicate).map (·.relabel f)

theorem Store.Relabels.objects_eq {restored exported : Store} {f : String → String}
    (h : restored.Relabels exported f) (subject : Term) (predicate : String) :
    restored.objects (subject.relabel f) predicate =
      (exported.objects subject predicate).map (·.relabel f) := by
  by_cases hsome : ∃ t ∈ exported.triples.toList, t.subject = subject ∧ t.predicate = predicate
  · obtain ⟨t, ht, rfl, rfl⟩ := hsome
    exact h.objects t ht
  · have hexported : exported.objects subject predicate = [] := by
      rw [List.eq_nil_iff_forall_not_mem]
      exact fun o ho ↦ hsome ⟨_, mem_objects.1 ho, rfl, rfl⟩
    have hrestored : restored.objects (subject.relabel f) predicate = [] := by
      rw [List.eq_nil_iff_forall_not_mem]
      intro o ho
      obtain ⟨t, ht, heq⟩ := List.mem_map.1 (h.triples _ (mem_objects.1 ho))
      obtain ⟨hsubject, hpredicate, -⟩ := Triple.mk.inj heq
      exact hsome ⟨t, ht, Term.relabel_injective h.injective hsubject, hpredicate⟩
    rw [hexported, hrestored]
    rfl

/-- A store with the very triples, under other labels, has their objects in the same order. -/
theorem Store.relabels_of_triples {restored exported : Store} {f : String → String}
    (hf : Function.Injective f)
    (h : restored.triples.toList = exported.triples.toList.map (·.relabel f)) :
    restored.Relabels exported f where
  injective := hf
  triples := fun t ht ↦ h ▸ ht
  objects := by
    intro t _
    rw [objects_eq, objects_eq, h, List.filter_map, List.map_map, List.map_map]
    congr 1
    refine List.filter_congr fun other _ ↦ ?_
    simp [Triple.relabel, (Term.relabel_injective hf).eq_iff]

end OntoGraph.Rdf

namespace OntoGraph.Document

open Ontology OntoGraph.Graph Rdf InstanceGraph

variable {g : InstanceGraph}

theorem relabel_of_entryTerm {e : Entry} {o : Term} (f : String → String)
    (h : entryTerm? e = some o) : o.relabel f = o := by
  unfold entryTerm? at h
  obtain ⟨v, -, h⟩ := Option.bind_eq_some_iff.1 h
  split at h
  · cases h
    rfl
  · cases h
    rfl
  · cases h

/-- Statements with the exported triples, under other labels, describe the graph. -/
theorem describes_of_relabels {s : Statements} {f : String → String} (hg : g.Consistent)
    (hp : g.Portable) (h : s.store.Relabels (exportStore g g.nodes).2 f) :
    s.Describes g fun n ↦ (subjectOf g.nodes n).relabel f := by
  constructor
  case injective =>
    intro n hn m hm heq
    exact subjectOf_injective hg.ids hn hm (Term.relabel_injective h.injective heq)
  case element =>
    intro n hn hkind
    rw [subjectOf_element hg.ids hn hkind]
    rfl
  case blank =>
    intro n hn hkind
    simpa using isBlank_subjectOf hg.ids hn hkind
  case declared =>
    intro t ht
    obtain ⟨t', ht', rfl⟩ := List.mem_map.1 (h.triples t ht)
    rw [triples_exportStore hg hp] at ht'
    obtain ⟨n, hn, ht'⟩ := List.mem_flatMap.1 ht'
    have hpredicate := predicate_of_mem_triplesFor hg hp hn ht'
    refine ⟨n, hn, ?_, hpredicate⟩
    rw [← subject_of_mem_triplesFor ht']
    rfl
  case types =>
    intro n hn
    rw [h.objects_eq, objects_rdfType hg hp hn]
    rfl
  case values =>
    intro n hn path cp hcp hobject
    rw [h.objects_eq, objects_of_value hg hp hn hcp hobject]
    have hkept : ∀ o ∈ (g.entriesAt n.id path).filterMap entryTerm?, o.relabel f = o := by
      intro o ho
      obtain ⟨e, -, he⟩ := List.mem_filterMap.1 ho
      exact relabel_of_entryTerm f he
    rw [List.map_congr_left hkept, List.map_id']
  case edges =>
    intro n hn path cp hcp hobject
    rw [h.objects_eq, objects_of_object hg hp hn hcp hobject, List.map_filterMap]
    simp only [Option.map_map]
    rfl

/-! ## Reading what was written -/

/-- Does reading a document as linked data give the triples of a store, under other labels? -/
def KeepsTriples (c : TermContext) (config : Settings.Configuration) (document : Json)
    (store : Store) : Prop :=
  ∃ expanded f,
    LinkedData.toStore? (SortedMap.insert ∅ config.contextUrl c.document.compact)
      (linkedDocument c document) = some expanded ∧
    (restoreLabels expanded).1.Relabels store f

/-- A valid graph that is written and read back into an empty graph loses nothing: it is the same
graph under other names for the nodes that are no elements. -/
theorem importDocument_exportGraph (hg : g.Reachable) (hclean : g.validate.isClean = true)
    (hp : g.Portable) (c : TermContext) (config : Settings.Configuration)
    (hlayer : KeepsTriples c config (exportGraph g c config).document (exportGraph g c config).store)
    (reference : Position) {urns : Nat → String} (hurns : Function.Injective urns)
    (hnew : ∀ k, ∀ n ∈ g.nodes, urns k ≠ n.id) :
    ∃ summary g' name,
      importDocument { model := g.model, settings := g.settings } c config
        (exportGraph g c config).text reference urns = .ok (summary, g') ∧
      summary.dropped = 0 ∧ g.Isomorphic g' name := by
  obtain ⟨expanded, f, hexpanded, hrelabels⟩ := hlayer
  obtain ⟨s, hs, hstore⟩ := readStatements_exportNodes g c config g.nodes hexpanded
  rw [← hstore] at hrelabels
  obtain ⟨summary, g', name, hrebuild, hresult⟩ := rebuild_of_describes
    (describes_of_relabels hg.consistent hp hrelabels) hg.consistent hp hclean hg.judged hurns hnew
  refine ⟨summary, g', name, ?_, hresult⟩
  unfold importDocument
  rw [exportGraph, hs]
  exact hrebuild

/-! ## A small document -/

def nameProperty : ClassProperty :=
  { parentClass := "https://x/Element"
    path := "https://x/name"
    name := "name"
    minCount := some 1
    maxCount := some 1
    constraint := .literal .string }

def noteProperty : ClassProperty :=
  { parentClass := "https://x/Element"
    path := "https://x/note"
    name := "note"
    constraint := .object "https://x/Note" }

/-- Elements have a name and notes, which are no elements. -/
def noteModel : Model :=
  .ofProfiles {} (.ofList [("Core",
    { classes := .ofList [
        ("Element",
          { iri := "https://x/Element"
            name := "Element"
            profileName := "Core"
            properties := .ofList [("name", nameProperty), ("note", noteProperty)] }),
        ("Note", { iri := "https://x/Note", name := "Note", profileName := "Core" })] })])

def noteOperations : List Operation :=
  [.addNodeWithId "https://x/ada" "https://x/Element" {},
    .addNode "urn:uuid:1" "https://x/Note" { x := 260.0 },
    .setEntry "https://x/ada" "entry-0" (some (.text "Ada")),
    .addEdge "https://x/ada" "urn:uuid:1" noteProperty]

def noteGraph : InstanceGraph := run { model := noteModel } noteOperations

def noteContext : TermContext :=
  { terms := .ofList [("note", { iri := "https://x/note", coercion := some .id })]
    termsByIri := .ofList [("https://x/note", "note")]
    idAlias := some "id" }

theorem reachable_noteGraph : noteGraph.Reachable :=
  ⟨noteModel, {}, noteOperations, ⟨trivial, rfl, trivial, trivial, trivial⟩, rfl⟩

theorem portable_noteGraph : noteGraph.Portable where
  valued := by decide +kernel
  entries := by decide +kernel
  edges := by decide +kernel
  paths := by decide +kernel
  untyped := by decide +kernel
  concrete := by decide +kernel
  room := by
    have hroom : ∀ n ∈ noteGraph.nodes, ∀ cp ∈ n.chain.declarations,
        (cp.maxCount.all fun max ↦ decide (noteGraph.entryCount n.id cp.path ≤ max)) = true := by
      decide +kernel
    intro n hn cp hcp max hmax
    have hall := hroom n hn cp hcp
    rw [hmax] at hall
    exact of_decide_eq_true hall

theorem keepsTriples_noteGraph :
    KeepsTriples noteContext {} (exportGraph noteGraph noteContext {}).document
      (exportGraph noteGraph noteContext {}).store := by
  have hlabels : Function.Injective fun label : String ↦ "d" ++ label :=
    fun _ _ h ↦ (String.append_right_inj _).1 h
  have hread : (LinkedData.toStore?
      (SortedMap.insert ∅ ({} : Settings.Configuration).contextUrl noteContext.document.compact)
      (linkedDocument noteContext (exportGraph noteGraph noteContext {}).document)).map
        (fun expanded ↦ (restoreLabels expanded).1.triples.toList) =
      some ((exportGraph noteGraph noteContext {}).store.triples.toList.map
        (·.relabel ("d" ++ ·))) := by
    decide +kernel
  obtain ⟨expanded, hexpanded, htriples⟩ := Option.map_eq_some_iff.1 hread
  exact ⟨expanded, _, hexpanded, Store.relabels_of_triples hlabels htriples⟩

theorem importDocument_noteGraph :
    noteGraph.nodes.map (·.isElement) = [true, false] ∧ noteGraph.edges.length = 1 ∧
      ∃ summary g' name,
        importDocument { model := noteModel } noteContext {}
          (exportGraph noteGraph noteContext {}).text {} (fun k : Nat ↦ "urn:uuid:new-" ++ toString k) =
            .ok (summary, g') ∧
        summary.dropped = 0 ∧ noteGraph.Isomorphic g' name := by
  have hurns : Function.Injective fun k : Nat ↦ "urn:uuid:new-" ++ toString k :=
    fun _ _ h ↦ Number.append_toString_injective h
  have hnew : ∀ k : Nat, ∀ n ∈ noteGraph.nodes, "urn:uuid:new-" ++ toString k ≠ n.id := by
    have hids : ∀ n ∈ noteGraph.nodes, n.id.toList.take 10 ≠ "urn:uuid:n".toList := by
      decide +kernel
    intro k n hn heq
    refine hids n hn ?_
    rw [← heq, String.toList_append]
    rfl
  refine ⟨by decide +kernel, by decide +kernel, ?_⟩
  exact importDocument_exportGraph reachable_noteGraph (by decide +kernel) portable_noteGraph
    noteContext {} keepsTriples_noteGraph {} hurns hnew

end OntoGraph.Document
