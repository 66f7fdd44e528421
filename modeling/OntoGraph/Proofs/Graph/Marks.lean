import OntoGraph.Graph.Validation
import OntoGraph.Proofs.Graph.Consistency
import OntoGraph.Proofs.Graph.EntryIds

/-!
# The validity marks of entries

The mark of an entry may be older than the present catalog of options, but it was computed for the
present value of the entry, with the options of some time. So a value that a report finds valid
follows the rule of its datatype. Edits judge by the present catalog, so that marks which are up to
date stay so until the catalog is changed.
-/

namespace OntoGraph.Graph

open Ontology

/-- Is the mark of the entry the one that some catalog of a kind gives to its value? -/
def Entry.JudgedBy (kind : Catalog.OptionCatalog → Prop) (e : Entry) : Prop :=
  ∃ catalog, kind catalog ∧ e.isValid = Graph.isValid catalog e.property e.value

/-- Is the mark of the entry the one that some catalog gives to its value? -/
abbrev Entry.Judged (e : Entry) : Prop := e.JudgedBy fun _ ↦ True

/-- A literal that is marked as valid is accepted by its datatype. -/
theorem Entry.Judged.accepts {e : Entry} {v : Value} {datatype : Datatype} (h : e.Judged)
    (hvalid : e.isValid = true) (hvalue : e.value = some v)
    (hliteral : e.property.constraint = .literal datatype) : datatype.accepts v = true := by
  obtain ⟨catalog, -, hmark⟩ := h
  rw [hvalid, hvalue] at hmark
  unfold Graph.isValid at hmark
  rw [hliteral] at hmark
  exact (Bool.and_eq_true_iff.1 hmark.symm).1

/-- A member of an enumeration that is marked as valid is a text. -/
theorem Entry.Judged.text {e : Entry} {v : Value} {options : List ValueOption} (h : e.Judged)
    (hvalid : e.isValid = true) (hvalue : e.value = some v)
    (henumerated : e.property.constraint = .enumerated options) : v = .text v.lexical := by
  obtain ⟨catalog, -, hmark⟩ := h
  rw [hvalid, hvalue] at hmark
  unfold Graph.isValid at hmark
  rw [henumerated] at hmark
  cases v with
  | bool b => cases hmark
  | number x => cases hmark
  | text s => rfl

namespace InstanceGraph

variable {g g' : InstanceGraph} {kind : Catalog.OptionCatalog → Prop}

/-- Was every mark computed for the value that it stands at, with a catalog of a kind? -/
def JudgedBy (kind : Catalog.OptionCatalog → Prop) (g : InstanceGraph) : Prop :=
  ∀ n ∈ g.nodes, ∀ e ∈ n.entries, e.JudgedBy kind

/-- Was every mark computed for the value that it stands at? -/
abbrev Judged (g : InstanceGraph) : Prop := g.JudgedBy fun _ ↦ True

/-- Is every mark the one that the present catalog gives? -/
abbrev UpToDate (g : InstanceGraph) : Prop := g.JudgedBy (· = g.settings.catalog)

theorem judgedBy_empty (model : Model) (settings : GraphSettings) :
    JudgedBy kind { model, settings } := by
  rintro _ ⟨⟩

theorem existingEntry_mem {id entryId : String} {e : Entry}
    (h : g.existingEntry id entryId = .ok e) :
    ∃ n, g.node? id = some n ∧ e ∈ n.entries ∧ e.id = entryId := by
  obtain ⟨n, hn, he⟩ := existingEntry_eq_ok.1 h
  exact ⟨n, hn, List.mem_of_find?_eq_some he, by simpa using List.find?_some he⟩

theorem JudgedBy.insertNode {id classIri : String} {position : Position} {n : Node}
    (h : g.JudgedBy kind) (hkind : kind g.settings.catalog)
    (hn : g.newNode id classIri position = .ok n) : (g.insertNode n).JudgedBy kind := by
  obtain ⟨cls, chain, -, -, -, rfl⟩ := newNode_eq_ok.1 hn
  intro m hm e he
  rcases List.mem_append.1 hm with hm | hm
  · exact h m hm e he
  · cases List.mem_singleton.1 hm
    obtain ⟨i, hi, rfl⟩ := List.mem_mapIdx.1 he
    exact ⟨g.settings.catalog, hkind, rfl⟩

/-- One node may get other entries with such marks. -/
theorem JudgedBy.modifyNode {id : String} {f : Node → Node} (h : g.JudgedBy kind)
    (hf : ∀ n ∈ g.nodes, n.id = id → ∀ e ∈ (f n).entries, e.JudgedBy kind) :
    (g.modifyNode id f).JudgedBy kind := by
  intro m hm e he
  obtain ⟨n, hn, rfl⟩ := List.mem_map.1 hm
  split_ifs at he with hid
  · exact hf n hn hid e he
  · exact h n hn e he

theorem JudgedBy.insertEntry {id : String} {cp : ClassProperty} {value : Option Value}
    (h : g.JudgedBy kind) (hkind : kind g.settings.catalog) :
    (g.insertEntry id (g.newEntry cp value)).JudgedBy kind := by
  intro m hm e he
  obtain ⟨n, hn, -, ⟨-, hentries⟩ | ⟨-, hentries⟩⟩ := mem_nodes_insertEntry hm
  · rw [hentries] at he
    exact h n hn e he
  · rw [hentries] at he
    rcases List.mem_append.1 he with he | he
    · exact h n hn e he
    · cases List.mem_singleton.1 he
      exact ⟨g.settings.catalog, hkind, rfl⟩

/-- The written entry is the one that was judged, since no other has its identifier. -/
theorem JudgedBy.writeEntry {id entryId : String} {e : Entry} (h : g.JudgedBy kind)
    (hkind : kind g.settings.catalog) (hids : (g.nodes.map (·.id)).Nodup)
    (hentries : g.DistinctEntries) (value : Option Value)
    (he : g.existingEntry id entryId = .ok e) :
    (g.writeEntry id entryId value
      (Graph.isValid g.settings.catalog e.property value)).JudgedBy kind := by
  obtain ⟨n, hn, hmem, heid⟩ := existingEntry_mem he
  refine h.modifyNode fun m hm hid f hf ↦ ?_
  obtain ⟨old, hold, rfl⟩ := List.mem_map.1 hf
  split
  · have hfound := node?_of_mem hids hm
    rw [hid, hn] at hfound
    cases hfound
    have : old = e := hentries.eq_of_id hm hold hmem (by rw [heid]; assumption)
    exact ⟨g.settings.catalog, hkind, by rw [this]⟩
  · exact h m hm old hold

theorem judgedBy_of_reboundEntry {settings : GraphSettings} {chain : Chain} {e e' : Entry}
    (hkind : kind settings.catalog) (h : reboundEntry settings chain e = some e') :
    e'.JudgedBy kind := by
  unfold reboundEntry at h
  split at h
  · split at h
    · cases h
    · cases h
      exact ⟨settings.catalog, hkind, rfl⟩
  · cases h

theorem judgedBy_replaceModel {model : Model} (hkind : kind g.settings.catalog)
    (hg' : g.replaceModel model = .ok g') : g'.JudgedBy kind := by
  obtain ⟨nodes, hnodes, rfl⟩ := replaceModel_eq_ok.1 hg'
  intro m hm e he
  obtain ⟨n, -, hn⟩ := Fallible.exists_of_mem_mapM hnodes hm
  obtain ⟨cls, chain, -, rfl⟩ := retypeNode_eq_ok.1 hn
  obtain ⟨e', -, he'⟩ := List.mem_filterMap.1 he
  exact judgedBy_of_reboundEntry hkind he'

/-- Checking every value again brings all marks up to date. -/
theorem judgedBy_revalidate (hkind : kind g.settings.catalog) : g.revalidate.JudgedBy kind := by
  intro m hm e he
  obtain ⟨n, -, rfl⟩ := List.mem_map.1 hm
  obtain ⟨e', -, rfl⟩ := List.mem_map.1 he
  exact ⟨g.settings.catalog, hkind, rfl⟩

/-- An edit judges by the present catalog. -/
theorem JudgedBy.edit (h : g.JudgedBy kind) (hkind : kind g.settings.catalog)
    (hids : (g.nodes.map (·.id)).Nodup) (hentries : g.DistinctEntries) (hedit : g.Edit g') :
    g'.JudgedBy kind := by
  cases hedit with
  | insertNode _ hn => exact h.insertNode hkind hn
  | deleteNode id =>
    unfold InstanceGraph.deleteNode
    split
    · exact fun m hm ↦ h m (List.mem_filter.1 hm).1
    · exact h
  | moveNode id position => exact h.modifyNode fun n hn _ ↦ h n hn
  | reset => rintro _ ⟨⟩
  | insertEntry value _ _ _ _ => exact h.insertEntry hkind
  | writeEntry value he => exact h.writeEntry hkind hids hentries value he
  | eraseEntry id entryId =>
    exact h.modifyNode fun n hn _ e he ↦ h n hn e (List.mem_filter.1 he).1
  | revalidate => exact judgedBy_revalidate hkind
  | insertEdge _ _ _ _ _ _ => exact h
  | deleteEdge id => exact h

theorem Judged.change (h : g.Judged) (hids : (g.nodes.map (·.id)).Nodup)
    (hentries : g.DistinctEntries) (hchange : g.Change g') : g'.Judged := by
  cases hchange with
  | edit hedit => exact JudgedBy.edit h trivial hids hentries hedit
  | replaceModel hg' => exact judgedBy_replaceModel trivial hg'
  | setCatalog catalog => exact h

/-! ## Reachable graphs -/

/-- No run sets a mark for a value that the entry does not hold. -/
theorem Reachable.judged (h : g.Reachable) : g.Judged := by
  obtain ⟨model, settings, ops, hnew, rfl⟩ := h
  have hkept := (changes_run hnew).keep
    (P := fun g ↦ g.Consistent ∧ g.DistinctEntries ∧ g.Judged)
    ⟨consistent_empty model settings, distinctEntries_empty model settings,
      judgedBy_empty model settings⟩
    fun _ _ ⟨hconsistent, hentries, hjudged⟩ hchange ↦
      ⟨hconsistent.change hchange, hentries.change hchange,
        hjudged.change hconsistent.ids hentries hchange⟩
  exact hkept.2.2

/-! ## Clean reports -/

theorem not_failure_of_clean {n : Node} {f : Finding} (hclean : g.validate.isClean = true)
    (hn : n ∈ g.nodes) (hf : f ∈ g.validateNode n) : f.severity ≠ .failure := by
  have hmem : f ∈ g.validate := List.mem_flatMap.2 ⟨n, hn, hf⟩
  simpa using List.all_eq_true.1 hclean f hmem

/-- In a clean report every entry is valid. -/
theorem isValid_of_clean {n : Node} {e : Entry} (hclean : g.validate.isClean = true)
    (hn : n ∈ g.nodes) (he : e ∈ n.entries) : e.isValid = true := by
  have hfinding : (checkValues n).severity ≠ .failure :=
    not_failure_of_clean hclean hn List.mem_cons_self
  by_contra hinvalid
  have hfound : e ∈ n.entries.filter (!·.isValid) :=
    List.mem_filter.2 ⟨he, by simpa using hinvalid⟩
  apply hfinding
  unfold checkValues
  cases hinvalid : n.entries.filter (!·.isValid) with
  | nil =>
    rw [hinvalid] at hfound
    cases hfound
  | cons first rest => rfl

/-- In a clean report every declaration has as many values as it asks for. -/
theorem isUnmet_of_clean {n : Node} {cp : ClassProperty} (hclean : g.validate.isClean = true)
    (hn : n ∈ g.nodes) (hcp : cp ∈ n.chain.declarations) : g.isUnmet n cp = false := by
  have hfinding : (g.checkRequired n).severity ≠ .failure :=
    not_failure_of_clean hclean hn (List.mem_append_right _ (List.mem_singleton_self _))
  by_contra hunmet
  have hfound : cp ∈ n.chain.declarations.filter (g.isUnmet n) :=
    List.mem_filter.2 ⟨hcp, by simpa using hunmet⟩
  apply hfinding
  unfold checkRequired unmetRequired
  cases hdeclarations : n.chain.declarations.filter (g.isUnmet n) with
  | nil =>
    rw [hdeclarations] at hfound
    cases hfound
  | cons first rest => rfl

end InstanceGraph

end OntoGraph.Graph
