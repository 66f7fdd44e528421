import OntoGraph.Proofs.Graph.Marks

/-!
# Reports from scratch

A report reads the validity marks that entries carry. Where every mark is up to date, nothing
changes when all values are checked again, and a report is clean exactly if all values are valid
and every declaration has as many valid values as it asks for.
-/

namespace OntoGraph.Graph.InstanceGraph

open Ontology

variable {g : InstanceGraph} {n : Node}

/-! ## Findings -/

theorem isUnmet_eq_false_iff {cp : ClassProperty} : g.isUnmet n cp = false ↔
    ∀ min, cp.minCount = some min → min ≤ g.satisfyingCount n cp := by
  unfold isUnmet
  cases cp.minCount with
  | none => simp
  | some min => simp

/-- The finding on values is no failure if all are valid. -/
theorem severity_checkValues (h : ∀ e ∈ n.entries, e.isValid = true) :
    (checkValues n).severity ≠ .failure := by
  have hnone : n.entries.filter (!·.isValid) = [] :=
    List.filter_eq_nil_iff.2 fun e he ↦ by simp [h e he]
  simp [checkValues, hnone]

/-- Entries without a value are never a failure. -/
theorem severity_checkEmpty {f : Finding} (h : f ∈ checkEmpty n) : f.severity ≠ .failure := by
  unfold checkEmpty at h
  split at h
  · cases h
  · rw [List.mem_singleton.1 h]
    rintro ⟨⟩

/-- The finding on required properties is no failure if none is unmet. -/
theorem severity_checkRequired (h : ∀ cp ∈ n.chain.declarations, g.isUnmet n cp = false) :
    (g.checkRequired n).severity ≠ .failure := by
  have hnone : n.chain.declarations.filter (g.isUnmet n) = [] :=
    List.filter_eq_nil_iff.2 fun cp hcp ↦ by simp [h cp hcp]
  simp [checkRequired, unmetRequired, hnone, ClassProperty.firstOfEachPath]

/-- A report is clean exactly if all entries are marked as valid and no declaration is unmet. A
path is reported once only, but this hides no unmet declaration. -/
theorem isClean_iff : g.validate.isClean = true ↔
    (∀ n ∈ g.nodes, ∀ e ∈ n.entries, e.isValid = true) ∧
      ∀ n ∈ g.nodes, ∀ cp ∈ n.chain.declarations, g.isUnmet n cp = false := by
  constructor
  · intro hclean
    exact ⟨fun n hn e he ↦ isValid_of_clean hclean hn he,
      fun n hn cp hcp ↦ isUnmet_of_clean hclean hn hcp⟩
  · rintro ⟨hvalid, hmet⟩
    refine List.all_eq_true.2 fun f hf ↦ decide_eq_true ?_
    obtain ⟨n, hn, hfinding⟩ := List.mem_flatMap.1 hf
    rcases List.mem_cons.1 hfinding with rfl | hfinding
    · exact severity_checkValues (hvalid n hn)
    · rcases List.mem_append.1 hfinding with hempty | hrequired
      · exact severity_checkEmpty hempty
      · rw [List.mem_singleton.1 hrequired]
        exact severity_checkRequired (hmet n hn)

/-! ## Checking again -/

/-- The number of values of a node that count for a declaration when each is checked again: the
valid ones of its path, or the edges of its path for an object property. -/
def recomputedCount (g : InstanceGraph) (n : Node) (cp : ClassProperty) : Nat :=
  if cp.isObject then g.outEdgeCount n.id cp.path
  else (n.entries.filter fun e ↦
    Graph.isValid g.settings.catalog e.property e.value && e.path = cp.path).length

theorem UpToDate.isValid_eq (h : g.UpToDate) {e : Entry} (hn : n ∈ g.nodes) (he : e ∈ n.entries) :
    e.isValid = Graph.isValid g.settings.catalog e.property e.value := by
  obtain ⟨catalog, rfl, hmark⟩ := h n hn e he
  exact hmark

theorem UpToDate.satisfyingCount_eq (h : g.UpToDate) (hn : n ∈ g.nodes) (cp : ClassProperty) :
    g.satisfyingCount n cp = g.recomputedCount n cp := by
  unfold satisfyingCount recomputedCount
  refine congrArg (ite _ _) (congrArg List.length (List.filter_congr fun e he ↦ ?_))
  rw [h.isValid_eq hn he]

/-- Marks that are up to date stay as they are when all values are checked again. -/
theorem UpToDate.revalidate_eq (h : g.UpToDate) : g.revalidate = g := by
  have hnodes : g.nodes.map (fun n ↦
      { n with entries := n.entries.map (Entry.revalidate g.settings.catalog) }) = g.nodes := by
    refine (List.map_congr_left (g := id) fun n hn ↦ ?_).trans (List.map_id _)
    have hentries : n.entries.map (Entry.revalidate g.settings.catalog) = n.entries := by
      refine (List.map_congr_left (g := id) fun e he ↦ ?_).trans (List.map_id _)
      rw [Entry.revalidate, ← h.isValid_eq hn he, id_eq]
    rw [hentries, id_eq]
  unfold revalidate
  rw [hnodes]

/-- With marks that are up to date, a report says what holds of the values themselves. -/
theorem UpToDate.isClean_iff (h : g.UpToDate) : g.validate.isClean = true ↔
    (∀ n ∈ g.nodes, ∀ e ∈ n.entries,
      Graph.isValid g.settings.catalog e.property e.value = true) ∧
      ∀ n ∈ g.nodes, ∀ cp ∈ n.chain.declarations, ∀ min, cp.minCount = some min → 1 ≤ min →
        min ≤ g.recomputedCount n cp := by
  refine InstanceGraph.isClean_iff.trans (and_congr ?_ ?_)
  · refine forall₂_congr fun n hn ↦ forall₂_congr fun e he ↦ ?_
    rw [h.isValid_eq hn he]
  · refine forall₂_congr fun n hn ↦ forall₂_congr fun cp _ ↦ ?_
    rw [isUnmet_eq_false_iff, h.satisfyingCount_eq hn]
    refine forall₂_congr fun min _ ↦ ⟨fun hle _ ↦ hle, fun hle ↦ ?_⟩
    cases min with
    | zero => exact Nat.zero_le _
    | succ min => exact hle (Nat.le_add_left 1 min)

end OntoGraph.Graph.InstanceGraph
