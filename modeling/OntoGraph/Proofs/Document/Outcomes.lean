import OntoGraph.Proofs.Document.Filling

/-!
# What a statement can become

A statement that is not of the type of its subject becomes an edge, fills an open entry, gets an
entry of its own, or is left out and counted. These four steps are all that can happen, and each of
them changes one place of the graph.
-/

namespace OntoGraph.Document

open Ontology OntoGraph.Graph Rdf InstanceGraph

theorem mem_of_placeholderFor? {r : Rebuilding} {n : Node} {path : String} {value : Value}
    {e : Entry} (h : placeholderFor? r n path value = some e) :
    e ∈ n.entriesOf path ∧ r.placeholders.contains e.id = true := by
  have hmem : e ∈ (n.entriesOf path).filter fun e ↦ r.placeholders.contains e.id := by
    simp only [placeholderFor?, Option.orElse_eq_orElse, Option.orElse_eq_or,
      Option.or_eq_some_iff] at h
    rcases h with h | ⟨-, h⟩
    · exact List.mem_of_find?_eq_some h
    · exact List.mem_of_head? h
  exact List.mem_filter.1 hmem

theorem closed_of_placeholderFor? {r : Rebuilding} {n : Node} {path : String} {value : Value}
    (h : placeholderFor? r n path value = none) :
    ∀ e ∈ n.entriesOf path, r.placeholders.contains e.id = false := by
  simp only [placeholderFor?, Option.orElse_eq_orElse, Option.orElse_eq_or,
    Option.or_eq_none_iff] at h
  have hnone := List.head?_eq_none_iff.1 h.2
  exact fun e he ↦ Bool.eq_false_iff.2 (List.filter_eq_nil_iff.1 hnone e he)

/-- What became of a statement. -/
inductive Outcome where
  /-- A new edge. -/
  | edge (e : Edge)
  /-- The value of the entry with an identifier, which was open before or is new. -/
  | entry (id : String)
  /-- Nothing, since its property was full. -/
  | leftOut
  deriving DecidableEq

def Outcome.edge? : Outcome → Option Edge
  | .edge e => some e
  | _ => none

def Outcome.entryId? : Outcome → Option String
  | .entry id => some id
  | _ => none

variable {s : Statements} {r r' : Rebuilding} {id path : String} {u : Triple} {outcome : Outcome}

/-- All that a statement which is not of a type can do to the node of its subject. -/
inductive Becomes (r : Rebuilding) (id : String) (u : Triple) : Outcome → Rebuilding → Prop where
  | link {n : Node} {cp : ClassProperty} {target : String} (hn : r.graph.node? id = some n)
      (hcp : n.property? u.predicate = some cp) (hobject : cp.isObject = true)
      (htarget : r.nodeIds.lookup u.object = some target) (hroom : r.graph.isFull id cp = false) :
      Becomes r id u (.edge (r.graph.newEdge id target cp)) (r.link id target cp)
  | fill {n : Node} {cp : ClassProperty} {e : Entry} (hn : r.graph.node? id = some n)
      (hcp : n.property? u.predicate = some cp) (hobject : cp.isObject = false)
      (he : e ∈ n.entriesOf u.predicate) (hopen : r.placeholders.contains e.id = true) :
      Becomes r id u (.entry e.id) (r.fill id e (entryValue cp u.object))
  | append {n : Node} {cp : ClassProperty} (hn : r.graph.node? id = some n)
      (hcp : n.property? u.predicate = some cp) (hobject : cp.isObject = false)
      (hclosed : ∀ e ∈ n.entriesOf u.predicate, r.placeholders.contains e.id = false)
      (hroom : r.graph.isFull id cp = false) :
      Becomes r id u (.entry (issuedId r.graph.issued)) (r.append id cp (entryValue cp u.object))
  | leaveOut {n : Node} {cp : ClassProperty} (hn : r.graph.node? id = some n)
      (hcp : n.property? u.predicate = some cp)
      (hclosed : cp.isObject = false →
        ∀ e ∈ n.entriesOf u.predicate, r.placeholders.contains e.id = false)
      (hfull : r.graph.isFull id cp = true) :
      Becomes r id u .leftOut { r with dropped := r.dropped + 1 }

/-- Every statement that is not of a type becomes something. -/
theorem exists_becomes (hdistinct : r.graph.DistinctEntries) (htype : u.predicate ≠ rdfType)
    (h : addStatement s id r u = .ok r') : ∃ outcome, Becomes r id u outcome r' := by
  obtain ⟨n, cp, hn, hcp, hcase⟩ := (addStatement_eq_ok htype).1 h
  have hpath : cp.path = u.predicate := path_of_nearest? hcp
  rw [hpath] at hcase
  rcases hcase with ⟨hobject, target, htarget, hedge⟩ |
    ⟨hobject, ⟨e, ⟨isValid, graph⟩, hopen, hset, rfl⟩ | ⟨hclosed, hentry⟩⟩
  · rcases record_eq_ok.1 hedge with ⟨edgeId, graph, hadd, rfl⟩ | ⟨graph, hadd, rfl⟩ <;>
      obtain ⟨-, -, -, -, -, -, -, -, hresult⟩ := addEdge_eq_ok.1 hadd
    · rcases hresult with ⟨-, hfull, -⟩ | ⟨hroom, -, rfl⟩
      · cases hfull
      · exact ⟨_, .link hn hcp hobject htarget hroom⟩
    · rcases hresult with ⟨hfull, -, rfl⟩ | ⟨-, hadded, -⟩
      · exact ⟨_, .leaveOut hn hcp (fun hvalue ↦ absurd (hobject.symm.trans hvalue) nofun) hfull⟩
      · cases hadded
  · obtain ⟨he, hopen⟩ := mem_of_placeholderFor? hopen
    obtain ⟨e', he', rfl, rfl⟩ := setEntry_eq_ok.1 hset
    rw [existingEntry_of_mem hdistinct hn (List.mem_filter.1 he).1] at he'
    cases he'
    exact ⟨_, .fill hn hcp hobject he hopen⟩
  · rcases record_eq_ok.1 hentry with ⟨entryId, graph, hadd, rfl⟩ | ⟨graph, hadd, rfl⟩ <;>
      obtain ⟨-, -, -, -, hresult⟩ := addEntry_eq_ok.1 hadd
    · rcases hresult with ⟨-, hfull, -⟩ | ⟨hroom, -, rfl⟩
      · cases hfull
      · exact ⟨_, .append hn hcp hobject (closed_of_placeholderFor? hclosed) hroom⟩
    · rcases hresult with ⟨hfull, -, rfl⟩ | ⟨-, hadded, -⟩
      · exact ⟨_, .leaveOut hn hcp (fun _ ↦ closed_of_placeholderFor? hclosed) hfull⟩
      · cases hadded

namespace Becomes

/-- A step leaves nodes, their types and the identifiers of entries alone. -/
theorem keeps (h : Becomes r id u outcome r') (hdistinct : r.graph.DistinctEntries)
    (hissued : ∀ id ∈ r.placeholders, ∃ k < r.graph.issued, id = issuedId k) :
    r.Keeps { r' with dropped := r.dropped } := by
  cases h with
  | link => exact keeps_link _ hdistinct hissued
  | fill => exact keeps_fill _ hdistinct hissued
  | append => exact keeps_append _ hdistinct hissued
  | leaveOut => exact ⟨rfl, rfl, rfl, rfl, rfl, fun _ m hm ↦ ⟨m, hm, rfl, rfl⟩, hdistinct, hissued⟩

theorem edges (h : Becomes r id u outcome r') :
    r'.graph.edges = r.graph.edges ++ outcome.edge?.toList := by
  cases h with
  | link => rfl
  | _ => exact (List.append_nil _).symm

theorem issued_le (h : Becomes r id u outcome r') : r.graph.issued ≤ r'.graph.issued := by
  cases h with
  | link => exact Nat.le_succ _
  | append => exact Nat.le_succ _
  | _ => exact Nat.le_refl _

theorem placeholders (h : Becomes r id u outcome r') : r'.placeholders ⊆ r.placeholders := by
  cases h with
  | fill => exact List.filter_subset_self _
  | _ => exact List.Subset.refl _

theorem dropped (h : Becomes r id u outcome r') :
    r'.dropped = r.dropped + if outcome = .leftOut then 1 else 0 := by
  cases h <;> rfl

/-- Only the entry that is written changes. -/
theorem mem_entriesAt_iff (h : Becomes r id u outcome r') {e : Entry}
    (hother : outcome.entryId? ≠ some e.id) {other : String} :
    e ∈ r'.graph.entriesAt other path ↔ e ∈ r.graph.entriesAt other path := by
  cases h with
  | link => rfl
  | leaveOut => rfl
  | @fill n cp f hn hcp hobject he hopen =>
    have hne : e.id ≠ f.id := fun heq ↦ hother (congrArg some heq.symm)
    have hentries : (r.fill id f (entryValue cp u.object)).graph.entriesAt other path = _ :=
      entriesAt_writeEntry f.id _ _ other path
    rw [hentries]
    split
    · rw [List.mem_map]
      constructor
      · rintro ⟨old, hold, rfl⟩
        by_cases hid : old.id = f.id
        · rw [rewritten, if_pos hid] at hne
          exact absurd hid hne
        · rwa [rewritten, if_neg hid]
      · exact fun he ↦ ⟨e, he, by rw [rewritten, if_neg hne]⟩
    · rfl
  | @append n cp hn hcp hobject hclosed hroom =>
    have hentries : (r.append id cp (entryValue cp u.object)).graph.entriesAt other path = _ :=
      entriesAt_insertEntry hn other path
    have hnew : e ≠ r.graph.newEntry cp (some (entryValue cp u.object)) := by
      rintro rfl
      exact hother rfl
    rw [hentries, List.mem_append, or_iff_left]
    split
    · rwa [List.mem_singleton]
    · exact List.not_mem_nil

/-- The number of values and edges of a path only grows. -/
theorem entryCount_le (h : Becomes r id u outcome r') (other path : String) :
    r.graph.entryCount other path ≤ r'.graph.entryCount other path := by
  rw [entryCount_eq, entryCount_eq]
  cases h with
  | leaveOut => exact Nat.le_refl _
  | @link n cp target =>
    have htargets : (r.link id target cp).graph.targetsAt other path = _ :=
      targetsAt_insertEdge _ other path
    have hentries : (r.link id target cp).graph.entriesAt other path =
      r.graph.entriesAt other path := rfl
    rw [htargets, hentries, List.length_append]
    omega
  | @fill n cp f =>
    have hentries : (r.fill id f (entryValue cp u.object)).graph.entriesAt other path = _ :=
      entriesAt_writeEntry f.id _ _ other path
    have htargets : (r.fill id f (entryValue cp u.object)).graph.targetsAt other path =
      r.graph.targetsAt other path := rfl
    rw [hentries, htargets]
    split
    · exact Nat.le_of_eq (by rw [List.length_map])
    · exact Nat.le_refl _
  | @append n cp hn =>
    have hentries : (r.append id cp (entryValue cp u.object)).graph.entriesAt other path = _ :=
      entriesAt_insertEntry hn other path
    have htargets : (r.append id cp (entryValue cp u.object)).graph.targetsAt other path =
      r.graph.targetsAt other path := rfl
    rw [hentries, htargets, List.length_append]
    omega

/-- An entry is written that was open, or that is new. It is not open afterwards. -/
theorem entryId_written (h : Becomes r id u outcome r') {entryId : String}
    (hissued : ∀ id ∈ r.placeholders, ∃ k < r.graph.issued, id = issuedId k)
    (hwritten : outcome.entryId? = some entryId) :
    (entryId ∈ r.placeholders ∨ entryId = issuedId r.graph.issued) ∧
      entryId ∉ r'.placeholders ∧ ∃ k < r'.graph.issued, entryId = issuedId k := by
  cases h with
  | link => cases hwritten
  | leaveOut => cases hwritten
  | fill hn hcp hobject he hopen =>
    cases hwritten
    have hopen := List.contains_iff_mem.1 hopen
    refine ⟨.inl hopen, ?_, hissued _ hopen⟩
    simp [Rebuilding.fill]
  | append =>
    cases hwritten
    refine ⟨.inr rfl, fun hmem ↦ ?_, r.graph.issued, Nat.lt_succ_self _, rfl⟩
    obtain ⟨k, hk, heq⟩ := hissued _ hmem
    exact absurd (issuedId_injective heq) (by omega)

end Becomes

end OntoGraph.Document
