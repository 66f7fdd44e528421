import OntoGraph.Proofs.Graph.Consistency
import OntoGraph.Proofs.Graph.Content
import OntoGraph.Rdf.Names

/-!
# Portable graphs

A document holds a set of triples, and a graph that it is read into takes no more values than the
model admits. A portable graph is one that loses nothing by that. In such a graph a path has one
declaration, so that it is a path of values or one of edges.
-/

namespace OntoGraph.Graph.InstanceGraph

open Ontology Rdf

/-- Is there nothing in the graph that a set of triples does not hold, or that would not be taken
back in full? -/
structure Portable (g : InstanceGraph) : Prop where
  valued : ∀ n ∈ g.nodes, ∀ e ∈ n.entries, e.value.isSome = true
  entries : ∀ n ∈ g.nodes, (n.entries.map fun e ↦ (e.path, e.value.map Value.lexical)).Nodup
  edges : (g.edges.map fun e ↦ (e.source, e.path, e.target)).Nodup
  paths : ∀ n ∈ g.nodes, (n.chain.declarations.map (·.path)).Nodup
  untyped : ∀ n ∈ g.nodes, ∀ cp ∈ n.chain.declarations, cp.path ≠ rdfType
  concrete : ∀ n ∈ g.nodes, n.cls.isAbstract = false
  room : ∀ n ∈ g.nodes, ∀ cp ∈ n.chain.declarations, ∀ max, cp.maxCount = some max →
    g.entryCount n.id cp.path ≤ max

variable {g : InstanceGraph} {n : Node} {path : String} {cp : ClassProperty}

/-! ## Declarations -/

/-- Of the declarations of a chain that declares no path twice, one has a given path. -/
theorem filter_path_of_nodup {cps : List ClassProperty} (h : (cps.map (·.path)).Nodup)
    (path : String) : cps.filter (·.path = path) = (cps.find? (·.path = path)).toList := by
  induction cps with
  | nil => rfl
  | cons cp cps ih =>
    obtain ⟨hpath, hnodup⟩ := List.nodup_cons.1 h
    by_cases heq : cp.path = path
    · have hrest : cps.filter (·.path = path) = [] := by
        rw [List.filter_eq_nil_iff]
        intro other hother hsame
        exact hpath (List.mem_map.2 ⟨other, hother, (of_decide_eq_true hsame).trans heq.symm⟩)
      rw [List.filter_cons_of_pos (by simpa using heq), List.find?_cons_of_pos (by simpa using heq),
        hrest]
      rfl
    · rw [List.filter_cons_of_neg (by simpa using heq), List.find?_cons_of_neg (by simpa using heq),
        ih hnodup]

theorem firstOfEachPath_of_nodup {seen : List String} {cps : List ClassProperty}
    (h : (cps.map (·.path)).Nodup) (hseen : ∀ cp ∈ cps, cp.path ∉ seen) :
    ClassProperty.firstOfEachPath seen cps = cps := by
  induction cps generalizing seen with
  | nil => rfl
  | cons cp cps ih =>
    obtain ⟨hpath, hnodup⟩ := List.nodup_cons.1 h
    have hnew : ¬seen.contains cp.path = true := by
      rw [List.contains_iff_mem]
      exact hseen cp List.mem_cons_self
    rw [ClassProperty.firstOfEachPath, if_neg hnew, ih hnodup]
    intro other hother hmem
    rcases List.mem_cons.1 hmem with heq | hmem
    · exact hpath (List.mem_map.2 ⟨other, hother, heq⟩)
    · exact hseen other (List.mem_cons_of_mem _ hother) hmem

theorem Portable.property?_rdfType (hp : g.Portable) (hn : n ∈ g.nodes) :
    n.property? rdfType = none := by
  rw [Option.eq_none_iff_forall_ne_some]
  exact fun cp hcp ↦
    hp.untyped n hn cp (mem_declarations_of_nearest? hcp) (path_of_nearest? hcp)

/-! ## Values and targets -/

/-- The declaration of an entry is the one that its node has for its path. -/
theorem property_of_mem_entries (hg : g.Consistent) (hp : g.Portable) {e : Entry}
    (hn : n ∈ g.nodes) (he : e ∈ n.entries) :
    n.property? e.path = some e.property ∧ e.property.isObject = false :=
  ⟨nearest?_of_mem (hp.paths n hn) (hg.entries n hn e he).2, (hg.entries n hn e he).1⟩

/-- The declaration of an edge is the one that its source has for its path. -/
theorem property_of_mem_outEdges (hg : g.Consistent) (hp : g.Portable) {e : Edge}
    (hn : n ∈ g.nodes) (he : e ∈ g.outEdges n.id) :
    n.property? e.path = some e.property ∧ e.property.isObject = true ∧
      ∃ target ∈ g.nodes, ∃ targetClass, target.id = e.target ∧
        e.property.target? = some targetClass ∧ target.isA targetClass = true := by
  obtain ⟨hdeclared, target, htarget, targetClass, hid, hclass, hisA⟩ := hg.outEdge hn he
  refine ⟨nearest?_of_mem (hp.paths n hn) hdeclared, ?_, target, htarget, targetClass, hid,
    hclass, hisA⟩
  rw [ClassProperty.isObject, hclass]
  rfl

theorem property_of_mem_entriesAt (hg : g.Consistent) (hp : g.Portable) {e : Entry}
    (hn : n ∈ g.nodes) (he : e ∈ g.entriesAt n.id path) :
    e ∈ n.entries ∧ n.property? path = some e.property ∧ e.property.isObject = false := by
  obtain ⟨m, hm, he, rfl⟩ := mem_entriesAt he
  rw [node?_of_mem hg.ids hn] at hm
  cases hm
  exact ⟨he, property_of_mem_entries hg hp hn he⟩

/-- The edge behind a target fits the declaration of its path. -/
theorem property_of_mem_targetsAt (hg : g.Consistent) (hp : g.Portable) {targetId : String}
    (hn : n ∈ g.nodes) (htarget : targetId ∈ g.targetsAt n.id path) :
    ∃ cp, n.property? path = some cp ∧ cp.isObject = true ∧
      ∃ target ∈ g.nodes, ∃ targetClass, g.node? targetId = some target ∧
        cp.target? = some targetClass ∧ target.isA targetClass = true := by
  obtain ⟨e, he, rfl⟩ := List.mem_map.1 htarget
  obtain ⟨hleaves, hpath⟩ := List.mem_filter.1 he
  obtain rfl : e.path = path := of_decide_eq_true hpath
  obtain ⟨hproperty, hobject, target, htarget, targetClass, hid, hclass, hisA⟩ :=
    property_of_mem_outEdges hg hp hn hleaves
  exact ⟨e.property, hproperty, hobject, target, htarget, targetClass,
    hid ▸ node?_of_mem hg.ids htarget, hclass, hisA⟩

theorem entriesAt_eq_nil (hg : g.Consistent) (hp : g.Portable) (hn : n ∈ g.nodes)
    (h : ∀ cp, n.property? path = some cp → cp.isObject = true) : g.entriesAt n.id path = [] := by
  refine List.eq_nil_iff_forall_not_mem.2 fun e he ↦ ?_
  obtain ⟨-, hproperty, hobject⟩ := property_of_mem_entriesAt hg hp hn he
  rw [h _ hproperty] at hobject
  cases hobject

theorem targetsAt_eq_nil (hg : g.Consistent) (hp : g.Portable) (hn : n ∈ g.nodes)
    (h : ∀ cp, n.property? path = some cp → cp.isObject = false) : g.targetsAt n.id path = [] := by
  refine List.eq_nil_iff_forall_not_mem.2 fun target htarget ↦ ?_
  obtain ⟨cp, hproperty, hobject, -⟩ := property_of_mem_targetsAt hg hp hn htarget
  rw [h _ hproperty] at hobject
  cases hobject

end OntoGraph.Graph.InstanceGraph
