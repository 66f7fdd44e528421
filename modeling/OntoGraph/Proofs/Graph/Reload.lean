import Mathlib.Data.List.Induction
import OntoGraph.Proofs.Graph.Marks

/-!
# Reading the same model anew

A change of the model binds every value and every edge to the nearest declaration of its path, and
checks it against that declaration. A value or an edge may have been added under another
declaration of the path. So to read the very model of a graph anew changes nothing exactly if all
values and edges are bound to the nearest declarations, provided that no change of the catalog is
left without a check of all values.
-/

namespace OntoGraph.Graph.InstanceGraph

open Ontology

variable {g g' : InstanceGraph} {n : Node}

/-- Is every value and every edge bound to the nearest declaration of its path? -/
structure BoundToNearest (g : InstanceGraph) : Prop where
  entries : ∀ n ∈ g.nodes, ∀ e ∈ n.entries, n.property? e.path = some e.property
  edges : ∀ e ∈ g.edges, ∀ n, g.node? e.source = some n → n.property? e.path = some e.property

/-- Where a chain declares no path twice, there is one declaration to be bound to. -/
theorem boundToNearest_of_nodup (hg : g.Consistent)
    (hpaths : ∀ n ∈ g.nodes, (n.chain.declarations.map (·.path)).Nodup) : g.BoundToNearest where
  entries n hn e he := nearest?_of_mem (hpaths n hn) (hg.entries n hn e he).2
  edges e he n hn := by
    obtain ⟨hn, hid⟩ := node?_eq_some hn
    have hleaves : e ∈ g.outEdges n.id := List.mem_filter.2 ⟨he, decide_eq_true hid.symm⟩
    exact nearest?_of_mem (hpaths n hn) (hg.outEdge hn hleaves).1

/-! ## Marks that are up to date -/

/-- Is every change of the catalog followed by a check of all values? -/
def ChecksCatalogs (ops : List Operation) : Prop :=
  ∀ before catalog after, ops = before ++ .setCatalog catalog :: after → .revalidate ∈ after

theorem checksCatalogs_nil : ChecksCatalogs [] := by
  intro before catalog after h
  cases before <;> cases h

theorem checksCatalogs_cons {op : Operation} {ops : List Operation} : ChecksCatalogs (op :: ops) ↔
    (∀ catalog, op = .setCatalog catalog → .revalidate ∈ ops) ∧ ChecksCatalogs ops := by
  constructor
  · intro h
    refine ⟨?_, fun before catalog after hops ↦ h (op :: before) catalog after (by rw [hops]; rfl)⟩
    rintro catalog rfl
    exact h [] catalog ops rfl
  · rintro ⟨hfirst, hrest⟩ before catalog after hops
    cases before with
    | nil =>
      obtain ⟨rfl, rfl⟩ := List.cons.inj hops
      exact hfirst catalog rfl
    | cons first before =>
      obtain ⟨rfl, rfl⟩ := List.cons.inj hops
      exact hrest before catalog after rfl

/-- An operation other than a change of the catalog leaves marks that are up to date so. -/
theorem UpToDate.perform {op : Operation} (h : g.UpToDate) (hg : g.Consistent)
    (hentries : g.DistinctEntries) (hnew : g.MintsNew op)
    (hcatalog : ∀ catalog, op ≠ .setCatalog catalog) : (g.perform op).UpToDate := by
  by_cases hmodel : ∃ model, op = .replaceModel model
  · obtain ⟨model, rfl⟩ := hmodel
    refine orUnchanged_induction h fun g' hg' ↦ ?_
    have hsettings : g'.settings = g.settings := by
      obtain ⟨nodes, -, rfl⟩ := replaceModel_eq_ok.1 hg'
      rfl
    exact judgedBy_replaceModel (congrArg GraphSettings.catalog hsettings.symm) hg'
  · have hkept := (edits_perform hnew (fun model heq ↦ hmodel ⟨model, heq⟩) hcatalog).keep
      (P := fun g' ↦ g'.Consistent ∧ g'.DistinctEntries ∧ g'.UpToDate) ⟨hg, hentries, h⟩ ?_
    · exact hkept.2.2
    · rintro g₁ g₂ ⟨hconsistent, hdistinct, hcurrent⟩ hedit
      refine ⟨hconsistent.edit hedit, hdistinct.edit hedit, ?_⟩
      unfold UpToDate
      rw [hedit.settings]
      exact hcurrent.edit rfl hconsistent.ids hdistinct hedit

/-- A run that checks all values after changes of the catalog leaves marks that are up to date. -/
theorem upToDate_run {model : Model} {settings : GraphSettings} {ops : List Operation}
    (hnew : AlwaysMintsNew { model, settings } ops) (hchecks : ChecksCatalogs ops) :
    (run { model, settings } ops).UpToDate := by
  induction ops using List.reverseRecOn with
  | nil => exact judgedBy_empty model settings
  | append_singleton ops op ih =>
    obtain ⟨hfirst, hlast, -⟩ := alwaysMintsNew_append.1 hnew
    have hreachable : (run { model, settings } ops).Reachable := ⟨model, settings, ops, hfirst, rfl⟩
    rw [run, List.foldl_append]
    change (perform (run { model, settings } ops) op).UpToDate
    by_cases hrevalidate : op = .revalidate
    · subst hrevalidate
      exact judgedBy_revalidate rfl
    · have hrest : ChecksCatalogs ops := by
        intro before catalog after hops
        have hmem := hchecks before catalog (after ++ [op]) (by rw [hops, List.append_assoc]; rfl)
        rcases List.mem_append.1 hmem with hmem | hmem
        · exact hmem
        · exact absurd (List.mem_singleton.1 hmem).symm hrevalidate
      refine (ih hfirst hrest).perform hreachable.consistent hreachable.distinctEntries hlast ?_
      rintro catalog rfl
      cases hchecks ops catalog [] rfl

/-! ## Binding anew -/

/-- Binding an entry to the nearest declaration changes nothing if that is its declaration. -/
theorem reboundEntry_eq_self_iff {settings : GraphSettings} {e : Entry}
    (hobject : e.property.isObject = false)
    (hvalid : e.isValid = isValid settings.catalog e.property e.value) :
    reboundEntry settings n.chain e = some e ↔ n.property? e.path = some e.property := by
  unfold Node.property?
  constructor
  · fun_cases reboundEntry settings n.chain e with
    | case1 => rintro ⟨⟩
    | case2 cp hcp =>
      intro h
      rw [hcp]
      exact congrArg (fun e ↦ some e.property) (Option.some.inj h)
    | case3 => rintro ⟨⟩
  · intro h
    rw [reboundEntry, h]
    dsimp only
    rw [hobject, if_neg Bool.false_ne_true]
    exact congrArg (fun isValid ↦ some { e with isValid }) hvalid.symm

/-- Binding an edge to the nearest declaration changes nothing if that is its declaration. -/
theorem Consistent.reboundEdge_eq_self_iff (h : g.Consistent) {e : Edge} (he : e ∈ g.edges) :
    reboundEdge g.nodes e = some e ↔
      ∀ n, g.node? e.source = some n → n.property? e.path = some e.property := by
  obtain ⟨source, hsource, target, htarget, targetClass, hsid, htid, -, hclass, hisA⟩ :=
    h.edges e he
  have hsourceNode : g.node? e.source = some source := hsid ▸ node?_of_mem h.ids hsource
  have htargetNode : g.node? e.target = some target := htid ▸ node?_of_mem h.ids htarget
  unfold reboundEdge
  rw [← node?, ← node?, hsourceNode, htargetNode]
  simp only [Option.some.injEq, forall_eq', Option.bind_eq_bind, Option.bind_some,
    Option.bind_eq_some_iff]
  constructor
  · rintro ⟨cp, hcp, _, -, hbound⟩
    split at hbound
    · rw [hcp]
      exact congrArg (fun e ↦ some e.property) (Option.some.inj hbound)
    · cases hbound
  · intro hproperty
    exact ⟨e.property, hproperty, targetClass, hclass, if_pos hisA⟩

def rebound (settings : GraphSettings) (n : Node) : Node :=
  { n with entries := n.entries.filterMap (reboundEntry settings n.chain) }

theorem Consistent.retypeNode_self (h : g.Consistent) (hn : n ∈ g.nodes) :
    retypeNode g.settings g.model n = .ok (rebound g.settings n) := by
  have htyped := h.typed n hn
  refine retypeNode_eq_ok.2 ⟨n.cls, n.chain, resolveIn_eq_ok.2 ⟨htyped.cls, htyped.chain⟩, ?_⟩
  rw [← htyped.isElement]
  rfl

theorem Consistent.replaceModel_self (h : g.Consistent) :
    g.replaceModel g.model = .ok { g with
      nodes := g.nodes.map (rebound g.settings)
      edges := g.edges.filterMap (reboundEdge (g.nodes.map (rebound g.settings))) } :=
  replaceModel_eq_ok.2 ⟨_, Fallible.mapM_eq_map fun _ hn ↦ h.retypeNode_self hn, rfl⟩

theorem rebound_eq_self_iff {settings : GraphSettings} :
    rebound settings n = n ↔ ∀ e ∈ n.entries, reboundEntry settings n.chain e = some e := by
  have hentries : n.entries.filterMap (reboundEntry settings n.chain) = n.entries ↔
      ∀ e ∈ n.entries, reboundEntry settings n.chain e = some e := by
    have hmap := List.filterMap_eq_map_iff_forall_eq_some (l := n.entries)
      (f := reboundEntry settings n.chain) (g := id)
    rwa [List.map_id] at hmap
  rw [← hentries]
  exact ⟨congrArg Node.entries, fun heq ↦ by rw [rebound, heq]⟩

/-- Reading the model of a graph anew never fails, and changes nothing exactly if everything is
bound to the nearest declarations. -/
theorem Consistent.replaceModel_self_iff (h : g.Consistent) (hmarks : g.UpToDate) :
    ∃ g', g.replaceModel g.model = .ok g' ∧ (g' = g ↔ g.BoundToNearest) := by
  refine ⟨_, h.replaceModel_self, ?_⟩
  have hnodes : g.nodes.map (rebound g.settings) = g.nodes ↔
      ∀ n ∈ g.nodes, ∀ e ∈ n.entries, n.property? e.path = some e.property := by
    have hmap := List.map_inj_left (l := g.nodes) (f := rebound g.settings) (g := id)
    rw [List.map_id] at hmap
    refine hmap.trans (forall₂_congr fun n hn ↦
      rebound_eq_self_iff.trans (forall₂_congr fun e he ↦ ?_))
    obtain ⟨catalog, rfl, hvalid⟩ := hmarks n hn e he
    exact reboundEntry_eq_self_iff (h.entries n hn e he).1 hvalid
  have hedges : g.edges.filterMap (reboundEdge g.nodes) = g.edges ↔
      ∀ e ∈ g.edges, ∀ n, g.node? e.source = some n → n.property? e.path = some e.property := by
    have hmap := List.filterMap_eq_map_iff_forall_eq_some (l := g.edges)
      (f := reboundEdge g.nodes) (g := id)
    rw [List.map_id] at hmap
    exact hmap.trans (forall₂_congr fun e he ↦ h.reboundEdge_eq_self_iff he)
  constructor
  · intro hsame
    have hkept := hnodes.1 (congrArg InstanceGraph.nodes hsame)
    refine ⟨hkept, hedges.1 ?_⟩
    have hkeptEdges := congrArg InstanceGraph.edges hsame
    dsimp only at hkeptEdges
    rwa [hnodes.2 hkept] at hkeptEdges
  · intro hbound
    rw [hnodes.2 hbound.entries, hedges.2 hbound.edges]

/-- Whatever a run leaves that checks all values after changes of the catalog, reading its model
anew succeeds. It leaves the graph as it was exactly if everything is bound to the nearest
declarations. -/
theorem replaceModel_run_iff (model : Model) (settings : GraphSettings) {ops : List Operation}
    (hnew : AlwaysMintsNew { model, settings } ops) (hchecks : ChecksCatalogs ops) :
    ∃ g', (run { model, settings } ops).replaceModel (run { model, settings } ops).model = .ok g' ∧
      (g' = run { model, settings } ops ↔ (run { model, settings } ops).BoundToNearest) :=
  ((consistent_empty model settings).run hnew).replaceModel_self_iff (upToDate_run hnew hchecks)

/-- Authors, who are persons, know authors. -/
def authorKnows : ClassProperty :=
  { knows with
    parentClass := "https://example.org/Core/Author"
    constraint := .object "https://example.org/Core/Author" }

def author : Ontology.Class :=
  { iri := "https://example.org/Core/Author"
    name := "Author"
    profileName := "Core"
    subClassOf := some person.iri
    properties := .ofList [("knows", authorKnows)] }

def authors : Model :=
  .ofProfiles {} (.ofList [("Core",
    { classes := .ofList [("Author", author), ("Person", person)] })])

def collaboration : List Operation :=
  [.addNodeWithId "ada" author.iri {}, .addNodeWithId "eve" author.iri {}, .setCatalog {},
    .revalidate, .addEdge "ada" "eve" authorKnows]

theorem replaceModel_run_collaboration :
    AlwaysMintsNew { model := authors } collaboration ∧ ChecksCatalogs collaboration ∧
      (run { model := authors } collaboration).edges.length = 1 ∧
      ∃ g', (run { model := authors } collaboration).replaceModel
          (run { model := authors } collaboration).model = .ok g' ∧
        (g' = run { model := authors } collaboration ↔
          (run { model := authors } collaboration).BoundToNearest) := by
  have hnew : AlwaysMintsNew { model := authors } collaboration :=
    ⟨trivial, trivial, trivial, trivial, trivial, trivial⟩
  have hchecks : ChecksCatalogs collaboration := by
    simp [collaboration, checksCatalogs_cons, checksCatalogs_nil]
  exact ⟨hnew, hchecks, by decide, replaceModel_run_iff authors {} hnew hchecks⟩

def friendship : List Operation :=
  [.addNodeWithId "ada" author.iri {}, .addNodeWithId "bob" person.iri {},
    .addEdge "ada" "bob" knows]

/-- The model is read anew, and the edge is gone. -/
theorem replaceModel_run_friendship :
    AlwaysMintsNew { model := authors } friendship ∧ ChecksCatalogs friendship ∧
      (run { model := authors } friendship).edges.length = 1 ∧
      (run { model := authors } friendship).model = authors ∧
      ∃ g', (run { model := authors } friendship).replaceModel authors = .ok g' ∧
        g'.edges = [] ∧ g' ≠ run { model := authors } friendship := by
  refine ⟨⟨trivial, trivial, trivial, trivial⟩, ?_, by decide, by decide, ?_⟩
  · simp [friendship, checksCatalogs_cons, checksCatalogs_nil]
  · refine ⟨_, rfl, by decide, by decide⟩

end OntoGraph.Graph.InstanceGraph
