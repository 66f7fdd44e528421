import OntoGraph.Proofs.Graph.Reports
import OntoGraph.Proofs.SortedMap

/-!
# Unmet requirements

A class may declare a path again that an ancestor declares, and ask for fewer values or for none.
The requirement of the ancestor stays all the same. The main statement says what the list of unmet
requirements of a node is: every path that some declaration of the chain asks more values of, once
each, with the nearest declaration that does, in the order of the chain.
-/

namespace OntoGraph.Ontology

/-! ## Places of declarations -/

/-- Where a chain declares a property: so many steps up the chain, under this name. -/
structure Place where
  steps : Nat
  name : String

/-- Is the first place in a nearer class, or earlier by name in the same class? -/
def Place.Before (p q : Place) : Prop := p.steps < q.steps ∨ p.steps = q.steps ∧ p.name < q.name

theorem Place.Before.asymm {p q : Place} (h : p.Before q) : ¬q.Before p := by
  rintro (hsteps | ⟨hsteps, hname⟩)
  · rcases h with h | h <;> omega
  · rcases h with h | h
    · omega
    · exact String.lt_asymm hname h.2

theorem Place.not_before_self (p : Place) : ¬p.Before p := fun h ↦ h.asymm h

namespace Chain

def DeclaresAt (chain : Chain) (p : Place) (cp : ClassProperty) : Prop :=
  ∃ link, chain[p.steps]? = some link ∧ link.properties.get? p.name = some cp

/-- The declarations of one class with their places. -/
def placedAt (link : ChainLink) (steps : Nat) : List (Place × ClassProperty) :=
  link.properties.toList.map fun pair ↦ (⟨steps, pair.1⟩, pair.2)

def placed (chain : Chain) : List (Place × ClassProperty) :=
  chain.zipIdx.flatMap fun pair ↦ placedAt pair.1 pair.2

@[simp] theorem map_placedAt (link : ChainLink) (steps : Nat) :
    (placedAt link steps).map (·.2) = link.properties.values := by
  simp [placedAt, SortedMap.values]

@[simp] theorem map_placed (chain : Chain) : chain.placed.map (·.2) = chain.declarations := by
  unfold placed declarations
  rw [List.map_flatMap]
  simp only [map_placedAt]
  calc chain.zipIdx.flatMap (fun pair ↦ pair.1.properties.values)
      = (chain.zipIdx.map Prod.fst).flatMap (·.properties.values) := by rw [List.flatMap_map]
    _ = chain.flatMap (·.properties.values) := by rw [List.zipIdx_map_fst]

@[simp] theorem mem_placedAt {link : ChainLink} {steps : Nat} {p : Place} {cp : ClassProperty} :
    (p, cp) ∈ placedAt link steps ↔ p.steps = steps ∧ link.properties.get? p.name = some cp := by
  simp only [placedAt, List.mem_map, SortedMap.get?_eq_some_iff]
  constructor
  · rintro ⟨⟨name, cp⟩, hmem, heq⟩
    cases heq
    exact ⟨rfl, hmem⟩
  · rintro ⟨rfl, hmem⟩
    exact ⟨(p.name, cp), hmem, rfl⟩

@[simp] theorem mem_placed {chain : Chain} {p : Place} {cp : ClassProperty} :
    (p, cp) ∈ chain.placed ↔ chain.DeclaresAt p cp := by
  unfold placed DeclaresAt
  rw [List.mem_flatMap]
  constructor
  · rintro ⟨⟨link, steps⟩, hlink, hmem⟩
    obtain ⟨rfl, hget⟩ := mem_placedAt.1 hmem
    exact ⟨link, List.mem_zipIdx_iff_getElem?.1 hlink, hget⟩
  · rintro ⟨link, hlink, hget⟩
    exact ⟨(link, p.steps), List.mem_zipIdx_iff_getElem?.2 hlink, mem_placedAt.2 ⟨rfl, hget⟩⟩

/-- The declarations stand in the order of their places. -/
theorem pairwise_placed (chain : Chain) :
    chain.placed.Pairwise fun first second ↦ first.1.Before second.1 := by
  apply List.pairwise_flatMap.2
  constructor
  · rintro ⟨link, steps⟩ -
    apply List.pairwise_map.2
    exact link.properties.sorted.imp fun hlt ↦ .inr ⟨rfl, hlt⟩
  · have hsteps : chain.zipIdx.Pairwise fun first second ↦ first.2 < second.2 := by
      apply List.pairwise_map.1
      rw [List.zipIdx_map_snd]
      exact List.pairwise_lt_range'
    apply hsteps.imp
    rintro ⟨link, steps⟩ ⟨other, further⟩ hlt ⟨p, cp⟩ hmem ⟨q, cp'⟩ hmem'
    left
    rw [(mem_placedAt.1 hmem).1, (mem_placedAt.1 hmem').1]
    exact hlt

end Chain

/-! ## The first of each path -/

theorem mem_paths_firstOfEachPath {seen : List String} {cps : List ClassProperty} {path : String} :
    path ∈ (ClassProperty.firstOfEachPath seen cps).map (·.path) ↔
      path ∉ seen ∧ path ∈ cps.map (·.path) := by
  induction cps generalizing seen with
  | nil => simp [ClassProperty.firstOfEachPath]
  | cons cp cps ih =>
    unfold ClassProperty.firstOfEachPath
    split_ifs with hseen
    · rw [List.contains_iff_mem] at hseen
      rw [ih, List.map_cons, List.mem_cons]
      refine and_congr_right fun hpath ↦ (or_iff_right ?_).symm
      rintro rfl
      exact hpath hseen
    · rw [List.contains_iff_mem] at hseen
      rw [List.map_cons, List.mem_cons, ih, List.map_cons, List.mem_cons, List.mem_cons]
      by_cases heq : path = cp.path
      · simp [heq, hseen]
      · simp [heq]

/-- Of declarations in the order of their places, those are left that no declaration of the same
path comes before. -/
theorem exists_firstOfEachPath {placed : List (Place × ClassProperty)}
    (hsorted : placed.Pairwise fun first second ↦ first.1.Before second.1) (seen : List String) :
    ∃ kept : List (Place × ClassProperty), kept.Sublist placed ∧
      ClassProperty.firstOfEachPath seen (placed.map (·.2)) = kept.map (·.2) ∧
      ∀ x ∈ kept, x.2.path ∉ seen ∧ ∀ y ∈ placed, y.1.Before x.1 → y.2.path ≠ x.2.path := by
  induction placed generalizing seen with
  | nil => exact ⟨[], .slnil, rfl, by rintro _ ⟨⟩⟩
  | cons first rest ih =>
    obtain ⟨hfirst, hrest⟩ := List.pairwise_cons.1 hsorted
    rw [List.map_cons, ClassProperty.firstOfEachPath]
    split_ifs with hseen
    · rw [List.contains_iff_mem] at hseen
      obtain ⟨kept, hsub, heq, hkept⟩ := ih hrest seen
      refine ⟨kept, hsub.cons first, heq, fun x hx ↦ ?_⟩
      obtain ⟨hnew, hnearest⟩ := hkept x hx
      refine ⟨hnew, List.forall_mem_cons.2 ⟨fun _ hpath ↦ ?_, hnearest⟩⟩
      exact hnew (hpath ▸ hseen)
    · rw [List.contains_iff_mem] at hseen
      obtain ⟨kept, hsub, heq, hkept⟩ := ih hrest (first.2.path :: seen)
      refine ⟨first :: kept, hsub.cons_cons first, by rw [heq, List.map_cons],
        List.forall_mem_cons.2 ⟨⟨hseen, ?_⟩, fun x hx ↦ ?_⟩⟩
      · -- Nothing stands before the first declaration.
        refine List.forall_mem_cons.2 ⟨fun hbefore ↦ ?_, fun y hy hbefore ↦ ?_⟩
        · exact absurd hbefore (Place.not_before_self _)
        · exact absurd hbefore (hfirst y hy).asymm
      · obtain ⟨hunseen, hnearest⟩ := hkept x hx
        rw [List.mem_cons, not_or] at hunseen
        exact ⟨hunseen.2, List.forall_mem_cons.2 ⟨fun _ ↦ Ne.symm hunseen.1, hnearest⟩⟩

end OntoGraph.Ontology

namespace OntoGraph.Graph.InstanceGraph

open Ontology

/-! ## The report -/

def AsksForMore (g : InstanceGraph) (n : Node) (cp : ClassProperty) : Prop :=
  ∃ min, cp.minCount = some min ∧ g.satisfyingCount n cp < min

/-- Does the node have the declaration at the place, and is it the nearest of its path that asks
for more values? Nearer declarations of the path may ask for less. -/
structure IsNearestUnmet (g : InstanceGraph) (n : Node) (p : Place) (cp : ClassProperty) :
    Prop where
  declared : n.chain.DeclaresAt p cp
  unmet : g.AsksForMore n cp
  nearest : ∀ q other, q.Before p → n.chain.DeclaresAt q other → other.path = cp.path →
    ¬g.AsksForMore n other

/-- Is the list one of all unmet requirements of the node? -/
structure ListsUnmet (g : InstanceGraph) (n : Node) (reported : List ClassProperty) : Prop where
  /-- No path is listed twice. -/
  once : (reported.map (·.path)).Nodup
  /-- A path is listed exactly if some declaration of the chain asks for more. -/
  paths : ∀ path, path ∈ reported.map (·.path) ↔
    ∃ p cp, n.chain.DeclaresAt p cp ∧ cp.path = path ∧ g.AsksForMore n cp
  /-- Each path is listed with its nearest unmet declaration, in the order of the places. -/
  places : ∃ places : List Place, places.Pairwise Place.Before ∧
    List.Forall₂ (g.IsNearestUnmet n) places reported

theorem isUnmet_iff {g : InstanceGraph} {n : Node} {cp : ClassProperty} :
    g.isUnmet n cp = true ↔ g.AsksForMore n cp := by
  simp [isUnmet, AsksForMore, Option.any_eq_true]

/-- The unmet requirements of a node are reported once for each path, and nothing hides them: not
another declaration of the path in a nearer class that is met or asks for nothing. -/
theorem unmetRequired_lists (g : InstanceGraph) (n : Node) :
    g.ListsUnmet n (g.unmetRequired n) := by
  let unmet : List (Place × ClassProperty) := n.chain.placed.filter fun x ↦ g.isUnmet n x.2
  have hmap : n.chain.declarations.filter (g.isUnmet n) = unmet.map (·.2) := by
    rw [← Chain.map_placed, List.filter_map]
    rfl
  have hmem : ∀ p cp, (p, cp) ∈ unmet ↔ n.chain.DeclaresAt p cp ∧ g.AsksForMore n cp := by
    intro p cp
    rw [List.mem_filter, Chain.mem_placed, isUnmet_iff]
  have hsorted := (Chain.pairwise_placed n.chain).filter fun x ↦ g.isUnmet n x.2
  obtain ⟨kept, hsub, heq, hkept⟩ := exists_firstOfEachPath hsorted []
  have hreported : g.unmetRequired n = kept.map (·.2) := by
    rw [unmetRequired, hmap]
    exact heq
  refine ⟨(paths_firstOfEachPath [] _).2, fun path ↦ ?_, kept.map (·.1), ?_, ?_⟩
  · rw [unmetRequired, mem_paths_firstOfEachPath, hmap, List.map_map, List.mem_map]
    constructor
    · rintro ⟨-, ⟨p, cp⟩, hx, hpath⟩
      obtain ⟨hdeclared, hasks⟩ := (hmem p cp).1 hx
      exact ⟨p, cp, hdeclared, hpath, hasks⟩
    · rintro ⟨p, cp, hdeclared, hpath, hasks⟩
      exact ⟨List.not_mem_nil, (p, cp), (hmem p cp).2 ⟨hdeclared, hasks⟩, hpath⟩
  · apply List.pairwise_map.2
    exact hsorted.sublist hsub
  · rw [hreported, List.forall₂_map_left_iff, List.forall₂_map_right_iff, List.forall₂_same]
    rintro ⟨p, cp⟩ hx
    obtain ⟨hdeclared, hasks⟩ := (hmem p cp).1 (hsub.subset hx)
    refine ⟨hdeclared, hasks, fun q other hbefore hother hpath hmore ↦ ?_⟩
    exact (hkept (p, cp) hx).2 (q, other) ((hmem q other).2 ⟨hother, hmore⟩) hbefore hpath

end OntoGraph.Graph.InstanceGraph
