import Mathlib.Data.List.Perm.Subperm
import Mathlib.Logic.Relation
import OntoGraph.Ontology.Resolver
import OntoGraph.Proofs.Fallible
import OntoGraph.Proofs.SortedMap

/-!
# Paths to the root

A class has at most one parent, so that from each class there is one way up. It ends in a root, or
it comes back to a class on a cycle. Where it ends, the chain of the class lists it, and a resolver
gives this chain whether it remembers it or not.
-/

namespace OntoGraph.Ontology

open Relation

/-! ## Paths -/

/-- Does the second IRI name the parent of the first? -/
abbrev ParentOf (parent : String → Option String) (iri next : String) : Prop :=
  parent iri = some next

/-- Do the parents of the IRI come back to it? -/
def OnCycle (parent : String → Option String) (iri : String) : Prop :=
  TransGen (ParentOf parent) iri iri

/-- The IRIs from one on, each followed by its parent, up to one without a parent. -/
inductive RootPath (parent : String → Option String) : String → List String → Prop where
  | root {iri : String} (h : parent iri = none) : RootPath parent iri [iri]
  | step {iri next : String} {path : List String} (h : parent iri = some next)
      (rest : RootPath parent next path) : RootPath parent iri (iri :: path)

namespace RootPath

variable {parent : String → Option String} {iri other : String} {path path' : List String}

theorem mem_self (h : RootPath parent iri path) : iri ∈ path := by
  cases h <;> exact List.mem_cons_self

theorem unique (h : RootPath parent iri path) (h' : RootPath parent iri path') : path = path' := by
  induction h generalizing path' with
  | root hnone =>
    cases h' with
    | root => rfl
    | step hsome => cases hnone.symm.trans hsome
  | step hsome rest ih =>
    cases h' with
    | root hnone => cases hnone.symm.trans hsome
    | step hsome' rest' =>
      cases hsome.symm.trans hsome'
      rw [ih rest']

/-- What comes after an IRI on its way up has a shorter way. -/
theorem length_lt (hup : TransGen (ParentOf parent) iri other) (h : RootPath parent iri path) :
    ∃ rest, RootPath parent other rest ∧ rest.length < path.length := by
  induction hup with
  | single hnext =>
    cases h with
    | root hnone => cases hnone.symm.trans hnext
    | step hsome rest =>
      cases hsome.symm.trans hnext
      exact ⟨_, rest, Nat.lt_succ_self _⟩
  | tail _ hnext ih =>
    obtain ⟨rest, hrest, hlt⟩ := ih
    cases hrest with
    | root hnone => cases hnone.symm.trans hnext
    | step hsome rest =>
      cases hsome.symm.trans hnext
      exact ⟨_, rest, Nat.lt_trans (Nat.lt_succ_self _) hlt⟩

/-- A way that ends does not come back. -/
theorem not_onCycle (h : RootPath parent iri path) : ¬ OnCycle parent iri := by
  intro hcycle
  obtain ⟨rest, hrest, hlt⟩ := h.length_lt hcycle
  rw [hrest.unique h] at hlt
  exact Nat.lt_irrefl _ hlt

/-- What holds of an IRI and goes on to parents holds all along the way. -/
theorem forall_mem {P : String → Prop} (h : RootPath parent iri path) (hiri : P iri)
    (hnext : ∀ iri next, P iri → parent iri = some next → P next) : ∀ other ∈ path, P other := by
  induction h with
  | root => exact fun other hmem ↦ List.mem_singleton.1 hmem ▸ hiri
  | step hparent _ ih =>
    intro other hmem
    rcases List.mem_cons.1 hmem with rfl | hmem
    · exact hiri
    · exact ih (hnext _ _ hiri hparent) other hmem

theorem reaches (h : RootPath parent iri path) (hmem : other ∈ path) :
    ReflTransGen (ParentOf parent) iri other :=
  h.forall_mem .refl (fun _ _ hup hnext ↦ hup.tail hnext) other hmem

/-- No IRI is on a way to a root twice. -/
theorem nodup (h : RootPath parent iri path) : path.Nodup := by
  induction h with
  | root => exact List.pairwise_singleton _ _
  | step hnext rest ih =>
    refine List.nodup_cons.2 ⟨fun hmem ↦ ?_, ih⟩
    exact (RootPath.step hnext rest).not_onCycle (.head' hnext (rest.reaches hmem))

end RootPath

/-! ## Chains of a model -/

def Class.link (c : Class) : ChainLink := ⟨c.iri, c.name, c.properties⟩

section

variable {m : Model} {parent : String → Option String} {classOf : String → Class}

/-- Where all classes on the way to the root are found, they are the chain. -/
theorem Model.chainFrom_of_rootPath {iri : String} {path : List String}
    (h : RootPath parent iri path)
    (hclass : ∀ c ∈ path, m.class? c = some (classOf c) ∧ (classOf c).subClassOf = parent c)
    {fuel : Nat} {visited : List String} (hvisited : ∀ c ∈ path, c ∉ visited)
    (hfuel : path.length ≤ fuel + 1) :
    m.chainFrom fuel visited iri = .ok (path.map fun c ↦ (classOf c).link) := by
  induction h generalizing fuel visited with
  | root hnone =>
    obtain ⟨hfound, hparent⟩ := hclass _ List.mem_cons_self
    have hnew := hvisited _ List.mem_cons_self
    rw [hnone] at hparent
    unfold chainFrom
    simp [hnew, hfound, hparent, Class.link]
  | @step iri next path hsome rest ih =>
    obtain ⟨hfound, hparent⟩ := hclass _ List.mem_cons_self
    have hnew := hvisited _ List.mem_cons_self
    have hnot := (List.nodup_cons.1 (RootPath.step hsome rest).nodup).1
    cases fuel with
    | zero =>
      have hpos := List.length_pos_of_mem rest.mem_self
      rw [List.length_cons] at hfuel
      omega
    | succ fuel =>
      have hrest : m.chainFrom fuel (iri :: visited) next =
          .ok (path.map fun c ↦ (classOf c).link) := by
        refine ih (fun c hc ↦ hclass c (List.mem_cons_of_mem _ hc)) (fun c hc ↦ ?_)
          (Nat.le_of_succ_le_succ hfuel)
        rw [List.mem_cons, not_or]
        exact ⟨fun heq ↦ hnot (heq ▸ hc), hvisited c (List.mem_cons_of_mem _ hc)⟩
      rw [hsome] at hparent
      unfold chainFrom
      simp [hnew, hfound, hparent, hrest, Class.link, Except.map]

/-- A class is found under its own IRI. -/
theorem Model.iri_of_class? {iri : String} {c : Class} (h : m.class? iri = some c) :
    c.iri = iri := by
  revert h
  fun_cases Model.class? m iri with
  | case1 held hentity =>
    rintro ⟨⟩
    exact m.keyed _ (SortedMap.get?_eq_some_iff.1 hentity)
  | case2 => rintro ⟨⟩

/-- Classes that are found are keys of the index. -/
theorem Model.mem_keys_of_class? {iri : String} {c : Class} (h : m.class? iri = some c) :
    iri ∈ m.index.keys := by
  revert h
  fun_cases Model.class? m iri with
  | case1 held hentity =>
    exact fun _ ↦ List.mem_map_of_mem (f := Prod.fst) (SortedMap.get?_eq_some_iff.1 hentity)
  | case2 => rintro ⟨⟩

/-- A class from which a way to a root goes over classes of the model has it as its chain. -/
theorem Model.chain_of_rootPath {iri : String} {path : List String} (h : RootPath parent iri path)
    (hclass : ∀ c ∈ path, m.class? c = some (classOf c) ∧ (classOf c).subClassOf = parent c) :
    m.chain iri = .ok (path.map fun c ↦ (classOf c).link) := by
  refine chainFrom_of_rootPath h hclass (fun _ _ ↦ List.not_mem_nil) ?_
  have hkeys : path ⊆ m.index.keys := fun c hc ↦ mem_keys_of_class? (hclass c hc).1
  calc path.length
      ≤ m.index.keys.length := (List.subperm_of_subset h.nodup hkeys).length_le
    _ = m.index.size := List.length_map _
    _ ≤ m.index.size + 1 + 1 := Nat.le_add_right _ 2

/-- The links of a chain are classes of the model. -/
theorem Model.exists_class?_of_mem_chainFrom {fuel : Nat} {visited : List String}
    {iri : String} {chain : Chain} (h : m.chainFrom fuel visited iri = .ok chain) :
    ∀ link ∈ chain, ∃ other c, m.class? other = some c ∧ link = c.link := by
  induction fuel, visited, iri using chainFrom.induct (m := m) generalizing chain with
  | case1 fuel visited iri hvisited =>
    rw [chainFrom, if_pos hvisited] at h
    cases h
  | case2 fuel visited iri hnew hclass =>
    rw [chainFrom, if_neg hnew, hclass] at h
    cases h
  | case3 fuel visited iri hnew c hclass hroot =>
    rw [chainFrom, if_neg hnew, hclass] at h
    dsimp only at h
    rw [hroot] at h
    cases h
    exact List.forall_mem_singleton.2 ⟨iri, c, hclass, rfl⟩
  | case4 visited iri hnew c hclass parent hparent =>
    rw [chainFrom, if_neg hnew, hclass] at h
    dsimp only at h
    rw [hparent] at h
    cases h
  | case5 visited iri hnew c hclass fuel parent hparent ih =>
    rw [chainFrom, if_neg hnew, hclass] at h
    dsimp only at h
    rw [hparent] at h
    obtain ⟨rest, hrest, rfl⟩ := Fallible.map_eq_ok.1 h
    exact List.forall_mem_cons.2 ⟨⟨iri, c, hclass, rfl⟩, ih hrest⟩

/-- A declaration of a chain is one of a class of the model. -/
theorem Model.exists_class?_of_mem_declarations {iri : String} {chain : Chain}
    (h : m.chain iri = .ok chain) {cp : ClassProperty} (hcp : cp ∈ chain.declarations) :
    ∃ other c, m.class? other = some c ∧ cp ∈ c.properties.values := by
  obtain ⟨link, hlink, hcp⟩ := List.mem_flatMap.1 hcp
  obtain ⟨other, c, hc, rfl⟩ := exists_class?_of_mem_chainFrom h link hlink
  exact ⟨other, c, hc, hcp⟩

end

/-! ## Remembered chains -/

namespace Resolver

variable {r : Resolver} {iri other : String}

/-- Is every remembered chain that of the model? -/
def Sound (r : Resolver) : Prop :=
  ∀ iri chain, r.cache.get? iri = some chain → r.model.chain iri = .ok chain

theorem sound_of_empty (model : Model) : (Resolver.mk model ∅).Sound := by
  rintro iri chain ⟨⟩

@[simp] theorem model_chain (r : Resolver) (iri : String) : (r.chain iri).2.model = r.model := by
  unfold chain
  split
  · rfl
  · split <;> rfl

/-- The chain is that of the model, remembered or not. -/
theorem Sound.fst_chain (h : r.Sound) (iri : String) : (r.chain iri).1 = r.model.chain iri := by
  fun_cases Resolver.chain r iri with
  | case1 chain hcached => exact (h _ _ hcached).symm
  | case2 _ chain hchain => exact hchain.symm
  | case3 _ error herror => exact herror.symm

/-- After a chain was asked for, it is remembered if there is one; nothing is forgotten. -/
theorem isCached_chain (r : Resolver) (iri other : String) :
    (r.chain iri).2.isCached other = true ↔
      r.isCached other = true ∨ other = iri ∧ ∃ chain, r.model.chain iri = .ok chain := by
  unfold chain isCached SortedMap.contains
  cases hheld : r.cache.get? iri with
  | some chain =>
    constructor
    · exact .inl
    · rintro (hcached | ⟨rfl, -⟩)
      · exact hcached
      · exact Option.isSome_iff_exists.2 ⟨chain, hheld⟩
  | none =>
    cases hchain : r.model.chain iri with
    | error error => simp
    | ok chain =>
      simp only [SortedMap.get?_insert]
      by_cases heq : other = iri
      · simp [heq]
      · simp [heq]

theorem Sound.chain (h : r.Sound) (iri : String) : (r.chain iri).2.Sound := by
  fun_cases Resolver.chain r iri with
  | case1 => exact h
  | case2 _ chain hchain =>
    intro other held hheld
    rw [SortedMap.get?_insert] at hheld
    split_ifs at hheld with heq
    · cases hheld
      subst other
      exact hchain
    · exact h _ _ hheld
  | case3 => exact h

/-- Where the chains of all classes of a list are resolved, they are counted and remembered. -/
theorem Sound.warmEach {classes : List Class} (h : r.Sound)
    (hchain : ∀ c ∈ classes, ∃ chain, r.model.chain c.iri = .ok chain) :
    ∃ warmed, r.warmEach classes = (.ok classes.length, warmed) ∧ warmed.Sound ∧
      warmed.model = r.model ∧
      ∀ iri, warmed.isCached iri = true ↔ r.isCached iri = true ∨ ∃ c ∈ classes, c.iri = iri := by
  induction classes generalizing r with
  | nil => exact ⟨r, rfl, h, rfl, fun iri ↦ by simp⟩
  | cons c classes ih =>
    obtain ⟨chain, hc⟩ := hchain c List.mem_cons_self
    have hmodel := r.model_chain c.iri
    have hfirst := h.fst_chain c.iri
    obtain ⟨warmed, hrest, hsound, hsame, hcached⟩ := ih (h.chain c.iri) fun d hd ↦ by
      rw [hmodel]
      exact hchain d (List.mem_cons_of_mem _ hd)
    refine ⟨warmed, ?_, hsound, hsame.trans hmodel, fun iri ↦ ?_⟩
    · rw [hc] at hfirst
      rw [Resolver.warmEach]
      rcases hstep : r.chain c.iri with ⟨first, next⟩
      rw [hstep] at hfirst hrest
      cases hfirst
      simp [hrest, Except.map]
    · rw [hcached, isCached_chain]
      constructor
      · rintro ((hiri | ⟨rfl, -⟩) | ⟨d, hd, rfl⟩)
        · exact .inl hiri
        · exact .inr ⟨c, List.mem_cons_self, rfl⟩
        · exact .inr ⟨d, List.mem_cons_of_mem _ hd, rfl⟩
      · rintro (hiri | ⟨d, hd, rfl⟩)
        · exact .inl (.inl hiri)
        · rcases List.mem_cons.1 hd with rfl | hd
          · exact .inl (.inr ⟨rfl, chain, hc⟩)
          · exact .inr ⟨d, hd, rfl⟩

end Resolver

end OntoGraph.Ontology
