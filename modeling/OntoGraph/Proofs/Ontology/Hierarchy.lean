import OntoGraph.Proofs.Ontology.Chain
import OntoGraph.Proofs.Ontology.References

/-!
# The hierarchy of classes

The compiler follows the parent links of each class and refuses a graph when it meets a class
twice. It does so exactly if some class is on a cycle. Of a graph that is compiled, a resolver
resolves every class, and the chain of a class is its path to the root.
-/

namespace OntoGraph.Ontology

open Rdf Relation

/-! ## Following parent links -/

section

variable {classes : SortedMap Class} {parent : String → Option String}

/-- Do the classes stand under their own IRIs, with parents that are classes? -/
structure Hierarchy (classes : SortedMap Class) (parent : String → Option String) : Prop where
  keyed : ∀ iri c, classes.get? iri = some c → c.iri = iri
  linked : ∀ iri c, classes.get? iri = some c → c.subClassOf = parent iri
  closed : ∀ iri next, parent iri = some next → next ∈ classes.keys

/-- A class that is met again, after classes whose way leads on from it, is on a cycle. -/
theorem Hierarchy.onCycle_of_revisitedFrom (h : Hierarchy classes parent) {fuel : Nat}
    {visited : List String} {iri found : String}
    (hvisited : ∀ v ∈ visited, TransGen (ParentOf parent) v iri)
    (hfound : revisitedFrom classes fuel visited iri = some found) :
    found ∈ classes.keys ∧ OnCycle parent found := by
  induction fuel generalizing visited iri with
  | zero => cases hfound
  | succ fuel ih =>
    unfold revisitedFrom at hfound
    cases hget : classes.get? iri with
    | none =>
      rw [hget] at hfound
      cases hfound
    | some c =>
      rw [hget] at hfound
      dsimp only at hfound
      rw [h.keyed iri c hget, h.linked iri c hget] at hfound
      split_ifs at hfound with hagain
      · cases hfound
        exact ⟨SortedMap.mem_keys.2 ⟨c, hget⟩, hvisited _ (by simpa using hagain)⟩
      · obtain ⟨next, hnext, hfound⟩ := Option.bind_eq_some_iff.1 hfound
        refine ih (fun v hv ↦ ?_) hfound
        rcases List.mem_cons.1 hv with rfl | hv
        · exact .single hnext
        · exact (hvisited v hv).tail hnext

/-- Where no class is met again, the way up ends in a root. There is fuel for all classes, so that
it cannot run out before a class is met again. -/
theorem Hierarchy.exists_rootPath_of_revisitedFrom (h : Hierarchy classes parent) {fuel : Nat}
    {visited : List String} {iri : String} (hiri : iri ∈ classes.keys) (hnodup : visited.Nodup)
    (hkeys : visited ⊆ classes.keys) (hfuel : classes.size < visited.length + fuel)
    (hnone : revisitedFrom classes fuel visited iri = none) :
    ∃ path, RootPath parent iri path := by
  induction fuel generalizing visited iri with
  | zero =>
    have hle : visited.length ≤ classes.size :=
      calc visited.length
          ≤ classes.keys.length := (List.subperm_of_subset hnodup hkeys).length_le
        _ = classes.size := List.length_map _
    exact absurd hfuel (Nat.not_lt.2 hle)
  | succ fuel ih =>
    obtain ⟨c, hget⟩ := SortedMap.mem_keys.1 hiri
    unfold revisitedFrom at hnone
    rw [hget] at hnone
    dsimp only at hnone
    rw [h.keyed iri c hget, h.linked iri c hget] at hnone
    split_ifs at hnone with hagain
    · cases hparent : parent iri with
      | none => exact ⟨[iri], .root hparent⟩
      | some next =>
        rw [hparent, Option.bind_some] at hnone
        have hnot : iri ∉ visited := by simpa using hagain
        obtain ⟨path, hpath⟩ := ih (h.closed iri next hparent) (List.nodup_cons.2 ⟨hnot, hnodup⟩)
          (List.cons_subset.2 ⟨hiri, hkeys⟩) (by rw [List.length_cons]; omega) hnone
        exact ⟨iri :: path, .step hparent hpath⟩

/-- The compiler names a class only if it is on a cycle. -/
theorem Hierarchy.onCycle_of_cycle? (h : Hierarchy classes parent) {found : String}
    (hfound : cycle? classes = some found) : found ∈ classes.keys ∧ OnCycle parent found := by
  obtain ⟨iri, -, hiri⟩ := List.exists_of_findSome?_eq_some hfound
  exact h.onCycle_of_revisitedFrom (fun v hv ↦ absurd hv List.not_mem_nil) hiri

/-- If the compiler names no class, every class has a path to a root. -/
theorem Hierarchy.exists_rootPath_of_cycle? (h : Hierarchy classes parent)
    (hnone : cycle? classes = none) {iri : String} (hiri : iri ∈ classes.keys) :
    ∃ path, RootPath parent iri path := by
  refine h.exists_rootPath_of_revisitedFrom hiri List.nodup_nil (List.nil_subset _) ?_
    (List.findSome?_eq_none_iff.1 hnone iri hiri)
  rw [List.length_nil, Nat.zero_add]
  exact Nat.lt_succ_self _

/-- The compiler names a class exactly if some class is on a cycle. -/
theorem Hierarchy.isSome_cycle?_iff (h : Hierarchy classes parent) :
    (cycle? classes).isSome = true ↔ ∃ iri, OnCycle parent iri := by
  constructor
  · intro hsome
    obtain ⟨found, hfound⟩ := Option.isSome_iff_exists.1 hsome
    exact ⟨found, (h.onCycle_of_cycle? hfound).2⟩
  · rintro ⟨iri, hcycle⟩
    by_contra hnone
    obtain ⟨before, -, hparent⟩ := TransGen.tail'_iff.1 hcycle
    obtain ⟨path, hpath⟩ := h.exists_rootPath_of_cycle?
      (Option.not_isSome_iff_eq_none.1 hnone) (h.closed before iri hparent)
    exact hpath.not_onCycle hcycle

end

/-! ## Compiled hierarchies -/

/-- The parent of a class: the first superclass that the graph states, if it is a class. -/
def parent? (store : Store) (iri : String) : Option String :=
  ((store.object? (.iri iri) rdfsSubClassOf).bind Term.iri?).filter (classIris store).contains

variable {store : Store}

theorem mem_classIris_of_parent? {iri next : String} (h : parent? store iri = some next) :
    next ∈ classIris store :=
  mem_classIris_of_subClassOf h

theorem hierarchy_compiledClasses (store : Store) :
    Hierarchy (compiledClasses store) (parent? store) where
  keyed iri c hc := by
    rw [get?_compiledClasses] at hc
    split at hc <;> cases hc
    rfl
  linked iri c hc := by
    rw [get?_compiledClasses] at hc
    split at hc <;> cases hc
    rfl
  closed _ _ h := mem_keys_compiledClasses.2 (mem_classIris_of_parent? h)

/-- Where no class is lost, the chain of a class is its path to the root. -/
theorem exists_chain_compiledModel (happart : ClassesApart store)
    (hcycle : cycle? (compiledClasses store) = none) {iri : String}
    (hiri : iri ∈ classIris store) : ∃ path, RootPath (parent? store) iri path ∧
      (compiledModel store).chain iri = .ok (path.map fun c ↦ (classOf store c).link) := by
  obtain ⟨path, hpath⟩ := (hierarchy_compiledClasses store).exists_rootPath_of_cycle? hcycle
    (mem_keys_compiledClasses.2 hiri)
  refine ⟨path, hpath, Model.chain_of_rootPath hpath fun c hc ↦ ⟨?_, rfl⟩⟩
  have hclass : c ∈ classIris store :=
    hpath.forall_mem hiri (fun _ _ _ hnext ↦ mem_classIris_of_parent? hnext) c hc
  exact class?_compiledModel.2 ⟨forall_findsClass_iff.2 happart c hclass, rfl⟩

/-- The cycle check of the compiler and the resolver agree. A graph is refused for a class only if
this is on a cycle, and always if there is a cycle. Of a graph that is compiled and where no class
is lost, a resolver resolves and remembers every class, and the chain of a class is its path to the
root, on which no class comes twice. -/
theorem cycleCheck_agrees (store : Store) :
    (∀ c, compile store = .error (.inheritanceCycle c) →
      c ∈ classIris store ∧ OnCycle (parent? store) c) ∧
    ((∃ c, OnCycle (parent? store) c) → ∃ c, compile store = .error (.inheritanceCycle c)) ∧
    (ClassesApart store → ∀ m, compile store = .ok m →
      ∃ warmed, (Resolver.mk m ∅).warm = (.ok m.classCount, warmed) ∧
        ∀ iri ∈ classIris store, warmed.isCached iri = true ∧
          ∃ path, RootPath (parent? store) iri path ∧ path.Nodup ∧
            (warmed.chain iri).1 = .ok (path.map fun c ↦ (classOf store c).link)) := by
  have hierarchy := hierarchy_compiledClasses store
  refine ⟨fun c hc ↦ ?_, fun hcycle ↦ ?_, fun happart m hm ↦ ?_⟩
  · obtain ⟨found, hfound, heq⟩ := compile_eq_error_iff.1 hc
    cases heq
    obtain ⟨hmem, hcycle⟩ := hierarchy.onCycle_of_cycle? hfound
    exact ⟨mem_keys_compiledClasses.1 hmem, hcycle⟩
  · obtain ⟨found, hfound⟩ := Option.isSome_iff_exists.1 (hierarchy.isSome_cycle?_iff.2 hcycle)
    exact ⟨found, compile_eq_error_iff.2 ⟨found, hfound, rfl⟩⟩
  · obtain ⟨hcycle, rfl⟩ := compile_eq_ok_iff.1 hm
    have hchain : ∀ c ∈ (compiledModel store).classes,
        ∃ chain, (compiledModel store).chain c.iri = .ok chain := by
      intro c hc
      obtain ⟨iri, hkept, rfl⟩ := mem_classes_compiledModel.1 hc
      obtain ⟨path, -, hpath⟩ := exists_chain_compiledModel happart hcycle
        (mem_keys_compiledClasses.1 hkept.mem)
      exact ⟨_, hpath⟩
    obtain ⟨warmed, hwarm, hsound, hmodel, hcached⟩ :=
      (Resolver.sound_of_empty (compiledModel store)).warmEach hchain
    refine ⟨warmed, hwarm, fun iri hiri ↦ ⟨?_, ?_⟩⟩
    · have hkept := (forall_findsClass_iff.2 happart iri hiri).kept
      exact (hcached iri).2 (.inr ⟨_, mem_classes_compiledModel.2 ⟨iri, hkept, rfl⟩, rfl⟩)
    · obtain ⟨path, hpath, hchain⟩ := exists_chain_compiledModel happart hcycle hiri
      exact ⟨path, hpath, hpath.nodup, by rw [hsound.fst_chain, hmodel, hchain]⟩

/-- Hubs and rims are parents of each other, and spokes are rims. -/
def loops : Store :=
  .ofList [⟨.iri "https://x/Core/Hub", rdfType, .iri owlClass⟩,
    ⟨.iri "https://x/Core/Rim", rdfType, .iri owlClass⟩,
    ⟨.iri "https://x/Core/Spoke", rdfType, .iri owlClass⟩,
    ⟨.iri "https://x/Core/Hub", rdfsSubClassOf, .iri "https://x/Core/Rim"⟩,
    ⟨.iri "https://x/Core/Rim", rdfsSubClassOf, .iri "https://x/Core/Hub"⟩,
    ⟨.iri "https://x/Core/Spoke", rdfsSubClassOf, .iri "https://x/Core/Rim"⟩]

theorem cycleCheck_agrees_wheels :
    (∃ c, compile loops = .error (.inheritanceCycle c) ∧ OnCycle (parent? loops) c) ∧
      ∃ m warmed, compile wheels = .ok m ∧ (Resolver.mk m ∅).warm = (.ok 2, warmed) ∧
        warmed.isCached "https://x/Core/Wheel" = true ∧
        ∃ path, RootPath (parent? wheels) "https://x/Core/Wheel" path ∧ path.Nodup ∧
          (warmed.chain "https://x/Core/Wheel").1 =
            .ok (path.map fun c ↦ (classOf wheels c).link) := by
  constructor
  · have hparents : parent? loops "https://x/Core/Hub" = some "https://x/Core/Rim" ∧
        parent? loops "https://x/Core/Rim" = some "https://x/Core/Hub" := by
      decide +kernel
    obtain ⟨hsound, hcomplete, -⟩ := cycleCheck_agrees loops
    obtain ⟨c, hc⟩ := hcomplete ⟨_, .tail (.single hparents.1) hparents.2⟩
    exact ⟨c, hc, (hsound c hc).2⟩
  · have hchecks : cycle? (compiledClasses wheels) = none ∧ ClassesApart wheels ∧
        "https://x/Core/Wheel" ∈ classIris wheels ∧ (compiledModel wheels).classCount = 2 := by
      decide +kernel
    obtain ⟨hcycle, happart, hwheel, hcount⟩ := hchecks
    have hcompile : compile wheels = .ok (compiledModel wheels) :=
      compile_eq_ok_iff.2 ⟨hcycle, rfl⟩
    obtain ⟨warmed, hwarm, hresolved⟩ := (cycleCheck_agrees wheels).2.2 happart _ hcompile
    rw [hcount] at hwarm
    exact ⟨_, warmed, hcompile, hwarm, hresolved _ hwheel⟩

end OntoGraph.Ontology
