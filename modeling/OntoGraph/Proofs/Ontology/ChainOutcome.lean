import OntoGraph.Proofs.Ontology.Resolution
import OntoGraph.Proofs.Ontology.ResolverRun

/-!
# What asking for a chain comes to

However malformed a model is, a resolver answers with one of three things: the classes up to a
root, each with the properties that it declares itself, the first IRI on the way that is no class,
or the first that comes a second time. Which of them it is follows from the model alone, and the
walk ends by itself before its bound is reached. In a chain, the nearest class that declares a path
is the one whose declaration is found.
-/

namespace OntoGraph.Ontology

/-! ## The three outcomes -/

/-- What the way up from an IRI comes to. -/
inductive Model.Outcome (m : Model) (iri : String) : Except ResolveError Chain → Prop where
  /-- The way leads over different classes to one without a parent. -/
  | root {classes : List Class}
    (way : RootPath m.parentIn? iri (classes.map (·.iri)))
    (found : ∀ c ∈ classes, m.class? c.iri = some c)
    (distinct : (classes.map (·.iri)).Nodup) :
    Outcome m iri (.ok (classes.map Class.link))
  /-- The way leads over different classes to an IRI that is no class. -/
  | unknown {path : List String} {missing : String}
    (way : WayUp m.parentIn? iri path missing)
    (found : ∀ other ∈ path, ∃ c, m.class? other = some c)
    (distinct : path.Nodup)
    (absent : m.class? missing = none) :
    Outcome m iri (.error (.unknownClass missing))
  /-- The way leads over different classes to one of them. -/
  | cycle {path : List String} {met : String}
    (way : WayUp m.parentIn? iri path met)
    (found : ∀ other ∈ path, ∃ c, m.class? other = some c)
    (distinct : path.Nodup)
    (again : met ∈ path) :
    Outcome m iri (.error (.inheritanceCycle met))

namespace Model

variable {m : Model} {iri : String}

/-- The IRIs on a way up, the stop apart, are classes. -/
theorem exists_class?_of_wayUp {path : List String} {stop : String}
    (h : WayUp m.parentIn? iri path stop) : ∀ other ∈ path, ∃ c, m.class? other = some c := by
  induction h with
  | here => exact fun _ hother ↦ absurd hother List.not_mem_nil
  | step hnext _ ih => exact List.forall_mem_cons.2 ⟨exists_class?_of_parentIn? hnext, ih⟩

/-- A way over classes to a root is the chain, with the links of the classes. -/
theorem chain_of_classes {classes : List Class}
    (way : RootPath m.parentIn? iri (classes.map (·.iri)))
    (found : ∀ c ∈ classes, m.class? c.iri = some c) :
    m.chain iri = .ok (classes.map Class.link) := by
  obtain ⟨first, hfirst, -⟩ := List.mem_map.1 way.mem_self
  let classOf (other : String) : Class := (m.class? other).getD first
  have hclassOf : ∀ c ∈ classes, classOf c.iri = c := by
    intro c hc
    simp only [classOf, found c hc, Option.getD_some]
  have hway : ∀ other ∈ classes.map (·.iri), m.class? other = some (classOf other) ∧
      (classOf other).subClassOf = m.parentIn? other := by
    intro other hother
    obtain ⟨c, hc, rfl⟩ := List.mem_map.1 hother
    rw [hclassOf c hc]
    exact ⟨found c hc, (parentIn?_of_class? (found c hc)).symm⟩
  calc m.chain iri
      = .ok ((classes.map (·.iri)).map fun other ↦ (classOf other).link) :=
        chain_of_rootPath way hway
    _ = .ok (classes.map Class.link) := by
        rw [List.map_map]
        congr 1
        apply List.map_congr_left
        intro c hc
        exact congrArg Class.link (hclassOf c hc)

/-- Where all IRIs of a path are those of classes, it is the path of these classes. -/
theorem exists_classes_of_path {path : List String}
    (h : ∀ other ∈ path, ∃ c, m.class? other = some c) :
    ∃ classes : List Class, classes.map (·.iri) = path ∧ ∀ c ∈ classes, m.class? c.iri = some c := by
  induction path with
  | nil => exact ⟨[], rfl, fun _ hc ↦ absurd hc List.not_mem_nil⟩
  | cons other path ih =>
    obtain ⟨⟨c, hc⟩, hrest⟩ := List.forall_mem_cons.1 h
    obtain ⟨classes, rfl, found⟩ := ih hrest
    have hiri := iri_of_class? hc
    refine ⟨c :: classes, by rw [List.map_cons, hiri], List.forall_mem_cons.2 ⟨?_, found⟩⟩
    rw [hiri]
    exact hc

/-- The chain comes to exactly one of the three outcomes. -/
theorem chain_eq_iff_outcome {result : Except ResolveError Chain} :
    m.chain iri = result ↔ m.Outcome iri result := by
  constructor
  · rintro rfl
    cases hchain : m.chain iri with
    | ok chain =>
      obtain ⟨path, way, hclasses⟩ := exists_chain_iff.1 ⟨chain, hchain⟩
      obtain ⟨classes, rfl, found⟩ := exists_classes_of_path hclasses
      cases hchain.symm.trans (chain_of_classes way found)
      exact .root way found way.nodup
    | error error =>
      have hobstructs := chain_eq_error_iff.1 hchain
      cases error with
      | unknownClass missing =>
        obtain ⟨path, way, absent⟩ := hobstructs
        have hstop : m.parentIn? missing = none := by rw [parentIn?, absent, Option.bind_none]
        exact .unknown way (exists_class?_of_wayUp way) (way.rootPath hstop).nodup.of_append_left
          absent
      | inheritanceCycle met =>
        obtain ⟨path, way, distinct, again⟩ := hobstructs
        exact .cycle way (exists_class?_of_wayUp way) distinct again
  · intro h
    cases h with
    | root way found distinct => exact chain_of_classes way found
    | unknown way found distinct absent => exact chain_eq_error_iff.2 ⟨_, way, absent⟩
    | cycle way found distinct again => exact chain_eq_error_iff.2 ⟨_, way, distinct, again⟩

/-! ## The bound -/

/-- While different classes are passed, those still to come are no more than the bound. -/
theorem fuel_pos {fuel : Nat} {visited : List String} (hnodup : visited.Nodup)
    (hkeys : visited ⊆ m.index.keys) (hfuel : m.index.size < visited.length + fuel) :
    ∃ rest, fuel = rest + 1 := by
  have hle : visited.length ≤ m.index.size :=
    calc visited.length
        ≤ m.index.keys.length := (List.subperm_of_subset hnodup hkeys).length_le
      _ = m.index.size := List.length_map _
  exact Nat.exists_eq_add_one.2 (by omega)

/-- A walk with enough fuel does not depend on how much it is. -/
theorem chainFrom_congr {fuel fuel' : Nat} {visited : List String}
    (hnodup : visited.Nodup) (hkeys : visited ⊆ m.index.keys)
    (hfuel : m.index.size < visited.length + fuel)
    (hfuel' : m.index.size < visited.length + fuel') :
    m.chainFrom fuel visited iri = m.chainFrom fuel' visited iri := by
  induction fuel generalizing fuel' visited iri with
  | zero =>
    obtain ⟨rest, hrest⟩ := fuel_pos hnodup hkeys hfuel
    cases hrest
  | succ fuel ih =>
    obtain ⟨fuel', rfl⟩ := fuel_pos hnodup hkeys hfuel'
    rw [chainFrom, chainFrom]
    by_cases hvisited : visited.contains iri = true
    · rw [if_pos hvisited, if_pos hvisited]
    rw [if_neg hvisited, if_neg hvisited]
    cases hclass : m.class? iri with
    | none => rfl
    | some c =>
      cases hparent : c.subClassOf with
      | none => simp only [hparent]
      | some parent =>
        have hnew : iri ∉ visited := by simpa using hvisited
        have hrest := @ih parent fuel' (iri :: visited) (List.nodup_cons.2 ⟨hnew, hnodup⟩)
          (List.cons_subset.2 ⟨mem_keys_of_class? hclass, hkeys⟩)
          (by rw [List.length_cons]; omega) (by rw [List.length_cons]; omega)
        simp only [hparent, hrest]

/-- More fuel than there are entities changes nothing: the walk ends by itself. -/
theorem chainFrom_eq_chain {fuel : Nat} (h : m.index.size < fuel) :
    m.chainFrom fuel [] iri = m.chain iri :=
  chainFrom_congr List.nodup_nil (List.nil_subset _)
    (by rwa [List.length_nil, Nat.zero_add]) (by rw [List.length_nil]; omega)

end Model

/-! ## The nearest declaration -/

/-- The declaration of a path that is found is that of the nearest class that has one, which is the
first by name if the class has several. -/
theorem Chain.nearest?_eq_some_iff {chain : Chain} {path : String} {cp : ClassProperty} :
    chain.nearest? path = some cp ↔
      ∃ nearer link further, chain = nearer ++ link :: further ∧
        link.properties.values.find? (·.path = path) = some cp ∧
        ∀ other ∈ nearer, ∀ declared ∈ other.properties.values, declared.path ≠ path := by
  rw [nearest?, declarations, List.find?_flatMap, List.findSome?_eq_some_iff]
  simp

namespace Resolver

/-- After any calls, a resolver answers as the way up in its present model comes out. The bound on
the length of the walk plays no part in the answer, and in a chain that is the answer the
declaration found for a path is that of the nearest class that has one. -/
theorem chain_run_iff_outcome (m : Model) (calls : List Call) (iri : String) :
    let r := (Resolver.mk m ∅).run calls
    (∀ result, (r.chain iri).1 = result ↔ r.model.Outcome iri result) ∧
      (∀ fuel, r.model.index.size < fuel → r.model.chainFrom fuel [] iri = (r.chain iri).1) ∧
      ∀ chain, (r.chain iri).1 = .ok chain → ∀ path cp,
        chain.nearest? path = some cp ↔
          ∃ nearer link further, chain = nearer ++ link :: further ∧
            link.properties.values.find? (·.path = path) = some cp ∧
            ∀ other ∈ nearer, ∀ declared ∈ other.properties.values, declared.path ≠ path := by
  intro r
  obtain ⟨hsound, -⟩ := (sound_of_empty m).run calls
  rw [hsound.fst_chain]
  refine ⟨fun result ↦ Model.chain_eq_iff_outcome, fun fuel hfuel ↦ ?_, fun chain _ path cp ↦ ?_⟩
  · exact Model.chainFrom_eq_chain hfuel
  · exact Chain.nearest?_eq_some_iff

end Resolver

end OntoGraph.Ontology
