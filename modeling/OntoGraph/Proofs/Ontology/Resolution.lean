import OntoGraph.Proofs.Ontology.Chain

/-!
# When a class resolves

From an IRI one way leads up over the parents of classes. Either it ends at a root, or it leads to
an IRI that is no class, or it comes back to a class that it passed. In the first case the class
resolves, in the others the resolver names what stopped it: the IRI that is no class, or the class
that was met again first. This is so in every model, whether its parents are classes or not.
-/

namespace OntoGraph.Ontology

/-- The IRIs from one on, each followed by its parent, up to another one, which is left out. -/
inductive WayUp (parent : String → Option String) : String → List String → String → Prop where
  | here {iri : String} : WayUp parent iri [] iri
  | step {iri next stop : String} {path : List String} (h : parent iri = some next)
      (rest : WayUp parent next path stop) : WayUp parent iri (iri :: path) stop

/-- Where the way up ends, it is the path to the root. -/
theorem WayUp.rootPath {parent : String → Option String} {iri stop : String} {path : List String}
    (h : WayUp parent iri path stop) (hstop : parent stop = none) :
    RootPath parent iri (path ++ [stop]) := by
  induction h with
  | here => exact .root hstop
  | step hnext _ ih => exact .step hnext (ih hstop)

namespace Model

def parentIn? (m : Model) (iri : String) : Option String := (m.class? iri).bind (·.subClassOf)

/-- Does a way over classes of the model lead from the IRI to a root? -/
def Resolves (m : Model) (iri : String) : Prop :=
  ∃ path, RootPath m.parentIn? iri path ∧ ∀ other ∈ path, ∃ c, m.class? other = some c

/-- Does the error name what stops the way up from the IRI: what is no class, or the class that
the way first comes back to? -/
def Obstructs (m : Model) (iri : String) : ResolveError → Prop
  | .unknownClass missing => ∃ path, WayUp m.parentIn? iri path missing ∧ m.class? missing = none
  | .inheritanceCycle met => ∃ path, WayUp m.parentIn? iri path met ∧ path.Nodup ∧ met ∈ path

variable {m : Model} {iri : String}

theorem parentIn?_of_class? {c : Class} (h : m.class? iri = some c) :
    m.parentIn? iri = c.subClassOf := by
  rw [parentIn?, h, Option.bind_some]

/-- What has a parent is a class. -/
theorem exists_class?_of_parentIn? {next : String} (h : m.parentIn? iri = some next) :
    ∃ c, m.class? iri = some c := by
  obtain ⟨c, hc, -⟩ := Option.bind_eq_some_iff.1 h
  exact ⟨c, hc⟩

/-! ## What a chain comes to -/

/-- What stops a way up that has passed some IRIs before. -/
def ObstructsFrom (m : Model) (visited : List String) (iri : String) : ResolveError → Prop
  | .unknownClass missing => ∃ path, WayUp m.parentIn? iri path missing ∧ m.class? missing = none
  | .inheritanceCycle met => ∃ path, WayUp m.parentIn? iri path met ∧
      (visited.reverse ++ path).Nodup ∧ met ∈ visited.reverse ++ path

/-- What stops the way of a parent stops that of the class. -/
theorem ObstructsFrom.step {visited : List String} {next : String} {error : ResolveError}
    (h : m.parentIn? iri = some next) (hnext : m.ObstructsFrom (iri :: visited) next error) :
    m.ObstructsFrom visited iri error := by
  cases error with
  | unknownClass missing =>
    obtain ⟨path, hway, hmissing⟩ := hnext
    exact ⟨iri :: path, .step h hway, hmissing⟩
  | inheritanceCycle met =>
    obtain ⟨path, hway, hnodup, hmet⟩ := hnext
    rw [List.reverse_cons, List.append_assoc, List.singleton_append] at hnodup hmet
    exact ⟨iri :: path, .step h hway, hnodup, hmet⟩

/-- A way that passed different classes only, with fuel for all others, ends at a root or is stopped
by what the error names. -/
theorem outcome_chainFrom (fuel : Nat) (visited : List String) (iri : String)
    (hnodup : visited.Nodup) (hkeys : visited ⊆ m.index.keys)
    (hfuel : m.index.size < visited.length + fuel) :
    (∀ chain, m.chainFrom fuel visited iri = .ok chain → m.Resolves iri) ∧
      ∀ error, m.chainFrom fuel visited iri = .error error → m.ObstructsFrom visited iri error := by
  induction fuel, visited, iri using chainFrom.induct (m := m) with
  | case1 fuel visited iri hvisited =>
    rw [chainFrom, if_pos hvisited]
    constructor
    · intro chain hchain
      cases hchain
    · intro error herror
      cases herror
      refine ⟨[], .here, ?_, ?_⟩
      · rwa [List.append_nil, List.nodup_reverse]
      · rw [List.append_nil, List.mem_reverse]
        exact List.contains_iff_mem.1 hvisited
  | case2 fuel visited iri hnew hclass =>
    rw [chainFrom, if_neg hnew, hclass]
    constructor
    · intro chain hchain
      cases hchain
    · intro error herror
      cases herror
      exact ⟨[], .here, hclass⟩
  | case3 fuel visited iri hnew c hclass hroot =>
    have hparent : m.parentIn? iri = none := (parentIn?_of_class? hclass).trans hroot
    rw [chainFrom, if_neg hnew, hclass]
    dsimp only
    rw [hroot]
    constructor
    · intro chain _
      exact ⟨[iri], .root hparent, List.forall_mem_singleton.2 ⟨c, hclass⟩⟩
    · intro error herror
      cases herror
  | case4 visited iri hnew c hclass parent hparent =>
    -- the classes that were passed are no more than there are keys
    have hle : visited.length ≤ m.index.size :=
      calc visited.length
          ≤ m.index.keys.length := (List.subperm_of_subset hnodup hkeys).length_le
        _ = m.index.size := List.length_map _
    exact absurd hfuel (Nat.not_lt.2 hle)
  | case5 visited iri hnew c hclass fuel next hnext ih =>
    have hparent : m.parentIn? iri = some next := (parentIn?_of_class? hclass).trans hnext
    have hnot : iri ∉ visited := by simpa using hnew
    obtain ⟨hok, herror⟩ := ih (List.nodup_cons.2 ⟨hnot, hnodup⟩)
      (List.cons_subset.2 ⟨mem_keys_of_class? hclass, hkeys⟩)
      (by rw [List.length_cons]; omega)
    rw [chainFrom, if_neg hnew, hclass]
    dsimp only
    rw [hnext]
    dsimp only
    constructor
    · intro chain hchain
      obtain ⟨rest, hrest, -⟩ := Fallible.map_eq_ok.1 hchain
      obtain ⟨path, hpath, hclasses⟩ := hok rest hrest
      exact ⟨iri :: path, .step hparent hpath, List.forall_mem_cons.2 ⟨⟨c, hclass⟩, hclasses⟩⟩
    · intro error hfailed
      exact (herror error (Fallible.map_eq_error.1 hfailed)).step hparent

theorem outcome_chain (m : Model) (iri : String) :
    (∀ chain, m.chain iri = .ok chain → m.Resolves iri) ∧
      ∀ error, m.chain iri = .error error → m.Obstructs iri error := by
  obtain ⟨hok, herror⟩ := outcome_chainFrom (m := m) (m.index.size + 1) [] iri
    List.nodup_nil (List.nil_subset _) (by rw [List.length_nil]; omega)
  refine ⟨hok, fun error h ↦ ?_⟩
  have hobstructs := herror error h
  cases error with
  | unknownClass missing => exact hobstructs
  | inheritanceCycle met => exact hobstructs

/-! ## What leads to which -/

/-- A way up is followed link by link. -/
theorem chainFrom_of_wayUp {path : List String} {stop : String}
    (hway : WayUp m.parentIn? iri path stop) (fuel : Nat) (visited : List String)
    (hnodup : (visited.reverse ++ path).Nodup) (hfuel : path.length ≤ fuel) :
    ∃ links : Chain, m.chainFrom fuel visited iri =
      (m.chainFrom (fuel - path.length) (path.reverse ++ visited) stop).map (links ++ ·) := by
  induction hway generalizing fuel visited with
  | here =>
    refine ⟨[], ?_⟩
    cases hchain : m.chainFrom fuel visited _ <;> simp [hchain, Except.map]
  | @step iri next stop path hparent rest ih =>
    obtain ⟨c, hclass⟩ := exists_class?_of_parentIn? hparent
    have hnext : c.subClassOf = some next := (parentIn?_of_class? hclass).symm.trans hparent
    have hnew : iri ∉ visited := by
      intro hmem
      exact List.disjoint_of_nodup_append hnodup (List.mem_reverse.2 hmem) List.mem_cons_self
    obtain ⟨fuel, rfl⟩ := Nat.exists_eq_add_of_lt (Nat.lt_of_lt_of_le (Nat.succ_pos _) hfuel)
    obtain ⟨links, hlinks⟩ := ih fuel (iri :: visited)
      (by rwa [List.reverse_cons, List.append_assoc, List.singleton_append])
      (by rw [List.length_cons] at hfuel; omega)
    refine ⟨c.link :: links, ?_⟩
    rw [Nat.zero_add, chainFrom, if_neg (by simpa using hnew), hclass]
    dsimp only
    rw [hnext]
    dsimp only
    rw [hlinks, List.length_cons, Nat.add_sub_add_right, List.reverse_cons, List.append_assoc,
      List.singleton_append]
    cases m.chainFrom (fuel - path.length) (path.reverse ++ iri :: visited) stop <;> rfl

/-- What is on the way up, the stop apart, is a class. -/
theorem subset_keys_of_wayUp {path : List String} {stop : String}
    (h : WayUp m.parentIn? iri path stop) : path ⊆ m.index.keys := by
  induction h with
  | here => exact List.nil_subset _
  | step hnext _ ih =>
    obtain ⟨c, hclass⟩ := exists_class?_of_parentIn? hnext
    exact List.cons_subset.2 ⟨mem_keys_of_class? hclass, ih⟩

/-- A way up over different classes is followed to what comes last. -/
theorem chain_of_wayUp {path : List String} {stop : String}
    (hway : WayUp m.parentIn? iri path stop) (hnodup : path.Nodup) :
    ∃ (links : Chain) (fuel : Nat),
      m.chain iri = (m.chainFrom fuel path.reverse stop).map (links ++ ·) := by
  have hlength : path.length ≤ m.index.size + 1 :=
    calc path.length
        ≤ m.index.keys.length :=
          (List.subperm_of_subset hnodup (subset_keys_of_wayUp hway)).length_le
      _ = m.index.size := List.length_map _
      _ ≤ m.index.size + 1 := Nat.le_succ _
  obtain ⟨links, hlinks⟩ := chainFrom_of_wayUp hway _ [] hnodup hlength
  rw [List.append_nil] at hlinks
  exact ⟨links, _, hlinks⟩

/-- What stops the way up is what the chain of the class comes to. -/
theorem chain_of_obstructs {error : ResolveError} (h : m.Obstructs iri error) :
    m.chain iri = .error error := by
  cases error with
  | unknownClass missing =>
    obtain ⟨path, hway, hmissing⟩ := h
    have hstop : m.parentIn? missing = none := by rw [parentIn?, hmissing, Option.bind_none]
    have hnodup : (path ++ [missing]).Nodup := (hway.rootPath hstop).nodup
    have hnew : ¬ path.reverse.contains missing = true := by
      intro hmem
      rw [List.contains_iff_mem, List.mem_reverse] at hmem
      exact List.disjoint_of_nodup_append hnodup hmem List.mem_cons_self
    obtain ⟨links, fuel, hchain⟩ := chain_of_wayUp hway hnodup.of_append_left
    rw [hchain, chainFrom, if_neg hnew, hmissing]
    rfl
  | inheritanceCycle met =>
    obtain ⟨path, hway, hnodup, hmet⟩ := h
    have hvisited : path.reverse.contains met = true := by
      rwa [List.contains_iff_mem, List.mem_reverse]
    obtain ⟨links, fuel, hchain⟩ := chain_of_wayUp hway hnodup
    rw [hchain, chainFrom, if_pos hvisited]
    rfl

theorem chain_eq_error_iff {error : ResolveError} :
    m.chain iri = .error error ↔ m.Obstructs iri error :=
  ⟨(m.outcome_chain iri).2 error, chain_of_obstructs⟩

/-- A class has a chain exactly if it resolves. -/
theorem exists_chain_iff : (∃ chain, m.chain iri = .ok chain) ↔ m.Resolves iri := by
  constructor
  · intro ⟨chain, hchain⟩
    exact (m.outcome_chain iri).1 chain hchain
  · intro ⟨path, hpath, hclasses⟩
    obtain ⟨first, -⟩ := hclasses iri hpath.mem_self
    have hclass : ∀ other ∈ path, m.class? other = some ((m.class? other).getD first) ∧
        ((m.class? other).getD first).subClassOf = m.parentIn? other := by
      intro other hother
      obtain ⟨c, hc⟩ := hclasses other hother
      rw [hc, Option.getD_some]
      exact ⟨rfl, (parentIn?_of_class? hc).symm⟩
    exact ⟨_, chain_of_rootPath hpath hclass⟩

end Model

end OntoGraph.Ontology
