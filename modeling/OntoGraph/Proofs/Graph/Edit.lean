import OntoGraph.Graph.Edit
import OntoGraph.Graph.Retype
import Mathlib.Data.List.Nodup

/-!
# What an edit does

Each operation on a graph is described once: when it succeeds, and which graph it leaves. The
statements name the guards that were passed, so that nothing has to be unfolded after them.
-/

namespace OntoGraph.Graph.InstanceGraph

open Ontology

variable {g g' : InstanceGraph} {id : String} {n : Node}

/-! ## Looking up nodes -/

theorem node?_eq_some (h : g.node? id = some n) : n ∈ g.nodes ∧ n.id = id :=
  ⟨List.mem_of_find?_eq_some h, by simpa using List.find?_some h⟩

theorem node?_eq_none_iff : g.node? id = none ↔ ∀ n ∈ g.nodes, n.id ≠ id := by
  simp [node?]

/-- Where identifiers are distinct, every node is found by its own. -/
theorem node?_of_mem (hids : (g.nodes.map (·.id)).Nodup) (hn : n ∈ g.nodes) :
    g.node? n.id = some n := by
  obtain ⟨found, hfound⟩ := Option.isSome_iff_exists.1
    (List.find?_isSome (p := fun m : Node ↦ m.id = n.id).2 ⟨n, hn, by simp⟩)
  have hmem := node?_eq_some hfound
  have : found = n := List.inj_on_of_nodup_map hids hmem.1 hn hmem.2
  rwa [this] at hfound

/-! ## Nodes -/

theorem instantiable_eq_ok {classIri : String} {cls : Ontology.Class} {chain : Chain} :
    g.instantiable classIri = .ok (cls, chain) ↔
      g.model.class? classIri = some cls ∧ cls.isAbstract = false ∧
        g.model.chain classIri = .ok chain := by
  unfold instantiable
  cases g.model.class? classIri with
  | none => simp
  | some found =>
    cases habstract : found.isAbstract with
    | true =>
      simp only [habstract, if_true, reduceCtorEq, false_iff, Option.some.injEq]
      rintro ⟨rfl, h, -⟩
      rw [habstract] at h
      cases h
    | false =>
      simp only [habstract, Bool.false_eq_true, if_false, Option.some.injEq]
      cases g.model.chain classIri with
      | error error => simp
      | ok resolved =>
        simp only [Except.ok.injEq, Prod.mk.injEq]
        constructor
        · rintro ⟨rfl, rfl⟩
          exact ⟨rfl, habstract, rfl⟩
        · exact fun h ↦ ⟨h.1, h.2.2⟩

def initialEntries (g : InstanceGraph) (chain : Chain) : List Entry :=
  (prefilled chain).mapIdx fun i cp ↦ g.initialEntry cp (issuedId (g.issued + i))

theorem map_initialEntries (g : InstanceGraph) (chain : Chain) :
    (g.initialEntries chain).map (fun e ↦ (e.property, e.value)) =
      (prefilled chain).map fun cp ↦ (cp, g.initialValue cp) := by
  apply List.ext_getElem
  · simp [initialEntries]
  · intro i hi hi'
    simp [initialEntries, initialEntry]

theorem newNode_eq_ok {classIri : String} {position : Position} :
    g.newNode id classIri position = .ok n ↔
      ∃ cls chain, g.model.class? classIri = some cls ∧ cls.isAbstract = false ∧
        g.model.chain classIri = .ok chain ∧
        n = { id, position, cls, chain, entries := g.initialEntries chain
              isElement := g.settings.isElementChain g.model chain } := by
  unfold newNode
  cases hclass : g.instantiable classIri with
  | error error =>
    constructor
    · rintro ⟨⟩
    · rintro ⟨cls, chain, h⟩
      have := instantiable_eq_ok.2 ⟨h.1, h.2.1, h.2.2.1⟩
      rw [hclass] at this
      cases this
  | ok pair =>
    obtain ⟨cls, chain⟩ := pair
    obtain ⟨hcls, habstract, hchain⟩ := instantiable_eq_ok.1 hclass
    constructor
    · rintro ⟨⟩
      exact ⟨cls, chain, hcls, habstract, hchain, rfl⟩
    · rintro ⟨cls', chain', hcls', -, hchain', rfl⟩
      rw [hcls] at hcls'
      rw [hchain] at hchain'
      cases hcls'
      cases hchain'
      rfl

theorem addMintedNode_eq_ok {classIri : String} {position : Position} :
    g.addMintedNode id classIri position = .ok g' ↔
      ∃ n, g.newNode id classIri position = .ok n ∧ g' = g.insertNode n := by
  unfold addMintedNode
  cases g.newNode id classIri position <;> simp [Except.map, eq_comm]

theorem addNode_eq_ok {classIri : String} {position : Position} :
    g.addNode id classIri position = .ok g' ↔
      g.node? id = none ∧ ∃ n, g.newNode id classIri position = .ok n ∧ g' = g.insertNode n := by
  unfold addNode
  cases g.node? id <;> simp [addMintedNode_eq_ok]

theorem moveNode_eq_ok {position : Position} :
    g.moveNode id position = .ok g' ↔
      (∃ n, g.node? id = some n) ∧ g' = g.modifyNode id fun n ↦ { n with position } := by
  unfold moveNode existing
  cases g.node? id <;> simp [Except.map, eq_comm]

/-! ## Values -/

variable {cp : ClassProperty} {value : Option Value} {outcome : Addition} {entryId : String}

/-- A value is added to a node that declares its property, unless the property is full. -/
theorem addEntry_eq_ok :
    g.addEntry id cp value = .ok (outcome, g') ↔
      cp.isObject = false ∧ ∃ n, g.node? id = some n ∧ n.declares cp = true ∧
        ((g.isFull id cp = true ∧ outcome = .full ∧ g' = g) ∨
          (g.isFull id cp = false ∧ outcome = .added (issuedId g.issued) ∧
            g' = g.insertEntry id (g.newEntry cp value))) := by
  unfold addEntry existing
  cases cp.isObject with
  | true => simp
  | false =>
    cases g.node? id with
    | none => simp [bind, Except.bind]
    | some n =>
      cases hdeclares : n.declares cp with
      | false =>
        simp [bind, Except.bind, throw, throwThe, MonadExceptOf.throw, hdeclares]
      | true =>
        cases g.isFull id cp <;>
          · simp [bind, Except.bind, pure, Except.pure, newEntry, hdeclares]
            exact and_congr eq_comm eq_comm

/-- Adding a value does not fail because a property is full. -/
theorem exists_addEntry_iff : (∃ result, g.addEntry id cp value = .ok result) ↔
    cp.isObject = false ∧ ∃ n, g.node? id = some n ∧ n.declares cp = true := by
  constructor
  · rintro ⟨⟨outcome, g'⟩, h⟩
    obtain ⟨hobject, n, hn, hdeclares, -⟩ := addEntry_eq_ok.1 h
    exact ⟨hobject, n, hn, hdeclares⟩
  · rintro ⟨hobject, n, hn, hdeclares⟩
    cases hfull : g.isFull id cp with
    | true => exact ⟨_, addEntry_eq_ok.2 ⟨hobject, n, hn, hdeclares, .inl ⟨hfull, rfl, rfl⟩⟩⟩
    | false => exact ⟨_, addEntry_eq_ok.2 ⟨hobject, n, hn, hdeclares, .inr ⟨hfull, rfl, rfl⟩⟩⟩

theorem existingEntry_eq_ok {e : Entry} :
    g.existingEntry id entryId = .ok e ↔
      ∃ n, g.node? id = some n ∧ n.entries.find? (·.id = entryId) = some e := by
  unfold existingEntry existing
  cases g.node? id with
  | none => simp [bind, Except.bind]
  | some n =>
    cases hfound : n.entries.find? (·.id = entryId) <;>
      simp [bind, Except.bind, pure, Except.pure, throw, throwThe, MonadExceptOf.throw, hfound]

theorem setEntry_eq_ok {isValid : Bool} :
    g.setEntry id entryId value = .ok (isValid, g') ↔
      ∃ e, g.existingEntry id entryId = .ok e ∧
        isValid = Graph.isValid g.settings.catalog e.property value ∧
        g' = g.writeEntry id entryId value isValid := by
  unfold setEntry
  cases g.existingEntry id entryId with
  | error error => simp [bind, Except.bind]
  | ok e =>
    simp only [bind, Except.bind, pure, Except.pure, Except.ok.injEq, Prod.mk.injEq,
      exists_eq_left']
    constructor
    · rintro ⟨rfl, rfl⟩
      exact ⟨rfl, rfl⟩
    · rintro ⟨rfl, rfl⟩
      exact ⟨rfl, rfl⟩

theorem deleteEntry_eq_ok {e : Entry} :
    g.deleteEntry id entryId = .ok (e, g') ↔
      g.existingEntry id entryId = .ok e ∧ g' = g.eraseEntry id entryId := by
  unfold deleteEntry
  cases g.existingEntry id entryId <;>
    simp [bind, Except.bind, pure, Except.pure, eq_comm]

/-! ## Edges -/

variable {source target : String}

/-- An edge is added between nodes whose classes admit it, unless its property is full. -/
theorem addEdge_eq_ok :
    g.addEdge source target cp = .ok (outcome, g') ↔
      ∃ targetClass sourceNode targetNode, cp.target? = some targetClass ∧
        g.node? source = some sourceNode ∧ g.node? target = some targetNode ∧
        sourceNode.declares cp = true ∧ targetNode.isA targetClass = true ∧
        ((g.isFull source cp = true ∧ outcome = .full ∧ g' = g) ∨
          (g.isFull source cp = false ∧ outcome = .added (issuedId g.issued) ∧
            g' = g.insertEdge (g.newEdge source target cp))) := by
  unfold addEdge existing
  cases cp.target? with
  | none => simp
  | some targetClass =>
    cases g.node? source with
    | none => simp [bind, Except.bind]
    | some sourceNode =>
      cases g.node? target with
      | none => simp [bind, Except.bind]
      | some targetNode =>
        cases hdeclares : sourceNode.declares cp with
        | false =>
          simp [bind, Except.bind, throw, throwThe, MonadExceptOf.throw, hdeclares]
        | true =>
          cases hisA : targetNode.isA targetClass with
          | false =>
            simp [bind, Except.bind, throw, throwThe, MonadExceptOf.throw, hdeclares,
              hisA]
          | true =>
            cases g.isFull source cp <;>
              · simp [bind, Except.bind, pure, Except.pure, newEdge, hdeclares, hisA]
                exact and_congr eq_comm eq_comm

/-- Adding an edge does not fail because a property is full. -/
theorem exists_addEdge_iff : (∃ result, g.addEdge source target cp = .ok result) ↔
    ∃ targetClass sourceNode targetNode, cp.target? = some targetClass ∧
      g.node? source = some sourceNode ∧ g.node? target = some targetNode ∧
      sourceNode.declares cp = true ∧ targetNode.isA targetClass = true := by
  constructor
  · rintro ⟨⟨outcome, g'⟩, h⟩
    obtain ⟨targetClass, m, n, hclass, hm, hn, hdeclares, hisA, -⟩ := addEdge_eq_ok.1 h
    exact ⟨targetClass, m, n, hclass, hm, hn, hdeclares, hisA⟩
  · rintro ⟨targetClass, m, n, hclass, hm, hn, hdeclares, hisA⟩
    cases hfull : g.isFull source cp with
    | true => exact ⟨_, addEdge_eq_ok.2
        ⟨targetClass, m, n, hclass, hm, hn, hdeclares, hisA, .inl ⟨hfull, rfl, rfl⟩⟩⟩
    | false => exact ⟨_, addEdge_eq_ok.2
        ⟨targetClass, m, n, hclass, hm, hn, hdeclares, hisA, .inr ⟨hfull, rfl, rfl⟩⟩⟩

theorem deleteEdge_eq_ok {e : Edge} :
    g.deleteEdge id = .ok (e, g') ↔
      g.edge? id = some e ∧ g' = { g with edges := g.edges.filter (·.id ≠ id) } := by
  unfold deleteEdge
  cases g.edge? id <;> simp [eq_comm]

/-! ## Another model -/

variable {settings : GraphSettings} {model : Model}

theorem resolveIn_eq_ok {classIri : String} {cls : Ontology.Class} {chain : Chain} :
    resolveIn model classIri = .ok (cls, chain) ↔
      model.class? classIri = some cls ∧ model.chain cls.iri = .ok chain := by
  unfold resolveIn
  cases model.class? classIri with
  | none => simp
  | some found =>
    cases hchain : model.chain found.iri with
    | error error =>
      simp only [hchain, reduceCtorEq, false_iff, Option.some.injEq]
      rintro ⟨rfl, h⟩
      rw [hchain] at h
      cases h
    | ok resolved =>
      simp only [hchain, Except.ok.injEq, Prod.mk.injEq, Option.some.injEq]
      constructor
      · rintro ⟨rfl, rfl⟩
        exact ⟨rfl, hchain⟩
      · rintro ⟨rfl, h⟩
        rw [hchain] at h
        cases h
        exact ⟨rfl, rfl⟩

theorem retypeNode_eq_ok {n' : Node} :
    retypeNode settings model n = .ok n' ↔
      ∃ cls chain, resolveIn model n.cls.iri = .ok (cls, chain) ∧
        n' = { n with
          cls, chain
          entries := n.entries.filterMap (reboundEntry settings chain)
          isElement := settings.isElementChain model chain } := by
  unfold retypeNode
  cases resolveIn model n.cls.iri with
  | error error => simp [bind, Except.bind]
  | ok pair =>
    obtain ⟨cls, chain⟩ := pair
    simp only [bind, Except.bind, pure, Except.pure, Except.ok.injEq, Prod.mk.injEq]
    constructor
    · rintro rfl
      exact ⟨cls, chain, ⟨rfl, rfl⟩, rfl⟩
    · rintro ⟨_, _, ⟨rfl, rfl⟩, rfl⟩
      rfl

theorem replaceModel_eq_ok :
    g.replaceModel model = .ok g' ↔
      ∃ nodes, g.nodes.mapM (retypeNode g.settings model) = .ok nodes ∧
        g' = { g with model, nodes, edges := g.edges.filterMap (reboundEdge nodes) } := by
  unfold replaceModel
  cases g.nodes.mapM (retypeNode g.settings model) <;>
    simp [bind, Except.bind, pure, Except.pure, eq_comm]

end OntoGraph.Graph.InstanceGraph
