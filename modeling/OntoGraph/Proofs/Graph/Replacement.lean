import OntoGraph.Proofs.Graph.Concrete
import OntoGraph.Proofs.Ontology.Resolution

/-!
# What another model keeps

A graph is carried over to another model as a whole or not at all. It is carried over exactly if
the class of every node resolves there; otherwise the error tells what stops the class of the first
node that does not. What is carried over keeps its order. All nodes stay. A value stays where the
nearest declaration of its path is one for values, and an edge stays where that declaration asks
for a class that the target belongs to; both are bound to this declaration and keep all else.
-/

namespace OntoGraph.Graph

open Ontology

/-! ## What is kept -/

/-- Does a node with this chain keep its values of a path? -/
def admitsValue (chain : Chain) (path : String) : Bool :=
  (chain.nearest? path).any fun cp ↦ !cp.isObject

/-- May an edge of the path lead from the first node to the second? -/
def admitsLink (source target : Node) (path : String) : Bool :=
  (source.property? path).any fun cp ↦ cp.target?.any target.isA

/-- Does the edge stay between its nodes? -/
def admitsEdge (nodes : List Node) (e : Edge) : Bool :=
  nodes.any fun source ↦ nodes.any fun target ↦
    source.id = e.source && target.id = e.target && admitsLink source target e.path

/-- The second entry is the first one under the nearest declaration of its path. -/
structure Entry.ReboundIn (chain : Chain) (settings : GraphSettings) (e e' : Entry) : Prop where
  id : e'.id = e.id
  property : chain.nearest? e.path = some e'.property
  value : e'.value = e.value
  isValid : e'.isValid = Graph.isValid settings.catalog e'.property e.value
  isRequired : e'.isRequired = e.isRequired

/-- The second edge is the first one under the declaration of its path that is nearest to its
source. -/
structure Edge.ReboundIn (nodes : List Node) (e e' : Edge) : Prop where
  id : e'.id = e.id
  source : e'.source = e.source
  target : e'.target = e.target
  property : ∀ n ∈ nodes, n.id = e.source → n.property? e.path = some e'.property
  label : e'.label = e.label

/-- The second node is the first one in another model. -/
structure Node.RetypedIn (model : Model) (settings : GraphSettings) (n n' : Node) : Prop where
  id : n'.id = n.id
  position : n'.position = n.position
  iri : n'.cls.iri = n.cls.iri
  typed : n'.TypedBy model settings
  entries : List.Forall₂ (Entry.ReboundIn n'.chain settings)
    (n.entries.filter fun e ↦ admitsValue n'.chain e.path) n'.entries

namespace InstanceGraph

/-- The second graph is the first one in another model. -/
structure CarriedTo (g : InstanceGraph) (other : Model) (g' : InstanceGraph) : Prop where
  model : g'.model = other
  settings : g'.settings = g.settings
  issued : g'.issued = g.issued
  nodes : List.Forall₂ (Node.RetypedIn other g.settings) g.nodes g'.nodes
  edges : List.Forall₂ (Edge.ReboundIn g'.nodes) (g.edges.filter (admitsEdge g'.nodes)) g'.edges

variable {g g' : InstanceGraph} {model : Model} {settings : GraphSettings} {chain : Chain}

/-! ## Values -/

theorem isSome_reboundEntry (settings : GraphSettings) (chain : Chain) (e : Entry) :
    admitsValue chain e.path = (reboundEntry settings chain e).isSome := by
  unfold admitsValue reboundEntry
  cases chain.nearest? e.path with
  | none => rfl
  | some cp => cases hobject : cp.isObject <;> simp [hobject]

theorem reboundIn_of_reboundEntry {e e' : Entry} (h : reboundEntry settings chain e = some e') :
    e.ReboundIn chain settings e' := by
  revert h
  fun_cases reboundEntry settings chain e with
  | case1 => rintro ⟨⟩
  | case2 cp hcp =>
    rintro ⟨⟩
    exact ⟨rfl, hcp, rfl, rfl, rfl⟩
  | case3 => rintro ⟨⟩

/-! ## Nodes -/

variable {n n' : Node}

theorem retypedIn_of_retypeNode (h : retypeNode settings model n = .ok n') :
    n.RetypedIn model settings n' := by
  obtain ⟨hid, htyped, -⟩ := typedBy_of_retypeNode h
  obtain ⟨cls, chain, hresolve, rfl⟩ := retypeNode_eq_ok.1 h
  constructor
  case id => exact hid
  case position => rfl
  case iri => exact Model.iri_of_class? (resolveIn_eq_ok.1 hresolve).1
  case typed => exact htyped
  case entries =>
    exact Fallible.forall₂_filterMap (fun e _ ↦ isSome_reboundEntry settings chain e)
      fun e _ e' he' ↦ reboundIn_of_reboundEntry he'

/-- What resolves has a class. -/
theorem exists_class?_of_resolves {iri : String} (h : model.Resolves iri) :
    ∃ cls, model.class? iri = some cls := by
  obtain ⟨path, hpath, hclasses⟩ := h
  exact hclasses iri hpath.mem_self

/-- A node is carried over exactly if its class resolves. -/
theorem exists_retypeNode_iff :
    (∃ n', retypeNode settings model n = .ok n') ↔ model.Resolves n.cls.iri := by
  rw [← Model.exists_chain_iff]
  constructor
  · intro ⟨n', hn'⟩
    obtain ⟨cls, chain, hresolve, -⟩ := retypeNode_eq_ok.1 hn'
    obtain ⟨hcls, hchain⟩ := resolveIn_eq_ok.1 hresolve
    exact ⟨chain, Model.iri_of_class? hcls ▸ hchain⟩
  · intro hchain
    obtain ⟨cls, hcls⟩ := exists_class?_of_resolves (Model.exists_chain_iff.1 hchain)
    obtain ⟨chain, hchain⟩ := hchain
    rw [← Model.iri_of_class? hcls] at hchain
    exact ⟨_, retypeNode_eq_ok.2 ⟨cls, chain, resolveIn_eq_ok.2 ⟨hcls, hchain⟩, rfl⟩⟩

/-- A node that is not carried over is told apart by what stops its class. -/
theorem retypeNode_eq_error {error : GraphError} :
    retypeNode settings model n = .error error ↔
      ∃ obstacle, model.Obstructs n.cls.iri obstacle ∧ error = .ofResolveError obstacle := by
  simp only [← Model.chain_eq_error_iff]
  unfold retypeNode resolveIn
  cases hclass : model.class? n.cls.iri with
  | none =>
    have hchain : model.chain n.cls.iri = .error (.unknownClass n.cls.iri) :=
      Model.chain_of_obstructs ⟨[], .here, hclass⟩
    rw [hchain]
    simp [bind, Except.bind, GraphError.ofResolveError, eq_comm]
  | some cls =>
    rw [← Model.iri_of_class? hclass]
    dsimp only
    cases model.chain cls.iri with
    | ok chain => simp [bind, Except.bind, pure, Except.pure]
    | error obstacle => simp [bind, Except.bind, eq_comm]

/-! ## Edges -/

section

variable {nodes : List Node} {source target : Node} {e e' : Edge}

/-- Where identifiers are distinct, a node is found by its own. -/
theorem find?_id_eq_some (hids : (nodes.map (·.id)).Nodup) {id : String} :
    nodes.find? (·.id = id) = some n ↔ n ∈ nodes ∧ n.id = id := by
  constructor
  · intro h
    exact ⟨List.mem_of_find?_eq_some h, by simpa using List.find?_some h⟩
  · intro ⟨hn, hid⟩
    subst hid
    exact node?_of_mem (g := { model := {}, nodes }) hids hn

theorem reboundEdge_eq_some (hids : (nodes.map (·.id)).Nodup) :
    reboundEdge nodes e = some e' ↔
      ∃ source ∈ nodes, ∃ target ∈ nodes, source.id = e.source ∧ target.id = e.target ∧
        ∃ cp, source.property? e.path = some cp ∧
          (∃ targetClass, cp.target? = some targetClass ∧ target.isA targetClass = true) ∧
            e' = { e with property := cp } := by
  unfold reboundEdge
  simp only [Option.bind_eq_bind, Option.bind_eq_some_iff, find?_id_eq_some hids]
  constructor
  · intro ⟨source, ⟨hsource, hsid⟩, target, ⟨htarget, htid⟩, cp, hcp, targetClass, hclass, hrest⟩
    split_ifs at hrest with hisA
    cases hrest
    exact ⟨source, hsource, target, htarget, hsid, htid, cp, hcp, ⟨targetClass, hclass, hisA⟩, rfl⟩
  · intro ⟨source, hsource, target, htarget, hsid, htid, cp, hcp, ⟨targetClass, hclass, hisA⟩, he'⟩
    refine ⟨source, ⟨hsource, hsid⟩, target, ⟨htarget, htid⟩, cp, hcp, targetClass, hclass, ?_⟩
    rw [if_pos hisA, he']

theorem admitsLink_iff {path : String} :
    admitsLink source target path = true ↔
      ∃ cp, source.property? path = some cp ∧
        ∃ targetClass, cp.target? = some targetClass ∧ target.isA targetClass = true := by
  simp only [admitsLink, Option.any_eq_true]

/-- An edge stays exactly if it is admitted. -/
theorem isSome_reboundEdge (hids : (nodes.map (·.id)).Nodup) (e : Edge) :
    admitsEdge nodes e = (reboundEdge nodes e).isSome := by
  rw [Bool.eq_iff_iff, Option.isSome_iff_exists]
  simp only [reboundEdge_eq_some hids, admitsEdge, List.any_eq_true, Bool.and_eq_true,
    decide_eq_true_eq, admitsLink_iff]
  constructor
  · intro ⟨source, hsource, target, htarget, ⟨hsid, htid⟩, cp, hcp, hclass⟩
    exact ⟨_, source, hsource, target, htarget, hsid, htid, cp, hcp, hclass, rfl⟩
  · intro ⟨_, source, hsource, target, htarget, hsid, htid, cp, hcp, hclass, _⟩
    exact ⟨source, hsource, target, htarget, ⟨hsid, htid⟩, cp, hcp, hclass⟩

theorem reboundIn_of_reboundEdge (hids : (nodes.map (·.id)).Nodup)
    (h : reboundEdge nodes e = some e') : e.ReboundIn nodes e' := by
  obtain ⟨source, hsource, target, htarget, hsid, htid, cp, hcp, -, rfl⟩ :=
    (reboundEdge_eq_some hids).1 h
  refine ⟨rfl, rfl, rfl, fun n hn hid ↦ ?_, rfl⟩
  obtain rfl : n = source := List.inj_on_of_nodup_map hids hn hsource (hid.trans hsid.symm)
  exact hcp

end

/-! ## Graphs -/

theorem carriedTo_of_replaceModel (hg : g.Consistent) (h : g.replaceModel model = .ok g') :
    g.CarriedTo model g' := by
  have hids := (hg.replaceModel h).ids
  obtain ⟨nodes, hnodes, rfl⟩ := replaceModel_eq_ok.1 h
  constructor
  case model => rfl
  case settings => rfl
  case issued => rfl
  case nodes => exact (Fallible.forall₂_of_mapM hnodes).imp fun n n' hn ↦ retypedIn_of_retypeNode hn
  case edges =>
    exact Fallible.forall₂_filterMap (fun e _ ↦ isSome_reboundEdge hids e)
      fun e _ e' he' ↦ reboundIn_of_reboundEdge hids he'

/-- The first node whose class does not resolve tells why a graph is not carried over. -/
theorem replaceModel_eq_error {error : GraphError} :
    g.replaceModel model = .error error ↔
      ∃ before n after obstacle, g.nodes = before ++ n :: after ∧
        (∀ m ∈ before, model.Resolves m.cls.iri) ∧ model.Obstructs n.cls.iri obstacle ∧
          error = .ofResolveError obstacle := by
  have hnodes : g.replaceModel model = .error error ↔
      g.nodes.mapM (retypeNode g.settings model) = .error error := by
    unfold replaceModel
    cases g.nodes.mapM (retypeNode g.settings model) <;> simp [bind, Except.bind, pure, Except.pure]
  rw [hnodes, Fallible.mapM_eq_error_iff]
  simp only [exists_retypeNode_iff, retypeNode_eq_error]
  constructor
  · intro ⟨before, n, after, hsplit, hbefore, obstacle, hobstacle⟩
    exact ⟨before, n, after, obstacle, hsplit, hbefore, hobstacle⟩
  · intro ⟨before, n, after, obstacle, hsplit, hbefore, hobstacle⟩
    exact ⟨before, n, after, hsplit, hbefore, obstacle, hobstacle⟩

/-- A graph is not carried over exactly if the class of a node does not resolve. -/
theorem exists_replaceModel_eq_error_iff :
    (∃ error, g.replaceModel model = .error error) ↔
      ∃ n ∈ g.nodes, ¬ model.Resolves n.cls.iri := by
  constructor
  · intro ⟨error, herror⟩
    obtain ⟨before, n, after, obstacle, hsplit, -, hobstacle, -⟩ := replaceModel_eq_error.1 herror
    refine ⟨n, by simp [hsplit], fun hresolves ↦ ?_⟩
    obtain ⟨chain, hchain⟩ := Model.exists_chain_iff.2 hresolves
    cases hchain.symm.trans (Model.chain_of_obstructs hobstacle)
  · intro ⟨n, hn, hnot⟩
    cases h : g.replaceModel model with
    | error error => exact ⟨error, rfl⟩
    | ok g' =>
      obtain ⟨nodes, hnodes, -⟩ := replaceModel_eq_ok.1 h
      obtain ⟨n', -, hn'⟩ := Fallible.exists_of_mapM hnodes n hn
      exact absurd (exists_retypeNode_iff.1 ⟨n', hn'⟩) hnot

/-- Whatever graph a run leaves and whatever model takes the place of its own: the graph is not
carried over exactly if the class of a node does not resolve in the other model, the error is what
stops the class of the first such node, and the graph then stays as it is. Otherwise it becomes the
graph that is carried over. -/
theorem replaceModel_carries (h : g.Reachable) (model : Model) :
    ((∃ error, g.replaceModel model = .error error) ↔
      ∃ n ∈ g.nodes, ¬ model.Resolves n.cls.iri) ∧
    (∀ error, g.replaceModel model = .error error ↔
      ∃ before n after obstacle, g.nodes = before ++ n :: after ∧
        (∀ m ∈ before, model.Resolves m.cls.iri) ∧ model.Obstructs n.cls.iri obstacle ∧
          error = .ofResolveError obstacle) ∧
    (∀ error, g.replaceModel model = .error error → g.perform (.replaceModel model) = g) ∧
    ∀ g', g.replaceModel model = .ok g' →
      g.perform (.replaceModel model) = g' ∧ g.CarriedTo model g' := by
  refine ⟨exists_replaceModel_eq_error_iff, fun _ ↦ replaceModel_eq_error, fun error herror ↦ ?_,
    fun g' hg' ↦ ⟨perform_replaceModel hg', carriedTo_of_replaceModel h.consistent hg'⟩⟩
  rw [perform, herror, orUnchanged]

/-- A name that persons are called by. -/
def nick : ClassProperty :=
  { parentClass := person.iri
    path := "https://example.org/Core/nick"
    name := "nick"
    constraint := .literal .string }

def members : Model :=
  .ofProfiles {} (.ofList [("Core", { classes := .ofList [("Person",
    { person with properties := .ofList [("knows", knows), ("nick", nick)] })] })])

/-- Persons as agents, who have the names now, and with a text for whom they know. -/
def agents : Model :=
  .ofProfiles {} (.ofList [("Core", { classes := .ofList [
    ("Agent", { iri := "https://example.org/Core/Agent", name := "Agent", profileName := "Core"
                properties := .ofList [("nick", nick)] }),
    ("Person", { person with
      subClassOf := some "https://example.org/Core/Agent"
      properties := .ofList [("knows", { knows with constraint := .literal .string })] })] })])

def membership : List Operation :=
  [.addNode "urn:uuid:1" person.iri {}, .addNode "urn:uuid:2" person.iri {},
    .addEntry "urn:uuid:1" nick (some (.text "Ada")), .addEdge "urn:uuid:1" "urn:uuid:2" knows]

/-- The name stays, under the declaration for agents, and the edge is dropped. Where there are no
persons, the graph stays as it is. -/
theorem replaceModel_carries_membership :
    let g := run { model := members } membership
    g.Reachable ∧ g.edges.length = 1 ∧
      (∃ g', g.replaceModel agents = .ok g' ∧ g.perform (.replaceModel agents) = g' ∧
        g.CarriedTo agents g' ∧ g'.edges = [] ∧
        g'.nodes.map (fun n ↦ n.entries.map (·.path)) = [[nick.path], []]) ∧
      g.replaceModel {} = .error (.unknownClass person.iri) ∧ g.perform (.replaceModel {}) = g := by
  have hnew : AlwaysMintsNew { model := members } membership :=
    ⟨rfl, rfl, trivial, trivial, trivial⟩
  have hreachable : (run { model := members } membership).Reachable :=
    ⟨members, {}, membership, hnew, rfl⟩
  obtain ⟨-, -, -, hcarried⟩ := replaceModel_carries hreachable agents
  obtain ⟨-, -, hunchanged, -⟩ := replaceModel_carries hreachable {}
  have hmissing : (run { model := members } membership).replaceModel {} =
      .error (.unknownClass person.iri) := by
    decide +kernel
  have hafter : ((run { model := members } membership).perform (.replaceModel agents)).edges = [] ∧
      ((run { model := members } membership).perform (.replaceModel agents)).nodes.map
        (fun n ↦ n.entries.map (·.path)) = [[nick.path], []] := by
    decide +kernel
  have hok : ((run { model := members } membership).replaceModel agents).isOk = true := by
    decide +kernel
  obtain ⟨g', hg'⟩ := Fallible.isOk_iff.1 hok
  obtain ⟨hperform, hkept⟩ := hcarried g' hg'
  rw [hperform] at hafter
  exact ⟨hreachable, by decide +kernel, ⟨g', hg', hperform, hkept, hafter⟩, hmissing,
    hunchanged _ hmissing⟩

end InstanceGraph

end OntoGraph.Graph
