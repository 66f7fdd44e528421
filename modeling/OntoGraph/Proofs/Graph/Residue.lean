import OntoGraph.Proofs.Graph.Consistency
import OntoGraph.Proofs.Graph.EdgeIds

/-!
# Nothing is left of a node that is deleted

A node that is added and then worked on, with its values and with the edges at it, goes as a whole
when it is deleted: the graph is the one before it was added, in the same order, but for the number
of identifiers that were given out. An operation that concerns the node changes nothing that stays
when the node goes, whether the operation succeeds, is refused or fails; for the deletion of an edge
this rests on the identifiers of edges, which are all different.
-/

namespace OntoGraph.Graph.InstanceGraph

open Ontology

variable {g g' g'' : InstanceGraph} {id : String}

/-! ## What stays when a node goes -/

/-- The graph without a node and the edges at it. -/
def without (g : InstanceGraph) (id : String) : InstanceGraph :=
  { g with
    nodes := g.nodes.filter (·.id ≠ id)
    edges := g.edges.filter fun e ↦ e.source ≠ id && e.target ≠ id }

theorem node?_eq_none_iff_not_mem : g.node? id = none ↔ id ∉ g.nodes.map (·.id) := by
  rw [node?_eq_none_iff, List.mem_map]
  exact ⟨fun h ⟨n, hn, hid⟩ ↦ h n hn hid, fun h n hn hid ↦ h ⟨n, hn, hid⟩⟩

theorem deleteNode_of_mem (h : id ∈ g.nodes.map (·.id)) :
    g.deleteNode id = (true, g.without id) :=
  if_pos (Option.isSome_iff_ne_none.2 (mt node?_eq_none_iff_not_mem.1 (not_not_intro h)))

theorem deleteNode_of_absent (h : g.node? id = none) : g.deleteNode id = (false, g) := by
  rw [deleteNode, h]
  rfl

theorem fst_deleteNode_iff : (g.deleteNode id).1 = true ↔ id ∈ g.nodes.map (·.id) := by
  by_cases h : id ∈ g.nodes.map (·.id)
  · rw [deleteNode_of_mem h]
    exact (iff_true_right h).2 rfl
  · rw [deleteNode_of_absent (node?_eq_none_iff_not_mem.2 h)]
    exact (iff_false_right h).2 Bool.false_ne_true

/-- A consistent graph has no edge at a node that it lacks. -/
theorem Consistent.without_of_absent (h : g.Consistent) (hnew : g.node? id = none) :
    g.without id = g := by
  have habsent := node?_eq_none_iff.1 hnew
  have hnodes : g.nodes.filter (·.id ≠ id) = g.nodes :=
    List.filter_eq_self.2 fun n hn ↦ decide_eq_true (habsent n hn)
  have hedges : (g.edges.filter fun e ↦ e.source ≠ id && e.target ≠ id) = g.edges := by
    refine List.filter_eq_self.2 fun e he ↦ ?_
    obtain ⟨source, hsource, target, htarget, -, hsid, htid, -⟩ := h.edges e he
    rw [Bool.and_eq_true, decide_eq_true_iff, decide_eq_true_iff, ← hsid, ← htid]
    exact ⟨habsent source hsource, habsent target htarget⟩
  rw [without, hnodes, hedges]

theorem Consistent.snd_deleteNode (h : g.Consistent) (id : String) :
    (g.deleteNode id).2 = g.without id := by
  cases hfound : g.node? id with
  | none => rw [deleteNode_of_absent hfound, h.without_of_absent hfound]
  | some n =>
    obtain ⟨hn, hid⟩ := node?_eq_some hfound
    rw [deleteNode_of_mem (List.mem_map.2 ⟨n, hn, hid⟩)]

/-- Do two graphs have nodes of the same names, and differ in no more than the content of the one
with an identifier, the edges at it, and the number of identifiers that were given out? -/
structure DiffersAt (id : String) (g g' : InstanceGraph) : Prop where
  ids : g'.nodes.map (·.id) = g.nodes.map (·.id)
  stays : g'.without id = { g.without id with issued := g'.issued }

theorem DiffersAt.refl (id : String) (g : InstanceGraph) : DiffersAt id g g := ⟨rfl, rfl⟩

theorem DiffersAt.trans (h : DiffersAt id g g') (h' : DiffersAt id g' g'') :
    DiffersAt id g g'' where
  ids := h'.ids.trans h.ids
  stays := by rw [h'.stays, h.stays]

/-- The node itself may be changed. -/
theorem differsAt_modifyNode {f : Node → Node} (hf : ∀ n : Node, (f n).id = n.id) :
    DiffersAt id g (g.modifyNode id f) := by
  let change (n : Node) : Node := if n.id = id then f n else n
  have hid : ∀ n, (change n).id = n.id := by
    intro n
    simp only [change]
    split
    · exact hf n
    · rfl
  have hnodes : (g.nodes.map change).filter (·.id ≠ id) = g.nodes.filter (·.id ≠ id) := by
    rw [List.filter_map]
    simp only [Function.comp_def, hid]
    refine (List.map_congr_left fun n hn ↦ ?_).trans (List.map_id _)
    exact if_neg (of_decide_eq_true (List.mem_filter.1 hn).2)
  constructor
  · change (g.nodes.map change).map (·.id) = _
    rw [List.map_map]
    exact List.map_congr_left fun n _ ↦ hid n
  · change { g with nodes := (g.nodes.map change).filter _, edges := _ } = _
    rw [hnodes]
    rfl

/-- An edge at the node may be added. -/
theorem differsAt_insertEdge {e : Edge} (h : e.source = id ∨ e.target = id) :
    DiffersAt id g (g.insertEdge e) := by
  refine ⟨rfl, ?_⟩
  have hedges : ((g.edges ++ [e]).filter fun e ↦ e.source ≠ id && e.target ≠ id) =
      g.edges.filter fun e ↦ e.source ≠ id && e.target ≠ id := by
    rw [List.filter_append, List.filter_cons_of_neg, List.filter_nil, List.append_nil]
    rcases h with h | h <;> simp [h]
  rw [without, insertEdge, hedges]
  rfl

/-- Edges at the node may be removed. -/
theorem differsAt_filter {keep : Edge → Bool}
    (h : ∀ e ∈ g.edges, keep e = false → e.source = id ∨ e.target = id) :
    DiffersAt id g { g with edges := g.edges.filter keep } := by
  refine ⟨rfl, ?_⟩
  have hedges : ((g.edges.filter keep).filter fun e ↦ e.source ≠ id && e.target ≠ id) =
      g.edges.filter fun e ↦ e.source ≠ id && e.target ≠ id := by
    rw [List.filter_filter]
    refine List.filter_congr fun e he ↦ ?_
    cases hkeep : keep e with
    | true => rw [Bool.and_true]
    | false => rcases h e he hkeep with h | h <;> simp [h]
  rw [without, hedges]
  rfl

/-! ## Operations on one node -/

/-- Does the operation work on the position or the values of the node with an identifier, or on an
edge at it? An edge that does not exist cannot be removed, whatever its identifier. -/
def Concerns (g : InstanceGraph) (id : String) : Operation → Prop
  | .moveNode other _ => other = id
  | .addEntry other _ _ => other = id
  | .setEntry other _ _ => other = id
  | .deleteEntry other _ => other = id
  | .addEdge source target _ => source = id ∨ target = id
  | .deleteEdge edgeId => ∀ e ∈ g.edge? edgeId, e.source = id ∨ e.target = id
  | _ => False

/-- Does each operation work on the node, all along a run? -/
def AlwaysConcerns (g : InstanceGraph) (id : String) : List Operation → Prop
  | [] => True
  | op :: ops => g.Concerns id op ∧ AlwaysConcerns (g.perform op) id ops

instance (g : InstanceGraph) (id : String) : (op : Operation) → Decidable (g.Concerns id op)
  | .moveNode other _ => inferInstanceAs (Decidable (other = id))
  | .addEntry other _ _ => inferInstanceAs (Decidable (other = id))
  | .setEntry other _ _ => inferInstanceAs (Decidable (other = id))
  | .deleteEntry other _ => inferInstanceAs (Decidable (other = id))
  | .addEdge source target _ => inferInstanceAs (Decidable (source = id ∨ target = id))
  | .deleteEdge edgeId =>
    inferInstanceAs (Decidable (∀ e ∈ g.edge? edgeId, e.source = id ∨ e.target = id))
  | .addNode .. | .addNodeWithId .. | .deleteNode _ | .reset | .revalidate | .replaceModel _
  | .importDocument .. | .setCatalog _ => inferInstanceAs (Decidable False)

instance decidableAlwaysConcerns (id : String) :
    (g : InstanceGraph) → (ops : List Operation) → Decidable (g.AlwaysConcerns id ops)
  | _, [] => inferInstanceAs (Decidable True)
  | g, op :: ops =>
    have := decidableAlwaysConcerns id (g.perform op) ops
    inferInstanceAs (Decidable (g.Concerns id op ∧ AlwaysConcerns (g.perform op) id ops))

theorem Concerns.mintsNew {op : Operation} (h : g.Concerns id op) : g.MintsNew op := by
  cases op with
  | addNode urn classIri position => exact h.elim
  | _ => trivial

theorem AlwaysConcerns.alwaysMintsNew {ops : List Operation} (h : g.AlwaysConcerns id ops) :
    g.AlwaysMintsNew ops := by
  induction ops generalizing g with
  | nil => trivial
  | cons op ops ih => exact ⟨h.1.mintsNew, ih h.2⟩

/-- An operation on a node changes nothing that stays when the node goes. -/
theorem differsAt_perform {op : Operation} (hedges : g.DistinctEdges) (h : g.Concerns id op) :
    DiffersAt id g (g.perform op) := by
  cases op with
  | moveNode other position =>
    obtain rfl : other = id := h
    refine orUnchanged_induction (.refl _ g) fun g' hg' ↦ ?_
    obtain ⟨-, rfl⟩ := moveNode_eq_ok.1 hg'
    exact differsAt_modifyNode fun _ ↦ rfl
  | addEntry other cp value =>
    obtain rfl : other = id := h
    refine orUnchanged_induction (.refl _ g) fun g' hg' ↦ ?_
    obtain ⟨⟨outcome, _⟩, hadd, rfl⟩ := Fallible.map_eq_ok.1 hg'
    obtain ⟨-, n, -, -, ⟨-, -, rfl⟩ | ⟨-, -, rfl⟩⟩ := addEntry_eq_ok.1 hadd
    · exact .refl _ _
    · exact (differsAt_modifyNode (f := fun n ↦ { n with entries := n.entries ++ [_] })
        fun _ ↦ rfl).trans ⟨rfl, rfl⟩
  | setEntry other entryId value =>
    obtain rfl : other = id := h
    refine orUnchanged_induction (.refl _ g) fun g' hg' ↦ ?_
    obtain ⟨⟨isValid, _⟩, hset, rfl⟩ := Fallible.map_eq_ok.1 hg'
    obtain ⟨e, -, -, rfl⟩ := setEntry_eq_ok.1 hset
    exact differsAt_modifyNode fun _ ↦ rfl
  | deleteEntry other entryId =>
    obtain rfl : other = id := h
    refine orUnchanged_induction (.refl _ g) fun g' hg' ↦ ?_
    obtain ⟨⟨e, _⟩, hdelete, rfl⟩ := Fallible.map_eq_ok.1 hg'
    obtain ⟨-, rfl⟩ := deleteEntry_eq_ok.1 hdelete
    exact differsAt_modifyNode fun _ ↦ rfl
  | addEdge source target cp =>
    refine orUnchanged_induction (.refl _ g) fun g' hg' ↦ ?_
    obtain ⟨⟨outcome, _⟩, hadd, rfl⟩ := Fallible.map_eq_ok.1 hg'
    obtain ⟨_, _, _, -, -, -, -, -, ⟨-, -, rfl⟩ | ⟨-, -, rfl⟩⟩ := addEdge_eq_ok.1 hadd
    · exact .refl _ _
    · exact differsAt_insertEdge h
  | deleteEdge edgeId =>
    refine orUnchanged_induction (.refl _ g) fun g' hg' ↦ ?_
    obtain ⟨⟨found, _⟩, hdelete, rfl⟩ := Fallible.map_eq_ok.1 hg'
    obtain ⟨hfound, rfl⟩ := deleteEdge_eq_ok.1 hdelete
    refine differsAt_filter fun e he hid ↦ ?_
    have hsame := hedges.eq_of_edge? hfound he (by simpa using hid)
    rw [hsame]
    exact h found hfound
  | _ => exact h.elim

theorem differsAt_run {ops : List Operation} (hg : g.Reachable) (h : g.AlwaysConcerns id ops) :
    DiffersAt id g (g.run ops) := by
  induction ops generalizing g with
  | nil => exact .refl id g
  | cons op ops ih =>
    obtain ⟨hop, hops⟩ := h
    exact (differsAt_perform hg.distinctEdges hop).trans (ih (hg.perform hop.mintsNew) hops)

/-! ## Adding and deleting -/

/-- Adding a node under a new name, however the name was found, puts the new node at the end if its
class can be instantiated, and changes nothing otherwise. -/
theorem perform_adding {classIri : String} {position : Position} {op : Operation}
    (hnew : g.node? id = none)
    (hop : op = .addNode id classIri position ∨ op = .addNodeWithId id classIri position) :
    (∃ n, g.newNode id classIri position = .ok n ∧ n.id = id ∧ g.perform op = g.insertNode n) ∨
      (∃ error, g.newNode id classIri position = .error error) ∧ g.perform op = g := by
  have hperform :
      g.perform op = g.orUnchanged ((g.newNode id classIri position).map g.insertNode) := by
    rcases hop with rfl | rfl
    · rfl
    · rw [perform, addNode, hnew]
      rfl
  rw [hperform]
  cases hn : g.newNode id classIri position with
  | error error => exact .inr ⟨⟨error, rfl⟩, rfl⟩
  | ok n =>
    obtain ⟨cls, chain, -, -, -, heq⟩ := newNode_eq_ok.1 hn
    exact .inl ⟨n, rfl, congrArg Node.id heq, rfl⟩

/-- A new node at the end is all that its adding brings. -/
theorem without_insertNode {n : Node} (h : g.Consistent) (hnew : g.node? n.id = none) :
    (g.insertNode n).without n.id = { g with issued := (g.insertNode n).issued } := by
  have hnodes : (g.nodes ++ [n]).filter (·.id ≠ n.id) = g.nodes.filter (·.id ≠ n.id) := by
    rw [List.filter_append, List.filter_cons_of_neg (by simp), List.filter_nil, List.append_nil]
  have hrest := h.without_of_absent hnew
  calc (g.insertNode n).without n.id
      = { g.without n.id with issued := (g.insertNode n).issued } := by
        rw [without, insertNode, hnodes]
        rfl
    _ = { g with issued := (g.insertNode n).issued } := by rw [hrest]

/-- After a node was added under a new name, and then only its values, its position and the edges at
it were worked on, deleting it gives back the graph from before, with its nodes and edges in their
order. The deletion finds the node if its class could be instantiated. Deleting what is not there
does nothing. -/
theorem deleteNode_run_eq {classIri : String} {position : Position} {first : Operation}
    {ops : List Operation} (hg : g.Reachable) (hnew : g.node? id = none)
    (hfirst : first = .addNode id classIri position ∨ first = .addNodeWithId id classIri position)
    (hops : (g.perform first).AlwaysConcerns id ops) :
    let last := g.run (first :: ops)
    (last.deleteNode id).2 = { g with issued := last.issued } ∧
      ((last.deleteNode id).1 = true ↔ ∃ n, g.newNode id classIri position = .ok n) ∧
      ∀ (other : InstanceGraph) (absent : String), other.node? absent = none →
        other.deleteNode absent = (false, other) := by
  intro last
  have hminted : g.MintsNew first := by
    rcases hfirst with rfl | rfl
    · exact hnew
    · trivial
  have hdiffers : DiffersAt id (g.perform first) last := differsAt_run (hg.perform hminted) hops
  have hlast : last.Consistent := hg.consistent.run ⟨hminted, hops.alwaysMintsNew⟩
  refine ⟨?_, ?_, fun _ _ ↦ deleteNode_of_absent⟩
  · rw [hlast.snd_deleteNode, hdiffers.stays]
    rcases perform_adding hnew hfirst with ⟨n, -, rfl, hadded⟩ | ⟨-, hsame⟩
    · rw [hadded, without_insertNode hg.consistent hnew]
    · rw [hsame, hg.consistent.without_of_absent hnew]
  · rw [fst_deleteNode_iff, hdiffers.ids]
    rcases perform_adding hnew hfirst with ⟨n, hn, rfl, hadded⟩ | ⟨⟨error, hn⟩, hsame⟩
    · have hmem : n.id ∈ (g.insertNode n).nodes.map (·.id) :=
        List.mem_map_of_mem (List.mem_append_right _ (List.mem_singleton_self n))
      rw [hadded, iff_true_left hmem]
      exact ⟨n, hn⟩
    · rw [hsame, iff_false_left (node?_eq_none_iff_not_mem.1 hnew), hn]
      rintro ⟨n, ⟨⟩⟩

/-- What happens to a second person beside a first one: they know each other, he knows himself, and
then has no room for more; one of his acquaintances is dropped, and two operations fail. -/
def newcomer : List Operation :=
  [.addEdge "urn:uuid:2" "urn:uuid:1" knows, .addEdge "urn:uuid:1" "urn:uuid:2" knows,
    .addEdge "urn:uuid:2" "urn:uuid:2" knows, .addEdge "urn:uuid:2" "urn:uuid:1" knows,
    .deleteEdge (issuedId 0), .deleteEdge (issuedId 0), .moveNode "urn:uuid:2" {},
    .addEntry "urn:uuid:2" knows none]

theorem deleteNode_run_newcomer :
    let g := run { model := people } [.addNode "urn:uuid:1" person.iri {}]
    let first : Operation := .addNodeWithId "urn:uuid:2" person.iri {}
    let last := g.run (first :: newcomer)
    g.Reachable ∧ g.node? "urn:uuid:2" = none ∧
      (g.perform first).AlwaysConcerns "urn:uuid:2" newcomer ∧ last.edges.length = 2 ∧
      (last.deleteNode "urn:uuid:2").1 = true ∧
      (last.deleteNode "urn:uuid:2").2 = { g with issued := last.issued } := by
  intro g first last
  have hminted : AlwaysMintsNew { model := people } [.addNode "urn:uuid:1" person.iri {}] :=
    ⟨rfl, trivial⟩
  have hg : g.Reachable := ⟨people, {}, _, hminted, rfl⟩
  have hnewcomer : (g.perform first).AlwaysConcerns "urn:uuid:2" newcomer := by decide
  obtain ⟨hgraph, hfound, -⟩ := deleteNode_run_eq hg rfl (.inr rfl) hnewcomer
  exact ⟨hg, rfl, hnewcomer, by decide, hfound.2 ⟨_, rfl⟩, hgraph⟩

end OntoGraph.Graph.InstanceGraph
