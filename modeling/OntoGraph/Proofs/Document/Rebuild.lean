import OntoGraph.Document.Import
import OntoGraph.Proofs.Fallible

/-!
# How a document becomes nodes

The steps in which statements are added to a graph, each with all that it can do: a subject becomes
one node, and a statement becomes an edge, fills an open entry, makes a new one, or is left out.
-/

namespace OntoGraph.Document

open OntoGraph.Graph Rdf Fallible

variable {s : Statements} {r r' : Rebuilding}

theorem addSubject_eq_ok {grid : Float × Float} {reference : Position} {urns : Nat → String}
    {t : Term} :
    addSubject s grid reference urns r t = .ok r' ↔
      ∃ classIri graph, s.classIri? r.graph.model t = some classIri ∧
        r.graph.addNode (nodeIdFor urns r t) classIri (s.position grid reference t) = .ok graph ∧
        r' = { r with
          graph
          nodeIds := (t, nodeIdFor urns r t) :: r.nodeIds
          placeholders := r.placeholders ++
            (((graph.node? (nodeIdFor urns r t)).map (·.entries)).getD []).map (·.id) } := by
  unfold addSubject
  cases s.classIri? r.graph.model t with
  | none => simp
  | some classIri =>
    dsimp only
    cases hgraph : r.graph.addNode (nodeIdFor urns r t) classIri (s.position grid reference t) with
    | error error => simp [hgraph]
    | ok graph => simp [hgraph, eq_comm (a := r')]

theorem record_eq_ok {result : Except GraphError (Addition × InstanceGraph)} :
    r.record result = .ok r' ↔
      (∃ id graph, result = .ok (.added id, graph) ∧ r' = { r with graph }) ∨
        ∃ graph, result = .ok (.full, graph) ∧ r' = { r with graph, dropped := r.dropped + 1 } := by
  unfold Rebuilding.record
  rcases result with error | ⟨_ | _, graph⟩ <;> simp [eq_comm]

theorem exists_record_iff {result : Except GraphError (Addition × InstanceGraph)} :
    (∃ r', r.record result = .ok r') ↔ ∃ added, result = .ok added := by
  unfold Rebuilding.record
  rcases result with error | ⟨_ | _, graph⟩ <;> simp

/-- What a statement that is not about the type of its subject can become. -/
theorem addStatement_eq_ok {id : String} {t : Triple} (ht : t.predicate ≠ rdfType) :
    addStatement s id r t = .ok r' ↔
      ∃ n cp, r.graph.node? id = some n ∧ n.property? t.predicate = some cp ∧
        ((cp.isObject = true ∧ ∃ target, r.nodeIds.lookup t.object = some target ∧
            r.record (r.graph.addEdge id target cp) = .ok r') ∨
          (cp.isObject = false ∧
            ((∃ e changed, placeholderFor? r n cp.path (entryValue cp t.object) = some e ∧
                r.graph.setEntry id e.id (some (entryValue cp t.object)) = .ok changed ∧
                r' = { r with
                  graph := changed.2
                  placeholders := r.placeholders.filter (· ≠ e.id) }) ∨
              (placeholderFor? r n cp.path (entryValue cp t.object) = none ∧
                r.record (r.graph.addEntry id cp (some (entryValue cp t.object))) = .ok r')))) := by
  unfold addStatement
  rw [if_neg ht]
  cases r.graph.node? id with
  | none => simp
  | some n =>
    dsimp only
    cases hcp : n.property? t.predicate with
    | none => simp [hcp]
    | some cp =>
      dsimp only
      cases hobject : cp.isObject with
      | true => cases r.nodeIds.lookup t.object <;> simp [hcp, hobject]
      | false =>
        cases hopen : placeholderFor? r n cp.path (entryValue cp t.object) with
        | none => simp [hcp, hobject, hopen]
        | some e =>
          cases hset : r.graph.setEntry id e.id (some (entryValue cp t.object)) with
          | error error => simp [hcp, hobject, hopen, hset]
          | ok changed =>
            obtain ⟨isValid, graph⟩ := changed
            cases isValid <;> simp [hcp, hobject, hopen, hset, eq_comm (a := r')]

theorem addStatement_of_rdfType {id : String} {t : Triple} (ht : t.predicate = rdfType) :
    addStatement s id r t = .ok r := by
  unfold addStatement
  rw [if_pos ht]

/-- The names of the new nodes are not changed by a statement. -/
theorem nodeIds_of_addStatement {id : String} {t : Triple}
    (h : addStatement s id r t = .ok r') : r'.nodeIds = r.nodeIds := by
  by_cases ht : t.predicate = rdfType
  · rw [addStatement_of_rdfType ht] at h
    cases h
    rfl
  obtain ⟨n, cp, -, -, hcase⟩ := (addStatement_eq_ok ht).1 h
  rcases hcase with ⟨-, target, -, hedge⟩ | ⟨-, ⟨e, changed, -, -, rfl⟩ | ⟨-, hentry⟩⟩
  · rcases record_eq_ok.1 hedge with ⟨edgeId, graph, -, rfl⟩ | ⟨graph, -, rfl⟩ <;> rfl
  · rfl
  · rcases record_eq_ok.1 hentry with ⟨entryId, graph, -, rfl⟩ | ⟨graph, -, rfl⟩ <;> rfl

theorem nodeIds_of_addStatements {t : Term} (h : addStatements s r t = .ok r') :
    r'.nodeIds = r.nodeIds := by
  unfold addStatements at h
  split at h
  · cases h
    rfl
  · exact foldlM_induction (P := fun r' ↦ r'.nodeIds = r.nodeIds) rfl h
      fun _ _ _ _ hr hstep ↦ (nodeIds_of_addStatement hstep).trans hr

/-- A rebuilt graph comes from a pass that adds the subjects and a pass that adds their statements.
No subject may be the name of a node before. -/
theorem rebuild_eq_ok {g : InstanceGraph} {config : Settings.Configuration}
    {reference : Position} {urns : Nat → String} {result : ImportSummary × InstanceGraph} :
    rebuild g config s reference urns = .ok result ↔
      takenIri? g s.subjects = none ∧ ∃ r r',
        s.subjects.foldlM (addSubject s config.grid reference urns) { graph := g } = .ok r ∧
        s.subjects.foldlM (addStatements s) r = .ok r' ∧
        result = ({ nodeIds := r'.nodeIds.reverse.map (·.2)
                    root := rootOf config.documentClass r'.graph (r'.nodeIds.reverse.map (·.2))
                    dropped := r'.dropped }, r'.graph) := by
  unfold rebuild
  cases takenIri? g s.subjects with
  | some iri => simp
  | none =>
    simp only [bind_eq_ok, true_and]
    constructor
    · rintro ⟨r, hr, r', hr', hresult⟩
      cases hresult
      exact ⟨r, r', hr, hr', rfl⟩
    · rintro ⟨r, r', hr, hr', rfl⟩
      exact ⟨r, hr, r', hr', rfl⟩

theorem importDocument_eq_ok {g : InstanceGraph} {c : TermContext} {config : Settings.Configuration}
    {text : String} {reference : Position} {urns : Nat → String}
    {result : ImportSummary × InstanceGraph} :
    importDocument g c config text reference urns = .ok result ↔
      ∃ s, readStatements c config text = .ok s ∧ rebuild g config s reference urns = .ok result :=
  bind_eq_ok

end OntoGraph.Document
