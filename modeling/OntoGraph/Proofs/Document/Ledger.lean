import OntoGraph.Proofs.Document.AddedContent

/-!
# Where each statement goes

While a document is added to a graph, a ledger can be kept: each statement that is not of the type
of its subject becomes an edge, becomes the value of an entry, or is left out and counted. The
ledger accounts for everything that is new in the graph. No entry is written twice, and one that is
never written has the value that its node started with.
-/

namespace OntoGraph.Document

open Ontology OntoGraph.Graph Rdf InstanceGraph

/-- The statements in the order in which they were read, each with what became of it. -/
abbrev Ledger := List (Triple × Outcome)

def Ledger.written (ledger : Ledger) : List String := ledger.filterMap (·.2.entryId?)

def Ledger.edges (ledger : Ledger) : List Edge := ledger.filterMap (·.2.edge?)

variable {s : Statements} {g g' : InstanceGraph} {r r' first : Rebuilding} {id path : String}
  {name : Term → String} {subjects : List Term} {u : Triple} {outcome : Outcome} {ledger : Ledger}

/-! ## What a ledger says of a graph -/

def declaration? (g : InstanceGraph) (id path : String) : Option ClassProperty :=
  (g.node? id).bind (·.property? path)

theorem declaration?_of_node? {n : Node} (h : g.node? id = some n) (path : String) :
    declaration? g id path = n.property? path := by
  rw [declaration?, h]
  rfl

/-- Is what became of a statement to be seen in a graph? An edge leads between the nodes of its
subject and its object, an entry holds the value of its object, and where it was left out there are
as many values and edges as there may be. -/
def Outcome.Shown (g : InstanceGraph) (name : Term → String) (subjects : List Term) (u : Triple) :
    Outcome → Prop
  | .edge e => e ∈ g.edges ∧ e.path = u.predicate ∧ e.source = name u.subject ∧
      u.object ∈ subjects ∧ e.target = name u.object
  | .entry id => ∃ cp e, declaration? g (name u.subject) u.predicate = some cp ∧
      e ∈ g.entriesAt (name u.subject) u.predicate ∧ e.id = id ∧
      e.value = some (entryValue cp u.object)
  | .leftOut => ∃ cp max, declaration? g (name u.subject) u.predicate = some cp ∧
      cp.maxCount = some max ∧ max ≤ g.entryCount (name u.subject) u.predicate

/-- Does a ledger account for what a graph has more than another one? Its edges are all that are
new, its entries are all different, and any other entry of a new node has the value that the node
started with. -/
structure Ledger.Accounts (ledger : Ledger) (g g' : InstanceGraph) (name : Term → String)
    (subjects : List Term) : Prop where
  edges : g'.edges = g.edges ++ ledger.edges
  shown : ∀ row ∈ ledger, row.2.Shown g' name subjects row.1
  distinct : ledger.written.Nodup
  kept : ∀ t ∈ subjects, ∀ path, ∀ e ∈ g'.entriesAt (name t) path, e.id ∉ ledger.written →
    e.isRequired = true ∧ e.value = g.initialValue e.property

/-- Has a state been reached with what a ledger says? -/
structure Rebuilding.Tracks (r : Rebuilding) (g : InstanceGraph) (name : Term → String)
    (subjects : List Term) (ledger : Ledger) : Prop where
  accounts : ledger.Accounts g r.graph name subjects
  distinct : r.graph.DistinctEntries
  issued : ∀ id ∈ r.placeholders, ∃ k < r.graph.issued, id = issuedId k
  named : r.Names name subjects
  written : ∀ id ∈ ledger.written, id ∉ r.placeholders ∧ ∃ k < r.graph.issued, id = issuedId k
  dropped : r.dropped = ledger.countP (·.2 = .leftOut)

@[simp] theorem Ledger.written_concat (ledger : Ledger) (u : Triple) (outcome : Outcome) :
    written (ledger ++ [(u, outcome)]) = ledger.written ++ outcome.entryId?.toList := by
  rw [written, List.filterMap_append]
  cases h : outcome.entryId? <;> simp [h, written]

@[simp] theorem Ledger.edges_concat (ledger : Ledger) (u : Triple) (outcome : Outcome) :
    edges (ledger ++ [(u, outcome)]) = ledger.edges ++ outcome.edge?.toList := by
  rw [edges, List.filterMap_append]
  cases h : outcome.edge? <;> simp [h, edges]

/-- Where nodes keep their chains, they keep their declarations. -/
theorem declaration?_of_typed {cp : ClassProperty}
    (h : ∀ id n, g.node? id = some n →
      ∃ m, g'.node? id = some m ∧ m.cls = n.cls ∧ m.chain = n.chain)
    (hcp : declaration? g id path = some cp) : declaration? g' id path = some cp := by
  obtain ⟨n, hn, hcp⟩ := Option.bind_eq_some_iff.1 hcp
  obtain ⟨m, hm, -, hchain⟩ := h _ n hn
  rw [declaration?_of_node? hm, Node.property?, hchain]
  exact hcp

namespace Rebuilding.Tracks

/-- What became of a statement is to be seen. -/
theorem shown_of_becomes (h : r.Tracks g name subjects ledger)
    (hstep : Becomes r (name u.subject) u outcome r') :
    outcome.Shown r'.graph name subjects u := by
  cases hstep with
  | @link n cp target hn hcp hobject htarget hroom =>
    obtain ⟨hmem, rfl⟩ := h.named.of_lookup htarget
    exact ⟨List.mem_append_right _ List.mem_cons_self, path_of_nearest? hcp, rfl, hmem, rfl⟩
  | @fill n cp e hn hcp hobject he hopen =>
    have hkeeps : r.Keeps (r.fill (name u.subject) e (entryValue cp u.object)) :=
      keeps_fill _ h.distinct h.issued
    have hdeclared := declaration?_of_typed hkeeps.typed ((declaration?_of_node? hn _).trans hcp)
    have hentries : (r.fill (name u.subject) e (entryValue cp u.object)).graph.entriesAt
        (name u.subject) u.predicate = _ := entriesAt_writeEntry e.id _ _ _ _
    rw [if_pos rfl, entriesAt_of_node? hn] at hentries
    refine ⟨cp, _, hdeclared, hentries ▸ List.mem_map_of_mem he, ?_, ?_⟩ <;>
      rw [rewritten, if_pos rfl]
  | @append n cp hn hcp hobject hclosed hroom =>
    have hkeeps : r.Keeps (r.append (name u.subject) cp (entryValue cp u.object)) :=
      keeps_append _ h.distinct h.issued
    have hdeclared := declaration?_of_typed hkeeps.typed ((declaration?_of_node? hn _).trans hcp)
    have hentries : (r.append (name u.subject) cp (entryValue cp u.object)).graph.entriesAt
        (name u.subject) u.predicate = _ := entriesAt_insertEntry hn _ _
    rw [if_pos ⟨rfl, (path_of_nearest? hcp).symm⟩] at hentries
    exact ⟨cp, _, hdeclared, hentries ▸ List.mem_append_right _ List.mem_cons_self, rfl, rfl⟩
  | @leaveOut n cp hn hcp _ hfull =>
    obtain ⟨max, hmax, hcount⟩ := isFull_eq_true_iff.1 hfull
    rw [path_of_nearest? hcp] at hcount
    exact ⟨cp, max, (declaration?_of_node? hn _).trans hcp, hmax, hcount⟩

/-- What became of a statement is still to be seen after a step for another one, since no entry is
written again. -/
theorem shown_after (h : r.Tracks g name subjects ledger)
    (hstep : Becomes r id u outcome r') (hfresh : ∀ id ∈ ledger.written, outcome.entryId? ≠ some id)
    {row : Triple × Outcome} (hrow : row ∈ ledger) : row.2.Shown r'.graph name subjects row.1 := by
  have hkeeps := hstep.keeps h.distinct h.issued
  have hshown := h.accounts.shown row hrow
  obtain ⟨v, before⟩ := row
  cases before with
  | edge e =>
    obtain ⟨hmem, hrest⟩ := hshown
    exact ⟨hstep.edges ▸ List.mem_append_left _ hmem, hrest⟩
  | entry entryId =>
    obtain ⟨cp, e, hcp, he, rfl, hvalue⟩ := hshown
    have hwritten : e.id ∈ ledger.written := List.mem_filterMap.2 ⟨_, hrow, rfl⟩
    exact ⟨cp, e, declaration?_of_typed hkeeps.typed hcp,
      (hstep.mem_entriesAt_iff (hfresh _ hwritten)).2 he, rfl, hvalue⟩
  | leftOut =>
    obtain ⟨cp, max, hcp, hmax, hcount⟩ := hshown
    exact ⟨cp, max, declaration?_of_typed hkeeps.typed hcp, hmax,
      hcount.trans (hstep.entryCount_le _ _)⟩

/-- Each statement adds a row to the ledger. -/
theorem concat (h : r.Tracks g name subjects ledger)
    (hstep : Becomes r (name u.subject) u outcome r') :
    r'.Tracks g name subjects (ledger ++ [(u, outcome)]) := by
  have hkeeps := hstep.keeps h.distinct h.issued
  -- an entry that was written is neither open nor new
  have hfresh : ∀ id ∈ ledger.written, outcome.entryId? ≠ some id := by
    intro id hid hwritten
    obtain ⟨hclosed, k, hk, rfl⟩ := h.written id hid
    rcases (hstep.entryId_written h.issued hwritten).1 with hopen | hnew
    · exact hclosed hopen
    · exact absurd (issuedId_injective hnew) (by omega)
  constructor
  case accounts =>
    constructor
    case edges => rw [hstep.edges, h.accounts.edges, Ledger.edges_concat, List.append_assoc]
    case shown =>
      intro row hrow
      rcases List.mem_append.1 hrow with hrow | hrow
      · exact h.shown_after hstep hfresh hrow
      · cases List.mem_singleton.1 hrow
        exact h.shown_of_becomes hstep
    case distinct =>
      rw [Ledger.written_concat, List.nodup_append]
      refine ⟨h.accounts.distinct, ?_, fun id hid other hother heq ↦ ?_⟩
      · cases outcome.entryId? <;> simp
      · rw [Option.mem_toList] at hother
        exact hfresh id hid (heq ▸ hother)
    case kept =>
      intro t ht path e he hnot
      rw [Ledger.written_concat, List.mem_append, Option.mem_toList, not_or] at hnot
      exact h.accounts.kept t ht path e ((hstep.mem_entriesAt_iff hnot.2).1 he) hnot.1
  case distinct => exact hkeeps.distinct
  case issued => exact hkeeps.issued
  case named =>
    have hnames : r'.nodeIds = r.nodeIds := hkeeps.named
    rw [Names, hnames]
    exact h.named
  case written =>
    intro id hid
    rw [Ledger.written_concat, List.mem_append, Option.mem_toList] at hid
    rcases hid with hid | hid
    · obtain ⟨hclosed, k, hk, heq⟩ := h.written id hid
      exact ⟨fun hopen ↦ hclosed (hstep.placeholders hopen), k,
        Nat.lt_of_lt_of_le hk hstep.issued_le, heq⟩
    · exact (hstep.entryId_written h.issued hid).2
  case dropped =>
    rw [hstep.dropped, h.dropped, List.countP_append, List.countP_singleton]
    simp only [decide_eq_true_eq]

end Rebuilding.Tracks

/-! ## The two passes -/

theorem initialEntry_of_mem {chain : Chain} {e : Entry} (h : e ∈ g.initialEntries chain) :
    e.isRequired = true ∧ e.value = g.initialValue e.property := by
  obtain ⟨i, hi, rfl⟩ := List.mem_mapIdx.1 h
  exact ⟨rfl, rfl⟩

variable {grid : Float × Float} {reference : Position} {urns : Nat → String}

/-- When the subjects have nodes, no statement was read and every entry has its first value. -/
theorem tracks_of_subjects (hg : g.DistinctEntries)
    (h : s.subjects.foldlM (addSubject s grid reference urns) { graph := g } = .ok first) :
    first.Tracks g (nameIn urns s.subjects) s.subjects [] := by
  suffices hpass : first.Tracks g (nameIn urns s.subjects) s.subjects [] ∧
      first.graph.initialValue = g.initialValue ∧
      ∀ t ∈ s.subjects, first.graph.node? (nameIn urns s.subjects t) ≠ none from hpass.1
  refine Fallible.foldlM_done_induction (P := fun done (r : Rebuilding) ↦
    r.Tracks g (nameIn urns s.subjects) done [] ∧ r.graph.initialValue = g.initialValue ∧
      ∀ t ∈ done, r.graph.node? (nameIn urns s.subjects t) ≠ none) ⟨?_, rfl, by rintro _ ⟨⟩⟩ h ?_
  · exact ⟨⟨(List.append_nil _).symm, by rintro _ ⟨⟩, List.nodup_nil, by rintro _ ⟨⟩⟩, hg,
      by rintro _ ⟨⟩, rfl, by rintro _ ⟨⟩, rfl⟩
  rintro done t rest r r' hitems ⟨hr, hinitial, hdone⟩ hstep
  have hnames := hr.named.addSubject hitems hstep
  obtain ⟨classIri, m, -, hnode, hm, rfl⟩ := addSubject_eq_insert.1 hstep
  rw [nodeIdFor_eq_nameIn hitems hr.named.length] at hnode hm
  obtain ⟨hid, -, hentries⟩ := newNode_parts hm
  rw [← hid] at hnode
  have hold : ∀ u ∈ done, nameIn urns s.subjects u ≠ m.id := fun u hu heq ↦
    hdone u hu (heq ▸ hnode)
  refine ⟨⟨⟨hr.accounts.edges, by rintro _ ⟨⟩, List.nodup_nil, ?_⟩, hr.distinct.insertNode hm,
    issued_insert hr.issued hentries t, hnames, by rintro _ ⟨⟩, hr.dropped⟩, hinitial, ?_⟩
  · intro u hu path e he hnot
    have hshown : (r.insert t m).graph.entriesAt (nameIn urns s.subjects u) path = _ :=
      entriesAt_insertNode hnode _ path
    rw [hshown] at he
    rcases List.mem_append.1 hu with hu | hu
    · rw [if_neg (hold u hu)] at he
      exact hr.accounts.kept u hu path e he hnot
    · cases List.mem_singleton.1 hu
      rw [if_pos hid.symm, Node.entriesOf, hentries] at he
      rw [← hinitial]
      exact initialEntry_of_mem (List.mem_filter.1 he).1
  · intro u hu
    have hlookup : (r.insert t m).graph.node? (nameIn urns s.subjects u) = _ :=
      node?_insertNode hnode _
    rw [hlookup]
    rcases List.mem_append.1 hu with hu | hu
    · rw [if_neg (hold u hu)]
      exact hdone u hu
    · cases List.mem_singleton.1 hu
      rw [if_pos hid.symm]
      exact Option.some_ne_none m

/-- The ledger that is kept while statements are added from a state on, with the state that they
lead to. -/
inductive Recorded (s : Statements) (name : Term → String) (first : Rebuilding) :
    Ledger → Rebuilding → Prop where
  | nil : Recorded s name first [] first
  | concat {ledger : Ledger} {r r' : Rebuilding} {u : Triple} {outcome : Outcome}
      (before : Recorded s name first ledger r) (htype : u.predicate ≠ rdfType)
      (hstep : addStatement s (name u.subject) r u = .ok r')
      (houtcome : Becomes r (name u.subject) u outcome r') :
      Recorded s name first (ledger ++ [(u, outcome)]) r'

/-- Is a ledger that was kept right about a state, and are its rows for some statements? -/
def Rebuilding.Follows (r first : Rebuilding) (s : Statements) (g : InstanceGraph)
    (name : Term → String) (read : List Triple) : Prop :=
  ∃ ledger, Recorded s name first ledger r ∧ r.Tracks g name s.subjects ledger ∧
    ledger.map (·.1) = read.filter (·.predicate ≠ rdfType)

variable {read : List Triple}

theorem Rebuilding.Follows.addStatement (h : r.Follows first s g name read)
    (hstep : Document.addStatement s (name u.subject) r u = .ok r') :
    r'.Follows first s g name (read ++ [u]) := by
  obtain ⟨ledger, hrecorded, htracks, hrows⟩ := h
  by_cases htype : u.predicate = rdfType
  · rw [addStatement_of_rdfType htype] at hstep
    cases hstep
    exact ⟨ledger, hrecorded, htracks, by simp [hrows, htype]⟩
  · obtain ⟨outcome, hbecomes⟩ := exists_becomes htracks.distinct htype hstep
    exact ⟨_, hrecorded.concat htype hstep hbecomes, htracks.concat hbecomes,
      by simp [hrows, htype]⟩

/-- Every statement of a document that is added to a reachable graph goes to one place: it becomes a
new edge, the value of an entry that no other statement is written to, or it is left out and
counted. -/
theorem importDocument_accounts {c : TermContext} {config : Settings.Configuration} {text : String}
    {summary : ImportSummary} (hg : g.Reachable)
    (h : importDocument g c config text reference urns = .ok (summary, g')) :
    ∃ s first ledger last, readStatements c config text = .ok s ∧
      s.subjects.foldlM (addSubject s config.grid reference urns) { graph := g } = .ok first ∧
      s.subjects.foldlM (addStatements s) first = .ok last ∧
      Recorded s (nameIn urns s.subjects) first ledger last ∧ last.graph = g' ∧
      summary.nodeIds = s.subjects.map (nameIn urns s.subjects) ∧
      (ledger.map (·.1)).Perm (s.store.triples.toList.filter (·.predicate ≠ rdfType)) ∧
      ledger.Accounts g g' (nameIn urns s.subjects) s.subjects ∧
      summary.dropped = ledger.countP (·.2 = .leftOut) := by
  obtain ⟨s, hs, hrebuild⟩ := importDocument_eq_ok.1 h
  have hids := nodeIds_of_rebuild hrebuild
  obtain ⟨-, first, last, hfirst, hlast, hresult⟩ := rebuild_eq_ok.1 hrebuild
  cases hresult
  have hstart := tracks_of_subjects hg.distinctEntries hfirst
  have hpass := hlast
  rw [hstart.named.foldlM_addStatements] at hpass
  obtain ⟨ledger, hrecorded, htracks, hrows⟩ := Fallible.foldlM_done_induction
    (P := fun read (r : Rebuilding) ↦ r.Follows first s g (nameIn urns s.subjects) read)
    ⟨[], .nil, hstart, rfl⟩ hpass fun _ _ _ _ _ _ hr hstep ↦ hr.addStatement hstep
  refine ⟨s, first, ledger, last, hs, hfirst, hlast, hrecorded, rfl, hids, ?_, htracks.accounts,
    htracks.dropped⟩
  rw [hrows]
  exact (perm_triples s).filter _

/-- A lamp with a part, of which is said that it is lit and that it is not. -/
def litDocument : Json :=
  .object [("@context", .string ({} : Settings.Configuration).contextUrl),
    ("@graph", .array [
      .object [("@id", .string "https://x/lamp"), ("@type", .string "https://x/Element"),
        ("https://x/lit", .array [.bool true, .bool false]),
        ("https://x/part", .object [("@id", .string "_:p")])],
      .object [("@id", .string "_:p"), ("@type", .string "https://x/Part")]])]

/-- One of the truth values fills the open entry, the other one is left out, and the part becomes an
edge. -/
theorem importDocument_accounts_litDocument :
    ∃ summary g', lampGraph.Reachable ∧
      importDocument lampGraph {} {} litDocument.compact {} lampUrns = .ok (summary, g') ∧
      summary.dropped = 1 ∧ g'.edges.length = 1 ∧
      ∃ s first ledger last, readStatements {} {} litDocument.compact = .ok s ∧
        s.subjects.foldlM (addSubject s ({} : Settings.Configuration).grid {} lampUrns)
          { graph := lampGraph } = .ok first ∧
        s.subjects.foldlM (addStatements s) first = .ok last ∧
        Recorded s (nameIn lampUrns s.subjects) first ledger last ∧ last.graph = g' ∧
        summary.nodeIds = s.subjects.map (nameIn lampUrns s.subjects) ∧
        (ledger.map (·.1)).Perm (s.store.triples.toList.filter (·.predicate ≠ rdfType)) ∧
        ledger.Accounts lampGraph g' (nameIn lampUrns s.subjects) s.subjects ∧
        summary.dropped = ledger.countP (·.2 = .leftOut) := by
  have hcheck : (match importDocument lampGraph {} {} litDocument.compact {} lampUrns with
      | .error _ => false
      | .ok (summary, g') => decide (summary.dropped = 1 ∧ g'.edges.length = 1)) = true := by
    decide +kernel
  cases himport : importDocument lampGraph {} {} litDocument.compact {} lampUrns with
  | error error =>
    rw [himport] at hcheck
    cases hcheck
  | ok result =>
    rw [himport] at hcheck
    obtain ⟨hdropped, hedges⟩ := of_decide_eq_true hcheck
    exact ⟨result.1, result.2, reachable_lampGraph, rfl, hdropped, hedges,
      importDocument_accounts reachable_lampGraph himport⟩

end OntoGraph.Document
