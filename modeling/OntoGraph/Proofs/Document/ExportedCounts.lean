import Mathlib.Data.List.Perm.Subperm
import OntoGraph.Proofs.Document.ExportedTriples
import OntoGraph.Proofs.Document.LiteralValues
import OntoGraph.Proofs.Graph.Bounds
import OntoGraph.Proofs.Graph.Marks

/-!
# What a clean report says of the exported triples

A report counts valid entries, and where no value is required an entry is valid without one. A
document holds values only, and values that are written alike are one. So a clean report promises
as many triples as a declaration asks for if the path has no empty entry, and no number that is
written like another value: other valid values are written alike only if they are the same. Nothing
in a report bounds the number of values from above; there
are no more triples than values and edges, whose number the additions of a run keep within bounds.
-/

namespace OntoGraph.Ontology

def Value.isNumber : Value → Bool
  | .number _ => true
  | _ => false

theorem Datatype.eq_boolean_of_accepts {d : Datatype} {b : Bool}
    (h : d.accepts (.bool b) = true) : d = .boolean := by
  cases d <;> first | rfl | cases h

/-- Values that are written as one literal are the same, unless one is a number. -/
theorem Value.eq_of_accepts {d d' : Datatype} {v w : Value} (hv : d.accepts v = true)
    (hw : d'.accepts w = true) (hxsd : d.xsd = d'.xsd) (hlexical : v.lexical = w.lexical)
    (hnumber : v.isNumber = true → v = w) (hnumber' : w.isNumber = true → v = w) : v = w := by
  by_cases hboolean : d = .boolean
  · have hboolean' : d' = .boolean := by
      rwa [← Document.xsd_eq_xsdBoolean_iff, ← hxsd, Document.xsd_eq_xsdBoolean_iff]
    subst hboolean hboolean'
    obtain ⟨b, rfl⟩ := accepts_boolean hv
    obtain ⟨b', rfl⟩ := accepts_boolean hw
    cases b <;> cases b' <;> first | rfl | exact absurd hlexical (by decide)
  · have hboolean' : d' ≠ .boolean := by
      rwa [Ne, ← Document.xsd_eq_xsdBoolean_iff, ← hxsd, Document.xsd_eq_xsdBoolean_iff]
    cases v with
    | bool b => exact absurd (Datatype.eq_boolean_of_accepts hv) hboolean
    | number x => exact hnumber rfl
    | text s =>
      cases w with
      | bool b => exact absurd (Datatype.eq_boolean_of_accepts hw) hboolean'
      | number y => exact hnumber' rfl
      | text s' => exact congrArg Value.text hlexical

end OntoGraph.Ontology

namespace OntoGraph.Graph

open Ontology

/-- Has each entry for a path a value, and is no number among them written like another value? -/
structure Node.WritesApart (n : Node) (path : String) : Prop where
  valued : ∀ e ∈ n.entriesOf path, e.value.isSome = true
  numbers : ∀ e ∈ n.entriesOf path, e.value.any Value.isNumber = true →
    ∀ f ∈ n.entriesOf path, e.value.map Value.lexical = f.value.map Value.lexical →
      e.value = f.value

instance (n : Node) (path : String) : Decidable (n.WritesApart path) :=
  decidable_of_iff (_ ∧ _)
    ⟨fun ⟨valued, numbers⟩ ↦ ⟨valued, numbers⟩, fun ⟨valued, numbers⟩ ↦ ⟨valued, numbers⟩⟩

end OntoGraph.Graph

namespace OntoGraph.Graph.InstanceGraph

open Ontology

/-- Do the entries of a node for one path have different values, and do its edges for one path lead
to different nodes? -/
structure WithoutRepetition (g : InstanceGraph) : Prop where
  values : ∀ n ∈ g.nodes, n.entries.Pairwise fun e f ↦ e.path = f.path →
    e.value.isSome = true → e.value ≠ f.value
  edges : (g.edges.map fun e ↦ (e.source, e.path, e.target)).Nodup

variable {g : InstanceGraph} {n : Node}

theorem WithoutRepetition.nodup_targetsAt (h : g.WithoutRepetition) (id path : String) :
    (g.targetsAt id path).Nodup := by
  have hkeys := ((List.pairwise_map.1 h.edges).sublist
    ((List.filter_sublist (p := fun e ↦ e.path = path)).trans
      (List.filter_sublist (p := fun e ↦ e.source = id))))
  refine List.pairwise_map.2 (hkeys.imp_of_mem fun he hf hne htarget ↦ hne ?_)
  have hends : ∀ e ∈ (g.outEdges id).filter (·.path = path), e.source = id ∧ e.path = path :=
    fun e he ↦ ⟨of_decide_eq_true (List.mem_filter.1 (List.mem_filter.1 he).1).2,
      of_decide_eq_true (List.mem_filter.1 he).2⟩
  rw [(hends _ he).1, (hends _ he).2, (hends _ hf).1, (hends _ hf).2, htarget]

/-- A clean report counts as many values as a declaration asks for. -/
theorem minCount_le_of_clean {cp : ClassProperty} {min : Nat} (hclean : g.validate.isClean = true)
    (hn : n ∈ g.nodes) (hcp : cp ∈ n.chain.declarations) (hmin : cp.minCount = some min) :
    min ≤ if cp.isObject then g.outEdgeCount n.id cp.path else (n.entriesOf cp.path).length := by
  have hmet := isUnmet_of_clean hclean hn hcp
  rw [isUnmet, hmin, Option.any_some, decide_eq_false_iff_not, Nat.not_lt, satisfyingCount] at hmet
  have hvalid : n.entries.filter (fun e ↦ e.isValid && e.path = cp.path) = n.entriesOf cp.path :=
    List.filter_congr fun e he ↦ by rw [isValid_of_clean hclean hn he, Bool.true_and]
  rwa [hvalid] at hmet

end OntoGraph.Graph.InstanceGraph

namespace OntoGraph.Document

open Ontology OntoGraph.Graph Rdf InstanceGraph

variable {g : InstanceGraph} {n : Node} {path : String}

def exportedCount (g : InstanceGraph) (n : Node) (path : String) : Nat :=
  ((exportStore g g.nodes).2.objects (subjectOf g.nodes n) path).length

theorem isSome_entryTerm? {e : Entry} (hobject : e.property.isObject = false)
    (hvalued : e.value.isSome = true) : (entryTerm? e).isSome = true := by
  obtain ⟨v, hv⟩ := Option.isSome_iff_exists.1 hvalued
  unfold entryTerm?
  rw [hv, Option.bind_some]
  cases hconstraint : e.property.constraint with
  | object target =>
    rw [ClassProperty.isObject, ClassProperty.target?, hconstraint] at hobject
    cases hobject
  | _ => rfl

/-- Valid entries that are written as one term have one value, unless one value is a number. -/
theorem value_eq_of_entryTerm {e f : Entry} {o : Term} (he : e.Judged) (hf : f.Judged)
    (hvalid : e.isValid = true) (hvalid' : f.isValid = true) (hterm : entryTerm? e = some o)
    (hterm' : entryTerm? f = some o)
    (hnumber : e.value.any Value.isNumber = true → e.value = f.value)
    (hnumber' : f.value.any Value.isNumber = true → e.value = f.value) : e.value = f.value := by
  have hlexical := (value_of_entryTerm hterm).trans (value_of_entryTerm hterm').symm
  unfold entryTerm? at hterm hterm'
  obtain ⟨v, hv, hterm⟩ := Option.bind_eq_some_iff.1 hterm
  obtain ⟨w, hw, hterm'⟩ := Option.bind_eq_some_iff.1 hterm'
  rw [hv, hw] at hnumber hnumber' hlexical ⊢
  have hlexical : v.lexical = w.lexical := Option.some.inj hlexical
  cases hconstraint : e.property.constraint with
  | literal datatype =>
    cases hconstraint' : f.property.constraint with
    | literal datatype' =>
      rw [hconstraint] at hterm
      rw [hconstraint'] at hterm'
      have hxsd : datatype.xsd = datatype'.xsd := by
        have hsame := Option.some.inj (hterm.trans hterm'.symm)
        exact (Term.literal.inj hsame).2.1
      exact congrArg some (Value.eq_of_accepts (he.accepts hvalid hv hconstraint)
        (hf.accepts hvalid' hw hconstraint') hxsd hlexical
        (fun h ↦ Option.some.inj (hnumber h)) fun h ↦ Option.some.inj (hnumber' h))
    | enumerated options =>
      rw [hconstraint] at hterm
      rw [hconstraint', ← hterm] at hterm'
      cases hterm'
    | object target =>
      rw [hconstraint'] at hterm'
      cases hterm'
  | enumerated options =>
    cases hconstraint' : f.property.constraint with
    | enumerated options' =>
      rw [he.text hvalid hv hconstraint, hf.text hvalid' hw hconstraint', hlexical]
    | literal datatype =>
      rw [hconstraint] at hterm
      rw [hconstraint', ← hterm] at hterm'
      cases hterm'
    | object target =>
      rw [hconstraint'] at hterm'
      cases hterm'
  | object target =>
    rw [hconstraint] at hterm
    cases hterm

/-- After a clean report, every value of a path is exported. -/
theorem length_entriesOf_le_exportedCount (hg : g.Reachable) (hclean : g.validate.isClean = true)
    (h : g.WithoutRepetition) (hn : n ∈ g.nodes) (hapart : n.WritesApart path) :
    (n.entriesOf path).length ≤ exportedCount g n path := by
  have hterms : ((n.entriesOf path).filterMap entryTerm?).length = (n.entriesOf path).length :=
    List.filterMap_length_eq_length.2 fun e he ↦
      isSome_entryTerm? (hg.consistent.entries n hn e (List.mem_filter.1 he).1).1
        (hapart.valued e he)
  have hnodup : ((n.entriesOf path).filterMap entryTerm?).Nodup := by
    rw [List.Nodup, List.pairwise_filterMap]
    refine ((h.values n hn).filter _).imp_of_mem fun {e f} he hf hne o ho o' ho' heq ↦ ?_
    subst heq
    have hlexical := (value_of_entryTerm ho).trans (value_of_entryTerm ho').symm
    obtain ⟨hmem, hpath⟩ := List.mem_filter.1 he
    obtain ⟨hmem', hpath'⟩ := List.mem_filter.1 hf
    refine hne ((of_decide_eq_true hpath).trans (of_decide_eq_true hpath').symm)
      (hapart.valued e he) ?_
    exact value_eq_of_entryTerm (hg.judged n hn e hmem) (hg.judged n hn f hmem')
      (isValid_of_clean hclean hn hmem) (isValid_of_clean hclean hn hmem') ho ho'
      (fun hnumber ↦ hapart.numbers e he hnumber f hf hlexical)
      fun hnumber ↦ (hapart.numbers f hf hnumber e he hlexical.symm).symm
  rw [← hterms, exportedCount]
  refine (List.subperm_of_subset hnodup fun o ho ↦ ?_).length_le
  exact (mem_objects_exportStore hg.consistent.ids hn).2 (.inr (.inl (List.mem_filterMap.1 ho)))

def targetTerms (g : InstanceGraph) (n : Node) (path : String) : List Term :=
  (g.targetsAt n.id path).filterMap (assignSubjects g.nodes).1.get?

/-- Every edge of a path is exported. -/
theorem outEdgeCount_le_exportedCount (hg : g.Consistent) (h : g.WithoutRepetition)
    (hn : n ∈ g.nodes) : g.outEdgeCount n.id path ≤ exportedCount g n path := by
  have hsubject : ∀ target ∈ g.targetsAt n.id path, ∃ m ∈ g.nodes, m.id = target ∧
      (assignSubjects g.nodes).1.get? target = some (subjectOf g.nodes m) := by
    intro target htarget
    obtain ⟨e, he, rfl⟩ := List.mem_map.1 htarget
    obtain ⟨-, m, hm, -, hid, -⟩ := hg.outEdge hn (List.mem_filter.1 he).1
    exact ⟨m, hm, hid, hid ▸ get?_assignSubjects hg.ids hm⟩
  have hterms : (targetTerms g n path).length = g.outEdgeCount n.id path := by
    have hlength : (targetTerms g n path).length = (g.targetsAt n.id path).length :=
      List.filterMap_length_eq_length.2 fun target htarget ↦ by
        obtain ⟨m, -, -, hget⟩ := hsubject target htarget
        rw [hget]
        rfl
    rw [hlength, targetsAt, List.length_map]
    rfl
  have hnodup : (targetTerms g n path).Nodup := by
    rw [targetTerms, List.Nodup, List.pairwise_filterMap]
    refine (h.nodup_targetsAt n.id path).imp_of_mem fun ht hu hne o ho o' ho' heq ↦ hne ?_
    obtain ⟨m, hm, rfl, hget⟩ := hsubject _ ht
    obtain ⟨m', hm', rfl, hget'⟩ := hsubject _ hu
    rw [hget] at ho
    rw [hget', ← heq, ← ho] at ho'
    rw [subjectOf_injective hg.ids hm' hm (Option.some.inj ho')]
  rw [← hterms, exportedCount]
  refine (List.subperm_of_subset hnodup fun o ho ↦ ?_).length_le
  exact (mem_objects_exportStore hg.ids hn).2 (.inr (.inr (List.mem_filterMap.1 ho)))

/-- Apart from types, nothing is exported but values and edges. -/
theorem exportedCount_le_entryCount (hg : g.Consistent) (hn : n ∈ g.nodes)
    (hpath : path ≠ rdfType) : exportedCount g n path ≤ g.entryCount n.id path := by
  have hsubset : (exportStore g g.nodes).2.objects (subjectOf g.nodes n) path ⊆
      (n.entriesOf path).filterMap entryTerm? ++ targetTerms g n path := by
    intro o ho
    rcases (mem_objects_exportStore hg.ids hn).1 ho with ⟨htype, -⟩ | hvalue | hedge
    · exact absurd htype hpath
    · exact List.mem_append_left _ (List.mem_filterMap.2 hvalue)
    · exact List.mem_append_right _ (List.mem_filterMap.2 hedge)
  calc exportedCount g n path
      ≤ ((n.entriesOf path).filterMap entryTerm? ++ targetTerms g n path).length :=
        (List.subperm_of_subset (Store.nodup_objects _ _ _) hsubset).length_le
    _ ≤ (n.entriesOf path).length + (g.targetsAt n.id path).length := by
        rw [List.length_append]
        exact Nat.add_le_add (List.length_filterMap_le _ _) (List.length_filterMap_le _ _)
    _ = g.entryCount n.id path := by
        rw [entryCount_eq, entriesAt_of_node? (node?_of_mem hg.ids hn)]

/-- After a clean report, as many triples are exported as a declaration asks for, if values of the
path are written apart. -/
theorem minCount_le_exportedCount {cp : ClassProperty} {min : Nat} (hg : g.Reachable)
    (hclean : g.validate.isClean = true) (hdistinct : g.WithoutRepetition) (hn : n ∈ g.nodes)
    (hcp : cp ∈ n.chain.declarations) (hmin : cp.minCount = some min)
    (hapart : cp.isObject = false → n.WritesApart cp.path) : min ≤ exportedCount g n cp.path := by
  have hcounted := minCount_le_of_clean hclean hn hcp hmin
  cases hobject : cp.isObject with
  | true =>
    rw [hobject, if_pos rfl] at hcounted
    exact Nat.le_trans hcounted (outEdgeCount_le_exportedCount hg.consistent hdistinct hn)
  | false =>
    rw [hobject, if_neg Bool.false_ne_true] at hcounted
    exact Nat.le_trans hcounted
      (length_entriesOf_le_exportedCount hg hclean hdistinct hn (hapart hobject))

/-- A clean report is right about the exported triples: there are as many as a declaration asks
for, if values of the path are written apart. There are no more than the declaration allows, unless
there are more values and edges than that. -/
theorem exported_within_bounds_of_clean (hg : g.Reachable) (hclean : g.validate.isClean = true)
    (hdistinct : g.WithoutRepetition) (c : TermContext) (config : Settings.Configuration)
    (hn : n ∈ g.nodes) {cp : ClassProperty} (hcp : cp ∈ n.chain.declarations) :
    (∀ min, cp.minCount = some min →
      (cp.isObject = false → n.WritesApart cp.path) →
      min ≤ ((exportGraph g c config).store.objects (subjectOf g.nodes n) cp.path).length) ∧
    (∀ max, cp.maxCount = some max → cp.path ≠ rdfType → g.entryCount n.id cp.path ≤ max →
      ((exportGraph g c config).store.objects (subjectOf g.nodes n) cp.path).length ≤ max) := by
  constructor
  · exact fun min hmin ↦ minCount_le_exportedCount hg hclean hdistinct hn hcp hmin
  · exact fun max _ hpath ↦ Nat.le_trans (exportedCount_le_entryCount hg.consistent hn hpath)

/-- Elements have a remark. -/
def elementRemark : ClassProperty :=
  { parentClass := "https://x/Element"
    path := "https://x/remark"
    name := "remark"
    minCount := some 1
    maxCount := some 2
    constraint := .literal .string }

/-- Notes, which are elements, may have one. -/
def noteRemark : ClassProperty :=
  { elementRemark with
    parentClass := "https://x/Note"
    minCount := none }

def remarkModel : Model :=
  .ofProfiles {} (.ofList [("Core", { classes := .ofList [
    ("Element",
      { iri := "https://x/Element"
        name := "Element"
        profileName := "Core"
        properties := .ofList [("remark", elementRemark)] }),
    ("Note",
      { iri := "https://x/Note"
        name := "Note"
        profileName := "Core"
        subClassOf := some "https://x/Element"
        properties := .ofList [("remark", noteRemark)] })] })])

def remarking : List Operation :=
  [.addNodeWithId "https://x/n" "https://x/Note" {},
    .setEntry "https://x/n" "entry-0" (some (.text "done"))]

def remarkGraph : InstanceGraph := run { model := remarkModel } remarking

theorem exported_within_bounds_remarkGraph :
    remarkGraph.validate.isClean = true ∧ remarkGraph.WithoutRepetition ∧
      ∃ n ∈ remarkGraph.nodes, elementRemark ∈ n.chain.declarations ∧
        1 ≤ ((exportGraph remarkGraph {} {}).store.objects (subjectOf remarkGraph.nodes n)
          elementRemark.path).length ∧
        ((exportGraph remarkGraph {} {}).store.objects (subjectOf remarkGraph.nodes n)
          elementRemark.path).length ≤ 2 := by
  have hreachable : remarkGraph.Reachable :=
    ⟨remarkModel, {}, remarking, ⟨trivial, trivial, trivial⟩, rfl⟩
  have hclean : remarkGraph.validate.isClean = true := by decide +kernel
  have hdistinct : remarkGraph.WithoutRepetition := ⟨by decide +kernel, by decide +kernel⟩
  have hnode : ∃ n ∈ remarkGraph.nodes, elementRemark ∈ n.chain.declarations ∧
      n.WritesApart elementRemark.path ∧
      remarkGraph.entryCount n.id elementRemark.path ≤ 2 := by decide +kernel
  obtain ⟨n, hn, hdeclared, hapart, hroom⟩ := hnode
  obtain ⟨hleast, hmost⟩ :=
    exported_within_bounds_of_clean hreachable hclean hdistinct {} {} hn hdeclared
  exact ⟨hclean, hdistinct, n, hn, hdeclared, hleast 1 rfl fun _ ↦ hapart,
    hmost 2 rfl (by decide) hroom⟩

/-- Over a model whose bounds agree, and as long as it is kept, a clean report means that the
exported triples meet every bound of at least one, if values of the path are written apart. -/
theorem exported_within_bounds_of_run {model : Model} {settings : GraphSettings}
    {ops : List Operation} (hagree : model.BoundsAgree)
    (hnew : AlwaysMintsNew { model, settings } ops) (hkeeps : KeepsModel ops)
    (hclean : (run { model, settings } ops).validate.isClean = true)
    (hdistinct : (run { model, settings } ops).WithoutRepetition)
    (hn : n ∈ (run { model, settings } ops).nodes)
    {cp : ClassProperty} (hcp : cp ∈ n.chain.declarations) (hpath : cp.path ≠ rdfType)
    (hapart : n.WritesApart cp.path) :
    (∀ min, cp.minCount = some min →
      min ≤ exportedCount (run { model, settings } ops) n cp.path) ∧
    (∀ max, 1 ≤ max → cp.maxCount = some max →
      exportedCount (run { model, settings } ops) n cp.path ≤ max) := by
  have hg : (run { model, settings } ops).Reachable := ⟨model, settings, ops, hnew, rfl⟩
  constructor
  · exact fun min hmin ↦ minCount_le_exportedCount hg hclean hdistinct hn hcp hmin fun _ ↦ hapart
  · exact fun max hpositive hmax ↦ Nat.le_trans (exportedCount_le_entryCount hg.consistent hn hpath)
      (entryCount_le_of_boundsAgree hagree hnew hkeeps hn hcp hpositive hmax)

def emptying : List Operation :=
  [.addNodeWithId "https://x/n" "https://x/Note" {}, .deleteEntry "https://x/n" "entry-0",
    .addEntry "https://x/n" noteRemark none]

def emptiedGraph : InstanceGraph := run { model := remarkModel } emptying

/-- Elements need a remark, the report is clean, and no remark is exported. -/
theorem exported_below_bound_emptiedGraph :
    emptiedGraph.Reachable ∧ emptiedGraph.validate.isClean = true ∧
      emptiedGraph.WithoutRepetition ∧
      ∃ n ∈ emptiedGraph.nodes, elementRemark ∈ n.chain.declarations ∧
        elementRemark.minCount = some 1 ∧
        (exportGraph emptiedGraph {} {}).store.objects (subjectOf emptiedGraph.nodes n)
          elementRemark.path = [] := by
  refine ⟨⟨remarkModel, {}, emptying, ⟨trivial, trivial, trivial, trivial⟩, rfl⟩,
    by decide +kernel, ⟨by decide +kernel, by decide +kernel⟩, by decide +kernel⟩

end OntoGraph.Document
