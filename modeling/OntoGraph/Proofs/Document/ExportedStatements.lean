import OntoGraph.Proofs.Document.ExportedTriples
import OntoGraph.Proofs.Number.Digits
import OntoGraph.Proofs.Ontology.Chain
import OntoGraph.Proofs.Rdf.NTriples

/-!
# The statements of an exported graph

Where the IRIs of the model and the identifiers of the nodes are absolute IRIs, the subjects and
predicates of an exported graph can be written as they are, and so can its types, its literals
whatever their lexical forms, and the subjects that edges lead to. What is left are the values of
enumerations, which are exported as IRIs whatever their text. The document of the exported store
says the statements of the store if and only if each of these values can be written.
-/

namespace OntoGraph.Document

open Ontology OntoGraph.Graph Rdf NTriples InstanceGraph

/-! ## Absolute IRIs -/

/-- Is the text an absolute IRI by one of the rules for authorities? -/
def IsAbsoluteIri (s : String) : Prop := ∃ rule, Iri.isAbsolute rule s = true

/-- No character of an IRI is one that N-Triples keeps out of IRIs. -/
theorem isIriChar_of_isIriCharacter {c : Char} (h : Iri.isIriCharacter c = true) :
    isIriChar c = true := by
  have hlow : ∀ n < 0x21, Iri.isIriCharacter (Char.ofNat n) = false := by decide
  have hmarks : ("<>\"\x7b\x7d|^`\\".toList.any Iri.isIriCharacter) = false := by decide
  simp only [isIriChar, Bool.and_eq_true, decide_eq_true_eq, Bool.not_eq_true']
  constructor
  · by_contra hle
    have hno := hlow c.toNat (by omega)
    rw [Char.ofNat_toNat, h] at hno
    cases hno
  · cases hmark : "<>\"\x7b\x7d|^`\\".toList.contains c with
    | false => rfl
    | true =>
      exact absurd h (List.any_eq_false.1 hmarks c (List.contains_iff_mem.1 hmark))

theorem IsAbsoluteIri.isIriText {s : String} (h : IsAbsoluteIri s) : isIriText s = true := by
  obtain ⟨rule, h⟩ := h
  exact isIriText_iff.2 fun c hc ↦
    isIriChar_of_isIriCharacter (Iri.allIriCharacters_of_isAbsolute h c hc)

/-- Are the IRIs of the classes of the model, the paths of the properties that they declare and the
identifiers of the nodes absolute? -/
structure HasAbsoluteIris (g : InstanceGraph) : Prop where
  classes : ∀ iri c, g.model.class? iri = some c → IsAbsoluteIri c.iri
  paths : ∀ iri c, g.model.class? iri = some c → ∀ cp ∈ c.properties.values, IsAbsoluteIri cp.path
  nodes : ∀ n ∈ g.nodes, IsAbsoluteIri n.id

/-- Are all these IRIs absolute, by one rule for authorities? -/
def namesAbsolutely (rule : Iri.AuthorityRule) (g : InstanceGraph) : Bool :=
  (g.model.index.values.all fun entity ↦
    match entity with
    | .ofClass c => Iri.isAbsolute rule c.iri &&
        c.properties.values.all fun cp ↦ Iri.isAbsolute rule cp.path
    | _ => true) &&
  g.nodes.all fun n ↦ Iri.isAbsolute rule n.id

theorem hasAbsoluteIris_of_namesAbsolutely (rule : Iri.AuthorityRule) {g : InstanceGraph}
    (h : namesAbsolutely rule g = true) : HasAbsoluteIris g := by
  obtain ⟨hclasses, hnodes⟩ := Bool.and_eq_true_iff.1 h
  have hclass : ∀ iri c, g.model.class? iri = some c → Iri.isAbsolute rule c.iri = true ∧
      ∀ cp ∈ c.properties.values, Iri.isAbsolute rule cp.path = true := by
    intro iri c hc
    have hentity : g.model.index.get? iri = some (.ofClass c) := by
      unfold Model.class? Model.entity? at hc
      split at hc <;> cases hc
      assumption
    have hcheck := List.all_eq_true.1 hclasses _ (SortedMap.mem_values.2 ⟨iri, hentity⟩)
    obtain ⟨hiri, hpaths⟩ := Bool.and_eq_true_iff.1 hcheck
    exact ⟨hiri, List.all_eq_true.1 hpaths⟩
  exact
    { classes := fun iri c hc ↦ ⟨rule, (hclass iri c hc).1⟩
      paths := fun iri c hc cp hcp ↦ ⟨rule, (hclass iri c hc).2 cp hcp⟩
      nodes := fun n hn ↦ ⟨rule, List.all_eq_true.1 hnodes n hn⟩ }

/-- Can every value of an enumeration be written as an IRI? -/
def EnumeratedWritable (g : InstanceGraph) : Prop :=
  ∀ n ∈ g.nodes, ∀ e ∈ n.entries, ∀ options v, e.property.constraint = .enumerated options →
    e.value = some v → isIriText v.lexical = true

/-! ## Terms -/

/-- The label of a numbered blank node can be written. -/
@[simp] theorem isWritable_numberedBlank (k : Nat) : (Store.numberedBlank k).isWritable = true := by
  have hdigits : ∀ c ∈ (Nat.toDigits 10 k), isLabelChar c = true := by
    intro c hc
    have hdigit := Number.isAsciiDigit_of_mem_toDigits hc
    simp [isLabelChar, Text.isNameChar, hdigit]
  have hlast : (Nat.toDigits 10 k).getLast? ≠ some '.' := by
    intro hpoint
    exact absurd (hdigits '.' (List.mem_of_getLast? hpoint)) (by decide)
  have hall : (Nat.toDigits 10 k).all (fun c ↦ isLabelChar c || c == '.') = true :=
    List.all_eq_true.2 fun c hc ↦ by rw [hdigits c hc, Bool.true_or]
  have hstart : isLabelStart 'b' = true := by decide
  change isLabel ("b" ++ toString k) = true
  simp [isLabel, hall, hstart, hlast]

@[simp] theorem isIriText_xsd (datatype : Datatype) : isIriText datatype.xsd = true := by
  cases datatype <;> decide

/-! ## Statements -/

section

variable {g : InstanceGraph} {n : Node} {t : Triple}

/-- The subject of a node can be written, and it is no literal. -/
theorem isWritable_subjectOf (hg : g.Consistent) (habs : HasAbsoluteIris g) (hn : n ∈ g.nodes) :
    (subjectOf g.nodes n).isLiteral = false ∧ (subjectOf g.nodes n).isWritable = true := by
  cases hkind : n.isElement with
  | true =>
    rw [subjectOf_element hg.ids hn hkind]
    exact ⟨rfl, (habs.nodes n hn).isIriText⟩
  | false =>
    obtain ⟨k, -, hsubject⟩ := (assigned_assignSubjects hg.ids).blank n hn hkind
    rw [subjectOf, hsubject]
    exact ⟨rfl, isWritable_numberedBlank k⟩

/-- The path of a declaration that a node has can be written. -/
theorem isIriText_path (hg : g.Consistent) (habs : HasAbsoluteIris g) (hn : n ∈ g.nodes)
    {cp : ClassProperty} (hcp : cp ∈ n.chain.declarations) : isIriText cp.path = true := by
  obtain ⟨iri, c, hc, hcp⟩ := Model.exists_class?_of_mem_declarations (hg.typed n hn).chain hcp
  exact (habs.paths iri c hc cp hcp).isIriText

def SaysEnumerated (g : InstanceGraph) (t : Triple) : Prop :=
  ∃ n ∈ g.nodes, ∃ e ∈ n.entries, ∃ options v, e.property.constraint = .enumerated options ∧
    e.value = some v ∧ t.object = .iri v.lexical

/-- The term for an entry can be written, or it is the value of an enumeration. -/
theorem isWritable_entryTerm {e : Entry} {o : Term} (h : entryTerm? e = some o) :
    o.isWritable = true ∨ ∃ options v, e.property.constraint = .enumerated options ∧
      e.value = some v ∧ o = .iri v.lexical := by
  obtain ⟨v, hv, h⟩ := Option.bind_eq_some_iff.1 h
  cases hconstraint : e.property.constraint with
  | literal datatype =>
    rw [hconstraint] at h
    cases h
    exact .inl (isIriText_xsd datatype)
  | enumerated options =>
    rw [hconstraint] at h
    cases h
    exact .inr ⟨options, v, rfl, hv, rfl⟩
  | object target =>
    rw [hconstraint] at h
    cases h

/-- Every statement of a node starts as the grammar asks for, and its object can be written or is
the value of an enumeration. -/
theorem writable_of_mem_triplesFor (hg : g.Consistent) (habs : HasAbsoluteIris g)
    (hn : n ∈ g.nodes) (ht : t ∈ triplesFor g g.nodes n) :
    t.startIsWritable = true ∧ (t.object.isWritable = true ∨ SaysEnumerated g t) := by
  have hsubject := subject_of_mem_triplesFor ht
  obtain ⟨hliteral, hwritable⟩ := isWritable_subjectOf hg habs hn
  obtain ⟨subject, predicate, object⟩ := t
  dsimp only at hsubject
  subst hsubject
  have hstart : isIriText predicate = true →
      (Triple.mk (subjectOf g.nodes n) predicate object).startIsWritable = true := by
    intro hpredicate
    simp [Triple.startIsWritable, hliteral, hwritable, hpredicate]
  rcases mem_triplesFor.1 ht with ⟨rfl, rfl⟩ | ⟨e, he, hterm⟩ | ⟨target, htarget, hterm⟩
  · have hclass := habs.classes n.cls.iri n.cls (hg.typed n hn).cls
    exact ⟨hstart (by decide), .inl hclass.isIriText⟩
  · obtain ⟨he', hpath⟩ := List.mem_filter.1 he
    obtain rfl : e.path = predicate := of_decide_eq_true hpath
    refine ⟨hstart (isIriText_path hg habs hn (hg.entries n hn e he').2),
      (isWritable_entryTerm hterm).imp_right ?_⟩
    rintro ⟨options, v, hconstraint, hv, rfl⟩
    exact ⟨n, hn, e, he', options, v, hconstraint, hv, rfl⟩
  · obtain ⟨e, he, rfl⟩ := List.mem_map.1 htarget
    obtain ⟨he', hpath⟩ := List.mem_filter.1 he
    obtain rfl : e.path = predicate := of_decide_eq_true hpath
    obtain ⟨hdeclared, m, hm, -, hid, -⟩ := hg.outEdge hn he'
    rw [← hid, get?_assignSubjects hg.ids hm] at hterm
    cases hterm
    exact ⟨hstart (isIriText_path hg habs hn hdeclared), .inl (isWritable_subjectOf hg habs hm).2⟩

/-- Every value of an enumeration is exported in a statement. -/
theorem exists_statement_of_enumerated (hg : g.Consistent) (hn : n ∈ g.nodes) {e : Entry}
    (he : e ∈ n.entries) {options : List ValueOption} {v : Value}
    (hconstraint : e.property.constraint = .enumerated options) (hv : e.value = some v) :
    ∃ t ∈ (exportStore g g.nodes).2.triples.toList, t.object = .iri v.lexical := by
  have hterm : entryTerm? e = some (.iri v.lexical) := by
    rw [entryTerm?, hv, Option.bind_some, hconstraint]
  refine ⟨⟨subjectOf g.nodes n, e.path, .iri v.lexical⟩, ?_, rfl⟩
  rw [mem_exportStore hg.ids]
  refine ⟨n, hn, mem_triplesFor.2 (.inr (.inl ⟨e, ?_, hterm⟩))⟩
  exact List.mem_filter.2 ⟨he, decide_eq_true rfl⟩

end

/-! ## Documents -/

/-- All statements of the exported store can be written if and only if the values of enumerations
can. -/
theorem isWritable_exportStore_iff {g : InstanceGraph} (hg : g.Consistent)
    (habs : HasAbsoluteIris g) :
    (∀ t ∈ (exportStore g g.nodes).2.triples.toList, t.isWritable = true) ↔
      EnumeratedWritable g := by
  constructor
  · intro h n hn e he options v hconstraint hv
    obtain ⟨t, ht, hobject⟩ := exists_statement_of_enumerated hg hn he hconstraint hv
    have hterm := (Bool.and_eq_true_iff.1 (h t ht)).2
    rw [hobject] at hterm
    exact hterm
  · intro h t ht
    obtain ⟨n, hn, ht⟩ := (mem_exportStore hg.ids).1 ht
    obtain ⟨hstart, hobject⟩ := writable_of_mem_triplesFor hg habs hn ht
    refine Bool.and_eq_true_iff.2 ⟨hstart, ?_⟩
    rcases hobject with hobject | ⟨m, hm, e, he, options, v, hconstraint, hv, hobject⟩
    · exact hobject
    · rw [hobject]
      exact h m hm e he options v hconstraint hv

/-- In a reachable graph whose model and nodes have absolute IRIs, the IRIs of the exported store
are free of the characters that may not stand in IRIs, and the document of the store says the
statements of the store and no others, both if and only if every value of an enumeration can be
written as an IRI. -/
theorem exportGraph_statements_iff {g : InstanceGraph} (hg : g.Reachable)
    (habs : HasAbsoluteIris g) (c : TermContext) (config : Settings.Configuration) :
    ((∀ t ∈ (exportGraph g c config).store.triples.toList, ∀ iri ∈ t.iris,
      isIriText iri = true) ↔ EnumeratedWritable g) ∧
    (read? (exportGraph g c config).store.toNTriples =
        some (exportGraph g c config).store.triples.toList ↔ EnumeratedWritable g) := by
  have hstore : (exportGraph g c config).store = (exportStore g g.nodes).2 := rfl
  have hobject : ∀ t ∈ (exportStore g g.nodes).2.triples.toList, t.startIsWritable = true ∧
      (t.object.isWritable = true ∨ t.object.iri?.isSome = true) := by
    intro t ht
    obtain ⟨n, hn, ht⟩ := (mem_exportStore hg.consistent.ids).1 ht
    obtain ⟨hstart, hobject⟩ := writable_of_mem_triplesFor hg.consistent habs hn ht
    refine ⟨hstart, hobject.imp_right ?_⟩
    rintro ⟨m, hm, e, he, options, v, hconstraint, hv, hobject⟩
    rw [hobject]
    rfl
  rw [hstore, ← isWritable_exportStore_iff hg.consistent habs]
  constructor
  · apply forall₂_congr
    intro t ht
    exact Triple.isWritable_iff_iris (hobject t ht).1 (hobject t ht).2
  · exact read?_toNTriples_iff (fun t ht ↦ (hobject t ht).1) fun t ht ↦ (hobject t ht).2

/-! ## Shelves -/

def shelfLabel : ClassProperty :=
  { parentClass := "https://x/Core/Element"
    path := "https://x/Core/label"
    name := "label"
    constraint := .literal .string }

def shelfMaterial : ClassProperty :=
  { parentClass := "https://x/Core/Shelf"
    path := "https://x/Core/material"
    name := "material"
    constraint := .enumerated [.ofIri "https://x/Core/Material/oak"] }

def shelfModel : Model :=
  .ofProfiles {} (.ofList [("Core", { classes := .ofList [
    ("Element",
      { iri := "https://x/Core/Element"
        name := "Element"
        profileName := "Core"
        properties := .ofList [("label", shelfLabel)] }),
    ("Shelf",
      { iri := "https://x/Core/Shelf"
        name := "Shelf"
        profileName := "Core"
        subClassOf := some "https://x/Core/Element"
        properties := .ofList [("material", shelfMaterial)] })] })])

def shelfOperations (material : String) : List Operation :=
  [.addNodeWithId "https://x/shelf" "https://x/Core/Shelf" {},
    .addEntry "https://x/shelf" shelfMaterial (some (.text material)),
    .addEntry "https://x/shelf" shelfLabel (some (.text "a \"wide\"\nshelf"))]

def shelfGraph (material : String) : InstanceGraph :=
  run { model := shelfModel } (shelfOperations material)

theorem reachable_shelfGraph (material : String) : (shelfGraph material).Reachable :=
  ⟨shelfModel, {}, shelfOperations material, ⟨trivial, trivial, trivial, trivial⟩, rfl⟩

def oak : String := "https://x/Core/Material/oak"

/-- A shelf of oak is exported as a document that says what the store holds. -/
theorem exportGraph_statements_oakShelf :
    (shelfGraph oak).Reachable ∧ HasAbsoluteIris (shelfGraph oak) ∧
      EnumeratedWritable (shelfGraph oak) ∧
      (exportGraph (shelfGraph oak) {} {}).store.size = 3 ∧
      read? (exportGraph (shelfGraph oak) {} {}).store.toNTriples =
        some (exportGraph (shelfGraph oak) {} {}).store.triples.toList := by
  have hreachable := reachable_shelfGraph oak
  have habs : HasAbsoluteIris (shelfGraph oak) :=
    hasAbsoluteIris_of_namesAbsolutely .standard (by decide +kernel)
  obtain ⟨hiris, hread⟩ := exportGraph_statements_iff hreachable habs {} {}
  have hwritable : EnumeratedWritable (shelfGraph oak) := hiris.1 (by decide +kernel)
  exact ⟨hreachable, habs, hwritable, by decide +kernel, hread.2 hwritable⟩

/-- A material that breaks its statement. -/
def brokenMaterial : String := "https://x/oak> <https://x/pine"

/-- A material that ends its statement and makes up another one. -/
def forgedMaterial : String := "https://x/oak> .\n<https://x/a> <https://x/b> <https://x/c"

/-- The statement that is made up. -/
def forgedStatement : Triple := ⟨.iri "https://x/a", "https://x/b", .iri "https://x/c"⟩

/-- A material is exported as it is. The IRI of one such shelf cannot be written and its document
has no reading; the document of another shelf says what its store does not hold. -/
theorem not_exportGraph_statements_forgedShelf :
    ((shelfGraph brokenMaterial).Reachable ∧ HasAbsoluteIris (shelfGraph brokenMaterial) ∧
      (∃ t ∈ (exportGraph (shelfGraph brokenMaterial) {} {}).store.triples.toList,
        ∃ iri ∈ t.iris, isIriText iri = false) ∧
      read? (exportGraph (shelfGraph brokenMaterial) {} {}).store.toNTriples = none) ∧
    (shelfGraph forgedMaterial).Reachable ∧ HasAbsoluteIris (shelfGraph forgedMaterial) ∧
      ∃ said, read? (exportGraph (shelfGraph forgedMaterial) {} {}).store.toNTriples = some said ∧
        forgedStatement ∈ said ∧
        forgedStatement ∉ (exportGraph (shelfGraph forgedMaterial) {} {}).store.triples.toList := by
  have hbroken : HasAbsoluteIris (shelfGraph brokenMaterial) :=
    hasAbsoluteIris_of_namesAbsolutely .standard (by decide +kernel)
  have hforged : HasAbsoluteIris (shelfGraph forgedMaterial) :=
    hasAbsoluteIris_of_namesAbsolutely .standard (by decide +kernel)
  have hsaid : ∃ said ∈ read? (exportGraph (shelfGraph forgedMaterial) {} {}).store.toNTriples,
      forgedStatement ∈ said := by
    decide +kernel
  obtain ⟨said, hread, hmem⟩ := hsaid
  exact ⟨⟨reachable_shelfGraph _, hbroken, by decide +kernel, by decide +kernel⟩,
    reachable_shelfGraph _, hforged, said, hread, hmem, by decide +kernel⟩

end OntoGraph.Document
