import OntoGraph.Ontology.Shape
import OntoGraph.Proofs.Rdf.Relabel

/-!
# Shapes under other labels

A shape is read statement by statement. Each field is read from the statements with its name alone,
so that a shape with one statement for each field at most does not depend on the order of its
statements, nor on the labels of blank nodes.
-/

namespace OntoGraph.Ontology

open Rdf

variable {store renamed : Store} {f : String → String}

/-- A shape declares something if it has a path, which is that of a property, and says which values
it allows. -/
theorem compileShape?_eq_some_iff {iri : String} {shape : Term} {classes : List String}
    {properties : SortedMap Property} {cp : ClassProperty} :
    compileShape? store iri shape classes properties = some cp ↔
      ∃ path constraint, (shapeFields store shape).path = some path ∧
        properties.contains path = true ∧
        (shapeFields store shape).constraint? classes = some constraint ∧
        cp = { parentClass := iri
               path
               name := lastSegment path
               minCount := (shapeFields store shape).minCount
               maxCount := (shapeFields store shape).maxCount
               constraint } := by
  unfold compileShape?
  dsimp only
  cases (shapeFields store shape).path with
  | none => simp
  | some path =>
    rw [Option.bind_eq_bind, Option.bind_some]
    cases hcontains : properties.contains path with
    | false =>
      constructor
      · rintro ⟨⟩
      · rintro ⟨_, _, ⟨⟩, htrue, -⟩
        rw [hcontains] at htrue
        cases htrue
    | true =>
      cases (shapeFields store shape).constraint? classes with
      | none => simp
      | some constraint =>
        constructor
        · exact fun h ↦ ⟨path, constraint, rfl, hcontains, rfl, (Option.some.inj h).symm⟩
        · rintro ⟨_, _, ⟨⟩, -, ⟨⟩, rfl⟩
          rfl

/-- Of the classes only the IRIs matter, not their order. -/
theorem ShapeFields.constraint?_congr (fields : ShapeFields) {classes others : List String}
    (h : ∀ iri, iri ∈ classes ↔ iri ∈ others) :
    fields.constraint? classes = fields.constraint? others := by
  have hcontains : classes.contains = others.contains := by
    funext iri
    rw [Bool.eq_iff_iff, List.contains_iff_mem, List.contains_iff_mem, h]
  unfold constraint?
  rw [hcontains]

/-! ## Reading a shape -/

def shapeFieldNames : List String :=
  ["path", "minCount", "maxCount", "in", "nodeKind", "datatype", "pattern", "class"]

def fieldStatements (store : Store) (shape : Term) (name : String) : List Triple :=
  (store.triplesOf shape).toList.filter (localName ·.predicate = name)

/-- A statement changes the field with its name, and no other. -/
theorem ShapeFields.read_eq (store : Store) (fields : ShapeFields) (t : Triple) :
    fields.read store t =
      { path := if localName t.predicate = "path" then t.object.iri? else fields.path
        minCount := if localName t.predicate = "minCount" then t.object.lexical?.bind readCount?
          else fields.minCount
        maxCount := if localName t.predicate = "maxCount" then t.object.lexical?.bind readCount?
          else fields.maxCount
        options := if localName t.predicate = "in" then
            (store.list? t.object).map fun items ↦
              (items.filterMap Term.iri?).map ValueOption.ofIri
          else fields.options
        nodeKind := if localName t.predicate = "nodeKind" then
            t.object.iri?.bind fun iri ↦ NodeKind.ofName? (localName iri)
          else fields.nodeKind
        datatype := if localName t.predicate = "datatype" then t.object.iri?.map localName
          else fields.datatype
        patternType := if localName t.predicate = "pattern" then
            (t.object.lexical?.bind patternType?) <|> fields.patternType
          else fields.patternType
        target := if localName t.predicate = "class" then t.object.iri? else fields.target } := by
  unfold ShapeFields.read
  dsimp only
  split <;> simp_all

/-- What is read of each field from one statement with its name. -/
structure FieldReading (α : Type) where
  field : ShapeFields → α
  name : String
  /-- The field after one more statement. -/
  update : Store → Triple → α → α
  read_eq : ∀ store fields t, field (ShapeFields.read store fields t) =
    if localName t.predicate = name then update store t (field fields) else field fields

/-- A field of a shape is read from the statements with its name. -/
theorem FieldReading.foldl_read {α : Type} (reading : FieldReading α) (statements : List Triple)
    (fields : ShapeFields) : reading.field (statements.foldl (ShapeFields.read store) fields) =
      (statements.filter (localName ·.predicate = reading.name)).foldl
        (fun value t ↦ reading.update store t value) (reading.field fields) := by
  induction statements generalizing fields with
  | nil => rfl
  | cons t statements ih =>
    rw [List.foldl_cons, ih, reading.read_eq, List.filter_cons]
    by_cases hname : localName t.predicate = reading.name
    · simp [hname]
    · simp [hname]

namespace FieldReading

def path : FieldReading (Option String) where
  field := ShapeFields.path
  name := "path"
  update _ t _ := t.object.iri?
  read_eq _ _ _ := by rw [ShapeFields.read_eq]

def minCount : FieldReading (Option Nat) where
  field := ShapeFields.minCount
  name := "minCount"
  update _ t _ := t.object.lexical?.bind readCount?
  read_eq _ _ _ := by rw [ShapeFields.read_eq]

def maxCount : FieldReading (Option Nat) where
  field := ShapeFields.maxCount
  name := "maxCount"
  update _ t _ := t.object.lexical?.bind readCount?
  read_eq _ _ _ := by rw [ShapeFields.read_eq]

def options : FieldReading (Option (List ValueOption)) where
  field := ShapeFields.options
  name := "in"
  update store t _ := (store.list? t.object).map fun items ↦
    (items.filterMap Term.iri?).map ValueOption.ofIri
  read_eq _ _ _ := by rw [ShapeFields.read_eq]

def nodeKind : FieldReading (Option NodeKind) where
  field := ShapeFields.nodeKind
  name := "nodeKind"
  update _ t _ := t.object.iri?.bind fun iri ↦ NodeKind.ofName? (localName iri)
  read_eq _ _ _ := by rw [ShapeFields.read_eq]

def datatype : FieldReading (Option String) where
  field := ShapeFields.datatype
  name := "datatype"
  update _ t _ := t.object.iri?.map localName
  read_eq _ _ _ := by rw [ShapeFields.read_eq]

/-- A pattern that marks no datatype leaves the field as it was. -/
def patternType : FieldReading (Option Datatype) where
  field := ShapeFields.patternType
  name := "pattern"
  update _ t value := (t.object.lexical?.bind patternType?) <|> value
  read_eq _ _ _ := by rw [ShapeFields.read_eq]

def target : FieldReading (Option String) where
  field := ShapeFields.target
  name := "class"
  update _ t _ := t.object.iri?
  read_eq _ _ _ := by rw [ShapeFields.read_eq]

end FieldReading

section

variable (hf : Function.Injective f) (h : Store.Renames f store renamed)
include hf h

theorem perm_fieldStatements (shape : Term) (name : String) :
    (fieldStatements renamed (shape.relabel f) name).Perm
      ((fieldStatements store shape name).map (Triple.relabel f)) := by
  have hfilter := (h.perm_triplesOf hf shape).filter (localName ·.predicate = name)
  rw [List.filter_map] at hfilter
  exact hfilter

/-- A field with one statement at most, whose meaning does not depend on labels. -/
theorem FieldReading.field_shapeFields {α : Type} (reading : FieldReading α) {shape : Term}
    (hupdate : ∀ t value, reading.update renamed (t.relabel f) value = reading.update store t value)
    (hone : (fieldStatements store shape reading.name).length ≤ 1) :
    reading.field (shapeFields renamed (shape.relabel f)) =
      reading.field (shapeFields store shape) := by
  have hstatements := Store.eq_of_perm_of_length_le_one
    (perm_fieldStatements hf h shape reading.name) (by rwa [List.length_map])
  unfold fieldStatements at hstatements
  unfold shapeFields
  rw [reading.foldl_read, reading.foldl_read, hstatements, List.foldl_map]
  simp only [hupdate]

/-- A shape with one statement for each field at most is read alike under other labels. -/
theorem shapeFields_eq (hfirst : ∀ subject, (store.objects subject rdfFirst).length ≤ 1)
    (hrest : ∀ subject, (store.objects subject rdfRest).length ≤ 1) {shape : Term}
    (hone : ∀ name ∈ shapeFieldNames, (fieldStatements store shape name).length ≤ 1) :
    shapeFields renamed (shape.relabel f) = shapeFields store shape := by
  have hiri := fun t : Triple ↦ Term.iri?_relabel (f := f) t.object
  have hlexical := fun t : Triple ↦ Term.lexical?_relabel (f := f) t.object
  have hitems : ∀ t : Triple, (renamed.list? (t.relabel f).object).map (fun items ↦
        (items.filterMap Term.iri?).map ValueOption.ofIri) =
      (store.list? t.object).map fun items ↦ (items.filterMap Term.iri?).map ValueOption.ofIri := by
    intro t
    rw [Triple.relabel, h.list?_eq hf hfirst hrest, Option.map_map]
    refine congrFun (congrArg Option.map (funext fun items ↦ ?_)) _
    rw [Function.comp_apply, List.filterMap_map]
    exact congrArg _ (List.filterMap_congr fun item _ ↦ Term.iri?_relabel item)
  have hfields : ∀ {α : Type} (reading : FieldReading α), reading.name ∈ shapeFieldNames →
      (∀ t value, reading.update renamed (t.relabel f) value = reading.update store t value) →
        reading.field (shapeFields renamed (shape.relabel f)) =
          reading.field (shapeFields store shape) :=
    fun reading hname hupdate ↦ reading.field_shapeFields hf h hupdate (hone _ hname)
  have hpath := hfields .path (by simp [shapeFieldNames, FieldReading.path]) fun t _ ↦ hiri t
  have hminCount := hfields .minCount (by simp [shapeFieldNames, FieldReading.minCount])
    fun t _ ↦ congrArg (Option.bind · readCount?) (hlexical t)
  have hmaxCount := hfields .maxCount (by simp [shapeFieldNames, FieldReading.maxCount])
    fun t _ ↦ congrArg (Option.bind · readCount?) (hlexical t)
  have hoptions := hfields .options (by simp [shapeFieldNames, FieldReading.options])
    fun t _ ↦ hitems t
  have hnodeKind := hfields .nodeKind (by simp [shapeFieldNames, FieldReading.nodeKind])
    fun t _ ↦ congrArg (Option.bind · fun iri ↦ NodeKind.ofName? (localName iri)) (hiri t)
  have hdatatype := hfields .datatype (by simp [shapeFieldNames, FieldReading.datatype])
    fun t _ ↦ congrArg (Option.map localName) (hiri t)
  have hpatternType := hfields .patternType (by simp [shapeFieldNames, FieldReading.patternType])
    fun t value ↦ congrArg (fun lexical ↦ (Option.bind lexical patternType?) <|> value) (hlexical t)
  have htarget := hfields .target (by simp [shapeFieldNames, FieldReading.target]) fun t _ ↦ hiri t
  dsimp only [FieldReading.path, FieldReading.minCount, FieldReading.maxCount,
    FieldReading.options, FieldReading.nodeKind, FieldReading.datatype, FieldReading.patternType,
    FieldReading.target] at *
  generalize shapeFields renamed (shape.relabel f) = fields at *
  generalize shapeFields store shape = fields' at *
  cases fields
  cases fields'
  rw [ShapeFields.mk.injEq]
  exact ⟨hpath, hminCount, hmaxCount, hnodeKind, hdatatype, hpatternType, htarget, hoptions⟩

end

end OntoGraph.Ontology
