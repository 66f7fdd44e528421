import OntoGraph.Proofs.Ontology.Compiled
import OntoGraph.Proofs.Ontology.Shapes

/-!
# References within a model

A class refers to its parent, and its declarations refer to properties and to classes. The
compiler keeps only references to IRIs that the graph types as classes and properties. The profiles
keep one entity of a kind for each name, however, and the index one entity for each IRI, so that
an entity that is referred to may be lost. All references lead to what they name exactly if no
class is lost and no property that a class declares.
-/

namespace OntoGraph.Ontology

open Rdf

variable {store : Store} {m : Model}

/-- Do all references within a model lead to what they name? -/
structure Model.ReferencesResolve (m : Model) : Prop where
  classes : ∀ c ∈ m.classes, m.class? c.iri = some c
  parents : ∀ c ∈ m.classes, ∀ parent, c.subClassOf = some parent →
    (m.class? parent).isSome = true
  paths : ∀ c ∈ m.classes, ∀ cp ∈ c.properties.values,
    ∃ p, m.property? cp.path = some p ∧ p.iri = cp.path
  targets : ∀ c ∈ m.classes, ∀ cp ∈ c.properties.values, ∀ target, cp.target? = some target →
    (m.class? target).isSome = true

/-- Is no class lost: do no two classes share their profile and name, and is no class also a
property or an individual that is kept? -/
structure ClassesApart (store : Store) : Prop where
  places : ∀ a ∈ classIris store, ∀ b ∈ classIris store, placeOf a = placeOf b → a = b
  properties : ∀ iri ∈ classIris store, ¬ Kept (compileProperties store).keys iri
  individuals : ∀ iri ∈ classIris store, ¬ Kept ((compiledIndividuals store).map (·.iri)) iri

/-- Is no property lost that a class declares? -/
def PathsApart (store : Store) : Prop :=
  ∀ iri ∈ classIris store, ∀ cp ∈ (classOf store iri).properties.values,
    FindsProperty store cp.path

theorem forall_findsClass_iff :
    (∀ iri ∈ classIris store, FindsClass store iri) ↔ ClassesApart store := by
  have hkept := forall_kept_iff (compiledClasses store).keys
  simp only [mem_keys_compiledClasses] at hkept
  constructor
  · intro h
    exact ⟨hkept.1 fun iri hiri ↦ (h iri hiri).kept, fun iri hiri ↦ (h iri hiri).property,
      fun iri hiri ↦ (h iri hiri).individual⟩
  · intro h iri hiri
    exact ⟨hkept.2 h.places iri hiri, h.properties iri hiri, h.individuals iri hiri⟩

/-! ## What the compiler refers to -/

/-- The parent of a class is typed as a class. -/
theorem mem_classIris_of_subClassOf {iri parent : String}
    (h : (classOf store iri).subClassOf = some parent) : parent ∈ classIris store := by
  obtain ⟨-, hcontains⟩ := Option.filter_eq_some_iff.1 h
  simpa using hcontains

/-- Objects have to be of a class of the graph. -/
theorem mem_of_constraint? {fields : ShapeFields} {classes : List String} {target : String}
    (h : fields.constraint? classes = some (.object target)) : target ∈ classes := by
  revert h
  fun_cases ShapeFields.constraint? fields classes with
  | case1 =>
    intro h
    obtain ⟨_, _, ⟨⟩⟩ := Option.map_eq_some_iff.1 h
  | case2 => rintro ⟨⟩
  | case3 kind held _ _ _ _ hcontains =>
    rintro ⟨⟩
    simpa using hcontains
  | case4 => rintro ⟨⟩
  | case5 => rintro ⟨⟩

/-- The declarations of a class come from its shapes. -/
theorem exists_shape_of_mem_properties {iri : String} {cp : ClassProperty}
    (h : cp ∈ (classOf store iri).properties.values) :
    ∃ shape,
      compileShape? store iri shape (classIris store) (compileProperties store) = some cp := by
  obtain ⟨name, hname⟩ := SortedMap.mem_values.1 h
  have hpair := SortedMap.mem_ofList (SortedMap.get?_eq_some_iff.1 hname)
  obtain ⟨declared, hdeclared, heq⟩ := List.mem_map.1 hpair
  obtain ⟨shape, -, hshape⟩ := List.mem_filterMap.1 hdeclared
  cases heq
  exact ⟨shape, hshape⟩

/-- The target of a declaration is typed as a class. -/
theorem mem_classIris_of_target? {iri target : String} {cp : ClassProperty}
    (h : cp ∈ (classOf store iri).properties.values) (htarget : cp.target? = some target) :
    target ∈ classIris store := by
  obtain ⟨shape, hshape⟩ := exists_shape_of_mem_properties h
  obtain ⟨path, constraint, -, -, hconstraint, rfl⟩ := compileShape?_eq_some_iff.1 hshape
  cases constraint with
  | object found =>
    cases htarget
    exact mem_of_constraint? hconstraint
  | literal => cases htarget
  | enumerated => cases htarget

/-! ## When references resolve -/

theorem isSome_class?_iff {iri : String} :
    ((compiledModel store).class? iri).isSome = true ↔ FindsClass store iri := by
  simp [Option.isSome_iff_exists, class?_compiledModel]

theorem iri_of_property? {iri : String} {p : Property} (h : m.property? iri = some p) :
    p.iri = iri := by
  revert h
  fun_cases Model.property? m iri with
  | case1 held hentity =>
    rintro ⟨⟩
    exact m.keyed _ (SortedMap.get?_eq_some_iff.1 hentity)
  | case2 => rintro ⟨⟩

/-- Where no class and no declared property is lost, all references resolve. -/
theorem referencesResolve_of_apart (hclasses : ClassesApart store) (hpaths : PathsApart store) :
    (compiledModel store).ReferencesResolve := by
  have hfinds := forall_findsClass_iff.2 hclasses
  have hof : ∀ c ∈ (compiledModel store).classes,
      ∃ iri ∈ classIris store, c = classOf store iri := by
    intro c hc
    obtain ⟨iri, hkept, rfl⟩ := mem_classes_compiledModel.1 hc
    exact ⟨iri, mem_keys_compiledClasses.1 hkept.mem, rfl⟩
  constructor
  case classes =>
    intro c hc
    obtain ⟨iri, hiri, rfl⟩ := hof c hc
    exact class?_compiledModel.2 ⟨hfinds iri hiri, rfl⟩
  case parents =>
    intro c hc parent hparent
    obtain ⟨iri, hiri, rfl⟩ := hof c hc
    exact isSome_class?_iff.2 (hfinds parent (mem_classIris_of_subClassOf hparent))
  case paths =>
    intro c hc cp hcp
    obtain ⟨iri, hiri, rfl⟩ := hof c hc
    obtain ⟨p, hp⟩ := Option.isSome_iff_exists.1
      (isSome_property?_compiledModel.2 (hpaths iri hiri cp hcp))
    exact ⟨p, hp, iri_of_property? hp⟩
  case targets =>
    intro c hc cp hcp target htarget
    obtain ⟨iri, hiri, rfl⟩ := hof c hc
    exact isSome_class?_iff.2 (hfinds target (mem_classIris_of_target? hcp htarget))

/-- In a compiled model all references resolve, and all classes of the graph are found, exactly if
no class is lost and no property that a class declares. -/
theorem referencesResolve_compile_iff (h : compile store = .ok m) :
    (m.ReferencesResolve ∧ ∀ iri ∈ classIris store, (m.class? iri).isSome = true) ↔
      ClassesApart store ∧ PathsApart store := by
  obtain ⟨-, rfl⟩ := compile_eq_ok_iff.1 h
  constructor
  · rintro ⟨hresolve, hfound⟩
    have hfinds : ∀ iri ∈ classIris store, FindsClass store iri :=
      fun iri hiri ↦ isSome_class?_iff.1 (hfound iri hiri)
    refine ⟨forall_findsClass_iff.1 hfinds, fun iri hiri cp hcp ↦ ?_⟩
    have hmem : classOf store iri ∈ (compiledModel store).classes :=
      mem_classes_compiledModel.2 ⟨iri, (hfinds iri hiri).kept, rfl⟩
    obtain ⟨p, hp, -⟩ := hresolve.paths _ hmem cp hcp
    exact isSome_property?_compiledModel.1 (Option.isSome_iff_exists.2 ⟨p, hp⟩)
  · rintro ⟨hclasses, hpaths⟩
    refine ⟨referencesResolve_of_apart hclasses hpaths, fun iri hiri ↦ ?_⟩
    exact isSome_class?_iff.2 (forall_findsClass_iff.2 hclasses iri hiri)

instance (store : Store) (iri : String) : Decidable (FindsProperty store iri) :=
  decidable_of_iff (Kept (compileProperties store).keys iri ∧ ¬ Kept (vocabularyIris store) iri ∧
      ¬ Kept ((compiledIndividuals store).map (·.iri)) iri)
    ⟨fun h ↦ ⟨h.1, h.2.1, h.2.2⟩, fun h ↦ ⟨h.kept, h.vocabulary, h.individual⟩⟩

instance (store : Store) : Decidable (ClassesApart store) :=
  decidable_of_iff ((∀ a ∈ classIris store, ∀ b ∈ classIris store, placeOf a = placeOf b → a = b) ∧
      (∀ iri ∈ classIris store, ¬ Kept (compileProperties store).keys iri) ∧
      ∀ iri ∈ classIris store, ¬ Kept ((compiledIndividuals store).map (·.iri)) iri)
    ⟨fun h ↦ ⟨h.1, h.2.1, h.2.2⟩, fun h ↦ ⟨h.places, h.properties, h.individuals⟩⟩

instance (store : Store) : Decidable (PathsApart store) :=
  inferInstanceAs (Decidable (∀ iri ∈ classIris store,
    ∀ cp ∈ (classOf store iri).properties.values, FindsProperty store cp.path))

/-- Wheels are parts, with a number of spokes and a part that they are mounted on. -/
def wheels : Store :=
  .ofList [⟨.iri "https://x/Core/spokes", rdfType, .iri owlDatatypeProperty⟩,
    ⟨.iri "https://x/Core/mountedOn", rdfType, .iri owlObjectProperty⟩,
    ⟨.iri "https://x/Core/Part", rdfType, .iri owlClass⟩,
    ⟨.iri "https://x/Core/Wheel", rdfType, .iri owlClass⟩,
    ⟨.iri "https://x/Core/Wheel", rdfsSubClassOf, .iri "https://x/Core/Part"⟩,
    ⟨.iri "https://x/Core/Wheel", shProperty, .blank "spokes"⟩,
    ⟨.blank "spokes", "http://www.w3.org/ns/shacl#path", .iri "https://x/Core/spokes"⟩,
    ⟨.blank "spokes", "http://www.w3.org/ns/shacl#datatype", .iri xsdString⟩,
    ⟨.iri "https://x/Core/Wheel", shProperty, .blank "mount"⟩,
    ⟨.blank "mount", "http://www.w3.org/ns/shacl#path", .iri "https://x/Core/mountedOn"⟩,
    ⟨.blank "mount", "http://www.w3.org/ns/shacl#class", .iri "https://x/Core/Part"⟩]

theorem referencesResolve_compile_wheels : ∃ m, compile wheels = .ok m ∧
    (classOf wheels "https://x/Core/Wheel").properties.size = 2 ∧ m.ReferencesResolve ∧
      ∀ iri ∈ classIris wheels, (m.class? iri).isSome = true := by
  have hchecks : cycle? (compiledClasses wheels) = none ∧
      (classOf wheels "https://x/Core/Wheel").properties.size = 2 ∧
        ClassesApart wheels ∧ PathsApart wheels := by
    decide +kernel
  obtain ⟨hcycle, hsize, hclasses, hpaths⟩ := hchecks
  have hcompile : compile wheels = .ok (compiledModel wheels) := compile_eq_ok_iff.2 ⟨hcycle, rfl⟩
  exact ⟨_, hcompile, hsize, (referencesResolve_compile_iff hcompile).2 ⟨hclasses, hpaths⟩⟩

/-- Two namespaces have a class of parts for the same profile. Wheels are parts of the first. -/
def namesakes : Store :=
  .ofList [⟨.iri "https://x/Core/Part", rdfType, .iri owlClass⟩,
    ⟨.iri "https://y/Core/Part", rdfType, .iri owlClass⟩,
    ⟨.iri "https://x/Core/Wheel", rdfType, .iri owlClass⟩,
    ⟨.iri "https://x/Core/Wheel", rdfsSubClassOf, .iri "https://x/Core/Part"⟩]

/-- The class of parts in the second namespace takes the place of the first, whose wheels have lost
their parent. -/
theorem not_referencesResolve_namesakes : ∃ m, compile namesakes = .ok m ∧
    "https://x/Core/Part" ∈ classIris namesakes ∧ m.class? "https://x/Core/Part" = none ∧
      ¬ m.ReferencesResolve := by
  have hchecks : cycle? (compiledClasses namesakes) = none ∧
      "https://x/Core/Part" ∈ classIris namesakes ∧
      (compiledModel namesakes).class? "https://x/Core/Part" = none ∧
      Kept (compiledClasses namesakes).keys "https://x/Core/Wheel" ∧
      (classOf namesakes "https://x/Core/Wheel").subClassOf = some "https://x/Core/Part" := by
    decide +kernel
  obtain ⟨hcycle, hpart, hlost, hwheel, hparentOf⟩ := hchecks
  refine ⟨_, compile_eq_ok_iff.2 ⟨hcycle, rfl⟩, hpart, hlost, fun h ↦ ?_⟩
  have hparent := h.parents _ (mem_classes_compiledModel.2 ⟨_, hwheel, rfl⟩) _ hparentOf
  rw [hlost] at hparent
  cases hparent

end OntoGraph.Ontology
