import OntoGraph.Proofs.Ontology.Compiled
import OntoGraph.Proofs.Ontology.Shapes

/-!
# Ontologies under other labels

The same ontology may be read from files of several formats, with its triples in another order and
with other labels for blank nodes. The compiler takes the first object of some predicates, lets the
last statement on a field of a shape win, and keeps the last entity with each name. Where the graph
leaves it no such choice, the order and the labels make no difference.
-/

namespace OntoGraph.Ontology

open Rdf

/-- The predicates for which the compiler reads one object. -/
def singleValued : List String :=
  [rdfsComment, rdfsSubClassOf, rdfsRange, owlVersionInfo, rdfFirst, rdfRest]

/-- The shapes that state what a class declares. -/
def shapesOf (store : Store) (iri : String) : List Term := store.objects (.iri iri) shProperty

/-- Does a graph state at most once what the compiler reads once, and does it keep apart by name
what profiles and classes hold by name? -/
structure Definite (store : Store) : Prop where
  /-- No subject has two objects for one of these predicates. -/
  objects : ∀ subject ∈ store.subjects.toList, ∀ predicate ∈ singleValued,
    (store.objects subject predicate).length ≤ 1
  ontology : (store.subjectsWith rdfType (.iri owlOntology)).length ≤ 1
  /-- No shape of a class states a field twice. -/
  fields : ∀ iri ∈ classIris store, ∀ shape ∈ shapesOf store iri, ∀ name ∈ shapeFieldNames,
    (fieldStatements store shape name).length ≤ 1
  /-- No two shapes of a class have paths with the same last segment. -/
  paths : ∀ iri ∈ classIris store, ∀ a ∈ shapesOf store iri, ∀ b ∈ shapesOf store iri,
    (shapeFields store a).path.isSome = true →
      (shapeFields store a).path.map lastSegment = (shapeFields store b).path.map lastSegment →
        a = b
  vocabularies : ∀ a ∈ vocabularyIris store, ∀ b ∈ vocabularyIris store,
    placeOf a = placeOf b → a = b
  individuals : ∀ a ∈ compiledIndividuals store, ∀ b ∈ compiledIndividuals store,
    placeOf a.iri = placeOf b.iri → a.iri = b.iri

def declaredBy (store : Store) (iri : String) : List ClassProperty :=
  (shapesOf store iri).filterMap fun shape ↦
    compileShape? store iri shape (classIris store) (compileProperties store)

namespace Definite

variable {store : Store} (hstore : Definite store)
include hstore

theorem length_objects {predicate : String} (hpredicate : predicate ∈ singleValued)
    (subject : Term) : (store.objects subject predicate).length ≤ 1 := by
  by_cases hsubject : subject ∈ store.subjects.toList
  · exact hstore.objects subject hsubject predicate hpredicate
  · have hnone : store.objects subject predicate = [] := by
      refine List.eq_nil_iff_forall_not_mem.2 fun object hobject ↦ hsubject ?_
      exact Store.mem_subjects.2 ⟨_, Store.mem_objects.1 hobject, rfl⟩
    rw [hnone]
    exact Nat.zero_le 1

/-- A class declares nothing twice under the same name. -/
theorem nodup_names {iri : String} (hiri : iri ∈ classIris store) :
    ((declaredBy store iri).map (·.name)).Nodup := by
  have hname : ∀ {shape cp}, compileShape? store iri shape (classIris store)
      (compileProperties store) = some cp →
        (shapeFields store shape).path.map lastSegment = some cp.name := by
    intro shape cp hcp
    obtain ⟨path, constraint, hpath, -, -, rfl⟩ := compileShape?_eq_some_iff.1 hcp
    rw [hpath, Option.map_some]
  rw [declaredBy, List.Nodup, List.pairwise_map, List.pairwise_filterMap]
  refine (store.nodup_objects (.iri iri) shProperty).pairwise_of_forall_ne fun a ha b hb hne ↦ ?_
  intro cp hcp other hother heq
  refine hne (hstore.paths iri hiri a ha b hb ?_ ?_)
  · rw [← Option.isSome_map (f := lastSegment), hname hcp]
    rfl
  · rw [hname hcp, hname hother, heq]

/-- No two vocabularies share their place. -/
theorem vocabularies_apart : ∀ v ∈ (vocabularyIris store).map (compileVocabulary store),
    ∀ w ∈ (vocabularyIris store).map (compileVocabulary store),
      (v.profileName, v.name) = (w.profileName, w.name) → v = w := by
  intro v hv w hw hplace
  obtain ⟨a, ha, rfl⟩ := List.mem_map.1 hv
  obtain ⟨b, hb, rfl⟩ := List.mem_map.1 hw
  rw [hstore.vocabularies a ha b hb hplace]

/-- No two individuals share their place. -/
theorem individuals_apart : ∀ i ∈ compiledIndividuals store, ∀ j ∈ compiledIndividuals store,
    (i.profileName, i.name) = (j.profileName, j.name) → i = j := by
  have hof : ∀ i ∈ compiledIndividuals store, placeOf i.iri = (i.profileName, i.name) ∧
      compileIndividual? store i.iri = some i := by
    intro i hi
    obtain ⟨iri, -, hiri⟩ := List.mem_filterMap.1 hi
    obtain ⟨range, -, rfl⟩ := Option.map_eq_some_iff.1 hiri
    exact ⟨rfl, hiri⟩
  intro i hi j hj hplace
  obtain ⟨hiplace, hicompile⟩ := hof i hi
  obtain ⟨hjplace, hjcompile⟩ := hof j hj
  have hiri := hstore.individuals i hi j hj (by rw [hiplace, hjplace, hplace])
  rw [hiri] at hicompile
  exact Option.some.inj (hicompile.symm.trans hjcompile)

end Definite

/-! ## Adding in another order -/

section

variable {profiles : SortedMap Profile}

/-- The order of two changes of profiles does not matter if it does not in one profile. -/
theorem updateProfile_comm {name other : String} {f g : Profile → Profile}
    (h : name = other → ∀ p, g (f p) = f (g p)) :
    updateProfile (updateProfile profiles name f) other g =
      updateProfile (updateProfile profiles other g) name f := by
  unfold updateProfile
  by_cases heq : name = other
  · subst heq
    refine SortedMap.ext_get? fun k ↦ ?_
    simp only [SortedMap.get?_insert, if_true, Option.getD_some, h rfl]
    split <;> rfl
  · rw [SortedMap.get?_insert, SortedMap.get?_insert, if_neg (Ne.symm heq), if_neg heq]
    exact SortedMap.insert_comm profiles heq _ _

/-- Entities with different places can be added in any order. -/
theorem foldl_add_eq_of_perm {α : Type} {add : SortedMap Profile → α → SortedMap Profile}
    (name key : α → String) {f : α → Profile → Profile}
    (hadd : ∀ profiles x, add profiles x = updateProfile profiles (name x) (f x))
    (hcomm : ∀ x y, key x ≠ key y → ∀ p, f y (f x p) = f x (f y p)) {items others : List α}
    (hperm : items.Perm others)
    (hapart : ∀ x ∈ items, ∀ y ∈ items, (name x, key x) = (name y, key y) → x = y) :
    items.foldl add profiles = others.foldl add profiles := by
  refine hperm.foldl_eq' (fun x hx y hy profiles ↦ ?_) profiles
  by_cases heq : x = y
  · rw [heq]
  · rw [hadd, hadd, hadd, hadd]
    refine updateProfile_comm fun hname ↦ hcomm x y fun hkey ↦ heq ?_
    exact hapart x hx y hy (by rw [hname, hkey])

end

/-! ## Compiling -/

section

variable {store renamed : Store} {f : String → String}

variable (hf : Function.Injective f) (h : Store.Renames f store renamed)
include hf h

theorem perm_irisOfType (type : String) :
    (irisOfType renamed type).Perm (irisOfType store type) := by
  have hperm := (h.perm_subjectsWith hf rdfType (.iri type)).filterMap Term.iri?
  rw [Term.relabel_iri, List.filterMap_map] at hperm
  refine hperm.trans (List.Perm.of_eq ?_)
  exact List.filterMap_congr fun subject _ ↦ Term.iri?_relabel subject

theorem mem_irisOfType_iff {type iri : String} :
    iri ∈ irisOfType renamed type ↔ iri ∈ irisOfType store type :=
  (perm_irisOfType hf h type).mem_iff

theorem isUsedAsType_eq (iri : String) :
    renamed.isUsedAsType (.iri iri) = store.isUsedAsType (.iri iri) := by
  have hused := h.isUsedAsType_eq hf (.iri iri)
  rwa [Term.relabel_iri] at hused

theorem perm_classIris : (classIris renamed).Perm (classIris store) := by
  refine ((perm_irisOfType hf h owlClass).filter _).trans (List.Perm.of_eq ?_)
  refine List.filter_congr fun iri _ ↦ ?_
  rw [isUsedAsType_eq hf h]

theorem perm_vocabularyIris : (vocabularyIris renamed).Perm (vocabularyIris store) := by
  refine ((perm_irisOfType hf h owlClass).filter _).trans (List.Perm.of_eq ?_)
  refine List.filter_congr fun iri _ ↦ ?_
  rw [isUsedAsType_eq hf h]

variable (hstore : Definite store)
include hstore

theorem comment?_eq (subject : Term) :
    comment? renamed (subject.relabel f) = comment? store subject := by
  unfold comment?
  rw [h.object?_eq hf (hstore.length_objects (by simp [singleValued]) subject)]
  cases store.object? subject rdfsComment with
  | none => rfl
  | some object => exact Term.lexical?_relabel object

/-- The single object of an IRI is the same IRI under other labels. -/
theorem objectIri?_eq {predicate : String} (hpredicate : predicate ∈ singleValued) (iri : String) :
    (renamed.object? (.iri iri) predicate).bind Term.iri? =
      (store.object? (.iri iri) predicate).bind Term.iri? := by
  have hobject := h.object?_eq hf (hstore.length_objects hpredicate (.iri iri))
  rw [Term.relabel_iri] at hobject
  rw [hobject]
  cases store.object? (.iri iri) predicate with
  | none => rfl
  | some object => exact Term.iri?_relabel object

theorem ontologyInfo_eq : ontologyInfo renamed = ontologyInfo store := by
  have hsubjects := Store.eq_of_perm_of_length_le_one
    (h.perm_subjectsWith hf rdfType (.iri owlOntology))
    (by simpa only [List.length_map] using hstore.ontology)
  rw [Term.relabel_iri] at hsubjects
  unfold ontologyInfo
  rw [hsubjects]
  cases store.subjectsWith rdfType (.iri owlOntology) with
  | nil => rfl
  | cons subject rest =>
    rw [List.map_cons]
    dsimp only
    rw [comment?_eq hf h hstore, Term.iri?_relabel,
      h.object?_eq hf (hstore.length_objects (by simp [singleValued]) subject)]
    cases store.object? subject owlVersionInfo with
    | none => rfl
    | some object => rw [Option.map_some, Option.bind_some, Option.bind_some, Term.lexical?_relabel]

theorem comment?_iri_eq (iri : String) :
    comment? renamed (.iri iri) = comment? store (.iri iri) := by
  have hcomment := comment?_eq hf h hstore (.iri iri)
  rwa [Term.relabel_iri] at hcomment

theorem compileProperty_eq (kind : PropertyKind) (iri : String) :
    compileProperty renamed kind iri = compileProperty store kind iri := by
  unfold compileProperty
  rw [comment?_iri_eq hf h hstore, objectIri?_eq hf h hstore (by simp [singleValued])]

theorem compileProperties_eq : compileProperties renamed = compileProperties store := by
  refine SortedMap.ext_get? fun iri ↦ ?_
  rw [get?_compileProperties, get?_compileProperties]
  simp only [mem_irisOfType_iff hf h, compileProperty_eq hf h hstore]

/-! ### Classes -/

theorem compileShape?_eq {iri : String} (hiri : iri ∈ classIris store) {shape : Term}
    (hshape : shape ∈ shapesOf store iri) :
    compileShape? renamed iri (shape.relabel f) (classIris renamed) (compileProperties renamed) =
      compileShape? store iri shape (classIris store) (compileProperties store) := by
  have hfields := shapeFields_eq hf h (hstore.length_objects (by simp [singleValued]))
    (hstore.length_objects (by simp [singleValued])) (hstore.fields iri hiri shape hshape)
  have hconstraint := (shapeFields store shape).constraint?_congr
    fun _ ↦ (perm_classIris hf h).mem_iff
  unfold compileShape?
  dsimp only
  rw [hfields, compileProperties_eq hf h hstore, hconstraint]

theorem perm_declaredBy {iri : String} (hiri : iri ∈ classIris store) :
    (declaredBy renamed iri).Perm (declaredBy store iri) := by
  have hshapes := h.perm_objects hf (.iri iri) shProperty
  rw [Term.relabel_iri] at hshapes
  have hperm := hshapes.filterMap fun shape ↦
    compileShape? renamed iri shape (classIris renamed) (compileProperties renamed)
  rw [List.filterMap_map] at hperm
  refine hperm.trans (List.Perm.of_eq ?_)
  exact List.filterMap_congr fun shape hshape ↦ compileShape?_eq hf h hstore hiri hshape

theorem classOf_eq {iri : String} (hiri : iri ∈ classIris store) :
    classOf renamed iri = classOf store iri := by
  have hproperties : (SortedMap.ofList ((declaredBy store iri).map fun cp ↦ (cp.name, cp))) =
      .ofList ((declaredBy renamed iri).map fun cp ↦ (cp.name, cp)) := by
    refine SortedMap.ofList_eq_of_perm ((perm_declaredBy hf h hstore hiri).symm.map _) ?_
    rw [List.map_map]
    exact hstore.nodup_names hiri
  have hparent : ((store.object? (.iri iri) rdfsSubClassOf).bind Term.iri?).filter
      (classIris renamed).contains =
        ((store.object? (.iri iri) rdfsSubClassOf).bind Term.iri?).filter
          (classIris store).contains := by
    refine congrFun (congrArg Option.filter (funext fun parent ↦ ?_)) _
    rw [Bool.eq_iff_iff, List.contains_iff_mem, List.contains_iff_mem]
    exact (perm_classIris hf h).mem_iff
  unfold declaredBy shapesOf at hproperties
  unfold classOf compileClass
  dsimp only
  rw [comment?_iri_eq hf h hstore, objectIri?_eq hf h hstore (by simp [singleValued]), hparent,
    ← hproperties]

theorem compiledClasses_eq : compiledClasses renamed = compiledClasses store := by
  refine SortedMap.ext_get? fun iri ↦ ?_
  rw [get?_compiledClasses, get?_compiledClasses]
  simp only [(perm_classIris hf h).mem_iff]
  by_cases hiri : iri ∈ classIris store
  · rw [if_pos hiri, if_pos hiri, classOf_eq hf h hstore hiri]
  · rw [if_neg hiri, if_neg hiri]

/-! ### Vocabularies and individuals -/

theorem compileVocabulary_eq (iri : String) :
    compileVocabulary renamed iri = compileVocabulary store iri := by
  have hentry : compileEntry renamed = compileEntry store := by
    funext entry
    unfold compileEntry
    rw [comment?_iri_eq hf h hstore]
  have hentries : SortedMap.ofList ((irisOfType renamed iri).map fun entry ↦
        (entry, compileEntry renamed entry)) =
      .ofList ((irisOfType store iri).map fun entry ↦ (entry, compileEntry store entry)) := by
    refine SortedMap.ext_get? fun entry ↦ ?_
    rw [SortedMap.get?_ofList_keys (compileEntry renamed), hentry,
      SortedMap.get?_ofList_keys (compileEntry store)]
    simp only [mem_irisOfType_iff hf h]
  unfold compileVocabulary
  rw [comment?_iri_eq hf h hstore, hentries]

theorem compileIndividual?_eq (iri : String) :
    compileIndividual? renamed iri = compileIndividual? store iri := by
  unfold compileIndividual?
  rw [comment?_iri_eq hf h hstore, objectIri?_eq hf h hstore (by simp [singleValued])]

theorem perm_vocabularies : ((vocabularyIris renamed).map (compileVocabulary renamed)).Perm
    ((vocabularyIris store).map (compileVocabulary store)) := by
  rw [funext (compileVocabulary_eq hf h hstore)]
  exact (perm_vocabularyIris hf h).map _

theorem perm_compiledIndividuals :
    (compiledIndividuals renamed).Perm (compiledIndividuals store) := by
  unfold compiledIndividuals
  rw [funext (compileIndividual?_eq hf h hstore)]
  exact (perm_irisOfType hf h owlNamedIndividual).filterMap _

/-! ### The model -/

theorem compiledProfiles_eq : compiledProfiles renamed = compiledProfiles store := by
  have hvocabularies : ∀ profiles,
      ((vocabularyIris renamed).map (compileVocabulary renamed)).foldl addVocabulary profiles =
        ((vocabularyIris store).map (compileVocabulary store)).foldl addVocabulary profiles := by
    intro profiles
    refine (foldl_add_eq_of_perm (·.profileName) (·.name) (fun _ _ ↦ rfl)
      (fun v w hname p ↦ ?_) (perm_vocabularies hf h hstore).symm hstore.vocabularies_apart).symm
    rw [SortedMap.insert_comm _ hname]
  have hindividuals : ∀ profiles, (compiledIndividuals renamed).foldl addIndividual profiles =
      (compiledIndividuals store).foldl addIndividual profiles := by
    intro profiles
    refine (foldl_add_eq_of_perm (·.profileName) (·.name) (fun _ _ ↦ rfl)
      (fun i j hname p ↦ ?_) (perm_compiledIndividuals hf h hstore).symm
      hstore.individuals_apart).symm
    rw [SortedMap.insert_comm _ hname]
  unfold compiledProfiles
  dsimp only
  rw [compileProperties_eq hf h hstore, compiledClasses_eq hf h hstore, hvocabularies,
    hindividuals]

end

/-- Graphs with the same triples, in whatever order and under whatever labels, are compiled to the
same model, or refused for the same cycle. -/
theorem compile_eq_of_renames {store renamed : Store} {f : String → String}
    (h : Store.Renames f store renamed) (hstore : Definite store) :
    compile renamed = compile store := by
  obtain ⟨g, hg, hrenames⟩ := h.exists_injective
  have hclasses := compiledClasses_eq hg hrenames hstore
  have hmodel : compiledModel renamed = compiledModel store := by
    unfold compiledModel
    rw [ontologyInfo_eq hg hrenames hstore, compiledProfiles_eq hg hrenames hstore]
  cases hcompile : compile store with
  | error error =>
    obtain ⟨iri, hcycle, rfl⟩ := compile_eq_error_iff.1 hcompile
    exact compile_eq_error_iff.2 ⟨iri, by rw [hclasses, hcycle], rfl⟩
  | ok m =>
    obtain ⟨hcycle, rfl⟩ := compile_eq_ok_iff.1 hcompile
    exact compile_eq_ok_iff.2 ⟨by rw [hclasses, hcycle], hmodel.symm⟩

instance (store : Store) : Decidable (Definite store) :=
  decidable_of_iff
    ((∀ subject ∈ store.subjects.toList, ∀ predicate ∈ singleValued,
        (store.objects subject predicate).length ≤ 1) ∧
      (store.subjectsWith rdfType (.iri owlOntology)).length ≤ 1 ∧
      (∀ iri ∈ classIris store, ∀ shape ∈ shapesOf store iri, ∀ name ∈ shapeFieldNames,
        (fieldStatements store shape name).length ≤ 1) ∧
      (∀ iri ∈ classIris store, ∀ a ∈ shapesOf store iri, ∀ b ∈ shapesOf store iri,
        (shapeFields store a).path.isSome = true →
          (shapeFields store a).path.map lastSegment = (shapeFields store b).path.map lastSegment →
            a = b) ∧
      (∀ a ∈ vocabularyIris store, ∀ b ∈ vocabularyIris store, placeOf a = placeOf b → a = b) ∧
      ∀ a ∈ compiledIndividuals store, ∀ b ∈ compiledIndividuals store,
        placeOf a.iri = placeOf b.iri → a.iri = b.iri)
    ⟨fun h ↦ ⟨h.1, h.2.1, h.2.2.1, h.2.2.2.1, h.2.2.2.2.1, h.2.2.2.2.2⟩,
      fun h ↦ ⟨h.objects, h.ontology, h.fields, h.paths, h.vocabularies, h.individuals⟩⟩

/-- Lamps are devices of a number of volts. They are lit or dark. -/
def lamps : List Triple :=
  [⟨.iri "https://x/Core", rdfType, .iri owlOntology⟩,
    ⟨.iri "https://x/Core", owlVersionInfo, .literal "2" xsdString none⟩,
    ⟨.iri "https://x/Core/volts", rdfType, .iri owlDatatypeProperty⟩,
    ⟨.iri "https://x/Core/state", rdfType, .iri owlObjectProperty⟩,
    ⟨.iri "https://x/Core/Device", rdfType, .iri owlClass⟩,
    ⟨.iri "https://x/Core/Lamp", rdfType, .iri owlClass⟩,
    ⟨.iri "https://x/Core/Lamp", rdfsSubClassOf, .iri "https://x/Core/Device"⟩,
    ⟨.iri "https://x/Core/State", rdfType, .iri owlClass⟩,
    ⟨.iri "https://x/Core/lit", rdfType, .iri "https://x/Core/State"⟩,
    ⟨.iri "https://x/Core/dark", rdfType, .iri "https://x/Core/State"⟩,
    ⟨.iri "https://x/Core/Lamp", shProperty, .blank "v"⟩,
    ⟨.blank "v", "http://www.w3.org/ns/shacl#path", .iri "https://x/Core/volts"⟩,
    ⟨.blank "v", "http://www.w3.org/ns/shacl#datatype", .iri xsdString⟩,
    ⟨.iri "https://x/Core/Lamp", shProperty, .blank "s"⟩,
    ⟨.blank "s", "http://www.w3.org/ns/shacl#path", .iri "https://x/Core/state"⟩,
    ⟨.blank "s", "http://www.w3.org/ns/shacl#in", .blank "l"⟩,
    ⟨.blank "l", rdfFirst, .iri "https://x/Core/lit"⟩,
    ⟨.blank "l", rdfRest, .blank "d"⟩,
    ⟨.blank "d", rdfFirst, .iri "https://x/Core/dark"⟩,
    ⟨.blank "d", rdfRest, .iri rdfNil⟩]

/-- The same graph, read backwards and with longer labels. -/
theorem compile_eq_lamps : Definite (.ofList lamps) ∧ ∃ m, compile (.ofList lamps) = .ok m ∧
    (m.class? "https://x/Core/Lamp").map (·.properties.size) = some 2 ∧
      compile (.ofList (lamps.reverse.map (Triple.relabel ("file" ++ ·)))) = .ok m := by
  have hchecks : Definite (.ofList lamps) ∧ cycle? (compiledClasses (.ofList lamps)) = none ∧
      ((compiledModel (.ofList lamps)).class? "https://x/Core/Lamp").map (·.properties.size) =
        some 2 := by
    decide +kernel
  obtain ⟨hdefinite, hcycle, hsize⟩ := hchecks
  have hcompile : compile (.ofList lamps) = .ok (compiledModel (.ofList lamps)) :=
    compile_eq_ok_iff.2 ⟨hcycle, rfl⟩
  have hrenames : Store.Renames ("file" ++ ·) (.ofList lamps)
      (.ofList (lamps.reverse.map (Triple.relabel ("file" ++ ·)))) := by
    refine ⟨fun a _ b _ heq ↦ (String.append_right_inj _).1 heq, fun t ↦ ?_⟩
    simp only [Store.mem_ofList, List.mem_map, List.mem_reverse]
  exact ⟨hdefinite, _, hcompile, hsize, (compile_eq_of_renames hrenames hdefinite).trans hcompile⟩

end OntoGraph.Ontology
