import OntoGraph.Ontology.Compile
import OntoGraph.Proofs.SortedMap

/-!
# What a compiled model holds

A profile holds the entities of each kind by name, so that of those with the same profile and name
the last one is kept. The index holds the kept entities by IRI, and of those with the same IRI the
individual, the vocabulary, the property and the class are preferred in this order. So what a
compiled model finds under an IRI is told from the IRIs of each kind alone.
-/

namespace OntoGraph.Ontology

open Rdf

/-! ## Places -/

/-- The place of an entity in the profiles: its profile and its name. -/
def placeOf (iri : String) : String × String := (parentSegment iri, lastSegment iri)

def entryAt {α : Type} (kind : Profile → SortedMap α) (profiles : SortedMap Profile)
    (place : String × String) : Option α :=
  (kind ((profiles.get? place.1).getD {})).get? place.2

section

variable {α β : Type} {kind : Profile → SortedMap α} {profiles : SortedMap Profile}

theorem entryAt_empty (h : kind {} = ∅) (place : String × String) :
    entryAt kind ∅ place = none := by
  simp [entryAt, h]

theorem entryAt_of_get? {name : String} {profile : Profile}
    (h : profiles.get? name = some profile) (key : String) :
    entryAt kind profiles (name, key) = (kind profile).get? key := by
  rw [entryAt, h, Option.getD_some]

/-- A change of a profile that leaves a kind alone. -/
theorem entryAt_updateProfile_of_same {name : String} {f : Profile → Profile}
    (h : ∀ p, kind (f p) = kind p) (place : String × String) :
    entryAt kind (updateProfile profiles name f) place = entryAt kind profiles place := by
  by_cases heq : place.1 = name <;> simp [entryAt, updateProfile, heq, h]

/-- A change of a profile that puts an entity of a kind in its place. -/
theorem entryAt_updateProfile_of_insert {name key : String} {x : α} {f : Profile → Profile}
    (h : ∀ p, kind (f p) = (kind p).insert key x) (place : String × String) :
    entryAt kind (updateProfile profiles name f) place =
      if (name, key) = place then some x else entryAt kind profiles place := by
  obtain ⟨first, second⟩ := place
  by_cases hname : first = name
  · by_cases hkey : second = key
    · simp [entryAt, updateProfile, h, hname, hkey]
    · simp [entryAt, updateProfile, h, hname, hkey, Ne.symm hkey]
  · simp [entryAt, updateProfile, hname, Ne.symm hname]

end

/-! ## Kept IRIs -/

/-- Is the IRI the last of a list with its place? -/
def Kept (iris : List String) (iri : String) : Prop :=
  (iris.filter (placeOf · = placeOf iri)).getLast? = some iri

instance (iris : List String) (iri : String) : Decidable (Kept iris iri) :=
  inferInstanceAs (Decidable (_ = _))

theorem Kept.mem {iris : List String} {iri : String} (h : Kept iris iri) : iri ∈ iris :=
  (List.mem_filter.1 (List.mem_of_getLast? h)).1

/-- All IRIs of a list are kept exactly if no two of them share a place. -/
theorem forall_kept_iff (iris : List String) :
    (∀ iri ∈ iris, Kept iris iri) ↔ ∀ a ∈ iris, ∀ b ∈ iris, placeOf a = placeOf b → a = b := by
  constructor
  · intro h a ha b hb hplace
    have hkept := h a ha
    unfold Kept at hkept
    rw [hplace] at hkept
    exact Option.some.inj (hkept.symm.trans (h b hb))
  · intro h iri hiri
    have hsame : ∀ other ∈ iris.filter (placeOf · = placeOf iri), other = iri := by
      intro other hother
      obtain ⟨hother, hplace⟩ := List.mem_filter.1 hother
      exact h other hother iri hiri (of_decide_eq_true hplace)
    have hmem : iri ∈ iris.filter (placeOf · = placeOf iri) :=
      List.mem_filter.2 ⟨hiri, decide_eq_true rfl⟩
    cases hlast : (iris.filter (placeOf · = placeOf iri)).getLast? with
    | none => exact absurd (List.getLast?_eq_none_iff.1 hlast) (List.ne_nil_of_mem hmem)
    | some last => rw [Kept, hlast, hsame last (List.mem_of_getLast? hlast)]

/-- Do the entities of a kind stand at the places that their IRIs tell, the last one of each
place among those with the given IRIs? -/
def HoldsLast {α : Type} (kind : Profile → SortedMap α) (iriOf : α → String)
    (profiles : SortedMap Profile) (items : List α) : Prop :=
  ∀ place, entryAt kind profiles place =
    (items.filter fun x ↦ placeOf (iriOf x) = place).getLast?

section

variable {α β : Type} {kind : Profile → SortedMap α} {iriOf : α → String}
  {profiles : SortedMap Profile} {items : List α}

theorem holdsLast_empty (h : kind {} = ∅) : HoldsLast kind iriOf ∅ [] :=
  fun place ↦ entryAt_empty h place

/-- Adding entities of another kind leaves a kind alone. -/
theorem HoldsLast.foldl_of_same (h : HoldsLast kind iriOf profiles items)
    (add : SortedMap Profile → β → SortedMap Profile) {name : β → String}
    {f : β → Profile → Profile}
    (hadd : ∀ profiles x, add profiles x = updateProfile profiles (name x) (f x))
    (hsame : ∀ x p, kind (f x p) = kind p) (others : List β) :
    HoldsLast kind iriOf (others.foldl add profiles) items := by
  induction others generalizing profiles with
  | nil => exact h
  | cons x others ih =>
    refine ih fun place ↦ ?_
    rw [hadd, entryAt_updateProfile_of_same (hsame x), h]

/-- Of the added entities of a kind with the same place, the last one stays there. -/
theorem HoldsLast.foldl_of_insert (h : HoldsLast kind iriOf profiles items)
    (add : SortedMap Profile → α → SortedMap Profile) {name key : α → String}
    {f : α → Profile → Profile}
    (hadd : ∀ profiles x, add profiles x = updateProfile profiles (name x) (f x))
    (hinsert : ∀ x p, kind (f x p) = (kind p).insert (key x) x) (added : List α)
    (hplace : ∀ x ∈ added, placeOf (iriOf x) = (name x, key x)) :
    HoldsLast kind iriOf (added.foldl add profiles) (items ++ added) := by
  induction added generalizing profiles items with
  | nil => rwa [List.append_nil]
  | cons x added ih =>
    obtain ⟨hx, hadded⟩ := List.forall_mem_cons.1 hplace
    rw [List.foldl_cons, ← List.singleton_append, ← List.append_assoc]
    refine ih (fun place ↦ ?_) hadded
    rw [hadd, entryAt_updateProfile_of_insert (hinsert x), List.filter_append, List.getLast?_append,
      ← h, ← hx]
    by_cases heq : placeOf (iriOf x) = place
    · simp [heq]
    · simp [heq]

theorem HoldsLast.place (h : HoldsLast kind iriOf profiles items) {place : String × String} {x : α}
    (hx : entryAt kind profiles place = some x) : placeOf (iriOf x) = place := by
  rw [h] at hx
  exact of_decide_eq_true (List.mem_filter.1 (List.mem_of_getLast? hx)).2

theorem HoldsLast.mem (h : HoldsLast kind iriOf profiles items) {place : String × String} {x : α}
    (hx : entryAt kind profiles place = some x) : x ∈ items := by
  rw [h] at hx
  exact (List.mem_filter.1 (List.mem_of_getLast? hx)).1

/-- What stands at the place of an IRI under this very IRI. -/
def entityAt (kind : Profile → SortedMap α) (iriOf : α → String) (profiles : SortedMap Profile)
    (iri : String) : Option α :=
  (entryAt kind profiles (placeOf iri)).filter (iriOf · = iri)

theorem HoldsLast.isSome_entityAt (h : HoldsLast kind iriOf profiles items) (iri : String) :
    (entityAt kind iriOf profiles iri).isSome = true ↔ Kept (items.map iriOf) iri := by
  have hlast : (entryAt kind profiles (placeOf iri)).map iriOf =
      ((items.map iriOf).filter (placeOf · = placeOf iri)).getLast? := by
    rw [h, List.filter_map, List.getLast?_map]
    rfl
  rw [Kept, ← hlast, entityAt]
  cases entryAt kind profiles (placeOf iri) with
  | none => simp
  | some x => simp [Option.filter]

end

/-! ## The index -/

/-- Does every entity stand at the place that its IRI tells? -/
structure InPlace (profiles : SortedMap Profile) : Prop where
  classes : ∀ place c, entryAt (·.classes) profiles place = some c → placeOf c.iri = place
  properties : ∀ place p, entryAt (·.properties) profiles place = some p → placeOf p.iri = place
  vocabularies : ∀ place v, entryAt (·.vocabularies) profiles place = some v →
    placeOf v.iri = place
  individuals : ∀ place i, entryAt (·.individuals) profiles place = some i → placeOf i.iri = place

section

variable {profiles : SortedMap Profile}

/-- The entities of a profile have IRIs of this profile. -/
theorem InPlace.parentSegment (h : InPlace profiles) {name : String} {profile : Profile}
    (hprofile : profiles.get? name = some profile) {e : Entity} (he : e ∈ profile.entities) :
    parentSegment e.iri = name := by
  simp only [Profile.entities, List.mem_append, List.mem_map, SortedMap.mem_values] at he
  rcases he with ((⟨c, ⟨key, hc⟩, rfl⟩ | ⟨p, ⟨key, hp⟩, rfl⟩) | ⟨v, ⟨key, hv⟩, rfl⟩) |
    ⟨i, ⟨key, hi⟩, rfl⟩
  · exact congrArg Prod.fst (h.classes _ c ((entryAt_of_get? hprofile key).trans hc))
  · exact congrArg Prod.fst (h.properties _ p ((entryAt_of_get? hprofile key).trans hp))
  · exact congrArg Prod.fst (h.vocabularies _ v ((entryAt_of_get? hprofile key).trans hv))
  · exact congrArg Prod.fst (h.individuals _ i ((entryAt_of_get? hprofile key).trans hi))

/-- Of the entities of a kind in a profile, the one with an IRI stands at the place of the IRI. -/
theorem getLast?_filter_iri {α : Type} {kind : Profile → SortedMap α} {iriOf : α → String}
    (h : ∀ place x, entryAt kind profiles place = some x → placeOf (iriOf x) = place)
    (iri : String) :
    ((kind ((profiles.get? (parentSegment iri)).getD {})).values.filter
      (iriOf · = iri)).getLast? = entityAt kind iriOf profiles iri := by
  have hfilter := SortedMap.filter_values (m := kind ((profiles.get? (parentSegment iri)).getD {}))
    (k := lastSegment iri) (p := (iriOf · = iri)) fun key x hx heq ↦ by
      rw [← of_decide_eq_true heq]
      exact (congrArg Prod.snd (h (parentSegment iri, key) x hx)).symm
  rw [hfilter]
  change (entityAt kind iriOf profiles iri).toList.getLast? = _
  cases entityAt kind iriOf profiles iri <;> rfl

/-- Under an IRI the index holds the individual at its place, or else the vocabulary, the property
or the class, whichever has this IRI. -/
theorem InPlace.entity? (h : InPlace profiles) (info : OntologyInfo) (iri : String) :
    (Model.ofProfiles info profiles).entity? iri =
      ((entityAt (·.individuals) (·.iri) profiles iri).map .ofIndividual).or
        (((entityAt (·.vocabularies) (·.iri) profiles iri).map .ofVocabulary).or
          (((entityAt (·.properties) (·.iri) profiles iri).map .ofProperty).or
            ((entityAt (·.classes) (·.iri) profiles iri).map .ofClass))) := by
  have hlast : (Model.ofProfiles info profiles).entity? iri =
      ((profiles.values.flatMap Profile.entities).filter (·.iri = iri)).getLast? :=
    (SortedMap.get?_ofList_map Entity.iri id _ iri).trans Option.map_id_apply
  have hprofile : (profiles.values.flatMap Profile.entities).filter (·.iri = iri) =
      ((profiles.get? (Ontology.parentSegment iri)).getD {}).entities.filter (·.iri = iri) := by
    rw [List.filter_flatMap, SortedMap.flatMap_values (k := Ontology.parentSegment iri)]
    · cases profiles.get? (Ontology.parentSegment iri) <;> rfl
    · intro name profile hget hne
      refine List.filter_eq_nil_iff.2 fun e he heq ↦ hne ?_
      rw [← h.parentSegment hget he, of_decide_eq_true heq]
  rw [hlast, hprofile]
  simp only [Profile.entities, List.filter_append, List.filter_map, List.getLast?_append,
    List.getLast?_map]
  rw [← getLast?_filter_iri h.classes, ← getLast?_filter_iri h.properties,
    ← getLast?_filter_iri h.vocabularies, ← getLast?_filter_iri h.individuals]
  rfl

theorem InPlace.class?_eq_some_iff (h : InPlace profiles) {info : OntologyInfo} {iri : String}
    {c : Class} : (Model.ofProfiles info profiles).class? iri = some c ↔
      entityAt (·.classes) (·.iri) profiles iri = some c ∧
        entityAt (·.properties) (·.iri) profiles iri = none ∧
        entityAt (·.vocabularies) (·.iri) profiles iri = none ∧
        entityAt (·.individuals) (·.iri) profiles iri = none := by
  unfold Model.class?
  rw [h.entity?]
  cases entityAt (·.individuals) (·.iri) profiles iri <;>
    cases entityAt (·.vocabularies) (·.iri) profiles iri <;>
    cases entityAt (·.properties) (·.iri) profiles iri <;>
    cases entityAt (·.classes) (·.iri) profiles iri <;> simp

theorem InPlace.property?_eq_some_iff (h : InPlace profiles) {info : OntologyInfo} {iri : String}
    {p : Property} : (Model.ofProfiles info profiles).property? iri = some p ↔
      entityAt (·.properties) (·.iri) profiles iri = some p ∧
        entityAt (·.vocabularies) (·.iri) profiles iri = none ∧
        entityAt (·.individuals) (·.iri) profiles iri = none := by
  unfold Model.property?
  rw [h.entity?]
  cases entityAt (·.individuals) (·.iri) profiles iri <;>
    cases entityAt (·.vocabularies) (·.iri) profiles iri <;>
    cases entityAt (·.properties) (·.iri) profiles iri <;>
    cases entityAt (·.classes) (·.iri) profiles iri <;> simp

end

/-! ## The compiled profiles -/

section

variable (store : Store)

def classOf (iri : String) : Class :=
  compileClass store (classIris store) (compileProperties store) iri

def compiledClasses : SortedMap Class := compileClasses store (compileProperties store)

def compiledIndividuals : List Individual :=
  (irisOfType store owlNamedIndividual).filterMap (compileIndividual? store)

def compiledProfiles : SortedMap Profile :=
  let profiles := (compileProperties store).values.foldl addProperty ∅
  let profiles := (compiledClasses store).values.foldl addClass profiles
  let profiles := ((vocabularyIris store).map (compileVocabulary store)).foldl addVocabulary profiles
  (compiledIndividuals store).foldl addIndividual profiles

def compiledModel : Model := .ofProfiles (ontologyInfo store) (compiledProfiles store)

variable {store}

theorem compile_eq_ok_iff {m : Model} : compile store = .ok m ↔
    cycle? (compiledClasses store) = none ∧
      m = compiledModel store := by
  unfold compile
  dsimp only
  rw [← compiledClasses]
  cases cycle? (compiledClasses store) with
  | none => exact ⟨fun h ↦ ⟨rfl, (Except.ok.inj h).symm⟩, fun h ↦ congrArg Except.ok h.2.symm⟩
  | some iri => simp

theorem compile_eq_error_iff {error : CompileError} : compile store = .error error ↔
    ∃ iri, cycle? (compiledClasses store) = some iri ∧ error = .inheritanceCycle iri := by
  unfold compile
  dsimp only
  rw [← compiledClasses]
  cases cycle? (compiledClasses store) with
  | none => simp
  | some iri => simp [eq_comm]

/-- The classes are those with the IRIs of classes. -/
theorem get?_compiledClasses (store : Store) (iri : String) :
    (compiledClasses store).get? iri =
      if iri ∈ classIris store then some (classOf store iri) else none :=
  SortedMap.get?_ofList_keys (classOf store) (classIris store) iri

@[simp] theorem mem_keys_compiledClasses {iri : String} :
    iri ∈ (compiledClasses store).keys ↔ iri ∈ classIris store := by
  simp [SortedMap.mem_keys, get?_compiledClasses]

theorem mem_values_compiledClasses {c : Class} :
    c ∈ (compiledClasses store).values ↔ c.iri ∈ classIris store ∧ c = classOf store c.iri := by
  simp only [SortedMap.mem_values, get?_compiledClasses]
  constructor
  · rintro ⟨iri, h⟩
    by_cases hmem : iri ∈ classIris store
    · rw [if_pos hmem] at h
      cases h
      exact ⟨hmem, rfl⟩
    · rw [if_neg hmem] at h
      cases h
  · rintro ⟨hmem, heq⟩
    exact ⟨c.iri, by rw [if_pos hmem, ← heq]⟩

/-- The properties are those with the IRIs of properties; what is declared as both kinds is an
object property. -/
theorem get?_compileProperties (store : Store) (iri : String) :
    (compileProperties store).get? iri =
      if iri ∈ irisOfType store owlObjectProperty then some (compileProperty store .object iri)
      else if iri ∈ irisOfType store owlDatatypeProperty then
        some (compileProperty store .datatype iri)
      else none := by
  unfold compileProperties
  rw [List.map_append, List.map_map, List.map_map, SortedMap.get?_ofList_append]
  change ((SortedMap.ofList ((irisOfType store owlObjectProperty).map fun iri ↦
    (iri, compileProperty store .object iri))).get? iri).or
      ((SortedMap.ofList ((irisOfType store owlDatatypeProperty).map fun iri ↦
        (iri, compileProperty store .datatype iri))).get? iri) = _
  rw [SortedMap.get?_ofList_keys, SortedMap.get?_ofList_keys]
  split <;> simp

/-- A property stands under its own IRI. -/
theorem exists_kind_of_get? {iri : String} {p : Property}
    (h : (compileProperties store).get? iri = some p) :
    ∃ kind, p = compileProperty store kind iri := by
  rw [get?_compileProperties] at h
  split at h
  · exact ⟨_, (Option.some.inj h).symm⟩
  · split at h
    · exact ⟨_, (Option.some.inj h).symm⟩
    · cases h

section

variable (store : Store)

theorem holdsLast_properties : HoldsLast Profile.properties Property.iri (compiledProfiles store)
    (compileProperties store).values := by
  have hempty : HoldsLast Profile.properties Property.iri ∅ [] := holdsLast_empty rfl
  have hproperties := hempty.foldl_of_insert addProperty (fun _ _ ↦ rfl) (fun _ _ ↦ rfl)
    (compileProperties store).values fun p hp ↦ by
      obtain ⟨iri, hiri⟩ := SortedMap.mem_values.1 hp
      obtain ⟨kind, rfl⟩ := exists_kind_of_get? hiri
      rfl
  have hclasses := hproperties.foldl_of_same addClass (fun _ _ ↦ rfl) (fun _ _ ↦ rfl)
    (compiledClasses store).values
  have hvocabularies := hclasses.foldl_of_same addVocabulary (fun _ _ ↦ rfl) (fun _ _ ↦ rfl)
    ((vocabularyIris store).map (compileVocabulary store))
  exact hvocabularies.foldl_of_same addIndividual (fun _ _ ↦ rfl) (fun _ _ ↦ rfl) _

theorem holdsLast_classes : HoldsLast Profile.classes Class.iri (compiledProfiles store)
    (compiledClasses store).values := by
  have hempty : HoldsLast Profile.classes Class.iri ∅ [] := holdsLast_empty rfl
  have hproperties := hempty.foldl_of_same addProperty (fun _ _ ↦ rfl) (fun _ _ ↦ rfl)
    (compileProperties store).values
  have hclasses := hproperties.foldl_of_insert addClass (fun _ _ ↦ rfl) (fun _ _ ↦ rfl)
    (compiledClasses store).values fun c hc ↦ by
      rw [(mem_values_compiledClasses.1 hc).2]
      rfl
  have hvocabularies := hclasses.foldl_of_same addVocabulary (fun _ _ ↦ rfl) (fun _ _ ↦ rfl)
    ((vocabularyIris store).map (compileVocabulary store))
  exact hvocabularies.foldl_of_same addIndividual (fun _ _ ↦ rfl) (fun _ _ ↦ rfl) _

theorem holdsLast_vocabularies : HoldsLast Profile.vocabularies Vocabulary.iri
    (compiledProfiles store) ((vocabularyIris store).map (compileVocabulary store)) := by
  have hempty : HoldsLast Profile.vocabularies Vocabulary.iri ∅ [] := holdsLast_empty rfl
  have hproperties := hempty.foldl_of_same addProperty (fun _ _ ↦ rfl) (fun _ _ ↦ rfl)
    (compileProperties store).values
  have hclasses := hproperties.foldl_of_same addClass (fun _ _ ↦ rfl) (fun _ _ ↦ rfl)
    (compiledClasses store).values
  have hvocabularies := hclasses.foldl_of_insert addVocabulary (fun _ _ ↦ rfl) (fun _ _ ↦ rfl)
    ((vocabularyIris store).map (compileVocabulary store)) fun v hv ↦ by
      obtain ⟨iri, -, rfl⟩ := List.mem_map.1 hv
      rfl
  exact hvocabularies.foldl_of_same addIndividual (fun _ _ ↦ rfl) (fun _ _ ↦ rfl) _

theorem holdsLast_individuals : HoldsLast Profile.individuals Individual.iri
    (compiledProfiles store) (compiledIndividuals store) := by
  have hempty : HoldsLast Profile.individuals Individual.iri ∅ [] := holdsLast_empty rfl
  have hproperties := hempty.foldl_of_same addProperty (fun _ _ ↦ rfl) (fun _ _ ↦ rfl)
    (compileProperties store).values
  have hclasses := hproperties.foldl_of_same addClass (fun _ _ ↦ rfl) (fun _ _ ↦ rfl)
    (compiledClasses store).values
  have hvocabularies := hclasses.foldl_of_same addVocabulary (fun _ _ ↦ rfl) (fun _ _ ↦ rfl)
    ((vocabularyIris store).map (compileVocabulary store))
  refine hvocabularies.foldl_of_insert addIndividual (fun _ _ ↦ rfl) (fun _ _ ↦ rfl) _
    fun i hi ↦ ?_
  obtain ⟨iri, -, hiri⟩ := List.mem_filterMap.1 hi
  obtain ⟨range, -, rfl⟩ := Option.map_eq_some_iff.1 hiri
  rfl

end

theorem inPlace_compiledProfiles (store : Store) : InPlace (compiledProfiles store) where
  classes _ _ h := (holdsLast_classes store).place h
  properties _ _ h := (holdsLast_properties store).place h
  vocabularies _ _ h := (holdsLast_vocabularies store).place h
  individuals _ _ h := (holdsLast_individuals store).place h

/-! ## Looking up -/

theorem map_iri_compileProperties (store : Store) :
    (compileProperties store).values.map (·.iri) = (compileProperties store).keys := by
  unfold SortedMap.values SortedMap.keys
  rw [List.map_map]
  refine List.map_congr_left fun pair hpair ↦ ?_
  obtain ⟨kind, heq⟩ := exists_kind_of_get? (SortedMap.get?_eq_some_iff.2 hpair)
  rw [Function.comp_apply, heq]
  rfl

theorem map_iri_compiledClasses (store : Store) :
    (compiledClasses store).values.map (·.iri) = (compiledClasses store).keys := by
  unfold SortedMap.values SortedMap.keys
  rw [List.map_map]
  refine List.map_congr_left fun pair hpair ↦ ?_
  have hget := SortedMap.get?_eq_some_iff.2 hpair
  rw [get?_compiledClasses] at hget
  split at hget
  · rw [Function.comp_apply, ← Option.some.inj hget]
    rfl
  · cases hget

/-- Is a class found under the IRI: is it kept in its profile, and is neither a property nor an
individual with the same IRI kept? -/
structure FindsClass (store : Store) (iri : String) : Prop where
  kept : Kept (compiledClasses store).keys iri
  property : ¬ Kept (compileProperties store).keys iri
  individual : ¬ Kept ((compiledIndividuals store).map (·.iri)) iri

/-- Is a property found under the IRI: is it kept in its profile, and is neither a vocabulary nor
an individual with the same IRI kept? -/
structure FindsProperty (store : Store) (iri : String) : Prop where
  kept : Kept (compileProperties store).keys iri
  vocabulary : ¬ Kept (vocabularyIris store) iri
  individual : ¬ Kept ((compiledIndividuals store).map (·.iri)) iri

theorem entityAt_eq_none_iff {α : Type} {kind : Profile → SortedMap α} {iriOf : α → String}
    {profiles : SortedMap Profile} {items : List α} (h : HoldsLast kind iriOf profiles items)
    (iri : String) : entityAt kind iriOf profiles iri = none ↔ ¬ Kept (items.map iriOf) iri := by
  rw [← h.isSome_entityAt, Option.not_isSome_iff_eq_none]

theorem entityAt_classes_eq_some_iff {iri : String} {c : Class} :
    entityAt Profile.classes Class.iri (compiledProfiles store) iri = some c ↔
      Kept (compiledClasses store).keys iri ∧ c = classOf store iri := by
  have hisSome := (holdsLast_classes store).isSome_entityAt iri
  rw [map_iri_compiledClasses] at hisSome
  have hvalue : ∀ c, entityAt Profile.classes Class.iri (compiledProfiles store) iri = some c →
      c = classOf store iri := by
    intro c hc
    obtain ⟨hentry, hiri⟩ := Option.filter_eq_some_iff.1 hc
    have hmem := mem_values_compiledClasses.1 ((holdsLast_classes store).mem hentry)
    rw [of_decide_eq_true hiri] at hmem
    exact hmem.2
  rw [← hisSome, Option.isSome_iff_exists]
  constructor
  · exact fun hc ↦ ⟨⟨c, hc⟩, hvalue c hc⟩
  · rintro ⟨⟨c', hc'⟩, rfl⟩
    rw [hc', hvalue c' hc']

theorem not_mem_vocabularyIris {iri : String} (h : iri ∈ classIris store) :
    iri ∉ vocabularyIris store := by
  intro hvocabulary
  have hclass := (List.mem_filter.1 h).2
  rw [(List.mem_filter.1 hvocabulary).2] at hclass
  cases hclass

/-- What the model finds as a class. -/
theorem class?_compiledModel {iri : String} {c : Class} :
    (compiledModel store).class? iri = some c ↔ FindsClass store iri ∧ c = classOf store iri := by
  have hproperties := entityAt_eq_none_iff (holdsLast_properties store) iri
  have hvocabularies := entityAt_eq_none_iff (holdsLast_vocabularies store) iri
  have hindividuals := entityAt_eq_none_iff (holdsLast_individuals store) iri
  rw [map_iri_compileProperties] at hproperties
  refine (inPlace_compiledProfiles store).class?_eq_some_iff.trans ?_
  rw [entityAt_classes_eq_some_iff, hproperties, hvocabularies, hindividuals]
  constructor
  · rintro ⟨⟨hkept, heq⟩, hproperty, -, hindividual⟩
    exact ⟨⟨hkept, hproperty, hindividual⟩, heq⟩
  · rintro ⟨⟨hkept, hproperty, hindividual⟩, heq⟩
    refine ⟨⟨hkept, heq⟩, hproperty, fun hvocabulary ↦ ?_, hindividual⟩
    have hmem := hvocabulary.mem
    rw [List.map_map, show Vocabulary.iri ∘ compileVocabulary store = id from rfl, List.map_id]
      at hmem
    exact not_mem_vocabularyIris (mem_keys_compiledClasses.1 hkept.mem) hmem

/-- What the model finds as a property. -/
theorem isSome_property?_compiledModel {iri : String} :
    ((compiledModel store).property? iri).isSome = true ↔ FindsProperty store iri := by
  have hproperties := (holdsLast_properties store).isSome_entityAt iri
  have hvocabularies := entityAt_eq_none_iff (holdsLast_vocabularies store) iri
  have hindividuals := entityAt_eq_none_iff (holdsLast_individuals store) iri
  rw [map_iri_compileProperties, Option.isSome_iff_exists] at hproperties
  rw [List.map_map, show Vocabulary.iri ∘ compileVocabulary store = id from rfl, List.map_id]
    at hvocabularies
  simp only [Option.isSome_iff_exists, compiledModel,
    (inPlace_compiledProfiles store).property?_eq_some_iff]
  constructor
  · rintro ⟨p, hp, hvocabulary, hindividual⟩
    exact ⟨hproperties.1 ⟨p, hp⟩, hvocabularies.1 hvocabulary, hindividuals.1 hindividual⟩
  · rintro ⟨hkept, hvocabulary, hindividual⟩
    obtain ⟨p, hp⟩ := hproperties.2 hkept
    exact ⟨p, hp, hvocabularies.2 hvocabulary, hindividuals.2 hindividual⟩

/-- The classes of the model are those that their profiles keep. -/
theorem mem_classes_compiledModel {c : Class} : c ∈ (compiledModel store).classes ↔
    ∃ iri, Kept (compiledClasses store).keys iri ∧ c = classOf store iri := by
  have hentry : c ∈ (compiledModel store).classes ↔
      ∃ place, entryAt Profile.classes (compiledProfiles store) place = some c := by
    simp only [Model.classes, List.mem_flatMap, SortedMap.mem_values]
    constructor
    · rintro ⟨profile, ⟨name, hname⟩, key, hkey⟩
      exact ⟨(name, key), (entryAt_of_get? hname key).trans hkey⟩
    · rintro ⟨⟨name, key⟩, hplace⟩
      cases hname : (compiledProfiles store).get? name with
      | none =>
        rw [entryAt, hname] at hplace
        cases hplace
      | some profile =>
        exact ⟨profile, ⟨name, hname⟩, key, (entryAt_of_get? hname key).symm.trans hplace⟩
  rw [hentry]
  constructor
  · rintro ⟨place, hplace⟩
    obtain rfl := (holdsLast_classes store).place hplace
    have hentity : entityAt Profile.classes Class.iri (compiledProfiles store) c.iri = some c :=
      Option.filter_eq_some_iff.2 ⟨hplace, decide_eq_true rfl⟩
    exact ⟨c.iri, entityAt_classes_eq_some_iff.1 hentity⟩
  · rintro ⟨iri, hiri⟩
    exact ⟨_, (Option.filter_eq_some_iff.1 (entityAt_classes_eq_some_iff.2 hiri)).1⟩

end

end OntoGraph.Ontology
