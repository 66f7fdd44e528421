import OntoGraph.Document.Export
import OntoGraph.Proofs.Document.DerivedContext
import OntoGraph.Proofs.Ontology.Compiled

/-!
# The names of entities

The term of a class or a property is made of its profile and its name, and so it is told from its
IRI. A derived context keeps for each IRI the term that came first, which is always this one, and
for each term the definition that came first. Where two entities share a term, the second is named
by the term that stands for the first. So the names are unambiguous exactly if no two entities
share a term.
-/

namespace OntoGraph.Document.TermContext

open Ontology

/-! ## What comes first -/

def profileTerms (model : Model) (name : String) (profile : Profile) :
    List (String × TermDefinition) :=
  profile.classes.values.map (fun c ↦ (termName name c.name, { iri := c.iri })) ++
    profile.properties.values.map fun p ↦ (termName name p.name, definitionOf model p)

def entityTerms (model : Model) : List (String × TermDefinition) :=
  model.profiles.toList.flatMap fun pair ↦ profileTerms model pair.1 pair.2

/-- Does the context hold for each term, and for each IRI, what comes first in a list? -/
structure HoldsFirst (c : TermContext) (pairs : List (String × TermDefinition)) : Prop where
  terms : ∀ term, c.term? term = (pairs.find? (·.1 = term)).map (·.2)
  iris : ∀ iri, c.termsByIri.get? iri = (pairs.find? (·.2.iri = iri)).map (·.1)

section

variable {c : TermContext} {pairs : List (String × TermDefinition)}

theorem HoldsFirst.define (h : HoldsFirst c pairs) (term : String) (definition : TermDefinition) :
    HoldsFirst (c.define term definition) (pairs ++ [(term, definition)]) := by
  constructor
  case terms =>
    intro other
    rw [term?_define, List.find?_append, h.terms, h.terms]
    by_cases heq : other = term
    · subst heq
      cases pairs.find? (·.1 = other) <;> simp
    · cases pairs.find? (·.1 = other) <;> simp [heq, Ne.symm heq]
  case iris =>
    intro iri
    have hindex : (c.define term definition).termsByIri.get? iri = _ :=
      SortedMap.get?_insertIfNew c.termsByIri definition.iri term iri
    rw [hindex, List.find?_append, h.iris, h.iris]
    by_cases heq : iri = definition.iri
    · subst heq
      cases pairs.find? (·.2.iri = definition.iri) <;> simp
    · cases pairs.find? (·.2.iri = iri) <;> simp [heq, Ne.symm heq]

theorem HoldsFirst.foldl {α : Type} (h : HoldsFirst c pairs) (term : α → String)
    (definition : α → TermDefinition) (items : List α) :
    HoldsFirst (items.foldl (fun c x ↦ c.define (term x) (definition x)) c)
      (pairs ++ items.map fun x ↦ (term x, definition x)) := by
  induction items generalizing c pairs with
  | nil => rwa [List.map_nil, List.append_nil]
  | cons x items ih =>
    have hnext := ih (h.define (term x) (definition x))
    rwa [List.append_assoc] at hnext

/-- Namespaces have no part in what terms stand for. -/
theorem HoldsFirst.withNamespaces (h : HoldsFirst c pairs) (namespaces : SortedMap String) :
    HoldsFirst { c with namespaces } pairs :=
  ⟨h.terms, h.iris⟩

theorem HoldsFirst.addProfile (h : HoldsFirst c pairs) (model : Model) (name : String)
    (profile : Profile) :
    HoldsFirst (c.addProfile model name profile) (pairs ++ profileTerms model name profile) := by
  unfold TermContext.addProfile profileTerms
  rw [← List.append_assoc]
  apply HoldsFirst.foldl
  apply HoldsFirst.foldl
  split
  · exact h.withNamespaces _
  · exact h

end

/-- A derived context holds what comes first among the entities of its model. -/
theorem holdsFirst_ofModel (model : Model) : HoldsFirst (ofModel model) (entityTerms model) := by
  have hall : ∀ (profiles : List (String × Profile)) (c : TermContext)
      (pairs : List (String × TermDefinition)), HoldsFirst c pairs →
        HoldsFirst (profiles.foldl (fun c pair ↦ c.addProfile model pair.1 pair.2) c)
          (pairs ++ profiles.flatMap fun pair ↦ profileTerms model pair.1 pair.2) := by
    intro profiles
    induction profiles with
    | nil =>
      intro c pairs h
      rwa [List.flatMap_nil, List.append_nil]
    | cons pair profiles ih =>
      intro c pairs h
      rw [List.flatMap_cons, ← List.append_assoc]
      exact ih _ _ (h.addProfile model pair.1 pair.2)
  exact hall model.profiles.toList _ [] ⟨fun _ ↦ rfl, fun _ ↦ rfl⟩

/-! ## The terms of a compiled model -/

/-- The term of the class or the property with an IRI. -/
def termOf (iri : String) : String := termName (parentSegment iri) (lastSegment iri)

def entityIris (model : Model) : List String :=
  model.profiles.toList.flatMap fun pair ↦
    pair.2.classes.values.map (·.iri) ++ pair.2.properties.values.map (·.iri)

@[simp]
theorem iri_definitionOf (model : Model) (p : Property) : (definitionOf model p).iri = p.iri := by
  unfold definitionOf
  split
  · split <;> rfl
  · rfl

theorem map_iri_entityTerms (model : Model) :
    (entityTerms model).map (·.2.iri) = entityIris model := by
  have hprofile (name : String) (profile : Profile) :
      (profileTerms model name profile).map (·.2.iri) =
        profile.classes.values.map (·.iri) ++ profile.properties.values.map (·.iri) := by
    simp only [profileTerms, List.map_append, List.map_map, Function.comp_def, iri_definitionOf]
  simp only [entityTerms, entityIris, List.map_flatMap, hprofile]

variable {store : Rdf.Store} {m : Model} {iri : String}

/-- In a compiled model every entity has the term that its IRI tells. -/
theorem term_of_mem_entityTerms {pair : String × TermDefinition}
    (h : pair ∈ entityTerms (compiledModel store)) : pair.1 = termOf pair.2.iri := by
  obtain ⟨⟨name, profile⟩, hprofile, hpair⟩ := List.mem_flatMap.1 h
  have hget : (compiledProfiles store).get? name = some profile :=
    SortedMap.get?_eq_some_iff.2 hprofile
  rcases List.mem_append.1 hpair with hpair | hpair
  · obtain ⟨c, hc, rfl⟩ := List.mem_map.1 hpair
    obtain ⟨key, hkey⟩ := SortedMap.mem_values.1 hc
    have hentry : entryAt Profile.classes (compiledProfiles store) (name, key) = some c :=
      (entryAt_of_get? hget key).trans hkey
    have hprofileName : parentSegment c.iri = name :=
      congrArg Prod.fst ((holdsLast_classes store).place hentry)
    have hname : c.name = lastSegment c.iri :=
      congrArg Class.name (mem_values_compiledClasses.1 ((holdsLast_classes store).mem hentry)).2
    rw [termOf, hprofileName, hname]
  · obtain ⟨p, hp, rfl⟩ := List.mem_map.1 hpair
    obtain ⟨key, hkey⟩ := SortedMap.mem_values.1 hp
    have hentry : entryAt Profile.properties (compiledProfiles store) (name, key) = some p :=
      (entryAt_of_get? hget key).trans hkey
    have hprofileName : parentSegment p.iri = name :=
      congrArg Prod.fst ((holdsLast_properties store).place hentry)
    have hname : p.name = lastSegment p.iri := by
      obtain ⟨iri, hiri⟩ := SortedMap.mem_values.1 ((holdsLast_properties store).mem hentry)
      obtain ⟨kind, rfl⟩ := exists_kind_of_get? hiri
      rfl
    rw [iri_definitionOf, termOf, hprofileName, hname]

/-- An entity of a compiled model is named by its term. -/
theorem termsByIri_compiledModel (h : iri ∈ entityIris (compiledModel store)) :
    (ofModel (compiledModel store)).termsByIri.get? iri = some (termOf iri) := by
  rw [(holdsFirst_ofModel _).iris]
  rw [← map_iri_entityTerms] at h
  cases hfind : (entityTerms (compiledModel store)).find? (·.2.iri = iri) with
  | none =>
    obtain ⟨pair, hpair, hiri⟩ := List.mem_map.1 h
    exact absurd (decide_eq_true hiri) (List.find?_eq_none.1 hfind pair hpair)
  | some pair =>
    have hiri : pair.2.iri = iri := by simpa using List.find?_some hfind
    rw [Option.map_some, term_of_mem_entityTerms (List.mem_of_find?_eq_some hfind), hiri]

/-- A term of a compiled model stands for the first entity that has it. -/
theorem term?_compiledModel (store : Rdf.Store) (term : String) :
    ((ofModel (compiledModel store)).term? term).map (·.iri) =
      (entityIris (compiledModel store)).find? (termOf · = term) := by
  have hsame : (entityTerms (compiledModel store)).find? (·.1 = term) =
      (entityTerms (compiledModel store)).find? (termOf ·.2.iri = term) := by
    rw [← List.head?_filter, ← List.head?_filter]
    apply congrArg List.head?
    apply List.filter_congr
    intro pair hpair
    rw [term_of_mem_entityTerms hpair]
  rw [(holdsFirst_ofModel _).terms, hsame, ← map_iri_entityTerms, List.find?_map, Option.map_map]
  rfl

/-- How an entity of a compiled model is named, in documents too: by its term, which stands for the
first entity that has it. -/
theorem named_compiledModel (h : iri ∈ entityIris (compiledModel store)) :
    let c := ofModel (compiledModel store)
    ∃ definition, c.termFor? iri = some (termOf iri, definition) ∧ c.compactIri iri = termOf iri ∧
      predicateKey c iri = (termOf iri, some definition) ∧
      c.expandIri (termOf iri) = definition.iri ∧
      (entityIris (compiledModel store)).find? (termOf · = termOf iri) = some definition.iri := by
  intro c
  have hterm : c.termsByIri.get? iri = some (termOf iri) := termsByIri_compiledModel h
  have hfirst := term?_compiledModel store (termOf iri)
  cases hdefinition : c.term? (termOf iri) with
  | none =>
    rw [hdefinition] at hfirst
    have hnone := List.find?_eq_none.1 hfirst.symm iri h
    exact absurd (decide_eq_true rfl) hnone
  | some definition =>
    rw [hdefinition] at hfirst
    have htermFor : c.termFor? iri = some (termOf iri, definition) := by
      rw [termFor?, hterm, Option.bind_some, hdefinition, Option.map_some]
    refine ⟨definition, htermFor, ?_, ?_, expandIri_of_term hdefinition, hfirst.symm⟩
    · rw [compactIri, hterm]
    · rw [predicateKey, htermFor]

/-- In a context derived from a compiled model every class and every property is named by its term
wherever a document names it, and the term is read as the first class or property that has it. All
of them are found under their own definitions and are read back from their names exactly if no two
of them share a term. -/
theorem names_ofModel_iff (h : compile store = .ok m) :
    let c := ofModel m
    (∀ iri ∈ entityIris m, ∃ definition, c.termFor? iri = some (termOf iri, definition) ∧
      c.compactIri iri = termOf iri ∧ predicateKey c iri = (termOf iri, some definition) ∧
      c.expandIri (termOf iri) = definition.iri ∧
      (entityIris m).find? (termOf · = termOf iri) = some definition.iri) ∧
    ((∀ iri ∈ entityIris m,
      (∃ term definition, c.termFor? iri = some (term, definition) ∧ definition.iri = iri) ∧
        c.expandIri (c.compactIri iri) = iri) ↔
      ∀ a ∈ entityIris m, ∀ b ∈ entityIris m, termOf a = termOf b → a = b) := by
  obtain ⟨-, rfl⟩ := compile_eq_ok_iff.1 h
  intro c
  refine ⟨fun iri hiri ↦ named_compiledModel hiri, ?_, ?_⟩
  · intro hback a ha b hb hsame
    obtain ⟨-, -, hcompactA, -⟩ := named_compiledModel ha
    obtain ⟨-, -, hcompactB, -⟩ := named_compiledModel hb
    calc a = c.expandIri (c.compactIri a) := (hback a ha).2.symm
      _ = c.expandIri (c.compactIri b) := by rw [hcompactA, hcompactB, hsame]
      _ = b := (hback b hb).2
  · intro hapart iri hiri
    obtain ⟨definition, htermFor, hcompact, -, hexpand, hfirst⟩ := named_compiledModel hiri
    have hshared : termOf definition.iri = termOf iri := by simpa using List.find?_some hfirst
    have hown : definition.iri = iri :=
      hapart _ (List.mem_of_find?_eq_some hfirst) iri hiri hshared
    refine ⟨⟨_, definition, htermFor, hown⟩, ?_⟩
    rw [hcompact, hexpand, hown]

/-- An ontology in which two profiles have a property of the same name. -/
def trainingOntology : Rdf.Store :=
  .ofList [
    ⟨.iri "https://x/Core/Agent", Rdf.rdfType, .iri Rdf.owlClass⟩,
    ⟨.iri "https://x/Core/model", Rdf.rdfType, .iri Rdf.owlDatatypeProperty⟩,
    ⟨.iri "https://x/AI/model", Rdf.rdfType, .iri Rdf.owlObjectProperty⟩]

theorem names_ofModel_training : ∃ m, compile trainingOntology = .ok m ∧
    entityIris m = ["https://x/AI/model", "https://x/Core/Agent", "https://x/Core/model"] ∧
    ∀ iri ∈ entityIris m,
      (∃ term definition, (ofModel m).termFor? iri = some (term, definition) ∧
        definition.iri = iri) ∧ (ofModel m).expandIri ((ofModel m).compactIri iri) = iri := by
  have hchecks : cycle? (compiledClasses trainingOntology) = none ∧
      entityIris (compiledModel trainingOntology) =
        ["https://x/AI/model", "https://x/Core/Agent", "https://x/Core/model"] ∧
      ∀ a ∈ entityIris (compiledModel trainingOntology),
        ∀ b ∈ entityIris (compiledModel trainingOntology), termOf a = termOf b → a = b := by
    decide +kernel
  obtain ⟨hcycle, hiris, hapart⟩ := hchecks
  have hcompile : compile trainingOntology = .ok (compiledModel trainingOntology) :=
    compile_eq_ok_iff.2 ⟨hcycle, rfl⟩
  exact ⟨_, hcompile, hiris, (names_ofModel_iff hcompile).2.2 hapart⟩

/-- An ontology in which a name of the core looks like a name of another profile. -/
def lookalikeOntology : Rdf.Store :=
  .ofList [
    ⟨.iri "https://x/Core/ai_model", Rdf.rdfType, .iri Rdf.owlDatatypeProperty⟩,
    ⟨.iri "https://x/AI/model", Rdf.rdfType, .iri Rdf.owlObjectProperty⟩]

/-- The property of the core is named, and exported, by the term of the other one. -/
theorem not_unambiguous_lookalike : ∃ m, compile lookalikeOntology = .ok m ∧
    "https://x/Core/ai_model" ∈ entityIris m ∧ "https://x/AI/model" ∈ entityIris m ∧
      (ofModel m).termFor? "https://x/Core/ai_model" =
        some ("ai_model", { iri := "https://x/AI/model", coercion := some .id }) ∧
      (predicateKey (ofModel m) "https://x/Core/ai_model").1 = "ai_model" ∧
      (predicateKey (ofModel m) "https://x/AI/model").1 = "ai_model" ∧
      (ofModel m).expandIri ((ofModel m).compactIri "https://x/Core/ai_model") =
        "https://x/AI/model" := by
  have hchecks : cycle? (compiledClasses lookalikeOntology) = none ∧
      "https://x/Core/ai_model" ∈ entityIris (compiledModel lookalikeOntology) ∧
      "https://x/AI/model" ∈ entityIris (compiledModel lookalikeOntology) ∧
      (ofModel (compiledModel lookalikeOntology)).termFor? "https://x/Core/ai_model" =
        some ("ai_model", { iri := "https://x/AI/model", coercion := some .id }) := by
    decide +kernel
  obtain ⟨hcycle, hcore, hother, htermFor⟩ := hchecks
  have hterms : termOf "https://x/Core/ai_model" = "ai_model" ∧
      termOf "https://x/AI/model" = "ai_model" := by
    decide +kernel
  obtain ⟨definition, hfound, hcompact, hkey, hexpand, -⟩ := named_compiledModel hcore
  obtain ⟨_, -, -, hotherKey, -⟩ := named_compiledModel hother
  rw [htermFor] at hfound
  cases hfound
  refine ⟨_, compile_eq_ok_iff.2 ⟨hcycle, rfl⟩, hcore, hother, htermFor, ?_, ?_, ?_⟩
  · rw [hkey]
    exact hterms.1
  · rw [hotherKey]
    exact hterms.2
  · rw [hcompact, hexpand]

end OntoGraph.Document.TermContext
