import OntoGraph.Ontology.Metadata
import OntoGraph.Proofs.Ontology.Compiled
import OntoGraph.Proofs.Ontology.ResolverRun

/-!
# Enriched models

Metadata add descriptions to the entities of a model and tell which classes are abstract. Where an
entity stands and how it is typed stays as it is, and so does every chain. An entity is found by its
IRI in the form that its profile holds, and the same metadata add nothing a second time.
-/

namespace OntoGraph.Ontology

/-! ## Entities and where they stand -/

structure Listed where
  profile : String
  name : String
  entity : Entity

def Profile.listed (p : Profile) (profile : String) : List Listed :=
  p.classes.toList.map (fun pair ↦ ⟨profile, pair.1, .ofClass pair.2⟩) ++
    p.properties.toList.map (fun pair ↦ ⟨profile, pair.1, .ofProperty pair.2⟩) ++
    p.vocabularies.toList.map (fun pair ↦ ⟨profile, pair.1, .ofVocabulary pair.2⟩) ++
    p.individuals.toList.map (fun pair ↦ ⟨profile, pair.1, .ofIndividual pair.2⟩)

def Model.listed (m : Model) : List Listed :=
  m.profiles.toList.flatMap fun pair ↦ pair.2.listed pair.1

def Model.lastListed? (m : Model) (iri : String) : Option Listed :=
  (m.listed.filter (·.entity.iri = iri)).getLast?

/-- What keeps the IRIs of entities keeps which of them is the last one with an IRI. -/
theorem getLast?_filter_map_listed {f : Listed → Listed}
    (hf : ∀ l, (f l).entity.iri = l.entity.iri) (items : List Listed) (iri : String) :
    ((items.map f).filter (·.entity.iri = iri)).getLast? =
      ((items.filter (·.entity.iri = iri)).getLast?).map f := by
  have hiri : (fun l : Listed ↦ decide ((f l).entity.iri = iri)) =
      fun l ↦ decide (l.entity.iri = iri) := by
    funext l
    rw [hf]
  rw [List.filter_map, Function.comp_def, hiri, List.getLast?_map]

theorem Profile.entities_eq_listed (p : Profile) (profile : String) :
    p.entities = (p.listed profile).map (·.entity) := by
  simp only [Profile.entities, Profile.listed, SortedMap.values, List.map_append, List.map_map]
  rfl

theorem Model.entities_eq_listed (m : Model) :
    m.profiles.values.flatMap Profile.entities = m.listed.map (·.entity) := by
  rw [Model.listed, List.map_flatMap, SortedMap.values, List.flatMap_map]
  congr 1
  funext pair
  exact pair.2.entities_eq_listed pair.1

/-- Models as they are made: compiled from an ontology, or of given profiles. -/
inductive Model.Built : Model → Prop where
  | compiled {store : Rdf.Store} {m : Model} (h : compile store = .ok m) : Built m
  | ofProfiles (info : OntologyInfo) (profiles : SortedMap Profile) :
    Built (.ofProfiles info profiles)

theorem Model.Built.index_eq {m : Model} (h : m.Built) : m.index = indexOf m.profiles := by
  cases h with
  | compiled hcompile =>
    obtain ⟨-, rfl⟩ := compile_eq_ok_iff.1 hcompile
    rfl
  | ofProfiles info profiles => rfl

/-- Of the entities with an IRI, the last one is found. -/
theorem Model.Built.entity?_eq {m : Model} (h : m.Built) (iri : String) :
    m.entity? iri = (m.lastListed? iri).map (·.entity) := by
  rw [entity?, h.index_eq, indexOf, m.entities_eq_listed, List.map_map]
  exact SortedMap.get?_ofList_map (fun l : Listed ↦ l.entity.iri) (·.entity) m.listed iri

/-! ## Typing -/

/-- An entity without what metadata say about it. -/
def Entity.typing : Entity → Entity
  | .ofClass c => .ofClass { c with description := none, isAbstract := false }
  | .ofProperty p => .ofProperty { p with description := none }
  | .ofVocabulary v => .ofVocabulary { v with description := none }
  | .ofIndividual i => .ofIndividual { i with description := none }

def Listed.typing (l : Listed) : Listed := { l with entity := l.entity.typing }

@[simp] theorem Entity.iri_typing (e : Entity) : e.typing.iri = e.iri := by
  cases e <;> rfl

/-- Do two models find entities of the same typing under every IRI? -/
def Model.SameTyping (m n : Model) : Prop :=
  ∀ iri, (m.entity? iri).map Entity.typing = (n.entity? iri).map Entity.typing

/-- The same typing of all entities in their order gives the same typing of those that are found. -/
theorem Model.Built.sameTyping {m n : Model} (hm : m.Built) (hn : n.Built)
    (h : m.listed.map Listed.typing = n.listed.map Listed.typing) : m.SameTyping n := by
  have hlast : ∀ o : Model, o.Built → ∀ iri, (o.entity? iri).map Entity.typing =
      (((o.listed.map Listed.typing).filter (·.entity.iri = iri)).getLast?).map (·.entity) := by
    intro o ho iri
    have hiri : ∀ l : Listed, l.typing.entity.iri = l.entity.iri := fun l ↦ l.entity.iri_typing
    rw [ho.entity?_eq, Model.lastListed?, getLast?_filter_map_listed hiri, Option.map_map,
      Option.map_map]
    rfl
  intro iri
  rw [hlast m hm, hlast n hn, h]

namespace Model.SameTyping

variable {m n : Model}

/-- The classes that are found differ at most in what metadata say. -/
theorem class? (h : m.SameTyping n) (iri : String) :
    (m.class? iri = none ∧ n.class? iri = none) ∨
      ∃ c d, m.class? iri = some c ∧ n.class? iri = some d ∧ d.link = c.link ∧
        d.subClassOf = c.subClassOf := by
  have hentity := h iri
  unfold Model.class?
  cases hm : m.entity? iri with
  | none =>
    rw [hm, Option.map_none] at hentity
    rw [Option.map_eq_none_iff.1 hentity.symm]
    exact .inl ⟨rfl, rfl⟩
  | some e =>
    rw [hm, Option.map_some] at hentity
    obtain ⟨f, hn, hf⟩ := Option.map_eq_some_iff.1 hentity.symm
    rw [hn]
    cases e <;> cases f <;> simp_all [Entity.typing, Class.link]

theorem size_index (h : m.SameTyping n) : m.index.size = n.index.size := by
  have hmap : m.index.mapValues (fun _ ↦ Entity.typing) =
      n.index.mapValues fun _ ↦ Entity.typing := by
    apply SortedMap.ext_get?
    intro iri
    simpa [Model.entity?] using h iri
  calc m.index.size
    _ = (m.index.mapValues fun _ ↦ Entity.typing).size := (List.length_map _).symm
    _ = (n.index.mapValues fun _ ↦ Entity.typing).size := by rw [hmap]
    _ = n.index.size := List.length_map _

/-- A walk up takes the same course in both models. -/
theorem chainFrom (h : m.SameTyping n) (fuel : Nat) (visited : List String) (iri : String) :
    m.chainFrom fuel visited iri = n.chainFrom fuel visited iri := by
  induction fuel generalizing visited iri with
  | zero =>
    unfold Model.chainFrom
    rcases h.class? iri with ⟨hm, hn⟩ | ⟨c, d, hm, hn, hlink, hparent⟩
    · rw [hm, hn]
    · obtain ⟨hiri, hname, hproperties⟩ := ChainLink.mk.inj hlink
      rw [hm, hn]
      dsimp only
      rw [hiri, hname, hproperties, hparent]
      cases c.subClassOf <;> rfl
  | succ fuel ih =>
    unfold Model.chainFrom
    rcases h.class? iri with ⟨hm, hn⟩ | ⟨c, d, hm, hn, hlink, hparent⟩
    · rw [hm, hn]
    · obtain ⟨hiri, hname, hproperties⟩ := ChainLink.mk.inj hlink
      rw [hm, hn]
      dsimp only
      rw [hiri, hname, hproperties, hparent]
      cases c.subClassOf with
      | none => rfl
      | some parent => simp only [ih]

theorem chain (h : m.SameTyping n) (iri : String) : m.chain iri = n.chain iri := by
  rw [Model.chain, Model.chain, h.size_index, h.chainFrom]

end Model.SameTyping

/-! ## Resolving -/

def Entity.class? : Entity → Option Class
  | .ofClass c => some c
  | _ => none

theorem Model.classes_eq_listed (m : Model) : m.classes = m.listed.filterMap (·.entity.class?) := by
  have hprofile : ∀ (p : Profile) (profile : String),
      (p.listed profile).filterMap (·.entity.class?) = p.classes.values := by
    intro p profile
    simp only [Profile.listed, List.filterMap_append, List.filterMap_map, Function.comp_def,
      Entity.class?, List.filterMap_eq_map', List.filterMap_none, List.append_nil, SortedMap.values]
  rw [Model.listed, List.filterMap_flatMap, Model.classes, SortedMap.values, List.flatMap_map]
  congr 1
  funext pair
  exact (hprofile pair.2 pair.1).symm

theorem Model.iris_classes_eq {m n : Model}
    (h : m.listed.map Listed.typing = n.listed.map Listed.typing) :
    m.classes.map (·.iri) = n.classes.map (·.iri) := by
  have hlisted : ∀ o : Model, o.classes.map (·.iri) =
      (o.listed.map Listed.typing).filterMap fun l ↦ l.entity.class?.map (·.iri) := by
    intro o
    rw [o.classes_eq_listed, List.map_filterMap, List.filterMap_map]
    congr 1
    funext l
    rcases l with ⟨profile, name, entity⟩
    cases entity <;> rfl
  rw [hlisted, hlisted, h]

namespace Resolver

/-- Models with the same typing are answered for alike, whatever is asked and whatever is
remembered. -/
theorem answers_eq_of_typing {m n : Model} (hm : m.Built) (hn : n.Built)
    (h : m.listed.map Listed.typing = n.listed.map Listed.typing) (calls : List Call) :
    (Resolver.mk m ∅).answers calls = (Resolver.mk n ∅).answers calls := by
  have htyping := hm.sameTyping hn h
  have hchain : m.chain = n.chain := funext htyping.chain
  rw [(sound_of_empty m).answers_eq, (sound_of_empty n).answers_eq]
  induction calls with
  | nil => rfl
  | cons c calls ih =>
    cases c with
    | replaceModel model => rfl
    | warm =>
      have hwarm : ∀ o : Model, (o.classes.mapM fun c ↦ o.chain c.iri) =
          (o.classes.map (·.iri)).mapM o.chain := by
        intro o
        rw [List.mapM_map]
        rfl
      rw [answersFrom, answersFrom, Call.answerFrom, Call.answerFrom, hwarm, hwarm, hchain,
        Model.iris_classes_eq h]
      exact congrArg _ ih
    | _ =>
      rw [answersFrom, answersFrom, Call.answerFrom, Call.answerFrom, hchain]
      exact congrArg _ ih

end Resolver

/-! ## What metadata say about entities -/

def ProfileMetadata.items (m : ProfileMetadata) : Entity → SortedMap ItemMetadata
  | .ofClass _ => m.classes
  | .ofProperty _ => m.properties
  | .ofVocabulary _ => m.vocabularies
  | .ofIndividual _ => m.individuals

/-- What metadata say about an entity: the first item with its name, in the first profile with the
name of its profile. -/
def Metadata.item? (m : Metadata) (l : Listed) : Option ItemMetadata :=
  (m.profile? l.profile).bind fun found ↦ itemNamed? (found.items l.entity) l.name

def Entity.describe (item : ItemMetadata) : Entity → Entity
  | .ofClass c => .ofClass { c with description := item.description, isAbstract := item.isAbstract }
  | .ofProperty p => .ofProperty { p with description := item.description }
  | .ofVocabulary v => .ofVocabulary { v with description := item.description }
  | .ofIndividual i => .ofIndividual { i with description := item.description }

def Listed.enrich (m : Metadata) (l : Listed) : Listed :=
  { l with entity := ((m.item? l).map fun item ↦ l.entity.describe item).getD l.entity }

theorem Listed.enrich_of_none {m : Metadata} {l : Listed} (h : m.item? l = none) :
    l.enrich m = l := by
  rw [Listed.enrich, h, Option.map_none, Option.getD_none]

@[simp]
theorem Listed.typing_enrich (m : Metadata) (l : Listed) : (l.enrich m).typing = l.typing := by
  unfold Listed.enrich
  cases m.item? l with
  | none => rfl
  | some item =>
    rcases l with ⟨profile, name, entity⟩
    cases entity <;> rfl

/-! ## Enriching -/

/-- The profile of a name, enriched if the metadata have one with that name. -/
def Metadata.enrichProfile (m : Metadata) (name : String) (p : Profile) : Profile :=
  match m.profile? name with
  | some found => p.enrich found
  | none => p

theorem Model.enrich_eq (model : Model) (m : Metadata) :
    model.enrich m = .ofProfiles model.info (model.profiles.mapValues m.enrichProfile) := rfl

/-- The entities of one kind are enriched where they stand. -/
theorem listed_enrichEach {α : Type} {m : Metadata} {found : ProfileMetadata} {name : String}
    (hfound : m.profile? name = some found) (wrap : α → Entity) (items : SortedMap ItemMetadata)
    (f : α → ItemMetadata → α) (entities : SortedMap α)
    (hitems : ∀ x, found.items (wrap x) = items)
    (hdescribe : ∀ x item, (wrap x).describe item = wrap (f x item)) :
    (enrichEach items f entities).toList.map (fun pair ↦ Listed.mk name pair.1 (wrap pair.2)) =
      (entities.toList.map fun pair ↦ Listed.mk name pair.1 (wrap pair.2)).map
        (Listed.enrich m) := by
  rw [enrichEach, SortedMap.mapValues, List.map_map, List.map_map]
  congr 1
  funext pair
  have hitem : m.item? ⟨name, pair.1, wrap pair.2⟩ = itemNamed? items pair.1 := by
    rw [Metadata.item?, hfound, Option.bind_some, hitems]
  rw [Function.comp_apply, Function.comp_apply, Listed.enrich, hitem]
  cases itemNamed? items pair.1 with
  | none => rfl
  | some item => exact congrArg (Listed.mk name pair.1) (hdescribe pair.2 item).symm

theorem Profile.profile_of_mem_listed {p : Profile} {name : String} {l : Listed}
    (h : l ∈ p.listed name) : l.profile = name := by
  simp only [Profile.listed, List.mem_append, List.mem_map] at h
  rcases h with ((⟨_, _, rfl⟩ | ⟨_, _, rfl⟩) | ⟨_, _, rfl⟩) | ⟨_, _, rfl⟩
  all_goals rfl

theorem Metadata.listed_enrichProfile (m : Metadata) (name : String) (p : Profile) :
    (m.enrichProfile name p).listed name = (p.listed name).map (Listed.enrich m) := by
  unfold Metadata.enrichProfile
  cases hfound : m.profile? name with
  | none =>
    calc p.listed name
      _ = (p.listed name).map id := (List.map_id _).symm
      _ = (p.listed name).map (Listed.enrich m) := by
        apply List.map_congr_left
        intro l hl
        symm
        apply Listed.enrich_of_none
        rw [Metadata.item?, Profile.profile_of_mem_listed hl, hfound, Option.bind_none]
  | some found =>
    simp only [Profile.listed, Profile.enrich, List.map_append]
    rw [listed_enrichEach hfound .ofClass, listed_enrichEach hfound .ofProperty,
      listed_enrichEach hfound .ofVocabulary, listed_enrichEach hfound .ofIndividual]
    all_goals
      intros
      rfl

@[simp] theorem Model.listed_enrich (model : Model) (m : Metadata) :
    (model.enrich m).listed = model.listed.map (Listed.enrich m) := by
  rw [Model.listed, Model.listed, List.map_flatMap, Model.enrich_eq, Model.ofProfiles]
  dsimp only
  rw [SortedMap.mapValues, List.flatMap_map]
  congr 1
  funext pair
  exact m.listed_enrichProfile pair.1 pair.2

@[simp] theorem Listed.iri_enrich (m : Metadata) (l : Listed) :
    (l.enrich m).entity.iri = l.entity.iri := by
  have htyping := congrArg (fun l : Listed ↦ l.entity.iri) (l.typing_enrich m)
  simpa only [Listed.typing, Entity.iri_typing] using htyping

/-- The last entity with an IRI is still the last one. -/
@[simp] theorem Model.lastListed?_enrich (model : Model) (m : Metadata) (iri : String) :
    (model.enrich m).lastListed? iri = (model.lastListed? iri).map (Listed.enrich m) := by
  rw [Model.lastListed?, Model.listed_enrich, getLast?_filter_map_listed (Listed.iri_enrich m),
    Model.lastListed?]

theorem Model.typing_enrich (model : Model) (m : Metadata) :
    (model.enrich m).listed.map Listed.typing = model.listed.map Listed.typing := by
  rw [Model.listed_enrich, List.map_map]
  congr 1
  funext l
  exact l.typing_enrich m

/-! ## Enriching twice -/

theorem enrichEach_enrichEach {α : Type} (items : SortedMap ItemMetadata)
    {f : α → ItemMetadata → α} (hf : ∀ x item, f (f x item) item = f x item)
    (entities : SortedMap α) :
    enrichEach items f (enrichEach items f entities) = enrichEach items f entities := by
  apply SortedMap.ext_get?
  intro key
  unfold enrichEach
  rw [SortedMap.get?_mapValues, SortedMap.get?_mapValues, Option.map_map]
  congr 1
  funext x
  rw [Function.comp_apply]
  cases itemNamed? items key with
  | none => rfl
  | some item => exact hf x item

@[simp] theorem Profile.enrich_enrich (p : Profile) (m : ProfileMetadata) :
    (p.enrich m).enrich m = p.enrich m := by
  unfold Profile.enrich
  dsimp only
  rw [enrichEach_enrichEach, enrichEach_enrichEach, enrichEach_enrichEach, enrichEach_enrichEach]
  · cases m.iri <;> rfl
  all_goals exact fun _ _ ↦ rfl

@[simp] theorem Metadata.enrichProfile_enrichProfile (m : Metadata) (name : String) (p : Profile) :
    m.enrichProfile name (m.enrichProfile name p) = m.enrichProfile name p := by
  unfold Metadata.enrichProfile
  cases m.profile? name with
  | none => rfl
  | some found => exact p.enrich_enrich found

@[simp] theorem Model.enrich_again (model : Model) (m : Metadata) :
    (model.enrich m).enrich m = model.enrich m := by
  rw [Model.enrich_eq, Model.enrich_eq]
  apply congrArg (Model.ofProfiles model.info)
  apply SortedMap.ext_get?
  intro name
  rw [SortedMap.get?_mapValues, Model.ofProfiles, SortedMap.get?_mapValues, Option.map_map]
  congr 1
  funext p
  exact m.enrichProfile_enrichProfile name p

/-! ## What enriching leaves -/

/-- What enriching a model leaves as it is, and how the rest is found. -/
structure Model.EnrichedTo (model : Model) (m : Metadata) (enriched : Model) : Prop where
  info : enriched.info = model.info
  profiles : enriched.profiles.keys = model.profiles.keys
  /-- The same entities stand in the same places, and differ at most in their descriptions and in
  whether they are abstract. -/
  typing : enriched.listed.map Listed.typing = model.listed.map Listed.typing
  /-- Every resolver gives the same answers, whatever it is asked and whatever it remembers. -/
  answers : ∀ calls, (Resolver.mk enriched ∅).answers calls = (Resolver.mk model ∅).answers calls
  chain : ∀ iri, enriched.chain iri = model.chain iri
  /-- A profile that the metadata do not name is left alone, and one for which they have no IRI
  keeps its own, with its name. -/
  profile_unnamed : ∀ name, m.profile? name = none →
    enriched.profiles.get? name = model.profiles.get? name
  profile_iri : ∀ name p, model.profiles.get? name = some p →
    (∀ found, m.profile? name = some found → found.iri = none) →
      ∃ q, enriched.profiles.get? name = some q ∧ q.iri = p.iri ∧ q.name = p.name
  /-- So is an entity that the metadata do not name. -/
  unnamed : ∀ l ∈ model.listed, m.item? l = none → l ∈ enriched.listed
  /-- Under an IRI the same entity is found as before, in the form in which its profile holds it
  now. -/
  found : ∀ iri, model.entity? iri = (model.lastListed? iri).map (·.entity) ∧
    enriched.entity? iri = (model.lastListed? iri).map fun l ↦ (l.enrich m).entity
  held : ∀ l ∈ model.listed, l.enrich m ∈ enriched.listed
  reindexed : enriched.index = indexOf enriched.profiles
  again : enriched.enrich m = enriched

/-- Enriching a model changes descriptions and abstract classes, and nothing that chains, lookups
or a second enriching could tell. -/
theorem Model.enrichedTo_enrich {model : Model} (h : model.Built) (m : Metadata) :
    model.EnrichedTo m (model.enrich m) := by
  have hbuilt : (model.enrich m).Built := .ofProfiles _ _
  have htyping := model.typing_enrich m
  have hget : ∀ name, (model.enrich m).profiles.get? name =
      (model.profiles.get? name).map (m.enrichProfile name) :=
    SortedMap.get?_mapValues model.profiles m.enrichProfile
  have hheld : ∀ l ∈ model.listed, l.enrich m ∈ (model.enrich m).listed := by
    intro l hl
    rw [model.listed_enrich]
    exact List.mem_map_of_mem hl
  constructor
  case info => rfl
  case profiles =>
    rw [Model.enrich_eq, Model.ofProfiles]
    exact List.map_map
  case typing => exact htyping
  case answers => exact Resolver.answers_eq_of_typing hbuilt h htyping
  case chain => exact (hbuilt.sameTyping h htyping).chain
  case profile_unnamed =>
    intro name hname
    have hkeep : m.enrichProfile name = id := by
      funext p
      rw [Metadata.enrichProfile, hname, id]
    rw [hget, hkeep, Option.map_id, id]
  case profile_iri =>
    intro name p hp hnone
    refine ⟨m.enrichProfile name p, by rw [hget, hp, Option.map_some], ?_⟩
    unfold Metadata.enrichProfile
    cases hfound : m.profile? name with
    | none => exact ⟨rfl, rfl⟩
    | some found =>
      dsimp only [Profile.enrich]
      rw [hnone found hfound]
      exact ⟨rfl, rfl⟩
  case unnamed =>
    intro l hl hitem
    rw [← Listed.enrich_of_none hitem]
    exact hheld l hl
  case found =>
    intro iri
    refine ⟨h.entity?_eq iri, ?_⟩
    rw [hbuilt.entity?_eq, model.lastListed?_enrich, Option.map_map]
    rfl
  case held => exact hheld
  case reindexed => rfl
  case again => exact model.enrich_again m

def elementClass : Class where
  iri := "https://x/Core/Element"
  name := "Element"
  profileName := "Core"

def lampClass : Class where
  iri := "https://x/Core/Lamp"
  name := "Lamp"
  profileName := "Core"
  description := some "Gives light."
  subClassOf := some "https://x/Core/Element"

def galleryModel : Model :=
  .ofProfiles {} <| .ofList
    [("Core", { classes := .ofList [("Element", elementClass), ("Lamp", lampClass)] })]

/-- Metadata that name the first class only. -/
def galleryMetadata : Metadata where
  profiles := .ofList [("core",
    { name := "Core"
      classes := .ofList [("element", { name := "Element", isAbstract := true })] })]

/-- The one class becomes abstract, the other one and its chain stay. -/
theorem enrichedTo_gallery :
    galleryModel.EnrichedTo galleryMetadata (galleryModel.enrich galleryMetadata) ∧
      ((galleryModel.enrich galleryMetadata).class? "https://x/Core/Element").map (·.isAbstract) =
        some true ∧
      (galleryModel.enrich galleryMetadata).class? "https://x/Core/Lamp" =
        galleryModel.class? "https://x/Core/Lamp" ∧
      ((galleryModel.enrich galleryMetadata).chain "https://x/Core/Lamp").map Chain.iris =
        .ok ["https://x/Core/Lamp", "https://x/Core/Element"] := by
  have hbuilt : galleryModel.Built := .ofProfiles _ _
  have henriched := Model.enrichedTo_enrich hbuilt galleryMetadata
  refine ⟨henriched, by decide +kernel, by decide +kernel, ?_⟩
  rw [henriched.chain]
  decide +kernel

end OntoGraph.Ontology
