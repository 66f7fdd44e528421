import OntoGraph.Proofs.Ontology.Chain
import OntoGraph.Proofs.Session.Run
import OntoGraph.Proofs.SortedMap

/-!
# The media types of a session

A table of media types narrows the values of the properties that the model of that time declares
for media types. Whatever the session does then, a value of such a property is valid only if it is
in a table that was taken for the property. The table says nothing of properties that only a later
model declares for media types: their values may be any media types until a table is taken again.
-/

namespace OntoGraph.Catalog.OptionCatalog

open Ontology

variable {c : OptionCatalog} {path text : String} {options : List ValueOption}

/-- A path has options exactly if some text is the value of one. -/
theorem hasOptions_iff : c.hasOptions path = true ↔ ∃ text, c.contains path text = true := by
  unfold hasOptions contains
  cases c.options path with
  | nil => simp
  | cons option rest => simp

theorem contains_extend {other : String} : (c.extend other options).contains path text = true ↔
    c.contains path text = true ∨ path = other ∧ ∃ option ∈ options, option.value = text := by
  have hoptions : (c.extend other options).options path =
      if path = other then c.options other ++ options else c.options path := by
    by_cases hpath : path = other <;> simp [OptionCatalog.options, extend, hpath]
  unfold contains
  rw [hoptions]
  by_cases hpath : path = other
  · subst hpath
    simp
  · simp [hpath]

/-- The same options for several paths belong to each of them. -/
theorem contains_foldl_extend (paths : List String) :
    (paths.foldl (fun c path ↦ c.extend path options) c).contains path text = true ↔
      c.contains path text = true ∨ path ∈ paths ∧ ∃ option ∈ options, option.value = text := by
  induction paths generalizing c with
  | nil => simp
  | cons other paths ih =>
    rw [List.foldl_cons, ih, contains_extend, List.mem_cons, or_and_right, or_assoc]

end OntoGraph.Catalog.OptionCatalog

namespace OntoGraph.Session

open Ontology OntoGraph.Graph Document Settings Catalog InstanceGraph

/-! ## Tables that were taken -/

/-- The options of a table, with the model that the session had when it took the table. -/
structure Load where
  model : Model
  options : List ValueOption

def loadOf (s : Session) : Step → List Load
  | .loadMediaTypes table =>
    match readMediaTypes table with
    | .ok options => [⟨s.graph.model, options⟩]
    | .error _ => []
  | _ => []

/-- The tables that a run takes, first one first. -/
def loadsAlong (s : Session) : List Step → List Load
  | [] => []
  | step :: steps => s.loadOf step ++ (s.perform step).loadsAlong steps

/-- The catalog with the options of a table for the properties that held media types then. -/
def register (catalog : OptionCatalog) (load : Load) : OptionCatalog :=
  (mediaTypePaths load.model).foldl (fun catalog path ↦ catalog.extend path load.options) catalog

/-- Is the text one of the media types in the tables? -/
def Loaded (loads : List Load) (text : String) : Prop :=
  ∃ load ∈ loads, ∃ option ∈ load.options, option.value = text

def LoadedFor (loads : List Load) (path text : String) : Prop :=
  ∃ load ∈ loads, path ∈ mediaTypePaths load.model ∧ ∃ option ∈ load.options, option.value = text

/-- Was a table with some media type taken for the path? -/
def Narrows (loads : List Load) (path : String) : Prop := ∃ text, LoadedFor loads path text

/-- Is every media type in the graph that is marked as valid one of those in the tables? -/
def HoldsLoaded (s : Session) (loads : List Load) : Prop :=
  ∀ n ∈ s.graph.nodes, ∀ e ∈ n.entries, e.property.datatype? = some .mediaType →
    e.isValid = true → ∀ v ∈ e.value, Loaded loads v.lexical

variable {s : Session} {step : Step} {steps later : List Step} {loads : List Load}
  {path text : String}

theorem LoadedFor.loaded (h : LoadedFor loads path text) : Loaded loads text := by
  obtain ⟨load, hload, -, hoption⟩ := h
  exact ⟨load, hload, hoption⟩

theorem LoadedFor.append (h : LoadedFor loads path text) (more : List Load) :
    LoadedFor (loads ++ more) path text := by
  obtain ⟨load, hload, hoption⟩ := h
  exact ⟨load, List.mem_append_left more hload, hoption⟩

theorem Narrows.append (h : Narrows loads path) (more : List Load) :
    Narrows (loads ++ more) path := by
  obtain ⟨text, htext⟩ := h
  exact ⟨text, htext.append more⟩

theorem narrows_of_mem {load : Load} (hload : load ∈ loads) (hoptions : load.options ≠ [])
    (hpath : path ∈ mediaTypePaths load.model) : Narrows loads path := by
  obtain ⟨option, hoption⟩ := List.exists_mem_of_ne_nil _ hoptions
  exact ⟨option.value, load, hload, hpath, option, hoption, rfl⟩

theorem loadsAlong_append (s : Session) (steps later : List Step) :
    s.loadsAlong (steps ++ later) = s.loadsAlong steps ++ (s.run steps).loadsAlong later := by
  induction steps generalizing s with
  | nil => rfl
  | cons step steps ih =>
    calc s.loadOf step ++ (s.perform step).loadsAlong (steps ++ later)
        = s.loadOf step ++ ((s.perform step).loadsAlong steps ++
            ((s.perform step).run steps).loadsAlong later) := by rw [ih]
      _ = s.loadsAlong (step :: steps) ++ (s.run (step :: steps)).loadsAlong later :=
        (List.append_assoc _ _ _).symm

/-! ## The catalog of a session -/

theorem contains_foldl_register (catalog : OptionCatalog) (loads : List Load) :
    (loads.foldl register catalog).contains path text = true ↔
      catalog.contains path text = true ∨ LoadedFor loads path text := by
  induction loads generalizing catalog with
  | nil => simp [LoadedFor]
  | cons load loads ih =>
    rw [List.foldl_cons, ih, register, OptionCatalog.contains_foldl_extend, or_assoc]
    simp only [LoadedFor, List.exists_mem_cons_iff]

/-- A single operation keeps the catalog, unless it sets another one. -/
theorem catalog_edit {g : InstanceGraph} (op : Operation) (hnew : g.MintsNew op)
    (hcatalog : ∀ catalog, op ≠ .setCatalog catalog) :
    (g.perform op).settings.catalog = g.settings.catalog := by
  by_cases hmodel : ∀ model, op ≠ .replaceModel model
  · exact (edits_perform hnew hmodel hcatalog).keep
      (P := fun g' ↦ g'.settings.catalog = g.settings.catalog) rfl
      fun _ _ hg hedit ↦ (congrArg GraphSettings.catalog hedit.settings).trans hg
  · obtain ⟨model, rfl⟩ := not_forall_not.1 hmodel
    refine orUnchanged_induction (P := fun g' ↦ g'.settings.catalog = g.settings.catalog) rfl
      fun g' hg' ↦ ?_
    obtain ⟨nodes, -, rfl⟩ := replaceModel_eq_ok.1 hg'
    rfl

theorem catalog_perform (hnew : s.MintsNew step)
    (hcatalog : ∀ catalog, step ≠ .edit (.setCatalog catalog)) :
    (s.perform step).graph.settings.catalog =
      (s.loadOf step).foldl register s.graph.settings.catalog := by
  rw [graph_perform]
  cases step with
  | edit op => exact catalog_edit op hnew fun catalog heq ↦ hcatalog catalog (congrArg _ heq)
  | replaceModel model => exact catalog_edit (.replaceModel model) trivial nofun
  | reload surroundings ontology metadata =>
    dsimp only [operations]
    cases loadModel surroundings ontology metadata with
    | ok model => exact catalog_edit (.replaceModel model) trivial nofun
    | error error => rfl
  | loadMediaTypes table =>
    dsimp only [operations, loadOf]
    cases readMediaTypes table <;> rfl
  | importText text reference urns =>
    exact catalog_edit (.importDocument s.context s.config text reference urns) trivial nofun
  | importFile surroundings path reference urns =>
    dsimp only [operations]
    cases surroundings.file? path with
    | none => rfl
    | some text =>
      exact catalog_edit (.importDocument s.context s.config text reference urns) trivial nofun

/-- Where no other catalog is set, the catalog of a session holds what its tables add to it. -/
theorem catalog_run (hnew : s.AlwaysMintsNew steps)
    (hcatalog : ∀ catalog, .edit (.setCatalog catalog) ∉ steps) :
    (s.run steps).graph.settings.catalog =
      (s.loadsAlong steps).foldl register s.graph.settings.catalog := by
  induction steps generalizing s with
  | nil => rfl
  | cons step steps ih =>
    have hstep := catalog_perform hnew.1 fun catalog heq ↦
      hcatalog catalog (heq ▸ List.mem_cons_self)
    calc ((s.perform step).run steps).graph.settings.catalog
        = ((s.perform step).loadsAlong steps).foldl register
            (s.perform step).graph.settings.catalog :=
          ih hnew.2 fun catalog hmem ↦ hcatalog catalog (List.mem_cons_of_mem _ hmem)
      _ = ((s.perform step).loadsAlong steps).foldl register
            ((s.loadOf step).foldl register s.graph.settings.catalog) := by rw [hstep]
      _ = (s.loadsAlong (step :: steps)).foldl register s.graph.settings.catalog :=
          List.foldl_append.symm

/-- Without options at first, the options of a session are those of the tables. -/
theorem contains_catalog_run (hempty : s.graph.settings.catalog = {})
    (hnew : s.AlwaysMintsNew steps) (hcatalog : ∀ catalog, .edit (.setCatalog catalog) ∉ steps) :
    (s.run steps).graph.settings.catalog.contains path text = true ↔
      LoadedFor (s.loadsAlong steps) path text := by
  rw [catalog_run hnew hcatalog, hempty, contains_foldl_register]
  exact or_iff_right Bool.false_ne_true

theorem checksCatalogs_of_none (hcatalog : ∀ catalog, .edit (.setCatalog catalog) ∉ steps) :
    ChecksCatalogs steps := by
  induction steps with
  | nil => trivial
  | cons step steps ih =>
    refine ⟨fun catalog heq ↦ ?_, ih fun catalog hmem ↦ ?_⟩
    · exact absurd (heq ▸ List.mem_cons_self) (hcatalog catalog)
    · exact hcatalog catalog (List.mem_cons_of_mem _ hmem)

/-! ## What is valid -/

/-- A media type has to follow its rule, and to be an option where the catalog has any. -/
theorem isValid_mediaType {catalog : OptionCatalog} {cp : ClassProperty} {v : Value}
    (h : cp.datatype? = some .mediaType) :
    Graph.isValid catalog cp (some v) = true ↔ Datatype.mediaType.accepts v = true ∧
      ((∃ text, catalog.contains cp.path text = true) →
        catalog.contains cp.path v.lexical = true) := by
  have hconstraint : cp.constraint = .literal .mediaType := by
    unfold ClassProperty.datatype? at h
    split at h
    · cases h
      assumption
    · cases h
  rw [← OptionCatalog.hasOptions_iff]
  unfold Graph.isValid
  rw [hconstraint]
  cases catalog.hasOptions cp.path <;> simp

/-! ## From the start on -/

/-- Is every class that the model finds one of those that it lists? -/
def ListsClasses (m : Model) : Prop := ∀ iri c, m.class? iri = some c → c ∈ m.classes

theorem listsClasses_ofProfiles (info : OntologyInfo) (profiles : SortedMap Profile) :
    ListsClasses (.ofProfiles info profiles) := by
  intro iri c hc
  have hindex : (Model.indexOf profiles).get? iri = some (.ofClass c) := by
    unfold Model.class? Model.entity? at hc
    split at hc
    · cases hc
      assumption
    · cases hc
  obtain ⟨entity, hentity, heq⟩ := List.mem_map.1
    (SortedMap.mem_ofList (SortedMap.get?_eq_some_iff.1 hindex))
  cases heq
  obtain ⟨profile, hprofile, hmem⟩ := List.mem_flatMap.1 hentity
  apply List.mem_flatMap.2
  exact ⟨profile, hprofile, by simpa [Profile.entities] using hmem⟩

/-- The media types in a consistent graph belong to properties that its model declares for them. -/
theorem path_mem_mediaTypePaths {g : InstanceGraph} (hg : g.Consistent)
    (hlists : ListsClasses g.model) {n : Node} (hn : n ∈ g.nodes) {e : Entry} (he : e ∈ n.entries)
    (hmedia : e.property.datatype? = some .mediaType) : e.path ∈ mediaTypePaths g.model := by
  obtain ⟨-, hdeclared⟩ := hg.entries n hn e he
  obtain ⟨iri, c, hc, hproperty⟩ :=
    Model.exists_class?_of_mem_declarations (hg.typed n hn).chain hdeclared
  apply List.mem_map_of_mem
  apply List.mem_filter.2
  refine ⟨List.mem_flatMap.2 ⟨c, hlists iri c hc, hproperty⟩, ?_⟩
  rw [hmedia]
  rfl

section

variable {surroundings : Surroundings} {config : Configuration} {model : Model} {first : Session}

/-- A session starts with an empty graph and without options. -/
theorem eq_of_start (h : start surroundings config model = .ok first) : ∃ context,
    first = { config, context, graph := { model, settings := .ofConfiguration config } } := by
  unfold start at h
  cases hsource : config.contextSource with
  | none =>
    rw [hsource] at h
    cases h
    exact ⟨_, rfl⟩
  | some place =>
    rw [hsource] at h
    obtain ⟨context, -, hfirst⟩ := Fallible.bind_eq_ok.1 h
    cases hfirst
    exact ⟨context, rfl⟩

/-- In a session in which options come from tables only, a media type is marked as valid exactly if
it follows its rule and, where tables were taken for its property, is in one of them. -/
theorem isValid_run_iff (hfirst : start surroundings config model = .ok first)
    (hnew : first.AlwaysMintsNew steps) (hcatalog : ∀ catalog, .edit (.setCatalog catalog) ∉ steps)
    {n : Node} (hn : n ∈ (first.run steps).graph.nodes) {e : Entry} (he : e ∈ n.entries)
    (hmedia : e.property.datatype? = some .mediaType) {v : Value} (hv : v ∈ e.value) :
    e.isValid = true ↔ Datatype.mediaType.accepts v = true ∧
      (Narrows (first.loadsAlong steps) e.path →
        LoadedFor (first.loadsAlong steps) e.path v.lexical) := by
  obtain ⟨context, rfl⟩ := eq_of_start hfirst
  have hmarks := upToDate_graph_run hnew (checksCatalogs_of_none hcatalog)
  rw [hmarks.isValid_eq hn he, Option.mem_def.1 hv, isValid_mediaType hmedia]
  simp only [contains_catalog_run rfl hnew hcatalog]
  exact Iff.rfl

/-- All media types that are marked as valid are in tables exactly if this holds of those whose
property no table was taken for. -/
theorem holdsLoaded_run_iff (hfirst : start surroundings config model = .ok first)
    (hnew : first.AlwaysMintsNew steps)
    (hcatalog : ∀ catalog, .edit (.setCatalog catalog) ∉ steps) :
    (first.run steps).HoldsLoaded (first.loadsAlong steps) ↔
      ∀ n ∈ (first.run steps).graph.nodes, ∀ e ∈ n.entries,
        e.property.datatype? = some .mediaType → ¬ Narrows (first.loadsAlong steps) e.path →
          ∀ v ∈ e.value, Datatype.mediaType.accepts v = true →
            Loaded (first.loadsAlong steps) v.lexical := by
  have hvalid {n : Node} (hn : n ∈ (first.run steps).graph.nodes) {e : Entry}
      (he : e ∈ n.entries) := isValid_run_iff hfirst hnew hcatalog hn he
  constructor
  · intro hholds n hn e he hmedia hfree v hv haccepts
    apply hholds n hn e he hmedia _ v hv
    apply (hvalid hn he hmedia hv).2
    exact ⟨haccepts, fun hnarrows ↦ absurd hnarrows hfree⟩
  · intro hfree n hn e he hmedia hmarked v hv
    obtain ⟨haccepts, hloaded⟩ := (hvalid hn he hmedia hv).1 hmarked
    by_cases hnarrows : Narrows (first.loadsAlong steps) e.path
    · exact (hloaded hnarrows).loaded
    · exact hfree n hn e he hmedia hnarrows v hv haccepts

/-- In a session in which options come from tables only, a media type is marked as valid exactly if
it follows its rule and, where tables were taken for its property, is in one of them. Where a table
was taken at some time, the media types of its properties are in tables ever after, whatever
happens then. So all media types that are marked as valid are in tables exactly if this holds of
those whose property no table was taken for. This is so where a table was taken in a model that
declared all properties for media types that the present model declares for them. -/
theorem mediaTypes_run (hfirst : start surroundings config model = .ok first)
    (hnew : first.AlwaysMintsNew (steps ++ later))
    (hcatalog : ∀ catalog, .edit (.setCatalog catalog) ∉ steps ++ later) :
    let s := first.run (steps ++ later)
    let loads := first.loadsAlong (steps ++ later)
    (∀ n ∈ s.graph.nodes, ∀ e ∈ n.entries, e.property.datatype? = some .mediaType →
      ∀ v ∈ e.value, (e.isValid = true ↔ Datatype.mediaType.accepts v = true ∧
        (Narrows loads e.path → LoadedFor loads e.path v.lexical))) ∧
    (∀ n ∈ s.graph.nodes, ∀ e ∈ n.entries, e.property.datatype? = some .mediaType →
      Narrows (first.loadsAlong steps) e.path → e.isValid = true →
        ∀ v ∈ e.value, LoadedFor loads e.path v.lexical) ∧
    (s.HoldsLoaded loads ↔
      ∀ n ∈ s.graph.nodes, ∀ e ∈ n.entries, e.property.datatype? = some .mediaType →
        ¬ Narrows loads e.path →
          ∀ v ∈ e.value, Datatype.mediaType.accepts v = true → Loaded loads v.lexical) ∧
    (ListsClasses s.graph.model → ∀ load ∈ loads, load.options ≠ [] →
      mediaTypePaths s.graph.model ⊆ mediaTypePaths load.model → s.HoldsLoaded loads) := by
  intro s loads
  have hloads : loads = first.loadsAlong steps ++ (first.run steps).loadsAlong later :=
    loadsAlong_append first steps later
  have hlaw := holdsLoaded_run_iff hfirst hnew hcatalog
  have hconsistent : s.graph.Consistent := by
    obtain ⟨context, rfl⟩ := eq_of_start hfirst
    exact (reachable_run hnew).consistent
  refine ⟨fun n hn e he hmedia v hv ↦ isValid_run_iff hfirst hnew hcatalog hn he hmedia hv,
    fun n hn e he hmedia hnarrows hmarked v hv ↦ ?_, hlaw,
    fun hlists load hload hoptions hsubset ↦ hlaw.2 fun n hn e he hmedia hfree ↦ ?_⟩
  · have hlater : Narrows loads e.path := hloads ▸ hnarrows.append _
    exact ((isValid_run_iff hfirst hnew hcatalog hn he hmedia hv).1 hmarked).2 hlater
  · have hpath := path_mem_mediaTypePaths hconsistent hlists hn he hmedia
    exact absurd (narrows_of_mem hload hoptions (hsubset hpath)) hfree

end

def plainText : List UInt8 := "Name,Template\nplain,text/plain\n".toUTF8.data.toList

def packing : List Step := [.loadMediaTypes plainText]

/-- The model is read anew. Of two packages one gets the media type in the table. -/
def repacking : List Step :=
  [.replaceModel packages, .edit (.addNodeWithId "urn:parcel" package.iri {}),
    .edit (.addNodeWithId "urn:package" package.iri {}),
    .edit (.setEntry "urn:parcel" "entry-0" (some (.text "text/plain"))),
    .edit (.setEntry "urn:package" "entry-1" (some (.text "foo/bar")))]

theorem mediaTypes_run_packing : ∃ first, start {} {} packages = .ok first ∧
    first.AlwaysMintsNew (packing ++ repacking) ∧
    (∀ catalog, .edit (.setCatalog catalog) ∉ packing ++ repacking) ∧
    Narrows (first.loadsAlong packing) contentType.path ∧
    (first.run (packing ++ repacking)).graph.nodes.map
      (fun n ↦ n.entries.map fun e ↦ (e.value, e.isValid)) =
        [[(some (.text "text/plain"), true)], [(some (.text "foo/bar"), false)]] ∧
    (first.run (packing ++ repacking)).HoldsLoaded
      (first.loadsAlong (packing ++ repacking)) := by
  obtain ⟨first, hfirst⟩ : ∃ first, first = Session.mk {} (.ofModel packages)
      { model := packages, settings := .ofConfiguration {} } := ⟨_, rfl⟩
  have hstart : start {} {} packages = .ok first := by
    rw [hfirst]
    rfl
  have hnew : first.AlwaysMintsNew (packing ++ repacking) :=
    ⟨trivial, trivial, trivial, trivial, trivial, trivial, trivial⟩
  have hcatalog : ∀ catalog, .edit (.setCatalog catalog) ∉ packing ++ repacking := by
    simp [packing, repacking]
  have hmodel : (first.run (packing ++ repacking)).graph.model = packages := by
    rw [hfirst]
    decide +kernel
  have hnarrows : LoadedFor (first.loadsAlong packing) contentType.path "text/plain" := by
    rw [hfirst]
    unfold LoadedFor
    decide +kernel
  have hloads : ∃ load ∈ first.loadsAlong (packing ++ repacking), load.options ≠ [] ∧
      ∀ path ∈ mediaTypePaths packages, path ∈ mediaTypePaths load.model := by
    rw [hfirst]
    decide +kernel
  obtain ⟨-, -, -, hholds⟩ := mediaTypes_run hstart hnew hcatalog
  rw [hmodel] at hholds
  obtain ⟨load, hload, hoptions, hpaths⟩ := hloads
  refine ⟨first, hstart, hnew, hcatalog, ⟨_, hnarrows⟩, ?_,
    hholds (listsClasses_ofProfiles _ _) load hload hoptions hpaths⟩
  rw [hfirst]
  decide +kernel

/-- Archives tell the media type of their content by a property of their own. -/
def archiveType : ClassProperty :=
  { contentType with
    parentClass := "https://example.org/Software/Archive"
    path := "https://example.org/Software/archiveType"
    name := "archiveType" }

def archive : Ontology.Class :=
  { iri := "https://example.org/Software/Archive"
    name := "Archive"
    profileName := "Software"
    properties := .ofList [("archiveType", archiveType)] }

def archives : Model :=
  .ofProfiles {} (.ofList [("Software",
    { classes := .ofList [("Archive", archive), ("Package", package)] })])

/-- After a table was taken, archives come with another model, and one gets a media type that is
not in the table. -/
def archiving : List Step :=
  [.loadMediaTypes plainText, .replaceModel archives,
    .edit (.addNodeWithId "urn:archive" archive.iri {}),
    .edit (.setEntry "urn:archive" "entry-0" (some (.text "foo/bar")))]

theorem not_holdsLoaded_archiving : ∃ first, start {} {} packages = .ok first ∧
    first.AlwaysMintsNew archiving ∧ (∀ catalog, .edit (.setCatalog catalog) ∉ archiving) ∧
      (∃ load ∈ first.loadsAlong archiving, load.options ≠ []) ∧
      ¬ (first.run archiving).HoldsLoaded (first.loadsAlong archiving) := by
  refine ⟨_, rfl, ⟨trivial, trivial, trivial, trivial, trivial⟩, by simp [archiving],
    by decide +kernel, ?_⟩
  unfold HoldsLoaded Loaded
  decide +kernel

end OntoGraph.Session
