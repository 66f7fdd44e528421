import Mathlib.Data.List.TakeWhile
import OntoGraph.Proofs.Ontology.Chain

/-!
# Runs of resolvers

What a resolver remembers is never seen in its answers. Whatever was asked before, whichever calls
failed and however often the model was replaced, each call is answered as one over the present
model that computes every chain anew. What is remembered are the chains that were resolved since
the model was last replaced, and nothing else.
-/

namespace OntoGraph.Ontology.Resolver

/-- A call to a resolver. -/
inductive Call where
  | chain (iri : String)
  | inheritanceList (iri : String)
  | isSubclassOf (iri ancestor : String)
  | warm
  | replaceModel (model : Model)

inductive Answer where
  | chain (found : Except ResolveError Chain)
  | iris (found : Except ResolveError (List String))
  | truth (found : Except ResolveError Bool)
  | count (found : Except ResolveError Nat)
  | replaced

def call (r : Resolver) : Call → Answer × Resolver
  | .chain iri => (.chain (r.chain iri).1, (r.chain iri).2)
  | .inheritanceList iri => (.iris (r.inheritanceList iri).1, (r.inheritanceList iri).2)
  | .isSubclassOf iri ancestor =>
    (.truth (r.isSubclassOf iri ancestor).1, (r.isSubclassOf iri ancestor).2)
  | .warm => (.count r.warm.1, r.warm.2)
  | .replaceModel model => (.replaced, r.replaceModel model)

def run (r : Resolver) (calls : List Call) : Resolver := calls.foldl (fun r c ↦ (r.call c).2) r

def answers (r : Resolver) : List Call → List Answer
  | [] => []
  | c :: calls => (r.call c).1 :: (r.call c).2.answers calls

/-! ## Without a memory -/

namespace Call

def answerFrom (m : Model) : Call → Answer
  | .chain iri => .chain (m.chain iri)
  | .inheritanceList iri => .iris ((m.chain iri).map Chain.iris)
  | .isSubclassOf iri ancestor => .truth ((m.chain iri).map (Chain.hasClass · ancestor))
  | .warm => .count ((m.classes.mapM fun c ↦ m.chain c.iri).map List.length)
  | .replaceModel _ => .replaced

def modelAfter (m : Model) : Call → Model
  | .replaceModel model => model
  | _ => m

/-- The classes whose chains a call needs, in order. -/
def asked (m : Model) : Call → List String
  | .chain iri => [iri]
  | .inheritanceList iri => [iri]
  | .isSubclassOf iri _ => [iri]
  | .warm => m.classes.map (·.iri)
  | .replaceModel _ => []

/-- The classes whose chains a call resolves: those before the first that has none. -/
def resolved (m : Model) (c : Call) : List String :=
  (c.asked m).takeWhile fun iri ↦ (m.chain iri).isOk

end Call

def modelAt (m : Model) (calls : List Call) : Model := calls.foldl Call.modelAfter m

/-- The answers to the calls of a list, each computed from the model that is current then. -/
def answersFrom (m : Model) : List Call → List Answer
  | [] => []
  | c :: calls => c.answerFrom m :: answersFrom (c.modelAfter m) calls

/-! ## Single calls -/

variable {r : Resolver} {c : Call} {iri : String}

/-- The resolver after the chain of a class was asked for. -/
def remember (r : Resolver) (iri : String) : Resolver := (r.chain iri).2

def rememberAll (r : Resolver) (iris : List String) : Resolver := iris.foldl remember r

theorem remember_of_error {error : ResolveError} (h : r.model.chain iri = .error error) :
    r.remember iri = r := by
  unfold remember chain
  split
  · rfl
  · rw [h]

theorem Sound.chain_eq (h : r.Sound) (iri : String) :
    r.chain iri = (r.model.chain iri, r.remember iri) :=
  Prod.ext (h.fst_chain iri) rfl

@[simp] theorem model_remember (r : Resolver) (iri : String) : (r.remember iri).model = r.model :=
  r.model_chain iri

@[simp] theorem model_rememberAll (r : Resolver) (iris : List String) :
    (r.rememberAll iris).model = r.model := by
  induction iris generalizing r with
  | nil => rfl
  | cons iri iris ih => exact (ih _).trans (r.model_remember iri)

theorem Sound.remember (h : r.Sound) (iri : String) : (r.remember iri).Sound := h.chain iri

theorem Sound.rememberAll {iris : List String} (h : r.Sound) : (r.rememberAll iris).Sound := by
  induction iris generalizing r with
  | nil => exact h
  | cons iri iris ih => exact ih (h.remember iri)

/-- Of the classes that were asked for, those with a chain are remembered. -/
theorem isCached_rememberAll (r : Resolver) (iris : List String) (iri : String) :
    (r.rememberAll iris).isCached iri = true ↔
      r.isCached iri = true ∨ iri ∈ iris ∧ (r.model.chain iri).isOk = true := by
  induction iris generalizing r with
  | nil => simp [rememberAll]
  | cons first iris ih =>
    rw [rememberAll, List.foldl_cons, ← rememberAll, ih, model_remember, remember, isCached_chain,
      ← Fallible.isOk_iff, List.mem_cons]
    constructor
    · rintro ((hheld | ⟨rfl, hok⟩) | ⟨hmem, hok⟩)
      · exact .inl hheld
      · exact .inr ⟨.inl rfl, hok⟩
      · exact .inr ⟨.inr hmem, hok⟩
    · rintro (hheld | ⟨rfl | hmem, hok⟩)
      · exact .inl (.inl hheld)
      · exact .inl (.inr ⟨rfl, hok⟩)
      · exact .inr ⟨hmem, hok⟩

/-- Classes are resolved in their order up to the first error, which leaves no trace. -/
theorem Sound.warmEach_eq {classes : List Class} (h : r.Sound) :
    r.warmEach classes =
      ((classes.mapM fun c ↦ r.model.chain c.iri).map List.length,
        r.rememberAll ((classes.map (·.iri)).takeWhile fun iri ↦ (r.model.chain iri).isOk)) := by
  induction classes generalizing r with
  | nil => rfl
  | cons c classes ih =>
    rw [Resolver.warmEach, h.chain_eq, List.mapM_cons, List.map_cons]
    cases hc : r.model.chain c.iri with
    | error error =>
      rw [List.takeWhile_cons_of_neg (by rw [hc]; exact Bool.false_ne_true)]
      exact Prod.ext rfl (remember_of_error hc)
    | ok chain =>
      rw [List.takeWhile_cons_of_pos (by rw [hc]; rfl)]
      dsimp only
      rw [ih (h.remember c.iri), model_remember]
      refine Prod.ext ?_ rfl
      cases classes.mapM fun c ↦ r.model.chain c.iri <;> rfl

/-- The answer to a call is the one computed from the model. -/
theorem Sound.fst_call (h : r.Sound) (c : Call) : (r.call c).1 = c.answerFrom r.model := by
  cases c with
  | chain iri => rw [call, h.fst_chain]; rfl
  | inheritanceList iri => rw [call, inheritanceList, h.chain_eq]; rfl
  | isSubclassOf iri ancestor => rw [call, isSubclassOf, h.chain_eq]; rfl
  | warm => rw [call, warm, h.warmEach_eq]; rfl
  | replaceModel model => rfl

/-- A call that does not replace the model leaves what resolving its classes leaves; the class
that has no chain plays no part. -/
theorem Sound.snd_call (h : r.Sound) (hkeep : ∀ model, c ≠ .replaceModel model) :
    (r.call c).2 = r.rememberAll (c.resolved r.model) := by
  have hsingle (iri : String) :
      r.remember iri = r.rememberAll ([iri].takeWhile fun iri ↦ (r.model.chain iri).isOk) := by
    cases hchain : r.model.chain iri with
    | error error =>
      rw [List.takeWhile_cons_of_neg (by rw [hchain]; exact Bool.false_ne_true)]
      exact remember_of_error hchain
    | ok chain => rw [List.takeWhile_cons_of_pos (by rw [hchain]; rfl)]; rfl
  cases c with
  | chain iri => exact hsingle iri
  | inheritanceList iri => exact hsingle iri
  | isSubclassOf iri ancestor => exact hsingle iri
  | warm => rw [call, warm, h.warmEach_eq]; rfl
  | replaceModel model => exact absurd rfl (hkeep model)

theorem Sound.model_call (h : r.Sound) (c : Call) : (r.call c).2.model = c.modelAfter r.model := by
  by_cases hkeep : ∀ model, c ≠ .replaceModel model
  · rw [h.snd_call hkeep, model_rememberAll]
    cases c with
    | replaceModel model => exact absurd rfl (hkeep model)
    | _ => rfl
  · obtain ⟨model, rfl⟩ := not_forall_not.1 hkeep
    rfl

theorem Sound.call (h : r.Sound) (c : Call) : (r.call c).2.Sound := by
  by_cases hkeep : ∀ model, c ≠ .replaceModel model
  · rw [h.snd_call hkeep]
    exact h.rememberAll
  · obtain ⟨model, rfl⟩ := not_forall_not.1 hkeep
    exact sound_of_empty model

theorem Sound.isCached_call (h : r.Sound) (hkeep : ∀ model, c ≠ .replaceModel model) :
    (r.call c).2.isCached iri = true ↔ r.isCached iri = true ∨ iri ∈ c.resolved r.model := by
  rw [h.snd_call hkeep, isCached_rememberAll]
  refine or_congr_right (and_iff_left_of_imp fun hmem ↦ ?_)
  exact List.mem_takeWhile_imp (p := fun iri ↦ (r.model.chain iri).isOk) hmem

/-! ## Runs -/

theorem run_concat (r : Resolver) (calls : List Call) (c : Call) :
    r.run (calls ++ [c]) = ((r.run calls).call c).2 := List.foldl_append

theorem Sound.run (h : r.Sound) (calls : List Call) :
    (r.run calls).Sound ∧ (r.run calls).model = modelAt r.model calls := by
  induction calls generalizing r with
  | nil => exact ⟨h, rfl⟩
  | cons c calls ih =>
    obtain ⟨hsound, hmodel⟩ := ih (h.call c)
    rw [h.model_call] at hmodel
    exact ⟨hsound, hmodel⟩

theorem Sound.answers_eq {calls : List Call} (h : r.Sound) :
    r.answers calls = answersFrom r.model calls := by
  induction calls generalizing r with
  | nil => rfl
  | cons c calls ih => rw [answers, answersFrom, h.fst_call, ih (h.call c), h.model_call]

/-- Was the chain of the class resolved by one of the calls, with no other model since then? -/
def ResolvedSince (m : Model) (calls : List Call) (iri : String) : Prop :=
  ∃ before c after, calls = before ++ c :: after ∧ (∀ model, .replaceModel model ∉ after) ∧
    iri ∈ c.resolved (modelAt m before)

theorem not_resolvedSince_nil (m : Model) (iri : String) : ¬ ResolvedSince m [] iri := by
  rintro ⟨before, c, after, hcalls, -, -⟩
  simp at hcalls

/-- A call that replaces the model resolves nothing, and makes what was resolved before void. -/
theorem resolvedSince_concat {m : Model} {calls : List Call} :
    ResolvedSince m (calls ++ [c]) iri ↔
      (∀ model, c ≠ .replaceModel model) ∧
        (ResolvedSince m calls iri ∨ iri ∈ c.resolved (modelAt m calls)) := by
  constructor
  · rintro ⟨before, d, after, hcalls, hafter, hresolved⟩
    rcases List.eq_nil_or_concat after with rfl | ⟨after, last, rfl⟩
    · obtain ⟨rfl, hlast⟩ := List.append_inj' hcalls rfl
      obtain rfl : c = d := by simpa using hlast
      refine ⟨?_, .inr hresolved⟩
      rintro model rfl
      exact List.not_mem_nil hresolved
    · rw [List.concat_eq_append] at hcalls hafter
      rw [← List.cons_append, ← List.append_assoc] at hcalls
      obtain ⟨rfl, hlast⟩ := List.append_inj' hcalls rfl
      obtain rfl : c = last := by simpa using hlast
      refine ⟨?_, .inl ⟨before, d, after, rfl, fun model hmem ↦ ?_, hresolved⟩⟩
      · rintro model rfl
        exact hafter model (List.mem_append_right _ (List.mem_singleton_self _))
      · exact hafter model (List.mem_append_left _ hmem)
  · rintro ⟨hkeep, ⟨before, d, after, rfl, hafter, hresolved⟩ | hresolved⟩
    · refine ⟨before, d, after ++ [c], by simp, fun model hmem ↦ ?_, hresolved⟩
      rcases List.mem_append.1 hmem with hmem | hmem
      · exact hafter model hmem
      · exact hkeep model (List.mem_singleton.1 hmem).symm
    · exact ⟨calls, c, [], rfl, fun _ ↦ List.not_mem_nil, hresolved⟩

theorem isCached_run (m : Model) (calls : List Call) (iri : String) :
    ((Resolver.mk m ∅).run calls).isCached iri = true ↔ ResolvedSince m calls iri := by
  induction calls using List.reverseRecOn with
  | nil => exact iff_of_false Bool.false_ne_true (not_resolvedSince_nil m iri)
  | append_singleton calls c ih =>
    obtain ⟨hsound, hmodel⟩ := (sound_of_empty m).run calls
    rw [run_concat, resolvedSince_concat]
    by_cases hkeep : ∀ model, c ≠ .replaceModel model
    · rw [hsound.isCached_call hkeep, ih, hmodel]
      exact (and_iff_right hkeep).symm
    · refine iff_of_false ?_ fun h ↦ hkeep h.1
      obtain ⟨model, rfl⟩ := not_forall_not.1 hkeep
      exact Bool.false_ne_true

/-- A resolver that starts with nothing remembered answers every call of every run as one without a
memory does, over the model that is current then. After the run it remembers exactly the classes
that were resolved since the model was last replaced, and a further call changes it only by the
classes that it resolves: where nothing is resolved, nothing changes. -/
theorem run_without_memory (m : Model) (calls : List Call) :
    let r := (Resolver.mk m ∅).run calls
    (Resolver.mk m ∅).answers calls = answersFrom m calls ∧
      r.model = modelAt m calls ∧
      (∀ iri, r.isCached iri = true ↔ ResolvedSince m calls iri) ∧
      (∀ iri error, r.model.chain iri = .error error → r.chain iri = (.error error, r)) ∧
      ∀ c, (∀ model, c ≠ .replaceModel model) →
        (r.call c).2 = r.rememberAll (c.resolved r.model) := by
  intro r
  obtain ⟨hsound, hmodel⟩ := (sound_of_empty m).run calls
  refine ⟨(sound_of_empty m).answers_eq, hmodel, isCached_run m calls, fun iri error h ↦ ?_,
    fun c hkeep ↦ hsound.snd_call hkeep⟩
  rw [hsound.chain_eq, remember_of_error h, h]

end OntoGraph.Ontology.Resolver
