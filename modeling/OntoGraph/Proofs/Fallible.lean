import Mathlib.Data.List.Forall2

/-!
# Sequences of steps that may fail

A chain of steps succeeds when each step does. What holds at first and is kept by each step that
succeeds holds of the result.
-/

namespace OntoGraph.Fallible

variable {ε α β : Type}

theorem bind_eq_ok {x : Except ε α} {f : α → Except ε β} {b : β} :
    x >>= f = .ok b ↔ ∃ a, x = .ok a ∧ f a = .ok b := by
  cases x <;> simp [bind, Except.bind]

theorem map_eq_ok {x : Except ε α} {f : α → β} {b : β} :
    x.map f = .ok b ↔ ∃ a, x = .ok a ∧ f a = b := by
  cases x <;> simp [Except.map]

theorem map_eq_error {x : Except ε α} {f : α → β} {error : ε} :
    x.map f = .error error ↔ x = .error error := by
  cases x <;> simp [Except.map]

theorem isOk_iff {x : Except ε α} : x.isOk = true ↔ ∃ a, x = .ok a := by
  cases x <;> simp [Except.isOk, Except.toBool]

theorem foldlM_congr {step step' : β → α → Except ε β} {items : List α} (first : β)
    (h : ∀ b, ∀ a ∈ items, step b a = step' b a) :
    items.foldlM step first = items.foldlM step' first := by
  induction items generalizing first with
  | nil => rfl
  | cons a items ih =>
    rw [List.foldlM_cons, List.foldlM_cons, h first a List.mem_cons_self]
    congr
    funext b
    exact ih b fun b a ha ↦ h b a (List.mem_cons_of_mem _ ha)

/-- What each step keeps is kept by all steps in a row. -/
theorem foldlM_induction {step : β → α → Except ε β} {P : β → Prop} {items : List α} {first last : β}
    (hfirst : P first) (h : items.foldlM step first = .ok last)
    (hstep : ∀ b, ∀ a ∈ items, ∀ b', P b → step b a = .ok b' → P b') : P last := by
  induction items generalizing first with
  | nil =>
    cases h
    exact hfirst
  | cons a items ih =>
    rw [List.foldlM_cons, bind_eq_ok] at h
    obtain ⟨middle, hmiddle, hrest⟩ := h
    exact ih (hstep first a List.mem_cons_self middle hfirst hmiddle) hrest
      fun b a ha ↦ hstep b a (List.mem_cons_of_mem _ ha)

/-- What each step extends from the items before it holds of all items in the end. -/
theorem foldlM_done_induction {step : β → α → Except ε β} {P : List α → β → Prop} {items : List α}
    {first last : β} (hfirst : P [] first) (h : items.foldlM step first = .ok last)
    (hstep : ∀ done a rest b b', items = done ++ a :: rest → P done b → step b a = .ok b' →
      P (done ++ [a]) b') : P items last := by
  suffices hrest : ∀ rest done b, items = done ++ rest → P done b →
      rest.foldlM step b = .ok last → P items last from hrest items [] first rfl hfirst h
  intro rest
  induction rest with
  | nil =>
    intro done b hitems hb hlast
    cases hlast
    rwa [hitems, List.append_nil]
  | cons a rest ih =>
    intro done b hitems hb hlast
    rw [List.foldlM_cons, bind_eq_ok] at hlast
    obtain ⟨b', hb', hlast⟩ := hlast
    exact ih (done ++ [a]) b' (by rw [hitems, List.append_assoc]; rfl)
      (hstep done a rest b b' hitems hb hb') hlast

/-- A chain succeeds when each step does from where those before it lead. -/
theorem exists_foldlM {step : β → α → Except ε β} {P : List α → β → Prop} {items : List α}
    {first : β} (hfirst : P [] first)
    (hstep : ∀ done a rest b, items = done ++ a :: rest → P done b →
      ∃ b', step b a = .ok b' ∧ P (done ++ [a]) b') :
    ∃ last, items.foldlM step first = .ok last ∧ P items last := by
  suffices h : ∀ rest done b, items = done ++ rest → P done b →
      ∃ last, rest.foldlM step b = .ok last ∧ P items last from h items [] first rfl hfirst
  intro rest
  induction rest with
  | nil =>
    intro done b hitems hb
    rw [List.append_nil] at hitems
    exact ⟨b, rfl, hitems ▸ hb⟩
  | cons a rest ih =>
    intro done b hitems hb
    obtain ⟨b', hb', hdone⟩ := hstep done a rest b hitems hb
    obtain ⟨last, hlast, hP⟩ := ih (done ++ [a]) b' (by rw [hitems, List.append_assoc]; rfl) hdone
    exact ⟨last, by rw [List.foldlM_cons, hb']; exact hlast, hP⟩

/-- A chain of steps succeeds exactly if each of its items fits. -/
theorem exists_foldlM_iff {step : β → α → Except ε β} {P : List α → β → Prop} {Q : α → Prop}
    {items : List α} {first : β} (hfirst : P [] first)
    (hstep : ∀ done a rest b, items = done ++ a :: rest → P done b →
      ((∃ b', step b a = .ok b') ↔ Q a) ∧ ∀ b', step b a = .ok b' → P (done ++ [a]) b') :
    (∃ last, items.foldlM step first = .ok last) ↔ ∀ a ∈ items, Q a := by
  constructor
  · rintro ⟨last, hlast⟩
    refine (foldlM_done_induction (P := fun done b ↦ P done b ∧ ∀ a ∈ done, Q a)
      ⟨hfirst, by rintro _ ⟨⟩⟩ hlast ?_).2
    rintro done a rest b b' hitems ⟨hb, hdone⟩ hb'
    obtain ⟨hfits, hkept⟩ := hstep done a rest b hitems hb
    refine ⟨hkept b' hb', fun a' ha' ↦ ?_⟩
    rcases List.mem_append.1 ha' with ha' | ha'
    · exact hdone a' ha'
    · cases List.mem_singleton.1 ha'
      exact hfits.1 ⟨b', hb'⟩
  · intro hfits
    obtain ⟨last, hlast, -⟩ := exists_foldlM hfirst fun done a rest b hitems hb ↦ by
      obtain ⟨hsucceeds, hkept⟩ := hstep done a rest b hitems hb
      obtain ⟨b', hb'⟩ := hsucceeds.2 (hfits a (by simp [hitems]))
      exact ⟨b', hb', hkept b' hb'⟩
    exact ⟨last, hlast⟩

/-- Where each step does the same to the images of states, so does a chain of them. -/
theorem foldlM_map {step : β → α → Except ε β} {f : β → β} {P : List α → β → Prop} {items : List α}
    {first : β} (hfirst : P [] first)
    (hstep : ∀ done a rest b, items = done ++ a :: rest → P done b →
      step (f b) a = (step b a).map f ∧ ∀ b', step b a = .ok b' → P (done ++ [a]) b') :
    items.foldlM step (f first) = (items.foldlM step first).map f := by
  suffices h : ∀ rest done b, items = done ++ rest → P done b →
      rest.foldlM step (f b) = (rest.foldlM step b).map f from h items [] first rfl hfirst
  intro rest
  induction rest with
  | nil => exact fun _ _ _ _ ↦ rfl
  | cons a rest ih =>
    intro done b hitems hb
    obtain ⟨hsame, hdone⟩ := hstep done a rest b hitems hb
    rw [List.foldlM_cons, List.foldlM_cons, hsame]
    cases hb' : step b a with
    | error error => rfl
    | ok b' => exact ih (done ++ [a]) b' (by rw [hitems, List.append_assoc]; rfl) (hdone b' hb')

theorem mapM_eq_map {f : α → Except ε β} {h : α → β} {items : List α}
    (hf : ∀ a ∈ items, f a = .ok (h a)) : items.mapM f = .ok (items.map h) := by
  induction items with
  | nil => rfl
  | cons a items ih =>
    rw [List.mapM_cons, hf a List.mem_cons_self, ih fun b hb ↦ hf b (List.mem_cons_of_mem _ hb)]
    rfl

/-- Treating each item of a list succeeds item by item. -/
theorem forall₂_of_mapM {f : α → Except ε β} {items : List α} {results : List β}
    (h : items.mapM f = .ok results) : List.Forall₂ (fun a b ↦ f a = .ok b) items results := by
  induction items generalizing results with
  | nil =>
    cases h
    exact .nil
  | cons a items ih =>
    rw [List.mapM_cons, bind_eq_ok] at h
    obtain ⟨b, hb, hmore⟩ := h
    obtain ⟨rest, hrest, hresults⟩ := bind_eq_ok.1 hmore
    cases hresults
    exact .cons hb (ih hrest)

theorem exists_of_mem_mapM {f : α → Except ε β} {items : List α} {results : List β} {b : β}
    (h : items.mapM f = .ok results) (hb : b ∈ results) : ∃ a ∈ items, f a = .ok b := by
  have hpairs := forall₂_of_mapM h
  clear h
  induction hpairs with
  | nil => cases hb
  | cons ha _ ih =>
    rcases List.mem_cons.1 hb with rfl | hb
    · exact ⟨_, List.mem_cons_self, ha⟩
    · obtain ⟨a, hmem, ha⟩ := ih hb
      exact ⟨a, List.mem_cons_of_mem _ hmem, ha⟩

theorem exists_of_mapM {f : α → Except ε β} {items : List α} {results : List β}
    (h : items.mapM f = .ok results) : ∀ a ∈ items, ∃ b ∈ results, f a = .ok b := by
  have hpairs := forall₂_of_mapM h
  clear h
  induction hpairs with
  | nil => exact nofun
  | cons ha _ ih =>
    intro a hmem
    rcases List.mem_cons.1 hmem with rfl | hmem
    · exact ⟨_, List.mem_cons_self, ha⟩
    · obtain ⟨b, hb, ha⟩ := ih a hmem
      exact ⟨b, List.mem_cons_of_mem _ hb, ha⟩

/-- What the results of all items are sent to can be told from the items. -/
theorem map_eq_of_mapM {γ : Type} {f : α → Except ε β} {items : List α} {results : List β}
    {p : β → γ} {q : α → γ} (h : items.mapM f = .ok results)
    (hpq : ∀ a b, f a = .ok b → p b = q a) : results.map p = items.map q := by
  have hpairs := forall₂_of_mapM h
  clear h
  induction hpairs with
  | nil => rfl
  | cons ha _ ih => rw [List.map_cons, List.map_cons, hpq _ _ ha, ih]

/-- Treating each item of a list stops at the first item that fails. -/
theorem mapM_eq_error_iff {f : α → Except ε β} {items : List α} {error : ε} :
    items.mapM f = .error error ↔ ∃ before a after, items = before ++ a :: after ∧
      (∀ b ∈ before, ∃ result, f b = .ok result) ∧ f a = .error error := by
  constructor
  · intro h
    induction items with
    | nil => cases h
    | cons a items ih =>
      rw [List.mapM_cons] at h
      cases ha : f a with
      | error other =>
        rw [ha] at h
        cases h
        exact ⟨[], a, items, rfl, nofun, ha⟩
      | ok result =>
        have hrest : items.mapM f = .error error := by
          rw [ha] at h
          cases hitems : items.mapM f with
          | error other =>
            rw [hitems] at h
            cases h
            rfl
          | ok results =>
            rw [hitems] at h
            cases h
        obtain ⟨before, b, after, rfl, hbefore, hb⟩ := ih hrest
        exact ⟨a :: before, b, after, rfl, List.forall_mem_cons.2 ⟨⟨result, ha⟩, hbefore⟩, hb⟩
  · intro ⟨before, a, after, hitems, hbefore, ha⟩
    subst hitems
    induction before with
    | nil =>
      rw [List.nil_append, List.mapM_cons, ha]
      rfl
    | cons b before ih =>
      obtain ⟨⟨result, hb⟩, hrest⟩ := List.forall_mem_cons.1 hbefore
      rw [List.cons_append, List.mapM_cons, hb, ih hrest]
      rfl

/-- Where it is known which items give a result, these are paired with the results in order. -/
theorem forall₂_filterMap {f : α → Option β} {p : α → Bool} {R : α → β → Prop} {items : List α}
    (hp : ∀ a ∈ items, p a = (f a).isSome) (hR : ∀ a ∈ items, ∀ b, f a = some b → R a b) :
    List.Forall₂ R (items.filter p) (items.filterMap f) := by
  induction items with
  | nil => exact .nil
  | cons a items ih =>
    obtain ⟨hpa, hprest⟩ := List.forall_mem_cons.1 hp
    obtain ⟨hRa, hRrest⟩ := List.forall_mem_cons.1 hR
    cases ha : f a with
    | none =>
      rw [ha] at hpa
      rw [List.filterMap_cons_none ha, List.filter_cons_of_neg (by simp [hpa])]
      exact ih hprest hRrest
    | some b =>
      rw [ha] at hpa
      rw [List.filterMap_cons_some ha, List.filter_cons_of_pos hpa]
      exact .cons (hRa b ha) (ih hprest hRrest)

end OntoGraph.Fallible
