import Mathlib.Data.List.Forall2

/-!
# Two runs in lockstep

Two runs of steps that may fail are in lockstep when both fail, or both succeed with results that
stand in a given relation. Chains of steps are in lockstep when their steps are.
-/

namespace OntoGraph.Lockstep

variable {α β γ δ σ τ : Type} {R : α → β → Prop} {S : γ → δ → Prop} {T : σ → τ → Prop}

theorem bind {x : Option α} {y : Option β} {f : α → Option γ} {g : β → Option δ}
    (h : Option.Rel R x y) (hnext : ∀ a b, R a b → Option.Rel S (f a) (g b)) :
    Option.Rel S (x >>= f) (y >>= g) := by
  cases h with
  | some hab => exact hnext _ _ hab
  | none => exact .none

theorem map {x : Option α} {y : Option β} {f : α → γ} {g : β → δ} (h : Option.Rel R x y)
    (hnext : ∀ a b, R a b → S (f a) (g b)) : Option.Rel S (x.map f) (y.map g) := by
  cases h with
  | some hab => exact .some (hnext _ _ hab)
  | none => exact .none

theorem map_right {x : Option α} {y : Option β} {g : β → δ} {S : α → δ → Prop}
    (h : Option.Rel R x y) (hnext : ∀ a b, R a b → S a (g b)) : Option.Rel S x (y.map g) := by
  cases h with
  | some hab => exact .some (hnext _ _ hab)
  | none => exact .none

/-- A step that both runs share. -/
theorem same {x : Option α} {R : α → α → Prop} (h : ∀ a, x = some a → R a a) :
    Option.Rel R x x := by
  cases x with
  | some a => exact .some (h a rfl)
  | none => exact .none

/-- After a step that both runs share. -/
theorem bind_same {x : Option α} {f : α → Option γ} {g : α → Option δ}
    (hnext : ∀ a, x = some a → Option.Rel S (f a) (g a)) : Option.Rel S (x >>= f) (x >>= g) := by
  cases x with
  | some a => exact hnext a rfl
  | none => exact .none

theorem mapM {as : List α} {bs : List β} {f : α → Option γ} {g : β → Option δ}
    (h : List.Forall₂ R as bs) (hstep : ∀ a b, R a b → Option.Rel S (f a) (g b)) :
    Option.Rel (List.Forall₂ S) (as.mapM f) (bs.mapM g) := by
  induction h with
  | nil => exact .some .nil
  | cons hab _ ih =>
    rw [List.mapM_cons, List.mapM_cons]
    refine bind (hstep _ _ hab) fun c d hcd ↦ ?_
    exact bind ih fun cs ds hrest ↦ .some (.cons hcd hrest)

theorem foldlM {as : List α} {bs : List β} {f : σ → α → Option σ} {g : τ → β → Option τ}
    (h : List.Forall₂ R as bs)
    (hstep : ∀ s t a b, T s t → R a b → Option.Rel T (f s a) (g t b)) {s : σ} {t : τ}
    (hst : T s t) : Option.Rel T (as.foldlM f s) (bs.foldlM g t) := by
  induction h generalizing s t with
  | nil => exact .some hst
  | cons hab _ ih =>
    rw [List.foldlM_cons, List.foldlM_cons]
    exact bind (hstep _ _ _ _ hst hab) fun s' t' h' ↦ ih h'

theorem imp {R R' : α → β → Prop} {x : Option α} {y : Option β} (h : Option.Rel R x y)
    (himp : ∀ a b, R a b → R' a b) : Option.Rel R' x y := by
  cases h with
  | some hab => exact .some (himp _ _ hab)
  | none => exact .none

/-- Related options are compared alike if their contents are. -/
theorem beq_eq [BEq α] [BEq β] {x x' : Option α} {y y' : Option β} (h : Option.Rel R x y)
    (h' : Option.Rel R x' y') (hbeq : ∀ a a' b b', R a b → R a' b' → (a == a') = (b == b')) :
    (x == x') = (y == y') := by
  cases h with
  | none => cases h' <;> rfl
  | some hab =>
    cases h' with
    | none => rfl
    | some hab' => exact hbeq _ _ _ _ hab hab'

theorem isSome_eq {x : Option α} {y : Option β} (h : Option.Rel R x y) : x.isSome = y.isSome := by
  cases h <;> rfl

theorem isNone_eq {x : Option α} {y : Option β} (h : Option.Rel R x y) : x.isNone = y.isNone := by
  cases h <;> rfl

theorem isEmpty_eq {as : List α} {bs : List β} (h : List.Forall₂ R as bs) :
    as.isEmpty = bs.isEmpty := by
  cases h <;> rfl

/-- Steps that do not tell items from their partners do the same on both. -/
theorem foldlM_map {as : List α} {p : α → α} {f : σ → α → Option σ}
    (h : ∀ s, ∀ a ∈ as, f s (p a) = f s a) (s : σ) : (as.map p).foldlM f s = as.foldlM f s := by
  induction as generalizing s with
  | nil => rfl
  | cons a as ih =>
    rw [List.map_cons, List.foldlM_cons, List.foldlM_cons, h s a List.mem_cons_self]
    exact congrArg _ (funext fun s' ↦ ih (fun s a ha ↦ h s a (List.mem_cons_of_mem _ ha)) s')

/-- Lists in which each item is sent to its partner. -/
theorem forall₂_map {as : List α} {f : α → β} (h : ∀ a ∈ as, R a (f a)) :
    List.Forall₂ R as (as.map f) := by
  rw [List.forall₂_map_right_iff, List.forall₂_same]
  exact h

end OntoGraph.Lockstep
