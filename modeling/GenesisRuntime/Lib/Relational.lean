/-
  GenesisRuntime.Lib.Relational

  Relational rules for computations that can fail (`EStateM`): two of them, run from
  related states, fail with one error or return related values, and leave related
  states.  There is one rule for each construct.
-/

import GenesisRuntime.Lib.EState

namespace EStateM

section
variable {ε σ τ α β γ δ ι : Type}

/-- How two related computations end. -/
inductive RelatedResult (R : σ → τ → Prop) (V : α → β → Prop) :
    EStateM.Result ε σ α → EStateM.Result ε τ β → Prop where
  | ok {a : α} {b : β} {s : σ} {t : τ} (value : V a b) (state : R s t) :
      RelatedResult R V (.ok a s) (.ok b t)
  | error (e : ε) {s : σ} {t : τ} (state : R s t) : RelatedResult R V (.error e s) (.error e t)

/-- From these two states the computations end alike. -/
def RelatedAt (R : σ → τ → Prop) (V : α → β → Prop) (x : EStateM ε σ α) (y : EStateM ε τ β)
    (s : σ) (t : τ) : Prop := RelatedResult R V (x s) (y t)

/-- From related states the computations end alike. -/
def Related (R : σ → τ → Prop) (V : α → β → Prop) (x : EStateM ε σ α) (y : EStateM ε τ β) :
    Prop := ∀ s t, R s t → RelatedAt R V x y s t

variable {R : σ → τ → Prop} {V : α → β → Prop} {W : γ → δ → Prop}

theorem related_pure {a : α} {b : β} (h : V a b) :
    Related R V (pure a : EStateM ε σ α) (pure b : EStateM ε τ β) :=
  fun _ _ hst => .ok h hst

theorem related_throw (e : ε) :
    Related R V (throw e : EStateM ε σ α) (throw e : EStateM ε τ β) :=
  fun _ _ hst => .error e hst

/-- What follows a look at the states is related at these states only. -/
theorem related_get {f : σ → EStateM ε σ γ} {g : τ → EStateM ε τ δ}
    (h : ∀ s t, R s t → RelatedAt R W (f s) (g t) s t) : Related R W (get >>= f) (get >>= g) :=
  h

theorem relatedAt_get {f : σ → EStateM ε σ γ} {g : τ → EStateM ε τ δ} {s : σ} {t : τ}
    (h : RelatedAt R W (f s) (g t) s t) : RelatedAt R W (get >>= f) (get >>= g) s t :=
  h

theorem related_modify {f : σ → σ} {g : τ → τ} (h : ∀ s t, R s t → R (f s) (g t)) :
    Related R Eq (modify f : EStateM ε σ PUnit) (modify g : EStateM ε τ PUnit) :=
  fun s t hst => .ok rfl (h s t hst)

namespace RelatedAt

theorem bind {x : EStateM ε σ α} {y : EStateM ε τ β} {f : α → EStateM ε σ γ}
    {g : β → EStateM ε τ δ} {s : σ} {t : τ} (hxy : RelatedAt R V x y s t)
    (hfg : ∀ a b, V a b → Related R W (f a) (g b)) : RelatedAt R W (x >>= f) (y >>= g) s t := by
  rw [RelatedAt] at hxy ⊢
  rw [bind_apply, bind_apply]
  generalize x s = r, y t = r' at hxy
  cases hxy with
  | ok value state => exact hfg _ _ value _ _ state
  | error e state => exact .error e state

end RelatedAt

/-- Run a computation, and return how it has ended. -/
def attempt (x : EStateM ε σ α) : EStateM ε σ (Except ε α) := fun s =>
  match x s with
  | .ok a s' => .ok (.ok a) s'
  | .error e s' => .ok (.error e) s'

theorem exists_attempt (x : EStateM ε σ α) (s : σ) : ∃ r s', attempt x s = .ok r s' := by
  rw [attempt]
  cases x s with
  | ok a s' => exact ⟨_, _, rfl⟩
  | error e s' => exact ⟨_, _, rfl⟩

namespace Related

theorem bind {x : EStateM ε σ α} {y : EStateM ε τ β} {f : α → EStateM ε σ γ}
    {g : β → EStateM ε τ δ} (hxy : Related R V x y) (hfg : ∀ a b, V a b → Related R W (f a) (g b)) :
    Related R W (x >>= f) (y >>= g) :=
  fun s t hst => (hxy s t hst).bind hfg

/-- The rule for values that are compared as they are. -/
theorem bindEq {x : EStateM ε σ α} {y : EStateM ε τ α} {f : α → EStateM ε σ γ}
    {g : α → EStateM ε τ δ} (hxy : Related R Eq x y) (hfg : ∀ a, Related R W (f a) (g a)) :
    Related R W (x >>= f) (y >>= g) :=
  hxy.bind fun a b hab => by
    subst hab
    exact hfg a

theorem map {x : EStateM ε σ α} {y : EStateM ε τ α} (hxy : Related R Eq x y) (f : α → γ) :
    Related R Eq (f <$> x) (f <$> y) := by
  rw [map_eq_pure_bind, map_eq_pure_bind]
  exact hxy.bindEq fun a => related_pure rfl

/-- An attempt does not fail, and returns the same errors. -/
theorem attempt {x : EStateM ε σ α} {y : EStateM ε τ α} (hxy : Related R Eq x y) :
    Related R Eq (attempt x) (attempt y) := by
  intro s t hst
  have hends := hxy s t hst
  rw [RelatedAt] at hends ⊢
  rw [EStateM.attempt, EStateM.attempt]
  generalize x s = r, y t = r' at hends
  cases hends with
  | ok value state => exact .ok (congrArg _ value) state
  | error e state => exact .ok rfl state

/-- A loop over one list, by the rule for its body. -/
theorem forM {xs : List ι} {f : ι → EStateM ε σ PUnit} {g : ι → EStateM ε τ PUnit}
    (hfg : ∀ i, Related R Eq (f i) (g i)) : Related R Eq (forM xs f) (forM xs g) := by
  induction xs with
  | nil => exact related_pure rfl
  | cons x xs ih =>
      rw [List.forM_cons, List.forM_cons]
      exact (hfg x).bindEq fun _ => ih

/-- A fold over one list, by the rule for its body. -/
theorem foldlM {xs : List ι} {f : α → ι → EStateM ε σ α} {g : α → ι → EStateM ε τ α}
    (hfg : ∀ a i, Related R Eq (f a i) (g a i)) (a : α) :
    Related R Eq (xs.foldlM f a) (xs.foldlM g a) := by
  induction xs generalizing a with
  | nil => exact related_pure rfl
  | cons x xs ih =>
      rw [List.foldlM_cons, List.foldlM_cons]
      exact (hfg a x).bindEq ih

/-- A traversal of one list, by the rule for its body. -/
theorem mapM {xs : List ι} {f : ι → EStateM ε σ α} {g : ι → EStateM ε τ α}
    (hfg : ∀ i, Related R Eq (f i) (g i)) : Related R Eq (xs.mapM f) (xs.mapM g) := by
  induction xs with
  | nil => exact related_pure rfl
  | cons x xs ih =>
      rw [List.mapM_cons, List.mapM_cons]
      exact (hfg x).bindEq fun _ => ih.bindEq fun _ => related_pure rfl

end Related

end

end EStateM
