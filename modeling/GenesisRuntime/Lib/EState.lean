/-
  GenesisRuntime.Lib.EState

  Rules for computations that can fail and that keep what they had changed when
  they do (`EStateM`): reading a successful run back step by step, and telling
  which computations fail only before they have changed anything.
-/

import Mathlib.Data.List.Basic

namespace EStateM

variable {ε σ α β : Type}

theorem bind_apply (x : EStateM ε σ α) (f : α → EStateM ε σ β) (s : σ) :
    (x >>= f) s = match x s with
      | .ok a s' => f a s'
      | .error e s' => .error e s' := by
  simp only [bind, EStateM.bind]
  cases x s <;> rfl

theorem bind_eq_ok {x : EStateM ε σ α} {f : α → EStateM ε σ β} {s s'' : σ} {b : β} :
    (x >>= f) s = .ok b s'' ↔ ∃ a s', x s = .ok a s' ∧ f a s' = .ok b s'' := by
  rw [bind_apply]
  cases x s <;> simp

theorem pure_eq_ok {s s' : σ} {a b : α} :
    (pure a : EStateM ε σ α) s = .ok b s' ↔ a = b ∧ s = s' := by
  simp [pure, EStateM.pure]

theorem get_eq_ok {s s' t : σ} :
    (get : EStateM ε σ σ) s = .ok t s' ↔ s = t ∧ s = s' := by
  have hget : (get : EStateM ε σ σ) s = .ok s s := rfl
  rw [hget, EStateM.Result.ok.injEq]

theorem modify_eq_ok {f : σ → σ} {s s' : σ} {u : PUnit} :
    (modify f : EStateM ε σ PUnit) s = .ok u s' ↔ f s = s' := by
  have hmodify : (modify f : EStateM ε σ PUnit) s = .ok ⟨⟩ (f s) := rfl
  rw [hmodify, EStateM.Result.ok.injEq]
  exact and_iff_right rfl

theorem get_bind_eq_ok {f : σ → EStateM ε σ β} {s s' : σ} {b : β} :
    ((get : EStateM ε σ σ) >>= f) s = .ok b s' ↔ f s s = .ok b s' := by
  rw [bind_apply]
  rfl

theorem modify_bind_eq_ok {g : σ → σ} {f : PUnit → EStateM ε σ β} {s s' : σ} {b : β} :
    ((modify g : EStateM ε σ PUnit) >>= f) s = .ok b s' ↔ f ⟨⟩ (g s) = .ok b s' := by
  rw [bind_apply]
  rfl

theorem throw_eq_ok {e : ε} {s s' : σ} {a : α} :
    (throw e : EStateM ε σ α) s = .ok a s' ↔ False := by
  have hthrow : (throw e : EStateM ε σ α) s = .error e s := rfl
  rw [hthrow]
  exact ⟨nofun, False.elim⟩

-- ============================================================================
-- Failing without a trace
-- ============================================================================

/-- Whatever comes of it, the computation leaves the state alone. -/
def Reads (x : EStateM ε σ α) : Prop :=
  ∀ s, (∃ a, x s = .ok a s) ∨ (∃ e, x s = .error e s)

/-- From this state, a failure leaves the state alone. -/
def FailsClean (x : EStateM ε σ α) (s : σ) : Prop :=
  ∀ e s', x s = .error e s' → s' = s

/-- Dropping or changing the value that is returned adds no failure. -/
theorem FailsClean.bind_pure {x : EStateM ε σ α} {s : σ} (h : FailsClean x s) (f : α → β) :
    FailsClean (x >>= fun a => pure (f a)) s := by
  intro e s' hx
  rw [bind_apply] at hx
  split at hx
  · cases hx
  · rename_i e' t heq
    cases hx
    exact h e s' heq

theorem failsClean_of_ok {x : EStateM ε σ α} {s : σ} (h : ∃ a s', x s = .ok a s') :
    FailsClean x s := by
  obtain ⟨a, s', h⟩ := h
  intro e t hx
  rw [h] at hx
  cases hx

/-- After steps that only read, it is the rest that has to fail cleanly. -/
theorem Reads.failsClean_bind {x : EStateM ε σ α} {f : α → EStateM ε σ β} {s : σ}
    (hx : Reads x) (hf : ∀ a, x s = .ok a s → FailsClean (f a) s) :
    FailsClean (x >>= f) s := by
  intro e s' h
  rw [bind_apply] at h
  rcases hx s with ⟨a, ha⟩ | ⟨e', he⟩
  · rw [ha] at h
    exact hf a ha e s' h
  · rw [he] at h
    cases h
    rfl

theorem reads_get : Reads (get : EStateM ε σ σ) :=
  fun s => .inl ⟨s, rfl⟩

-- ============================================================================
-- Appending results
-- ============================================================================

/-- The computation appends what it returns to the state, or fails before that. -/
def Emits (P : β → Prop) (x : EStateM ε (List β) β) : Prop :=
  ∀ s, (∃ b, x s = .ok b (s ++ [b]) ∧ P b) ∨ ∃ e, x s = .error e s

/-- A loop of such computations appends what they return, up to the first that fails. -/
theorem mapM_emits {f : α → EStateM ε (List β) β} {P : α → β → Prop}
    (hf : ∀ a, Emits (P a) (f a)) (xs : List α) (s : List β) :
    (∃ bs, xs.mapM f s = .ok bs (s ++ bs) ∧ ∀ b ∈ bs, ∃ a ∈ xs, P a b) ∨
      ∃ e bs, xs.mapM f s = .error e (s ++ bs) ∧ ∀ b ∈ bs, ∃ a ∈ xs, P a b := by
  induction xs generalizing s with
  | nil => exact .inl ⟨[], by rw [List.append_nil]; rfl, nofun⟩
  | cons x xs ih =>
      rw [List.mapM_cons, bind_apply]
      rcases hf x s with ⟨b, hb, hP⟩ | ⟨e, he⟩
      · have hmembers {bs : List β} (hbs : ∀ b ∈ bs, ∃ a ∈ xs, P a b) :
            ∀ b' ∈ b :: bs, ∃ a ∈ x :: xs, P a b' := by
          intro b' hb'
          rcases List.mem_cons.mp hb' with rfl | hb'
          · exact ⟨x, List.mem_cons_self, hP⟩
          · obtain ⟨a, ha, hPa⟩ := hbs b' hb'
            exact ⟨a, List.mem_cons_of_mem x ha, hPa⟩
        simp only [hb, bind_apply]
        rcases ih (s ++ [b]) with ⟨bs, hbs, hPs⟩ | ⟨e, bs, hbs, hPs⟩
        · refine .inl ⟨b :: bs, ?_, hmembers hPs⟩
          rw [hbs, List.append_assoc]
          rfl
        · refine .inr ⟨e, b :: bs, ?_, hmembers hPs⟩
          rw [hbs, List.append_assoc]
          rfl
      · exact .inr ⟨e, [], by rw [he, List.append_nil], nofun⟩

/-- A loop of computations that succeed succeeds. -/
theorem exists_mapM_map_eq_ok {γ : Type} {f : α → EStateM ε σ β} {g : α → γ} {k : β → γ}
    {xs : List α} (h : ∀ x ∈ xs, ∀ s, ∃ b s', f x s = .ok b s' ∧ k b = g x) (s : σ) :
    ∃ bs s', xs.mapM f s = .ok bs s' ∧ bs.map k = xs.map g := by
  induction xs generalizing s with
  | nil => exact ⟨[], s, rfl, rfl⟩
  | cons x xs ih =>
      obtain ⟨b, s₁, hb, hg⟩ := h x List.mem_cons_self s
      obtain ⟨bs, s₂, hbs, hgs⟩ := ih (fun x' hx' => h x' (List.mem_cons_of_mem x hx')) s₁
      refine ⟨b :: bs, s₂, ?_, by rw [List.map_cons, List.map_cons, hg, hgs]⟩
      rw [List.mapM_cons]
      exact bind_eq_ok.mpr ⟨b, s₁, hb, bind_eq_ok.mpr ⟨bs, s₂, hbs, rfl⟩⟩

theorem exists_mapM_eq_ok {f : α → EStateM ε σ β} {xs : List α}
    (h : ∀ x ∈ xs, ∀ s, ∃ b s', f x s = .ok b s') (s : σ) :
    ∃ bs s', xs.mapM f s = .ok bs s' := by
  obtain ⟨bs, s', hbs, -⟩ := exists_mapM_map_eq_ok (g := fun _ => ()) (k := fun _ => ())
    (fun x hx s => by
      obtain ⟨b, s', hb⟩ := h x hx s
      exact ⟨b, s', hb, rfl⟩) s
  exact ⟨bs, s', hbs⟩

-- ============================================================================
-- The errors of a computation
-- ============================================================================

/-- Every error the computation can end with, from this state, has the property. -/
def Raises (P : ε → Prop) (x : EStateM ε σ α) (s : σ) : Prop := ∀ e s', x s = .error e s' → P e

theorem Raises.bind {P : ε → Prop} {x : EStateM ε σ α} {f : α → EStateM ε σ β} {s : σ}
    (hx : Raises P x s) (hf : ∀ a s', x s = .ok a s' → Raises P (f a) s') :
    Raises P (x >>= f) s := by
  intro e s' h
  rw [bind_apply] at h
  split at h
  · rename_i a t heq
    exact hf a t heq e s' h
  · rename_i e' t heq
    cases h
    exact hx e s' heq

theorem raises_of_ok {P : ε → Prop} {x : EStateM ε σ α} {s : σ} (h : ∃ a s', x s = .ok a s') :
    Raises P x s := by
  obtain ⟨a, s', h⟩ := h
  intro e t hx
  rw [h] at hx
  cases hx

end EStateM
