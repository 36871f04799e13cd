/-
  GenesisRuntime.Lib.Prog

  Programs as trees of operations: a program has returned, or it performs an
  operation and goes on with the response.  What an operation does is left open,
  so one program can be run in any environment, in particular among others.

  `Spec P Q h p` is the judgement about all that a program does: starting `p` with the
  history `h` behind it, `P` holds of the history and the operation whenever one
  is performed, and `Q` of the history and the value on return, whatever the
  responses.  There is one rule for each way to build a program.

  `Can R Q h s p` is its counterpart for what is possible: with the responses `R`
  offers in the states it leads through, `p` can get from `s` to where `Q` holds.
  Its rules have the same shape.
-/

import Mathlib.Data.List.Basic

/-- A program that performs operations `o : Op`, each with a response in `Resp o`. -/
inductive Prog (Op : Type) (Resp : Op → Type) (α : Type) where
  | ret (a : α)
  | op (o : Op) (k : Resp o → Prog Op Resp α)

namespace Prog

variable {Op : Type} {Resp : Op → Type} {α β ε : Type}

def bind : Prog Op Resp α → (α → Prog Op Resp β) → Prog Op Resp β
  | ret a, f => f a
  | op o k, f => op o fun r => (k r).bind f

instance : Monad (Prog Op Resp) where
  pure := ret
  bind := bind

/-- The program that performs one operation. -/
def perform (o : Op) : Prog Op Resp (Resp o) := op o ret

/-- An operation with its response. -/
structure Event (Op : Type) (Resp : Op → Type) where
  op : Op
  resp : Resp op

/-- `p` has gone through the events of the history and is at `p'` now. -/
inductive Follows (p : Prog Op Resp α) : List (Event Op Resp) → Prog Op Resp α → Prop where
  | start : Follows p [] p
  | event {h : List (Event Op Resp)} {o : Op} {k : Resp o → Prog Op Resp α}
      (before : Follows p h (op o k)) (r : Resp o) : Follows p (h ++ [⟨o, r⟩]) (k r)

-- ============================================================================
-- Specifications
-- ============================================================================

/-- `P` before every operation, and `Q` on return. -/
def Spec (P : List (Event Op Resp) → Op → Prop) (Q : List (Event Op Resp) → α → Prop) :
    List (Event Op Resp) → Prog Op Resp α → Prop
  | h, ret a => Q h a
  | h, op o k => P h o ∧ ∀ r, Spec P Q (h ++ [⟨o, r⟩]) (k r)

section
variable {P P' : List (Event Op Resp) → Op → Prop} {Q Q' : List (Event Op Resp) → α → Prop}
  {h : List (Event Op Resp)}

theorem Spec.mono {p : Prog Op Resp α} (hspec : Spec P Q h p) (hP : ∀ h o, P h o → P' h o)
    (hQ : ∀ h a, Q h a → Q' h a) : Spec P' Q' h p := by
  induction p generalizing h with
  | ret a => exact hQ h a hspec
  | op o k ih => exact ⟨hP h o hspec.1, fun r => ih r (hspec.2 r)⟩

theorem Spec.and {p : Prog Op Resp α} (hspec : Spec P Q h p) (hspec' : Spec P' Q' h p) :
    Spec (fun h o => P h o ∧ P' h o) (fun h a => Q h a ∧ Q' h a) h p := by
  induction p generalizing h with
  | ret a => exact ⟨hspec, hspec'⟩
  | op o k ih => exact ⟨⟨hspec.1, hspec'.1⟩, fun r => ih r (hspec.2 r) (hspec'.2 r)⟩

theorem Spec.bind {p : Prog Op Resp α} {f : α → Prog Op Resp β}
    {Q : List (Event Op Resp) → β → Prop}
    (hspec : Spec P (fun h a => Spec P Q h (f a)) h p) : Spec P Q h (p >>= f) := by
  induction p generalizing h with
  | ret a => exact hspec
  | op o k ih => exact ⟨hspec.1, fun r => ih r (hspec.2 r)⟩

theorem Spec.map {p : Prog Op Resp α} {f : α → β} {Q : List (Event Op Resp) → β → Prop}
    (hspec : Spec P (fun h a => Q h (f a)) h p) : Spec P Q h (f <$> p) :=
  Spec.bind hspec

theorem Spec.trivial (h : List (Event Op Resp)) (p : Prog Op Resp α) :
    Spec (fun _ _ => True) (fun _ _ => True) h p := by
  induction p generalizing h with
  | ret a => exact True.intro
  | op o k ih => exact ⟨True.intro, fun r => ih r (h ++ [⟨o, r⟩])⟩

/-- Whatever a program does, its history goes on from where it was started. -/
theorem Spec.continues (h : List (Event Op Resp)) (p : Prog Op Resp α) :
    Spec (fun h' _ => h <+: h') (fun h' _ => h <+: h') h p := by
  have hlater (q : List (Event Op Resp)) :
      Spec (fun h' _ => h <+: h') (fun h' _ => h <+: h') (h ++ q) p := by
    induction p generalizing q with
    | ret a => exact List.prefix_append h q
    | op o k ih =>
        refine ⟨List.prefix_append h q, fun r => ?_⟩
        rw [List.append_assoc]
        exact ih r (q ++ [⟨o, r⟩])
  simpa using hlater []

/-- What a program has done on return goes on from where it was started, with events of
    the kind its specification allows. -/
theorem Spec.performs {p : Prog Op Resp α} {E : Event Op Resp → Prop} (hspec : Spec P Q h p)
    (hE : ∀ h o r, P h o → E ⟨o, r⟩) :
    Spec P (fun h' a => (∃ q, h' = h ++ q ∧ ∀ ev ∈ q, E ev) ∧ Q h' a) h p := by
  induction p generalizing h with
  | ret a => exact ⟨⟨[], (List.append_nil h).symm, by simp⟩, hspec⟩
  | op o k ih =>
      refine ⟨hspec.1, fun r => (ih r (hspec.2 r)).mono (fun _ _ hP => hP) ?_⟩
      rintro h' a ⟨⟨q, rfl, hq⟩, hQ⟩
      refine ⟨⟨⟨o, r⟩ :: q, by simp, ?_⟩, hQ⟩
      intro ev hev
      rcases List.mem_cons.mp hev with rfl | hev
      · exact hE h o r hspec.1
      · exact hq ev hev

/-- The same before every operation: what has been done by then goes on from where the program
    was started. -/
theorem Spec.performing {p : Prog Op Resp α} {E : Event Op Resp → Prop} (hspec : Spec P Q h p)
    (hE : ∀ h o r, P h o → E ⟨o, r⟩) :
    Spec (fun h' o => P h' o ∧ ∃ q, h' = h ++ q ∧ ∀ ev ∈ q, E ev)
      (fun h' a => Q h' a ∧ ∃ q, h' = h ++ q ∧ ∀ ev ∈ q, E ev) h p := by
  suffices hlater : ∀ q, (∀ ev ∈ q, E ev) → Spec P Q (h ++ q) p →
      Spec (fun h' o => P h' o ∧ ∃ q, h' = h ++ q ∧ ∀ ev ∈ q, E ev)
        (fun h' a => Q h' a ∧ ∃ q, h' = h ++ q ∧ ∀ ev ∈ q, E ev) (h ++ q) p by
    have hstart := hlater [] (by simp)
    rw [List.append_nil] at hstart
    exact hstart hspec
  clear hspec
  intro q hq hspec
  induction p generalizing q with
  | ret a => exact ⟨hspec, q, rfl, hq⟩
  | op o k ih =>
      refine ⟨⟨hspec.1, q, rfl, hq⟩, fun r => ?_⟩
      have hrest := hspec.2 r
      rw [List.append_assoc] at hrest ⊢
      refine ih r (q ++ [⟨o, r⟩]) (fun ev hev => ?_) hrest
      rcases List.mem_append.mp hev with hev | hev
      · exact hq ev hev
      · rw [List.mem_singleton.mp hev]
        exact hE (h ++ q) o r hspec.1

/-- Where a program has got to, the rest of it meets the rest of its specification. -/
theorem Spec.follows {p p' : Prog Op Resp α} {h' : List (Event Op Resp)}
    (hspec : Spec P Q [] p) (hfollows : Follows p h' p') : Spec P Q h' p' := by
  induction hfollows with
  | start => exact hspec
  | event _ r ih => exact ih.2 r

/-- At every operation that is performed, its precondition holds. -/
theorem Spec.before {p : Prog Op Resp α} {h' : List (Event Op Resp)} {o : Op}
    {k : Resp o → Prog Op Resp α} (hspec : Spec P Q [] p) (hfollows : Follows p h' (op o k)) :
    P h' o :=
  (hspec.follows hfollows).1

end

-- ============================================================================
-- Programs that can fail
-- ============================================================================

/-- Perform one operation. -/
def performE (o : Op) : ExceptT ε (Prog Op Resp) (Resp o) := ExceptT.lift (perform o)

/-- Go on with what comes of a program, be it a value or an error. -/
def outcomeOf {ε' : Type} (x : ExceptT ε (Prog Op Resp) α) :
    ExceptT ε' (Prog Op Resp) (Except ε α) :=
  ExceptT.lift x.run

section
variable {P : List (Event Op Resp) → Op → Prop} {h : List (Event Op Resp)}
  {Q : List (Event Op Resp) → Except ε β → Prop}

/-- The rule for a sequence: what the first part returns is handed on, what it
    raises is raised. -/
theorem Spec.bindE {x : ExceptT ε (Prog Op Resp) α} {f : α → ExceptT ε (Prog Op Resp) β}
    (hspec : Spec P (fun h r => match r with
      | .ok a => Spec P Q h (f a).run
      | .error e => Q h (.error e)) h x.run) : Spec P Q h (x >>= f).run := by
  refine Spec.bind (hspec.mono (fun _ _ h => h) ?_)
  rintro h (e | a) hr
  · exact hr
  · exact hr

/-- The rule for an operation in a sequence. -/
theorem Spec.opE {o : Op} {f : Resp o → ExceptT ε (Prog Op Resp) β} (hP : P h o)
    (hr : ∀ r, Spec P Q (h ++ [⟨o, r⟩]) (f r).run) : Spec P Q h (performE o >>= f).run :=
  ⟨hP, hr⟩

/-- The rule for a part whose outcome is taken as a value. -/
theorem Spec.outcomeE {ε' : Type} {x : ExceptT ε' (Prog Op Resp) α}
    {f : Except ε' α → ExceptT ε (Prog Op Resp) β}
    (hspec : Spec P (fun h r => Spec P Q h (f r).run) h x.run) :
    Spec P Q h (outcomeOf x >>= f).run := by
  refine Spec.bindE ?_
  exact Spec.bind (hspec.mono (fun _ _ h => h) fun _ _ hr => hr)

/-- The rule for errors that are mapped. -/
theorem Spec.adaptE {ε' : Type} {g : ε' → ε} {x : ExceptT ε' (Prog Op Resp) β}
    (hspec : Spec P (fun h r => Q h (r.mapError g)) h x.run) :
    Spec P Q h (ExceptT.adapt g x).run := by
  refine Spec.bind (hspec.mono (fun _ _ h => h) ?_)
  rintro h (e | a) hr
  · exact hr
  · exact hr

theorem Spec.pureE {b : β} (hQ : Q h (.ok b)) :
    Spec P Q h (pure b : ExceptT ε (Prog Op Resp) β).run := hQ

theorem Spec.throwE {e : ε} (hQ : Q h (.error e)) :
    Spec P Q h (throw e : ExceptT ε (Prog Op Resp) β).run := hQ

end

-- ============================================================================
-- Where a program can get
-- ============================================================================

/-- With the responses `R` offers, which may move the state, the program can get to
    where `Q` holds of the history, of the state and of what is left of it. -/
inductive Can {σ : Type} (R : σ → (o : Op) → Resp o → σ → Prop)
    (Q : List (Event Op Resp) → σ → Prog Op Resp α → Prop) :
    List (Event Op Resp) → σ → Prog Op Resp α → Prop where
  | stop {h : List (Event Op Resp)} {s : σ} {p : Prog Op Resp α} (here : Q h s p) : Can R Q h s p
  | op {h : List (Event Op Resp)} {s s' : σ} {o : Op} {k : Resp o → Prog Op Resp α} {r : Resp o}
      (offered : R s o r s') (after : Can R Q (h ++ [⟨o, r⟩]) s' (k r)) : Can R Q h s (op o k)

section
variable {σ : Type} {R : σ → (o : Op) → Resp o → σ → Prop} {h : List (Event Op Resp)} {s : σ}

theorem Can.mono {p : Prog Op Resp α} {Q Q' : List (Event Op Resp) → σ → Prog Op Resp α → Prop}
    (can : Can R Q h s p) (himp : ∀ h s p, Q h s p → Q' h s p) : Can R Q' h s p := by
  induction can with
  | stop here => exact .stop (himp _ _ _ here)
  | op offered _ ih => exact .op offered ih

/-- The events on the way are ones the program goes through. -/
theorem Can.exists_follows {p q : Prog Op Resp α}
    {Q : List (Event Op Resp) → σ → Prog Op Resp α → Prop} (can : Can R Q h s q)
    (hfollows : Follows p h q) : ∃ h' s' p', Follows p h' p' ∧ Q h' s' p' := by
  induction can with
  | stop here => exact ⟨_, _, _, hfollows, here⟩
  | @op _ _ _ _ _ r _ _ ih => exact ih (.event hfollows r)

/-- The rule for a sequence: wherever the first part gets, the rest is still to come. -/
theorem Can.bind {p : Prog Op Resp α} {f : α → Prog Op Resp β}
    {Q : List (Event Op Resp) → σ → Prog Op Resp β → Prop}
    (can : Can R (fun h s p => Can R Q h s (p >>= f)) h s p) : Can R Q h s (p >>= f) := by
  induction can with
  | stop here => exact here
  | op offered _ ih => exact .op offered ih

theorem Can.map {p : Prog Op Resp α} {f : α → β}
    {Q : List (Event Op Resp) → σ → Prog Op Resp β → Prop}
    (can : Can R (fun h s p => Can R Q h s (f <$> p)) h s p) : Can R Q h s (f <$> p) :=
  Can.bind can

variable {Q : List (Event Op Resp) → σ → Prog Op Resp (Except ε β) → Prop}

/-- The first part of a sequence returns a value. -/
theorem Can.bindE {x : ExceptT ε (Prog Op Resp) α} {f : α → ExceptT ε (Prog Op Resp) β}
    (can : Can R (fun h s p => ∃ a, p = ret (.ok a) ∧ Can R Q h s (f a).run) h s x.run) :
    Can R Q h s (x >>= f).run := by
  refine Can.bind (can.mono ?_)
  rintro h s _ ⟨a, rfl, after⟩
  exact after

/-- The first part of a sequence raises an error. -/
theorem Can.bind_errorE {x : ExceptT ε (Prog Op Resp) α}
    {f : α → ExceptT ε (Prog Op Resp) β}
    (can : Can R (fun h s p => ∃ e, p = ret (.error e) ∧ Can R Q h s (ret (.error e))) h s x.run) :
    Can R Q h s (x >>= f).run := by
  refine Can.bind (can.mono ?_)
  rintro h s _ ⟨e, rfl, after⟩
  exact after

/-- The rule for an operation in a sequence. -/
theorem Can.opE {o : Op} {f : Resp o → ExceptT ε (Prog Op Resp) β} {r : Resp o} {s' : σ}
    (offered : R s o r s') (after : Can R Q (h ++ [⟨o, r⟩]) s' (f r).run) :
    Can R Q h s (performE o >>= f).run :=
  .op offered after

/-- The rule for a part whose outcome is taken as a value. -/
theorem Can.outcomeE {ε' : Type} {x : ExceptT ε' (Prog Op Resp) α}
    {f : Except ε' α → ExceptT ε (Prog Op Resp) β}
    (can : Can R (fun h s p => ∃ a, p = ret a ∧ Can R Q h s (f a).run) h s x.run) :
    Can R Q h s (outcomeOf x >>= f).run := by
  refine Can.bindE (Can.bind (can.mono ?_))
  rintro h s _ ⟨a, rfl, after⟩
  exact .stop ⟨a, rfl, after⟩

/-- The rule for errors that are mapped. -/
theorem Can.adaptE {ε' : Type} {g : ε' → ε} {x : ExceptT ε' (Prog Op Resp) β}
    (can : Can R (fun h s p => ∃ a, p = ret a ∧ Can R Q h s (ret (a.mapError g))) h s x.run) :
    Can R Q h s (ExceptT.adapt g x).run := by
  refine Can.bind (can.mono ?_)
  rintro h s _ ⟨a | a, rfl, after⟩
  · exact after
  · exact after

end

end Prog
