/-
  GenesisRuntime.Lib.Loop

  Loops without a bound.  One turn of a loop is a function of its state: it goes on from
  another state, leaves the loop with a result, or raises an error.  Whether the loop ends
  is a question about how many turns it takes; what it ends with does not depend on how
  many one is ready to wait for.
-/

import Mathlib.Logic.Basic

namespace Loop

variable {σ ε ρ : Type}

/-- At most so many turns of a loop, and what it ends with if that is enough. -/
def run (turn : σ → Except ε (σ ⊕ ρ)) : Nat → σ → Option (Except ε ρ)
  | 0, _ => none
  | turns + 1, state =>
      match turn state with
      | .error e => some (.error e)
      | .ok (.inr result) => some (.ok result)
      | .ok (.inl next) => run turn turns next

variable {turn : σ → Except ε (σ ⊕ ρ)} {state next : σ} {outcome : Except ε ρ}

theorem run_of_next (h : turn state = .ok (.inl next)) (turns : Nat) :
    run turn (turns + 1) state = run turn turns next := by
  rw [run, h]

theorem run_of_result {result : ρ} (h : turn state = .ok (.inr result)) (turns : Nat) :
    run turn (turns + 1) state = some (.ok result) := by
  rw [run, h]

theorem run_of_error {e : ε} (h : turn state = .error e) (turns : Nat) :
    run turn (turns + 1) state = some (.error e) := by
  rw [run, h]

/-- More patience does not change the outcome. -/
theorem run_mono {m n : Nat} (hmn : m ≤ n) (h : run turn m state = some outcome) :
    run turn n state = some outcome := by
  induction m generalizing n state with
  | zero => cases h
  | succ m ih =>
      obtain ⟨n, rfl⟩ : ∃ k, n = k + 1 := ⟨n - 1, by omega⟩
      match hturn : turn state with
      | .error e =>
          rw [run_of_error hturn] at h ⊢
          exact h
      | .ok (.inr result) =>
          rw [run_of_result hturn] at h ⊢
          exact h
      | .ok (.inl next) =>
          rw [run_of_next hturn] at h ⊢
          exact ih (by omega) h

/-- What one turn does under an invariant: it ends the loop as wanted, or keeps the
    invariant and brings a measure down. -/
inductive TurnsTo (turn : σ → Except ε (σ ⊕ ρ)) (Inv : σ → Prop) (measure : σ → Nat)
    (Post : Except ε ρ → Prop) (state : σ) : Prop where
  | raises (e : ε) (h : turn state = .error e) (hpost : Post (.error e))
  | returns (result : ρ) (h : turn state = .ok (.inr result)) (hpost : Post (.ok result))
  | goesOn (next : σ) (h : turn state = .ok (.inl next)) (hinv : Inv next)
      (hlt : measure next < measure state)

/-- The rule for loops: from the invariant, the loop ends within the measure, as wanted. -/
theorem exists_run_of_invariant {Inv : σ → Prop} {measure : σ → Nat} {Post : Except ε ρ → Prop}
    (hturn : ∀ state, Inv state → TurnsTo turn Inv measure Post state) (hinv : Inv state) :
    ∃ outcome, run turn (measure state + 1) state = some outcome ∧ Post outcome := by
  induction hmeasure : measure state using Nat.strongRecOn generalizing state with
  | ind n ih =>
      cases hturn state hinv with
      | raises e h hpost => exact ⟨_, run_of_error h n, hpost⟩
      | returns result h hpost => exact ⟨_, run_of_result h n, hpost⟩
      | goesOn next h hnext hlt =>
          obtain ⟨outcome, hrun, hpost⟩ := ih (measure next) (by omega) hnext rfl
          refine ⟨outcome, ?_, hpost⟩
          rw [run_of_next h]
          exact run_mono (by omega) hrun

end Loop
