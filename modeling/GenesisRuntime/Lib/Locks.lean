/-
  GenesisRuntime.Lib.Locks

  Locks whose guards a thread keeps from one operation to the next.

  The locks are ordered.  A program is disciplined when it asks for a lock only while
  every guard it holds is of a smaller one, and holds none where it is suspended and
  when it returns.  Threads that run disciplined programs never wait for each other in
  a circle: the holder of the lock that one waits for waits, if at all, for a greater one.

  Where the number of operations of every program is bounded too, a run ends after so
  many steps, and it ends with every program returned.
-/

import GenesisRuntime.Lib.Interleave
import Mathlib.Data.Fintype.Order
import Mathlib.Order.WellFounded

open Prog (Event Follows Spec)

/-- What operations have to do with locks. -/
structure Locking (Op : Type) (Resp : Op → Type) (Lock : Type) where
  /-- The lock an operation asks for. -/
  asks : Op → Option Lock
  /-- The lock whose guard the thread keeps after an event. -/
  takes : Event Op Resp → Option Lock
  /-- The lock whose guard the thread gives up with an event. -/
  gives : Event Op Resp → Option Lock
  /-- Whether the thread is suspended at an operation, for as long as others like. -/
  suspends : Op → Bool

namespace Locking

variable {Op : Type} {Resp : Op → Type} {Lock : Type} {α β ε : Type} [LinearOrder Lock]
  (L : Locking Op Resp Lock)

/-- The guards held after one more event. -/
def after (guards : List Lock) (ev : Event Op Resp) : List Lock :=
  (L.takes ev).toList ++ guards.filter fun guard => L.gives ev ≠ some guard

/-- The guards held after a history. -/
def held (h : List (Event Op Resp)) : List Lock := h.foldl L.after []

@[simp] theorem held_nil : L.held [] = [] := rfl

@[simp] theorem held_snoc (h : List (Event Op Resp)) (ev : Event Op Resp) :
    L.held (h ++ [ev]) = L.after (L.held h) ev := by
  simp [held]

/-- An event that neither takes nor gives a guard. -/
def Keeps (ev : Event Op Resp) : Prop := L.takes ev = none ∧ L.gives ev = none

theorem after_of_keeps {ev : Event Op Resp} (h : L.Keeps ev) (guards : List Lock) :
    L.after guards ev = guards := by
  simp [after, h.1, h.2]

/-- What holds before an operation of a disciplined program. -/
structure Ordered (h : List (Event Op Resp)) (o : Op) : Prop where
  below : ∀ l ∈ L.asks o, ∀ guard ∈ L.held h, guard < l
  suspended : L.suspends o = true → L.held h = []

-- ============================================================================
-- Disciplined programs
-- ============================================================================

/-- Started with some guards, the program is disciplined, performs at most `n` operations
    and returns with other guards. -/
def Runs (guards guards' : List Lock) (n : Nat) (p : Prog Op Resp α) : Prop :=
  ∀ h, L.held h = guards →
    Spec (fun h' o => L.Ordered h' o ∧ h'.length < h.length + n)
      (fun h' _ => L.held h' = guards' ∧ h'.length ≤ h.length + n) h p

namespace Runs

variable {L} {guards guards' guards'' : List Lock} {n m : Nat}

theorem ret (a : α) : L.Runs guards guards 0 (.ret a : Prog Op Resp α) :=
  fun _ hheld => ⟨hheld, le_rfl⟩

theorem mono {p : Prog Op Resp α} (hp : L.Runs guards guards' n p) (hnm : n ≤ m) :
    L.Runs guards guards' m p := by
  intro h hheld
  refine (hp h hheld).mono ?_ ?_
  · rintro h' o ⟨hordered, hlength⟩
    exact ⟨hordered, by omega⟩
  · rintro h' a ⟨hheld', hlength⟩
    exact ⟨hheld', by omega⟩

theorem bind {p : Prog Op Resp α} {f : α → Prog Op Resp β} (hp : L.Runs guards guards' n p)
    (hf : ∀ a, L.Runs guards' guards'' m (f a)) : L.Runs guards guards'' (m + n) (p >>= f) := by
  intro h hheld
  refine Spec.bind ((hp h hheld).mono ?_ ?_)
  · rintro h' o ⟨hordered, hlength⟩
    exact ⟨hordered, by omega⟩
  · rintro h' a ⟨hheld', hlength⟩
    refine (hf a h' hheld').mono ?_ ?_
    · rintro h'' o ⟨hordered, hlength'⟩
      exact ⟨hordered, by omega⟩
    · rintro h'' b ⟨hheld'', hlength'⟩
      exact ⟨hheld'', by omega⟩

theorem map {p : Prog Op Resp α} {f : α → β} (hp : L.Runs guards guards' n p) :
    L.Runs guards guards' n (f <$> p) :=
  (hp.bind fun a => ret (f a)).mono (Nat.zero_add n).le

theorem op {o : Op} {k : Resp o → Prog Op Resp α} (hbelow : ∀ l ∈ L.asks o, ∀ g ∈ guards, g < l)
    (hsuspended : L.suspends o = true → guards = [])
    (hk : ∀ r, L.Runs (L.after guards ⟨o, r⟩) guards' n (k r)) :
    L.Runs guards guards' (n + 1) (.op o k) := by
  intro h hheld
  refine ⟨⟨⟨by rwa [hheld], fun hs => hheld.trans (hsuspended hs)⟩, by omega⟩, fun r => ?_⟩
  have hheld' : L.held (h ++ [⟨o, r⟩]) = L.after guards ⟨o, r⟩ := by rw [held_snoc, hheld]
  refine (hk r _ hheld').mono ?_ ?_
  · rintro h' o' ⟨hordered, hlength⟩
    rw [List.length_append, List.length_singleton] at hlength
    exact ⟨hordered, by omega⟩
  · rintro h' a ⟨hheld'', hlength⟩
    rw [List.length_append, List.length_singleton] at hlength
    exact ⟨hheld'', by omega⟩

-- programs that can fail, and then leave the guards as they were

theorem bindE {x : ExceptT ε (Prog Op Resp) α} {f : α → ExceptT ε (Prog Op Resp) β}
    (hx : L.Runs guards guards n x.run) (hf : ∀ a, L.Runs guards guards m (f a).run) :
    L.Runs guards guards (m + n) (x >>= f).run := by
  refine Runs.bind hx ?_
  rintro (e | a)
  · exact (ret _).mono (Nat.zero_le _)
  · exact hf a

theorem pureE (a : α) : L.Runs guards guards 0 (pure a : ExceptT ε (Prog Op Resp) α).run := ret _

theorem throwE (e : ε) : L.Runs guards guards 0 (throw e : ExceptT ε (Prog Op Resp) α).run :=
  ret _

/-- Where the outcome of a part is taken as a value, the guards can be others after it. -/
theorem outcomeE {ε' : Type} {x : ExceptT ε' (Prog Op Resp) α}
    {f : Except ε' α → ExceptT ε (Prog Op Resp) β} (hx : L.Runs guards guards' n x.run)
    (hf : ∀ r, L.Runs guards' guards'' m (f r).run) :
    L.Runs guards guards'' (m + n) (Prog.outcomeOf x >>= f).run := by
  intro h hheld
  refine Spec.outcomeE ((hx h hheld).mono ?_ ?_)
  · rintro h' o ⟨hordered, hlength⟩
    exact ⟨hordered, by omega⟩
  · rintro h' r ⟨hheld', hlength⟩
    refine (hf r h' hheld').mono ?_ ?_
    · rintro h'' o ⟨hordered, hlength'⟩
      exact ⟨hordered, by omega⟩
    · rintro h'' b ⟨hheld'', hlength'⟩
      exact ⟨hheld'', by omega⟩

theorem adaptE {ε' : Type} {g : ε → ε'} {x : ExceptT ε (Prog Op Resp) α}
    (hx : L.Runs guards guards' n x.run) : L.Runs guards guards' n (ExceptT.adapt g x).run :=
  hx.map

end Runs

/-- Every call runs a disciplined program of at most `n` operations. -/
structure Disciplined {World Input Call Outcome : Type}
    (S : System World Op Input Call Outcome Resp) (n : Nat) : Prop where
  runs : ∀ call, L.Runs [] [] n (S.code call)

namespace Disciplined

variable {L} {World Input Call Outcome : Type} {S : System World Op Input Call Outcome Resp}
  {n : Nat} (hS : L.Disciplined S n)
include hS

theorem spec (call : Call) : Spec (fun h o => L.Ordered h o ∧ h.length < n)
    (fun h _ => L.held h = [] ∧ h.length ≤ n) [] (S.code call) := by
  have hspec := hS.runs call [] rfl
  simpa only [List.length_nil, Nat.zero_add] using hspec

end Disciplined

end Locking

-- ============================================================================
-- Runs of disciplined programs
-- ============================================================================

variable {World Op Input Call Outcome Lock : Type} {Resp : Op → Type}

/-- The call has returned. -/
def Thread.Returned (thread : Thread Op Call Outcome Resp) : Prop :=
  ∃ outcome, thread.prog = .ret outcome

theorem Thread.returned_or_at (thread : Thread Op Call Outcome Resp) :
    thread.Returned ∨ ∃ o k, thread.prog = .op o k := by
  cases h : thread.prog with
  | ret outcome => exact .inl ⟨outcome, h⟩
  | op o k => exact .inr ⟨o, k, rfl⟩

/-- The threads of `c` have gone on to `c'`, and no call has been started since. -/
inductive Config.GoesOn (S : System World Op Input Call Outcome Resp)
    (admits : World → Op → Input → Prop) (c : Config World Op Input Call Outcome Resp) :
    Config World Op Input Call Outcome Resp → Prop where
  | refl : GoesOn S admits c c
  | step {c' : Config World Op Input Call Outcome Resp} (goes : GoesOn S admits c c') (t : Nat)
      (thread : Thread Op Call Outcome Resp) (o : Op) (k : Resp o → Prog Op Resp Outcome)
      (input : Input) (hthread : c'.threads[t]? = some thread) (hprog : thread.prog = .op o k)
      (enabled : S.enabled t o c'.world) (admitted : admits c'.world o input) :
      GoesOn S admits c (c'.step S t thread o k input)

/-- Going on starts no call. -/
theorem Config.GoesOn.calls_eq {S : System World Op Input Call Outcome Resp}
    {admits : World → Op → Input → Prop} {c c' : Config World Op Input Call Outcome Resp}
    (goes : c.GoesOn S admits c') : c'.threads.map Thread.call = c.threads.map Thread.call := by
  induction goes with
  | refl => rfl
  | step _ t thread o k input hthread hprog _ _ ih =>
      rw [← ih]
      refine List.ext_getElem? fun i => ?_
      simp only [Config.step, List.getElem?_map, List.getElem?_set]
      split
      · rename_i heq
        subst heq
        rw [hthread]
        split
        · rfl
        · rename_i hlt
          exact absurd (List.getElem?_eq_some_iff.mp hthread).1 hlt
      · rfl

/-- Nobody holds the lock that the operation asks for. -/
def Config.Free [LinearOrder Lock] (L : Locking Op Resp Lock)
    (c : Config World Op Input Call Outcome Resp) (o : Op) : Prop :=
  ∀ l ∈ L.asks o, ∀ t, l ∉ L.held (historyOf c.trace t)

namespace Run

variable {S : System World Op Input Call Outcome Resp} {init : World}
  {admits : World → Op → Input → Prop}
  {maySpawn : Config World Op Input Call Outcome Resp → Call → Prop}
  {c : Config World Op Input Call Outcome Resp}

theorem goesOn (run : Run S init admits maySpawn c)
    {c' : Config World Op Input Call Outcome Resp} (goes : c.GoesOn S admits c') :
    Run S init admits maySpawn c' := by
  induction goes with
  | refl => exact run
  | step _ t thread o k input hthread hprog enabled admitted ih =>
      exact .step ih t thread o k input hthread hprog enabled admitted

/-- Every step is one of some thread. -/
theorem length_trace (run : Run S init admits maySpawn c) :
    c.trace.length = ∑ t ∈ Finset.range c.threads.length, (historyOf c.trace t).length := by
  induction run with
  | start => simp [historyOf]
  | @spawn c run call may ih =>
      have hnone : historyOf c.trace c.threads.length = [] := by
        have hlt := run.tid_lt
        rw [historyOf, List.map_eq_nil_iff, List.filter_eq_nil_iff]
        intro e he
        have := hlt e he
        simp only [decide_eq_true_eq]
        omega
      simp only [Config.spawn, List.length_append, List.length_singleton]
      rw [Finset.sum_range_succ, hnone, ← ih, List.length_nil, Nat.add_zero]
  | @step c run t thread o k input hthread hprog enabled admitted ih =>
      have hlt := (List.getElem?_eq_some_iff.mp hthread).1
      have hsnoc (t' : Nat) : (historyOf (c.step S t thread o k input).trace t').length
          = (historyOf c.trace t').length + if t' = t then 1 else 0 := by
        simp only [Config.step, historyOf_snoc, List.length_append, eq_comm (a := t)]
        split <;> rfl
      simp only [hsnoc, Finset.sum_add_distrib, Finset.sum_ite_eq']
      simp only [Config.step, List.length_append, List.length_singleton, List.length_set,
        Finset.mem_range, hlt, if_true, ← ih]

section
variable [LinearOrder Lock] {L : Locking Op Resp Lock} {n : Nat}

/-- The discipline is kept at every step. -/
theorem ordered (hS : L.Disciplined S n) (run : Run S init admits maySpawn c) {i : Nat}
    {e : Entry World Op Input Resp} (he : c.trace[i]? = some e) :
    L.Ordered (historyOf (c.trace.take i) e.tid) e.op := by
  obtain ⟨-, -, hordered, -⟩ := run.spec_before hS.spec he
  exact hordered

/-- A thread that holds a guard has an operation to perform, asking for a greater lock if
    for any. -/
theorem at_of_held (hS : L.Disciplined S n) (run : Run S init admits maySpawn c) {t : Nat}
    {l : Lock} (hheld : l ∈ L.held (historyOf c.trace t)) :
    ∃ (thread : Thread Op Call Outcome Resp) (o : Op) (k : Resp o → Prog Op Resp Outcome),
      c.threads[t]? = some thread ∧ thread.prog = .op o k ∧ ∀ l' ∈ L.asks o, l < l' := by
  have hsome : historyOf c.trace t ≠ [] := by
    intro hnil
    rw [hnil] at hheld
    cases hheld
  obtain ⟨ev, hev⟩ := List.exists_mem_of_ne_nil _ hsome
  obtain ⟨i, e, -, he, rfl, -⟩ := exists_of_mem_historyOf hev
  have hlt := run.tid_lt e (List.mem_of_getElem? he)
  have hthread : c.threads[e.tid]? = some c.threads[e.tid] := List.getElem?_eq_getElem hlt
  have hrest := run.spec_rest hS.spec hthread
  rcases (c.threads[e.tid]).returned_or_at with ⟨outcome, hret⟩ | ⟨o, k, hop⟩
  · rw [hret] at hrest
    rw [hrest.1] at hheld
    cases hheld
  · rw [hop] at hrest
    exact ⟨_, o, k, hthread, hop, fun l' hl' => hrest.1.1.below l' hl' l hheld⟩

/-- Where a call has not returned, there is one that nobody is in the way of. -/
theorem exists_free [WellFoundedGT Lock] (hS : L.Disciplined S n)
    (run : Run S init admits maySpawn c) (hpending : ∃ thread ∈ c.threads, ¬ thread.Returned) :
    ∃ (t : Nat) (thread : Thread Op Call Outcome Resp) (o : Op) (k : Resp o → Prog Op Resp Outcome),
      c.threads[t]? = some thread ∧ thread.prog = .op o k ∧ c.Free L o := by
  by_contra hnone
  have hstuck : ∀ (t : Nat) (thread : Thread Op Call Outcome Resp) (o : Op)
      (k : Resp o → Prog Op Resp Outcome), c.threads[t]? = some thread → thread.prog = .op o k →
      ∃ l ∈ L.asks o, ∃ t', l ∈ L.held (historyOf c.trace t') := by
    intro t thread o k hthread hprog
    by_contra hfree
    exact hnone ⟨t, thread, o, k, hthread, hprog, fun l hl t' hheld => hfree ⟨l, hl, t', hheld⟩⟩
  -- whoever holds a lock would wait for a greater one
  have hheld : ∀ l t, l ∉ L.held (historyOf c.trace t) := by
    intro l
    induction l using WellFoundedGT.induction with
    | ind l ih =>
        intro t hheld
        obtain ⟨thread, o, k, hthread, hprog, habove⟩ := at_of_held hS run hheld
        obtain ⟨l', hl', t', hheld'⟩ := hstuck t thread o k hthread hprog
        exact ih l' (habove l' hl') t' hheld'
  obtain ⟨thread, hmem, hpending⟩ := hpending
  obtain ⟨t, hthread⟩ := List.mem_iff_getElem?.mp hmem
  rcases thread.returned_or_at with hret | ⟨o, k, hprog⟩
  · exact hpending hret
  · obtain ⟨l, -, t', hheld'⟩ := hstuck t thread o k hthread hprog
    exact hheld l t' hheld'

/-- A call has at most so many steps of its own. -/
theorem length_historyOf_le (hS : L.Disciplined S n) (run : Run S init admits maySpawn c) {t : Nat}
    {thread : Thread Op Call Outcome Resp} (hthread : c.threads[t]? = some thread) :
    (historyOf c.trace t).length ≤ n := by
  have hrest := run.spec_rest hS.spec hthread
  rcases thread.returned_or_at with ⟨outcome, hret⟩ | ⟨o, k, hop⟩
  · rw [hret] at hrest
    exact hrest.2
  · rw [hop] at hrest
    exact hrest.1.2.le

/-- So a run has at most so many steps for each of its calls. -/
theorem length_trace_le (hS : L.Disciplined S n) (run : Run S init admits maySpawn c) :
    c.trace.length ≤ c.threads.length * n := by
  rw [run.length_trace]
  have hle : ∀ t ∈ Finset.range c.threads.length, (historyOf c.trace t).length ≤ n :=
    fun t ht => length_historyOf_le hS run (List.getElem?_eq_getElem (Finset.mem_range.mp ht))
  calc ∑ t ∈ Finset.range c.threads.length, (historyOf c.trace t).length
      ≤ ∑ _t ∈ Finset.range c.threads.length, n := Finset.sum_le_sum hle
    _ = c.threads.length * n := by simp

/-- From wherever a run has got to, it can go on until every call has returned; it cannot
    go on forever, and it cannot get stuck before. -/
theorem exists_completed [WellFoundedGT Lock] (hS : L.Disciplined S n)
    (henabled : ∀ {c}, Run S init admits maySpawn c → ∀ {t o}, c.Free L o → S.enabled t o c.world)
    (hadmits : ∀ w o, ∃ input, admits w o input) (run : Run S init admits maySpawn c) :
    ∃ c', c.GoesOn S admits c' ∧ ∀ thread ∈ c'.threads, thread.Returned := by
  -- by induction on the steps that are left
  suffices hgoes : ∀ left c', c.GoesOn S admits c' →
      c'.threads.length * n - c'.trace.length = left →
      ∃ c'', c.GoesOn S admits c'' ∧ ∀ thread ∈ c''.threads, thread.Returned from
    hgoes _ c .refl rfl
  intro left
  induction left using Nat.strongRecOn with
  | ind left ih =>
      rintro c' goes rfl
      by_cases hpending : ∃ thread ∈ c'.threads, ¬ thread.Returned
      · have run' := run.goesOn goes
        obtain ⟨t, thread, o, k, hthread, hprog, hfree⟩ := exists_free hS run' hpending
        obtain ⟨input, hinput⟩ := hadmits c'.world o
        have goes' := goes.step t thread o k input hthread hprog (henabled run' hfree) hinput
        have hle := length_trace_le hS (run.goesOn goes')
        simp only [Config.step, List.length_append, List.length_singleton, List.length_set] at hle
        refine ih _ ?_ _ goes' rfl
        simp only [Config.step, List.length_append, List.length_singleton, List.length_set]
        omega
      · push Not at hpending
        exact ⟨c', goes, hpending⟩

end

end Run
