/-
  GenesisRuntime.Lib.Interleave

  Programs run side by side on a shared world.  A step performs the next
  operation of one thread; which thread steps, when a thread is started and what
  the environment feeds into an operation are all open.  The trace records every
  step with the worlds before and after it.

  A run is related to the programs by the histories of its threads, to the worlds
  by the links between consecutive steps, and to time by the positions in the
  trace.
-/

import GenesisRuntime.Lib.Prog
import Mathlib.Algebra.BigOperators.Group.Finset.Piecewise
import Mathlib.Algebra.Order.BigOperators.Group.Finset

open Prog (Can Event Follows Spec)

/-- What operations do, and what the calls are made of. -/
structure System (World Op Input Call Outcome : Type) (Resp : Op → Type) where
  /-- Whether a thread can perform an operation now, or has to wait. -/
  enabled : Nat → Op → World → Prop
  exec : Nat → (o : Op) → Input → World → Resp o × World
  code : Call → Prog Op Resp Outcome

/-- What thread `t` can do in a world, with an input that is admitted. -/
def System.Offers {World Op Input Call Outcome : Type} {Resp : Op → Type}
    (S : System World Op Input Call Outcome Resp) (admits : World → Op → Input → Prop) (t : Nat)
    (w : World) (o : Op) (r : Resp o) (w' : World) : Prop :=
  S.enabled t o w ∧ ∃ input, admits w o input ∧ S.exec t o input w = (r, w')

/-- One step of a run. -/
structure Entry (World Op Input : Type) (Resp : Op → Type) where
  tid : Nat
  op : Op
  input : Input
  resp : Resp op
  pre : World
  post : World

def Entry.event {World Op Input : Type} {Resp : Op → Type} (e : Entry World Op Input Resp) :
    Event Op Resp :=
  ⟨e.op, e.resp⟩

/-- A call that has been started at the position `born`. -/
structure Thread (Op Call Outcome : Type) (Resp : Op → Type) where
  call : Call
  born : Nat
  prog : Prog Op Resp Outcome

structure Config (World Op Input Call Outcome : Type) (Resp : Op → Type) where
  world : World
  threads : List (Thread Op Call Outcome Resp)
  trace : List (Entry World Op Input Resp)

variable {World Op Input Call Outcome : Type} {Resp : Op → Type}

namespace Config

/-- Start a call. -/
def spawn (S : System World Op Input Call Outcome Resp)
    (c : Config World Op Input Call Outcome Resp) (call : Call) :
    Config World Op Input Call Outcome Resp :=
  { c with threads := c.threads ++ [⟨call, c.trace.length, S.code call⟩] }

/-- Perform one operation of a thread. -/
def step (S : System World Op Input Call Outcome Resp)
    (c : Config World Op Input Call Outcome Resp) (t : Nat)
    (thread : Thread Op Call Outcome Resp) (o : Op) (k : Resp o → Prog Op Resp Outcome)
    (input : Input) : Config World Op Input Call Outcome Resp where
  world := (S.exec t o input c.world).2
  threads := c.threads.set t { thread with prog := k (S.exec t o input c.world).1 }
  trace := c.trace ++ [⟨t, o, input, (S.exec t o input c.world).1, c.world,
    (S.exec t o input c.world).2⟩]

/-- The world before the step at a position, and the last world after them all. -/
def worldAt (c : Config World Op Input Call Outcome Resp) (i : Nat) : World :=
  ((c.trace[i]?).map Entry.pre).getD c.world

end Config

/-- The events of one thread. -/
def historyOf (trace : List (Entry World Op Input Resp)) (t : Nat) : List (Event Op Resp) :=
  (trace.filter fun e => e.tid = t).map Entry.event

/-- The runs from a world. `admits` is what is assumed of the environment, and
    `maySpawn` says which calls can be started when. -/
inductive Run (S : System World Op Input Call Outcome Resp) (init : World)
    (admits : World → Op → Input → Prop)
    (maySpawn : Config World Op Input Call Outcome Resp → Call → Prop) :
    Config World Op Input Call Outcome Resp → Prop where
  | start : Run S init admits maySpawn ⟨init, [], []⟩
  | spawn {c : Config World Op Input Call Outcome Resp} (run : Run S init admits maySpawn c)
      (call : Call) (may : maySpawn c call) : Run S init admits maySpawn (c.spawn S call)
  | step {c : Config World Op Input Call Outcome Resp} (run : Run S init admits maySpawn c)
      (t : Nat) (thread : Thread Op Call Outcome Resp) (o : Op)
      (k : Resp o → Prog Op Resp Outcome) (input : Input)
      (hthread : c.threads[t]? = some thread) (hprog : thread.prog = .op o k)
      (enabled : S.enabled t o c.world) (admitted : admits c.world o input) :
      Run S init admits maySpawn (c.step S t thread o k input)

-- ============================================================================
-- Histories
-- ============================================================================

section
variable {entries : List (Entry World Op Input Resp)} {t : Nat}

@[simp] theorem historyOf_nil :
    historyOf ([] : List (Entry World Op Input Resp)) t = [] := rfl

theorem historyOf_append (entries' : List (Entry World Op Input Resp)) :
    historyOf (entries ++ entries') t = historyOf entries t ++ historyOf entries' t := by
  simp [historyOf]

theorem historyOf_snoc (e : Entry World Op Input Resp) :
    historyOf (entries ++ [e]) t
      = historyOf entries t ++ if e.tid = t then [e.event] else [] := by
  rw [historyOf_append]
  by_cases h : e.tid = t <;> simp [historyOf, h]

/-- An event of a history stands at a position of the entries; what the thread did
    since then comes after it in the history. -/
theorem exists_position {h₁ h₂ : List (Event Op Resp)} {ev : Event Op Resp} {n : Nat}
    (h : historyOf (entries.take n) t = h₁ ++ ev :: h₂) :
    ∃ i e, i < n ∧ entries[i]? = some e ∧ e.tid = t ∧ e.event = ev ∧
      historyOf (entries.take i) t = h₁ ∧
      ∀ l e', i < l → l < n → entries[l]? = some e' → e'.tid = t → e'.event ∈ h₂ := by
  induction n generalizing h₂ with
  | zero => simp [historyOf] at h
  | succ n ih =>
      cases hn : entries[n]? with
      | none =>
          rw [List.take_add_one, hn, Option.toList_none, List.append_nil] at h
          obtain ⟨i, e, hi, he, htid, hev, hbefore, hafter⟩ := ih h
          refine ⟨i, e, by omega, he, htid, hev, hbefore, ?_⟩
          intro l e' hil hln he' htid'
          rcases Nat.lt_succ_iff_lt_or_eq.mp hln with hlt | rfl
          · exact hafter l e' hil hlt he' htid'
          · rw [hn] at he'
            cases he'
      | some e =>
          rw [List.take_add_one, hn, Option.toList_some, historyOf_snoc] at h
          by_cases htid : e.tid = t
          · rw [if_pos htid] at h
            rcases List.eq_nil_or_concat' h₂ with rfl | ⟨h₂, ev', rfl⟩
            · obtain ⟨hbefore, hev⟩ := List.append_inj' h rfl
              refine ⟨n, e, by omega, hn, htid, by simpa using hev, hbefore, ?_⟩
              intro l e' hil hln
              omega
            · rw [← List.cons_append, ← List.append_assoc] at h
              obtain ⟨hinit, hlast⟩ := List.append_inj' h rfl
              obtain ⟨i, e₀, hi, he₀, htid₀, hev, hbefore, hafter⟩ := ih hinit
              refine ⟨i, e₀, by omega, he₀, htid₀, hev, hbefore, ?_⟩
              intro l e' hil hln he' htid'
              rcases Nat.lt_succ_iff_lt_or_eq.mp hln with hlt | rfl
              · exact List.mem_append_left _ (hafter l e' hil hlt he' htid')
              · rw [hn] at he'
                cases he'
                rw [List.singleton_inj] at hlast
                exact List.mem_append_right _ (by simp [hlast])
          · rw [if_neg htid, List.append_nil] at h
            obtain ⟨i, e₀, hi, he₀, htid₀, hev, hbefore, hafter⟩ := ih h
            refine ⟨i, e₀, by omega, he₀, htid₀, hev, hbefore, ?_⟩
            intro l e' hil hln he' htid'
            rcases Nat.lt_succ_iff_lt_or_eq.mp hln with hlt | rfl
            · exact hafter l e' hil hlt he' htid'
            · rw [hn] at he'
              cases he'
              exact absurd htid' htid

theorem mem_historyOf {ev : Event Op Resp} {n : Nat}
    (h : ev ∈ historyOf (entries.take n) t) :
    ∃ i e, i < n ∧ entries[i]? = some e ∧ e.tid = t ∧ e.event = ev := by
  obtain ⟨h₁, h₂, hsplit⟩ := List.append_of_mem h
  obtain ⟨i, e, hi, he, htid, hev, -⟩ := exists_position hsplit
  exact ⟨i, e, hi, he, htid, hev⟩

theorem exists_of_mem_historyOf {ev : Event Op Resp} (h : ev ∈ historyOf entries t) :
    ∃ i e, i < entries.length ∧ entries[i]? = some e ∧ e.tid = t ∧ e.event = ev := by
  rw [← List.take_length (l := entries)] at h
  exact mem_historyOf h

/-- A step of a thread is in its history ever after. -/
theorem mem_historyOf_of_lt {i n : Nat} {e : Entry World Op Input Resp}
    (he : entries[i]? = some e) (h : i < n) : e.event ∈ historyOf (entries.take n) e.tid := by
  refine List.mem_map.mpr ⟨e, List.mem_filter.mpr ⟨?_, by simp⟩, rfl⟩
  refine List.mem_of_getElem? (i := i) ?_
  rw [List.getElem?_take_of_lt h]
  exact he

theorem historyOf_take_succ {i : Nat} {e : Entry World Op Input Resp}
    (he : entries[i]? = some e) :
    historyOf (entries.take (i + 1)) t
      = historyOf (entries.take i) t ++ if e.tid = t then [e.event] else [] := by
  rw [List.take_add_one, he, Option.toList_some, historyOf_snoc]

theorem historyOf_mono {i j : Nat} (h : i ≤ j) :
    historyOf (entries.take i) t <+: historyOf (entries.take j) t := by
  have hsub : entries.take i <+: entries.take j := List.take_prefix_take_left h
  obtain ⟨rest, hrest⟩ := hsub
  rw [← hrest, historyOf_append]
  exact List.prefix_append _ _

theorem historyOf_take_isPrefix (i : Nat) :
    historyOf (entries.take i) t <+: historyOf entries t := by
  obtain ⟨rest, hrest⟩ := List.take_prefix i entries
  conv_rhs => rw [← hrest]
  rw [historyOf_append]
  exact List.prefix_append _ _

/-- A step of a thread makes its history longer. -/
theorem length_historyOf_lt {i j : Nat} {e : Entry World Op Input Resp}
    (he : entries[i]? = some e) (h : i < j) :
    (historyOf (entries.take i) e.tid).length < (historyOf (entries.take j) e.tid).length := by
  have hpre : (historyOf (entries.take (i + 1)) e.tid).length
      ≤ (historyOf (entries.take j) e.tid).length := (historyOf_mono h).length_le
  rw [historyOf_take_succ he, if_pos rfl, List.length_append, List.length_singleton] at hpre
  omega

/-- A thread does one thing with a history of one length behind it. -/
theorem position_unique {i j : Nat} {e e' : Entry World Op Input Resp}
    (he : entries[i]? = some e) (he' : entries[j]? = some e') (htid : e.tid = e'.tid)
    (hlen : (historyOf (entries.take i) e.tid).length
      = (historyOf (entries.take j) e'.tid).length) : i = j := by
  rcases Nat.lt_trichotomy i j with hij | rfl | hji
  · have := length_historyOf_lt he hij
    rw [hlen, htid] at this
    omega
  · rfl
  · have := length_historyOf_lt he' hji
    rw [← hlen, htid] at this
    omega

/-- What a thread only does with a history of one length behind it, it does at most once. -/
theorem countP_historyOf_le_one {p : Event Op Resp → Bool} {n : Nat}
    (h : ∀ i e, entries[i]? = some e → e.tid = t → p e.event = true →
      (historyOf (entries.take i) t).length = n) : (historyOf entries t).countP p ≤ 1 := by
  suffices hcount : ∀ m, (historyOf (entries.take m) t).countP p = 0 ∨
      (historyOf (entries.take m) t).countP p = 1 ∧ n < (historyOf (entries.take m) t).length by
    rcases hcount entries.length with hzero | ⟨hone, -⟩
    · rw [List.take_length] at hzero
      omega
    · rw [List.take_length] at hone
      omega
  intro m
  induction m with
  | zero => simp
  | succ m ih =>
      cases hm : entries[m]? with
      | none =>
          rw [List.take_add_one, hm, Option.toList_none, List.append_nil]
          exact ih
      | some e =>
          rw [historyOf_take_succ hm]
          by_cases htid : e.tid = t
          · rw [if_pos htid, List.countP_append, List.countP_singleton, List.length_append,
              List.length_singleton]
            by_cases hp : p e.event = true
            · have hlen := h m e hm htid hp
              rw [if_pos hp]
              rcases ih with hzero | ⟨-, hlt⟩
              · omega
              · omega
            · rw [if_neg hp]
              rcases ih with hzero | ⟨hone, hlt⟩
              · exact .inl hzero
              · exact .inr ⟨hone, by omega⟩
          · rw [if_neg htid, List.append_nil]
            exact ih

/-- Of two kinds of events, the one that each thread has at least as often has
    been seen at least as often. -/
theorem countP_le_of_histories {p q : Event Op Resp → Bool}
    (h : ∀ t, (historyOf entries t).countP p ≤ (historyOf entries t).countP q) :
    (entries.countP fun e => p e.event) ≤ entries.countP fun e => q e.event := by
  have hsum (p : Event Op Resp → Bool) (tids : Finset Nat)
      (entries : List (Entry World Op Input Resp)) (htids : ∀ e ∈ entries, e.tid ∈ tids) :
      (entries.countP fun e => p e.event) = ∑ t ∈ tids, (historyOf entries t).countP p := by
    induction entries with
    | nil => simp
    | cons e entries ih =>
        have hcons (t : Nat) : (historyOf (e :: entries) t).countP p
            = (if e.tid = t then if p e.event then 1 else 0 else 0)
              + (historyOf entries t).countP p := by
          by_cases ht : e.tid = t
          · simp [historyOf, ht, List.countP_cons, Nat.add_comm]
          · simp [historyOf, ht]
        rw [List.countP_cons, ih fun e he => htids e (List.mem_cons_of_mem _ he)]
        simp only [hcons, Finset.sum_add_distrib, Finset.sum_ite_eq,
          if_pos (htids e List.mem_cons_self)]
        exact Nat.add_comm _ _
  have htids : ∀ e ∈ entries, e.tid ∈ (entries.map Entry.tid).toFinset :=
    fun e he => List.mem_toFinset.mpr (List.mem_map_of_mem he)
  rw [hsum p _ entries htids, hsum q _ entries htids]
  exact Finset.sum_le_sum fun t _ => h t

/-- What each thread does at most once, and only after something else, is done at most as
    often as that. -/
theorem countP_le_of_preceded {p q : Event Op Resp → Bool} {n : Nat}
    (h : ∀ i e, entries[i]? = some e → p e.event = true →
      (historyOf (entries.take i) e.tid).length = n ∧
        ∃ ev ∈ historyOf (entries.take i) e.tid, q ev = true) :
    (entries.countP fun e => p e.event) ≤ entries.countP fun e => q e.event := by
  refine countP_le_of_histories fun t => ?_
  have hone : (historyOf entries t).countP p ≤ 1 :=
    countP_historyOf_le_one fun i e he htid hp => htid ▸ (h i e he hp).1
  rcases Nat.eq_zero_or_pos ((historyOf entries t).countP p) with hzero | hpos
  · omega
  obtain ⟨ev, hev, hp⟩ := List.countP_pos_iff.mp hpos
  obtain ⟨i, e, -, he, rfl, rfl⟩ := exists_of_mem_historyOf hev
  obtain ⟨ev', hev', hq⟩ := (h i e he hp).2
  have hmem : ev' ∈ historyOf entries e.tid := (historyOf_take_isPrefix i).subset hev'
  have := List.countP_pos_iff.mpr ⟨ev', hmem, hq⟩
  omega

end

-- ============================================================================
-- Runs
-- ============================================================================

namespace Run

variable {S : System World Op Input Call Outcome Resp} {init : World}
  {admits : World → Op → Input → Prop}
  {maySpawn : Config World Op Input Call Outcome Resp → Call → Prop}
  {c : Config World Op Input Call Outcome Resp}

/-- What is known of a thread: the call was allowed when it was started, it has
    done nothing before, and it has followed its code since. -/
structure Lives (S : System World Op Input Call Outcome Resp) (init : World)
    (admits : World → Op → Input → Prop)
    (maySpawn : Config World Op Input Call Outcome Resp → Call → Prop)
    (entries : List (Entry World Op Input Resp)) (t : Nat)
    (thread : Thread Op Call Outcome Resp) : Prop where
  born_le : thread.born ≤ entries.length
  may : ∃ c₀, Run S init admits maySpawn c₀ ∧ c₀.trace = entries.take thread.born ∧
    maySpawn c₀ thread.call
  after_born : ∀ i e, entries[i]? = some e → e.tid = t → thread.born ≤ i
  follows : Follows (S.code thread.call) (historyOf entries t) thread.prog

/-- From `c`, thread `t` alone has gone on, and is at `p` in `c'`. -/
structure Moved (c c' : Config World Op Input Call Outcome Resp) (t : Nat)
    (thread : Thread Op Call Outcome Resp) (p : Prog Op Resp Outcome) : Prop where
  threads_eq : c'.threads = c.threads.set t { thread with prog := p }
  trace_eq : ∃ entries, c'.trace = c.trace ++ entries ∧ ∀ e ∈ entries, e.tid = t

/-- No thread's history is lost. -/
theorem Moved.history_mono {c c' : Config World Op Input Call Outcome Resp} {t : Nat}
    {thread : Thread Op Call Outcome Resp} {p : Prog Op Resp Outcome}
    (moved : Moved c c' t thread p) (t' : Nat) :
    historyOf c.trace t' <+: historyOf c'.trace t' := by
  obtain ⟨entries, htrace, -⟩ := moved.trace_eq
  rw [htrace, historyOf_append]
  exact List.prefix_append _ _

/-- Where the program of a thread can get, the thread can get in the run. -/
theorem exists_moved (run : Run S init admits maySpawn c) {t : Nat}
    {thread : Thread Op Call Outcome Resp} (hthread : c.threads[t]? = some thread)
    {Q : List (Event Op Resp) → World → Prog Op Resp Outcome → Prop}
    (can : Can (S.Offers admits t) Q (historyOf c.trace t) c.world thread.prog) :
    ∃ c' p, Run S init admits maySpawn c' ∧ Moved c c' t thread p ∧
      Q (historyOf c'.trace t) c'.world p := by
  generalize hh : historyOf c.trace t = h at can
  generalize hw : c.world = w at can
  generalize hp : thread.prog = p at can
  induction can generalizing c thread with
  | stop here =>
      subst hh hw hp
      refine ⟨c, thread.prog, run, ⟨?_, [], (List.append_nil _).symm, by simp⟩, here⟩
      obtain ⟨hlt, rfl⟩ := List.getElem?_eq_some_iff.mp hthread
      exact (List.set_getElem_self hlt).symm
  | @op h w w' o k r offered _ ih =>
      subst hh hw
      obtain ⟨enabled, input, admitted, hexec⟩ := offered
      have hlt := (List.getElem?_eq_some_iff.mp hthread).1
      have hr : (S.exec t o input c.world).1 = r := congrArg Prod.fst hexec
      have hthread' : (c.step S t thread o k input).threads[t]?
          = some { thread with prog := k r } := by
        simp only [Config.step, hr, List.getElem?_set_self hlt]
      obtain ⟨c', p', run', hmoved, here⟩ := ih
        (run.step t thread o k input hthread hp enabled admitted) hthread'
        (by simp only [Config.step, historyOf_snoc, if_pos, Entry.event, hr])
        (congrArg Prod.snd hexec) rfl
      obtain ⟨entries, htrace, htids⟩ := hmoved.trace_eq
      refine ⟨c', p', run', ⟨?_, ⟨t, o, input, r, c.world, w'⟩ :: entries, ?_, ?_⟩, here⟩
      · rw [hmoved.threads_eq]
        simp only [Config.step, List.set_set]
      · rw [htrace]
        simp only [Config.step, hexec, List.append_assoc, List.singleton_append]
      · simpa using htids

theorem tid_lt (run : Run S init admits maySpawn c) : ∀ e ∈ c.trace, e.tid < c.threads.length := by
  induction run with
  | start => simp
  | spawn _ call _ ih =>
      intro e he
      have := ih e he
      simp only [Config.spawn, List.length_append, List.length_singleton]
      omega
  | step _ t thread o k input hthread hprog _ _ ih =>
      intro e he
      simp only [Config.step, List.length_set] at he ⊢
      rcases List.mem_append.mp he with he | he
      · exact ih e he
      · obtain rfl := List.mem_singleton.mp he
        exact (List.getElem?_eq_some_iff.mp hthread).1

/-- A thread that has not been started has no step. -/
theorem historyOf_unborn (run : Run S init admits maySpawn c) :
    historyOf c.trace c.threads.length = [] := by
  have hnone : ∀ e ∈ c.trace, e.tid ≠ c.threads.length := fun e he => (run.tid_lt e he).ne
  rw [historyOf, List.filter_eq_nil_iff.mpr (by simpa using hnone), List.map_nil]

/-- Another call can be started and go on alone. -/
theorem exists_spawned (run : Run S init admits maySpawn c) {call : Call}
    (may : maySpawn c call) {Q : List (Event Op Resp) → World → Prog Op Resp Outcome → Prop}
    (can : Can (S.Offers admits c.threads.length) Q [] c.world (S.code call)) :
    ∃ c' p, Run S init admits maySpawn c' ∧
      c'.threads = c.threads ++ [⟨call, c.trace.length, p⟩] ∧
      (∃ entries, c'.trace = c.trace ++ entries ∧ ∀ e ∈ entries, e.tid = c.threads.length) ∧
      Q (historyOf c'.trace c.threads.length) c'.world p := by
  have hthread : (c.spawn S call).threads[c.threads.length]?
      = some ⟨call, c.trace.length, S.code call⟩ := by
    simp [Config.spawn]
  obtain ⟨c', p, run', hmoved, here⟩ := (run.spawn call may).exists_moved hthread (Q := Q) (by
    simp only [Config.spawn]
    rw [run.historyOf_unborn]
    exact can)
  refine ⟨c', p, run', ?_, hmoved.trace_eq, here⟩
  rw [hmoved.threads_eq]
  simp [Config.spawn]

theorem lives (run : Run S init admits maySpawn c) {t : Nat}
    {thread : Thread Op Call Outcome Resp} (hthread : c.threads[t]? = some thread) :
    Lives S init admits maySpawn c.trace t thread := by
  induction run generalizing t thread with
  | start => simp at hthread
  | @spawn c run call may ih =>
      simp only [Config.spawn] at hthread ⊢
      by_cases hlt : t < c.threads.length
      · rw [List.getElem?_append_left hlt] at hthread
        exact ih hthread
      · rw [List.getElem?_append_right (by omega), List.getElem?_singleton] at hthread
        split at hthread
        · rename_i heq
          cases hthread
          have ht : t = c.threads.length := by omega
          -- a thread that has just been started has no entry yet
          refine ⟨le_rfl, ⟨c, run, List.take_length.symm, may⟩, ?_, ?_⟩
          · intro i e hi htid
            have := run.tid_lt e (List.mem_of_getElem? hi)
            omega
          · rw [ht, run.historyOf_unborn]
            exact .start
        · cases hthread
  | @step c run t' thread' o k input hthread' hprog enabled admitted ih =>
      simp only [Config.step] at hthread ⊢
      have hlive' := ih hthread'
      by_cases heq : t = t'
      · subst heq
        have hlen := (List.getElem?_eq_some_iff.mp hthread').1
        rw [List.getElem?_set_self hlen] at hthread
        cases hthread
        refine ⟨?_, ?_, ?_, ?_⟩
        · have := hlive'.born_le
          simp only [List.length_append, List.length_singleton]
          omega
        · rw [List.take_append_of_le_length hlive'.born_le]
          exact hlive'.may
        · intro i e hi htid
          by_cases hlt : i < c.trace.length
          · rw [List.getElem?_append_left hlt] at hi
            exact hlive'.after_born i e hi htid
          · exact hlive'.born_le.trans (by omega)
        · rw [historyOf_snoc, if_pos rfl]
          have hfollows := hlive'.follows
          rw [hprog] at hfollows
          exact .event hfollows _
      · rw [List.getElem?_set_ne (Ne.symm heq)] at hthread
        have hlive := ih hthread
        refine ⟨?_, ?_, ?_, ?_⟩
        · have := hlive.born_le
          simp only [List.length_append, List.length_singleton]
          omega
        · rw [List.take_append_of_le_length hlive.born_le]
          exact hlive.may
        · intro i e hi htid
          by_cases hlt : i < c.trace.length
          · rw [List.getElem?_append_left hlt] at hi
            exact hlive.after_born i e hi htid
          · exact hlive.born_le.trans (by omega)
        · rw [historyOf_snoc, if_neg (Ne.symm heq), List.append_nil]
          exact hlive.follows

/-- What is known of a step: the thread was at this operation, the operation was
    enabled, and it did what it does. -/
structure Stepped (S : System World Op Input Call Outcome Resp)
    (admits : World → Op → Input → Prop) (c : Config World Op Input Call Outcome Resp)
    (i : Nat) (e : Entry World Op Input Resp) : Prop where
  thread : ∃ thread k, c.threads[e.tid]? = some thread ∧
    Follows (S.code thread.call) (historyOf (c.trace.take i) e.tid) (.op e.op k)
  enabled : S.enabled e.tid e.op e.pre
  admitted : admits e.pre e.op e.input
  exec : S.exec e.tid e.op e.input e.pre = (e.resp, e.post)

theorem stepped (run : Run S init admits maySpawn c) {i : Nat}
    {e : Entry World Op Input Resp} (he : c.trace[i]? = some e) :
    Stepped S admits c i e := by
  induction run generalizing i e with
  | start => simp at he
  | @spawn c run call may ih =>
      obtain ⟨⟨thread, k, hthread, hfollows⟩, henabled, hadmitted, hexec⟩ := ih he
      refine ⟨⟨thread, k, ?_, hfollows⟩, henabled, hadmitted, hexec⟩
      have hlt := (List.getElem?_eq_some_iff.mp hthread).1
      simp only [Config.spawn]
      rw [List.getElem?_append_left hlt]
      exact hthread
  | @step c run t thread o k input hthread hprog enabled admitted ih =>
      simp only [Config.step] at he
      have hlen := (List.getElem?_eq_some_iff.mp hthread).1
      by_cases hlt : i < c.trace.length
      · rw [List.getElem?_append_left hlt] at he
        obtain ⟨⟨thread', k', hthread', hfollows⟩, henabled, hadmitted, hexec⟩ := ih he
        refine ⟨?_, henabled, hadmitted, hexec⟩
        simp only [Config.step]
        rw [List.take_append_of_le_length hlt.le]
        by_cases heq : e.tid = t
        · rw [heq] at hthread' hfollows ⊢
          rw [hthread] at hthread'
          cases hthread'
          exact ⟨_, k', List.getElem?_set_self hlen, hfollows⟩
        · exact ⟨thread', k', by rw [List.getElem?_set_ne (Ne.symm heq)]; exact hthread',
            hfollows⟩
      · rw [List.getElem?_append_right (by omega), List.getElem?_singleton] at he
        split at he
        · cases he
          have hi : i = c.trace.length := by omega
          refine ⟨?_, enabled, admitted, rfl⟩
          simp only [Config.step]
          rw [hi, List.take_left']
          · have hfollows := (run.lives hthread).follows
            rw [hprog] at hfollows
            exact ⟨_, k, List.getElem?_set_self hlen, hfollows⟩
          · rfl
        · cases he

/-- The world after a step is the world before the next one. -/
theorem linked (run : Run S init admits maySpawn c) :
    c.worldAt 0 = init ∧ ∀ i e, c.trace[i]? = some e →
      e.pre = c.worldAt i ∧ e.post = c.worldAt (i + 1) := by
  have hpre : ∀ i e, c.trace[i]? = some e → e.pre = c.worldAt i := by
    intro i e he
    simp [Config.worldAt, he]
  suffices h : c.worldAt 0 = init ∧ ∀ i e, c.trace[i]? = some e → e.post = c.worldAt (i + 1) from
    ⟨h.1, fun i e he => ⟨hpre i e he, h.2 i e he⟩⟩
  clear hpre
  induction run with
  | start => exact ⟨rfl, by simp⟩
  | spawn _ _ _ ih => exact ih
  | @step c run t thread o k input hthread hprog enabled admitted ih =>
      -- positions before the new step see the worlds they saw before it
      have hsame : ∀ i, i ≤ c.trace.length →
          (c.step S t thread o k input).worldAt i = c.worldAt i := by
        intro i hi
        simp only [Config.worldAt, Config.step]
        rcases Nat.lt_or_eq_of_le hi with hlt | rfl
        · rw [List.getElem?_append_left hlt, List.getElem?_eq_getElem hlt]
          rfl
        · rw [List.getElem?_append_right le_rfl, List.getElem?_eq_none le_rfl]
          simp
      refine ⟨(hsame 0 (Nat.zero_le _)).trans ih.1, ?_⟩
      intro i e he
      simp only [Config.step] at he
      by_cases hlt : i < c.trace.length
      · rw [List.getElem?_append_left hlt] at he
        rw [hsame (i + 1) hlt]
        exact ih.2 i e he
      · rw [List.getElem?_append_right (by omega), List.getElem?_singleton] at he
        split at he
        · cases he
          have hi : i = c.trace.length := by omega
          simp [Config.worldAt, Config.step, hi]
        · cases he

theorem worldAt_length (c : Config World Op Input Call Outcome Resp) :
    c.worldAt c.trace.length = c.world := by
  simp [Config.worldAt]

/-- The rule for what steps do to the world over a stretch of the run. -/
theorem relates (run : Run S init admits maySpawn c) {R : World → World → Prop}
    (hrefl : ∀ w, R w w) (htrans : ∀ w w' w'', R w w' → R w' w'' → R w w'') {i j : Nat}
    (hij : i ≤ j) (hj : j ≤ c.trace.length)
    (hstep : ∀ l e, i ≤ l → l < j → c.trace[l]? = some e → R e.pre e.post) :
    R (c.worldAt i) (c.worldAt j) := by
  induction j, hij using Nat.le_induction with
  | base => exact hrefl _
  | succ j hij ih =>
      obtain ⟨e, he⟩ : ∃ e, c.trace[j]? = some e :=
        ⟨_, List.getElem?_eq_getElem (by omega)⟩
      obtain ⟨hpre, hpost⟩ := run.linked.2 j e he
      have hlast := hstep j e hij (by omega) he
      rw [hpre, hpost] at hlast
      exact htrans _ _ _ (ih (by omega) fun l e hil hlj => hstep l e hil (by omega)) hlast

/-- What differs at the two ends of a stretch of the run, some step of it has changed. -/
theorem exists_change {β : Type} (run : Run S init admits maySpawn c) (f : World → β) {i j : Nat}
    (hij : i ≤ j) (hj : j ≤ c.trace.length) (h : f (c.worldAt j) ≠ f (c.worldAt i)) :
    ∃ l e, i ≤ l ∧ l < j ∧ c.trace[l]? = some e ∧ f e.post ≠ f e.pre := by
  by_contra hnone
  push Not at hnone
  exact h (run.relates (R := fun w w' => f w' = f w) (fun _ => rfl)
    (fun _ _ _ h h' => h'.trans h) hij hj hnone)

/-- What two runs have done in the same way has led through the same worlds. -/
theorem worldAt_congr (run : Run S init admits maySpawn c)
    {c' : Config World Op Input Call Outcome Resp} (run' : Run S init admits maySpawn c') {j : Nat}
    (hj : j ≤ c.trace.length) (htrace : c'.trace.take j = c.trace.take j) :
    c'.worldAt j = c.worldAt j := by
  cases j with
  | zero => rw [run.linked.1, run'.linked.1]
  | succ j =>
      obtain ⟨e, he⟩ : ∃ e, c.trace[j]? = some e := ⟨_, List.getElem?_eq_getElem (by omega)⟩
      have he' : c'.trace[j]? = some e := by
        rw [← List.getElem?_take_of_lt (Nat.lt_succ_self j), htrace,
          List.getElem?_take_of_lt (Nat.lt_succ_self j)]
        exact he
      rw [← (run.linked.2 j e he).2, (run'.linked.2 j e he').2]

/-- A property that the steps of a stretch of the run preserve holds to its end. -/
theorem persists (run : Run S init admits maySpawn c) {I : World → Prop} {i j : Nat}
    (hij : i ≤ j) (hj : j ≤ c.trace.length) (hi : I (c.worldAt i))
    (hstep : ∀ l e, i ≤ l → l < j → c.trace[l]? = some e → I e.pre → I e.post) :
    I (c.worldAt j) :=
  run.relates (R := fun w w' => I w → I w') (fun _ h => h) (fun _ _ _ h h' hw => h' (h hw))
    hij hj hstep hi

/-- The rule for what the world keeps of the trace. -/
theorem traced (run : Run S init admits maySpawn c)
    {I : List (Entry World Op Input Resp) → World → Prop} (hinit : I [] init)
    (hstep : ∀ i e, c.trace[i]? = some e → I (c.trace.take i) e.pre →
      I (c.trace.take i ++ [e]) e.post) {i : Nat} (hi : i ≤ c.trace.length) :
    I (c.trace.take i) (c.worldAt i) := by
  induction i with
  | zero =>
      rw [run.linked.1]
      exact hinit
  | succ i ih =>
      obtain ⟨e, he⟩ : ∃ e, c.trace[i]? = some e :=
        ⟨_, List.getElem?_eq_getElem (by omega)⟩
      obtain ⟨hpre, hpost⟩ := run.linked.2 i e he
      have h := ih (by omega)
      rw [← hpre] at h
      rw [List.take_add_one, he, Option.toList_some, ← hpost]
      exact hstep i e he h

-- ============================================================================
-- Specifications in runs
-- ============================================================================

/-- Whenever a thread performs an operation, the specification of its call says so. -/
theorem spec_before (run : Run S init admits maySpawn c)
    {P : Call → List (Event Op Resp) → Op → Prop}
    {Q : Call → List (Event Op Resp) → Outcome → Prop}
    (hspec : ∀ call, Spec (P call) (Q call) [] (S.code call)) {i : Nat}
    {e : Entry World Op Input Resp} (he : c.trace[i]? = some e) :
    ∃ thread, c.threads[e.tid]? = some thread ∧
      P thread.call (historyOf (c.trace.take i) e.tid) e.op := by
  obtain ⟨thread, k, hthread, hfollows⟩ := (run.stepped he).thread
  exact ⟨thread, hthread, (hspec thread.call).before hfollows⟩

/-- A run is one under every condition that its own steps meet. -/
theorem admitted (run : Run S init admits maySpawn c) {admits' : World → Op → Input → Prop}
    (h : ∀ e ∈ c.trace, admits' e.pre e.op e.input) : Run S init admits' maySpawn c := by
  induction run with
  | start => exact .start
  | spawn run call may ih => exact (ih h).spawn call may
  | step run t thread o k input hthread hprog enabled _ ih =>
      have hbefore := ih fun e he => h e (List.mem_append_left _ he)
      exact hbefore.step t thread o k input hthread hprog enabled
        (h _ (List.mem_append_right _ List.mem_cons_self))

theorem weaken (run : Run S init admits maySpawn c) {admits' : World → Op → Input → Prop}
    (h : ∀ w o input, admits w o input → admits' w o input) : Run S init admits' maySpawn c :=
  run.admitted fun e he => by
    obtain ⟨i, hi⟩ := List.mem_iff_getElem?.mp he
    exact h _ _ _ (run.stepped hi).admitted

/-- Wherever a thread has got to, the specification of its call holds of the rest. -/
theorem spec_rest (run : Run S init admits maySpawn c)
    {P : Call → List (Event Op Resp) → Op → Prop}
    {Q : Call → List (Event Op Resp) → Outcome → Prop}
    (hspec : ∀ call, Spec (P call) (Q call) [] (S.code call)) {t : Nat}
    {thread : Thread Op Call Outcome Resp} (hthread : c.threads[t]? = some thread) :
    Spec (P thread.call) (Q thread.call) (historyOf c.trace t) thread.prog :=
  (hspec thread.call).follows (run.lives hthread).follows

end Run
