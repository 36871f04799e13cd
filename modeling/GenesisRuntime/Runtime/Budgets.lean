/-
  GenesisRuntime.Runtime.Budgets

  The two budgets of a runtime.  A reservation is one atomic step, and a turn has
  one of each kind behind it when it calls the model or inserts a record, so what
  turns do is bounded by what was reserved, at every point of every run.
-/

import GenesisRuntime.Runtime.Evidence

namespace GenesisRuntime

section
variable [Externals]

-- ============================================================================
-- Reservations
-- ============================================================================

/-- The value of a counter. -/
def World.counter (w : World) : BudgetCounter → UInt64
  | .steps => w.stepsConsumed
  | .actions => w.actionsConsumed

/-- A reservation, successful or not. -/
def reserves (counter : BudgetCounter) : Event → Bool
  | ⟨.reserve counter' _, _⟩ => counter' = counter
  | _ => false

/-- A successful reservation. -/
def reserved (counter : BudgetCounter) : Event → Bool
  | ⟨.reserve counter' _, r⟩ => counter' = counter && r
  | _ => false

/-- A call of the model. -/
def generates : Event → Bool
  | ⟨.generate _, _⟩ => true
  | _ => false

/-- An entry into Nexus. -/
def entersNexus (ev : Event) : Bool := ev.op.isExecuteTool

theorem exec_counter {t : Nat} {o : Op} {input : Input} {w : World}
    (h : ∀ counter limit, o ≠ .reserve counter limit) (counter : BudgetCounter) :
    (Op.exec t o input w).2.counter counter = w.counter counter := by
  cases o with
  | reserve counter' limit => exact absurd rfl (h counter' limit)
  | lockActiveChain =>
      simp only [Op.exec]
      split <;> rfl
  | kernelOp =>
      simp only [Op.exec]
      split <;> rfl
  | replaceTool =>
      simp only [Op.exec]
      split <;> rfl
  | appendForAttempt =>
      simp only [Op.exec]
      split <;> rfl
  | insertAuthorization =>
      simp only [Op.exec, World.onStore]
      split <;> rfl
  | consume =>
      simp only [Op.exec, World.consume, World.onStore]
      split <;> split <;> rfl
  | _ => rfl

/-- A reservation succeeds exactly below the limit, and counts if it does. -/
theorem exec_reserve {t : Nat} {counter : BudgetCounter} {limit : UInt64} {input : Input}
    {w w' : World} {r : Bool} (h : Op.exec t (.reserve counter limit) input w = (r, w')) :
    ((w.counter counter < limit ∧ r = true ∧
        (w'.counter counter).toNat = (w.counter counter).toNat + 1) ∨
      (¬ w.counter counter < limit ∧ r = false ∧ w'.counter counter = w.counter counter)) ∧
      ∀ counter', counter' ≠ counter → w'.counter counter' = w.counter counter' := by
  have hstep (n : UInt64) (h : n < limit) : (n + 1).toNat = n.toNat + 1 := by
    have hlt := UInt64.lt_iff_toNat_lt.mp h
    have hsize := limit.toNat_lt
    rw [UInt64.toNat_add, UInt64.toNat_one, Nat.mod_eq_of_lt (by omega)]
  cases counter with
  | steps =>
      by_cases hlt : w.stepsConsumed < limit
      · simp only [Op.exec, World.reserve, if_pos hlt, Prod.mk.injEq] at h
        obtain ⟨rfl, rfl⟩ := h
        refine ⟨.inl ⟨hlt, rfl, hstep _ hlt⟩, fun counter' hne => ?_⟩
        cases counter' <;> first | exact absurd rfl hne | rfl
      · simp only [Op.exec, World.reserve, if_neg hlt, Prod.mk.injEq] at h
        obtain ⟨rfl, rfl⟩ := h
        exact ⟨.inr ⟨hlt, rfl, rfl⟩, fun _ _ => rfl⟩
  | actions =>
      by_cases hlt : w.actionsConsumed < limit
      · simp only [Op.exec, World.reserve, if_pos hlt, Prod.mk.injEq] at h
        obtain ⟨rfl, rfl⟩ := h
        refine ⟨.inl ⟨hlt, rfl, hstep _ hlt⟩, fun counter' hne => ?_⟩
        cases counter' <;> first | exact absurd rfl hne | rfl
      · simp only [Op.exec, World.reserve, if_neg hlt, Prod.mk.injEq] at h
        obtain ⟨rfl, rfl⟩ := h
        exact ⟨.inr ⟨hlt, rfl, rfl⟩, fun _ _ => rfl⟩

/-- A counter counts the reservations that have succeeded: all that were made, up to the
    limit. -/
structure Counted (rt : R1Runtime) (entries : List Step) (w : World) : Prop where
  count : ∀ counter,
    (entries.countP fun e => reserved counter e.event) = (w.counter counter).toNat
  exact : ∀ counter, (w.counter counter).toNat
    = min (entries.countP fun e => reserves counter e.event) (rt.limit counter).toNat

section
variable {rt : R1Runtime} {init : World} {admits : World → Op → Input → Prop} {c : SystemState}

theorem Bootstrapped.counted (boot : Bootstrapped rt init) : Counted rt [] init := by
  obtain ⟨mission, agentId, spec, registry, version, delegable, input, h⟩ := boot
  simp only [R1Runtime.bootstrapR2, Except.bind_eq_ok, Except.pure_eq_ok] at h
  obtain ⟨_, -, snapshot, -, modelDigest, -, resolver, -, context, -, contextDigest, -, config, -,
    keyId, -, custody, -, granted, -, kernel, -, _, -, h⟩ := h
  cases h
  exact ⟨fun counter => by cases counter <;> rfl,
    fun counter => by cases counter <;> simp [World.counter]⟩

theorem counted (run : PublicRun rt init admits c) (boot : Bootstrapped rt init) {i : Nat}
    (hi : i ≤ c.trace.length) : Counted rt (c.trace.take i) (c.worldAt i) := by
  refine run.traced boot.counted ?_ hi
  intro i e he h
  have hexec := exec_eq run he
  by_cases hop : ∃ counter limit, e.op = .reserve counter limit
  · obtain ⟨counter₀, limit, hop⟩ := hop
    obtain ⟨-, hlimit⟩ := PublicRun.before run he (by rw [hop]; rfl) (by rw [hop]; rfl)
    rw [hop] at hlimit
    obtain rfl : limit = rt.limit counter₀ := hlimit
    obtain ⟨t, o, input, r, pre, post⟩ := e
    subst hop
    have h : Counted rt (c.trace.take i) pre := h
    have hexec : Op.exec t (.reserve counter₀ (rt.limit counter₀)) input pre = (r, post) := hexec
    obtain ⟨hnext, hother⟩ := exec_reserve hexec
    have hlt := UInt64.lt_iff_toNat_lt (a := pre.counter counter₀) (b := rt.limit counter₀)
    have hexact := h.exact counter₀
    refine ⟨fun counter => ?_, fun counter => ?_⟩
    · rw [List.countP_append, h.count, List.countP_singleton]
      by_cases hc : counter₀ = counter
      · subst hc
        simp only [reserved, Entry.event, decide_true, Bool.true_and]
        rcases hnext with ⟨-, rfl, hnext⟩ | ⟨-, rfl, hnext⟩
        · exact hnext.symm
        · rw [hnext]
          rfl
      · simp [reserved, Entry.event, hc, hother counter (Ne.symm hc)]
    · rw [List.countP_append, List.countP_singleton]
      by_cases hc : counter₀ = counter
      · subst hc
        rw [if_pos (by simp [reserves, Entry.event])]
        rcases hnext with ⟨hbelow, -, hnext⟩ | ⟨hfull, -, hnext⟩
        · rw [hnext]
          have := hlt.mp hbelow
          omega
        · rw [hnext]
          have := mt hlt.mpr hfull
          omega
      · rw [hother counter (Ne.symm hc), h.exact counter]
        simp [reserves, Entry.event, hc]
  · have hsame (counter : BudgetCounter) : e.post.counter counter = e.pre.counter counter := by
      have hexecuted : (Op.exec e.tid e.op e.input e.pre).2.counter counter
          = e.pre.counter counter :=
        exec_counter (fun counter limit heq => hop ⟨counter, limit, heq⟩) counter
      rw [hexec] at hexecuted
      exact hexecuted
    have hnone (counter : BudgetCounter) :
        reserves counter e.event = false ∧ reserved counter e.event = false := by
      obtain ⟨t, o, input, r, pre, post⟩ := e
      cases o with
      | reserve counter' limit => exact absurd ⟨counter', limit, rfl⟩ hop
      | _ => exact ⟨rfl, rfl⟩
    refine ⟨fun counter => ?_, fun counter => ?_⟩
    · simp [List.countP_append, h.count, hnone counter, hsame counter]
    · simp only [hsame counter, List.countP_append, List.countP_singleton, (hnone counter).1]
      simpa using h.exact counter

-- ============================================================================
-- What turns do with their reservations
-- ============================================================================

/-- The record that the thread of a step had consumed before it. -/
def consumedBefore (c : SystemState) (k : Nat) : Option AuthorizationId :=
  c.trace[k]?.bind fun e => (historyOf (c.trace.take k) e.tid).findSome? consumedId

/-- Model generations are bounded by the steps reserved. -/
theorem generations_le (run : PublicRun rt init admits c) :
    (c.trace.countP fun e => generates e.event)
      ≤ c.trace.countP fun e => reserved .steps e.event := by
  refine countP_le_of_preceded (n := 7) fun k e he hgenerates => ?_
  obtain ⟨t, o, input, r, pre, post⟩ := e
  cases o with
  | generate request =>
      obtain ⟨-, turn, hhist, -⟩ := PublicRun.before run he rfl rfl
      rw [hhist]
      exact ⟨rfl, ⟨.reserve .steps (rt.limit .steps), true⟩, by simp [Turn.events], rfl⟩
  | _ => cases hgenerates

/-- Insertions are bounded by the actions reserved. -/
theorem insertions_le (run : PublicRun rt init admits c) :
    (c.trace.countP fun e => (insertedRecord e.event).isSome)
      ≤ c.trace.countP fun e => reserved .actions e.event := by
  refine countP_le_of_preceded (p := fun ev => (insertedRecord ev).isSome) (n := 20)
    fun k e he hinserts => ?_
  obtain ⟨record, hrecord⟩ := Option.isSome_iff_exists.mp hinserts
  obtain ⟨attemptId, hev⟩ := insertedRecord_eq_some.mp hrecord
  obtain ⟨call, hhist, -, -⟩ := insert_turn run he hev
  rw [hhist]
  exact ⟨rfl, ⟨.reserve .actions (rt.limit .actions), true⟩,
    by simp [ToolCall.issued, ToolCall.reserved], rfl⟩

/-- What a turn has behind it when it enters Nexus. -/
theorem entry_turn (run : PublicRun rt init admits c) {k : Nat} {e : Step}
    (he : c.trace[k]? = some e) (henters : entersNexus e.event = true) :
    ∃ (call : ToolCall rt) (commit : Commit rt.keyCustody call.authorization.execution)
      (tokens : List CapabilityToken),
      historyOf (c.trace.take k) e.tid = call.inserted ++ commit.entered call.attemptId tokens ∧
      e.op = commit.execute tokens := by
  obtain ⟨t, o, input, r, pre, post⟩ := e
  cases o with
  | executeTool definition arguments tokens =>
      obtain ⟨-, call, commit, hhist, hexecute⟩ := PublicRun.before run he rfl rfl
      exact ⟨call, commit, tokens, hhist, hexecute⟩
  | _ => cases henters

theorem length_entered (call : ToolCall rt)
    (commit : Commit rt.keyCustody call.authorization.execution)
    (tokens : List CapabilityToken) :
    (call.inserted ++ commit.entered call.attemptId tokens).length = 31 := by
  rw [List.length_append, call.length_inserted]
  rfl

/-- Entries into Nexus are bounded by consumptions. -/
theorem entries_le (run : PublicRun rt init admits c) :
    (c.trace.countP fun e => entersNexus e.event)
      ≤ c.trace.countP fun e => (consumedId e.event).isSome := by
  refine countP_le_of_preceded (q := fun ev => (consumedId ev).isSome) (n := 31)
    fun k e he henters => ?_
  obtain ⟨call, commit, tokens, hhist, -⟩ := entry_turn run he henters
  rw [hhist]
  exact ⟨length_entered call commit tokens, ⟨commit.consume, .ok tokens⟩,
    commit.consume_mem_entered _ _ _, rfl⟩

/-- The record behind an entry into Nexus. -/
theorem entry_record (run : PublicRun rt init admits c) (boot : Bootstrapped rt init) {k : Nat}
    {e : Step} (he : c.trace[k]? = some e) (henters : entersNexus e.event = true) :
    ∃ attemptId, attemptOf (historyOf (c.trace.take k) e.tid) = some attemptId ∧
      ∃ record ∈ c.world.store.authorizationRecords,
        consumedBefore c k = some record.recordId ∧ record.state = .consumed ∧
        c.world.store.authorizationAttempts.lookup record.recordId = some attemptId := by
  have hk := (List.getElem?_eq_some_iff.mp he).1
  obtain ⟨call, commit, tokens, hhist, -⟩ := entry_turn run he henters
  have hmem : (⟨commit.consume, .ok tokens⟩ : Event) ∈ historyOf (c.trace.take k) e.tid := by
    rw [hhist]
    exact commit.consume_mem_entered _ _ _
  obtain ⟨j, e', hj, he', htid, hev'⟩ := mem_historyOf hmem
  obtain ⟨record, hrecord, attemptId, hrecordId, hstate, hlookup, hattempt⟩ :=
    record_of_consumed run boot (hj.trans hk) le_rfl he' (congrArg consumedId hev')
  rw [Run.worldAt_length] at hrecord hlookup
  refine ⟨attemptId, ?_, record, hrecord, ?_, hstate, by rw [hrecordId]; exact hlookup⟩
  · rw [← htid]
    exact attemptOf_later hattempt hj.le
  · have hnone : call.inserted.findSome? consumedId = none := by
      rw [List.findSome?_eq_none_iff]
      intro ev hev
      have hunconsumed := call.unconsumed_inserted ev hev
      rw [consumes_eq] at hunconsumed
      simpa using hunconsumed
    rw [consumedBefore, he, Option.bind_some, hhist, List.findSome?_append, hnone, hrecordId]
    rfl

/-- However many turns run at once, at every point: the model is called at most `max_steps`
    times; entries, consumed records, records and reserved actions are bounded by one another
    and by `max_actions`; of the reservations made, all up to the limit have succeeded; and
    entries belong to different consumed records, each of the attempt that enters. -/
theorem budgets_are_respected (boot : Bootstrapped rt init) (run : PublicRun rt init admits c) :
    (c.trace.countP fun e => generates e.event) ≤ rt.spec.resourceBudget.maxSteps.toNat ∧
    (c.trace.countP fun e => entersNexus e.event)
      ≤ c.world.store.authorizationRecords.countP (fun record => record.state = .consumed) ∧
    c.world.store.authorizationRecords.countP (fun record => record.state = .consumed)
      ≤ c.world.store.authorizationRecords.length ∧
    c.world.store.authorizationRecords.length
      ≤ c.trace.countP (fun e => reserved .actions e.event) ∧
    c.trace.countP (fun e => reserved .actions e.event) ≤ rt.mission.maxActions.toNat ∧
    (∀ counter, c.trace.countP (fun e => reserved counter e.event)
        = min (c.trace.countP fun e => reserves counter e.event) (rt.limit counter).toNat ∧
      (c.world.counter counter).toNat = c.trace.countP fun e => reserved counter e.event) ∧
    (∀ (k : Nat) (e : Step), c.trace[k]? = some e → entersNexus e.event = true →
      ∃ attemptId, attemptOf (historyOf (c.trace.take k) e.tid) = some attemptId ∧
        ∃ record ∈ c.world.store.authorizationRecords,
          consumedBefore c k = some record.recordId ∧ record.state = .consumed ∧
          c.world.store.authorizationAttempts.lookup record.recordId = some attemptId) ∧
    ∀ (k k' : Nat) (e e' : Step), c.trace[k]? = some e → c.trace[k']? = some e' →
      entersNexus e.event = true → entersNexus e'.event = true →
      consumedBefore c k = consumedBefore c k' → k = k' := by
  have hcounted := counted run boot le_rfl
  rw [Run.worldAt_length, List.take_length] at hcounted
  have hholds := (storeHolds run boot le_rfl).ledger.holds
  rw [Run.worldAt_length, List.take_length] at hholds
  have hlimit (counter : BudgetCounter) :
      c.trace.countP (fun e => reserved counter e.event) ≤ (rt.limit counter).toNat := by
    rw [hcounted.count, hcounted.exact]
    exact min_le_right _ _
  have hinserted : c.world.store.authorizationRecords.length
      = c.trace.countP fun e => (insertedRecord e.event).isSome := by
    rw [hholds.records, List.length_map, insertedRecords_ledgerCalls,
      List.length_filterMap_eq_countP]
  have hconsumed : (c.trace.countP fun e => (consumedId e.event).isSome)
      ≤ c.world.store.authorizationRecords.countP fun record => record.state = .consumed := by
    rw [← List.length_filterMap_eq_countP, ← consumedIds_ledgerCalls, List.countP_eq_length_filter,
      ← List.length_map (f := AuthorizationRecord.recordId)]
    refine (List.Nodup.subperm hholds.once fun recordId hid => ?_).length_le
    obtain ⟨source, hsource, hsourceId, -⟩ := hholds.available recordId hid
    refine List.mem_map.mpr ⟨source.consume,
      List.mem_filter.mpr ⟨?_, by simp [AuthorizationRecord.consume]⟩, hsourceId⟩
    rw [hholds.records]
    exact List.mem_map.mpr ⟨source, hsource, by rw [ledgerRecord, hsourceId, if_pos hid]⟩
  refine ⟨(generations_le run).trans (hlimit .steps), (entries_le run).trans hconsumed,
    List.countP_le_length, ?_, hlimit .actions, fun counter => ?_,
    fun k e he henters => entry_record run boot he henters,
    fun k k' e e' he he' henters henters' hsame => ?_⟩
  · rw [hinserted]
    exact insertions_le run
  · rw [hcounted.count]
    exact ⟨hcounted.exact counter, rfl⟩
  · -- one record is bound to one attempt, which is of one turn, which enters once
    obtain ⟨attemptId, hattempt, record, -, hbefore, -, hlookup⟩ := entry_record run boot he henters
    obtain ⟨attemptId', hattempt', record', -, hbefore', -, hlookup'⟩ :=
      entry_record run boot he' henters'
    rw [hbefore, hbefore', Option.some.injEq] at hsame
    rw [hsame, hlookup', Option.some.injEq] at hlookup
    subst hlookup
    have htid := attempt_unique run boot le_rfl
      (attemptOf_later hattempt (List.getElem?_eq_some_iff.mp he).1.le)
      (attemptOf_later hattempt' (List.getElem?_eq_some_iff.mp he').1.le)
    obtain ⟨call, commit, tokens, hhist, -⟩ := entry_turn run he henters
    obtain ⟨call', commit', tokens', hhist', -⟩ := entry_turn run he' henters'
    refine position_unique he he' htid ?_
    rw [hhist, hhist', length_entered, length_entered]

omit [Externals] in
/-- A turn of the reference runtime that calls its tool: what it enters with, has consumed, has
    recorded and has reserved. -/
theorem budgets_are_respected_reference : letI := Reference.externals
    ∃ (rt : R1Runtime) (init : World) (c : SystemState) (k : Nat) (e : Step),
      PublicRun rt init FreshIds c ∧ c.trace[k]? = some e ∧ entersNexus e.event = true ∧
      0 < (c.trace.countP fun e => entersNexus e.event) ∧
      (c.trace.countP fun e => entersNexus e.event)
        ≤ c.world.store.authorizationRecords.countP (fun record => record.state = .consumed) ∧
      c.world.store.authorizationRecords.length
        ≤ c.trace.countP (fun e => reserved .actions e.event) ∧
      c.trace.countP (fun e => reserved .actions e.event) ≤ rt.mission.maxActions.toNat ∧
      (c.world.counter .actions).toNat = c.trace.countP (fun e => reserved .actions e.event) ∧
      ∃ attemptId, attemptOf (historyOf (c.trace.take k) e.tid) = some attemptId ∧
        ∃ record ∈ c.world.store.authorizationRecords,
          consumedBefore c k = some record.recordId ∧ record.state = .consumed ∧
          c.world.store.authorizationAttempts.lookup record.recordId = some attemptId := by
  let := Reference.externals
  obtain ⟨rt, w, tool, ⟨act⟩⟩ := Reference.exists_activated
  obtain ⟨c, run, -, k, e, _, _, _, he, hop, -⟩ :=
    act.exists_executed (fun _ call => call.isPublic = true) act.allows_freshIds rfl
  have henters : entersNexus e.event = true := by
    rw [entersNexus, show e.event.op = _ from hop]
    rfl
  obtain ⟨-, hconsumed, -, hrecords, hreserved, hcounters, hentries, -⟩ :=
    budgets_are_respected act.bootstrapped run
  exact ⟨rt, w, c, k, e, run, he, henters,
    List.countP_pos_iff.mpr ⟨e, List.mem_of_getElem? he, henters⟩, hconsumed, hrecords, hreserved,
    (hcounters .actions).2, hentries k e he henters⟩

end

end

end GenesisRuntime
