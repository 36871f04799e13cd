/-
  GenesisRuntime.Runtime.Evidence

  The event log as evidence.  An attempt belongs to one turn, so the events the
  log has of it are the word of that turn, however turns interleave; and the
  verification of the log compares words and consumptions attempt by attempt.
-/

import GenesisRuntime.Runtime.Log
import GenesisRuntime.Runtime.Reference.Runs

namespace GenesisRuntime

section
variable [Externals]

section
variable {rt : R1Runtime} {init : World} {admits : World → Op → Input → Prop} {c : SystemState}

-- ============================================================================
-- Attempts and turns
-- ============================================================================

theorem attemptOf_mem {h : History} {attemptId : Nat} (hattempt : attemptOf h = some attemptId) :
    ∃ ev ∈ h, begunAttempt ev = some attemptId :=
  List.exists_of_findSome?_eq_some hattempt

/-- A call keeps its attempt id. -/
theorem attemptOf_later {entries : List Step} {i j t attemptId : Nat}
    (h : attemptOf (historyOf (entries.take i) t) = some attemptId) (hij : i ≤ j) :
    attemptOf (historyOf (entries.take j) t) = some attemptId := by
  obtain ⟨rest, hrest⟩ : historyOf (entries.take i) t <+: historyOf (entries.take j) t :=
    historyOf_mono hij
  rw [← hrest]
  exact attemptOf_append h

/-- An attempt belongs to one turn. -/
theorem attempt_unique (run : PublicRun rt init admits c) (boot : Bootstrapped rt init)
    {i t t' attemptId : Nat} (hi : i ≤ c.trace.length)
    (ht : attemptOf (historyOf (c.trace.take i) t) = some attemptId)
    (ht' : attemptOf (historyOf (c.trace.take i) t') = some attemptId) : t = t' := by
  obtain ⟨ev, hev, hbegun⟩ := attemptOf_mem ht
  obtain ⟨ev', hev', hbegun'⟩ := attemptOf_mem ht'
  obtain ⟨j, e, hj, he, rfl, rfl⟩ := mem_historyOf hev
  obtain ⟨j', e', hj', he', rfl, rfl⟩ := mem_historyOf hev'
  have hmem {j : Nat} {e : Step} (hj : j < i) (he : c.trace[j]? = some e) : e ∈ c.trace.take i :=
    List.mem_of_getElem? (i := j) (by rw [List.getElem?_take_of_lt hj]; exact he)
  exact (storeHolds run boot hi).attempts.thread e (hmem hj he) e' (hmem hj' he') attemptId
    hbegun hbegun'

/-- What is recorded for an attempt, its turn has recorded. -/
theorem recorded_attempt (run : PublicRun rt init admits c) {k : Nat} {e : Step}
    (he : c.trace[k]? = some e) {attemptId : Nat} {kind : MissionEventKind}
    (hrecorded : recordedEvent e.event = some (attemptId, kind)) :
    attemptOf (historyOf (c.trace.take k) e.tid) = some attemptId := by
  obtain ⟨t, o, input, r, pre, post⟩ := e
  cases o with
  | appendForAttempt attemptId' kind' =>
      obtain ⟨-, hbefore⟩ := PublicRun.before run he rfl rfl
      have hbefore : AppendBefore rt (historyOf (c.trace.take k) t) attemptId' kind' := hbefore
      rcases r with error | ⟨⟩
      · cases hrecorded
      · cases hrecorded
        exact hbefore.attempt
  | _ => cases hrecorded

/-- The events of an attempt are the word of its turn. -/
theorem kindsOf_recorded (run : PublicRun rt init admits c) (boot : Bootstrapped rt init)
    {i t attemptId : Nat} (hi : i ≤ c.trace.length)
    (ht : attemptOf (historyOf (c.trace.take i) t) = some attemptId) :
    kindsOf (recorded (c.trace.take i)) attemptId = wordOf (historyOf (c.trace.take i) t) := by
  -- step by step: what is recorded for the attempt is what is recorded by the thread
  have hstep (j : Nat) (e : Step) (hj : j < i) (he : c.trace[j]? = some e)
      (event : Nat × MissionEventKind) (hevent : recordedEvent e.event = some event) :
      event.1 = attemptId ↔ e.tid = t := by
    have hattempt := recorded_attempt run he hevent
    have hlater : attemptOf (historyOf (c.trace.take i) e.tid) = some event.1 :=
      attemptOf_later hattempt hj.le
    constructor
    · rintro rfl
      exact attempt_unique run boot hi hlater ht
    · rintro rfl
      exact Option.some.inj (hlater.symm.trans ht)
  suffices h : ∀ j ≤ i, kindsOf (recorded (c.trace.take j)) attemptId
      = wordOf (historyOf (c.trace.take j) t) from h i le_rfl
  intro j hj
  induction j with
  | zero => rfl
  | succ j ih =>
      obtain ⟨e, he⟩ : ∃ e, c.trace[j]? = some e := ⟨_, List.getElem?_eq_getElem (by omega)⟩
      rw [historyOf_take_succ he, wordOf_append, ← ih (by omega), List.take_add_one, he,
        Option.toList_some, recorded_snoc, kindsOf, List.filter_append, List.map_append]
      congr 1
      cases hevent : recordedEvent e.event with
      | none =>
          have hkind : recordedKind e.event = none := by rw [recordedKind_eq, hevent]; rfl
          split <;> simp [wordOf_cons, hkind]
      | some event =>
          have hkind : recordedKind e.event = some event.2 := by rw [recordedKind_eq, hevent]; rfl
          have hiff := hstep j e hj he event hevent
          by_cases htid : e.tid = t
          · rw [if_pos htid]
            simp [wordOf_cons, hkind, hiff.mpr htid]
          · rw [if_neg htid]
            simp [mt hiff.mp htid]

-- ============================================================================
-- Turns and the ledger
-- ============================================================================

/-- A record is inserted by a turn that is authorized and has reserved its action. -/
theorem insert_turn (run : PublicRun rt init admits c) {k : Nat} {e : Step}
    (he : c.trace[k]? = some e) {attemptId : Nat} {record : AuthorizationRecord}
    (hev : e.event = ⟨.insertAuthorization attemptId record, .ok ()⟩) :
    ∃ call : ToolCall rt, historyOf (c.trace.take k) e.tid = call.issued ∧
      attemptId = call.attemptId ∧ record = call.authorization.record := by
  obtain ⟨t, o, input, r, pre, post⟩ := e
  cases hev
  exact (PublicRun.before run he rfl rfl).2

/-- A record is consumed by a turn that has inserted it. -/
theorem consume_turn (run : PublicRun rt init admits c) {k : Nat} {e : Step}
    (he : c.trace[k]? = some e) {recordId : AuthorizationId}
    (hid : consumedId e.event = some recordId) :
    ∃ (call : ToolCall rt) (commit : Commit rt.keyCustody call.authorization.execution)
      (tokens : List CapabilityToken),
      historyOf (c.trace.take k) e.tid = call.inserted ++ commit.events ∧
      e.event = ⟨commit.consume, .ok tokens⟩ ∧
      recordId = call.authorization.record.recordId := by
  obtain ⟨generation, capabilities, validity, tokens, hev⟩ := consumedId_eq_some.mp hid
  obtain ⟨t, o, input, r, pre, post⟩ := e
  cases hev
  obtain ⟨-, call, commit, hhist, hconsume⟩ := PublicRun.before run he rfl rfl
  cases hconsume
  exact ⟨call, commit, tokens, hhist, rfl, rfl⟩

/-- A turn consumes at most once. -/
theorem consume_unique (run : PublicRun rt init admits c) {k k' : Nat} {e e' : Step}
    (he : c.trace[k]? = some e) (he' : c.trace[k']? = some e') {id id' : AuthorizationId}
    (hid : consumedId e.event = some id) (hid' : consumedId e'.event = some id')
    (htid : e.tid = e'.tid) : k = k' := by
  obtain ⟨call, commit, -, hhist, -⟩ := consume_turn run he hid
  obtain ⟨call', commit', -, hhist', -⟩ := consume_turn run he' hid'
  refine position_unique he he' htid ?_
  rw [hhist, hhist', List.length_append, List.length_append, call.length_inserted,
    call'.length_inserted]
  rfl

/-- What is in a prefix of the trace, by position. -/
theorem mem_take {i : Nat} {e : Step} :
    e ∈ c.trace.take i ↔ ∃ k < i, c.trace[k]? = some e := by
  constructor
  · intro he
    obtain ⟨k, hk⟩ := List.mem_iff_getElem?.mp he
    have hlt := (List.getElem?_eq_some_iff.mp hk).1
    rw [List.length_take] at hlt
    have hki : k < i := by omega
    rw [List.getElem?_take_of_lt hki] at hk
    exact ⟨k, hki, hk⟩
  · rintro ⟨k, hk, he⟩
    exact List.mem_of_getElem? (i := k) (by rw [List.getElem?_take_of_lt hk]; exact he)

/-- The turn behind a consumption has inserted the record for its attempt. -/
theorem insertion_of_inserted {i t : Nat} (call : ToolCall rt) {h : History}
    (hhist : historyOf (c.trace.take i) t = call.inserted ++ h) :
    ∃ k < i, ∃ e, c.trace[k]? = some e ∧ e.tid = t ∧
      e.event = ⟨.insertAuthorization call.attemptId call.authorization.record, .ok ()⟩ := by
  have hmem : (⟨.insertAuthorization call.attemptId call.authorization.record, .ok ()⟩ : Event)
      ∈ historyOf (c.trace.take i) t := by
    rw [hhist]
    simp [ToolCall.inserted]
  obtain ⟨k, e, hk, he, htid, hev⟩ := mem_historyOf hmem
  exact ⟨k, hk, e, he, htid, hev⟩

/-- A record that is consumed has been consumed by the turn of the attempt it is bound to. -/
theorem consumed_record (run : PublicRun rt init admits c) (boot : Bootstrapped rt init)
    {i : Nat} (hi : i ≤ c.trace.length) {record : AuthorizationRecord}
    (hrecord : record ∈ (c.worldAt i).store.authorizationRecords)
    (hstate : record.state = .consumed) :
    ∃ k < i, ∃ e attemptId, c.trace[k]? = some e ∧
      consumedId e.event = some record.recordId ∧
      (c.worldAt i).store.authorizationAttempts.lookup record.recordId = some attemptId ∧
      attemptOf (historyOf (c.trace.take k) e.tid) = some attemptId := by
  have hstore := storeHolds run boot hi
  have hrecords := hstore.ledger.holds.records
  rw [insertedRecords_ledgerCalls, consumedIds_ledgerCalls] at hrecords
  rw [hrecords, List.mem_map] at hrecord
  obtain ⟨source, hsource, rfl⟩ := hrecord
  obtain ⟨e₀, he₀, hinserted⟩ := List.mem_filterMap.mp hsource
  obtain ⟨k₀, -, he₀⟩ := mem_take.mp he₀
  obtain ⟨attemptId₀, hev₀⟩ := insertedRecord_eq_some.mp hinserted
  rw [ledgerRecord_recordId]
  -- a record is issued when it is inserted, so this one has been consumed since
  have hconsumed : source.recordId
      ∈ (c.trace.take i).filterMap fun e => consumedId e.event := by
    by_contra hnot
    rw [ledgerRecord, if_neg hnot] at hstate
    obtain ⟨call, -, -, rfl⟩ := insert_turn run he₀ hev₀
    cases hstate
  obtain ⟨e, he, hid⟩ := List.mem_filterMap.mp hconsumed
  obtain ⟨k, hk, he⟩ := mem_take.mp he
  obtain ⟨call, commit, tokens, hhist, -, hrecordId⟩ := consume_turn run he hid
  obtain ⟨k', hk', e', he', -, hev'⟩ := insertion_of_inserted call hhist
  refine ⟨k, hk, e, call.attemptId, he, hid, ?_, ?_⟩
  · rw [hrecordId]
    exact hstore.ledger.bound e' (mem_take.mpr ⟨k', hk'.trans hk, he'⟩) _ _ hev'
  · rw [hhist]
    exact attemptOf_append call.attemptOf_inserted

/-- What has been recorded for an attempt, some turn has recorded. -/
theorem turn_of_recorded (run : PublicRun rt init admits c) {i attemptId : Nat}
    {kind : MissionEventKind} (hrecorded : (attemptId, kind) ∈ recorded (c.trace.take i)) :
    ∃ t, attemptOf (historyOf (c.trace.take i) t) = some attemptId := by
  obtain ⟨e, he, hevent⟩ := List.mem_filterMap.mp hrecorded
  obtain ⟨k, hk, he⟩ := mem_take.mp he
  exact ⟨e.tid, attemptOf_later (recorded_attempt run he hevent) hk.le⟩

theorem recorded_ne_zero (run : PublicRun rt init admits c) (boot : Bootstrapped rt init)
    {i : Nat} (hi : i ≤ c.trace.length) :
    ∀ event ∈ recorded (c.trace.take i), event.1 ≠ 0 := by
  rintro ⟨attemptId, kind⟩ hrecorded
  obtain ⟨t, ht⟩ := turn_of_recorded run hrecorded
  obtain ⟨ev, hev, hbegun⟩ := attemptOf_mem ht
  obtain ⟨k, e, hk, he, -, rfl⟩ := mem_historyOf hev
  have hbounds := (storeHolds run boot hi).attempts.bounds e (mem_take.mpr ⟨k, hk, he⟩)
    attemptId hbegun
  exact Nat.pos_iff_ne_zero.mp hbounds.1

/-- Every consumed record is bound to an attempt, and no two to the same. -/
theorem consumedAttempts_ok (run : PublicRun rt init admits c) (boot : Bootstrapped rt init)
    {i : Nat} (hi : i ≤ c.trace.length) :
    ∃ attempts, (c.worldAt i).store.consumedAttempts = .ok attempts ∧ attempts.Nodup ∧
      ∀ attemptId ∈ attempts, ∃ k < i, ∃ e recordId, c.trace[k]? = some e ∧
        consumedId e.event = some recordId ∧
        attemptOf (historyOf (c.trace.take i) e.tid) = some attemptId := by
  have hbound : ∀ record ∈ (c.worldAt i).store.authorizationRecords.filter
      (fun record => record.state = .consumed), ∃ k < i, ∃ e attemptId, c.trace[k]? = some e ∧
        consumedId e.event = some record.recordId ∧
        (c.worldAt i).store.authorizationAttempts.lookup record.recordId = some attemptId ∧
        attemptOf (historyOf (c.trace.take i) e.tid) = some attemptId := by
    intro record hrecord
    rw [List.mem_filter, decide_eq_true_eq] at hrecord
    obtain ⟨k, hk, e, attemptId, he, hid, hlookup, hattempt⟩ :=
      consumed_record run boot hi hrecord.1 hrecord.2
    exact ⟨k, hk, e, attemptId, he, hid, hlookup, attemptOf_later hattempt hk.le⟩
  have hattempt : ∀ record ∈ (c.worldAt i).store.authorizationRecords.filter
      (fun record => record.state = .consumed), ∃ attemptId,
      (orReject .eventIncomplete "consumed authorization is not bound to an execution attempt"
        ((c.worldAt i).store.authorizationAttempts.lookup record.recordId) : Result Nat)
          = .ok attemptId := by
    intro record hrecord
    obtain ⟨k, -, e, attemptId, -, -, hlookup, -⟩ := hbound record hrecord
    exact ⟨attemptId, orReject_eq_ok.mpr hlookup⟩
  obtain ⟨attempts, hattempts⟩ := Except.exists_mapM_eq_ok hattempt
  have hmap := consumedAttempts_map hattempts
  refine ⟨attempts, hattempts, ?_, ?_⟩
  · refine List.Nodup.of_map some ?_
    rw [hmap]
    have hids : ((c.worldAt i).store.authorizationRecords.map
        AuthorizationRecord.recordId).Nodup := by
      rw [(storeHolds run boot hi).ledger.holds.recordIds]
      exact (storeHolds run boot hi).ledger.holds.unique
    refine List.Nodup.map_on (fun record hrecord record' hrecord' heq => ?_)
      ((List.Nodup.of_map _ hids).filter _)
    -- two records bound to one attempt have been consumed by one turn, at one point
    obtain ⟨k, -, e, attemptId, he, hid, hlookup, hattempt⟩ := hbound record hrecord
    obtain ⟨k', -, e', attemptId', he', hid', hlookup', hattempt'⟩ := hbound record' hrecord'
    rw [hlookup, hlookup', Option.some.injEq] at heq
    subst heq
    have htid := attempt_unique run boot hi hattempt hattempt'
    obtain rfl := consume_unique run he he' hid hid' htid
    rw [he] at he'
    cases he'
    rw [hid, Option.some.injEq] at hid'
    exact List.inj_on_of_nodup_map hids (List.mem_filter.mp hrecord).1
      (List.mem_filter.mp hrecord').1 hid'
  · intro attemptId hmem
    have hmem' := List.mem_map_of_mem (f := some) hmem
    rw [hmap, List.mem_map] at hmem'
    obtain ⟨record, hrecord, hlookup⟩ := hmem'
    obtain ⟨k, hk, e, attemptId', he, hid, hlookup', hattempt⟩ := hbound record hrecord
    rw [hlookup, Option.some.injEq] at hlookup'
    subst hlookup'
    exact ⟨k, hk, e, _, he, hid, hattempt⟩

end

-- ============================================================================
-- Where no append fails
-- ============================================================================

section
variable {rt : R1Runtime} {init : World} {c : SystemState}

/-- A turn records what can come next. -/
theorem continues_of_recorded (run : PublicRun rt init AppendsSucceed c) {k : Nat} {e : Step}
    (he : c.trace[k]? = some e) {kind : MissionEventKind}
    (hkind : recordedKind e.event = some kind) :
    Continues (wordOf (historyOf (c.trace.take k) e.tid)) kind ∧
      ∀ code, kind = .executionRejectedBeforeNexus code →
        Unconsumed (historyOf (c.trace.take k) e.tid) := by
  obtain ⟨t, o, input, r, pre, post⟩ := e
  cases o with
  | appendForAttempt attemptId kind' =>
      have hbefore : AppendBefore rt (historyOf (c.trace.take k) t) attemptId kind' :=
        (PublicRun.before run he rfl rfl).2
      rcases r with error | ⟨⟩
      · cases hkind
      · cases hkind
        exact ⟨hbefore.continues (allAppended run (fun _ _ _ h => h) k t),
          fun code heq => hbefore.rejected code heq (allAppended run (fun _ _ _ h => h) k t)⟩
  | _ => cases hkind

/-- The words of all turns are words of the protocol. -/
theorem word_of_turn (run : PublicRun rt init AppendsSucceed c) (t : Nat) {i : Nat}
    (hi : i ≤ c.trace.length) : Word (wordOf (historyOf (c.trace.take i) t)) := by
  induction i with
  | zero => exact .nil
  | succ i ih =>
      obtain ⟨e, he⟩ : ∃ e, c.trace[i]? = some e := ⟨_, List.getElem?_eq_getElem (by omega)⟩
      have hword := ih (by omega)
      rw [historyOf_take_succ he, wordOf_append]
      by_cases htid : e.tid = t
      · rw [if_pos htid, wordOf_cons, wordOf_nil, List.append_nil]
        cases hkind : recordedKind e.event with
        | none => simpa using hword
        | some kind =>
            subst htid
            exact .snoc hword (continues_of_recorded run he hkind).1
      · rw [if_neg htid, wordOf_nil, List.append_nil]
        exact hword

/-- After a consumption, the next event of the turn says so. -/
theorem evidence_of_consumed (run : PublicRun rt init AppendsSucceed c) {k : Nat} {e : Step}
    (he : c.trace[k]? = some e) {recordId : AuthorizationId}
    (hid : consumedId e.event = some recordId) {i : Nat} (hki : k < i)
    (hi : i ≤ c.trace.length) :
    wordOf (historyOf (c.trace.take i) e.tid) = issuedWord ∨
      .authorizationConsumed ∈ wordOf (historyOf (c.trace.take i) e.tid) := by
  obtain ⟨call, commit, tokens, hhist, hev, -⟩ := consume_turn run he hid
  induction i, hki using Nat.le_induction with
  | base =>
      left
      rw [historyOf_take_succ he, if_pos rfl, hhist, hev]
      simp [call.wordOf_inserted, Commit.events, Commit.lock, Commit.consume, wordOf_cons,
        recordedKind]
  | succ i hki ih =>
      obtain ⟨e', he'⟩ : ∃ e, c.trace[i]? = some e := ⟨_, List.getElem?_eq_getElem (by omega)⟩
      rw [historyOf_take_succ he', wordOf_append]
      by_cases htid : e'.tid = e.tid
      swap
      · rw [if_neg htid, wordOf_nil, List.append_nil]
        exact ih (by omega)
      rw [if_pos htid, wordOf_cons, wordOf_nil, List.append_nil]
      cases hkind : recordedKind e'.event with
      | none =>
          rw [Option.toList_none, List.append_nil]
          exact ih (by omega)
      | some kind =>
          right
          rcases ih (by omega) with hissued | hmem
          swap
          · exact List.mem_append_left _ hmem
          obtain ⟨next, hrejected⟩ := continues_of_recorded run he' hkind
          rw [htid, hissued] at next
          -- the other continuation is the rejection of an execution that consumed nothing
          generalize hword : issuedWord = w at next
          cases next with
          | authorizationConsumed => simp
          | rejected code =>
              have hconsumes := hrejected code rfl e.event
                (by rw [htid]; exact mem_historyOf_of_lt he hki)
              rw [consumes_eq, hid] at hconsumes
              cases hconsumes
          | _ => cases hword

/-- A turn that has returned has ended its attempt. -/
theorem finished_of_returned (run : PublicRun rt init AppendsSucceed c)
    (hreturned : ∀ thread ∈ c.threads, ∃ outcome, thread.prog = .ret outcome) {t : Nat}
    {kind : MissionEventKind} (hkind : kind ∈ wordOf (historyOf c.trace t)) :
    Finished (wordOf (historyOf c.trace t)) := by
  -- the thread that has recorded something is a turn
  obtain ⟨ev, hev, hrecorded⟩ := List.mem_filterMap.mp hkind
  obtain ⟨k, e, -, he, rfl, rfl⟩ := exists_of_mem_historyOf hev
  obtain ⟨t, o, input, r, pre, post⟩ := e
  cases o with
  | appendForAttempt attemptId kind' =>
      obtain ⟨⟨thread, hthread, hcall⟩, -⟩ := PublicRun.before run he rfl rfl
      obtain ⟨outcome, hprog⟩ := hreturned thread (List.mem_of_getElem? hthread)
      have hrest := after_of_returned run hthread hprog
      rw [hcall] at hrest
      obtain ⟨result, -, hafter⟩ := hrest
      have hall := allAppended run (fun _ _ _ h => h) c.trace.length t
      rw [List.take_length] at hall
      exact hafter.finished hall
  | _ => cases hrecorded

/-- Whatever the turns and the control plane do, as long as appends succeed: the log verifies
    exactly when every attempt it knows of has ended; in particular when all calls have
    returned. -/
theorem verification_is_exact (boot : Bootstrapped rt init)
    (run : PublicRun rt init AppendsSucceed c) :
    (c.world.store.verifyEventCompleteness = .ok () ↔
      ∀ event ∈ c.world.store.events, ∀ attemptId, event.attemptId = some attemptId →
        ∃ terminal ∈ c.world.store.events, terminal.attemptId = some attemptId ∧
          terminal.kind.isTerminal = true) ∧
    ((∀ thread ∈ c.threads, ∃ outcome, thread.prog = .ret outcome) →
      c.world.store.verifyEventCompleteness = .ok ()) := by
  have hi : c.trace.length ≤ c.trace.length := le_rfl
  have hlog := (storeHolds run boot hi).log
  have hpos := recorded_ne_zero run boot hi
  obtain ⟨attempts, hattempts, hnodup, hconsumed⟩ := consumedAttempts_ok run boot hi
  have hkinds {t attemptId : Nat}
      (ht : attemptOf (historyOf (c.trace.take c.trace.length) t) = some attemptId) :=
    kindsOf_recorded run boot hi ht
  have hturn {attemptId : Nat} {kind : MissionEventKind}
      (h : (attemptId, kind) ∈ recorded (c.trace.take c.trace.length)) := turn_of_recorded run h
  have hword (t : Nat) := word_of_turn run t hi
  rw [Run.worldAt_length] at hlog hattempts
  simp only [List.take_length] at hlog hpos hconsumed hkinds hturn hword
  have hverify := hlog.verify_eq_ok hpos
  -- the log verifies when every attempt in it has finished
  have hfinished (h : ∀ attemptId kind, (attemptId, kind) ∈ recorded c.trace →
      ∃ terminal, (attemptId, terminal) ∈ recorded c.trace ∧ terminal.isTerminal = true) :
      c.world.store.verifyEventCompleteness = .ok () := by
    refine hverify.mpr ⟨fun event hevent => ?_, attempts, hattempts, fun attemptId hmem => ?_⟩
    · obtain ⟨attemptId, kind⟩ := event
      obtain ⟨terminal, hterminal, hends⟩ := h attemptId kind hevent
      obtain ⟨t, ht⟩ := hturn hevent
      have hmem := mem_kindsOf.mpr hterminal
      rw [hkinds ht] at hmem ⊢
      exact ((hword t).validateAttempt_eq_ok (List.ne_nil_of_mem hmem)).mpr
        ((hword t).finished_of_mem hmem hends)
    · obtain ⟨k, hk, e, recordId, he, hid, ht⟩ := hconsumed attemptId hmem
      have hevidence := evidence_of_consumed run he hid hk hi
      rw [List.take_length] at hevidence
      rw [List.count_eq_one_of_mem hnodup hmem, hkinds ht]
      refine List.count_pos_iff.mpr (hevidence.resolve_left fun hissued => ?_)
      -- an attempt that is only issued has not finished
      have hissued' :
          MissionEventKind.authorizationIssued ∈ kindsOf (recorded c.trace) attemptId := by
        rw [hkinds ht, hissued]
        simp [issuedWord]
      obtain ⟨terminal, hterminal, hends⟩ := h _ _ (mem_kindsOf.mp hissued')
      have hmem' := mem_kindsOf.mpr hterminal
      rw [hkinds ht] at hmem'
      have hfinished := (hword e.tid).finished_of_mem hmem' hends
      rw [hissued] at hfinished
      have := hfinished .authorizationIssued rfl
      cases this
  refine ⟨⟨fun hok event hevent attemptId hid => ?_,
    fun h => hfinished fun attemptId kind hmem => ?_⟩,
    fun hreturned => hfinished fun attemptId kind hmem => ?_⟩
  · have hrecorded := hlog.mem_iff.mp ⟨event, hevent, hid, rfl⟩
    obtain ⟨terminal, hterminal, hends⟩ :=
      exists_terminal_of_validateAttempt ((hverify.mp hok).1 _ hrecorded)
    obtain ⟨event', hevent', hid', rfl⟩ := hlog.mem_iff.mpr (mem_kindsOf.mp hterminal)
    exact ⟨event', hevent', hid', hends⟩
  · obtain ⟨event, hevent, hid, -⟩ := hlog.mem_iff.mpr hmem
    obtain ⟨terminal, hterminal, hid', hends⟩ := h event hevent attemptId hid
    exact ⟨terminal.kind, hlog.mem_iff.mp ⟨terminal, hterminal, hid', rfl⟩, hends⟩
  · obtain ⟨t, ht⟩ := hturn hmem
    have hkind := mem_kindsOf.mpr hmem
    rw [hkinds ht] at hkind
    have hfin := finished_of_returned run hreturned hkind
    obtain ⟨w, last, hlast⟩ := List.eq_nil_or_concat' _ |>.resolve_left (List.ne_nil_of_mem hkind)
    have hmem' : last ∈ wordOf (historyOf c.trace t) := by
      rw [hlast]
      simp
    rw [hlast, finished_snoc] at hfin
    rw [← hkinds ht] at hmem'
    exact ⟨last, mem_kindsOf.mp hmem', hfin⟩

omit [Externals] in
/-- Two turns of the reference runtime.  While one has recorded its terminal event and the other
    has not, the log does not verify; when both have returned, it does. -/
theorem verification_is_exact_reference : letI := Reference.externals
    ∃ (rt : R1Runtime) (init : World) (c c' : SystemState) (n : Nat),
      PublicRun rt init AppendsSucceed c ∧ PublicRun rt init AppendsSucceed c' ∧
      (∃ event ∈ c.world.store.events,
        event.attemptId = some n ∧ event.kind = .protocolAccepted) ∧
      (∃ event ∈ c.world.store.events,
        event.attemptId = some (n + 1) ∧ event.kind = .finalProduced) ∧
      c.world.store.verifyEventCompleteness ≠ .ok () ∧
      (∀ thread ∈ c'.threads, ∃ outcome, thread.prog = .ret outcome) ∧
      c'.world.store.verifyEventCompleteness = .ok () := by
  let := Reference.externals
  obtain ⟨rt, w, tool, ⟨act⟩⟩ := Reference.exists_activated
  have allows : Reference.Allows AppendsSucceed w := ⟨fun _ _ _ _ => rfl, fun _ _ _ _ => rfl⟩
  obtain ⟨c, c', run, run', ⟨p, b, -, hthreads'⟩, n, e, e₁, e₂, hevents, hid, hkind, hid₁, hkind₁,
    hid₂, hkind₂⟩ := act.exists_overtaken (fun _ call => call.isPublic = true) allows fun _ => rfl
  have hreturned : ∀ thread ∈ c'.threads, ∃ outcome, thread.prog = .ret outcome := by
    rw [hthreads']
    simp
  refine ⟨rt, w, c, c', n, run, run', ⟨e, by simp [hevents], hid, hkind⟩,
    ⟨e₂, by simp [hevents], hid₂, hkind₂⟩, fun hok => ?_, hreturned,
    (verification_is_exact act.bootstrapped run').2 hreturned⟩
  obtain ⟨terminal, hmem, hid', hends⟩ :=
    (verification_is_exact act.bootstrapped run).1.mp hok e (by simp [hevents]) n hid
  rw [hevents] at hmem
  rcases List.mem_append.mp hmem with hmem | hmem
  · rw [act.events _ hmem] at hid'
    cases hid'
  · -- the only event of the first attempt is no terminal one
    have hends : e.kind.isTerminal = true := by
      simp only [List.mem_cons, List.not_mem_nil, or_false] at hmem
      rcases hmem with rfl | rfl | rfl
      · exact hends
      · simp [hid₁] at hid'
      · simp [hid₂] at hid'
    rw [hkind] at hends
    cases hends

end

-- ============================================================================
-- Whatever appends fail
-- ============================================================================

section
variable {rt : R1Runtime} {init : World} {admits : World → Op → Input → Prop} {c : SystemState}

/-- What a turn has consumed stays consumed, and bound to the attempt of the turn. -/
theorem record_of_consumed (run : PublicRun rt init admits c) (boot : Bootstrapped rt init)
    {k i : Nat} (hk : k < i) (hi : i ≤ c.trace.length) {e : Step} (he : c.trace[k]? = some e)
    {recordId : AuthorizationId} (hid : consumedId e.event = some recordId) :
    ∃ record ∈ (c.worldAt i).store.authorizationRecords, ∃ attemptId,
      record.recordId = recordId ∧ record.state = .consumed ∧
      (c.worldAt i).store.authorizationAttempts.lookup recordId = some attemptId ∧
      attemptOf (historyOf (c.trace.take k) e.tid) = some attemptId := by
  have hledger := (storeHolds run boot hi).ledger
  have hconsumed : recordId ∈ consumedIds (ledgerCalls (c.trace.take i)) := by
    rw [consumedIds_ledgerCalls]
    exact List.mem_filterMap.mpr ⟨e, mem_take.mpr ⟨k, hk, he⟩, hid⟩
  obtain ⟨source, hsource, hsourceId, -⟩ := hledger.holds.available recordId hconsumed
  obtain ⟨call, commit, tokens, hhist, -, hrecordId⟩ := consume_turn run he hid
  obtain ⟨k', hk', e', he', -, hev'⟩ := insertion_of_inserted call hhist
  refine ⟨source.consume, ?_, call.attemptId, hsourceId, rfl, ?_, ?_⟩
  · rw [hledger.holds.records]
    refine List.mem_map.mpr ⟨source, hsource, ?_⟩
    rw [ledgerRecord, hsourceId, if_pos hconsumed]
  · rw [hrecordId]
    exact hledger.bound e' (mem_take.mpr ⟨k', hk'.trans hk, he'⟩) _ _ hev'
  · rw [hhist]
    exact attemptOf_append call.attemptOf_inserted

/-- A record is consumed at most once in a run. -/
theorem consumed_once (run : PublicRun rt init admits c) (boot : Bootstrapped rt init)
    {j l : Nat} {e e' : Step} (he : c.trace[j]? = some e) (he' : c.trace[l]? = some e')
    {recordId : AuthorizationId} (hid : consumedId e.event = some recordId)
    (hid' : consumedId e'.event = some recordId) : l = j := by
  have honce := (storeHolds run boot le_rfl).ledger.holds.once
  rw [consumedIds_ledgerCalls, List.take_length, List.Nodup, List.pairwise_filterMap,
    List.pairwise_iff_getElem] at honce
  obtain ⟨hj, rfl⟩ := List.getElem?_eq_some_iff.mp he
  obtain ⟨hl, rfl⟩ := List.getElem?_eq_some_iff.mp he'
  rcases Nat.lt_trichotomy l j with hlj | heq | hjl
  · exact absurd rfl (honce l j hl hj hlj recordId hid' recordId hid)
  · exact heq
  · exact absurd rfl (honce j l hj hl hjl recordId hid recordId hid')

/-- A verified log has evidence of every consumption, in an attempt that has ended. -/
theorem evidence_of_verified (run : PublicRun rt init admits c) (boot : Bootstrapped rt init)
    (hok : c.world.store.verifyEventCompleteness = .ok ()) {record : AuthorizationRecord}
    (hrecord : record ∈ c.world.store.authorizationRecords) (hstate : record.state = .consumed) :
    ∃ attemptId, c.world.store.authorizationAttempts.lookup record.recordId = some attemptId ∧
      (attemptId, .authorizationConsumed) ∈ recorded c.trace ∧
      ∃ terminal, (attemptId, terminal) ∈ recorded c.trace ∧ terminal.isTerminal = true := by
  have hlog := (storeHolds run boot le_rfl).log
  have hpos := recorded_ne_zero run boot le_rfl
  rw [Run.worldAt_length] at hlog
  rw [List.take_length] at hlog hpos
  obtain ⟨hwords, attempts, hattempts, hcounts⟩ := (hlog.verify_eq_ok hpos).mp hok
  have hmem : c.world.store.authorizationAttempts.lookup record.recordId ∈ attempts.map some := by
    rw [consumedAttempts_map hattempts]
    exact List.mem_map.mpr ⟨record, List.mem_filter.mpr ⟨hrecord, by simpa using hstate⟩, rfl⟩
  obtain ⟨attemptId, hattempt, hlookup⟩ := List.mem_map.mp hmem
  have hcount := (List.count_pos_iff.mpr hattempt).trans_le (hcounts attemptId hattempt)
  have hevidence := mem_kindsOf.mp (List.count_pos_iff.mp hcount)
  obtain ⟨terminal, hterminal, hends⟩ := exists_terminal_of_validateAttempt (hwords _ hevidence)
  exact ⟨attemptId, hlookup.symm, hevidence, terminal, mem_kindsOf.mp hterminal, hends⟩

/-- A turn tries once to record its consumption. -/
theorem evidence_unique (run : PublicRun rt init admits c) {k k' attemptId attemptId' : Nat}
    {e e' : Step} (he : c.trace[k]? = some e) (he' : c.trace[k']? = some e')
    (hop : e.op = .appendForAttempt attemptId .authorizationConsumed)
    (hop' : e'.op = .appendForAttempt attemptId' .authorizationConsumed)
    (htid : e.tid = e'.tid) : k = k' := by
  have hbefore (k attemptId : Nat) (e : Step) (he : c.trace[k]? = some e)
      (hop : e.op = .appendForAttempt attemptId .authorizationConsumed) :
      (historyOf (c.trace.take k) e.tid).length = 29 := by
    obtain ⟨-, hbefore⟩ := PublicRun.before run he (by rw [hop]; rfl) (by rw [hop]; rfl)
    rw [hop] at hbefore
    have hbefore : AppendBefore rt (historyOf (c.trace.take k) e.tid) attemptId
        .authorizationConsumed := hbefore
    obtain ⟨call, commit, tokens, hhist⟩ := hbefore.consumed rfl
    rw [hhist, List.length_append, call.length_inserted]
    rfl
  exact position_unique he he' htid
    ((hbefore k attemptId e he hop).trans (hbefore k' attemptId' e' he' hop').symm)

/-- Whatever the turns and the control plane do, and whichever appends fail: Nexus is only
    entered with the whole word of the attempt in the log and its record consumed; a verified
    log has evidence of every consumption; and a consumption whose evidence could not be
    recorded keeps the log from ever verifying, and its record from being consumed again. -/
theorem nexus_entries_are_evidenced (boot : Bootstrapped rt init)
    (run : PublicRun rt init admits c) :
    (∀ (k : Nat) (e : Step), c.trace[k]? = some e → e.op.isExecuteTool = true →
      ∃ attemptId, attemptOf (historyOf (c.trace.take k) e.tid) = some attemptId ∧
        ((c.worldAt k).store.events.filter fun event => event.attemptId = some attemptId).map
          MissionEvent.kind = [.protocolAccepted, .planAccepted, .actionAuthorized,
            .authorizationIssued, .authorizationConsumed, .executionStarted] ∧
        ∃ record ∈ (c.worldAt k).store.authorizationRecords, record.state = .consumed ∧
          (c.worldAt k).store.authorizationAttempts.lookup record.recordId = some attemptId) ∧
    (c.world.store.verifyEventCompleteness = .ok () →
      ∀ record ∈ c.world.store.authorizationRecords, record.state = .consumed →
        ∃ attemptId, c.world.store.authorizationAttempts.lookup record.recordId = some attemptId ∧
          (∃ event ∈ c.world.store.events,
            event.attemptId = some attemptId ∧ event.kind = .authorizationConsumed) ∧
          ∃ event ∈ c.world.store.events,
            event.attemptId = some attemptId ∧ event.kind.isTerminal = true) ∧
    (∀ (j k : Nat) (e e' : Step) (recordId : AuthorizationId) (attemptId : Nat)
      (error : RuntimeError), c.trace[j]? = some e → consumedId e.event = some recordId →
      c.trace[k]? = some e' → e'.tid = e.tid →
      e'.event = ⟨.appendForAttempt attemptId .authorizationConsumed, .error error⟩ →
      c.world.store.verifyEventCompleteness ≠ .ok () ∧
        ∀ (l : Nat) (e'' : Step), c.trace[l]? = some e'' → consumedId e''.event = some recordId →
          l = j) := by
  have hlog := (storeHolds run boot le_rfl).log
  rw [Run.worldAt_length, List.take_length] at hlog
  refine ⟨fun k e he hop => ?_, fun hok record hrecord hstate => ?_,
    fun j k e e' recordId attemptId error he hid he' htid hev' => ⟨fun hok => ?_,
      fun l e'' he'' hid'' => ?_⟩⟩
  · have hk := (List.getElem?_eq_some_iff.mp he).1
    obtain ⟨t, o, input, r, pre, post⟩ := e
    cases o with
    | executeTool definition arguments tokens =>
        obtain ⟨-, call, commit, hhist, -⟩ := PublicRun.before run he rfl rfl
        have hattempt : attemptOf (historyOf (c.trace.take k) t) = some call.attemptId := by
          rw [hhist]
          exact attemptOf_append call.attemptOf_inserted
        have hmem : (⟨commit.consume, .ok tokens⟩ : Event) ∈ historyOf (c.trace.take k) t := by
          rw [hhist]
          exact commit.consume_mem_entered _ _ _
        obtain ⟨j, e', hj, he', rfl, hev'⟩ := mem_historyOf hmem
        obtain ⟨record, hrecord, attemptId, hrecordId, hstate, hlookup, hattempt'⟩ :=
          record_of_consumed run boot hj hk.le he' (congrArg consumedId hev')
        have hlater := attemptOf_later hattempt' hj.le
        rw [hlater, Option.some.injEq] at hattempt
        subst hattempt
        refine ⟨call.attemptId, hlater, ?_,
          record, hrecord, hstate, by rw [hrecordId]; exact hlookup⟩
        rw [(storeHolds run boot hk.le).log.kindsOf_eq, kindsOf_recorded run boot hk.le
          hlater, hhist]
        simp [call.wordOf_inserted, issuedWord, Commit.entered, Commit.consumed, Commit.events,
          Commit.lock, Commit.consume, wordOf_cons, recordedKind]
    | _ => cases hop
  · obtain ⟨attemptId, hlookup, hevidence, terminal, hterminal, hends⟩ :=
      evidence_of_verified run boot hok hrecord hstate
    obtain ⟨event, hevent, hattempt, rfl⟩ := hlog.mem_iff.mpr hterminal
    exact ⟨attemptId, hlookup, hlog.mem_iff.mpr hevidence, event, hevent, hattempt, hends⟩
  · -- the only append that could be the evidence is the one that failed
    have hj := (List.getElem?_eq_some_iff.mp he).1
    obtain ⟨record, hrecord, attemptId', hrecordId, hstate, hlookup, hattempt⟩ :=
      record_of_consumed run boot hj le_rfl he hid
    rw [Run.worldAt_length] at hrecord hlookup
    obtain ⟨attemptId'', hlookup', hevidence, -⟩ :=
      evidence_of_verified run boot hok hrecord hstate
    rw [hrecordId, hlookup, Option.some.injEq] at hlookup'
    subst hlookup'
    obtain ⟨e₁, he₁, hevent₁⟩ := List.mem_filterMap.mp hevidence
    obtain ⟨k₁, hk₁⟩ := List.mem_iff_getElem?.mp he₁
    have hsame := attempt_unique run boot le_rfl
      (attemptOf_later hattempt (List.getElem?_eq_some_iff.mp he).1.le)
      (attemptOf_later (recorded_attempt run hk₁ hevent₁) (List.getElem?_eq_some_iff.mp hk₁).1.le)
    obtain ⟨t₁, o₁, input₁, r₁, pre₁, post₁⟩ := e₁
    cases o₁ with
    | appendForAttempt attemptId₁ kind₁ =>
        rcases r₁ with error₁ | ⟨⟩
        · cases hevent₁
        · cases hevent₁
          obtain rfl := evidence_unique run he' hk₁ (congrArg Prog.Event.op hev') rfl
            (htid.trans hsame)
          rw [he'] at hk₁
          cases hk₁
          cases hev'
    | _ => cases hevent₁
  · exact consumed_once run boot he he'' hid hid''

omit [Externals] in
/-- A turn of the reference runtime calls its tool with its word in the log and its record
    consumed. -/
theorem nexus_entries_are_evidenced_reference : letI := Reference.externals
    ∃ (rt : R1Runtime) (init : World) (c : SystemState) (k : Nat) (e : Step) (attemptId : Nat),
      PublicRun rt init FreshIds c ∧ c.trace[k]? = some e ∧ e.op.isExecuteTool = true ∧
      ((c.worldAt k).store.events.filter fun event => event.attemptId = some attemptId).map
        MissionEvent.kind = [.protocolAccepted, .planAccepted, .actionAuthorized,
          .authorizationIssued, .authorizationConsumed, .executionStarted] ∧
      ∃ record ∈ (c.worldAt k).store.authorizationRecords, record.state = .consumed ∧
        (c.worldAt k).store.authorizationAttempts.lookup record.recordId = some attemptId := by
  let := Reference.externals
  obtain ⟨rt, w, tool, ⟨act⟩⟩ := Reference.exists_activated
  obtain ⟨c, run, -, k, e, _, _, _, he, hop, -⟩ :=
    act.exists_executed (fun _ call => call.isPublic = true) act.allows_freshIds rfl
  have hop : e.op.isExecuteTool = true := by
    rw [hop]
    rfl
  obtain ⟨attemptId, -, hword, hrecord⟩ :=
    (nexus_entries_are_evidenced act.bootstrapped run).1 k e he hop
  exact ⟨rt, w, c, k, e, attemptId, run, he, hop, hword, hrecord⟩

end

end

end GenesisRuntime
