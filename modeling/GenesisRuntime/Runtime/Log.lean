/-
  GenesisRuntime.Runtime.Log

  What the store keeps of a run.  Its event log, its attempts and its ledger are
  each a reading of the trace, whatever the calls and in whatever order their
  steps come.
-/

import GenesisRuntime.Runtime.Trace
import GenesisRuntime.Store.Ledger
import GenesisRuntime.Store.Outcomes

namespace GenesisRuntime

section
variable [Externals]

-- ============================================================================
-- Reading the trace
-- ============================================================================

/-- The attempt and the kind an event has recorded. -/
def recordedEvent : Event → Option (Nat × MissionEventKind)
  | ⟨.appendForAttempt attemptId kind, .ok ()⟩ => some (attemptId, kind)
  | _ => none

/-- The call of the ledger an event has made with success. -/
def ledgerCall : Event → Option LedgerCall
  | ⟨.insertAuthorization attemptId record, .ok ()⟩ =>
      some (.insertAuthorizationForAttempt attemptId record)
  | ⟨.consume recordId generation _ _, .ok tokens⟩ =>
      some (.consumeAuthorizationWith recordId generation (.ok tokens))
  | _ => none

/-- The record an event has inserted. -/
def insertedRecord : Event → Option AuthorizationRecord
  | ⟨.insertAuthorization _ record, .ok ()⟩ => some record
  | _ => none

/-- The id of the record an event has consumed. -/
def consumedId : Event → Option AuthorizationId
  | ⟨.consume recordId _ _ _, .ok _⟩ => some recordId
  | _ => none

/-- The events of a run, in order. -/
def recorded (entries : List Step) : List (Nat × MissionEventKind) :=
  entries.filterMap fun e => recordedEvent e.event

/-- The successful calls of the ledger in a run, in order. -/
def ledgerCalls (entries : List Step) : List (LedgerCall × Bool) :=
  entries.filterMap fun e => (ledgerCall e.event).map (·, true)

theorem insertedRecord_eq_some {ev : Event} {record : AuthorizationRecord} :
    insertedRecord ev = some record ↔
      ∃ attemptId, ev = ⟨.insertAuthorization attemptId record, .ok ()⟩ := by
  constructor
  · intro h
    obtain ⟨o, r⟩ := ev
    cases o with
    | insertAuthorization attemptId record' =>
        rcases r with e | ⟨⟩
        · cases h
        · cases h
          exact ⟨attemptId, rfl⟩
    | _ => cases h
  · rintro ⟨attemptId, rfl⟩
    rfl

theorem consumedId_eq_some {ev : Event} {recordId : AuthorizationId} :
    consumedId ev = some recordId ↔ ∃ generation capabilities validity tokens,
      ev = ⟨.consume recordId generation capabilities validity, .ok tokens⟩ := by
  constructor
  · intro h
    obtain ⟨o, r⟩ := ev
    cases o with
    | consume recordId' generation capabilities validity =>
        rcases r with e | tokens
        · cases h
        · cases h
          exact ⟨generation, capabilities, validity, tokens, rfl⟩
    | _ => cases h
  · rintro ⟨generation, capabilities, validity, tokens, rfl⟩
    rfl

theorem consumes_eq (ev : Event) : consumes ev = (consumedId ev).isSome := by
  obtain ⟨o, r⟩ := ev
  cases o with
  | consume => rcases r with e | tokens <;> rfl
  | _ => rfl

theorem recordedKind_eq (ev : Event) : recordedKind ev = (recordedEvent ev).map Prod.snd := by
  obtain ⟨o, r⟩ := ev
  cases o with
  | appendForAttempt => rcases r with e | ⟨⟩ <;> rfl
  | _ => rfl

-- ============================================================================
-- Steps of the store
-- ============================================================================

/-- What an event has done to the store. -/
inductive StoreStep (store : InMemoryMissionStore) : Event → InMemoryMissionStore → Prop where
  | append (attemptId : Nat) (kind : MissionEventKind) (now : DateTime) :
      StoreStep store ⟨.appendForAttempt attemptId kind, .ok ()⟩
        (store.appendForAttempt attemptId kind now)
  | begin : StoreStep store ⟨.beginAttempt, store.beginAttempt.1⟩ store.beginAttempt.2
  | ledger {ev : Event} {store' : InMemoryMissionStore} (call : LedgerCall)
      (made : ledgerCall ev = some call) (exec : call.exec store = .ok () store') :
      StoreStep store ev store'
  | same {ev : Event} (unrecorded : recordedEvent ev = none) (unbegun : begunAttempt ev = none)
      (unmade : ledgerCall ev = none) : StoreStep store ev store

theorem exec_storeStep (t : Nat) (o : Op) (input : Input) (w : World) :
    StoreStep w.store ⟨o, (Op.exec t o input w).1⟩ (Op.exec t o input w).2.store := by
  cases o with
  | appendForAttempt attemptId kind =>
      simp only [Op.exec]
      split
      · exact .same rfl rfl rfl
      · exact .append attemptId kind input.now
  | beginAttempt => exact .begin
  | insertAuthorization attemptId record =>
      simp only [Op.exec, World.onStore]
      cases hexec : InMemoryMissionStore.insertAuthorizationForAttempt attemptId record w.store with
      | ok u store => exact .ledger (.insertAuthorizationForAttempt attemptId record) rfl hexec
      | error e store =>
          obtain rfl : store = w.store := (LedgerCall.insertAuthorizationForAttempt attemptId
            record).exec_failsClean w.store e store hexec
          exact .same rfl rfl rfl
  | consume recordId generation capabilities validity =>
      have hstore (w' : World) (hw' : w'.store = w.store) : StoreStep w.store
          ⟨.consume recordId generation capabilities validity,
            (w'.onStore (InMemoryMissionStore.consumeAuthorizationWith recordId generation
              (finalValue (World.issueTokens input capabilities validity w.tokens)))).1⟩
          (w'.onStore (InMemoryMissionStore.consumeAuthorizationWith recordId generation
            (finalValue (World.issueTokens input capabilities validity w.tokens)))).2.store := by
        simp only [World.onStore, hw']
        cases hexec : InMemoryMissionStore.consumeAuthorizationWith recordId generation
          (finalValue (World.issueTokens input capabilities validity w.tokens)) w.store with
        | ok tokens store =>
            obtain ⟨havailable, -, hstore⟩ :=
              InMemoryMissionStore.consumeAuthorizationWith_eq_ok.mp hexec
            have hcall := InMemoryMissionStore.consumeAuthorizationWith_eq_ok.mpr
              ⟨havailable, (rfl : (.ok tokens : Result (List CapabilityToken)) = .ok tokens),
              hstore⟩
            exact .ledger (.consumeAuthorizationWith recordId generation (.ok tokens)) rfl
              (EStateM.bind_eq_ok.mpr ⟨tokens, store, hcall, rfl⟩)
        | error e store =>
            obtain rfl : store = w.store := InMemoryMissionStore.consumeAuthorizationWith_failsClean
              recordId generation _ w.store e store hexec
            exact .same rfl rfl rfl
      simp only [Op.exec, World.consume]
      split
      · exact hstore _ rfl
      · exact hstore _ rfl
  | lockActiveChain =>
      simp only [Op.exec]
      split <;> exact .same rfl rfl rfl
  | kernelOp =>
      simp only [Op.exec]
      split <;> exact .same rfl rfl rfl
  | replaceTool =>
      simp only [Op.exec]
      split <;> exact .same rfl rfl rfl
  | reserve counter limit =>
      cases counter <;>
        · simp only [Op.exec, World.reserve]
          split <;> exact .same rfl rfl rfl
  | _ => exact .same rfl rfl rfl

-- ============================================================================
-- The event log
-- ============================================================================

/-- The log holds the foundational events and what the run has recorded, numbered in
    order. -/
structure LogHolds (events : List (Nat × MissionEventKind)) (store : InMemoryMissionStore) :
    Prop where
  kinds : store.events.map (fun event => (event.attemptId, event.kind))
    = foundational.map (fun kind => (none, kind))
      ++ events.map fun event => (some event.1, event.2)
  sequence : ∀ i event, store.events[i]? = some event → event.sequence = i + 1
  mission : ∀ event ∈ store.events, event.missionId = store.mission.missionId

section
variable {events : List (Nat × MissionEventKind)} {store store' : InMemoryMissionStore}

theorem LogHolds.congr (h : LogHolds events store) (hevents : store'.events = store.events)
    (hmission : store'.mission = store.mission) : LogHolds events store' := by
  refine ⟨?_, ?_, ?_⟩
  · rw [hevents]
    exact h.kinds
  · rw [hevents]
    exact h.sequence
  · rw [hevents, hmission]
    exact h.mission

theorem LogHolds.append (h : LogHolds events store) (attemptId : Nat) (kind : MissionEventKind)
    (now : DateTime) :
    LogHolds (events ++ [(attemptId, kind)]) (store.appendForAttempt attemptId kind now) := by
  refine ⟨?_, fun i event hevent => ?_, fun event hevent => ?_⟩
  · simp only [InMemoryMissionStore.appendForAttempt, InMemoryMissionStore.appendEvent,
      List.map_append, h.kinds, List.append_assoc, List.map_cons, List.map_nil]
  · simp only [InMemoryMissionStore.appendForAttempt, InMemoryMissionStore.appendEvent] at hevent
    by_cases hlt : i < store.events.length
    · rw [List.getElem?_append_left hlt] at hevent
      exact h.sequence i event hevent
    · rw [List.getElem?_append_right (by omega), List.getElem?_singleton] at hevent
      split at hevent
      · cases hevent
        simp only
        omega
      · cases hevent
  · rcases List.mem_append.mp hevent with hevent | hevent
    · exact h.mission event hevent
    · rw [List.mem_singleton.mp hevent]
      rfl

/-- An event of an attempt is in the log when it has been recorded. -/
theorem LogHolds.mem_iff (h : LogHolds events store) {attemptId : Nat}
    {kind : MissionEventKind} :
    (∃ event ∈ store.events, event.attemptId = some attemptId ∧ event.kind = kind) ↔
      (attemptId, kind) ∈ events := by
  have hmem : (some attemptId, kind)
      ∈ store.events.map (fun event => (event.attemptId, event.kind)) ↔
        (attemptId, kind) ∈ events := by
    rw [h.kinds]
    simp
  rw [← hmem, List.mem_map]
  simp only [Prod.mk.injEq]

/-- The events the log has of an attempt are those recorded for it. -/
theorem LogHolds.kindsOf_eq (h : LogHolds events store) (attemptId : Nat) :
    (store.events.filter fun event => event.attemptId = some attemptId).map MissionEvent.kind
      = kindsOf events attemptId := by
  have hfilter : (store.events.filter fun event => event.attemptId = some attemptId).map
      (fun event => (event.attemptId, event.kind))
      = (store.events.map fun event => (event.attemptId, event.kind)).filter
        fun event => event.1 = some attemptId := by
    rw [List.filter_map]
    rfl
  have hkinds := congrArg (List.map Prod.snd) hfilter
  rw [List.map_map, h.kinds, List.filter_append, List.filter_map, List.filter_map] at hkinds
  rw [kindsOf]
  simpa [Function.comp_def] using hkinds

theorem consumedAttempts_map {attempts : List Nat} (h : store.consumedAttempts = .ok attempts) :
    attempts.map some = (store.authorizationRecords.filter
        fun record => record.state = .consumed).map fun record =>
      store.authorizationAttempts.lookup record.recordId :=
  Except.map_of_mapM_eq_ok h fun _ _ _ hlookup => (orReject_eq_ok.mp hlookup).symm

/-- The verification of a log that is well formed: the words of all attempts, and the
    evidence of all consumptions. -/
theorem LogHolds.verify_eq_ok (h : LogHolds events store) (hpos : ∀ event ∈ events, event.1 ≠ 0) :
    store.verifyEventCompleteness = .ok () ↔
      (∀ event ∈ events, validateAttempt (kindsOf events event.1) = .ok ()) ∧
      ∃ attempts, store.consumedAttempts = .ok attempts ∧ ∀ attemptId ∈ attempts,
        attempts.count attemptId ≤ (kindsOf events attemptId).count .authorizationConsumed := by
  have hpre : (store.events.take foundational.length).map
      (fun event => (event.attemptId, event.kind)) = foundational.map fun kind => (none, kind) := by
    rw [List.map_take, h.kinds, List.take_left' (by rw [List.length_map])]
  have hrest : (store.events.drop foundational.length).map
      (fun event => (event.attemptId, event.kind))
      = events.map fun event => (some event.1, event.2) := by
    rw [List.map_drop, h.kinds, List.drop_left' (by rw [List.length_map])]
  have hlog : WellFormedLog store := by
    refine ⟨?_, ?_, h.sequence, h.mission⟩
    · have hkinds := congrArg (List.map Prod.snd) hpre
      rw [List.map_map, List.map_map] at hkinds
      exact hkinds
    · intro event hevent
      have hmem := List.mem_map_of_mem (f := fun event => (event.attemptId, event.kind)) hevent
      rw [hpre] at hmem
      obtain ⟨kind, -, heq⟩ := List.mem_map.mp hmem
      exact (congrArg Prod.fst heq).symm
  have hattempts : (store.events.drop foundational.length).mapM attemptKind = .ok events := by
    rw [Except.mapM_eq_ok, List.forall₂_iff_get]
    have hlen' : (store.events.drop foundational.length).length = events.length := by
      simpa using congrArg List.length hrest
    refine ⟨hlen', fun i hi hi' => ?_⟩
    have hget := congrArg (·[i]?) hrest
    simp only [List.getElem?_map, List.getElem?_eq_getElem hi, List.getElem?_eq_getElem hi',
      Option.map_some, Option.some.injEq, Prod.mk.injEq] at hget
    exact attemptKind_eq_ok.mpr ⟨hget.1, hpos _ (List.getElem_mem hi'), hget.2⟩
  rw [verifyEventCompleteness_eq_ok, and_iff_right hlog]
  simp only [hattempts, Except.ok.injEq, exists_eq_left']

theorem recorded_snoc (entries : List Step) (e : Step) :
    recorded (entries ++ [e]) = recorded entries ++ (recordedEvent e.event).toList := by
  simp only [recorded, List.filterMap_append, List.filterMap_cons, List.filterMap_nil]
  cases recordedEvent e.event <;> rfl

theorem ledgerCalls_snoc (entries : List Step) (e : Step) :
    ledgerCalls (entries ++ [e])
      = ledgerCalls entries ++ ((ledgerCall e.event).map (·, true)).toList := by
  simp only [ledgerCalls, List.filterMap_append, List.filterMap_cons, List.filterMap_nil]
  cases ledgerCall e.event <;> rfl

theorem ledgerCall_eq_some {ev : Event} {call : LedgerCall} (h : ledgerCall ev = some call) :
    (∃ attemptId record, ev = ⟨.insertAuthorization attemptId record, .ok ()⟩ ∧
      call = .insertAuthorizationForAttempt attemptId record) ∨
    ∃ recordId generation capabilities validity tokens,
      ev = ⟨.consume recordId generation capabilities validity, .ok tokens⟩ ∧
        call = .consumeAuthorizationWith recordId generation (.ok tokens) := by
  obtain ⟨o, r⟩ := ev
  cases o with
  | insertAuthorization attemptId record =>
      rcases r with e | ⟨⟩
      · cases h
      · exact .inl ⟨attemptId, record, rfl, (Option.some.inj h).symm⟩
  | consume recordId generation capabilities validity =>
      rcases r with e | tokens
      · cases h
      · exact .inr ⟨recordId, generation, capabilities, validity, tokens, rfl,
          (Option.some.inj h).symm⟩
  | _ => cases h

/-- A call of the ledger is no append and begins no attempt. -/
theorem recordedEvent_of_ledgerCall {ev : Event} {call : LedgerCall}
    (h : ledgerCall ev = some call) : recordedEvent ev = none ∧ begunAttempt ev = none := by
  rcases ledgerCall_eq_some h with ⟨_, _, rfl, -⟩ | ⟨_, _, _, _, _, rfl, -⟩ <;> exact ⟨rfl, rfl⟩

/-- A call of the ledger leaves the log and the attempts alone. -/
theorem LedgerCall.exec_frame {call : LedgerCall} (h : call.exec store = .ok () store') :
    store'.events = store.events ∧ store'.mission = store.mission ∧
      store'.nextAttemptId = store.nextAttemptId := by
  rcases call.inserts_or_consumes with ⟨record, hinserts, -⟩ | ⟨recordId, -, hconsumes⟩
  · cases call with
    | insertAuthorization record' =>
        have h : InMemoryMissionStore.insertAuthorizationInner record' none store
            = .ok () store' := h
        obtain ⟨-, rfl⟩ := InMemoryMissionStore.insertAuthorizationInner_eq_ok.mp h
        exact ⟨rfl, rfl, rfl⟩
    | insertAuthorizationForAttempt attemptId record' =>
        obtain ⟨-, h⟩ := InMemoryMissionStore.insertAuthorizationForAttempt_eq_ok.mp h
        obtain ⟨-, rfl⟩ := InMemoryMissionStore.insertAuthorizationInner_eq_ok.mp h
        exact ⟨rfl, rfl, rfl⟩
    | consumeAuthorization => cases hinserts
    | consumeAuthorizationWith => cases hinserts
  · obtain ⟨-, rfl⟩ := LedgerCall.exec_of_consumes hconsumes h
    exact ⟨rfl, rfl, rfl⟩

theorem LogHolds.step {ev : Event} (h : LogHolds events store)
    (hstep : StoreStep store ev store') :
    LogHolds (events ++ (recordedEvent ev).toList) store' := by
  cases hstep with
  | append attemptId kind now => exact h.append attemptId kind now
  | begin =>
      rw [← List.append_nil events] at h
      exact h.congr rfl rfl
  | ledger call made exec =>
      obtain ⟨hevents, hmission, -⟩ := LedgerCall.exec_frame exec
      rw [(recordedEvent_of_ledgerCall made).1, Option.toList_none, List.append_nil]
      exact h.congr hevents hmission
  | same unrecorded _ _ =>
      rw [unrecorded, Option.toList_none, List.append_nil]
      exact h

end

-- ============================================================================
-- Attempts
-- ============================================================================

/-- The attempts that have been begun: numbered from one on, each by one thread. -/
structure AttemptsHold (entries : List Step) (store : InMemoryMissionStore) : Prop where
  bounds : ∀ e ∈ entries, ∀ attemptId, begunAttempt e.event = some attemptId →
    0 < attemptId ∧ attemptId ≤ store.nextAttemptId
  thread : ∀ e ∈ entries, ∀ e' ∈ entries, ∀ attemptId, begunAttempt e.event = some attemptId →
    begunAttempt e'.event = some attemptId → e.tid = e'.tid

section
variable {entries : List Step} {store store' : InMemoryMissionStore}

theorem AttemptsHold.unbegun (h : AttemptsHold entries store) {e : Step}
    (hnone : begunAttempt e.event = none) (hnext : store'.nextAttemptId = store.nextAttemptId) :
    AttemptsHold (entries ++ [e]) store' := by
  have hmem {e' : Step} {attemptId : Nat} (he' : e' ∈ entries ++ [e])
      (hbegun : begunAttempt e'.event = some attemptId) : e' ∈ entries := by
    rcases List.mem_append.mp he' with he' | he'
    · exact he'
    · rw [List.mem_singleton.mp he', hnone] at hbegun
      cases hbegun
  refine ⟨fun e' he' attemptId hbegun => ?_, fun e' he' e'' he'' attemptId hbegun hbegun' => ?_⟩
  · rw [hnext]
    exact h.bounds e' (hmem he' hbegun) attemptId hbegun
  · exact h.thread e' (hmem he' hbegun) e'' (hmem he'' hbegun') attemptId hbegun hbegun'

theorem AttemptsHold.begin (h : AttemptsHold entries store) {e : Step}
    (hbegun : begunAttempt e.event = some store.beginAttempt.1) :
    AttemptsHold (entries ++ [e]) store.beginAttempt.2 := by
  -- the new attempt has a number none before it has
  have hlast {e' : Step} {attemptId : Nat} (he' : e' ∈ entries ++ [e])
      (hbegun' : begunAttempt e'.event = some attemptId) :
      (e' ∈ entries ∧ 0 < attemptId ∧ attemptId ≤ store.nextAttemptId) ∨
        (e' = e ∧ attemptId = store.nextAttemptId + 1) := by
    rcases List.mem_append.mp he' with he' | he'
    · exact .inl ⟨he', h.bounds e' he' attemptId hbegun'⟩
    · obtain rfl := List.mem_singleton.mp he'
      rw [hbegun] at hbegun'
      exact .inr ⟨rfl, (Option.some.inj hbegun').symm⟩
  refine ⟨fun e' he' attemptId hbegun' => ?_, fun e' he' e'' he'' attemptId hbegun' hbegun'' => ?_⟩
  · have hnext : store.beginAttempt.2.nextAttemptId = store.nextAttemptId + 1 := rfl
    rcases hlast he' hbegun' with ⟨-, hpos, hle⟩ | ⟨-, rfl⟩ <;> omega
  · rcases hlast he' hbegun' with ⟨he', -, hle⟩ | ⟨rfl, rfl⟩
    · rcases hlast he'' hbegun'' with ⟨he'', -⟩ | ⟨-, heq⟩
      · exact h.thread e' he' e'' he'' attemptId hbegun' hbegun''
      · omega
    · rcases hlast he'' hbegun'' with ⟨-, -, hle⟩ | ⟨rfl, -⟩
      · omega
      · rfl

theorem AttemptsHold.step (h : AttemptsHold entries store) {e : Step}
    (hstep : StoreStep store e.event store') : AttemptsHold (entries ++ [e]) store' := by
  generalize hev : e.event = ev at hstep
  cases hstep with
  | append => exact h.unbegun (by rw [hev]; rfl) rfl
  | begin => exact h.begin (by rw [hev]; rfl)
  | ledger call made exec =>
      exact h.unbegun (by rw [hev]; exact (recordedEvent_of_ledgerCall made).2)
        (LedgerCall.exec_frame exec).2.2
  | same _ unbegun _ => exact h.unbegun (by rw [hev]; exact unbegun) rfl

end

-- ============================================================================
-- The ledger
-- ============================================================================

/-- The ledger holds what the calls of the run have left, each record bound to the attempt
    it was inserted for. -/
structure LedgerKept (entries : List Step) (store : InMemoryMissionStore) : Prop where
  holds : LedgerHolds (ledgerCalls entries) store
  bound : ∀ e ∈ entries, ∀ attemptId record,
    e.event = ⟨.insertAuthorization attemptId record, .ok ()⟩ →
      store.authorizationAttempts.lookup record.recordId = some attemptId

section
variable {entries : List Step} {store store' : InMemoryMissionStore}

theorem LedgerHolds.congr {history : List (LedgerCall × Bool)} (h : LedgerHolds history store)
    (hrecords : store'.authorizationRecords = store.authorizationRecords) :
    LedgerHolds history store' :=
  ⟨hrecords.trans h.records, h.unique, h.once, h.available⟩

theorem insertedRecords_ledgerCalls (entries : List Step) :
    insertedRecords (ledgerCalls entries)
      = entries.filterMap fun e => insertedRecord e.event := by
  rw [insertedRecords, ledgerCalls, List.filterMap_filterMap]
  congr 1
  funext e
  obtain ⟨o, r⟩ := e.event
  cases o with
  | insertAuthorization => rcases r with error | ⟨⟩ <;> rfl
  | consume => rcases r with error | tokens <;> rfl
  | _ => rfl

theorem consumedIds_ledgerCalls (entries : List Step) :
    consumedIds (ledgerCalls entries) = entries.filterMap fun e => consumedId e.event := by
  rw [consumedIds, ledgerCalls, List.filterMap_filterMap]
  congr 1
  funext e
  obtain ⟨o, r⟩ := e.event
  cases o with
  | insertAuthorization => rcases r with error | ⟨⟩ <;> rfl
  | consume => rcases r with error | tokens <;> rfl
  | _ => rfl

theorem LedgerKept.unmade (h : LedgerKept entries store) {e : Step}
    (hnone : ledgerCall e.event = none)
    (hrecords : store'.authorizationRecords = store.authorizationRecords)
    (hattempts : store'.authorizationAttempts = store.authorizationAttempts) :
    LedgerKept (entries ++ [e]) store' := by
  refine ⟨?_, fun e' he' attemptId record hcall => ?_⟩
  · rw [ledgerCalls_snoc, hnone, Option.map_none, Option.toList_none, List.append_nil]
    exact h.holds.congr hrecords
  · rcases List.mem_append.mp he' with he' | he'
    · rw [hattempts]
      exact h.bound e' he' attemptId record hcall
    · rw [← List.mem_singleton.mp he', hcall] at hnone
      cases hnone

theorem LedgerKept.made (h : LedgerKept entries store) {e : Step} {call : LedgerCall}
    (hmade : ledgerCall e.event = some call) (hexec : call.exec store = .ok () store') :
    LedgerKept (entries ++ [e]) store' := by
  have hcalls : ledgerCalls (entries ++ [e]) = ledgerCalls entries ++ [(call, true)] := by
    rw [ledgerCalls_snoc, hmade]
    rfl
  constructor
  · rw [hcalls]
    rcases call.inserts_or_consumes with ⟨record, hinserts, hconsumes⟩ |
      ⟨recordId, hinserts, hconsumes⟩
    · exact h.holds.inserted hinserts hconsumes hexec
    · exact h.holds.consumed hinserts hconsumes hexec
  · intro e' he' attemptId record hevent
    rcases ledgerCall_eq_some hmade with ⟨attemptId', record', hev, rfl⟩ |
      ⟨recordId, generation, capabilities, validity, tokens, hev, rfl⟩
    · obtain ⟨-, hinsert⟩ := InMemoryMissionStore.insertAuthorizationForAttempt_eq_ok.mp hexec
      obtain ⟨hnew, rfl⟩ := InMemoryMissionStore.insertAuthorizationInner_eq_ok.mp hinsert
      simp only [AList.lookup_insert_ite]
      rcases List.mem_append.mp he' with he' | he'
      · rw [if_neg fun heq => ?_]
        · exact h.bound e' he' attemptId record hevent
        · rw [h.holds.recordIds, insertedRecords_ledgerCalls, ← heq] at hnew
          exact hnew (List.mem_map_of_mem
            (List.mem_filterMap.mpr ⟨e', he', congrArg insertedRecord hevent⟩))
      · rw [List.mem_singleton.mp he', hev] at hevent
        cases hevent
        rw [if_pos rfl]
    · obtain ⟨-, rfl⟩ := LedgerCall.exec_of_consumes rfl hexec
      rcases List.mem_append.mp he' with he' | he'
      · exact h.bound e' he' attemptId record hevent
      · rw [List.mem_singleton.mp he', hev] at hevent
        cases hevent

theorem LedgerKept.step (h : LedgerKept entries store) {e : Step}
    (hstep : StoreStep store e.event store') : LedgerKept (entries ++ [e]) store' := by
  generalize hev : e.event = ev at hstep
  cases hstep with
  | append => exact h.unmade (by rw [hev]; rfl) rfl rfl
  | begin => exact h.unmade (by rw [hev]; rfl) rfl rfl
  | ledger call made exec => exact h.made (by rw [hev]; exact made) exec
  | same _ _ unmade => exact h.unmade (by rw [hev]; exact unmade) rfl rfl

end

-- ============================================================================
-- The store along a run
-- ============================================================================

/-- What the store keeps of a trace. -/
structure StoreHolds (entries : List Step) (store : InMemoryMissionStore) : Prop where
  log : LogHolds (recorded entries) store
  attempts : AttemptsHold entries store
  ledger : LedgerKept entries store

section
variable {rt : R1Runtime} {init : World} {admits : World → Op → Input → Prop}
  {maySpawn : SystemState → Call → Prop} {c : SystemState}

theorem Bootstrapped.storeHolds (boot : Bootstrapped rt init) : StoreHolds [] init.store := by
  obtain ⟨mission, agentId, spec, registry, version, delegable, input, h⟩ := boot
  simp only [R1Runtime.bootstrapR2, Except.bind_eq_ok, Except.pure_eq_ok] at h
  obtain ⟨_, -, snapshot, -, modelDigest, -, resolver, -, context, -, contextDigest, -, config, -,
    keyId, -, custody, -, granted, -, kernel, -, _, -, h⟩ := h
  cases h
  refine ⟨⟨rfl, fun i event hevent => ?_, fun event hevent => ?_⟩,
    ⟨fun _ he => absurd he List.not_mem_nil, fun _ he => absurd he List.not_mem_nil⟩,
    ⟨(LedgerHolds.new mission).congr rfl, fun _ he => absurd he List.not_mem_nil⟩⟩
  · simp only [InMemoryMissionStore.append, InMemoryMissionStore.appendEvent,
      InMemoryMissionStore.new, List.nil_append, List.cons_append] at hevent
    rcases i with _ | _ | _ | _ | i
    · cases hevent
      rfl
    · cases hevent
      rfl
    · cases hevent
      rfl
    · cases hevent
      rfl
    · cases hevent
  · simp only [InMemoryMissionStore.append, InMemoryMissionStore.appendEvent,
      InMemoryMissionStore.new, List.nil_append, List.cons_append, List.mem_cons,
      List.not_mem_nil, or_false] at hevent
    rcases hevent with rfl | rfl | rfl | rfl <;> rfl

/-- At every point of a run, the store holds what the trace up to there says. -/
theorem storeHolds (run : Run rt.system init admits maySpawn c) (boot : Bootstrapped rt init)
    {i : Nat} (hi : i ≤ c.trace.length) :
    StoreHolds (c.trace.take i) (c.worldAt i).store := by
  refine run.traced (I := fun entries w => StoreHolds entries w.store) boot.storeHolds ?_ hi
  intro i e he h
  have hstep := exec_storeStep e.tid e.op e.input e.pre
  rw [exec_eq run he] at hstep
  refine ⟨?_, h.attempts.step hstep, h.ledger.step hstep⟩
  rw [recorded_snoc]
  exact h.log.step hstep

end

end

end GenesisRuntime
