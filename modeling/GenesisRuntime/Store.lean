/-
  GenesisRuntime.Store

  `store.rs`: the mission event log and the ledger of authorization records, with
  the attempts their records are bound to.

  A call holds the lock it needs throughout, so it is one computation on the
  store.  Attempt ids and sequence numbers are `u64` counters advanced by one;
  they are natural numbers here.  The agent record and the lease the store can
  also hold are not read by anything, and are left out.
-/

import GenesisRuntime.Action
import GenesisRuntime.Lib.AssocMap
import GenesisRuntime.Mission

namespace GenesisRuntime

/-- `MissionEventKind`. -/
inductive MissionEventKind where
  | missionCreated
  | contextResolved
  | leaseIssued
  | agentActivated
  | modelFailed (code : ErrorCode)
  | protocolAccepted
  | protocolRejected (code : ErrorCode)
  | planAccepted
  | actionAuthorized
  | actionRejected (code : ErrorCode)
  | authorizationIssued
  | authorizationConsumed
  | executionStarted
  | executionRejectedBeforeNexus (code : ErrorCode)
  | executionFailed (code : ErrorCode)
  | executionCompleted
  | finalProduced
  | finalRejected (code : ErrorCode)
deriving DecidableEq, Repr

/-- `MissionEvent`. -/
structure MissionEvent where
  sequence : Nat
  missionId : MissionId
  attemptId : Option Nat
  kind : MissionEventKind
  occurredAt : DateTime
deriving DecidableEq

/-- Update the first member a search finds (`iter_mut().find(..)`). -/
def updateFirst {α : Type} (p : α → Bool) (f : α → α) : List α → List α
  | [] => []
  | x :: xs => if p x then f x :: xs else x :: updateFirst p f xs

section
variable [Externals]

/-- `InMemoryMissionStore`. -/
structure InMemoryMissionStore where
  mission : MissionEnvelope
  events : List MissionEvent
  nextAttemptId : Nat
  authorizationRecords : List AuthorizationRecord
  authorizationAttempts : AList fun _ : AuthorizationId => Nat

/-- A call of the store. -/
abbrev StoreM := EStateM RuntimeError InMemoryMissionStore

namespace InMemoryMissionStore

/-- `new`. -/
def new (mission : MissionEnvelope) : InMemoryMissionStore where
  mission := mission
  events := []
  nextAttemptId := 0
  authorizationRecords := []
  authorizationAttempts := ∅

-- ============================================================================
-- Events
-- ============================================================================

/-- `append_event`. -/
def appendEvent (attemptId : Option Nat) (kind : MissionEventKind) (now : DateTime)
    (store : InMemoryMissionStore) : InMemoryMissionStore :=
  { store with
    events := store.events ++
      [{ sequence := store.events.length + 1
         missionId := store.mission.missionId
         attemptId := attemptId
         kind := kind
         occurredAt := now }] }

/-- `append`. -/
def append (kind : MissionEventKind) (now : DateTime) (store : InMemoryMissionStore) :
    InMemoryMissionStore :=
  store.appendEvent none kind now

/-- `append_for_attempt`. -/
def appendForAttempt (attemptId : Nat) (kind : MissionEventKind) (now : DateTime)
    (store : InMemoryMissionStore) : InMemoryMissionStore :=
  store.appendEvent (some attemptId) kind now

/-- `begin_attempt`: the new attempt id, and the store it leaves. -/
def beginAttempt (store : InMemoryMissionStore) : Nat × InMemoryMissionStore :=
  (store.nextAttemptId + 1, { store with nextAttemptId := store.nextAttemptId + 1 })

-- ============================================================================
-- The ledger
-- ============================================================================

/-- `insert_authorization_inner`. -/
def insertAuthorizationInner (record : AuthorizationRecord) (attemptId : Option Nat) :
    StoreM Unit := do
  rejectIf (∃ existing ∈ (← get).authorizationRecords, existing.recordId = record.recordId)
    .authorizationInvalid "authorization record already exists"
  if let some attemptId := attemptId then
    modify fun store =>
      { store with
        authorizationAttempts := store.authorizationAttempts.insert record.recordId attemptId }
  modify fun store =>
    { store with authorizationRecords := store.authorizationRecords ++ [record] }

/-- `insert_authorization`. -/
def insertAuthorization (record : AuthorizationRecord) : StoreM Unit :=
  insertAuthorizationInner record none

/-- `insert_authorization_for_attempt`. -/
def insertAuthorizationForAttempt (attemptId : Nat) (record : AuthorizationRecord) :
    StoreM Unit := do
  rejectIf (attemptId = 0) .invalidInput "authorization attempt identifier must be nonzero"
  insertAuthorizationInner record (some attemptId)

/-- `validate_available_record`. -/
def validateAvailableRecord (record : AuthorizationRecord) (expectedGeneration : UInt64) :
    Result Unit :=
  rejectIf (record.state ≠ .issued ∨ record.generation ≠ expectedGeneration
      ∨ record.remainingBudget.actions = 0)
    .authorizationInvalid "authorization state, generation, or remaining budget is stale"

/-- `consume_authorization`. -/
def consumeAuthorization (recordId : AuthorizationId) (expectedGeneration : UInt64) :
    StoreM AuthorizationRecord := do
  let record ← orReject .authorizationInvalid "authorization record does not exist"
    ((← get).authorizationRecords.find? fun record => record.recordId = recordId)
  ofResult (validateAvailableRecord record expectedGeneration)
  modify fun store =>
    { store with
      authorizationRecords := updateFirst (fun record => record.recordId = recordId)
        AuthorizationRecord.consume store.authorizationRecords }
  return record.consume

/-- `consume_authorization_with`. `commit` is what the closure returns. -/
def consumeAuthorizationWith {α : Type} (recordId : AuthorizationId)
    (expectedGeneration : UInt64) (commit : Result α) : StoreM α := do
  let record ← orReject .authorizationInvalid "authorization record does not exist"
    ((← get).authorizationRecords.find? fun record => record.recordId = recordId)
  ofResult (validateAvailableRecord record expectedGeneration)
  let committed ← ofResult commit
  modify fun store =>
    { store with
      authorizationRecords := updateFirst (fun record => record.recordId = recordId)
        AuthorizationRecord.consume store.authorizationRecords }
  return committed

end InMemoryMissionStore

-- ============================================================================
-- Verification
-- ============================================================================

/-- `incomplete`, raised where a condition fails. -/
def incompleteIf (bad : Prop) [Decidable bad] (message : String) : Result Unit :=
  rejectIf bad .eventIncomplete message

/-- `validate_attempt`. -/
def validateAttempt (events : List MissionEventKind) : Result Unit :=
  match events with
  | [.modelFailed _]
  | [.protocolRejected _]
  | [.protocolAccepted, .finalProduced]
  | [.protocolAccepted, .finalRejected _]
  | [.protocolAccepted, .planAccepted, .actionRejected _]
  | [.protocolAccepted, .planAccepted, .actionAuthorized, .authorizationIssued,
      .executionRejectedBeforeNexus _]
  | [.protocolAccepted, .planAccepted, .actionAuthorized, .authorizationIssued,
      .executionFailed _]
  | [.protocolAccepted, .planAccepted, .actionAuthorized, .authorizationIssued,
      .authorizationConsumed, .executionRejectedBeforeNexus _]
  | [.protocolAccepted, .planAccepted, .actionAuthorized, .authorizationIssued,
      .authorizationConsumed, .executionStarted, .executionCompleted]
  | [.protocolAccepted, .planAccepted, .actionAuthorized, .authorizationIssued,
      .authorizationConsumed, .executionStarted, .executionFailed _] => return
  | _ => throw ⟨.eventIncomplete,
      "attempt history is incomplete, out of order, or crosses a terminal event"⟩

/-- The events every history starts with. -/
def foundational : List MissionEventKind :=
  [.missionCreated, .contextResolved, .leaseIssued, .agentActivated]

/-- The attempt a runtime event belongs to, and its kind. -/
def attemptKind (event : MissionEvent) : Result (Nat × MissionEventKind) := do
  let attemptId ← orReject .eventIncomplete
    "runtime event is missing its originating attempt identifier" event.attemptId
  incompleteIf (attemptId = 0) "runtime event has an invalid attempt identifier"
  return (attemptId, event.kind)

/-- The kinds recorded for one attempt, in order. -/
def kindsOf (recorded : List (Nat × MissionEventKind)) (attemptId : Nat) :
    List MissionEventKind :=
  (recorded.filter fun event => event.1 = attemptId).map Prod.snd

namespace InMemoryMissionStore

/-- `verify_event_completeness`. -/
def verifyEventCompleteness (store : InMemoryMissionStore) : Result Unit := do
  let events := store.events
  incompleteIf (events.length < foundational.length
      ∨ (events.take foundational.length).map MissionEvent.kind ≠ foundational
      ∨ ∃ event ∈ events.take foundational.length, event.attemptId.isSome)
    "mission history is missing its trusted activation prefix"
  incompleteIf (∃ entry ∈ events.zipIdx, entry.1.sequence ≠ entry.2 + 1)
    "mission event sequence is not contiguous"
  incompleteIf (∃ event ∈ events, event.missionId ≠ store.mission.missionId)
    "mission event is bound to the wrong mission"
  let recorded ← (events.drop foundational.length).mapM attemptKind
  forM (sortByKey id (recorded.map Prod.fst).dedup) fun attemptId =>
    validateAttempt (kindsOf recorded attemptId)
  let consumed := store.authorizationRecords.filter fun record => record.state = .consumed
  let consumedAttempts ← consumed.mapM fun record =>
    orReject .eventIncomplete "consumed authorization is not bound to an execution attempt"
      (store.authorizationAttempts.lookup record.recordId)
  forM (sortByKey id consumedAttempts.dedup) fun attemptId =>
    incompleteIf ((kindsOf recorded attemptId).count .authorizationConsumed
        < consumedAttempts.count attemptId)
      "consumed authorization is missing AuthorizationConsumed evidence"

end InMemoryMissionStore

end

end GenesisRuntime
