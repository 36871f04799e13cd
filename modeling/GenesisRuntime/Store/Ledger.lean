/-
  GenesisRuntime.Store.Ledger

  The ledger of authorization records over whole runs: what any sequence of
  successful and failed calls leaves in it.
-/

import GenesisRuntime.Reference
import GenesisRuntime.Store

namespace GenesisRuntime

-- ============================================================================
-- Updating one record
-- ============================================================================

section
variable {α κ : Type} [DecidableEq κ] {key : α → κ} {f : α → α} {k : κ} {xs : List α}

/-- Where keys are distinct, updating the first match updates the match. -/
theorem updateFirst_eq_map (h : (xs.map key).Nodup) :
    updateFirst (fun x => key x = k) f xs = xs.map fun x => if key x = k then f x else x := by
  induction xs with
  | nil => rfl
  | cons x xs ih =>
      rw [List.map_cons, List.nodup_cons] at h
      rw [updateFirst, List.map_cons]
      by_cases hx : key x = k
      · subst hx
        rw [if_pos (by simp), if_pos rfl]
        have hsame : xs.map (fun y => if key y = key x then f y else y) = xs.map id := by
          refine List.map_congr_left fun y hy => if_neg fun heq => ?_
          exact h.1 (List.mem_map.mpr ⟨y, hy, heq⟩)
        rw [hsame, List.map_id]
      · rw [if_neg (by simpa using hx), if_neg hx, ih h.2]

end

section
variable [Externals]

-- ============================================================================
-- Calls
-- ============================================================================

namespace InMemoryMissionStore

variable {store store' : InMemoryMissionStore}

theorem insertAuthorizationInner_eq_ok {record : AuthorizationRecord} {attemptId : Option Nat}
    {u : Unit} :
    insertAuthorizationInner record attemptId store = .ok u store' ↔
      record.recordId ∉ store.authorizationRecords.map AuthorizationRecord.recordId ∧
      store' = { store with
        authorizationAttempts := match attemptId with
          | some attemptId => store.authorizationAttempts.insert record.recordId attemptId
          | none => store.authorizationAttempts
        authorizationRecords := store.authorizationRecords ++ [record] } := by
  simp only [insertAuthorizationInner, EStateM.get_bind_eq_ok, rejectIf_eq_ofResult,
    ofResult_bind_eq_ok, rejectIf_eq_ok, Except.exists_unit, not_exists, not_and, List.mem_map]
  cases attemptId with
  | none =>
      simp only [EStateM.modify_eq_ok]
      constructor
      · rintro ⟨hnew, rfl⟩
        exact ⟨hnew, rfl⟩
      · rintro ⟨hnew, rfl⟩
        exact ⟨hnew, rfl⟩
  | some attemptId =>
      simp only [EStateM.modify_bind_eq_ok, EStateM.modify_eq_ok]
      constructor
      · rintro ⟨hnew, rfl⟩
        exact ⟨hnew, rfl⟩
      · rintro ⟨hnew, rfl⟩
        exact ⟨hnew, rfl⟩

theorem insertAuthorizationInner_failsClean (record : AuthorizationRecord)
    (attemptId : Option Nat) (store : InMemoryMissionStore) :
    EStateM.FailsClean (insertAuthorizationInner record attemptId) store := by
  refine EStateM.reads_get.failsClean_bind fun _ _ => ?_
  refine (rejectIf_reads _ _ _).failsClean_bind fun _ _ => ?_
  cases attemptId <;> exact EStateM.failsClean_of_ok ⟨_, _, rfl⟩

theorem insertAuthorizationForAttempt_eq_ok {attemptId : Nat} {record : AuthorizationRecord}
    {u : Unit} :
    insertAuthorizationForAttempt attemptId record store = .ok u store' ↔
      attemptId ≠ 0 ∧ insertAuthorizationInner record (some attemptId) store = .ok u store' := by
  simp only [insertAuthorizationForAttempt, rejectIf_eq_ofResult, ofResult_bind_eq_ok,
    rejectIf_eq_ok, Except.exists_unit]

/-- A record that can be consumed at this generation. -/
def Available (record : AuthorizationRecord) (expectedGeneration : UInt64) : Prop :=
  record.state = .issued ∧ record.generation = expectedGeneration ∧
    record.remainingBudget.actions ≠ 0

theorem validateAvailableRecord_eq_ok {record : AuthorizationRecord}
    {expectedGeneration : UInt64} :
    validateAvailableRecord record expectedGeneration = .ok () ↔
      Available record expectedGeneration := by
  simp [validateAvailableRecord, Available]

/-- The ledger after a consumption. -/
def consumed (recordId : AuthorizationId) (store : InMemoryMissionStore) :
    InMemoryMissionStore :=
  { store with
    authorizationRecords := updateFirst (fun record => record.recordId = recordId)
      AuthorizationRecord.consume store.authorizationRecords }

theorem consumeAuthorizationWith_eq_ok {α : Type} {recordId : AuthorizationId}
    {expectedGeneration : UInt64} {commit : Result α} {a : α} :
    consumeAuthorizationWith recordId expectedGeneration commit store = .ok a store' ↔
      (∃ record, store.authorizationRecords.find? (fun r => r.recordId = recordId)
          = some record ∧ Available record expectedGeneration) ∧
      commit = .ok a ∧ store' = store.consumed recordId := by
  simp only [consumeAuthorizationWith, EStateM.get_bind_eq_ok, EStateM.modify_bind_eq_ok,
    EStateM.pure_eq_ok, orReject_eq_ofResult, ofResult_bind_eq_ok, orReject_eq_ok,
    Except.exists_unit, validateAvailableRecord_eq_ok]
  constructor
  · rintro ⟨record, hfind, havailable, _, hcommit, rfl, rfl⟩
    exact ⟨⟨record, hfind, havailable⟩, hcommit, rfl⟩
  · rintro ⟨⟨record, hfind, havailable⟩, hcommit, rfl⟩
    exact ⟨record, hfind, havailable, a, hcommit, rfl, rfl⟩

/-- The two ways to consume differ only in what they return: the plain one is the
    other with a closure that cannot fail. -/
theorem consumeAuthorization_eq_ok {recordId : AuthorizationId} {expectedGeneration : UInt64}
    {r : AuthorizationRecord} :
    consumeAuthorization recordId expectedGeneration store = .ok r store' ↔
      consumeAuthorizationWith recordId expectedGeneration (.ok ()) store = .ok () store' ∧
      ∃ record, store.authorizationRecords.find? (fun r => r.recordId = recordId)
          = some record ∧ r = record.consume := by
  rw [consumeAuthorizationWith_eq_ok]
  simp only [consumeAuthorization, EStateM.get_bind_eq_ok, EStateM.modify_bind_eq_ok,
    EStateM.pure_eq_ok, orReject_eq_ofResult, ofResult_bind_eq_ok, orReject_eq_ok,
    Except.exists_unit, validateAvailableRecord_eq_ok]
  constructor
  · rintro ⟨record, hfind, havailable, rfl, rfl⟩
    exact ⟨⟨⟨record, hfind, havailable⟩, trivial, rfl⟩, record, hfind, rfl⟩
  · rintro ⟨⟨⟨record, hfind, havailable⟩, -, rfl⟩, record', hfind', rfl⟩
    rw [hfind] at hfind'
    cases hfind'
    exact ⟨record, hfind, havailable, rfl, rfl⟩

theorem consumeAuthorizationWith_failsClean {α : Type} (recordId : AuthorizationId)
    (expectedGeneration : UInt64) (commit : Result α) (store : InMemoryMissionStore) :
    EStateM.FailsClean (consumeAuthorizationWith recordId expectedGeneration commit) store := by
  refine EStateM.reads_get.failsClean_bind fun _ _ => ?_
  refine (orReject_reads _ _ _).failsClean_bind fun _ _ => ?_
  refine (ofResult_reads _).failsClean_bind fun _ _ => ?_
  refine (ofResult_reads _).failsClean_bind fun _ _ => ?_
  exact EStateM.failsClean_of_ok ⟨_, _, rfl⟩

theorem consumeAuthorization_failsClean (recordId : AuthorizationId)
    (expectedGeneration : UInt64) (store : InMemoryMissionStore) :
    EStateM.FailsClean (consumeAuthorization recordId expectedGeneration) store := by
  refine EStateM.reads_get.failsClean_bind fun _ _ => ?_
  refine (orReject_reads _ _ _).failsClean_bind fun _ _ => ?_
  refine (ofResult_reads _).failsClean_bind fun _ _ => ?_
  exact EStateM.failsClean_of_ok ⟨_, _, rfl⟩

end InMemoryMissionStore

/-- A call of the ledger, with all its arguments. -/
inductive LedgerCall : Type 1 where
  | insertAuthorization (record : AuthorizationRecord)
  | insertAuthorizationForAttempt (attemptId : Nat) (record : AuthorizationRecord)
  | consumeAuthorization (recordId : AuthorizationId) (expectedGeneration : UInt64)
  | consumeAuthorizationWith {α : Type} (recordId : AuthorizationId)
      (expectedGeneration : UInt64) (commit : Result α)

namespace LedgerCall

/-- Run one call. -/
def exec : LedgerCall → StoreM Unit
  | .insertAuthorization record => InMemoryMissionStore.insertAuthorization record
  | .insertAuthorizationForAttempt attemptId record =>
      InMemoryMissionStore.insertAuthorizationForAttempt attemptId record
  | .consumeAuthorization recordId expectedGeneration => do
      let _ ← InMemoryMissionStore.consumeAuthorization recordId expectedGeneration
  | .consumeAuthorizationWith recordId expectedGeneration commit => do
      let _ ← InMemoryMissionStore.consumeAuthorizationWith recordId expectedGeneration commit

/-- The record the call stores if it succeeds. -/
def inserts : LedgerCall → Option AuthorizationRecord
  | .insertAuthorization record => some record
  | .insertAuthorizationForAttempt _ record => some record
  | _ => none

/-- The record the call consumes if it succeeds. -/
def consumes : LedgerCall → Option AuthorizationId
  | .consumeAuthorization recordId _ => some recordId
  | .consumeAuthorizationWith recordId _ _ => some recordId
  | _ => none

variable {store store' : InMemoryMissionStore} {call : LedgerCall}

/-- A call that fails leaves records, bindings and everything else alone. -/
theorem exec_failsClean (call : LedgerCall) (store : InMemoryMissionStore) :
    EStateM.FailsClean call.exec store := by
  cases call with
  | insertAuthorization record =>
      exact InMemoryMissionStore.insertAuthorizationInner_failsClean record none store
  | insertAuthorizationForAttempt attemptId record =>
      exact (rejectIf_reads _ _ _).failsClean_bind fun _ _ =>
        InMemoryMissionStore.insertAuthorizationInner_failsClean record (some attemptId) store
  | consumeAuthorization recordId expectedGeneration =>
      exact (InMemoryMissionStore.consumeAuthorization_failsClean recordId expectedGeneration
        store).bind_pure _
  | consumeAuthorizationWith recordId expectedGeneration commit =>
      exact (InMemoryMissionStore.consumeAuthorizationWith_failsClean recordId
        expectedGeneration commit store).bind_pure _

/-- A successful insertion: the id was not in use, and the record is stored. -/
theorem exec_of_inserts {record : AuthorizationRecord} (hcall : call.inserts = some record)
    (h : call.exec store = .ok () store') :
    record.recordId ∉ store.authorizationRecords.map AuthorizationRecord.recordId ∧
      store'.authorizationRecords = store.authorizationRecords ++ [record] := by
  cases call with
  | insertAuthorization record' =>
      cases hcall
      have h : InMemoryMissionStore.insertAuthorizationInner record none store
          = .ok () store' := h
      obtain ⟨hnew, rfl⟩ := InMemoryMissionStore.insertAuthorizationInner_eq_ok.mp h
      exact ⟨hnew, rfl⟩
  | insertAuthorizationForAttempt attemptId record' =>
      cases hcall
      obtain ⟨-, h⟩ := InMemoryMissionStore.insertAuthorizationForAttempt_eq_ok.mp h
      obtain ⟨hnew, rfl⟩ := InMemoryMissionStore.insertAuthorizationInner_eq_ok.mp h
      exact ⟨hnew, rfl⟩
  | consumeAuthorization => cases hcall
  | consumeAuthorizationWith => cases hcall

/-- A successful consumption: the record found was available, and it is consumed. -/
theorem exec_of_consumes {recordId : AuthorizationId} (hcall : call.consumes = some recordId)
    (h : call.exec store = .ok () store') :
    (∃ record generation, store.authorizationRecords.find? (fun r => r.recordId = recordId)
        = some record ∧ InMemoryMissionStore.Available record generation) ∧
      store' = store.consumed recordId := by
  cases call with
  | insertAuthorization => cases hcall
  | insertAuthorizationForAttempt => cases hcall
  | consumeAuthorization recordId' generation =>
      cases hcall
      obtain ⟨_, t, hrun, hret⟩ := EStateM.bind_eq_ok.mp h
      obtain ⟨-, rfl⟩ := EStateM.pure_eq_ok.mp hret
      obtain ⟨hrun, -⟩ := InMemoryMissionStore.consumeAuthorization_eq_ok.mp hrun
      obtain ⟨⟨record, hfind, havailable⟩, -, rfl⟩ :=
        InMemoryMissionStore.consumeAuthorizationWith_eq_ok.mp hrun
      exact ⟨⟨record, generation, hfind, havailable⟩, rfl⟩
  | consumeAuthorizationWith recordId' generation commit =>
      cases hcall
      obtain ⟨_, t, hrun, hret⟩ := EStateM.bind_eq_ok.mp h
      obtain ⟨-, rfl⟩ := EStateM.pure_eq_ok.mp hret
      obtain ⟨⟨record, hfind, havailable⟩, -, rfl⟩ :=
        InMemoryMissionStore.consumeAuthorizationWith_eq_ok.mp hrun
      exact ⟨⟨record, generation, hfind, havailable⟩, rfl⟩

/-- Every call inserts or consumes. -/
theorem inserts_or_consumes (call : LedgerCall) :
    (∃ record, call.inserts = some record ∧ call.consumes = none) ∨
      ∃ recordId, call.inserts = none ∧ call.consumes = some recordId := by
  cases call with
  | insertAuthorization record => exact .inl ⟨record, rfl, rfl⟩
  | insertAuthorizationForAttempt _ record => exact .inl ⟨record, rfl, rfl⟩
  | consumeAuthorization recordId _ => exact .inr ⟨recordId, rfl, rfl⟩
  | consumeAuthorizationWith recordId _ _ => exact .inr ⟨recordId, rfl, rfl⟩

end LedgerCall

-- ============================================================================
-- Runs
-- ============================================================================

/-- A run from an empty store: its calls in the order in which they took the
    lock, each with whether it succeeded, and the store they left. -/
inductive LedgerRun (mission : MissionEnvelope) :
    List (LedgerCall × Bool) → InMemoryMissionStore → Prop where
  | new : LedgerRun mission [] (.new mission)
  | ok {history : List (LedgerCall × Bool)} {store store' : InMemoryMissionStore}
      (run : LedgerRun mission history store) (call : LedgerCall)
      (h : call.exec store = .ok () store') : LedgerRun mission (history ++ [(call, true)]) store'
  | error {history : List (LedgerCall × Bool)} {store store' : InMemoryMissionStore}
      (run : LedgerRun mission history store) (call : LedgerCall) (e : RuntimeError)
      (h : call.exec store = .error e store') :
      LedgerRun mission (history ++ [(call, false)]) store'

/-- The records stored by the successful insertions of a history, in order. -/
def insertedRecords (history : List (LedgerCall × Bool)) : List AuthorizationRecord :=
  history.filterMap fun entry => if entry.2 then entry.1.inserts else none

/-- The ids of the records the successful consumptions of a history consumed. -/
def consumedIds (history : List (LedgerCall × Bool)) : List AuthorizationId :=
  history.filterMap fun entry => if entry.2 then entry.1.consumes else none

/-- What has become of an inserted record. -/
def ledgerRecord (consumed : List AuthorizationId) (record : AuthorizationRecord) :
    AuthorizationRecord :=
  if record.recordId ∈ consumed then record.consume else record

/-- What the ledger holds after a history. -/
structure LedgerHolds (history : List (LedgerCall × Bool)) (store : InMemoryMissionStore) :
    Prop where
  records : store.authorizationRecords
    = (insertedRecords history).map (ledgerRecord (consumedIds history))
  unique : ((insertedRecords history).map AuthorizationRecord.recordId).Nodup
  once : (consumedIds history).Nodup
  available : ∀ recordId ∈ consumedIds history, ∃ record ∈ insertedRecords history,
    record.recordId = recordId ∧ record.state = .issued ∧ record.remainingBudget.actions ≠ 0

theorem ledgerRecord_recordId (consumed : List AuthorizationId) (record : AuthorizationRecord) :
    (ledgerRecord consumed record).recordId = record.recordId := by
  unfold ledgerRecord
  split <;> rfl

namespace LedgerHolds

variable {history : List (LedgerCall × Bool)} {store store' : InMemoryMissionStore}

theorem recordIds (h : LedgerHolds history store) :
    store.authorizationRecords.map AuthorizationRecord.recordId
      = (insertedRecords history).map AuthorizationRecord.recordId := by
  rw [h.records, List.map_map]
  exact List.map_congr_left fun record _ => ledgerRecord_recordId _ record

theorem new (mission : MissionEnvelope) : LedgerHolds [] (.new mission) where
  records := rfl
  unique := List.nodup_nil
  once := List.nodup_nil
  available := by
    intro recordId hid
    cases hid

theorem inserted (h : LedgerHolds history store) {call : LedgerCall}
    {record : AuthorizationRecord} (hinserts : call.inserts = some record)
    (hconsumes : call.consumes = none) (hrun : call.exec store = .ok () store') :
    LedgerHolds (history ++ [(call, true)]) store' := by
  obtain ⟨hnew, hrecords⟩ := LedgerCall.exec_of_inserts hinserts hrun
  rw [h.recordIds] at hnew
  have hinserted : insertedRecords (history ++ [(call, true)])
      = insertedRecords history ++ [record] := by
    simp [insertedRecords, hinserts]
  have hconsumed : consumedIds (history ++ [(call, true)]) = consumedIds history := by
    simp [consumedIds, hconsumes]
  -- an id that was consumed is the id of an earlier record
  have hnot : record.recordId ∉ consumedIds history := by
    intro hin
    obtain ⟨record', hmem, hid, -⟩ := h.available _ hin
    exact hnew (List.mem_map.mpr ⟨record', hmem, hid⟩)
  constructor
  · rw [hrecords, hinserted, hconsumed, List.map_append, h.records, List.map_singleton,
      ledgerRecord, if_neg hnot]
  · rw [hinserted, List.map_append]
    exact List.nodup_append'.mpr ⟨h.unique, by simp, by simpa using hnew⟩
  · rw [hconsumed]
    exact h.once
  · intro recordId hid
    rw [hconsumed] at hid
    obtain ⟨record', hmem, hrest⟩ := h.available recordId hid
    exact ⟨record', by rw [hinserted]; exact List.mem_append_left _ hmem, hrest⟩

theorem consumed (h : LedgerHolds history store) {call : LedgerCall}
    {recordId : AuthorizationId} (hinserts : call.inserts = none)
    (hconsumes : call.consumes = some recordId) (hrun : call.exec store = .ok () store') :
    LedgerHolds (history ++ [(call, true)]) store' := by
  obtain ⟨⟨record, generation, hfind, hstate, -, hbudget⟩, rfl⟩ :=
    LedgerCall.exec_of_consumes hconsumes hrun
  have hinserted : insertedRecords (history ++ [(call, true)]) = insertedRecords history := by
    simp [insertedRecords, hinserts]
  have hconsumed : consumedIds (history ++ [(call, true)])
      = consumedIds history ++ [recordId] := by
    simp [consumedIds, hconsumes]
  have hid : record.recordId = recordId := by simpa using List.find?_some hfind
  have hmem := List.mem_of_find?_eq_some hfind
  rw [h.records, List.mem_map] at hmem
  obtain ⟨source, hsource, heq⟩ := hmem
  have hsourceId : source.recordId = recordId := by
    rw [← hid, ← heq, ledgerRecord_recordId]
  -- a record found in state `Issued` has not been consumed before
  have hnot : recordId ∉ consumedIds history := by
    intro hin
    rw [← heq, ledgerRecord, hsourceId, if_pos hin] at hstate
    cases hstate
  rw [ledgerRecord, hsourceId, if_neg hnot] at heq
  subst heq
  constructor
  · have hnodup := h.unique
    rw [← h.recordIds] at hnodup
    rw [hinserted, hconsumed, InMemoryMissionStore.consumed, updateFirst_eq_map hnodup,
      h.records, List.map_map]
    refine List.map_congr_left fun other _ => ?_
    simp only [Function.comp, ledgerRecord_recordId]
    by_cases hother : other.recordId = recordId
    · simp [ledgerRecord, hother, hnot]
    · simp [ledgerRecord, hother]
  · rw [hinserted]
    exact h.unique
  · rw [hconsumed]
    exact List.nodup_append'.mpr ⟨h.once, by simp, by simpa using hnot⟩
  · intro id hin
    rw [hconsumed, List.mem_append, List.mem_singleton] at hin
    rw [hinserted]
    rcases hin with hin | rfl
    · exact h.available id hin
    · exact ⟨source, hsource, hsourceId, hstate, hbudget⟩

theorem of_run {mission : MissionEnvelope} (hrun : LedgerRun mission history store) :
    LedgerHolds history store := by
  induction hrun with
  | new => exact new mission
  | ok _ call hexec ih =>
      rcases call.inserts_or_consumes with ⟨record, hinserts, hconsumes⟩ |
        ⟨recordId, hinserts, hconsumes⟩
      · exact ih.inserted hinserts hconsumes hexec
      · exact ih.consumed hinserts hconsumes hexec
  | @error history store store' _ call e hexec ih =>
      have hinserted : insertedRecords (history ++ [(call, false)])
          = insertedRecords history := by
        simp [insertedRecords]
      have hconsumed : consumedIds (history ++ [(call, false)]) = consumedIds history := by
        simp [consumedIds]
      obtain rfl := call.exec_failsClean store e store' hexec
      obtain ⟨hrecords, hunique, honce, havailable⟩ := ih
      exact ⟨by rw [hinserted, hconsumed]; exact hrecords, by rw [hinserted]; exact hunique,
        by rw [hconsumed]; exact honce, by rw [hinserted, hconsumed]; exact havailable⟩

end LedgerHolds

/-- What a consumption does to a record whose budget is not used up and whose
    generation is not the last. -/
theorem AuthorizationRecord.consume_counts (record : AuthorizationRecord)
    (hgeneration : record.generation.toNat < UInt64.size - 1)
    (hbudget : record.remainingBudget.actions ≠ 0) :
    record.consume.generation.toNat = record.generation.toNat + 1 ∧
      record.consume.remainingBudget.actions.toNat + 1
        = record.remainingBudget.actions.toNat := by
  have hpos : record.remainingBudget.actions.toNat ≠ 0 := by
    intro hzero
    exact hbudget (UInt64.toNat_inj.mp hzero)
  have hlt := record.remainingBudget.actions.toNat_lt
  have hone : (1 : UInt64).toNat = 1 := rfl
  simp only [consume, UInt64.toNat_add, UInt64.toNat_sub, UInt64.size, hone] at *
  omega

/-- After any run, whatever the calls, their arguments and their order: ids are
    unique; the ledger holds exactly the records inserted, in order, each as it
    was inserted or, if it was consumed, consumed once; and a call that fails at
    this point changes nothing. -/
theorem ledger_is_single_use {mission : MissionEnvelope}
    {history : List (LedgerCall × Bool)} {store : InMemoryMissionStore}
    (hrun : LedgerRun mission history store)
    (hgeneration : ∀ record ∈ insertedRecords history,
      record.generation.toNat < UInt64.size - 1) :
    (store.authorizationRecords.map AuthorizationRecord.recordId).Nodup ∧
    store.authorizationRecords
      = (insertedRecords history).map (ledgerRecord (consumedIds history)) ∧
    (consumedIds history).Nodup ∧
    (∀ recordId ∈ consumedIds history, ∃ record ∈ insertedRecords history,
      record.recordId = recordId ∧ record.consume ∈ store.authorizationRecords ∧
      record.consume
        = { record with
            state := .consumed
            generation := record.consume.generation
            remainingBudget := record.consume.remainingBudget } ∧
      record.consume.generation.toNat = record.generation.toNat + 1 ∧
      record.consume.remainingBudget.actions.toNat + 1
        = record.remainingBudget.actions.toNat) ∧
    ∀ call : LedgerCall, ∀ e store', call.exec store = .error e store' →
      store'.authorizationRecords = store.authorizationRecords ∧
        store'.authorizationAttempts = store.authorizationAttempts := by
  have h := LedgerHolds.of_run hrun
  refine ⟨by rw [h.recordIds]; exact h.unique, h.records, h.once, ?_, ?_⟩
  · intro recordId hid
    obtain ⟨record, hmem, rfl, -, hbudget⟩ := h.available recordId hid
    obtain ⟨hgen, hbud⟩ := record.consume_counts (hgeneration record hmem) hbudget
    refine ⟨record, hmem, rfl, ?_, rfl, hgen, hbud⟩
    rw [h.records]
    exact List.mem_map.mpr ⟨record, hmem, if_pos hid⟩
  · intro call e store' hexec
    obtain rfl := call.exec_failsClean store e store' hexec
    exact ⟨rfl, rfl⟩

/-- The history of one record of the reference ledger: issued, and then consumed once. -/
def Reference.record : letI := Reference.externals; AuthorizationRecord :=
  letI := Reference.externals
  { recordId := ⟨"auth-1", by decide⟩
    actionRef := ⟨[5]⟩
    authorityChain := [⟨Reference.leaseId, [6]⟩]
    totalBudget := ⟨1⟩
    remainingBudget := ⟨1⟩
    state := .issued
    stableIdempotencyKey := "aeon-r1:05"
    effectClass := .readOnly
    generation := 0 }

omit [Externals] in
/-- After it, the ledger holds the record in consumed form. -/
theorem ledger_is_single_use_reference : letI := Reference.externals
    ∃ (history : List (LedgerCall × Bool)) (store : InMemoryMissionStore),
      LedgerRun Reference.mission history store ∧ history.length = 2 ∧
      store.authorizationRecords
        = (insertedRecords history).map (ledgerRecord (consumedIds history)) ∧
      (consumedIds history).Nodup := by
  let := Reference.externals
  have hnew : LedgerRun Reference.mission [] (.new Reference.mission) := .new
  have hrun := hnew.ok
    (.insertAuthorizationForAttempt 1 Reference.record) rfl
  have hrun := hrun.ok (.consumeAuthorization Reference.record.recordId 0) rfl
  have hgeneration : ∀ record ∈ [Reference.record],
      record.generation.toNat < UInt64.size - 1 := by decide
  have h := ledger_is_single_use hrun hgeneration
  exact ⟨_, _, hrun, rfl, h.2.1, h.2.2.1⟩

end

end GenesisRuntime
