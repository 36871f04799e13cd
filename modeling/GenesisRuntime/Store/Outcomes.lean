/-
  GenesisRuntime.Store.Outcomes

  What `verify_event_completeness` accepts: the histories of single attempts, read off
  an interleaved log, and the evidence for the consumed records.

  An attempt that has reached an outcome of the execution is accepted after its
  consumption and its start are recorded, but also in one history that records neither.
-/

import GenesisRuntime.Reference
import GenesisRuntime.Store

namespace GenesisRuntime

-- ============================================================================
-- Histories of one attempt
-- ============================================================================

/-- The word of an attempt whose authorization is issued. -/
def issuedWord : List MissionEventKind :=
  [.protocolAccepted, .planAccepted, .actionAuthorized, .authorizationIssued]

/-- The word of an attempt that enters Nexus. -/
def enteredWord : List MissionEventKind :=
  issuedWord ++ [.authorizationConsumed, .executionStarted]

/-- The events that report what came of an execution. -/
def MissionEventKind.isOutcome : MissionEventKind → Bool
  | .executionCompleted | .executionFailed _ => true
  | _ => false

/-- Before every outcome there is a consumption, and a start after that. -/
def OutcomesEvidenced (word : List MissionEventKind) : Prop :=
  ∀ before outcome after, word = before ++ outcome :: after → outcome.isOutcome = true →
    [.authorizationConsumed, .executionStarted].Sublist before

/-- Where only the last event can be an outcome, it alone matters. -/
theorem outcomesEvidenced_of_dropLast {word : List MissionEventKind}
    (h : ∀ kind ∈ word.dropLast, kind.isOutcome = false) :
    OutcomesEvidenced word ↔ ∀ last ∈ word.getLast?, last.isOutcome = true →
      [.authorizationConsumed, .executionStarted].Sublist word.dropLast := by
  constructor
  · intro hword last hlast
    refine hword word.dropLast last [] ?_
    exact (List.dropLast_append_getLast? last hlast).symm
  · rintro hlast before outcome after rfl houtcome
    rcases List.eq_nil_or_concat after with rfl | ⟨after, last, rfl⟩
    · simpa using hlast outcome (by simp) houtcome
    · have hmem : outcome ∈ (before ++ outcome :: after.concat last).dropLast := by
        simp [List.dropLast_append_of_ne_nil, List.dropLast_cons_of_ne_nil]
      rw [h outcome hmem] at houtcome
      cases houtcome

/-- Of the accepted histories, one has an outcome without the evidence. -/
theorem outcomesEvidenced_iff {word : List MissionEventKind}
    (h : validateAttempt word = .ok ()) :
    OutcomesEvidenced word ↔ ∀ code, word ≠ issuedWord ++ [.executionFailed code] := by
  unfold validateAttempt at h
  split at h
  case h_11 => cases h
  all_goals
    rw [outcomesEvidenced_of_dropLast (by simp [MissionEventKind.isOutcome])]
    simp +decide [MissionEventKind.isOutcome, issuedWord]

-- ============================================================================
-- The log
-- ============================================================================

theorem mem_kindsOf {recorded : List (Nat × MissionEventKind)} {attemptId : Nat}
    {kind : MissionEventKind} :
    kind ∈ kindsOf recorded attemptId ↔ (attemptId, kind) ∈ recorded := by
  simp [kindsOf]

theorem attemptKind_eq_ok {event : MissionEvent} {entry : Nat × MissionEventKind} :
    attemptKind event = .ok entry ↔
      event.attemptId = some entry.1 ∧ entry.1 ≠ 0 ∧ event.kind = entry.2 := by
  simp only [attemptKind, incompleteIf, Except.bind_eq_ok, Except.pure_eq_ok, orReject_eq_ok,
    rejectIf_eq_ok, Except.exists_unit]
  constructor
  · rintro ⟨attemptId, hid, hpos, rfl⟩
    exact ⟨hid, hpos, rfl⟩
  · rintro ⟨hid, hpos, hkind⟩
    exact ⟨entry.1, hid, hpos, by rw [hkind]⟩

section
variable [Externals] {store : InMemoryMissionStore}

/-- The attempts whose consumed records are still to be accounted for. -/
def InMemoryMissionStore.consumedAttempts (store : InMemoryMissionStore) : Result (List Nat) :=
  (store.authorizationRecords.filter fun record => record.state = .consumed).mapM fun record =>
    orReject .eventIncomplete "consumed authorization is not bound to an execution attempt"
      (store.authorizationAttempts.lookup record.recordId)

/-- The history of an attempt, as the log has it. -/
def InMemoryMissionStore.wordOf (store : InMemoryMissionStore) (attemptId : Nat) :
    List MissionEventKind :=
  (store.events.filter fun event => event.attemptId = some attemptId).map MissionEvent.kind

/-- The activation prefix, the numbering and the binding to the mission are in order. -/
structure WellFormedLog (store : InMemoryMissionStore) : Prop where
  foundation : (store.events.take foundational.length).map MissionEvent.kind = foundational
  unbound : ∀ event ∈ store.events.take foundational.length, event.attemptId = none
  sequence : ∀ (i : Nat) (event : MissionEvent), store.events[i]? = some event →
    event.sequence = i + 1
  mission : ∀ event ∈ store.events, event.missionId = store.mission.missionId

/-- `verify_event_completeness`, whatever the store holds. -/
theorem verifyEventCompleteness_eq_ok :
    store.verifyEventCompleteness = .ok () ↔
      WellFormedLog store ∧ ∃ recorded,
        (store.events.drop foundational.length).mapM attemptKind = .ok recorded ∧
        (∀ event ∈ recorded, validateAttempt (kindsOf recorded event.1) = .ok ()) ∧
        ∃ attempts, store.consumedAttempts = .ok attempts ∧ ∀ attemptId ∈ attempts,
          attempts.count attemptId ≤ (kindsOf recorded attemptId).count .authorizationConsumed := by
  have hfoundation : ¬ (store.events.length < foundational.length
      ∨ (store.events.take foundational.length).map MissionEvent.kind ≠ foundational
      ∨ ∃ event ∈ store.events.take foundational.length, event.attemptId.isSome) ↔
      (store.events.take foundational.length).map MissionEvent.kind = foundational ∧
        ∀ event ∈ store.events.take foundational.length, event.attemptId = none := by
    simp only [not_or, not_lt, not_not, not_exists, not_and, Bool.not_eq_true,
      Option.isSome_eq_false_iff, Option.isNone_iff_eq_none]
    refine ⟨fun h => h.2, fun h => ⟨?_, h⟩⟩
    have hlength := congrArg List.length h.1
    rw [List.length_map, List.length_take] at hlength
    omega
  have hsequence : ¬ (∃ entry ∈ store.events.zipIdx, entry.1.sequence ≠ entry.2 + 1) ↔
      ∀ (i : Nat) (event : MissionEvent), store.events[i]? = some event →
        event.sequence = i + 1 := by
    simp only [not_exists, not_and, not_not, Prod.forall, List.mem_zipIdx_iff_getElem?]
    exact forall_comm
  simp only [InMemoryMissionStore.verifyEventCompleteness, incompleteIf, Except.bind_eq_ok,
    rejectIf_eq_ok, Except.exists_unit, Except.forM_eq_ok, mem_sortByKey, List.mem_dedup,
    hfoundation, hsequence, List.mem_map, forall_exists_index, and_imp, forall_apply_eq_imp_iff₂,
    not_lt, not_exists, not_and, not_not]
  constructor
  · rintro ⟨⟨hfoundation, hunbound⟩, hsequence, hmission, hrest⟩
    exact ⟨⟨hfoundation, hunbound, hsequence, hmission⟩, hrest⟩
  · rintro ⟨hlog, hrest⟩
    exact ⟨⟨hlog.foundation, hlog.unbound⟩, hlog.sequence, hlog.mission, hrest⟩

/-- The kinds that are verified for an attempt are its history. -/
theorem wordOf_eq_kindsOf (hlog : WellFormedLog store) {recorded : List (Nat × MissionEventKind)}
    (h : (store.events.drop foundational.length).mapM attemptKind = .ok recorded)
    (attemptId : Nat) : store.wordOf attemptId = kindsOf recorded attemptId := by
  have hfront : (store.events.take foundational.length).filter
      (fun event => event.attemptId = some attemptId) = [] := by
    rw [List.filter_eq_nil_iff]
    intro event hevent
    rw [hlog.unbound event hevent]
    simp
  rw [InMemoryMissionStore.wordOf, ← List.take_append_drop foundational.length store.events,
    List.filter_append, hfront, List.nil_append, kindsOf]
  rw [Except.mapM_eq_ok] at h
  generalize store.events.drop foundational.length = events at h ⊢
  induction h with
  | nil => rfl
  | @cons event entry events entries hentry _ ih =>
      obtain ⟨hid, -, hkind⟩ := attemptKind_eq_ok.mp hentry
      by_cases heq : entry.1 = attemptId
      · rw [List.filter_cons_of_pos (by simp [hid, heq]), List.filter_cons_of_pos (by simp [heq]),
          List.map_cons, List.map_cons, ih, hkind]
      · rw [List.filter_cons_of_neg (by simp [hid, heq]), List.filter_cons_of_neg (by simp [heq]),
          ih]

/-- Every history of an accepted store is empty or accepted on its own. -/
theorem validateAttempt_wordOf (h : store.verifyEventCompleteness = .ok ()) (attemptId : Nat) :
    store.wordOf attemptId = [] ∨ validateAttempt (store.wordOf attemptId) = .ok () := by
  obtain ⟨hlog, recorded, hrecorded, hwords, -⟩ := verifyEventCompleteness_eq_ok.mp h
  rw [wordOf_eq_kindsOf hlog hrecorded]
  rcases (kindsOf recorded attemptId).eq_nil_or_concat with hnil | ⟨kinds, kind, hcons⟩
  · exact .inl hnil
  · have hmem : kind ∈ kindsOf recorded attemptId := by
      rw [hcons]
      simp
    exact .inr (hwords (attemptId, kind) (mem_kindsOf.mp hmem))

/-- In whatever store `verify_event_completeness` accepts, the outcomes of executions come
    after a consumption and a start recorded in the same attempt, exactly when no attempt
    goes from an issued authorization straight to a failed execution. -/
theorem execution_outcomes_are_evidenced_iff (h : store.verifyEventCompleteness = .ok ()) :
    (∀ attemptId, OutcomesEvidenced (store.wordOf attemptId)) ↔
      ∀ attemptId code, store.wordOf attemptId ≠
        [.protocolAccepted, .planAccepted, .actionAuthorized, .authorizationIssued,
          .executionFailed code] := by
  refine forall_congr' fun attemptId => ?_
  rcases validateAttempt_wordOf h attemptId with hnil | hword
  · rw [hnil]
    refine iff_of_true ?_ (by simp)
    intro before outcome after heq
    simp at heq
  · exact outcomesEvidenced_iff hword

end

-- ============================================================================
-- A failure without a start
-- ============================================================================

/-- The log of a mission with one attempt. -/
def oneAttempt [Externals] (mission : MissionEnvelope) (now : DateTime)
    (word : List MissionEventKind) : InMemoryMissionStore :=
  word.foldl (fun store kind => store.appendForAttempt 1 kind now)
    (foundational.foldl (fun store kind => store.append kind now)
      (InMemoryMissionStore.new mission))

theorem wellFormedLog_of_zipIdx [Externals] {store : InMemoryMissionStore}
    (hfoundation : (store.events.take foundational.length).map MissionEvent.kind = foundational)
    (hunbound : ∀ event ∈ store.events.take foundational.length, event.attemptId = none)
    (hsequence : ∀ entry ∈ store.events.zipIdx, entry.1.sequence = entry.2 + 1)
    (hmission : ∀ event ∈ store.events, event.missionId = store.mission.missionId) :
    WellFormedLog store :=
  ⟨hfoundation, hunbound,
    fun i event h => hsequence (event, i) (List.mem_zipIdx_iff_getElem?.mpr h), hmission⟩

/-- An attempt that fails its execution without having consumed its authorization. -/
theorem unstarted_failure_is_accepted : letI := Reference.externals
    ∃ store : InMemoryMissionStore, store.verifyEventCompleteness = .ok () ∧
      ∃ attemptId, .executionFailed .executionFailed ∈ store.wordOf attemptId ∧
        .authorizationConsumed ∉ store.wordOf attemptId ∧
        .executionStarted ∉ store.wordOf attemptId := by
  let := Reference.externals
  refine ⟨oneAttempt Reference.mission Reference.start
    (issuedWord ++ [.executionFailed .executionFailed]), ?_, 1, by decide, by decide, by decide⟩
  refine verifyEventCompleteness_eq_ok.mpr ⟨?_, _, rfl, by decide, [], rfl, by simp⟩
  exact wellFormedLog_of_zipIdx (by decide) (by decide) (by decide) (by decide)

/-- An attempt that runs to its end. -/
theorem execution_outcomes_are_evidenced_iff_reference : letI := Reference.externals
    ∃ store : InMemoryMissionStore, store.verifyEventCompleteness = .ok () ∧
      .executionCompleted ∈ store.wordOf 1 ∧
      ((∀ attemptId, OutcomesEvidenced (store.wordOf attemptId)) ↔
        ∀ attemptId code, store.wordOf attemptId ≠
          [.protocolAccepted, .planAccepted, .actionAuthorized, .authorizationIssued,
            .executionFailed code]) := by
  let := Reference.externals
  let store := oneAttempt Reference.mission Reference.start (enteredWord ++ [.executionCompleted])
  have haccepted : store.verifyEventCompleteness = .ok () := by
    refine verifyEventCompleteness_eq_ok.mpr ⟨?_, _, rfl, by decide, [], rfl, by simp⟩
    exact wellFormedLog_of_zipIdx (by decide) (by decide) (by decide) (by decide)
  exact ⟨store, haccepted, by decide, execution_outcomes_are_evidenced_iff haccepted⟩

end GenesisRuntime
