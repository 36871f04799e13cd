/-
  GenesisRuntime.Runtime.Reports

  What a turn returns, against what the event log says about it.

  `Reports` relates the events of one attempt to the result of the turn it belongs
  to.  A second specification of `run_once` gives the word of the attempt on every
  exit; that the log has these events, and no others of the attempt, is what
  `kindsOf_recorded` says of runs.
-/

import GenesisRuntime.Runtime.Evidence
import GenesisRuntime.Runtime.Progress

namespace GenesisRuntime

open Prog (Spec outcomeOf)

-- ============================================================================
-- Events and results
-- ============================================================================

/-- The code an event carries. -/
def MissionEventKind.errorCode : MissionEventKind → Option ErrorCode
  | .modelFailed code | .protocolRejected code | .finalRejected code | .actionRejected code
  | .executionRejectedBeforeNexus code | .executionFailed code => some code
  | _ => none

/-- The events of an attempt say how its turn returned. -/
inductive Reports : List MissionEventKind → Result RunOutcome → Prop where
  | final (result : FinalResult) : Reports [.protocolAccepted, .finalProduced] (.ok (.final result))
  | completed {output : ToolOutput} (success : output.success = true) :
      Reports (enteredWord ++ [.executionCompleted]) (.ok (.executed output))
  | unsuccessful {output : ToolOutput} (success : output.success = false) :
      Reports (enteredWord ++ [.executionFailed .executionFailed]) (.ok (.executed output))
  | failed {w : List MissionEventKind} {kind : MissionEventKind} {e : RuntimeError}
      (next : Continues w kind) (code : kind.errorCode = some e.code) :
      Reports (w ++ [kind]) (.error e)

/-- Neither a final result nor a completed execution is among the events. -/
def Undone (w : List MissionEventKind) : Prop :=
  .finalProduced ∉ w ∧ .executionCompleted ∉ w

theorem undone_snoc {w : List MissionEventKind} {kind : MissionEventKind} {code : ErrorCode}
    (hw : Undone w) (hcode : kind.errorCode = some code) : Undone (w ++ [kind]) := by
  have hne {kind' : MissionEventKind} (h : kind'.errorCode = none) : kind' ≠ kind := by
    rintro rfl
    rw [h] at hcode
    cases hcode
  refine ⟨fun hmem => ?_, fun hmem => ?_⟩
  · rcases List.mem_append.mp hmem with hmem | hmem
    · exact hw.1 hmem
    · exact hne rfl (List.mem_singleton.mp hmem)
  · rcases List.mem_append.mp hmem with hmem | hmem
    · exact hw.2 hmem
    · exact hne rfl (List.mem_singleton.mp hmem)

theorem undone_issuedWord : Undone issuedWord := by
  simp [Undone, issuedWord]

theorem undone_enteredWord : Undone enteredWord := by
  simp [Undone, enteredWord, issuedWord]

/-- A turn that reports to have returned a final result has. -/
theorem Reports.finalProduced_iff {w : List MissionEventKind} {outcome : RunOutcome}
    (h : Reports w (.ok outcome)) : .finalProduced ∈ w ↔ ∃ result, outcome = .final result := by
  cases h <;> simp [enteredWord, issuedWord]

theorem Reports.executionCompleted_iff {w : List MissionEventKind} {outcome : RunOutcome}
    (h : Reports w (.ok outcome)) :
    .executionCompleted ∈ w ↔ ∃ output, outcome = .executed output ∧ output.success = true := by
  cases h with
  | final => simp
  | completed success => simpa [enteredWord, issuedWord] using success
  | unsuccessful success => simpa [enteredWord, issuedWord] using success

section
variable [Externals]

-- ============================================================================
-- The word of a turn on return
-- ============================================================================

/-- What the events of a turn say when it returns: everything where it succeeds, and where it
    fails, as long as its appends have succeeded; but never that it has done what it has not. -/
def Reported (h : History) : Result RunOutcome → Prop
  | .ok outcome => Reports (wordOf h) (.ok outcome)
  | .error e => Undone (wordOf h) ∧
      (AllAppended h → attemptOf h = none ∧ wordOf h = [] ∨ Reports (wordOf h) (.error e))

/-- Nothing is asked before an operation. -/
def Anytime (_ : History) (_ : Op) : Prop := True

section
variable {h : History} {attemptId : Nat}

/-- An error before the attempt has begun. -/
theorem Reported.of_unbegun {e : RuntimeError} (hattempt : attemptOf h = none)
    (hword : wordOf h = []) : Reported h (.error e) := by
  refine ⟨?_, fun _ => .inl ⟨hattempt, hword⟩⟩
  rw [hword]
  exact ⟨List.not_mem_nil, List.not_mem_nil⟩

/-- An error that is due to a failed append. -/
theorem Reported.of_failed {o : Op} {r : o.Resp} (hfails : appendFails ⟨o, r⟩ = true)
    (hkind : recordedKind ⟨o, r⟩ = none) (hundone : Undone (wordOf h)) (e : RuntimeError) :
    Reported (h ++ [⟨o, r⟩]) (.error e) := by
  refine ⟨?_, fun hall => by simp [hfails] at hall⟩
  rw [wordOf_append, wordOf_cons, hkind]
  simpa using hundone

/-- The terminal event of a turn that fails carries the code of the error. -/
theorem failWith_reports {kind : ErrorCode → MissionEventKind} {error : RuntimeError}
    (hundone : Undone (wordOf h)) (hcode : (kind error.code).errorCode = some error.code)
    (next : AllAppended h → Continues (wordOf h) (kind error.code)) :
    Spec Anytime Reported h
      (R1Runtime.failWith attemptId kind error : RuntimeM RunOutcome).run := by
  refine Spec.callE trivial (fun r _ hr => ?_) fun r e hr => ?_
  · obtain rfl : r = .ok () := hr
    have hword : wordOf (h ++ [⟨.appendForAttempt attemptId (kind error.code), .ok ()⟩])
        = wordOf h ++ [kind error.code] := by simp [wordOf_cons, recordedKind]
    refine Spec.throwE ⟨?_, fun hall => .inr ?_⟩
    · rw [hword]
      exact undone_snoc hundone hcode
    · rw [hword]
      exact .failed (next (allAppended_append.mp hall).1) hcode
  · obtain rfl : r = .error e := hr
    exact .of_failed rfl rfl hundone e

end

variable {rt : R1Runtime}

/-- `accept_model_final` records a final result where it succeeds, and nothing where it fails. -/
theorem acceptModelFinal_word {h : History} {attemptId : Nat}
    (observation : ModelAuthorityObservation) (now : DateTime) :
    Spec Anytime (fun h' r => wordOf h' = wordOf h ++ match r with
      | .ok () => [.finalProduced]
      | .error _ => []) h (rt.acceptModelFinal observation attemptId now).run := by
  have hidle {h' : History} (ev : Event) {w : List MissionEventKind} (hev : idle ev = true)
      (hw : wordOf h' = w) : wordOf (h' ++ [ev]) = w := by
    rw [wordOf_append, wordOf_cons, recordedKind_of_idle hev, hw]
    exact List.append_nil w
  have hs₀ : wordOf h = wordOf h ++ [] := (List.append_nil _).symm
  unfold R1Runtime.acceptModelFinal AuthorityKernel.commitActiveChain
  refine Spec.rejectIfE (fun _ => ?_) fun e => hs₀
  refine Spec.opE trivial fun r => ?_
  have hs₁ := hidle ⟨.lockActiveChain observation.lease.certificate.leaseId
    (some observation.lease.record.generation) observation.lease.manifest now, r⟩ rfl hs₀
  refine Spec.ofResultE (fun validated _ => ?_) fun e _ => hs₁
  -- releasing a guard records nothing, whatever the closure under it returns
  refine Spec.outcomeE (Spec.mono (Q := fun h' r => wordOf h' = wordOf h ++ match r with
    | .ok () => [.finalProduced]
    | .error _ => []) ?_ (fun _ _ h => h) fun h' r hreturn =>
      Spec.opE trivial fun _ => Spec.ofResult_lastE (hidle _ rfl hreturn))
  unfold R1Runtime.commitFinal
  refine Spec.ofResultE (fun _ _ => ?_) fun e _ => hs₁
  refine Spec.opE trivial fun context => ?_
  have hs₂ := hidle ⟨.lockContext, context⟩ rfl hs₁
  refine Spec.outcomeE (Spec.mono (Q := fun h' r => wordOf h' = wordOf h ++ match r with
    | .ok () => [.finalProduced]
    | .error _ => []) ?_ (fun _ _ h => h) fun h' r hreturn =>
      Spec.opE trivial fun _ => Spec.ofResult_lastE (hidle _ rfl hreturn))
  refine Spec.ofResultE (fun _ _ => ?_) fun e _ => hs₂
  unfold appendForAttempt
  refine Spec.opE trivial fun r => Spec.ofResult_lastE ?_
  rw [wordOf_append, wordOf_cons, hs₂]
  rcases r with e | ⟨⟩
  · simp [recordedKind]
  · simp [recordedKind]

namespace ToolCall

variable (call : ToolCall rt) {h : History}

theorem executable_anytime : Executable Anytime rt.keyCustody call.authorization.execution
    call.attemptId call.inserted where
  idle := fun _ _ _ => trivial
  consume := fun _ => trivial
  recorded := fun _ _ => trivial
  started := fun _ _ => trivial
  execute := fun _ _ => trivial

theorem wordOf_consumed (commit : Commit rt.keyCustody call.authorization.execution)
    (tokens : List CapabilityToken) : wordOf (call.inserted ++ commit.consumed tokens)
      = issuedWord := by
  simp [wordOf_inserted, Commit.consumed, Commit.events, Commit.lock, Commit.consume,
    wordOf_cons, recordedKind]

/-- A call that was rejected has not been completed. -/
theorem undone_rejected
    (hrejected : Rejected rt.keyCustody call.authorization.execution call.attemptId
      call.inserted h) : Undone (wordOf h) := by
  cases hrejected with
  | unconsumed since =>
      rw [since.wordOf_eq, call.wordOf_inserted]
      exact undone_issuedWord
  | unrecorded commit tokens e =>
      rw [wordOf_append, call.wordOf_consumed]
      simp [Undone, issuedWord, wordOf_cons, recordedKind]
  | unstarted commit tokens e =>
      rw [wordOf_append, call.wordOf_consumed]
      simp [Undone, issuedWord, wordOf_cons, recordedKind]

/-- The turn ends with the event that says how the execution went. -/
theorem completed_reports (commit : Commit rt.keyCustody call.authorization.execution)
    (tokens : List CapabilityToken) (output : ToolOutput) {kind : MissionEventKind}
    (hreports : Reports (enteredWord ++ [kind]) (.ok (.executed output))) :
    Spec Anytime Reported (call.inserted ++ commit.entered call.attemptId tokens
        ++ [⟨commit.execute tokens, some output⟩])
      (do
        appendForAttempt call.attemptId kind
        return RunOutcome.executed output : RuntimeM RunOutcome).run := by
  refine Spec.callE trivial (fun r _ hr => ?_) fun r e hr => ?_
  · obtain rfl : r = .ok () := hr
    refine Spec.pureE ?_
    rw [Reported, wordOf_append, call.wordOf_entered]
    exact hreports
  · obtain rfl : r = .error e := hr
    refine .of_failed rfl rfl ?_ e
    rw [call.wordOf_entered]
    exact undone_enteredWord

theorem executeAuthorized_reports :
    Spec Anytime Reported call.reserved
      (rt.executeAuthorized call.attemptId call.authorization.execution
        ⟨call.authorization.certificate, call.authorization.record⟩).run := by
  unfold R1Runtime.executeAuthorized
  refine Spec.callE trivial (fun r _ hr => ?_) fun r e hr => ?_
  swap
  · obtain rfl : r = .error e := hr
    exact .of_failed rfl rfl (by rw [call.wordOf_reserved]; simp [Undone]) e
  obtain rfl : r = .ok () := hr
  refine Spec.callE trivial (fun r _ hr => ?_) fun r e hr => ?_
  swap
  · obtain rfl : r = .error e := hr
    exact .of_failed rfl rfl
      (by simp [Undone, call.wordOf_reserved, wordOf_cons, recordedKind]) e
  obtain rfl : r = .ok () := hr
  rw [List.append_assoc]
  refine Spec.opE trivial fun r => ?_
  rcases r with error | ⟨⟩
  · have hword : wordOf (call.reserved ++ ([⟨.appendForAttempt call.attemptId .actionAuthorized,
          .ok ()⟩] ++ [⟨.appendForAttempt call.attemptId .authorizationIssued, .ok ()⟩])
        ++ [⟨.insertAuthorization call.attemptId call.authorization.record, .error error⟩])
        = issuedWord := by
      simp [call.wordOf_reserved, wordOf_cons, recordedKind, issuedWord]
    refine failWith_reports ?_ rfl fun _ => ?_
    · rw [hword]
      exact undone_issuedWord
    · rw [hword]
      exact .rejected error.code
  · refine Spec.opE trivial fun _ => ?_
    rw [List.append_assoc (_ ++ _)]
    refine Spec.outcomeE ((execute_spec call.executable_anytime).mono (fun _ _ h => h) ?_)
    rintro h (⟨e, position⟩ | output) hreturn
    · cases position with
      | beforeNexus =>
          refine failWith_reports (call.undone_rejected hreturn) rfl fun hall => ?_
          rw [call.wordOf_rejected hreturn hall]
          exact .rejected e.code
      | started =>
          obtain ⟨commit, tokens, rfl⟩ := hreturn
          refine failWith_reports ?_ rfl fun _ => ?_
          · rw [call.wordOf_entered]
            exact undone_enteredWord
          · rw [call.wordOf_entered]
            exact .failed e.code
    · obtain ⟨commit, tokens, rfl⟩ := hreturn
      by_cases hsuccess : output.success = true
      · simp only [hsuccess, if_true]
        exact call.completed_reports commit tokens output (.completed hsuccess)
      · simp only [hsuccess]
        exact call.completed_reports commit tokens output
          (.unsuccessful (Bool.eq_false_of_not_eq_true hsuccess))

end ToolCall

namespace Turn

variable (turn : Turn rt) (response : ModelResponse)

theorem runFinal_reports (result : FinalResult) :
    Spec Anytime Reported (turn.accepted response)
      (rt.runFinal turn.observation.value turn.attemptId result).run := by
  unfold R1Runtime.runFinal
  refine Spec.opE trivial fun now => ?_
  have hword : wordOf (turn.accepted response ++ [⟨.utcNow, now⟩]) = [.protocolAccepted] := by
    simp [wordOf_accepted, wordOf_cons, recordedKind]
  refine Spec.outcomeE (Spec.mono (acceptModelFinal_word _ _) (fun _ _ h => h) ?_)
  rintro h (e | ⟨⟩) hreturn
  · rw [hword] at hreturn
    refine failWith_reports ?_ rfl fun _ => ?_
    · rw [hreturn]
      simp [Undone]
    · rw [hreturn]
      exact .finalRejected e.code
  · rw [hword] at hreturn
    refine Spec.pureE ?_
    rw [Reported, hreturn]
    exact .final result

theorem runToolCall_reports {proposal : ToolCallProposal}
    (hparsed : rt.protocolGate.parse response.rawOutput = .ok (.toolCall proposal)) :
    Spec Anytime Reported (turn.accepted response)
      (rt.runToolCall turn.observation.context turn.attemptId proposal).run := by
  unfold R1Runtime.runToolCall
  refine Spec.callE trivial (fun r _ hr => ?_) fun r e hr => ?_
  swap
  · obtain rfl : r = .error e := hr
    exact .of_failed rfl rfl (by simp [Undone, wordOf_accepted]) e
  obtain rfl : r = .ok () := hr
  refine Spec.opE trivial fun leaseId => Spec.opE trivial fun now => ?_
  -- a gate or a budget that rejects leaves the word of the plan
  have hrejected {h : History} {e : RuntimeError}
      (hword : wordOf h = [.protocolAccepted, .planAccepted]) :
      Spec Anytime Reported h
        (R1Runtime.failWith turn.attemptId .actionRejected e : RuntimeM RunOutcome).run := by
    refine failWith_reports ?_ rfl fun _ => ?_
    · rw [hword]
      simp [Undone]
    · rw [hword]
      exact .actionRejected e.code
  refine Spec.outcomeE (Spec.mono (authorize_spec (fun _ _ _ => trivial) _ _)
    (fun _ _ h => h) ?_)
  rintro h (e | ⟨authorized, artifact⟩) hreturn
  · obtain ⟨q, rfl, hq⟩ := Since.imp hreturn fun _ => idle_of_quiet
    refine hrejected ?_
    simp [wordOf_of_idle hq, wordOf_accepted, wordOf_cons, recordedKind]
  · obtain ⟨authorization, rfl, rfl, rfl⟩ := hreturn
    let call : ToolCall rt := ⟨turn, response, proposal, leaseId, now, authorization, hparsed⟩
    have hauthorized : turn.accepted response
        ++ [⟨.appendForAttempt turn.attemptId .planAccepted, .ok ()⟩]
        ++ [⟨.rootLeaseId, leaseId⟩] ++ [⟨.utcNow, now⟩] ++ authorization.events
        = call.authorized := by
      simp [call, ToolCall.authorized, ToolCall.planned, ToolCall.attemptId, accepted]
    rw [hauthorized]
    refine Spec.outcomeE (reserveBudget_spec trivial call.executeAuthorized_reports fun e => ?_)
    refine hrejected ?_
    simp [call.wordOf_authorized, wordOf_cons, recordedKind]

theorem modelFailed_reports (error : RuntimeError) :
    Spec Anytime Reported (turn.events ++ [⟨.generate turn.request, .error error⟩])
      (R1Runtime.failWith turn.attemptId .modelFailed error : RuntimeM RunOutcome).run := by
  have hword : wordOf (turn.events ++ [⟨.generate turn.request, .error error⟩]) = [] := by
    simp [wordOf_cons, recordedKind]
  refine failWith_reports ?_ rfl fun _ => ?_
  · simp [Undone, hword]
  · rw [hword]
    exact .modelFailed error.code

theorem handleResponse_reports :
    Spec Anytime Reported (turn.events ++ [⟨.generate turn.request, .ok response⟩])
      (rt.handleResponse turn.observation.context turn.observation.value turn.attemptId
        response).run := by
  have hword : wordOf (turn.events ++ [⟨.generate turn.request, .ok response⟩]) = [] := by
    simp [wordOf_cons, recordedKind]
  unfold R1Runtime.handleResponse
  cases hparsed : rt.protocolGate.parse response.rawOutput with
  | error error =>
      refine failWith_reports ?_ rfl fun _ => ?_
      · simp [Undone, hword]
      · rw [hword]
        exact .protocolRejected error.code
  | ok message =>
      refine Spec.callE trivial (fun r _ hr => ?_) fun r e hr => ?_
      · obtain rfl : r = .ok () := hr
        rw [List.append_assoc]
        cases message with
        | final result => exact turn.runFinal_reports response result
        | toolCall proposal => exact turn.runToolCall_reports response hparsed
      · obtain rfl : r = .error e := hr
        exact .of_failed rfl rfl (by simp [Undone, hword]) e

end Turn

/-- What the events of a turn say on every exit of `run_once`. -/
theorem runOnce_reports : Spec Anytime Reported [] rt.runOnce.run := by
  unfold R1Runtime.runOnce
  refine Spec.opE trivial fun context => Spec.opE trivial fun now => ?_
  refine Spec.bindE ((observe_spec (fun _ _ _ => trivial) context now).mono (fun _ _ h => h) ?_)
  rintro h (e | value) hreturn
  · obtain ⟨q, rfl, hq⟩ := hreturn
    refine .of_unbegun ?_ (wordOf_of_idle fun ev hev => idle_of_quiet (hq ev hev))
    refine List.findSome?_eq_none_iff.mpr fun ev hev => ?_
    obtain ⟨o, r⟩ := ev
    have hquiet := hq _ hev
    cases o <;> first | rfl | cases hquiet
  obtain ⟨observation, rfl, rfl, rfl⟩ := hreturn
  refine Spec.bindE (reserveBudget_spec trivial ?_ fun e => .of_unbegun rfl ?_)
  swap
  · simp [Observation.events, wordOf_cons, recordedKind]
  refine Spec.ofResultE (fun instruction _ => ?_) fun e _ => .of_unbegun rfl ?_
  swap
  · simp [Observation.events, wordOf_cons, recordedKind]
  refine Spec.opE trivial fun attemptId => ?_
  let turn : Turn rt := ⟨observation, instruction, attemptId⟩
  rw [List.append_assoc]
  refine Spec.opE trivial fun r => ?_
  cases r with
  | error error => exact turn.modelFailed_reports error
  | ok response => exact turn.handleResponse_reports response

-- ============================================================================
-- The log along a run
-- ============================================================================

/-- The kinds of the events the log has of an attempt, in order. -/
def InMemoryMissionStore.attemptKinds (store : InMemoryMissionStore) (attemptId : Nat) :
    List MissionEventKind :=
  (store.events.filter fun event => event.attemptId = some attemptId).map MissionEvent.kind

section
variable {init : World} {admits : World → Op → Input → Prop} {c : SystemState}

/-- The events of an attempt in the log are the word of its turn. -/
theorem attemptKinds_eq (run : PublicRun rt init admits c) (boot : Bootstrapped rt init)
    {t attemptId : Nat} (hattempt : attemptOf (historyOf c.trace t) = some attemptId) :
    c.world.store.attemptKinds attemptId = wordOf (historyOf c.trace t) := by
  have hlog := (storeHolds run boot le_rfl).log
  have hkinds := kindsOf_recorded run boot le_rfl (t := t) (by rwa [List.take_length])
  rw [Run.worldAt_length, List.take_length] at hlog
  rw [List.take_length] at hkinds
  exact (hlog.kindsOf_eq attemptId).trans hkinds

/-- A turn that has returned has reported. -/
theorem reported_of_returned (run : PublicRun rt init admits c) {t : Nat}
    {thread : Thread Op Call Outcome Op.Resp} {result : Result RunOutcome}
    (hthread : c.threads[t]? = some thread) (hprog : thread.prog = .ret (.ran result)) :
    thread.call = .runOnce ∧ Reported (historyOf c.trace t) result := by
  have hcall : thread.call = .runOnce := by
    have hafter := after_of_returned run hthread hprog
    cases hcall : thread.call with
    | runOnce => rfl
    | _ =>
        rw [hcall] at hafter
        obtain ⟨result', heq, -⟩ := hafter
        cases heq
  refine ⟨hcall, ?_⟩
  have hrest := run.spec_rest (P := fun _ => Anytime) (Q := fun call h outcome =>
    call = .runOnce → ∀ result, outcome = .ran result → Reported h result) (fun call => ?_) hthread
  · rw [hprog] at hrest
    exact hrest hcall result rfl
  · cases call with
    | runOnce =>
        refine Spec.map (runOnce_reports.mono (fun _ _ h => h) fun h r hr _ result heq => ?_)
        cases heq
        exact hr
    | _ => exact (Spec.trivial _ _).mono (fun _ _ h => h) fun _ _ _ heq => by cases heq

/-- The model is only called in an attempt. -/
theorem attemptOf_of_generate (run : PublicRun rt init admits c) {t : Nat} {request : ModelRequest}
    {response : Result ModelResponse}
    (hmem : (⟨.generate request, response⟩ : Event) ∈ historyOf c.trace t) :
    ∃ attemptId, attemptOf (historyOf c.trace t) = some attemptId := by
  obtain ⟨k, e, hk, he, rfl, hev⟩ := exists_of_mem_historyOf hmem
  obtain ⟨t, o, input, r, pre, post⟩ := e
  cases hev
  obtain ⟨-, turn, hhist, -⟩ := PublicRun.before run he rfl rfl
  have hattempt : attemptOf (historyOf (c.trace.take k) t) = some turn.attemptId := by
    rw [hhist]
    exact turn.attemptOf_events
  refine ⟨turn.attemptId, ?_⟩
  simpa using attemptOf_later hattempt hk.le

/-- What a turn reports in its attempt. -/
theorem Reported.of_attempt {h : History} {result : Result RunOutcome} {attemptId : Nat}
    (hreported : Reported h result) (hattempt : attemptOf h = some attemptId) :
    ((∃ outcome, result = .ok outcome) ∨ AllAppended h → Reports (wordOf h) result) ∧
      (.finalProduced ∈ wordOf h ↔ ∃ final, result = .ok (.final final)) ∧
      (.executionCompleted ∈ wordOf h ↔
        ∃ output, result = .ok (.executed output) ∧ output.success = true) := by
  cases result with
  | ok outcome =>
      have hreports : Reports (wordOf h) (.ok outcome) := hreported
      refine ⟨fun _ => hreports, ?_, ?_⟩
      · rw [hreports.finalProduced_iff]
        simp
      · rw [hreports.executionCompleted_iff]
        simp
  | error e =>
      obtain ⟨⟨hfinal, hcompleted⟩, hreports⟩ := hreported
      refine ⟨fun hor => ?_, by simp [hfinal], by simp [hcompleted]⟩
      have hall := hor.resolve_left (by simp)
      refine (hreports hall).resolve_left fun hnone => ?_
      rw [hnone.1] at hattempt
      cases hattempt

/-- Whatever turns and control-plane calls do, and whichever appends fail, every turn that
    has returned is reported by the log. It has begun no attempt, and failed without calling
    the model; or the events of its attempt, which no other turn shares, say how it returned:
    all of them where it succeeded or its appends did, and in any case that a final result was
    produced or an execution completed exactly when this is what it returned. Nothing else is
    in the log but the events of the bootstrap. -/
theorem turns_are_reported (boot : Bootstrapped rt init) (run : PublicRun rt init admits c) :
    (∀ (t : Nat) (thread : Thread Op Call Outcome Op.Resp) (result : Result RunOutcome),
      c.threads[t]? = some thread → thread.prog = .ret (.ran result) →
      (attemptOf (historyOf c.trace t) = none ∧ (∃ e, result = .error e) ∧
        ∀ request response, (⟨.generate request, response⟩ : Event) ∉ historyOf c.trace t) ∨
      ∃ attemptId, attemptOf (historyOf c.trace t) = some attemptId ∧
        (∀ t', attemptOf (historyOf c.trace t') = some attemptId → t' = t) ∧
        ((∃ outcome, result = .ok outcome) ∨ AllAppended (historyOf c.trace t) →
          Reports (c.world.store.attemptKinds attemptId) result) ∧
        (.finalProduced ∈ c.world.store.attemptKinds attemptId ↔
          ∃ final, result = .ok (.final final)) ∧
        (.executionCompleted ∈ c.world.store.attemptKinds attemptId ↔
          ∃ output, result = .ok (.executed output) ∧ output.success = true)) ∧
    ∀ event ∈ c.world.store.events,
      (event.attemptId = none ∧ event.kind ∈ foundational) ∨
      ∃ attemptId t, event.attemptId = some attemptId ∧
        attemptOf (historyOf c.trace t) = some attemptId := by
  refine ⟨fun t thread result hthread hprog => ?_, fun event hevent => ?_⟩
  · obtain ⟨hcall, hreported⟩ := reported_of_returned run hthread hprog
    cases hattempt : attemptOf (historyOf c.trace t) with
    | none =>
        have hmodel (request : ModelRequest) (response : Result ModelResponse) :
            (⟨.generate request, response⟩ : Event) ∉ historyOf c.trace t := fun hmem => by
          obtain ⟨attemptId, hsome⟩ := attemptOf_of_generate run hmem
          rw [hattempt] at hsome
          cases hsome
        refine .inl ⟨rfl, ?_, hmodel⟩
        cases result with
        | error e => exact ⟨e, rfl⟩
        | ok outcome =>
            have hafter := after_of_returned run hthread hprog
            rw [hcall] at hafter
            obtain ⟨result, heq, hafter⟩ := hafter
            cases heq
            obtain ⟨request, response, hmem⟩ := hafter.generated outcome rfl
            exact absurd hmem (hmodel request response)
    | some attemptId =>
        refine .inr ⟨attemptId, rfl, fun t' ht' => ?_, ?_⟩
        · exact attempt_unique run boot le_rfl (by rwa [List.take_length])
            (by rwa [List.take_length])
        · rw [attemptKinds_eq run boot hattempt]
          exact hreported.of_attempt hattempt
  · have hlog := (storeHolds run boot le_rfl).log
    rw [Run.worldAt_length] at hlog
    have hmem : (event.attemptId, event.kind) ∈ c.world.store.events.map
        fun event => (event.attemptId, event.kind) := List.mem_map_of_mem hevent
    rw [hlog.kinds] at hmem
    rcases List.mem_append.mp hmem with hmem | hmem
    · obtain ⟨kind, hkind, heq⟩ := List.mem_map.mp hmem
      obtain ⟨hnone, rfl⟩ := Prod.mk.inj heq
      exact .inl ⟨hnone.symm, hkind⟩
    · obtain ⟨⟨attemptId, kind⟩, hrecorded, heq⟩ := List.mem_map.mp hmem
      obtain ⟨hid, -⟩ := Prod.mk.inj heq
      obtain ⟨t, ht⟩ := turn_of_recorded run hrecorded
      rw [List.take_length] at ht
      exact .inr ⟨attemptId, t, hid.symm, ht⟩

omit [Externals] in
/-- Turns of the reference runtime that are reported: one that has called its tool, and one whose
    lease was revoked before it could. -/
theorem turns_are_reported_reference : letI := Reference.externals
    ∃ (rt : R1Runtime) (init : World), Bootstrapped rt init ∧
      (∃ (c : SystemState) (attemptId : Nat), PublicRun rt init Reference.Undisturbed c ∧
        c.threads = [⟨.runOnce, 0, .ret (.ran (.ok (.executed ⟨true⟩)))⟩] ∧
        attemptOf (historyOf c.trace 0) = some attemptId ∧
        Reports (c.world.store.attemptKinds attemptId) (.ok (.executed ⟨true⟩))) ∧
      ∃ (c : SystemState) (attemptId b : Nat) (error : RuntimeError),
        PublicRun rt init Reference.Undisturbed c ∧
        c.threads[0]? = some ⟨.runOnce, b, .ret (.ran (.error error))⟩ ∧
        attemptOf (historyOf c.trace 0) = some attemptId ∧
        Reports (c.world.store.attemptKinds attemptId) (.error error) := by
  let := Reference.externals
  obtain ⟨rt, w, tool, ⟨act⟩⟩ := Reference.exists_activated
  let isPublic : SystemState → Call → Prop := fun _ call => call.isPublic = true
  refine ⟨rt, w, act.bootstrapped, ?_, ?_⟩
  · obtain ⟨c, run, hthreads, -⟩ := act.exists_executed isPublic act.allows_undisturbed rfl
    rcases (turns_are_reported act.bootstrapped run).1 0 _ _ (congrArg (·[0]?) hthreads) rfl
      with ⟨-, ⟨e, he⟩, -⟩ | ⟨attemptId, hattempt, -, hreports, -⟩
    · cases he
    · exact ⟨c, attemptId, run, hthreads, hattempt, hreports (.inl ⟨_, rfl⟩)⟩
  · obtain ⟨c, error, _, _, _, _, attemptId, run, hthreads, -, -, hrejected⟩ :=
      act.exists_rejected isPublic act.allows_undisturbed (fun _ => rfl) fun _ => rfl
    have hthread : c.threads[0]? = some ⟨.runOnce, 0, .ret (.ran (.error error))⟩ :=
      congrArg (·[0]?) hthreads
    -- the rejection is an event of an attempt
    obtain ⟨k, e, hk, he, htid, hev⟩ := exists_of_mem_historyOf hrejected
    have hbegun := attemptOf_later (recorded_attempt run he (by rw [hev]; rfl)) hk.le
    rw [htid, List.take_length] at hbegun
    have hall := allAppended run (fun _ _ _ h => h.2) c.trace.length 0
    rw [List.take_length] at hall
    rcases (turns_are_reported act.bootstrapped run).1 0 _ _ hthread rfl
      with ⟨hnone, -⟩ | ⟨attemptId', hattempt, -, hreports, -⟩
    · rw [hbegun] at hnone
      cases hnone
    · exact ⟨c, attemptId', 0, error, run, hthread, hattempt, hreports (.inr hall)⟩

end

end

end GenesisRuntime
