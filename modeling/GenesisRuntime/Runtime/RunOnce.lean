/-
  GenesisRuntime.Runtime.RunOnce

  The specification of every call: what holds of its history before each of its
  operations, and when it returns.
-/

import GenesisRuntime.Runtime.Turn

namespace GenesisRuntime

open Prog (Spec outcomeOf)

section
variable [Externals]

-- ============================================================================
-- Before and after
-- ============================================================================

/-- What holds before an append of `run_once`. -/
structure AppendBefore (rt : R1Runtime) (h : History) (attemptId : Nat)
    (kind : MissionEventKind) : Prop where
  attempt : attemptOf h = some attemptId
  continues : AllAppended h → Continues (wordOf h) kind
  /-- A final result is recorded under both guards. -/
  final : kind = .finalProduced → ∃ h₀ leaseId generation manifest now validated context,
    h = h₀ ++ [⟨.lockActiveChain leaseId generation manifest now, .ok validated⟩,
      ⟨.lockContext, context⟩]
  /-- A consumption is recorded right after it. -/
  consumed : kind = .authorizationConsumed → ∃ (call : ToolCall rt)
    (commit : Commit rt.keyCustody call.authorization.execution) (tokens : List CapabilityToken),
    h = call.inserted ++ commit.consumed tokens
  /-- Where no append has failed, only an execution that consumed nothing is rejected. -/
  rejected : ∀ code, kind = .executionRejectedBeforeNexus code → AllAppended h → Unconsumed h

/-- What holds before each operation of `run_once`. -/
def RunOnceBefore (rt : R1Runtime) (h : History) : Op → Prop
  | .reserve counter limit => limit = rt.limit counter
  | .beginAttempt => ∃ observation : Observation rt,
      h = observation.events ++ [⟨.reserve .steps (rt.limit .steps), true⟩]
  | .generate request => ∃ turn : Turn rt, h = turn.events ∧ request = turn.request
  | .appendForAttempt attemptId kind => AppendBefore rt h attemptId kind
  | .insertAuthorization attemptId record => ∃ call : ToolCall rt,
      h = call.issued ∧ attemptId = call.attemptId ∧ record = call.authorization.record
  | .pushCertificate _ => True
  | .consume recordId generation capabilities validity => ∃ (call : ToolCall rt)
      (commit : Commit rt.keyCustody call.authorization.execution),
      h = call.inserted ++ commit.events ∧
        .consume recordId generation capabilities validity = commit.consume
  | .executeTool definition arguments tokens => ∃ (call : ToolCall rt)
      (commit : Commit rt.keyCustody call.authorization.execution),
      h = call.inserted ++ commit.entered call.attemptId tokens ∧
        .executeTool definition arguments tokens = commit.execute tokens
  | o => ∀ r, idle ⟨o, r⟩ = true

/-- What holds when `run_once` returns. -/
structure RunOnceAfter (h : History) (result : Result RunOutcome) : Prop where
  finished : AllAppended h → Finished (wordOf h)
  generated : ∀ outcome, result = .ok outcome → ∃ request response,
    (⟨.generate request, response⟩ : Event) ∈ h
  executed : ∀ output, result = .ok (.executed output) → ∃ definition arguments tokens,
    (⟨.executeTool definition arguments tokens, some output⟩ : Event) ∈ h

variable {rt : R1Runtime}

theorem RunOnceBefore.of_idle {h : History} {o : Op} (ho : ∀ r, idle ⟨o, r⟩ = true) :
    RunOnceBefore rt h o := by
  cases o with
  | reserve => exact absurd (ho true) (by simp [idle, Op.isQuiet])
  | beginAttempt => exact absurd (ho 0) (by simp [idle, Op.isQuiet])
  | generate => exact absurd (ho (.ok ⟨""⟩)) (by simp [idle, Op.isQuiet])
  | appendForAttempt => exact absurd (ho (.ok ())) (by simp [idle, Op.isQuiet])
  | insertAuthorization => exact absurd (ho (.ok ())) (by simp [idle, Op.isQuiet])
  | consume => exact absurd (ho (.ok [])) (by simp [idle, Op.isQuiet])
  | executeTool => exact absurd (ho none) (by simp [idle, Op.isQuiet])
  | pushCertificate => exact absurd (ho ()) (by simp [idle, Op.isQuiet])
  | _ => exact ho

theorem RunOnceBefore.of_quiet {h : History} {o : Op} (ho : o.isQuiet = true) :
    RunOnceBefore rt h o :=
  .of_idle fun _ => idle_of_quiet ho

-- ============================================================================
-- Terminal events
-- ============================================================================

section
variable {h : History} {attemptId : Nat}

/-- An append that does not end the attempt. -/
theorem AppendBefore.of_word {kind : MissionEventKind} (hattempt : attemptOf h = some attemptId)
    {w : List MissionEventKind} (hword : AllAppended h → wordOf h = w) (next : Continues w kind)
    (hfinal : kind ≠ .finalProduced) (hconsumed : kind ≠ .authorizationConsumed)
    (hrejected : ∀ code, kind ≠ .executionRejectedBeforeNexus code) :
    AppendBefore rt h attemptId kind where
  attempt := hattempt
  continues := fun hall => by
    rw [hword hall]
    exact next
  final := fun heq => absurd heq hfinal
  consumed := fun heq => absurd heq hconsumed
  rejected := fun code heq => absurd heq (hrejected code)

/-- An append that says that the execution was rejected. -/
theorem AppendBefore.of_unconsumed (code : ErrorCode) (hattempt : attemptOf h = some attemptId)
    (hword : AllAppended h → wordOf h = issuedWord) (hnone : AllAppended h → Unconsumed h) :
    AppendBefore rt h attemptId (.executionRejectedBeforeNexus code) where
  attempt := hattempt
  continues := fun hall => by
    rw [hword hall]
    exact .rejected code
  final := fun heq => by cases heq
  consumed := fun heq => by cases heq
  rejected := fun _ _ => hnone

theorem RunOnceAfter.of_error {e : RuntimeError} (hfinished : AllAppended h → Finished (wordOf h)) :
    RunOnceAfter h (.error e) where
  finished := hfinished
  generated := fun _ heq => by cases heq
  executed := fun _ heq => by cases heq

/-- Nothing is promised once an append has failed. -/
theorem RunOnceAfter.of_failed {o : Op} {r : o.Resp} (hfails : appendFails ⟨o, r⟩ = true)
    (e : RuntimeError) : RunOnceAfter (h ++ [⟨o, r⟩]) (.error e) :=
  .of_error fun hall => by simp [hfails] at hall

theorem failWith_spec {P : History → Op → Prop} {kind : ErrorCode → MissionEventKind}
    {error : RuntimeError} (hP : P h (.appendForAttempt attemptId (kind error.code)))
    (hterminal : (kind error.code).isTerminal = true) :
    Spec P RunOnceAfter h (R1Runtime.failWith attemptId kind error : RuntimeM RunOutcome).run := by
  refine Spec.callE hP (fun r _ hr => ?_) fun r e hr => ?_
  · obtain rfl : r = .ok () := hr
    refine Spec.throwE (.of_error fun _ => ?_)
    rw [wordOf_append, wordOf_cons]
    exact finished_snoc.mpr hterminal
  · obtain rfl : r = .error e := hr
    exact .of_failed rfl e

end

-- ============================================================================
-- A tool call
-- ============================================================================

namespace ToolCall

variable (call : ToolCall rt) {h : History}

/-- From the insertion on, `execute` goes ahead as the specification says. -/
theorem executable : Executable (RunOnceBefore rt) rt.keyCustody call.authorization.execution
    call.attemptId call.inserted where
  idle := fun _ _ ho => .of_idle ho
  consume := fun commit => ⟨call, commit, rfl, rfl⟩
  recorded := fun commit tokens =>
    { attempt := attemptOf_append call.attemptOf_inserted
      continues := fun _ => by
        have hword : wordOf (call.inserted ++ commit.consumed tokens) = issuedWord := by
          simp [wordOf_inserted, Commit.consumed, Commit.events, Commit.lock, Commit.consume,
            wordOf_cons, recordedKind]
        rw [hword]
        exact .authorizationConsumed
      final := fun heq => by cases heq
      consumed := fun _ => ⟨call, commit, tokens, rfl⟩
      rejected := fun _ heq => by cases heq }
  started := fun commit tokens => by
    refine .of_word (attemptOf_append (attemptOf_append call.attemptOf_inserted))
      (fun _ => ?_) .executionStarted (by simp) (by simp) (by simp)
    simp [wordOf_inserted, Commit.consumed, Commit.events, Commit.lock, Commit.consume,
      wordOf_cons, recordedKind]
  execute := fun commit tokens => ⟨call, commit, rfl, rfl⟩

theorem wordOf_entered (commit : Commit rt.keyCustody call.authorization.execution)
    (tokens : List CapabilityToken) (output : Option ToolOutput) :
    wordOf (call.inserted ++ commit.entered call.attemptId tokens
      ++ [⟨commit.execute tokens, output⟩]) = enteredWord := by
  simp [wordOf_inserted, Commit.entered, Commit.consumed, Commit.events, Commit.lock,
    Commit.consume, Commit.execute, wordOf_cons, recordedKind, enteredWord]

/-- Where `execute` was rejected and no append failed, nothing was consumed. -/
theorem wordOf_rejected
    (hrejected : Rejected rt.keyCustody call.authorization.execution call.attemptId
      call.inserted h) (hall : AllAppended h) : wordOf h = issuedWord := by
  cases hrejected with
  | unconsumed since => rw [since.wordOf_eq, call.wordOf_inserted]
  | unrecorded commit tokens e => simp [appendFails] at hall
  | unstarted commit tokens e => simp [appendFails] at hall

theorem unconsumed_rejected
    (hrejected : Rejected rt.keyCustody call.authorization.execution call.attemptId
      call.inserted h) (hall : AllAppended h) : Unconsumed h := by
  cases hrejected with
  | unconsumed since =>
      obtain ⟨q, rfl, hq⟩ := since
      exact unconsumed_append.mpr ⟨call.unconsumed_inserted, unconsumed_of_idle hq⟩
  | unrecorded commit tokens e => simp [appendFails] at hall
  | unstarted commit tokens e => simp [appendFails] at hall

theorem attemptOf_rejected
    (hrejected : Rejected rt.keyCustody call.authorization.execution call.attemptId
      call.inserted h) : attemptOf h = some call.attemptId := by
  cases hrejected with
  | unconsumed since =>
      obtain ⟨q, rfl, -⟩ := since
      exact attemptOf_append call.attemptOf_inserted
  | unrecorded => exact attemptOf_append (attemptOf_append call.attemptOf_inserted)
  | unstarted => exact attemptOf_append (attemptOf_append call.attemptOf_inserted)

theorem generate_mem {h' : History} :
    (⟨.generate call.turn.request, .ok call.response⟩ : Event) ∈ call.inserted ++ h' := by
  simp [inserted, issued, reserved, authorized, planned]

/-- The turn ends with the event that says how the execution went. -/
theorem completed_spec (commit : Commit rt.keyCustody call.authorization.execution)
    (tokens : List CapabilityToken) (output : ToolOutput) {kind : MissionEventKind}
    (next : Continues enteredWord kind) (hterminal : kind.isTerminal = true)
    (hfinal : kind ≠ .finalProduced) (hconsumed : kind ≠ .authorizationConsumed)
    (hrejected : ∀ code, kind ≠ .executionRejectedBeforeNexus code) :
    Spec (RunOnceBefore rt) RunOnceAfter (call.inserted ++ commit.entered call.attemptId tokens
        ++ [⟨commit.execute tokens, some output⟩])
      (do
        appendForAttempt call.attemptId kind
        return RunOutcome.executed output : RuntimeM RunOutcome).run := by
  refine Spec.callE (AppendBefore.of_word
    (attemptOf_append (attemptOf_append call.attemptOf_inserted))
    (fun _ => call.wordOf_entered commit tokens _) next hfinal hconsumed
    hrejected)
    (fun r _ hr => ?_) fun r e hr => ?_
  · obtain rfl : r = .ok () := hr
    refine Spec.pureE ⟨fun _ => ?_, fun _ _ => ?_, fun output' heq => ?_⟩
    · rw [wordOf_append, wordOf_cons]
      exact finished_snoc.mpr hterminal
    · exact ⟨_, _, by simp only [List.append_assoc]; exact call.generate_mem⟩
    · cases heq
      exact ⟨commit.tool.toolDefinition, call.authorization.execution.arguments, tokens,
        List.mem_append_left _ (List.mem_append_right _ List.mem_cons_self)⟩
  · obtain rfl : r = .error e := hr
    exact .of_failed rfl e

theorem executeAuthorized_spec :
    Spec (RunOnceBefore rt) RunOnceAfter call.reserved
      (rt.executeAuthorized call.attemptId call.authorization.execution
        ⟨call.authorization.certificate, call.authorization.record⟩).run := by
  unfold R1Runtime.executeAuthorized
  refine Spec.callE (AppendBefore.of_word call.attemptOf_reserved
    (fun _ => call.wordOf_reserved) .actionAuthorized (by simp) (by simp) (by simp))
    (fun r _ hr => ?_) fun r e hr => ?_
  swap
  · obtain rfl : r = .error e := hr
    exact .of_failed rfl e
  obtain rfl : r = .ok () := hr
  refine Spec.callE (AppendBefore.of_word (attemptOf_append call.attemptOf_reserved)
    (w := [.protocolAccepted, .planAccepted, .actionAuthorized])
    (fun _ => by simp [call.wordOf_reserved, wordOf_cons, recordedKind]) .authorizationIssued
    (by simp) (by simp) (by simp)) (fun r _ hr => ?_) fun r e hr => ?_
  swap
  · obtain rfl : r = .error e := hr
    exact .of_failed rfl e
  obtain rfl : r = .ok () := hr
  rw [List.append_assoc]
  refine Spec.opE ⟨call, rfl, rfl, rfl⟩ fun r => ?_
  rcases r with error | ⟨⟩
  · refine failWith_spec (AppendBefore.of_unconsumed error.code
      (attemptOf_append (attemptOf_append call.attemptOf_reserved)) (fun _ => ?_) fun _ => ?_) rfl
    · simp [call.wordOf_reserved, wordOf_cons, recordedKind, issuedWord]
    · have hissued := call.unconsumed_issued
      rw [ToolCall.issued] at hissued
      exact unconsumed_append.mpr ⟨hissued, by simp [Unconsumed, consumes]⟩
  · refine Spec.opE trivial fun _ => ?_
    rw [List.append_assoc (_ ++ _)]
    refine Spec.outcomeE ((execute_spec call.executable).mono (fun _ _ h => h) ?_)
    rintro h (⟨e, position⟩ | output) hreturn
    · cases position with
      | beforeNexus =>
          exact failWith_spec (AppendBefore.of_unconsumed e.code (call.attemptOf_rejected hreturn)
            (call.wordOf_rejected hreturn) (call.unconsumed_rejected hreturn)) rfl
      | started =>
          obtain ⟨commit, tokens, rfl⟩ := hreturn
          exact failWith_spec (AppendBefore.of_word
            (attemptOf_append (attemptOf_append call.attemptOf_inserted))
            (fun _ => call.wordOf_entered commit tokens _) (.failed e.code) (by simp)
            (by simp) (by simp)) rfl
    · obtain ⟨commit, tokens, rfl⟩ := hreturn
      by_cases hsuccess : output.success
      · simp only [hsuccess, if_true]
        exact call.completed_spec commit tokens output .completed rfl (by simp) (by simp) (by simp)
      · simp only [hsuccess]
        exact call.completed_spec commit tokens output (.failed _) rfl (by simp) (by simp) (by simp)

end ToolCall

-- ============================================================================
-- The branches of a turn
-- ============================================================================

theorem reserveBudget_spec {P : History → Op → Prop} {Q : History → Result Unit → Prop}
    {h : History} {counter : BudgetCounter} {limit : UInt64} {budgetName : String}
    (hP : P h (.reserve counter limit)) (hok : Q (h ++ [⟨.reserve counter limit, true⟩]) (.ok ()))
    (herror : ∀ e, Q (h ++ [⟨.reserve counter limit, false⟩]) (.error e)) :
    Spec P Q h (reserveBudget counter limit budgetName).run := by
  unfold reserveBudget
  refine Spec.opE hP fun reserved => ?_
  cases reserved with
  | true => exact Spec.pureE hok
  | false => exact herror _

theorem observe_spec {P : History → Op → Prop} (hP : ∀ h o, o.isQuiet = true → P h o)
    (context : SemanticContext) (now : DateTime) :
    Spec P (fun h r => match r with
      | .ok value => ∃ observation : Observation rt, observation.context = context ∧
          h = observation.events ∧ value = observation.value
      | .error _ => Since quiet [] h) [⟨.readContext, context⟩, ⟨.utcNow, now⟩]
      (rt.observeModelAuthority context now).run := by
  have hs₀ : Since quiet [] [⟨.readContext, context⟩, ⟨.utcNow, now⟩] :=
    ⟨_, rfl, by simp [quiet, Op.isQuiet]⟩
  unfold R1Runtime.observeModelAuthority R1Runtime.activeLeaseSnapshot
  refine Spec.rejectIfE (fun husable => ?_) fun e => hs₀
  refine Spec.bindE (Spec.opE (hP _ _ rfl) fun rootId => ?_)
  have hs₁ := hs₀.snoc ⟨.rootLeaseId, rootId⟩ rfl
  unfold AuthorityKernel.leaseSnapshot
  refine Spec.opE (hP _ _ rfl) fun r => Spec.ofResult_lastE ?_
  have hs₂ := hs₁.snoc ⟨.leaseSnapshot rootId, r⟩ rfl
  rcases r with e | lease
  · exact hs₂
  refine Spec.rejectIfE (fun hbound => ?_) fun e => hs₂
  refine Spec.callE (hP _ _ rfl) (fun r validated hr => ?_) fun r e _ => hs₂.snoc _ rfl
  obtain rfl : r = .ok validated := hr
  have hs₃ := hs₂.snoc ⟨.validateActiveChain lease.certificate.leaseId
    (some lease.record.generation) lease.manifest now, .ok validated⟩ rfl
  refine Spec.ofResultE (fun _ hcontinuation => ?_) fun e _ => hs₃
  rw [not_not] at husable hbound
  exact Spec.pureE ⟨⟨context, now, rootId, lease, validated, husable, hbound, hcontinuation⟩,
    rfl, rfl, rfl⟩

/-- How `accept_model_final` can return: having recorded the result, or nothing. -/
def FinalReturns (h h' : History) : Result Unit → Prop
  | .ok () => ∃ q, h' = h ++ q ∧ wordOf q = [.finalProduced]
  | .error _ => ∃ q, h' = h ++ q ∧ (AllAppended q → wordOf q = [])

theorem FinalReturns.of_idle {h h' : History} {e : RuntimeError} (hs : Since idle h h') :
    FinalReturns h h' (.error e) := by
  obtain ⟨q, rfl, hq⟩ := hs
  exact ⟨q, rfl, fun _ => wordOf_of_idle hq⟩

theorem FinalReturns.snoc {h h' : History} {ev : Event} {r : Result Unit}
    (hreturn : FinalReturns h h' r) (hev : idle ev = true) :
    FinalReturns h (h' ++ [ev]) r := by
  have hword : wordOf [ev] = [] := wordOf_of_idle (by simpa using hev)
  cases r with
  | ok u =>
      obtain ⟨q, rfl, hq⟩ := hreturn
      exact ⟨q ++ [ev], List.append_assoc .., by rw [wordOf_append, hq, hword]; rfl⟩
  | error e =>
      obtain ⟨q, rfl, hq⟩ := hreturn
      refine ⟨q ++ [ev], List.append_assoc .., fun hall => ?_⟩
      rw [wordOf_append, hq (allAppended_append.mp hall).1, hword]
      rfl

theorem acceptModelFinal_spec {P : History → Op → Prop} {h : History}
    (hidle : ∀ h o, (∀ r, idle ⟨o, r⟩ = true) → P h o) {attemptId : Nat}
    (hfinal : ∀ leaseId generation manifest now validated context,
      P (h ++ [⟨.lockActiveChain leaseId generation manifest now, .ok validated⟩,
        ⟨.lockContext, context⟩]) (.appendForAttempt attemptId .finalProduced))
    (observation : ModelAuthorityObservation) (now : DateTime) :
    Spec P (FinalReturns h) h (rt.acceptModelFinal observation attemptId now).run := by
  have hs₀ : Since idle h h := .refl
  unfold R1Runtime.acceptModelFinal AuthorityKernel.commitActiveChain
  refine Spec.rejectIfE (fun _ => ?_) fun e => .of_idle hs₀
  refine Spec.opE (hidle _ _ fun _ => rfl) fun r => ?_
  have hs₁ := hs₀.snoc ⟨.lockActiveChain observation.lease.certificate.leaseId
    (some observation.lease.record.generation) observation.lease.manifest now, r⟩ rfl
  refine Spec.ofResultE (fun validated hr => ?_) fun e _ => .of_idle hs₁
  subst hr
  -- the closure returns like the whole, and releasing the guard adds nothing
  refine Spec.outcomeE (Spec.mono (Q := FinalReturns h) ?_ (fun _ _ h => h) fun h' r hreturn =>
    Spec.opE (hidle _ _ fun _ => rfl) fun _ => Spec.ofResult_lastE (hreturn.snoc rfl))
  unfold R1Runtime.commitFinal
  refine Spec.ofResultE (fun _ _ => ?_) fun e _ => .of_idle hs₁
  refine Spec.opE (hidle _ _ fun _ => rfl) fun context => ?_
  have hs₂ := hs₁.snoc ⟨.lockContext, context⟩ rfl
  refine Spec.outcomeE (Spec.mono (Q := FinalReturns h) ?_ (fun _ _ h => h) fun h' r hreturn =>
    Spec.opE (hidle _ _ fun _ => rfl) fun _ => Spec.ofResult_lastE (hreturn.snoc rfl))
  refine Spec.ofResultE (fun _ _ => ?_) fun e _ => .of_idle hs₂
  unfold appendForAttempt
  rw [List.append_assoc]
  refine Spec.opE (hfinal _ _ _ _ _ _) fun r => Spec.ofResult_lastE ?_
  rw [List.append_assoc]
  rcases r with e | ⟨⟩
  · exact ⟨_, rfl, fun hall => by simp [appendFails] at hall⟩
  · exact ⟨_, rfl, by simp [wordOf_cons, recordedKind]⟩

/-- A turn that has got a message from the model. -/
def Turn.accepted (turn : Turn rt) (response : ModelResponse) : History :=
  turn.events ++ [⟨.generate turn.request, .ok response⟩,
    ⟨.appendForAttempt turn.attemptId .protocolAccepted, .ok ()⟩]

namespace Turn

variable (turn : Turn rt) (response : ModelResponse)

theorem wordOf_accepted : wordOf (turn.accepted response) = [.protocolAccepted] := by
  simp [accepted, wordOf_cons, recordedKind]

theorem attemptOf_accepted : attemptOf (turn.accepted response) = some turn.attemptId :=
  attemptOf_append turn.attemptOf_events

theorem generate_mem_accepted {h : History} :
    (⟨.generate turn.request, .ok response⟩ : Event) ∈ turn.accepted response ++ h := by
  simp [accepted]

theorem runFinal_spec (result : FinalResult) :
    Spec (RunOnceBefore rt) RunOnceAfter (turn.accepted response)
      (rt.runFinal turn.observation.value turn.attemptId result).run := by
  unfold R1Runtime.runFinal
  refine Spec.opE (fun _ => rfl) fun now => ?_
  have hword : wordOf (turn.accepted response ++ [⟨.utcNow, now⟩]) = [.protocolAccepted] := by
    simp [wordOf_accepted, wordOf_cons, recordedKind]
  have hattempt : attemptOf (turn.accepted response ++ [⟨.utcNow, now⟩]) = some turn.attemptId :=
    attemptOf_append (turn.attemptOf_accepted response)
  refine Spec.outcomeE (Spec.mono (acceptModelFinal_spec (fun _ _ ho => .of_idle ho) ?_ _ _)
    (fun _ _ h => h) ?_)
  · intro leaseId generation manifest now' validated context
    exact
      { attempt := attemptOf_append hattempt
        continues := fun _ => by
          rw [wordOf_append, hword]
          exact .finalProduced
        final := fun _ => ⟨_, _, _, _, _, _, _, rfl⟩
        consumed := fun heq => by cases heq
        rejected := fun _ heq => by cases heq }
  · rintro h (e | ⟨⟩) ⟨q, rfl, hq⟩
    · refine failWith_spec (AppendBefore.of_word (attemptOf_append hattempt) (fun hall => ?_)
        (.finalRejected e.code) (by simp) (by simp) (by simp)) rfl
      rw [wordOf_append, hword, hq (allAppended_append.mp hall).2, List.append_nil]
    · refine Spec.pureE ⟨fun _ => ?_, fun _ _ => ?_, fun output heq => by cases heq⟩
      · rw [wordOf_append, hq]
        exact finished_snoc.mpr rfl
      · exact ⟨_, _, by rw [List.append_assoc]; exact turn.generate_mem_accepted response⟩

theorem runToolCall_spec {proposal : ToolCallProposal}
    (hparsed : rt.protocolGate.parse response.rawOutput = .ok (.toolCall proposal)) :
    Spec (RunOnceBefore rt) RunOnceAfter (turn.accepted response)
      (rt.runToolCall turn.observation.context turn.attemptId proposal).run := by
  unfold R1Runtime.runToolCall
  refine Spec.callE (AppendBefore.of_word (turn.attemptOf_accepted response)
    (fun _ => turn.wordOf_accepted response) .planAccepted (by simp) (by simp) (by simp))
    (fun r _ hr => ?_) fun r e hr => ?_
  swap
  · obtain rfl : r = .error e := hr
    exact .of_failed rfl e
  obtain rfl : r = .ok () := hr
  refine Spec.opE (fun _ => rfl) fun leaseId => Spec.opE (fun _ => rfl) fun now => ?_
  -- a gate or a budget that rejects leaves the word of the plan
  have hrejected {h : History} {e : RuntimeError}
      (hattempt : attemptOf h = some turn.attemptId)
      (hword : wordOf h = [.protocolAccepted, .planAccepted]) :
      Spec (RunOnceBefore rt) RunOnceAfter h
        (R1Runtime.failWith turn.attemptId .actionRejected e : RuntimeM RunOutcome).run :=
    failWith_spec (AppendBefore.of_word hattempt (fun _ => hword) (.actionRejected e.code)
      (by simp) (by simp) (by simp)) rfl
  refine Spec.outcomeE (Spec.mono (authorize_spec (fun _ _ => .of_quiet) _ _)
    (fun _ _ h => h) ?_)
  rintro h (e | ⟨authorized, artifact⟩) hreturn
  · obtain ⟨q, rfl, hq⟩ := Since.imp hreturn fun _ => idle_of_quiet
    refine hrejected (attemptOf_append (attemptOf_append (attemptOf_append
      (attemptOf_append (turn.attemptOf_accepted response))))) ?_
    simp [wordOf_of_idle hq, wordOf_accepted, wordOf_cons, recordedKind]
  · obtain ⟨authorization, rfl, rfl, rfl⟩ := hreturn
    let call : ToolCall rt := ⟨turn, response, proposal, leaseId, now, authorization, hparsed⟩
    have hauthorized : turn.accepted response
        ++ [⟨.appendForAttempt turn.attemptId .planAccepted, .ok ()⟩]
        ++ [⟨.rootLeaseId, leaseId⟩] ++ [⟨.utcNow, now⟩] ++ authorization.events
        = call.authorized := by
      simp [call, ToolCall.authorized, ToolCall.planned, ToolCall.attemptId, accepted]
    rw [hauthorized]
    refine Spec.outcomeE (reserveBudget_spec rfl call.executeAuthorized_spec fun e => ?_)
    refine hrejected (attemptOf_append (attemptOf_append call.attemptOf_planned)) ?_
    simp [call.wordOf_authorized, wordOf_cons, recordedKind]

theorem handleResponse_spec :
    Spec (RunOnceBefore rt) RunOnceAfter
      (turn.events ++ [⟨.generate turn.request, .ok response⟩])
      (rt.handleResponse turn.observation.context turn.observation.value turn.attemptId
        response).run := by
  have hattempt : attemptOf (turn.events ++ [⟨.generate turn.request, .ok response⟩])
      = some turn.attemptId := attemptOf_append turn.attemptOf_events
  have hword : wordOf (turn.events ++ [⟨.generate turn.request, .ok response⟩]) = [] := by
    simp [wordOf_cons, recordedKind]
  unfold R1Runtime.handleResponse
  cases hparsed : rt.protocolGate.parse response.rawOutput with
  | error error =>
      exact failWith_spec (AppendBefore.of_word hattempt (fun _ => hword)
        (.protocolRejected error.code) (by simp) (by simp) (by simp)) rfl
  | ok message =>
      refine Spec.callE (AppendBefore.of_word hattempt (fun _ => hword) .protocolAccepted
        (by simp) (by simp) (by simp)) (fun r _ hr => ?_) fun r e hr => ?_
      · obtain rfl : r = .ok () := hr
        rw [List.append_assoc]
        cases message with
        | final result => exact turn.runFinal_spec response result
        | toolCall proposal => exact turn.runToolCall_spec response hparsed
      · obtain rfl : r = .error e := hr
        exact .of_failed rfl e

end Turn

theorem runOnce_spec : Spec (RunOnceBefore rt) RunOnceAfter [] rt.runOnce.run := by
  -- a turn that does not get to the model has recorded nothing
  have hempty {h : History} {e : RuntimeError} (hword : wordOf h = []) :
      RunOnceAfter h (.error e) := .of_error fun _ => by simp [Finished, hword]
  unfold R1Runtime.runOnce
  refine Spec.opE (fun _ => rfl) fun context => Spec.opE (fun _ => rfl) fun now => ?_
  refine Spec.bindE ((observe_spec (fun _ _ => .of_quiet) context now).mono (fun _ _ h => h) ?_)
  rintro h (e | value) hreturn
  · exact hempty (Since.wordOf_eq (Since.imp hreturn fun _ => idle_of_quiet))
  obtain ⟨observation, rfl, rfl, rfl⟩ := hreturn
  refine Spec.bindE (reserveBudget_spec rfl ?_ fun e => hempty ?_)
  swap
  · simp [Observation.events, wordOf_cons, recordedKind]
  refine Spec.ofResultE (fun instruction _ => ?_) fun e _ => hempty ?_
  swap
  · simp [Observation.events, wordOf_cons, recordedKind]
  refine Spec.opE ⟨observation, rfl⟩ fun attemptId => ?_
  let turn : Turn rt := ⟨observation, instruction, attemptId⟩
  rw [List.append_assoc]
  refine Spec.opE ⟨turn, rfl, rfl⟩ fun r => ?_
  cases r with
  | error error =>
      exact failWith_spec (AppendBefore.of_word (attemptOf_append turn.attemptOf_events)
        (fun _ => by simp [Observation.events, wordOf_cons, recordedKind])
        (.modelFailed error.code) (by simp) (by simp) (by simp)) rfl
  | ok response => exact turn.handleResponse_spec response

-- ============================================================================
-- Every call
-- ============================================================================

/-- What holds before each operation of an `execute` called directly. -/
def ExecuteBefore (rt : R1Runtime) (authorized : AuthorizedExecution) (h : History) :
    Op → Prop
  | .appendForAttempt _ _ => True
  | .consume recordId generation capabilities validity =>
      ∃ commit : Commit rt.keyCustody authorized, h = commit.events ∧
        .consume recordId generation capabilities validity = commit.consume
  | .executeTool definition arguments tokens =>
      ∃ (commit : Commit rt.keyCustody authorized) (attemptId : Nat),
        h = commit.entered attemptId tokens ∧
          .executeTool definition arguments tokens = commit.execute tokens
  | o => ∀ r, idle ⟨o, r⟩ = true

/-- The operation of the kernel a call of the control plane performs. -/
def KernelOpBefore (call : Call) (h : History) (op : KernelOp) : Prop :=
  match call with
  | .revoke reason => ∃ rootId lease now,
      h = [⟨.rootLeaseId, rootId⟩, ⟨.leaseSnapshot rootId, .ok lease⟩, ⟨.utcNow, now⟩] ∧
        op = .revoke lease.certificate.leaseId lease.record.generation reason now
  | .refreshExpirations => ∃ now, op = .refreshExpirations now
  | _ => True

/-- What holds before each operation of a call of the control plane. -/
def ControlBefore (call : Call) (h : History) : Op → Prop
  | .kernelOp op => KernelOpBefore call h op
  | .writeContext _ | .replaceTool _ => True
  | o => o.isQuiet = true

/-- What holds before each operation of a call. -/
def Before (rt : R1Runtime) (call : Call) (h : History) (o : Op) : Prop :=
  match call with
  | .runOnce => RunOnceBefore rt h o
  | .authorize _ => o.isQuiet = true
  | .execute authorized _ => ExecuteBefore rt authorized h o
  | call => ControlBefore call h o

/-- How a call of the control plane can return. -/
def ControlReturns (h : History) (result : Result R1Runtime.ControlReturn) : Prop :=
  ∀ returned, result = .ok (.kernel returned) → ∃ op,
    (⟨.kernelOp op, .ok returned⟩ : Event) ∈ h

/-- What holds when a call returns. -/
def After (rt : R1Runtime) (call : Call) (h : History) (outcome : Outcome) : Prop :=
  match call with
  | .runOnce => ∃ result, outcome = .ran result ∧ RunOnceAfter h result
  | .authorize request => ∃ result, outcome = .authorized result ∧
      AuthorizeReturns request [] h result
  | .execute authorized attemptId => ∃ result, outcome = .executed result ∧
      ExecuteReturns rt.keyCustody authorized attemptId [] h result
  | _ => ∃ result, outcome = .controlled result ∧ ControlReturns h result

theorem ControlReturns.of_error {h : History} (e : RuntimeError) :
    ControlReturns h (.error e) := fun _ heq => by cases heq

theorem kernelOp_spec {P : History → Op → Prop} {h : History} {op : KernelOp}
    (hP : P h (.kernelOp op)) :
    Spec P ControlReturns h (R1Runtime.kernelOp op).run := by
  unfold R1Runtime.kernelOp
  refine Spec.opE hP fun r => Spec.ofResultE (fun returned hr => ?_) fun e _ => .of_error e
  subst hr
  refine Spec.pureE fun returned' heq => ?_
  cases heq
  exact ⟨op, by simp⟩

section
variable {P : History → Op → Prop} {Q : History → Result R1Runtime.ControlReturn → Prop}
  {h : History}

theorem activeLeaseSnapshot_bind_spec (hP : ∀ h o, o.isQuiet = true → P h o)
    {f : LeaseSnapshot → RuntimeM R1Runtime.ControlReturn}
    (hok : ∀ rootId lease, Spec P Q
      (h ++ [⟨.rootLeaseId, rootId⟩, ⟨.leaseSnapshot rootId, .ok lease⟩]) (f lease).run)
    (herror : ∀ h e, Q h (.error e)) :
    Spec P Q h (R1Runtime.activeLeaseSnapshot >>= f).run := by
  unfold R1Runtime.activeLeaseSnapshot
  refine Spec.bindE (Spec.opE (hP _ _ rfl) fun rootId => ?_)
  unfold AuthorityKernel.leaseSnapshot
  refine Spec.opE (hP _ _ rfl) fun r => Spec.ofResult_lastE ?_
  rcases r with e | lease
  · exact herror _ e
  · rw [List.append_assoc]
    exact hok rootId lease

end

theorem ExecuteBefore.of_idle {authorized : AuthorizedExecution} {h : History} {o : Op}
    (ho : ∀ r, idle ⟨o, r⟩ = true) : ExecuteBefore rt authorized h o := by
  cases o with
  | appendForAttempt => trivial
  | consume => exact absurd (ho (.ok [])) (by simp [idle, Op.isQuiet])
  | executeTool => exact absurd (ho none) (by simp [idle, Op.isQuiet])
  | _ => exact ho

theorem ControlBefore.of_quiet {call : Call} {h : History} {o : Op} (ho : o.isQuiet = true) :
    ControlBefore call h o := by
  cases o <;> first | exact ho | cases ho

theorem renew_spec (expiresAt : DateTime) :
    Spec (ControlBefore (.renew expiresAt)) ControlReturns []
      (R1Runtime.renew expiresAt).run := by
  unfold R1Runtime.renew
  refine activeLeaseSnapshot_bind_spec (fun _ _ => .of_quiet) (fun rootId lease => ?_)
    fun _ e => .of_error e
  refine Spec.opE rfl fun r => Spec.ofResultE (fun manifest _ => ?_) fun e _ => .of_error e
  refine Spec.opE rfl fun context => Spec.ofResultE (fun digest _ => ?_) fun e _ => .of_error e
  refine Spec.opE rfl fun now => ?_
  refine Spec.bindE ((kernelOp_spec trivial).mono (fun _ _ h => h) ?_)
  rintro h (e | returned) hreturn
  · exact .of_error e
  cases returned with
  | kernel returned =>
      cases returned with
      | lease renewedId =>
          unfold AuthorityKernel.leaseSnapshot
          refine Spec.bindE (Spec.opE rfl fun r => Spec.ofResult_lastE ?_)
          rcases r with e | snapshot
          · exact .of_error e
          · exact Spec.pureE fun _ heq => by cases heq
      | record record => exact Spec.pureE hreturn
      | leases leaseIds => exact Spec.pureE hreturn
  | snapshot snapshot => exact Spec.pureE hreturn
  | done => exact Spec.pureE hreturn

/-- The calls that read the active lease and perform one operation on it. -/
theorem controlActive_spec {call : Call} {op : LeaseSnapshot → DateTime → KernelOp}
    (hP : ∀ rootId lease now, KernelOpBefore call
      [⟨.rootLeaseId, rootId⟩, ⟨.leaseSnapshot rootId, .ok lease⟩, ⟨.utcNow, now⟩]
      (op lease now)) :
    Spec (ControlBefore call) ControlReturns [] (do
      let active ← R1Runtime.activeLeaseSnapshot
      R1Runtime.kernelOp (op active (← perform .utcNow)) : RuntimeM R1Runtime.ControlReturn).run :=
  activeLeaseSnapshot_bind_spec (fun _ _ => .of_quiet)
    (fun rootId lease => Spec.opE rfl fun now => kernelOp_spec (hP rootId lease now))
    fun _ e => .of_error e

/-- A call of the control plane is specified by what it returns. -/
theorem controlled_spec {call : Call} {x : RuntimeM R1Runtime.ControlReturn}
    (hx : Spec (ControlBefore call) ControlReturns [] x.run) :
    Spec (ControlBefore call) (fun h outcome => ∃ result, outcome = .controlled result ∧
      ControlReturns h result) [] (Outcome.controlled <$> x.run) :=
  Spec.map (hx.mono (fun _ _ h => h) fun _ r hr => ⟨r, rfl, hr⟩)

/-- The specification of every call. -/
theorem code_spec (rt : R1Runtime) (call : Call) :
    Spec (Before rt call) (After rt call) [] (rt.code call) := by
  cases call with
  | runOnce => exact Spec.map (runOnce_spec.mono (fun _ _ h => h) fun _ r hr => ⟨r, rfl, hr⟩)
  | authorize request =>
      exact Spec.map ((authorize_spec (fun _ _ ho => ho) request []).mono (fun _ _ h => h)
        fun _ r hr => ⟨r, rfl, hr⟩)
  | execute authorized attemptId =>
      refine Spec.map ((execute_spec ?_).mono (fun _ _ h => h) fun _ r hr => ⟨r, rfl, hr⟩)
      exact
        { idle := fun _ _ ho => .of_idle ho
          consume := fun commit => ⟨commit, rfl, rfl⟩
          recorded := fun _ _ => trivial
          started := fun _ _ => trivial
          execute := fun commit tokens => ⟨commit, attemptId, rfl, rfl⟩ }
  | pause => exact controlled_spec (controlActive_spec fun _ _ _ => trivial)
  | resume => exact controlled_spec (controlActive_spec fun _ _ _ => trivial)
  | revoke reason =>
      exact controlled_spec
        (controlActive_spec fun rootId lease now => ⟨rootId, lease, now, rfl, rfl⟩)
  | renew expiresAt => exact controlled_spec (renew_spec expiresAt)
  | refreshExpirations =>
      exact controlled_spec (Spec.opE rfl fun now => kernelOp_spec ⟨now, rfl⟩)
  | kernelOp op => exact controlled_spec (kernelOp_spec trivial)
  | writeContext context =>
      exact controlled_spec (Spec.opE trivial fun _ => Spec.pureE fun _ heq => by cases heq)
  | replaceTool replacement =>
      exact controlled_spec (Spec.opE trivial fun r => Spec.ofResultE
        (fun _ _ => Spec.pureE fun _ heq => by cases heq) fun e _ => .of_error e)

end

end GenesisRuntime
