/-
  GenesisRuntime.Runtime.Acceptance

  The acceptance of a final message.  The model is called without any guard, so
  anything can happen to the leases and to the context meanwhile.  The acceptance
  validates the chain anew under the read guard of the kernel, compares it with the
  one that was observed before, and records the result under the read guard of the
  context as well.
-/

import GenesisRuntime.Runtime.CommitPoint

namespace GenesisRuntime

open Prog (Spec outcomeOf)

section
variable [Externals]

-- ============================================================================
-- The shapes of an acceptance
-- ============================================================================

variable {rt : R1Runtime}

/-- A successful acceptance: what it read, and what its checks established. -/
structure Acceptance (turn : Turn rt) where
  now : DateTime
  validated : ValidatedAuthority
  context : SemanticContext
  usable : rt.mission.isUsableAt now = true
  unchanged : turn.observation.value.checkUnchanged validated = .ok ()
  continuation : validateContextContinuation turn.observation.validated.semanticContextDigest
    context = .ok ()

/-- The validation of an acceptance. -/
def Turn.lock (turn : Turn rt) (now : DateTime) : Op :=
  .lockActiveChain turn.observation.lease.certificate.leaseId
    (some turn.observation.lease.record.generation) turn.observation.lease.manifest now

namespace Acceptance

variable {turn : Turn rt} (accept : Acceptance turn)

/-- What is performed before the result is recorded. -/
def events : History :=
  [⟨.utcNow, accept.now⟩, ⟨turn.lock accept.now, .ok accept.validated⟩,
   ⟨.lockContext, accept.context⟩]

/-- What is performed where the result is recorded. -/
def recorded : History :=
  accept.events ++ [⟨.appendForAttempt turn.attemptId .finalProduced, .ok ()⟩,
    ⟨.unlockContext, ()⟩, ⟨.unlockKernel, ()⟩]

end Acceptance

/-- Why an acceptance fails, and what it has performed by then. -/
inductive Refused (turn : Turn rt) (now : DateTime) : History → RuntimeError → Prop where
  | unusable (message : String) (h : rt.mission.isUsableAt now ≠ true) :
      Refused turn now [] ⟨.missionInactive, message⟩
  | invalid (e : RuntimeError) : Refused turn now [⟨turn.lock now, .error e⟩] e
  | changed (validated : ValidatedAuthority) (e : RuntimeError)
      (h : turn.observation.value.checkUnchanged validated = .error e) :
      Refused turn now [⟨turn.lock now, .ok validated⟩, ⟨.unlockKernel, ()⟩] e
  | drifted (validated : ValidatedAuthority) (context : SemanticContext) (e : RuntimeError)
      (h : validateContextContinuation turn.observation.validated.semanticContextDigest context
        = .error e) :
      Refused turn now [⟨turn.lock now, .ok validated⟩, ⟨.lockContext, context⟩,
        ⟨.unlockContext, ()⟩, ⟨.unlockKernel, ()⟩] e

/-- How an acceptance that was started at `now` can return. -/
def AcceptReturns (turn : Turn rt) (now : DateTime) (h h' : History) : Result Unit → Prop
  | .ok () => ∃ accept : Acceptance turn, accept.now = now ∧ h' = h ++ accept.recorded
  | .error e => (∃ q, Refused turn now q e ∧ h' = h ++ ⟨.utcNow, now⟩ :: q) ∨ ¬ AllAppended h'

/-- How the closure of an acceptance can return, the guard not released yet. -/
def CommitFinalReturns (turn : Turn rt) (now : DateTime) (h h' : History) : Result Unit → Prop
  | .ok () => ∃ accept : Acceptance turn, accept.now = now ∧
      h' = h ++ accept.events ++ [⟨.appendForAttempt turn.attemptId .finalProduced, .ok ()⟩,
        ⟨.unlockContext, ()⟩]
  | .error e => (∃ q, Refused turn now (q ++ [⟨.unlockKernel, ()⟩]) e ∧
      h' = h ++ ⟨.utcNow, now⟩ :: q) ∨ ¬ AllAppended h'

theorem commitFinal_returns {P : History → Op → Prop} {h : History} (turn : Turn rt)
    (now : DateTime) (validated : ValidatedAuthority)
    (hidle : ∀ h o, (∀ r, idle ⟨o, r⟩ = true) → P h o)
    (hfinal : ∀ accept : Acceptance turn,
      P (h ++ accept.events) (.appendForAttempt turn.attemptId .finalProduced))
    (husable : rt.mission.isUsableAt now = true) :
    Spec P (CommitFinalReturns turn now h)
      (h ++ [⟨.utcNow, now⟩, ⟨turn.lock now, .ok validated⟩])
      (R1Runtime.commitFinal turn.observation.value turn.attemptId validated).run := by
  unfold R1Runtime.commitFinal
  refine Spec.ofResultE (fun _ hunchanged => ?_) fun e he =>
    .inl ⟨_, .changed validated e he, rfl⟩
  refine Spec.opE (hidle _ _ fun _ => rfl) fun context => ?_
  cases hcontext : validateContextContinuation turn.observation.validated.semanticContextDigest
      context with
  | error e =>
      refine Spec.outcomeE (Spec.ofResultE (fun _ hok => ?_) fun e' he' => ?_)
      · rw [Observation.value, hcontext] at hok
        cases hok
      · rw [Observation.value, hcontext] at he'
        cases he'
        refine Spec.opE (hidle _ _ fun _ => rfl) fun _ => Spec.ofResult_lastE ?_
        exact .inl ⟨[⟨turn.lock now, .ok validated⟩, ⟨.lockContext, context⟩, ⟨.unlockContext, ()⟩],
          .drifted validated context e hcontext, by simp⟩
  | ok _ =>
      let accept : Acceptance turn := ⟨now, validated, context, husable, hunchanged, hcontext⟩
      have hevents : h ++ [⟨.utcNow, now⟩, ⟨turn.lock now, .ok validated⟩]
          ++ [⟨.lockContext, context⟩] = h ++ accept.events := by
        simp [accept, Acceptance.events]
      rw [hevents]
      refine Spec.outcomeE (Spec.ofResultE (fun _ _ => ?_) fun e' he' => ?_)
      swap
      · rw [Observation.value, hcontext] at he'
        cases he'
      unfold appendForAttempt
      refine Spec.opE (hfinal accept) fun r => Spec.ofResult_lastE ?_
      refine Spec.opE (hidle _ _ fun _ => rfl) fun _ => Spec.ofResult_lastE ?_
      rcases r with e | ⟨⟩
      · exact .inr fun hall => by simp [appendFails] at hall
      · exact ⟨accept, rfl, by simp⟩

theorem acceptModelFinal_returns {P : History → Op → Prop} {h : History} (turn : Turn rt)
    (now : DateTime) (hidle : ∀ h o, (∀ r, idle ⟨o, r⟩ = true) → P h o)
    (hfinal : ∀ accept : Acceptance turn,
      P (h ++ accept.events) (.appendForAttempt turn.attemptId .finalProduced)) :
    Spec P (AcceptReturns turn now h) (h ++ [⟨.utcNow, now⟩])
      (rt.acceptModelFinal turn.observation.value turn.attemptId now).run := by
  unfold R1Runtime.acceptModelFinal AuthorityKernel.commitActiveChain
  by_cases husable : rt.mission.isUsableAt now = true
  swap
  · rw [rejectIf, if_pos husable]
    exact .inl ⟨[], .unusable _ husable, rfl⟩
  rw [rejectIf, if_neg (not_not.mpr husable)]
  refine Spec.opE (hidle _ _ fun _ => rfl) fun r => ?_
  rw [List.append_assoc]
  refine Spec.ofResultE (fun validated hr => ?_) fun e hr => ?_
  swap
  · subst hr
    exact .inl ⟨_, .invalid e, rfl⟩
  subst hr
  refine Spec.outcomeE ((commitFinal_returns turn now validated hidle hfinal husable).mono
    (fun _ _ h => h) ?_)
  intro h' r hreturn
  refine Spec.opE (hidle _ _ fun _ => rfl) fun _ => Spec.ofResult_lastE ?_
  rcases r with e | ⟨⟩
  · rcases hreturn with ⟨q, hq, rfl⟩ | hfailed
    · exact .inl ⟨_, hq, by simp⟩
    · exact .inr fun hall => hfailed (allAppended_append.mp hall).1
  · obtain ⟨accept, hnow, rfl⟩ := hreturn
    exact ⟨accept, hnow, by simp [Acceptance.recorded]⟩

-- ============================================================================
-- Turns with a final message
-- ============================================================================

/-- How a turn returns whose model answers with a final message. -/
inductive FinalTurn (turn : Turn rt) (response : ModelResponse) (final : FinalResult) :
    History → Result RunOutcome → Prop where
  | produced (accept : Acceptance turn) :
      FinalTurn turn response final (turn.accepted response ++ accept.recorded)
        (.ok (.final final))
  | refused (now : DateTime) (q : History) (e : RuntimeError) (refused : Refused turn now q e) :
      FinalTurn turn response final (turn.accepted response ++ ⟨.utcNow, now⟩ :: q
        ++ [⟨.appendForAttempt turn.attemptId (.finalRejected e.code), .ok ()⟩]) (.error e)
  | unrecorded (h : History) (e : RuntimeError) (hfailed : ¬ AllAppended h) :
      FinalTurn turn response final h (.error e)

/-- What holds before each operation: a final result is recorded by an acceptance. -/
def FinalBefore (rt : R1Runtime) (h : History) (o : Op) : Prop :=
  ∀ attemptId, o = .appendForAttempt attemptId .finalProduced →
    ∃ (turn : Turn rt) (response : ModelResponse) (final : FinalResult) (accept : Acceptance turn),
      rt.protocolGate.parse response.rawOutput = .ok (.final final) ∧
        h = turn.accepted response ++ accept.events ∧ attemptId = turn.attemptId

/-- What holds when `run_once` returns. -/
structure FinalAfter (rt : R1Runtime) (h : History) (result : Result RunOutcome) : Prop where
  produced : ∀ final, result = .ok (.final final) → ∃ (turn : Turn rt) (response : ModelResponse)
    (accept : Acceptance turn), rt.protocolGate.parse response.rawOutput = .ok (.final final) ∧
      h = turn.accepted response ++ accept.recorded
  answered : ∀ request response final, (⟨.generate request, .ok response⟩ : Event) ∈ h →
    rt.protocolGate.parse response.rawOutput = .ok (.final final) →
    ¬ AllAppended h ∨ ∃ turn : Turn rt, FinalTurn turn response final h result

/-- The operations that have nothing to do with a final message. -/
def Op.isOrdinary : Op → Bool
  | .generate _ | .appendForAttempt _ .finalProduced => false
  | _ => true

theorem FinalBefore.of_ordinary {h : History} {o : Op} (ho : o.isOrdinary = true) :
    FinalBefore rt h o := by
  rintro attemptId rfl
  cases ho

theorem isOrdinary_of_idle {o : Op} (ho : ∀ r, idle ⟨o, r⟩ = true) : o.isOrdinary = true := by
  cases o with
  | generate => exact absurd (ho (.ok ⟨""⟩)) (by simp [idle, Op.isQuiet])
  | appendForAttempt => exact absurd (ho (.ok ())) (by simp [idle, Op.isQuiet])
  | _ => rfl

theorem isOrdinary_of_quiet {o : Op} (ho : o.isQuiet = true) : o.isOrdinary = true :=
  isOrdinary_of_idle fun _ => idle_of_quiet ho

/-- A program that performs ordinary operations only and does not return a final result. -/
abbrev Ordinary (h : History) (x : RuntimeM RunOutcome) : Prop :=
  Spec (fun _ o => o.isOrdinary = true) (fun _ r => ∀ final, r ≠ .ok (.final final)) h x.run

section
variable {h : History}

theorem failWith_ordinary {attemptId : Nat} {kind : ErrorCode → MissionEventKind}
    {error : RuntimeError} (hkind : kind error.code ≠ .finalProduced) :
    Ordinary h (R1Runtime.failWith attemptId kind error) := by
  have hop : (Op.appendForAttempt attemptId (kind error.code)).isOrdinary = true := by
    unfold Op.isOrdinary
    split
    · rename_i heq
      cases heq
    · rename_i heq
      exact absurd (Op.appendForAttempt.inj heq).2 hkind
    · rfl
  exact Spec.callE hop (fun _ _ _ => Spec.throwE fun _ heq => by cases heq)
    fun _ _ _ _ heq => by cases heq

theorem executeAuthorized_ordinary (attemptId : Nat) (authorized : AuthorizedExecution)
    (artifact : R1AuthorizationArtifact) :
    Ordinary h (rt.executeAuthorized attemptId authorized artifact) := by
  have herror {e : RuntimeError} (final : FinalResult) :
      (.error e : Result RunOutcome) ≠ .ok (.final final) := fun heq => by cases heq
  unfold R1Runtime.executeAuthorized
  refine Spec.callE rfl (fun _ _ _ => ?_) fun _ _ _ => herror
  refine Spec.callE rfl (fun _ _ _ => ?_) fun _ _ _ => herror
  refine Spec.opE rfl fun r => ?_
  rcases r with error | ⟨⟩
  · exact failWith_ordinary (by simp)
  refine Spec.opE rfl fun _ => Spec.outcomeE ?_
  refine (execute_spec ?_).mono (fun _ _ h => h) ?_
  · exact
      { idle := fun _ _ ho => isOrdinary_of_idle ho
        consume := fun _ => rfl
        recorded := fun _ _ => rfl
        started := fun _ _ => rfl
        execute := fun _ _ => rfl }
  rintro h' (⟨e, position⟩ | output) -
  · cases position with
    | beforeNexus => exact failWith_ordinary (by simp)
    | started => exact failWith_ordinary (by simp)
  · by_cases hsuccess : output.success
    · simp only [hsuccess, if_true]
      exact Spec.callE rfl (fun _ _ _ => Spec.pureE fun _ heq => by cases heq) fun _ _ _ => herror
    · simp only [hsuccess]
      exact Spec.callE rfl (fun _ _ _ => Spec.pureE fun _ heq => by cases heq) fun _ _ _ => herror

theorem runToolCall_ordinary (context : SemanticContext) (attemptId : Nat)
    (proposal : ToolCallProposal) : Ordinary h (rt.runToolCall context attemptId proposal) := by
  unfold R1Runtime.runToolCall
  refine Spec.callE rfl (fun _ _ _ => ?_) fun _ _ _ _ heq => by cases heq
  refine Spec.opE rfl fun leaseId => Spec.opE rfl fun now => ?_
  refine Spec.outcomeE ((authorize_spec (fun _ _ => isOrdinary_of_quiet) _ _).mono
    (fun _ _ h => h) ?_)
  rintro h' (e | ⟨authorized, artifact⟩) -
  · exact failWith_ordinary (by simp)
  · exact Spec.outcomeE (reserveBudget_spec rfl (executeAuthorized_ordinary _ _ _)
      fun e => failWith_ordinary (by simp))

/-- No final message has been answered. -/
def Unanswered (rt : R1Runtime) (h : History) : Prop :=
  ∀ request response final, (⟨.generate request, .ok response⟩ : Event) ∈ h →
    rt.protocolGate.parse response.rawOutput ≠ .ok (.final final)

theorem Unanswered.append (hh : Unanswered rt h) {q : History}
    (hq : ∀ ev ∈ q, ev.op.isOrdinary = true) : Unanswered rt (h ++ q) := by
  intro request response final hmem
  rcases List.mem_append.mp hmem with hmem | hmem
  · exact hh request response final hmem
  · cases hq _ hmem

theorem FinalAfter.of_unanswered {result : Result RunOutcome} (hh : Unanswered rt h)
    (hresult : ∀ final, result ≠ .ok (.final final)) : FinalAfter rt h result where
  produced := fun final heq => absurd heq (hresult final)
  answered := fun request response final hmem hparse =>
    absurd hparse (hh request response final hmem)

/-- The rule for a part of a turn that has nothing to do with a final message. -/
theorem Ordinary.final {x : RuntimeM RunOutcome} (hx : Ordinary h x) (hh : Unanswered rt h) :
    Spec (FinalBefore rt) (FinalAfter rt) h x.run := by
  refine (hx.performs (E := fun ev => ev.op.isOrdinary = true) fun _ _ _ ho => ho).mono
    (fun _ _ ho => .of_ordinary ho) ?_
  rintro h' result ⟨⟨q, rfl, hq⟩, hresult⟩
  exact .of_unanswered (hh.append hq) hresult

namespace Turn

variable (turn : Turn rt)

/-- The model answers once. -/
theorem answer_unique {response response' : ModelResponse} {request : ModelRequest} {q : History}
    (hq : ∀ ev ∈ q, ∀ request, ev.op ≠ .generate request)
    (hmem : (⟨.generate request, .ok response'⟩ : Event)
      ∈ turn.events ++ ⟨.generate turn.request, .ok response⟩ :: q) : response' = response := by
  rcases List.mem_append.mp hmem with hmem | hmem
  · simp [events, Observation.events] at hmem
  rcases List.mem_cons.mp hmem with heq | hmem
  · simp only [Prog.Event.mk.injEq, Op.generate.injEq] at heq
    obtain ⟨rfl, heq⟩ := heq
    exact Except.ok.inj (eq_of_heq heq)
  · exact absurd rfl (hq _ hmem request)

theorem runFinal_returns {response : ModelResponse} {final : FinalResult}
    (hparsed : rt.protocolGate.parse response.rawOutput = .ok (.final final)) :
    Spec (FinalBefore rt) (fun h result => FinalTurn turn response final h result)
      (turn.accepted response)
      (rt.runFinal turn.observation.value turn.attemptId final).run := by
  unfold R1Runtime.runFinal
  refine Spec.opE (.of_ordinary rfl) fun now => ?_
  refine Spec.outcomeE ((acceptModelFinal_returns turn now
    (fun _ _ ho => .of_ordinary (isOrdinary_of_idle ho)) fun accept attemptId heq => ?_).mono
    (fun _ _ h => h) ?_)
  · rw [Op.appendForAttempt.injEq] at heq
    exact ⟨turn, response, final, accept, hparsed, rfl, heq.1.symm⟩
  rintro h (e | ⟨⟩) hreturn
  · refine Spec.callE (.of_ordinary rfl) (fun r _ hr => ?_) fun r e' hr => ?_
    · obtain rfl : r = .ok () := hr
      rcases hreturn with ⟨q, hq, rfl⟩ | hfailed
      · exact Spec.throwE (.refused now q e hq)
      · exact Spec.throwE (.unrecorded _ _ fun hall => hfailed (allAppended_append.mp hall).1)
    · obtain rfl : r = .error e' := hr
      exact .unrecorded _ _ fun hall => by simp [appendFails] at hall
  · obtain ⟨accept, -, rfl⟩ := hreturn
    exact Spec.pureE (.produced accept)

/-- A turn with a final message returns as the specification of `run_once` says. -/
theorem finalAfter {response : ModelResponse} {final : FinalResult} {result : Result RunOutcome}
    (hparsed : rt.protocolGate.parse response.rawOutput = .ok (.final final))
    (hreturn : FinalTurn turn response final h result) : FinalAfter rt h result where
  produced := by
    rintro final' rfl
    cases hreturn with
    | produced accept => exact ⟨turn, response, accept, hparsed, rfl⟩
  answered := by
    intro request response' final' hmem hparsed'
    by_cases hall : AllAppended h
    swap
    · exact .inl hall
    refine .inr ⟨turn, ?_⟩
    have hresponse : response' = response := by
      cases hreturn with
      | produced accept =>
          rw [accepted, List.append_assoc, List.cons_append] at hmem
          refine turn.answer_unique ?_ hmem
          simp [Acceptance.recorded, Acceptance.events, lock]
      | refused now q e hrefused =>
          rw [accepted, List.append_assoc, List.append_assoc, List.cons_append] at hmem
          refine turn.answer_unique ?_ hmem
          cases hrefused <;> simp [lock]
      | unrecorded _ _ hfailed => exact absurd hall hfailed
    rw [hresponse] at hparsed' ⊢
    rw [hparsed] at hparsed'
    cases hparsed'
    exact hreturn

theorem handleResponse_returns (response : ModelResponse) :
    Spec (FinalBefore rt) (FinalAfter rt)
      (turn.events ++ [⟨.generate turn.request, .ok response⟩])
      (rt.handleResponse turn.observation.context turn.observation.value turn.attemptId
        response).run := by
  -- a message that is not final leaves nothing answered
  have hother {q : History} (hq : ∀ ev ∈ q, ev.op.isOrdinary = true)
      (hparse : ∀ final, rt.protocolGate.parse response.rawOutput ≠ .ok (.final final)) :
      Unanswered rt (turn.events ++ ⟨.generate turn.request, .ok response⟩ :: q) := by
    intro request response' final hmem
    have hgenerate : ∀ ev ∈ q, ∀ request, ev.op ≠ .generate request := by
      intro ev hev request heq
      have hordinary := hq ev hev
      rw [heq] at hordinary
      cases hordinary
    rw [turn.answer_unique hgenerate hmem]
    exact hparse final
  unfold R1Runtime.handleResponse
  cases hparsed : rt.protocolGate.parse response.rawOutput with
  | error error =>
      refine Ordinary.final (failWith_ordinary (by simp)) (hother (by simp) fun final heq => ?_)
      rw [hparsed] at heq
      cases heq
  | ok message =>
      refine Spec.callE (.of_ordinary rfl) (fun r _ hr => ?_) fun r e hr => ?_
      swap
      · obtain rfl : r = .error e := hr
        rw [List.append_assoc]
        exact ⟨fun _ heq => (by cases heq), fun _ _ _ _ _ => .inl fun hall => by
          simp [appendFails] at hall⟩
      obtain rfl : r = .ok () := hr
      rw [List.append_assoc]
      cases message with
      | toolCall proposal =>
          refine Ordinary.final (runToolCall_ordinary _ _ _) (hother ?_ fun final heq => ?_)
          · simp [Op.isOrdinary]
          · rw [hparsed] at heq
            cases heq
      | final final =>
          refine (turn.runFinal_returns hparsed).mono (fun _ _ h => h) ?_
          intro h result hreturn
          exact turn.finalAfter hparsed hreturn

end Turn

theorem runOnce_returns : Spec (FinalBefore rt) (FinalAfter rt) [] rt.runOnce.run := by
  have hordinary {o : Op} (ho : o.isOrdinary = true) (h : History) : FinalBefore rt h o :=
    .of_ordinary ho
  -- a turn that does not get to the model has answered nothing
  have hquiet {h : History} {e : RuntimeError}
      (hh : ∀ ev ∈ h, ∀ request, ev.op ≠ .generate request) : FinalAfter rt h (.error e) :=
    .of_unanswered (fun request _ _ hmem => absurd rfl (hh _ hmem request))
      fun _ heq => by cases heq
  unfold R1Runtime.runOnce
  refine Spec.opE (hordinary rfl _) fun context => Spec.opE (hordinary rfl _) fun now => ?_
  refine Spec.bindE ((observe_spec (fun _ _ ho => hordinary (isOrdinary_of_quiet ho) _) context
    now).mono (fun _ _ h => h) ?_)
  rintro h (e | value) hreturn
  · obtain ⟨q, rfl, hq⟩ := hreturn
    refine hquiet fun ev hev request heq => ?_
    have hread := hq ev hev
    rw [quiet, heq] at hread
    cases hread
  obtain ⟨observation, rfl, rfl, rfl⟩ := hreturn
  refine Spec.bindE (reserveBudget_spec (hordinary rfl _) ?_ fun e => hquiet ?_)
  swap
  · simp [Observation.events]
  refine Spec.ofResultE (fun instruction _ => ?_) fun e _ => hquiet ?_
  swap
  · simp [Observation.events]
  refine Spec.opE (hordinary rfl _) fun attemptId => ?_
  let turn : Turn rt := ⟨observation, instruction, attemptId⟩
  rw [List.append_assoc]
  refine Spec.opE (fun _ heq => by cases heq) fun r => ?_
  cases r with
  | error error =>
      refine Ordinary.final (failWith_ordinary (by simp)) ?_
      intro request response final hmem
      simp [Observation.events] at hmem
  | ok response => exact turn.handleResponse_returns response

end

-- ============================================================================
-- The guard of the context
-- ============================================================================

section
variable {t t' : Nat} {o : Op} {input : Input} {w : World}

/-- Only a write changes the context. -/
theorem exec_context (h : ∀ context, o ≠ .writeContext context) :
    (Op.exec t o input w).2.semanticContext = w.semanticContext := by
  cases o with
  | writeContext context => exact absurd rfl (h context)
  | lockActiveChain =>
      simp only [Op.exec]
      split <;> rfl
  | kernelOp =>
      simp only [Op.exec]
      split <;> rfl
  | replaceTool =>
      simp only [Op.exec]
      split <;> rfl
  | reserve counter limit =>
      cases counter <;>
        · simp only [Op.exec, World.reserve]
          split <;> rfl
  | appendForAttempt =>
      simp only [Op.exec]
      split <;> rfl
  | insertAuthorization =>
      simp only [Op.exec, World.onStore]
      split <;> rfl
  | consume =>
      simp only [Op.exec, World.consume, World.onStore]
      split <;> split <;> rfl
  | _ => rfl

/-- While a thread holds the read guard of the context, the context does not change. -/
theorem exec_context_of_reader (enabled : Op.enabled t' o w) (held : t ∈ w.contextReaders) :
    (Op.exec t' o input w).2.semanticContext = w.semanticContext := by
  refine exec_context fun context heq => ?_
  subst heq
  have hnone : w.contextReaders = [] := enabled
  rw [hnone] at held
  cases held

/-- Only a thread itself gives its read guard of the context up. -/
theorem exec_keeps_contextReader (h : o = .unlockContext → t' ≠ t) (held : t ∈ w.contextReaders) :
    t ∈ (Op.exec t' o input w).2.contextReaders := by
  cases o with
  | unlockContext => exact (List.mem_erase_of_ne (Ne.symm (h rfl))).mpr held
  | lockContext => exact List.mem_cons_of_mem _ held
  | lockActiveChain =>
      simp only [Op.exec]
      split <;> exact held
  | kernelOp =>
      simp only [Op.exec]
      split <;> exact held
  | replaceTool =>
      simp only [Op.exec]
      split <;> exact held
  | reserve counter limit =>
      cases counter <;>
        · simp only [Op.exec, World.reserve]
          split <;> exact held
  | appendForAttempt =>
      simp only [Op.exec]
      split <;> exact held
  | insertAuthorization =>
      simp only [Op.exec, World.onStore]
      split <;> exact held
  | consume =>
      simp only [Op.exec, World.consume, World.onStore]
      split <;> split <;> exact held
  | _ => exact held

end

section
variable {init : World} {admits : World → Op → Input → Prop}
  {maySpawn : SystemState → Call → Prop} {c : SystemState}

/-- From the moment a thread takes the read guard of the context until it gives it up,
    the context is the one it read. -/
theorem context_eq_of_guarded (run : Run rt.system init admits maySpawn c) {i j : Nat} {e : Step}
    (he : c.trace[i]? = some e) {context : SemanticContext}
    (hlock : e.event = ⟨.lockContext, context⟩) (hij : i < j) (hj : j ≤ c.trace.length)
    (hheld : ∀ l e', i < l → l < j → c.trace[l]? = some e' → e'.tid = e.tid →
      e'.op ≠ .unlockContext) : (c.worldAt j).semanticContext = context := by
  obtain ⟨t, o, input, r, pre, post⟩ := e
  cases hlock
  obtain ⟨-, hpost⟩ := run.linked.2 i _ he
  have hexec : Op.exec t .lockContext input pre = (r, post) := exec_eq run he
  have htaken : post.semanticContext = r ∧ t ∈ post.contextReaders := by
    cases hexec
    exact ⟨rfl, List.mem_cons_self⟩
  have hinv : (c.worldAt j).semanticContext = r ∧ t ∈ (c.worldAt j).contextReaders := by
    refine run.persists (I := fun w => w.semanticContext = r ∧ t ∈ w.contextReaders)
      hij hj ?_ ?_
    · rw [← hpost]
      exact htaken
    · rintro l e' hil hlj he' ⟨hcontext, hreader⟩
      have hsame : (Op.exec e'.tid e'.op e'.input e'.pre).2.semanticContext
          = e'.pre.semanticContext := exec_context_of_reader (run.stepped he').enabled hreader
      have hkeeps : t ∈ (Op.exec e'.tid e'.op e'.input e'.pre).2.contextReaders :=
        exec_keeps_contextReader (fun heq htid => hheld l e' hil hlj he' htid heq) hreader
      rw [post_eq run he'] at hsame hkeeps
      exact ⟨hsame.trans hcontext, hkeeps⟩
  exact hinv.1

-- ============================================================================
-- The positions of an acceptance
-- ============================================================================

/-- The validation of an observation. -/
def Observation.validation (observation : Observation rt) : Event :=
  ⟨.validateActiveChain observation.lease.certificate.leaseId
    (some observation.lease.record.generation) observation.lease.manifest observation.now,
    .ok observation.validated⟩

/-- What makes the record at position `k` one of a result under unchanged authority. The
    chain was observed at `v` and the model called at `u`; the clock of the acceptance was
    read at `n`, the chain validated under the read guard at `g`. -/
structure FinalAt (c : SystemState) (turn : Turn rt) (accept : Acceptance turn)
    (path : List (LeaseId × LeaseEntry)) (t v u n g k : Nat) : Prop where
  order : v < u ∧ u < n ∧ n < g ∧ g < k
  observed : ∃ e, c.trace[v]? = some e ∧ e.tid = t ∧ e.event = turn.observation.validation
  asked : ∃ e, c.trace[u]? = some e ∧ e.tid = t ∧ e.op = .generate turn.request
  clock : ∃ e, c.trace[n]? = some e ∧ e.tid = t ∧ e.event = ⟨.utcNow, accept.now⟩
  locked : ∃ e, c.trace[g]? = some e ∧ e.tid = t ∧
    e.event = ⟨turn.lock accept.now, .ok accept.validated⟩
  /-- The chain that was observed. -/
  generations : turn.observation.validated.observedGenerations
    = path.reverse.map fun node => (node.1, node.2.record.generation)
  /-- From `v` to `k` it is the same chain, in the same states and generations. -/
  chain : ∀ l, v ≤ l → l ≤ k →
    LeasePath (c.worldAt l).kernel turn.observation.lease.certificate.leaseId path
  active : ∀ node ∈ path, node.2.ActiveAt accept.now
  context : ∃ leaf, (turn.observation.lease.certificate.leaseId, leaf) ∈ path ∧
    (c.worldAt k).semanticContext.canonicalDigest = .ok leaf.certificate.semanticContextDigest

theorem checkUnchanged_generations {observation : ModelAuthorityObservation}
    {validated : ValidatedAuthority} (h : observation.checkUnchanged validated = .ok ()) :
    validated.observedGenerations = observation.validated.observedGenerations := by
  simp only [ModelAuthorityObservation.checkUnchanged, Except.bind_eq_ok, rejectIf_eq_ok,
    not_not] at h
  exact h.choose_spec.1

/-- Wherever an acceptance has come to the record of its result, it stands under
    unchanged authority. -/
theorem finalAt_of_accepted (run : Run rt.system init admits maySpawn c)
    (hfresh : ∀ w o input, admits w o input → FreshIds w o input) {turn : Turn rt}
    {response : ModelResponse} (accept : Acceptance turn) {t k : Nat} (hk : k ≤ c.trace.length)
    (hhist : historyOf (c.trace.take k) t = turn.accepted response ++ accept.events) :
    ∃ path v u n g, FinalAt c turn accept path t v u n g k := by
  have hsplit : historyOf (c.trace.take k) t = (turn.accepted response ++ [⟨.utcNow, accept.now⟩])
      ++ ⟨turn.lock accept.now, .ok accept.validated⟩ :: [⟨.lockContext, accept.context⟩] := by
    rw [hhist]
    simp [Acceptance.events]
  -- under the guard, the thread takes the guard of the context and does nothing else
  obtain ⟨g, hgk, ⟨eg, hg, htg, hevg⟩, hbefore, hvalid', hguard⟩ :=
    exists_guarded run hk hsplit (by simp)
  obtain ⟨n, en, hng, hn, htn, hevn, hbefore, -⟩ := exists_position hbefore
  have hsplit : historyOf (c.trace.take n) t = turn.events
      ++ ⟨.generate turn.request, .ok response⟩ ::
        [⟨.appendForAttempt turn.attemptId .protocolAccepted, .ok ()⟩] := by
    rw [hbefore]
    rfl
  obtain ⟨u, eu, hun, hu, htu, hevu, hbefore, -⟩ := exists_position hsplit
  have hsplit : historyOf (c.trace.take u) t = turn.observation.events.take 4
      ++ turn.observation.validation :: [⟨.reserve .steps (rt.limit .steps), true⟩,
        ⟨.beginAttempt, turn.attemptId⟩] := by
    rw [hbefore]
    rfl
  obtain ⟨v, ev, hvu, hv, htv, hevv, -, -⟩ := exists_position hsplit
  have hsplit : historyOf (c.trace.take k) t = (turn.accepted response ++ accept.events.take 2)
      ++ ⟨.lockContext, accept.context⟩ :: [] := by
    rw [hhist]
    simp [Acceptance.events]
  obtain ⟨m, em, hmk, hm, htm, hevm, -, hafter⟩ := exists_position hsplit
  have hcontext : (c.worldAt k).semanticContext = accept.context := by
    refine context_eq_of_guarded run hm hevm hmk hk fun i e hmi hik hi htid _ => ?_
    exact List.not_mem_nil (hafter i e hmi hik hi (htid.trans htm))
  have hvalid := resp_eq run hv hevv
  obtain ⟨leaf, path, hobserved, haccepted, hsince⟩ := chain_between run hfresh (by omega)
    (by omega) hvalid hvalid' (checkUnchanged_generations accept.unchanged)
  refine ⟨path, v, u, n, g, ?_⟩
  exact
    { order := ⟨hvu, hun, hng, by omega⟩
      observed := ⟨ev, hv, htv, hevv⟩
      asked := ⟨eu, hu, htu, congrArg Prog.Event.op hevu⟩
      clock := ⟨en, hn, htn, hevn⟩
      locked := ⟨eg, hg, htg, hevg⟩
      generations := hobserved.generations_eq
      chain := fun l hvl hlk => by
        rcases Nat.le_total l g with hlg | hgl
        · exact hsince l hvl hlg
        · rw [hguard l hgl hlk]
          exact hsince g (by omega) le_rfl
      active := fun node hnode => haccepted.active hnode
      context := by
        refine ⟨leaf, hobserved.leaf_mem, ?_⟩
        rw [hcontext, ← hobserved.contextDigest_eq]
        exact validateContextContinuation_eq_ok.mp accept.continuation }

end

-- ============================================================================
-- Final results in runs
-- ============================================================================

/-- The specification of `run_once`, as one of every call. -/
theorem code_returns (rt : R1Runtime) (call : Call) :
    Spec (fun h o => call = .runOnce → FinalBefore rt h o)
      (fun h outcome => call = .runOnce → ∃ result, outcome = .ran result ∧ FinalAfter rt h result)
      [] (rt.code call) := by
  by_cases hcall : call = .runOnce
  · subst hcall
    exact Spec.map (runOnce_returns.mono (fun _ _ h _ => h) fun _ result h _ => ⟨result, rfl, h⟩)
  · exact (Spec.trivial [] (rt.code call)).mono (fun _ _ _ h => absurd h hcall)
      fun _ _ _ h => absurd h hcall

/-- The version of a context is no part of what is compared. -/
theorem Observation.continues (observation : Observation rt) (version : UInt64) :
    validateContextContinuation observation.validated.semanticContextDigest
      { observation.context with contextVersion := version } = .ok () :=
  observation.continuation

theorem Refused.wordOf_eq {turn : Turn rt} {now : DateTime} {q : History} {e : RuntimeError}
    (h : Refused turn now q e) : wordOf q = [] := by
  refine wordOf_of_idle ?_
  cases h <;> simp [Turn.lock, idle]

variable {init : World} {c : SystemState}

/-- Only calls of `run_once` return like calls of `run_once`. -/
theorem call_of_ran {admits : World → Op → Input → Prop} {maySpawn : SystemState → Call → Prop}
    (run : Run rt.system init admits maySpawn c) {t : Nat}
    {thread : Thread Op Call Outcome Op.Resp} {result : Result RunOutcome}
    (hthread : c.threads[t]? = some thread) (hprog : thread.prog = .ret (.ran result)) :
    thread.call = .runOnce := by
  have hafter := after_of_returned run hthread hprog
  cases hcall : thread.call with
  | runOnce => rfl
  | _ =>
      rw [hcall] at hafter
      obtain ⟨result, heq, -⟩ := hafter
      cases heq

/-- How a thread has returned that ran a turn. -/
theorem finalAfter_of_ran {admits : World → Op → Input → Prop}
    {maySpawn : SystemState → Call → Prop} (run : Run rt.system init admits maySpawn c) {t : Nat}
    {thread : Thread Op Call Outcome Op.Resp} {result : Result RunOutcome}
    (hthread : c.threads[t]? = some thread) (hprog : thread.prog = .ret (.ran result)) :
    FinalAfter rt (historyOf c.trace t) result := by
  have hafter := run.spec_rest (code_returns rt) hthread
  rw [hprog] at hafter
  obtain ⟨result', heq, hafter⟩ := hafter (call_of_ran run hthread hprog)
  cases heq
  exact hafter

end

end GenesisRuntime
