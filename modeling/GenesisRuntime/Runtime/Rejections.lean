/-
  GenesisRuntime.Runtime.Rejections

  Where a turn records that its action was rejected before Nexus: the exits of
  `execute` until Nexus is entered, and that `run_once` records a rejection at
  these alone.
-/

import GenesisRuntime.Runtime.Acceptance
import GenesisRuntime.Runtime.Validity

namespace GenesisRuntime

open Prog (Spec outcomeOf)

section
variable [Externals]

-- ============================================================================
-- The exits of `execute`
-- ============================================================================

/-- What `execute` has done, and found, where it fails before Nexus is entered. -/
inductive Blocked (keyCustody : KeyCustody) (authorized : AuthorizedExecution)
    (attemptId : Nat) : History → Prop where
  | tool (r : Result (RegisteredTool × CapabilityManifest))
      (h : ∀ tool liveManifest, r = .ok (tool, liveManifest) →
        tool.manifestDigest ≠ .ok authorized.toolManifestDigest) :
      Blocked keyCustody authorized attemptId
        [⟨.resolve authorized.toolId authorized.capabilityManifest, r⟩]
  | generation (r : Result (RegisteredTool × CapabilityManifest))
      (h : authorized.leafGeneration = none) :
      Blocked keyCustody authorized attemptId
        [⟨.resolve authorized.toolId authorized.capabilityManifest, r⟩]
  | chain (tool : RegisteredTool) (liveManifest : CapabilityManifest) (generation : Nat)
      (now : DateTime) (e : RuntimeError) (h : authorized.leafGeneration = some generation) :
      Blocked keyCustody authorized attemptId
        [⟨.resolve authorized.toolId authorized.capabilityManifest, .ok (tool, liveManifest)⟩,
         ⟨.utcNow, now⟩,
         ⟨.lockActiveChain authorized.certificate.authorityLeaseId (some generation) liveManifest
           now, .error e⟩]
  | authority (tool : RegisteredTool) (liveManifest : CapabilityManifest) (generation : Nat)
      (now : DateTime) (validated : ValidatedAuthority)
      (hgeneration : authorized.leafGeneration = some generation)
      (h : authorized.checkAuthority liveManifest validated ≠ .ok ()) :
      Blocked keyCustody authorized attemptId
        [⟨.resolve authorized.toolId authorized.capabilityManifest, .ok (tool, liveManifest)⟩,
         ⟨.utcNow, now⟩,
         ⟨.lockActiveChain authorized.certificate.authorityLeaseId (some generation) liveManifest
           now, .ok validated⟩,
         ⟨.unlockKernel, ()⟩]
  | context (issuing : Issuing)
      (hauthority : authorized.checkAuthority issuing.liveManifest issuing.validated = .ok ())
      (h : issuing.context.canonicalDigest ≠ .ok issuing.validated.semanticContextDigest) :
      Blocked keyCustody authorized attemptId
        (issuing.events authorized ++ [⟨.unlockKernel, ()⟩])
  | certificate (issuing : Issuing)
      (h : validateActionCertificate authorized.certificate authorized keyCustody
        issuing.commitNow ≠ .ok ()) :
      Blocked keyCustody authorized attemptId
        (issuing.events authorized ++ [⟨.unlockKernel, ()⟩])
  | clock (issuing : Issuing) (issueNow : DateTime)
      (hgeneration : authorized.leafGeneration = some issuing.generation)
      (h : ∀ validity, remainingValidity issuing.validated.leafExpiresAt
        authorized.certificate.expiresAt issueNow ≠ .ok validity) :
      Blocked keyCustody authorized attemptId
        (issuing.events authorized ++ [⟨.utcNow, issueNow⟩, ⟨.unlockKernel, ()⟩])
  | tokens (commit : Commit keyCustody authorized) (e : RuntimeError) :
      Blocked keyCustody authorized attemptId
        (commit.events ++ [⟨commit.consume, .error e⟩, ⟨.unlockKernel, ()⟩])
  | unrecorded (commit : Commit keyCustody authorized) (tokens : List CapabilityToken)
      (e : RuntimeError) : Blocked keyCustody authorized attemptId
        (commit.consumed tokens ++ [⟨.appendForAttempt attemptId .authorizationConsumed, .error e⟩])
  | unstarted (commit : Commit keyCustody authorized) (tokens : List CapabilityToken)
      (e : RuntimeError) : Blocked keyCustody authorized attemptId (commit.consumed tokens
        ++ [⟨.appendForAttempt attemptId .authorizationConsumed, .ok ()⟩,
            ⟨.appendForAttempt attemptId .executionStarted, .error e⟩])

section
variable {P : History → Op → Prop} {keyCustody : KeyCustody} {authorized : AuthorizedExecution}
  {attemptId : Nat} {h : History}

end

-- ============================================================================
-- The signature of the gate
-- ============================================================================

theorem authorize_signs {P : History → Op → Prop} (hP : ∀ h o, o.isQuiet = true → P h o)
    (request : AuthorizeRequest) (h : History) :
    Spec P (fun _ r => ∀ authorized artifact, r = .ok (authorized, artifact) →
      SignedBy request.keyCustody authorized.certificate) h (ActionGate.authorize request).run := by
  have herror {e : RuntimeError} : ∀ authorized artifact,
      (.error e : Result (AuthorizedExecution × R1AuthorizationArtifact))
        = .ok (authorized, artifact) →
      SignedBy request.keyCustody authorized.certificate := fun _ _ heq => by cases heq
  unfold ActionGate.authorize
  refine Spec.rejectIfE (fun _ => ?_) fun e => herror
  refine Spec.rejectIfE (fun _ => ?_) fun e => herror
  refine Spec.callE (hP _ _ rfl) (fun r snapshot hr => ?_) fun r e _ => herror
  refine Spec.opE (hP _ _ rfl) fun r => ?_
  refine Spec.ofResultE (fun resolved hr => ?_) fun e _ => herror
  refine Spec.ofResultE (fun manifestDigest _ => ?_) fun e _ => herror
  refine Spec.orRejectE (fun bound _ => ?_) fun e => herror
  refine Spec.rejectIfE (fun _ => ?_) fun e => herror
  refine Spec.callE (hP _ _ rfl) (fun r validated _ => ?_) fun r e _ => herror
  refine Spec.rejectIfE (fun _ => ?_) fun e => herror
  refine Spec.ofResultE (fun contextDigest _ => ?_) fun e _ => herror
  refine Spec.rejectIfE (fun _ => ?_) fun e => herror
  refine Spec.ofResultE (fun _ _ => ?_) fun e _ => herror
  refine Spec.ofResultE (fun action _ => ?_) fun e _ => herror
  refine Spec.ofResultE (fun actionRef _ => ?_) fun e _ => herror
  refine Spec.ofResultE (fun inputDigest _ => ?_) fun e _ => herror
  refine Spec.opE (hP _ _ rfl) fun uuid => ?_
  refine Spec.ofResultE (fun authorizationId _ => ?_) fun e _ => herror
  refine Spec.opE (hP _ _ rfl) fun uuid' => ?_
  refine Spec.ofResultE (fun certificateId _ => ?_) fun e _ => herror
  refine Spec.ofResultE (fun payload hpayload => ?_) fun e _ => herror
  refine Spec.ofResultE (fun signature hsignature => ?_) fun e _ => herror
  refine Spec.pureE fun authorized artifact heq => ?_
  cases heq
  exact ⟨payload, hpayload, hsignature⟩

-- ============================================================================
-- Before a rejection
-- ============================================================================

/-- What a turn has done where it records that its action was rejected. -/
inductive Stopped {rt : R1Runtime} (call : ToolCall rt) : History → Prop where
  | uninserted (e : RuntimeError) : Stopped call (call.issued
      ++ [⟨.insertAuthorization call.attemptId call.authorization.record, .error e⟩])
  | blocked {q : History}
      (h : Blocked rt.keyCustody call.authorization.execution call.attemptId q) :
      Stopped call (call.inserted ++ q)

/-- What holds before each operation of `run_once`, of rejections. -/
def RejectedBefore (rt : R1Runtime) (h : History) (o : Op) : Prop :=
  ∀ attemptId code, o = .appendForAttempt attemptId (.executionRejectedBeforeNexus code) →
    ∃ call : ToolCall rt, SignedBy rt.keyCustody call.authorization.certificate ∧
      call.attemptId = attemptId ∧ Stopped call h

/-- An operation that does not record a rejection. -/
def Op.isUnrejected : Op → Bool
  | .appendForAttempt _ (.executionRejectedBeforeNexus _) => false
  | _ => true

theorem Op.exists_rejected {o : Op} (ho : o.isUnrejected = false) :
    ∃ attemptId code, o = .appendForAttempt attemptId (.executionRejectedBeforeNexus code) := by
  unfold Op.isUnrejected at ho
  split at ho
  · exact ⟨_, _, rfl⟩
  · cases ho

section
variable {rt : R1Runtime} {h : History}

theorem RejectedBefore.of_idle {o : Op} (ho : ∀ r, idle ⟨o, r⟩ = true) :
    RejectedBefore rt h o := by
  rintro attemptId code rfl
  cases ho (.ok ())

theorem RejectedBefore.of_quiet {o : Op} (ho : o.isQuiet = true) : RejectedBefore rt h o :=
  .of_idle fun _ => idle_of_quiet ho

/-- The insertion of a record. -/
def Op.isInsertion : Op → Bool
  | .insertAuthorization _ _ => true
  | _ => false

/-- No record has been inserted yet. -/
def Uninserted (h : History) : Prop := ∀ ev ∈ h, ev.op.isInsertion = false

theorem Uninserted.append {h' : History} (hh : Uninserted h) (hh' : Uninserted h') :
    Uninserted (h ++ h') := by
  intro ev hev
  rcases List.mem_append.mp hev with hev | hev
  · exact hh ev hev
  · exact hh' ev hev

theorem Uninserted.snoc (hh : Uninserted h) (ev : Event) (hev : ev.op.isInsertion = false) :
    Uninserted (h ++ [ev]) := hh.append (by simpa [Uninserted] using hev)

theorem Turn.uninserted (turn : Turn rt) : Uninserted turn.events := by
  simp [Uninserted, events, Observation.events, Op.isInsertion]

theorem ToolCall.uninserted (call : ToolCall rt) : Uninserted call.reserved := by
  simp [Uninserted, reserved, authorized, planned, Turn.events, Observation.events,
    Authorization.events, Op.isInsertion]

end

end

end GenesisRuntime
