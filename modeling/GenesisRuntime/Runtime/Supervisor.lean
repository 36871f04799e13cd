/-
  GenesisRuntime.Runtime.Supervisor

  `supervisor.rs`: the bootstrap of a runtime, one turn of its agent, and its
  control plane; and the system that calls of all these kinds make up.
-/

import GenesisRuntime.Runtime.Execution

namespace GenesisRuntime

open Prog (outcomeOf)

/-- `RunOutcome`. -/
inductive RunOutcome where
  | executed (output : ToolOutput)
  | final (result : FinalResult)

section
variable [Externals]

-- ============================================================================
-- Bootstrap
-- ============================================================================

/-- What `bootstrap_r2` gets from its environment: the clock at the bootstrap and
    at the four appends, the UUIDs of the key and of the root lease, and the model's
    and the generator's answers. -/
structure BootstrapInput where
  now : DateTime
  keyUuid : String
  leaseUuid : String
  generateKey : KeyId → Result KeyCustody
  modelManifestDigest : ModelRef → Result Digest
  hypervisorFails : Bool
  appendTimes : DateTime × DateTime × DateTime × DateTime

/-- The checks of `bootstrap_r2` on the mission and the specification. -/
def checkActivation (mission : MissionEnvelope) (spec : AgentSpec) (now : DateTime) :
    Result Unit := do
  spec.validate
  rejectIf (¬ mission.active ∨ mission.expiresAt ≤ now) .missionInactive
    "mission is inactive or expired"
  rejectIf (mission.maxActions = 0 ∨ spec.resourceBudget.maxSteps = 0) .budgetExhausted
    "mission action and agent step budgets must be non-zero"
  rejectIf (capabilityAll ∈ mission.allowedCapabilities
      ∨ capabilityAll ∈ spec.requestedAuthority.capabilities) .capabilityAllForbidden
    "Capability::All is forbidden for synthesized agents"
  let missionAuthority ← AuthoritySet.new mission.allowedCapabilities
  let requestedAuthority ← AuthoritySet.new spec.requestedAuthority.capabilities
  rejectIf (¬ requestedAuthority.isSubsetOf missionAuthority) .capabilityOutsideAuthority
    "requested authority exceeds the mission envelope"
  rejectIf (∃ toolId ∈ spec.requestedTools, toolId ∉ mission.allowedTools) .toolOutsideMission
    "requested tool is outside the mission allowlist"

/-- `bootstrap_r2`. -/
def R1Runtime.bootstrapR2 (mission : MissionEnvelope) (agentId : AgentId) (spec : AgentSpec)
    (registry : ToolRegistry) (contextVersion : UInt64) (delegableAuthority : AuthoritySet)
    (input : BootstrapInput) : Result (R1Runtime × World) := do
  checkActivation mission spec input.now
  let registrySnapshot ← registry.snapshot spec.requestedTools
  let modelManifestDigest ← input.modelManifestDigest spec.requestedModel
  let resolver ← ContextResolver.forR1 modelManifestDigest mission.policyEpoch contextVersion
  let semanticContext ← resolver.resolve spec registrySnapshot
  let semanticContextDigest ← semanticContext.canonicalDigest
  let runtimeConfigDigest ← canonicalDigest "aeon-r1-runtime-config-v1"
    (mission.maxActions, spec.resourceBudget.maxSteps)
  let capabilityManifest : CapabilityManifest :=
    { version := 1
      modelManifestDigest := semanticContext.modelManifestDigest
      approvedTools := registrySnapshot.boundTools
      permissions := ⟨spec.requestedAuthority.capabilities⟩
      runtimeConfigDigest := runtimeConfigDigest
      toolRegistryRootDigest := semanticContext.toolRegistryRootDigest }
  let leaseExpiry := min mission.expiresAt (input.now + Duration.minutes 5)
  let keyCustody ← input.generateKey (← Identifier.new _ ("key-" ++ input.keyUuid))
  let kernel ← GenesisRuntime.bootstrap
    { mission := mission
      agentId := agentId
      grantedAuthority := ← AuthoritySet.new spec.requestedAuthority.capabilities
      delegableAuthority := delegableAuthority
      capabilityManifest := capabilityManifest
      semanticContextDigest := semanticContextDigest
      expiresAt := leaseExpiry }
    keyCustody input.now input.leaseUuid
  rejectIf input.hypervisorFails .executionFailed "Nexus initialization failed"
  let store := InMemoryMissionStore.new mission
  let store := store.append .missionCreated input.appendTimes.1
  let store := store.append .contextResolved input.appendTimes.2.1
  let store := store.append .leaseIssued input.appendTimes.2.2.1
  let store := store.append .agentActivated input.appendTimes.2.2.2
  return (
    { mission := mission
      agentId := agentId
      spec := spec
      keyCustody := keyCustody
      protocolGate := ProtocolGate.default },
    { kernel := kernel
      kernelReaders := []
      semanticContext := semanticContext
      contextReaders := []
      registry := registry
      store := store
      actionCertificates := []
      stepsConsumed := 0
      actionsConsumed := 0
      tokens := [] })

-- ============================================================================
-- One turn
-- ============================================================================

/-- `reserve_budget`. -/
def reserveBudget (counter : BudgetCounter) (limit : UInt64) (budgetName : String) :
    RuntimeM Unit := do
  let reserved ← perform (.reserve counter limit)
  rejectIf (reserved = false) .budgetExhausted s!"{budgetName} budget exhausted"

/-- `ModelAuthorityObservation`. -/
structure ModelAuthorityObservation where
  lease : LeaseSnapshot
  validated : ValidatedAuthority

/-- The comparisons of `accept_model_final`. -/
def ModelAuthorityObservation.checkUnchanged (observation : ModelAuthorityObservation)
    (validated : ValidatedAuthority) : Result Unit := do
  rejectIf (validated.observedGenerations ≠ observation.validated.observedGenerations)
    .leaseGenerationMismatch "authority generations changed during model generation"
  rejectIf (validated.chain ≠ observation.validated.chain
      ∨ validated.agentIdentityDigest ≠ observation.validated.agentIdentityDigest
      ∨ validated.capabilityManifestDigest ≠ observation.validated.capabilityManifestDigest
      ∨ validated.semanticContextDigest ≠ observation.validated.semanticContextDigest)
    .authorizationInvalid "authority binding changed during model generation"

namespace R1Runtime

/-- `active_lease_snapshot`. -/
def activeLeaseSnapshot : RuntimeM LeaseSnapshot := do
  AuthorityKernel.leaseSnapshot (← perform .rootLeaseId)

/-- `observe_model_authority`. -/
def observeModelAuthority (rt : R1Runtime) (semanticContext : SemanticContext)
    (now : DateTime) : RuntimeM ModelAuthorityObservation := do
  rejectIf (¬ rt.mission.isUsableAt now) .missionInactive "mission is inactive or expired"
  let active ← activeLeaseSnapshot
  rejectIf (¬ boundTo active.certificate rt.agentId rt.mission) .authorizationInvalid
    "active authority does not match the runtime binding"
  let validated ← AuthorityKernel.validateActiveChain active.certificate.leaseId
    (some active.record.generation) active.manifest now
  ofResult (validateContextContinuation validated.semanticContextDigest semanticContext)
  return ⟨active, validated⟩

/-- The closure of `accept_model_final`. The read guard of the context goes with the
    closure, however it returns. -/
def commitFinal (observation : ModelAuthorityObservation) (attemptId : Nat)
    (validated : ValidatedAuthority) : RuntimeM Unit := do
  ofResult (observation.checkUnchanged validated)
  let currentContext ← perform .lockContext
  let appended ← outcomeOf do
    ofResult (validateContextContinuation observation.validated.semanticContextDigest
      currentContext)
    appendForAttempt attemptId .finalProduced
  perform .unlockContext
  ofResult appended

/-- `accept_model_final`. -/
def acceptModelFinal (rt : R1Runtime) (observation : ModelAuthorityObservation)
    (attemptId : Nat) (now : DateTime) : RuntimeM Unit := do
  rejectIf (¬ rt.mission.isUsableAt now) .missionInactive
    "mission became inactive or expired during model generation"
  AuthorityKernel.commitActiveChain observation.lease.certificate.leaseId
    (some observation.lease.record.generation) observation.lease.manifest now
    (commitFinal observation attemptId)

/-- The request of the action gate that `run_once` makes. -/
def authorizeRequest (rt : R1Runtime) (leaseId : LeaseId) (semanticContext : SemanticContext)
    (proposal : ToolCallProposal) (now : DateTime) : AuthorizeRequest where
  mission := rt.mission
  agentId := rt.agentId
  leaseId := leaseId
  currentContext := semanticContext
  proposalToolId := proposal.toolId
  arguments := proposal.arguments
  keyCustody := rt.keyCustody
  now := now

/-- Record the terminal event of an attempt that failed, and fail. -/
def failWith {α : Type} (attemptId : Nat) (kind : ErrorCode → MissionEventKind)
    (error : RuntimeError) : RuntimeM α := do
  appendForAttempt attemptId (kind error.code)
  throw error

/-- The tail of `run_once` for a tool call that is authorized and reserved. -/
def executeAuthorized (rt : R1Runtime) (attemptId : Nat) (authorized : AuthorizedExecution)
    (artifact : R1AuthorizationArtifact) : RuntimeM RunOutcome := do
  appendForAttempt attemptId .actionAuthorized
  appendForAttempt attemptId .authorizationIssued
  match ← perform (.insertAuthorization attemptId artifact.record) with
  | .error error => failWith attemptId .executionRejectedBeforeNexus error
  | .ok () =>
      perform (.pushCertificate artifact.certificate)
      match ← outcomeOf (NexusExecutionPort.execute rt.keyCustody authorized attemptId) with
      | .error positioned =>
          match positioned.position with
          | .beforeNexus => failWith attemptId .executionRejectedBeforeNexus positioned.error
          | .started => failWith attemptId .executionFailed positioned.error
      | .ok output =>
          if output.success then
            appendForAttempt attemptId .executionCompleted
          else
            appendForAttempt attemptId (.executionFailed .executionFailed)
          return .executed output

/-- The branch of `run_once` for a tool call. -/
def runToolCall (rt : R1Runtime) (semanticContext : SemanticContext) (attemptId : Nat)
    (proposal : ToolCallProposal) : RuntimeM RunOutcome := do
  appendForAttempt attemptId .planAccepted
  let activeLeaseId ← perform .rootLeaseId
  let now ← perform .utcNow
  match ← outcomeOf (ActionGate.authorize
      (rt.authorizeRequest activeLeaseId semanticContext proposal now)) with
  | .error error => failWith attemptId .actionRejected error
  | .ok (authorized, artifact) =>
      match ← outcomeOf (reserveBudget .actions rt.mission.maxActions "mission action") with
      | .error error => failWith attemptId .actionRejected error
      | .ok () => executeAuthorized rt attemptId authorized artifact

/-- The branch of `run_once` for a final message. -/
def runFinal (rt : R1Runtime) (observation : ModelAuthorityObservation) (attemptId : Nat)
    (result : FinalResult) : RuntimeM RunOutcome := do
  let now ← perform .utcNow
  match ← outcomeOf (acceptModelFinal rt observation attemptId now) with
  | .error error => failWith attemptId .finalRejected error
  | .ok () => return .final result

/-- The part of `run_once` from the response of the model on. -/
def handleResponse (rt : R1Runtime) (semanticContext : SemanticContext)
    (observation : ModelAuthorityObservation) (attemptId : Nat) (response : ModelResponse) :
    RuntimeM RunOutcome := do
  match rt.protocolGate.parse response.rawOutput with
  | .error error => failWith attemptId .protocolRejected error
  | .ok message =>
      appendForAttempt attemptId .protocolAccepted
      match message with
      | .final result => runFinal rt observation attemptId result
      | .toolCall proposal => runToolCall rt semanticContext attemptId proposal

/-- `run_once`. -/
def runOnce (rt : R1Runtime) : RuntimeM RunOutcome := do
  let semanticContext ← perform .readContext
  let observation ← observeModelAuthority rt semanticContext (← perform .utcNow)
  reserveBudget .steps rt.spec.resourceBudget.maxSteps "agent step"
  let instruction ← ofResult (resolvedSystemInstruction rt.spec)
  let attemptId ← perform .beginAttempt
  let request : ModelRequest :=
    { agentId := rt.agentId
      spec := rt.spec
      semanticContext := semanticContext
      resolvedSystemInstruction := instruction }
  match ← perform (.generate request) with
  | .error error => failWith attemptId .modelFailed error
  | .ok response => handleResponse rt semanticContext observation attemptId response

-- ============================================================================
-- The control plane
-- ============================================================================

/-- What a call of the control plane returns. -/
inductive ControlReturn where
  | kernel (returned : KernelReturn)
  | snapshot (snapshot : LeaseSnapshot)
  | done

/-- Run an operation of the kernel. -/
def kernelOp (op : KernelOp) : RuntimeM ControlReturn := do
  return .kernel (← ofResult (← perform (.kernelOp op)))

/-- `pause`. -/
def pause : RuntimeM ControlReturn := do
  let active ← activeLeaseSnapshot
  kernelOp (.pause active.certificate.leaseId active.record.generation (← perform .utcNow))

/-- `resume`. -/
def resume : RuntimeM ControlReturn := do
  let active ← activeLeaseSnapshot
  kernelOp (.resume active.certificate.leaseId active.record.generation (← perform .utcNow))

/-- `revoke`. -/
def revoke (reason : String) : RuntimeM ControlReturn := do
  let active ← activeLeaseSnapshot
  kernelOp (.revoke active.certificate.leaseId active.record.generation reason
    (← perform .utcNow))

/-- `renew`. -/
def renew (expiresAt : DateTime) : RuntimeM ControlReturn := do
  let active ← activeLeaseSnapshot
  let liveManifest ← ofResult (← perform (.refreshManifest active.manifest))
  let semanticContextDigest ← ofResult (← perform .readContext).canonicalDigest
  let request : RenewalRequest :=
    { leaseId := active.certificate.leaseId
      expectedGeneration := active.record.generation
      grantedAuthority := active.certificate.grantedAuthority
      delegableAuthority := active.certificate.delegableAuthority
      capabilityManifest := liveManifest
      semanticContextDigest := semanticContextDigest
      expiresAt := expiresAt }
  match ← kernelOp (.renew request (← perform .utcNow)) with
  | .kernel (.lease renewedId) => return .snapshot (← AuthorityKernel.leaseSnapshot renewedId)
  | returned => return returned

/-- `refresh_expirations`. -/
def refreshExpirations : RuntimeM ControlReturn := do
  kernelOp (.refreshExpirations (← perform .utcNow))

end R1Runtime

-- ============================================================================
-- The system
-- ============================================================================

/-- A call, with its arguments. -/
inductive Call where
  | runOnce
  | pause
  | resume
  | revoke (reason : String)
  | renew (expiresAt : DateTime)
  | refreshExpirations
  /-- A direct use of a handle of the kernel. -/
  | kernelOp (op : KernelOp)
  /-- A replacement of the semantic context. -/
  | writeContext (context : SemanticContext)
  /-- `ToolRegistry::replace`. -/
  | replaceTool (replacement : RegisteredTool)
  /-- `ActionGate::authorize`, called directly. -/
  | authorize (request : AuthorizeRequest)
  /-- `NexusExecutionPort::execute`, called directly. -/
  | execute (authorized : AuthorizedExecution) (attemptId : Nat)

/-- What a call returns. -/
inductive Outcome where
  | ran (result : Result RunOutcome)
  | controlled (result : Result R1Runtime.ControlReturn)
  | authorized (result : Result (AuthorizedExecution × R1AuthorizationArtifact))
  | executed (result : Except PositionedExecutionError ToolOutput)

/-- The calls the public interface of a runtime offers, and those of the control
    plane around it. -/
def Call.isPublic : Call → Bool
  | .authorize _ | .execute _ _ => false
  | _ => true

/-- What a call performs. -/
def R1Runtime.code (rt : R1Runtime) : Call → Prog Op Op.Resp Outcome
  | .runOnce => .ran <$> (R1Runtime.runOnce rt).run
  | .pause => .controlled <$> R1Runtime.pause.run
  | .resume => .controlled <$> R1Runtime.resume.run
  | .revoke reason => .controlled <$> (R1Runtime.revoke reason).run
  | .renew expiresAt => .controlled <$> (R1Runtime.renew expiresAt).run
  | .refreshExpirations => .controlled <$> R1Runtime.refreshExpirations.run
  | .kernelOp op => .controlled <$> (R1Runtime.kernelOp op).run
  | .writeContext context => .controlled <$> ExceptT.run do
      perform (.writeContext context)
      return .done
  | .replaceTool replacement => .controlled <$> ExceptT.run do
      ofResult (← perform (.replaceTool replacement))
      return .done
  | .authorize request => .authorized <$> (ActionGate.authorize request).run
  | .execute authorized attemptId =>
      .executed <$> (NexusExecutionPort.execute rt.keyCustody authorized attemptId).run

/-- Any number of calls on one runtime. -/
def R1Runtime.system (rt : R1Runtime) : System World Op Input Call Outcome Op.Resp where
  enabled := Op.enabled
  exec := Op.exec
  code := rt.code

end

end GenesisRuntime
