/-
  GenesisRuntime.Runtime.Execution

  `execution.rs`: the action gate, which turns a proposal into a signed
  authorization, and the port that executes an authorized action.
-/

import GenesisRuntime.Runtime.World

namespace GenesisRuntime

open Prog (outcomeOf)

/-- `ExecutionPosition`. -/
inductive ExecutionPosition where
  | beforeNexus
  | started
deriving DecidableEq, Repr

/-- `PositionedExecutionError`. -/
structure PositionedExecutionError where
  error : RuntimeError
  position : ExecutionPosition
deriving DecidableEq

/-- `TOKEN_VALIDITY`. -/
def tokenValidity : Duration := Duration.seconds 30

section
variable [Externals]

-- ============================================================================
-- The authority kernel, as calls use it
-- ============================================================================

namespace AuthorityKernel

/-- `lease_snapshot`. -/
def leaseSnapshot (leaseId : LeaseId) : RuntimeM LeaseSnapshot := do
  ofResult (← perform (.leaseSnapshot leaseId))

/-- `validate_active_chain`. -/
def validateActiveChain (leaseId : LeaseId) (generation : Option Nat)
    (manifest : CapabilityManifest) (now : DateTime) : RuntimeM ValidatedAuthority := do
  ofResult (← perform (.validateActiveChain leaseId generation manifest now))

/-- `commit_active_chain`. The guard is released however the closure returns. -/
def commitActiveChain {α : Type} (leaseId : LeaseId) (generation : Option Nat)
    (manifest : CapabilityManifest) (now : DateTime)
    (commit : ValidatedAuthority → RuntimeM α) : RuntimeM α := do
  let validated ← ofResult (← perform (.lockActiveChain leaseId generation manifest now))
  let committed ← outcomeOf (commit validated)
  perform .unlockKernel
  ofResult committed

end AuthorityKernel

/-- `append_for_attempt`. -/
def appendForAttempt (attemptId : Nat) (kind : MissionEventKind) : RuntimeM Unit := do
  ofResult (← perform (.appendForAttempt attemptId kind))

-- ============================================================================
-- The action gate
-- ============================================================================

/-- `AuthorizedExecution`. -/
structure AuthorizedExecution where
  toolId : ToolId
  arguments : Json
  toolManifestDigest : Digest
  requiredCapabilities : List Capability
  capabilityManifest : CapabilityManifest
  certificate : ActionCertificate
  observedGenerations : List (LeaseId × Nat)

/-- `R1AuthorizationArtifact`. -/
structure R1AuthorizationArtifact where
  certificate : ActionCertificate
  record : AuthorizationRecord

/-- The arguments of `ActionGate::authorize`. -/
structure AuthorizeRequest where
  mission : MissionEnvelope
  agentId : AgentId
  leaseId : LeaseId
  currentContext : SemanticContext
  proposalToolId : ToolId
  arguments : Json
  keyCustody : KeyCustody
  now : DateTime

/-- Whether a lease is bound to an agent and to the current terms of a mission. -/
def boundTo (certificate : AuthorityLeaseCertificate) (agentId : AgentId)
    (mission : MissionEnvelope) : Prop :=
  certificate.agentId = agentId ∧ certificate.missionId = mission.missionId ∧
    certificate.organizationVersion = mission.organizationVersion ∧
    certificate.policyEpoch = mission.policyEpoch

instance (certificate : AuthorityLeaseCertificate) (agentId : AgentId)
    (mission : MissionEnvelope) : Decidable (boundTo certificate agentId mission) :=
  inferInstanceAs (Decidable (_ ∧ _ ∧ _ ∧ _))

namespace AuthorizeRequest

/-- The checks `authorize` makes of a tool and its input, once the authority behind
    the call is validated. -/
def checkTool (request : AuthorizeRequest) (leaseSnapshot : LeaseSnapshot)
    (registeredTool : RegisteredTool) : Result Unit := do
  registeredTool.validateInput request.arguments
  let requiredCapabilities := registeredTool.manifest.requiredCapabilities
  rejectIf (capabilityAll ∈ requiredCapabilities) .capabilityAllForbidden
    "Capability::All is forbidden for synthesized agents"
  let missionAuthority ← AuthoritySet.new request.mission.allowedCapabilities
  rejectIf (∃ capability ∈ requiredCapabilities, ¬ missionAuthority.covers capability
      ∨ ¬ leaseSnapshot.certificate.grantedAuthority.covers capability)
    .capabilityOutsideAuthority "tool capability is outside granted mission authority"

/-- The action a proposal stands for. -/
def canonicalAction (request : AuthorizeRequest) (registeredTool : RegisteredTool) :
    Result CanonicalAction := do
  return {
    missionId := request.mission.missionId
    effectKind := registeredTool.manifest.effectClass
    target := ← ActionTarget.new request.proposalToolId.value
    normalizedParameters := CanonicalJson.new request.arguments
    semanticScope := .mission }

/-- The certificate of an authorization, not yet signed. -/
def unsigned (request : AuthorizeRequest) (leaseSnapshot : LeaseSnapshot)
    (validatedAuthority : ValidatedAuthority) (currentManifestDigest contextDigest : Digest)
    (actionRef : ActionRef) (concreteInputDigest : Digest) (authorizationId : AuthorizationId)
    (certificateId : CertificateId) : ActionCertificate where
  certificateId := certificateId
  missionId := request.mission.missionId
  agentIdentityDigest := validatedAuthority.agentIdentityDigest
  authorityLeaseId := request.leaseId
  organizationVersion := request.mission.organizationVersion
  policyEpoch := request.mission.policyEpoch
  semanticContextDigest := contextDigest
  actionRef := actionRef
  toolId := request.proposalToolId
  toolManifestDigest := currentManifestDigest
  concreteInputDigest := concreteInputDigest
  authorizationRecordId := authorizationId
  grantedUses := 1
  authorizationGeneration := 0
  issuedAt := request.now
  expiresAt := min (request.now + Duration.minutes 5) leaseSnapshot.certificate.expiresAt
  signature := ⟨[]⟩

/-- The record of an authorization. -/
def record (certificate : ActionCertificate) (validatedAuthority : ValidatedAuthority)
    (effectKind : EffectClass) : AuthorizationRecord where
  recordId := certificate.authorizationRecordId
  actionRef := certificate.actionRef
  authorityChain := validatedAuthority.chain
  totalBudget := ⟨1⟩
  remainingBudget := ⟨1⟩
  state := .issued
  stableIdempotencyKey := s!"aeon-r1:{Externals.toHex certificate.actionRef.digest}"
  effectClass := effectKind
  generation := 0

end AuthorizeRequest

/-- `ActionGate::authorize`. -/
def ActionGate.authorize (request : AuthorizeRequest) :
    RuntimeM (AuthorizedExecution × R1AuthorizationArtifact) := do
  let mission := request.mission
  rejectIf (¬ mission.active ∨ mission.expiresAt ≤ request.now) .missionInactive
    "mission is inactive or expired"
  rejectIf (request.proposalToolId ∉ mission.allowedTools) .toolOutsideMission
    "tool is outside the mission allowlist"
  let leaseSnapshot ← AuthorityKernel.leaseSnapshot request.leaseId
  let (registeredTool, liveManifest) ← ofResult
    (← perform (.resolve request.proposalToolId leaseSnapshot.manifest))
  let currentManifestDigest ← ofResult registeredTool.manifestDigest
  let bound ← orReject .toolManifestMismatch "tool was not bound at activation"
    (leaseSnapshot.manifest.approvedTools.find? fun bound =>
      bound.toolId = request.proposalToolId)
  rejectIf (bound.toolManifestDigest ≠ currentManifestDigest) .toolManifestMismatch
    "registered tool no longer matches its authorized manifest"
  let validatedAuthority ← AuthorityKernel.validateActiveChain request.leaseId
    (some leaseSnapshot.record.generation) liveManifest request.now
  rejectIf (¬ boundTo leaseSnapshot.certificate request.agentId mission) .authorizationInvalid
    "active authority does not match the runtime binding"
  let contextDigest ← ofResult request.currentContext.canonicalDigest
  rejectIf (contextDigest ≠ validatedAuthority.semanticContextDigest) .semanticContextChanged
    "semantic context changed after authority issuance"
  ofResult (request.checkTool leaseSnapshot registeredTool)
  let canonicalAction ← ofResult (request.canonicalAction registeredTool)
  let actionRef ← ofResult canonicalAction.actionRef
  let concreteInputDigest ← ofResult
    (canonicalDigest "aeon-concrete-input-v1" request.arguments)
  let authorizationId ← ofResult (Identifier.new _ ("auth-" ++ (← perform .newUuid)))
  let certificateId ← ofResult (Identifier.new _ ("cert-" ++ (← perform .newUuid)))
  let certificate := request.unsigned leaseSnapshot validatedAuthority currentManifestDigest
    contextDigest actionRef concreteInputDigest authorizationId certificateId
  let payload ← ofResult certificate.signingPayload
  let signature ← ofResult (request.keyCustody.sign payload)
  let certificate := { certificate with signature := signature }
  let record := AuthorizeRequest.record certificate validatedAuthority
    canonicalAction.effectKind
  let authorized : AuthorizedExecution :=
    { toolId := request.proposalToolId
      arguments := request.arguments
      toolManifestDigest := currentManifestDigest
      requiredCapabilities := registeredTool.manifest.requiredCapabilities
      capabilityManifest := liveManifest
      certificate := certificate
      observedGenerations := validatedAuthority.observedGenerations }
  return (authorized, ⟨certificate, record⟩)

-- ============================================================================
-- The execution port
-- ============================================================================

/-- `validate_action_certificate`. -/
def validateActionCertificate (certificate : ActionCertificate)
    (authorized : AuthorizedExecution) (keyCustody : KeyCustody) (now : DateTime) :
    Result Unit := do
  let message := "action certificate is expired or does not bind the execution request"
  rejectIf (now ≥ certificate.expiresAt ∨ certificate.toolId ≠ authorized.toolId
      ∨ certificate.toolManifestDigest ≠ authorized.toolManifestDigest)
    .authorizationInvalid message
  -- the arguments are hashed only once the three comparisons before them agree
  let inputDigest ← canonicalDigest "aeon-concrete-input-v1" authorized.arguments
  rejectIf (certificate.concreteInputDigest ≠ inputDigest) .authorizationInvalid message
  rejectIf (certificate.signature.bytes.length ≠ 64) .authorizationInvalid
    "action certificate signature must contain exactly 64 bytes"
  let payload ← certificate.signingPayload
  rejectIf (¬ Externals.verifies keyCustody.verifyingKey payload certificate.signature.bytes)
    .authorizationInvalid "action certificate signature verification failed"

/-- How long tokens are valid, from the time that is left. -/
def remainingValidity (leafExpiresAt certificateExpiresAt issueNow : DateTime) :
    Result Duration := do
  let expired := "authority expired before Nexus token issuance"
  let remaining := min leafExpiresAt certificateExpiresAt - issueNow
  rejectIf (remaining.nanos < 0) .leaseInactive expired
  let validity := min tokenValidity remaining
  rejectIf (validity.nanos = 0) .leaseInactive expired
  return validity

namespace AuthorizedExecution

/-- What the closure of `execute` compares the live authority with. -/
def checkAuthority (authorized : AuthorizedExecution) (liveManifest : CapabilityManifest)
    (validated : ValidatedAuthority) : Result Unit := do
  let message := "live authority no longer matches the issued action certificate"
  rejectIf (validated.observedGenerations ≠ authorized.observedGenerations
      ∨ validated.agentIdentityDigest ≠ authorized.certificate.agentIdentityDigest
      ∨ validated.semanticContextDigest ≠ authorized.certificate.semanticContextDigest)
    .authorizationInvalid message
  -- the live manifest is hashed only once the three comparisons before it agree
  let liveDigest ← liveManifest.canonicalDigest
  rejectIf (validated.capabilityManifestDigest ≠ liveDigest) .authorizationInvalid message

/-- The generation at which the leaf lease was observed. -/
def leafGeneration (authorized : AuthorizedExecution) : Option Nat :=
  (authorized.observedGenerations.find? fun observed =>
    observed.1 = authorized.certificate.authorityLeaseId).map Prod.snd

/-- The closure of `execute`, which runs under the read guard. -/
def commit (authorized : AuthorizedExecution) (keyCustody : KeyCustody)
    (liveManifest : CapabilityManifest) (commitNow : DateTime)
    (validated : ValidatedAuthority) : RuntimeM (List CapabilityToken) := do
  ofResult (authorized.checkAuthority liveManifest validated)
  let contextDigest ← ofResult (← perform .readContext).canonicalDigest
  rejectIf (contextDigest ≠ validated.semanticContextDigest) .semanticContextChanged
    "semantic context changed before Nexus entry"
  ofResult (validateActionCertificate authorized.certificate authorized keyCustody commitNow)
  let validity ← ofResult (remainingValidity validated.leafExpiresAt
    authorized.certificate.expiresAt (← perform .utcNow))
  ofResult (← perform (.consume authorized.certificate.authorizationRecordId
    authorized.certificate.authorizationGeneration authorized.requiredCapabilities validity))

end AuthorizedExecution

/-- What `execute` does before Nexus is entered: the tool, and the tokens for it. -/
def NexusExecutionPort.prepare (keyCustody : KeyCustody) (authorized : AuthorizedExecution)
    (attemptId : Nat) : RuntimeM (RegisteredTool × List CapabilityToken) := do
  let (registeredTool, liveManifest) ← ofResult
    (← perform (.resolve authorized.toolId authorized.capabilityManifest))
  let manifestDigest ← ofResult registeredTool.manifestDigest
  rejectIf (manifestDigest ≠ authorized.toolManifestDigest) .toolManifestMismatch
    "tool manifest changed before Nexus execution"
  let expectedLeafGeneration ← orReject .authorizationInvalid
    "authorization omitted the active lease generation" authorized.leafGeneration
  let commitNow ← perform .utcNow
  let tokens ← AuthorityKernel.commitActiveChain authorized.certificate.authorityLeaseId
    (some expectedLeafGeneration) liveManifest commitNow
    (authorized.commit keyCustody liveManifest commitNow)
  appendForAttempt attemptId .authorizationConsumed
  appendForAttempt attemptId .executionStarted
  return (registeredTool, tokens)

/-- `NexusExecutionPort::execute`. Every error raised before Nexus is entered is
    positioned there. -/
def NexusExecutionPort.execute (keyCustody : KeyCustody) (authorized : AuthorizedExecution)
    (attemptId : Nat) : ExceptT PositionedExecutionError (Prog Op Op.Resp) ToolOutput := do
  let (registeredTool, tokens) ← ExceptT.adapt (⟨·, .beforeNexus⟩)
    (NexusExecutionPort.prepare keyCustody authorized attemptId)
  match ← perform (.executeTool registeredTool.toolDefinition authorized.arguments tokens) with
  | some output => return output
  | none => throw ⟨⟨.executionFailed, "Nexus execution failed"⟩, .started⟩

end

end GenesisRuntime
