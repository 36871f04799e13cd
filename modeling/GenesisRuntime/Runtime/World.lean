/-
  GenesisRuntime.Runtime.World

  What the calls of one runtime share, and the operations they perform on it.

  An operation is one section under one lock, one atomic instruction, one reading
  of the clock or one call of the model or of Nexus.  Between two operations of a
  call, other calls can perform theirs.  The read guard of the authority kernel
  and that of the semantic context are held across operations; while one is held
  the write lock is not granted.

  Metrics only count operations, and are left out; so are poisoned locks.
-/

import GenesisRuntime.Context
import GenesisRuntime.Kernel.Runs
import GenesisRuntime.Lib.Interleave
import GenesisRuntime.Store

namespace GenesisRuntime

section
variable [Externals]

-- ============================================================================
-- Nexus
-- ============================================================================

/-- What `issue_token` is asked for (`nexus::CapabilityToken`). -/
structure CapabilityToken where
  capability : Capability
  holder : String
  validity : Duration

/-- `nexus::ToolOutput`, as far as it is read here. -/
structure ToolOutput where
  success : Bool
deriving DecidableEq

-- ============================================================================
-- The runtime
-- ============================================================================

/-- The parts of `R1Runtime` that never change. -/
structure R1Runtime where
  mission : MissionEnvelope
  agentId : AgentId
  spec : AgentSpec
  keyCustody : KeyCustody
  protocolGate : ProtocolGate

/-- The parts of `R1Runtime` that calls share and change. -/
structure World where
  kernel : AuthorityState
  /-- The threads that hold the read guard of the kernel. -/
  kernelReaders : List Nat
  semanticContext : SemanticContext
  /-- The threads that hold the read guard of the semantic context. -/
  contextReaders : List Nat
  registry : ToolRegistry
  store : InMemoryMissionStore
  actionCertificates : List ActionCertificate
  stepsConsumed : UInt64
  actionsConsumed : UInt64
  /-- The tokens the per-call hypervisors have issued. -/
  tokens : List CapabilityToken

/-- What the environment decides in one step. -/
structure Input where
  now : DateTime
  uuid : String
  /-- The error of an event append that fails. -/
  appendError : Option RuntimeError
  model : Result ModelResponse
  hypervisorFails : Bool
  /-- Which of the tokens asked for in one call cannot be issued. -/
  tokenFails : Nat → Bool
  /-- The output of a tool, where Nexus returns one. -/
  output : Option ToolOutput

/-- The two budget counters. -/
inductive BudgetCounter where
  | steps
  | actions
deriving DecidableEq

-- ============================================================================
-- Operations
-- ============================================================================

/-- One operation, with its arguments. -/
inductive Op where
  /-- `Utc::now`. -/
  | utcNow
  /-- `Uuid::new_v4`. -/
  | newUuid
  /-- `semantic_context.read()`, copied. -/
  | readContext
  | lockContext
  | unlockContext
  | writeContext (context : SemanticContext)
  /-- `AuthorityKernel::root_lease_id`. -/
  | rootLeaseId
  /-- `AuthorityKernel::lease_snapshot`. -/
  | leaseSnapshot (leaseId : LeaseId)
  /-- `AuthorityKernel::validate_active_chain`. -/
  | validateActiveChain (leaseId : LeaseId) (generation : Option Nat)
      (manifest : CapabilityManifest) (now : DateTime)
  /-- The beginning of `AuthorityKernel::commit_active_chain`: take the read guard and
      validate under it. The guard is only kept if that succeeds. -/
  | lockActiveChain (leaseId : LeaseId) (generation : Option Nat)
      (manifest : CapabilityManifest) (now : DateTime)
  | unlockKernel
  /-- An operation of the kernel under its write lock. -/
  | kernelOp (op : KernelOp)
  /-- `ToolRegistry::resolve_with_capability_manifest`. -/
  | resolve (toolId : ToolId) (template : CapabilityManifest)
  /-- `ToolRegistry::refresh_capability_manifest`. -/
  | refreshManifest (template : CapabilityManifest)
  /-- `ToolRegistry::replace`. -/
  | replaceTool (replacement : RegisteredTool)
  /-- The `fetch_update` of `reserve_budget`: whether there was budget left. -/
  | reserve (counter : BudgetCounter) (limit : UInt64)
  /-- `InMemoryMissionStore::begin_attempt`. -/
  | beginAttempt
  /-- `InMemoryMissionStore::append_for_attempt`. -/
  | appendForAttempt (attemptId : Nat) (kind : MissionEventKind)
  /-- `InMemoryMissionStore::insert_authorization_for_attempt`. -/
  | insertAuthorization (attemptId : Nat) (record : AuthorizationRecord)
  /-- `action_certificates.lock()` and `push`. -/
  | pushCertificate (certificate : ActionCertificate)
  /-- `InMemoryMissionStore::consume_authorization_with`, committing with
      `issue_tokens`. -/
  | consume (recordId : AuthorizationId) (generation : UInt64)
      (capabilities : List Capability) (validity : Duration)
  /-- `ModelClient::generate`. -/
  | generate (request : ModelRequest)
  /-- `NexusHypervisor::execute_tool_with_tokens`. -/
  | executeTool (definition : ToolDefinition) (arguments : Json)
      (tokens : List CapabilityToken)

/-- The response to an operation. -/
abbrev Op.Resp : Op → Type
  | .utcNow => DateTime
  | .newUuid => String
  | .readContext => SemanticContext
  | .lockContext => SemanticContext
  | .unlockContext => Unit
  | .writeContext _ => Unit
  | .rootLeaseId => LeaseId
  | .leaseSnapshot _ => Result LeaseSnapshot
  | .validateActiveChain _ _ _ _ => Result ValidatedAuthority
  | .lockActiveChain _ _ _ _ => Result ValidatedAuthority
  | .unlockKernel => Unit
  | .kernelOp _ => Result KernelReturn
  | .resolve _ _ => Result (RegisteredTool × CapabilityManifest)
  | .refreshManifest _ => Result CapabilityManifest
  | .replaceTool _ => Result Unit
  | .reserve _ _ => Bool
  | .beginAttempt => Nat
  | .appendForAttempt _ _ => Result Unit
  | .insertAuthorization _ _ => Result Unit
  | .pushCertificate _ => Unit
  | .consume _ _ _ _ => Result (List CapabilityToken)
  | .generate _ => Result ModelResponse
  | .executeTool _ _ _ => Option ToolOutput

/-- An operation with its response. -/
abbrev Event := Prog.Event Op Op.Resp

/-- What one call has done so far. -/
abbrev History := List Event

-- ============================================================================
-- What operations do
-- ============================================================================

namespace World

/-- `AuthorityKernel::lease_snapshot`. -/
def leaseSnapshot (leaseId : LeaseId) (w : World) : Result LeaseSnapshot :=
  orReject .leaseInactive "authority lease not found" (w.kernel.leases.lookup leaseId)

/-- A counter below the limit is advanced by one. -/
def reserve (counter : BudgetCounter) (limit : UInt64) (w : World) : Bool × World :=
  match counter with
  | .steps =>
      if w.stepsConsumed < limit then (true, { w with stepsConsumed := w.stepsConsumed + 1 })
      else (false, w)
  | .actions =>
      if w.actionsConsumed < limit then
        (true, { w with actionsConsumed := w.actionsConsumed + 1 })
      else (false, w)

/-- A call of the store. -/
def onStore {α : Type} (call : StoreM α) (w : World) : Result α × World :=
  match call w.store with
  | .ok a store => (.ok a, { w with store := store })
  | .error e store => (.error e, { w with store := store })

/-- `issue_tokens`. The state is the list of the tokens issued so far. -/
def issueTokens (input : Input) (capabilities : List Capability) (validity : Duration) :
    EStateM RuntimeError (List CapabilityToken) (List CapabilityToken) := do
  rejectIf input.hypervisorFails .executionFailed "Nexus initialization failed"
  capabilities.zipIdx.mapM fun (capability, index) => do
    rejectIf (input.tokenFails index) .executionFailed "Nexus token issuance failed"
    let token : CapabilityToken := ⟨capability, "aeon-r2", validity⟩
    modify (· ++ [token])
    return token

/-- Whether `consume_authorization_with` gets to its closure. -/
def reachesCommit (recordId : AuthorizationId) (generation : UInt64) (w : World) : Bool :=
  (w.store.authorizationRecords.find? fun record => record.recordId = recordId).any
    fun record => (InMemoryMissionStore.validateAvailableRecord record generation).isOk

/-- The tokens there are once the closure has run, whether or not it succeeded. -/
def tokensAfter {α : Type} : EStateM.Result RuntimeError (List CapabilityToken) α →
    List CapabilityToken
  | .ok _ tokens => tokens
  | .error _ tokens => tokens

/-- `consume_authorization_with`, committing with `issue_tokens`. -/
def consume (recordId : AuthorizationId) (generation : UInt64)
    (capabilities : List Capability) (validity : Duration) (input : Input) (w : World) :
    Result (List CapabilityToken) × World :=
  let issued := issueTokens input capabilities validity w.tokens
  let w := if w.reachesCommit recordId generation then { w with tokens := tokensAfter issued }
    else w
  w.onStore (InMemoryMissionStore.consumeAuthorizationWith recordId generation
    (finalValue issued))

end World

/-- Whether a thread can go on: a write lock is not granted while a read guard is
    held. -/
def Op.enabled (_ : Nat) (o : Op) (w : World) : Prop :=
  match o with
  | .kernelOp _ => w.kernelReaders = []
  | .writeContext _ => w.contextReaders = []
  | _ => True

/-- Perform one operation. -/
def Op.exec (t : Nat) (o : Op) (input : Input) (w : World) : o.Resp × World :=
  match o with
  | .utcNow => (input.now, w)
  | .newUuid => (input.uuid, w)
  | .readContext => (w.semanticContext, w)
  | .lockContext => (w.semanticContext, { w with contextReaders := t :: w.contextReaders })
  | .unlockContext => ((), { w with contextReaders := w.contextReaders.erase t })
  | .writeContext context => ((), { w with semanticContext := context })
  | .rootLeaseId => (w.kernel.rootLeaseId, w)
  | .leaseSnapshot leaseId => (w.leaseSnapshot leaseId, w)
  | .validateActiveChain leaseId generation manifest now =>
      (GenesisRuntime.validateActiveChain w.kernel leaseId generation manifest now, w)
  | .lockActiveChain leaseId generation manifest now =>
      match validateChain w.kernel leaseId generation manifest now with
      | .ok validated => (.ok validated, { w with kernelReaders := t :: w.kernelReaders })
      | .error e => (.error e, w)
  | .unlockKernel => ((), { w with kernelReaders := w.kernelReaders.erase t })
  | .kernelOp op =>
      match op.exec input.uuid w.kernel with
      | .ok returned kernel => (.ok returned, { w with kernel := kernel })
      | .error e kernel => (.error e, { w with kernel := kernel })
  | .resolve toolId template =>
      (w.registry.resolveWithCapabilityManifest toolId template, w)
  | .refreshManifest template => (w.registry.refreshCapabilityManifest template, w)
  | .replaceTool replacement =>
      match w.registry.replace replacement with
      | .ok registry => (.ok (), { w with registry := registry })
      | .error e => (.error e, w)
  | .reserve counter limit => w.reserve counter limit
  | .beginAttempt =>
      (w.store.beginAttempt.1, { w with store := w.store.beginAttempt.2 })
  | .appendForAttempt attemptId kind =>
      match input.appendError with
      | some e => (.error e, w)
      | none =>
          (.ok (), { w with store := w.store.appendForAttempt attemptId kind input.now })
  | .insertAuthorization attemptId record =>
      w.onStore (InMemoryMissionStore.insertAuthorizationForAttempt attemptId record)
  | .pushCertificate certificate =>
      ((), { w with actionCertificates := w.actionCertificates ++ [certificate] })
  | .consume recordId generation capabilities validity =>
      w.consume recordId generation capabilities validity input
  | .generate _ => (input.model, w)
  | .executeTool _ _ _ => (input.output, w)

-- ============================================================================
-- Programs
-- ============================================================================

/-- A call in progress, which can fail. -/
abbrev RuntimeM (α : Type) := ExceptT RuntimeError (Prog Op Op.Resp) α

/-- Perform one operation. -/
abbrev perform {ε : Type} (o : Op) : ExceptT ε (Prog Op Op.Resp) o.Resp := Prog.performE o

end

end GenesisRuntime
