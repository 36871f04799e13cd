/-
  GenesisRuntime.Agent

  `agent.rs` and `model.rs`: what an agent asks for, the semantic context its
  behaviour depends on, and the request made of a model.
-/

import GenesisRuntime.Action
import GenesisRuntime.Authority

namespace GenesisRuntime

-- ============================================================================
-- Declarative texts
-- ============================================================================

/-- `MAX_DECLARATIVE_TEXT_BYTES`. -/
def maxDeclarativeTextBytes : Nat := 4096

/-- A text of the `declarative_text!` family: text that passed
    `validate_declarative_text`. -/
structure DeclarativeText (kind : String) where
  value : String
  valid : validateText kind maxDeclarativeTextBytes value = .ok ()
deriving DecidableEq

/-- The `new` of the `declarative_text!` family. -/
def DeclarativeText.new (kind value : String) : Result (DeclarativeText kind) :=
  match h : validateText kind maxDeclarativeTextBytes value with
  | .ok () => .ok ⟨value, h⟩
  | .error e => .error e

instance {kind : String} : Serialize (DeclarativeText kind) := ⟨fun text => toValue text.value⟩

abbrev Role := DeclarativeText "role"
abbrev Objective := DeclarativeText "objective"
abbrev Contract := DeclarativeText "output contract"

section
variable [Externals]

-- ============================================================================
-- Agent specifications
-- ============================================================================

def maxRequestedTools : Nat := 64
def maxRequestedCapabilities : Nat := 64
def maxAgentSteps : UInt64 := 256

/-- `ResourceRequest`. -/
structure ResourceRequest where
  maxSteps : UInt64
deriving DecidableEq

/-- `SemanticRequirements`. -/
structure SemanticRequirements where
  requestedMemory : Option MemoryRef
  requestedRetrievalIndex : Option RetrievalIndexRef
  requestedInstructionProfile : Option InstructionProfileRef
deriving DecidableEq

/-- `AgentSpec`. -/
structure AgentSpec where
  role : Role
  objective : Objective
  requestedModel : ModelRef
  requestedTools : List ToolId
  requestedAuthority : AuthorityRequest
  outputContract : Contract
  resourceBudget : ResourceRequest
  semanticRequirements : SemanticRequirements
deriving DecidableEq

/-- The first member of a list that is a repetition of an earlier one. -/
def firstRepeated {α : Type} [DecidableEq α] (seen : List α) : List α → Option α
  | [] => none
  | x :: xs => if x ∈ seen then some x else firstRepeated (x :: seen) xs

/-- `AgentSpec::validate`. -/
def AgentSpec.validate (spec : AgentSpec) : Result Unit := do
  rejectIf (spec.requestedTools.length > maxRequestedTools) .invalidInput
    s!"requested tools must not exceed {maxRequestedTools}"
  if let some toolId := firstRepeated [] spec.requestedTools then
    throw ⟨.duplicateTool, s!"requested tool appears more than once: {toolId.value}"⟩
  rejectIf (spec.requestedAuthority.capabilities.length > maxRequestedCapabilities)
    .invalidInput s!"requested capabilities must not exceed {maxRequestedCapabilities}"
  rejectIf (capabilityAll ∈ spec.requestedAuthority.capabilities) .capabilityAllForbidden
    "Capability::All is forbidden for synthesized agents"
  rejectIf (¬ spec.requestedAuthority.capabilities.Nodup) .invalidInput
    "requested capabilities must not contain exact duplicates"
  rejectIf (¬ (1 ≤ spec.resourceBudget.maxSteps ∧ spec.resourceBudget.maxSteps ≤ maxAgentSteps))
    .budgetExhausted s!"agent max steps must contain 1 to {maxAgentSteps}"

-- ============================================================================
-- Semantic contexts
-- ============================================================================

/-- `SemanticContext`. -/
structure SemanticContext where
  contextVersion : UInt64
  modelManifestDigest : Digest
  resolvedSystemInstructionDigest : Digest
  toolRegistryRootDigest : Digest
  boundToolDigests : List Digest
  protocolSchemaDigest : Digest
  policyEpoch : UInt64
  memoryGeneration : Option Digest
  retrievalIndexGeneration : Option Digest
deriving DecidableEq

/-- `sort_unstable` and `dedup` of a list of digests. -/
def sortDigests (digests : List Digest) : List Digest :=
  dedupByKey id (sortByKey id digests)

/-- `SemanticContext::canonical_digest`. The version is no part of the identity. -/
def SemanticContext.canonicalDigest (context : SemanticContext) : Result Digest :=
  GenesisRuntime.canonicalDigest "aeon-semantic-context-v1" <| Fields.mk
    [("model_manifest_digest", toValue context.modelManifestDigest),
     ("resolved_system_instruction_digest", toValue context.resolvedSystemInstructionDigest),
     ("tool_registry_root_digest", toValue context.toolRegistryRootDigest),
     ("bound_tool_digests", toValue (sortDigests context.boundToolDigests)),
     ("protocol_schema_digest", toValue context.protocolSchemaDigest),
     ("policy_epoch", toValue context.policyEpoch),
     ("memory_generation", toValue context.memoryGeneration),
     ("retrieval_index_generation", toValue context.retrievalIndexGeneration)]

/-- `validate_context_continuation`. -/
def validateContextContinuation (originalDigest : Digest) (current : SemanticContext) :
    Result Unit := do
  rejectIf (originalDigest ≠ (← current.canonicalDigest)) .semanticContextChanged
    "material semantic context differs from the authorized context"

-- ============================================================================
-- Models
-- ============================================================================

/-- `ModelRequest`. -/
structure ModelRequest where
  agentId : AgentId
  spec : AgentSpec
  semanticContext : SemanticContext
  resolvedSystemInstruction : String
deriving DecidableEq

/-- `ModelResponse`. -/
structure ModelResponse where
  rawOutput : String
deriving DecidableEq

end

end GenesisRuntime
