/-
  GenesisRuntime.Context

  `context.rs`: the resolution of the semantic context an agent is bound to.
-/

import GenesisRuntime.Protocol
import GenesisRuntime.ToolRegistry

namespace GenesisRuntime

section
variable [Externals]

/-- `resolved_system_instruction`. -/
def resolvedSystemInstruction (spec : AgentSpec) : Result String :=
  match structValue
    [("role", toValue spec.role),
     ("objective", toValue spec.objective),
     ("instruction_profile", toValue spec.semanticRequirements.requestedInstructionProfile),
     ("output_contract", toValue spec.outputContract)] with
  | .ok value => return Externals.jsonText value
  | .error error => throw ⟨.contextResolutionFailed,
      s!"resolved instruction serialization failed: {error}"⟩

/-- `ContextResolver`. -/
structure ContextResolver where
  modelManifestDigest : Digest
  protocolSchemaDigest : Digest
  policyEpoch : UInt64
  contextVersion : UInt64

/-- `ContextResolver::for_r1`. -/
def ContextResolver.forR1 (modelManifestDigest : Digest) (policyEpoch contextVersion : UInt64) :
    Result ContextResolver := do
  return {
    modelManifestDigest := modelManifestDigest
    protocolSchemaDigest := ← AgentMessage.schemaDigest
    policyEpoch := policyEpoch
    contextVersion := contextVersion }

/-- `ContextResolver::resolve`. -/
def ContextResolver.resolve (resolver : ContextResolver) (spec : AgentSpec)
    (snapshot : ToolRegistry.Snapshot) : Result SemanticContext := do
  rejectIf (spec.semanticRequirements.requestedMemory.isSome
      ∨ spec.semanticRequirements.requestedRetrievalIndex.isSome)
    .contextResolutionFailed "R1 has no trusted memory or retrieval generation registry"
  let instruction ← resolvedSystemInstruction spec
  let instructionDigest ← canonicalDigest "aeon-resolved-system-instruction-v1" instruction
  return {
    contextVersion := resolver.contextVersion
    modelManifestDigest := resolver.modelManifestDigest
    resolvedSystemInstructionDigest := instructionDigest
    toolRegistryRootDigest := snapshot.rootDigest
    boundToolDigests := sortDigests (snapshot.boundTools.map BoundTool.toolManifestDigest)
    protocolSchemaDigest := resolver.protocolSchemaDigest
    policyEpoch := resolver.policyEpoch
    memoryGeneration := none
    retrievalIndexGeneration := none }

end

end GenesisRuntime
