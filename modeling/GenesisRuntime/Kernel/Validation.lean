/-
  GenesisRuntime.Kernel.Validation

  `authority_kernel/validation.rs` and the request validators of
  `authority_kernel.rs`: the walks from a leaf to its root and every check made
  on the way.

  Both walks are bounded by `MAX_AUTHORITY_CHAIN_DEPTH`.  They recurse on the
  number of steps still allowed; the depth error is raised where the sources
  compare the number of visited entries with the bound.
-/

import GenesisRuntime.Kernel.State

namespace GenesisRuntime

section
variable [Externals]

-- ============================================================================
-- Checks on one entry
-- ============================================================================

/-- `require_generation`. -/
def requireGeneration (record : LeaseRecord) (expectedGeneration : Nat) : Result Unit :=
  rejectIf (record.generation ≠ expectedGeneration) .leaseGenerationMismatch
    "lease generation does not match the expected value"

/-- `validate_active_record`. -/
def validateActiveRecord (entry : LeaseEntry) (expectedGeneration : Option Nat)
    (now : DateTime) : Result Unit := do
  if let some expected := expectedGeneration then
    requireGeneration entry.record expected
  rejectIf (entry.record.state ≠ .active ∨ now ≥ entry.certificate.expiresAt) .leaseInactive
    "authority chain contains an inactive or expired lease"

/-- `lease_ref`. -/
def leaseRef (certificate : AuthorityLeaseCertificate) : Result LeaseRef := do
  let digest ← canonicalDigest "aeon-authority-lease-certificate-record-v2" certificate
  return ⟨certificate.leaseId, digest⟩

/-- `authority_is_subset_of_capabilities`. -/
def authorityIsSubsetOfCapabilities (child : AuthoritySet) (parent : List Capability) : Bool :=
  child.capabilities.all fun requested => parent.any fun granted => isSubsetOf requested granted

/-- `authority_is_subset_of`. -/
def authorityIsSubsetOf (child parent : AuthoritySet) : Bool :=
  authorityIsSubsetOfCapabilities child parent.capabilities

/-- `validate_authority_sets`. -/
def validateAuthoritySets (granted delegable : AuthoritySet) : Result Unit := do
  rejectIf (capabilityAll ∈ granted.capabilities ++ delegable.capabilities)
    .capabilityAllForbidden "Capability::All is forbidden in authority leases"
  rejectIf (¬ authorityIsSubsetOf delegable granted) .delegationInvalid
    "delegable authority exceeds granted authority"

/-- `validate_manifest`. -/
def validateManifest (manifest : CapabilityManifest) (authority : AuthoritySet) :
    Result Unit := do
  rejectIf (manifest.version ≠ 1) .capabilityManifestMismatch
    "unsupported capability manifest version"
  let permissions ← canonicalCapabilities manifest.permissions.capabilities
  let granted ← canonicalCapabilities authority.capabilities
  rejectIf (permissions ≠ granted) .capabilityManifestMismatch
    "manifest permissions do not equal granted authority"
  rejectIf (¬ (manifest.approvedTools.map BoundTool.toolId).Nodup) .capabilityManifestMismatch
    "manifest contains duplicate tool bindings"

/-- `validate_manifest_attenuation`. -/
def validateManifestAttenuation (child parent : CapabilityManifest) : Result Unit :=
  rejectIf (child.version ≠ parent.version
      ∨ child.modelManifestDigest ≠ parent.modelManifestDigest
      ∨ child.runtimeConfigDigest ≠ parent.runtimeConfigDigest
      ∨ child.toolRegistryRootDigest ≠ parent.toolRegistryRootDigest
      ∨ ∃ childTool ∈ child.approvedTools, childTool ∉ parent.approvedTools)
    .capabilityManifestMismatch "child capability manifest is not attenuated from its parent"

/-- `validate_parent_child`. -/
def validateParentChild (parent child : LeaseEntry) : Result Unit := do
  let reference ← orReject .delegationInvalid "child parent reference missing"
    child.certificate.parentLease
  let parentRef ← leaseRef parent.certificate
  rejectIf (reference ≠ parentRef
      ∨ child.certificate.parentAgentId ≠ some parent.certificate.agentId
      ∨ child.certificate.expiresAt > parent.certificate.expiresAt
      ∨ ¬ authorityIsSubsetOf child.certificate.grantedAuthority
          parent.certificate.delegableAuthority)
    .delegationInvalid "child lease is not an attenuated exact child of its parent"
  validateAuthoritySets child.certificate.grantedAuthority child.certificate.delegableAuthority
  validateManifestAttenuation child.manifest parent.manifest

-- ============================================================================
-- The identity walk
-- ============================================================================

/-- The loop of `validate_identity_chain`, from `current` towards the root: the
    identities it validates.  It stops early at one that already is. -/
def identityWalk (state : AuthorityState) (validated : List AgentId) :
    Nat → AgentId → List AgentId → Result (List AgentId)
  | 0, _, _ =>
      throw ⟨.identityInvalid, "agent identity chain exceeds the maximum supported depth"⟩
  | remaining + 1, current, visited => do
      if current ∈ validated then
        return []
      rejectIf (current ∈ visited) .identityInvalid "agent identity chain contains a cycle"
      let identity ← orReject .identityInvalid "agent identity is missing"
        (state.identities.lookup current)
      match identity.issuerAgentId with
      | some issuerAgentId =>
          rejectIf (remaining = 0) .identityInvalid
            "agent identity chain exceeds the maximum supported depth"
          let issuer ← orReject .identityInvalid "identity issuer is missing"
            (state.identities.lookup issuerAgentId)
          rejectIf (identity.issuerKeyId ≠ issuer.keyId) .identityInvalid
            "identity issuer key binding is invalid"
          identity.verifySignature (← issuer.verifyingKey)
          let rest ← identityWalk state validated remaining issuerAgentId (current :: visited)
          return current :: rest
      | none =>
          rejectIf (identity.issuerKeyId ≠ identity.keyId) .identityInvalid
            "root identity is not self-issued"
          identity.verifySignature (← identity.verifyingKey)
          return [current]

/-- `validate_identity_chain`. The state is `successfully_validated_identities`. -/
def validateIdentityChain (state : AuthorityState) (leafAgentId : AgentId) :
    EStateM RuntimeError (List AgentId) Unit := do
  let validated ← get
  if leafAgentId ∈ validated then
    return
  let identities ← ofResult
    (identityWalk state validated maxAuthorityChainDepth leafAgentId [])
  modify fun validated => validated ++ identities

-- ============================================================================
-- The lease walk
-- ============================================================================

/-- The part of `validate_certificate_entry` that follows the identity walk. -/
def validateBindings (state : AuthorityState) (entry : LeaseEntry)
    (subject : AgentIdentityCertificate) : Result Unit := do
  let certificate := entry.certificate
  rejectIf ((← subject.canonicalDigest) ≠ certificate.agentIdentityDigest) .identityInvalid
    "lease subject identity digest mismatch"
  let issuerAgentId := certificate.parentAgentId.getD certificate.agentId
  let issuer ← orReject .identityInvalid "lease issuer identity missing"
    (state.identities.lookup issuerAgentId)
  rejectIf ((← issuer.canonicalDigest) ≠ certificate.issuerIdentityDigest
      ∨ issuer.keyId ≠ certificate.issuerKeyId) .identityInvalid
    "lease issuer identity binding mismatch"
  certificate.verifySignature (← issuer.verifyingKey)
  if let some renewedFrom := certificate.renewedFrom then
    let predecessor ← orReject .delegationInvalid "renewal predecessor lease missing"
      (state.leases.lookup renewedFrom.leaseId)
    rejectIf (renewedFrom ≠ (← leaseRef predecessor.certificate)
        ∨ predecessor.certificate.agentId ≠ certificate.agentId
        ∨ predecessor.certificate.missionId ≠ certificate.missionId
        ∨ predecessor.record.state ≠ .retired
        ∨ predecessor.record.renewedBy ≠ some certificate.leaseId)
      .delegationInvalid "renewal predecessor binding is invalid"

/-- `validate_certificate_entry`. -/
def validateCertificateEntry (state : AuthorityState) (entry : LeaseEntry) :
    EStateM RuntimeError (List AgentId) Unit := do
  let certificate := entry.certificate
  let mismatch := "lease bindings differ from current mission or manifest"
  rejectIf (certificate.missionId ≠ state.mission.missionId
      ∨ certificate.organizationVersion ≠ state.mission.organizationVersion
      ∨ certificate.policyEpoch ≠ state.mission.policyEpoch)
    .capabilityManifestMismatch mismatch
  -- the manifest is hashed only once the three fields before it agree
  let manifestDigest ← ofResult entry.manifest.canonicalDigest
  rejectIf (certificate.capabilityManifestDigest ≠ manifestDigest)
    .capabilityManifestMismatch mismatch
  let subject ← orReject .identityInvalid "lease subject identity missing"
    (state.identities.lookup certificate.agentId)
  validateIdentityChain state certificate.agentId
  ofResult (validateBindings state entry subject)

/-- The loop of `validate_chain`, from `current` up to a lease without parent:
    the entries it passes, leaf first. -/
def chainWalk (state : AuthorityState) (leafLeaseId : LeaseId)
    (expectedLeafGeneration : Option Nat) (now : DateTime) :
    Nat → LeaseId → List LeaseId →
      EStateM RuntimeError (List AgentId) (List (LeaseId × LeaseEntry))
  | 0, _, _ =>
      throw ⟨.delegationInvalid, "authority chain exceeds the maximum supported depth"⟩
  | remaining + 1, current, visited => do
      rejectIf (current ∈ visited) .delegationInvalid "authority chain contains a cycle"
      let entry ← orReject .delegationInvalid "authority chain lease missing"
        (state.leases.lookup current)
      let expected := if current = leafLeaseId then expectedLeafGeneration else none
      ofResult (validateActiveRecord entry expected now)
      validateCertificateEntry state entry
      match entry.certificate.parentLease with
      | some parent =>
          let rest ← chainWalk state leafLeaseId expectedLeafGeneration now remaining
            parent.leaseId (current :: visited)
          return (current, entry) :: rest
      | none => return [(current, entry)]

/-- The value of a stateful computation, with its final state dropped. -/
def finalValue {σ α : Type} : EStateM.Result RuntimeError σ α → Result α
  | .ok a _ => .ok a
  | .error e _ => .error e

/-- `validate_chain`. -/
def validateChain (state : AuthorityState) (leafLeaseId : LeaseId)
    (expectedLeafGeneration : Option Nat) (currentManifest : CapabilityManifest)
    (now : DateTime) : Result ValidatedAuthority := do
  let walked ← finalValue <| (chainWalk state leafLeaseId expectedLeafGeneration now
    maxAuthorityChainDepth leafLeaseId []).run []
  let chainEntries := walked.reverse
  forM (chainEntries.zip chainEntries.tail) fun pair =>
    validateParentChild pair.1.2 pair.2.2
  let (_, leaf) ← orReject .delegationInvalid "authority chain is empty"
    chainEntries.getLast?
  rejectIf ((← leaf.manifest.canonicalDigest) ≠ (← currentManifest.canonicalDigest))
    .capabilityManifestMismatch "current capability manifest does not match the lease"
  let chain ← chainEntries.mapM fun pair => leaseRef pair.2.certificate
  return {
    leafLeaseId := leafLeaseId
    leafExpiresAt := leaf.certificate.expiresAt
    agentIdentityDigest := leaf.certificate.agentIdentityDigest
    capabilityManifestDigest := leaf.certificate.capabilityManifestDigest
    semanticContextDigest := leaf.certificate.semanticContextDigest
    chain := chain
    observedGenerations := chainEntries.map fun pair => (pair.1, pair.2.record.generation) }

/-- `AuthorityKernel::validate_active_chain`, on the state the read lock protects. -/
def validateActiveChain (state : AuthorityState) (leafLeaseId : LeaseId)
    (expectedLeafGeneration : Option Nat) (currentManifest : CapabilityManifest)
    (now : DateTime) : Result ValidatedAuthority :=
  validateChain state leafLeaseId expectedLeafGeneration currentManifest now

/-- `AuthorityKernel::commit_active_chain`, on the state the read lock protects. -/
def commitActiveChain {α : Type} (state : AuthorityState) (leafLeaseId : LeaseId)
    (expectedLeafGeneration : Option Nat) (currentManifest : CapabilityManifest)
    (now : DateTime) (commit : ValidatedAuthority → Result α) : Result α := do
  let validated ← validateChain state leafLeaseId expectedLeafGeneration currentManifest now
  commit validated

end

end GenesisRuntime
