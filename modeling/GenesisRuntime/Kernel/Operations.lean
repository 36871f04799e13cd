/-
  GenesisRuntime.Kernel.Operations

  `authority_kernel.rs`: the operations of the authority kernel.

  Each operation holds the write lock throughout, so it is one computation on the
  state; what it has changed stays changed when it fails.  The text of the UUID
  a lease id is made of is an argument.  A poisoned lock, which needs a panic in
  another thread, is left out.
-/

import GenesisRuntime.Kernel.Validation
import GenesisRuntime.Lib.Forest

namespace GenesisRuntime

section
variable [Externals]

/-- A computation under the write lock. -/
abbrev KernelM := EStateM RuntimeError AuthorityState

/-- `new_lease_id`. -/
def newLeaseId (uuid : String) : Result LeaseId := Identifier.new _ ("lease-" ++ uuid)

-- ============================================================================
-- Signing
-- ============================================================================

/-- `signed_identity`. -/
def signedIdentity (agentId : AgentId) (subjectCustody : KeyCustody)
    (issuerAgentId : Option AgentId) (issuerCustody : KeyCustody) (now : DateTime) :
    Result AgentIdentityCertificate := do
  let identity := AgentIdentityCertificate.unsigned agentId subjectCustody.keyId
    subjectCustody.verifyingKey issuerAgentId issuerCustody.keyId now
  let signature ← issuerCustody.sign (← identity.signingPayload)
  let identity := { identity with signature := signature }
  identity.verifySignature issuerCustody.verifyingKey
  return identity

/-- `LeaseDraft`. -/
structure LeaseDraft where
  leaseId : LeaseId
  missionId : MissionId
  agentId : AgentId
  agentIdentityDigest : Digest
  parentAgentId : Option AgentId
  parentLease : Option LeaseRef
  renewedFrom : Option LeaseRef
  organizationVersion : UInt64
  policyEpoch : UInt64
  grantedAuthority : AuthoritySet
  delegableAuthority : AuthoritySet
  capabilityManifestDigest : Digest
  semanticContextDigest : Digest
  issuedAt : DateTime
  expiresAt : DateTime

/-- The certificate of a draft, not yet signed. -/
def LeaseDraft.certificate (draft : LeaseDraft) (issuerIdentityDigest : Digest)
    (issuerKeyId : KeyId) : AuthorityLeaseCertificate where
  leaseId := draft.leaseId
  missionId := draft.missionId
  agentId := draft.agentId
  agentIdentityDigest := draft.agentIdentityDigest
  parentAgentId := draft.parentAgentId
  parentLease := draft.parentLease
  renewedFrom := draft.renewedFrom
  issuerIdentityDigest := issuerIdentityDigest
  issuerKeyId := issuerKeyId
  organizationVersion := draft.organizationVersion
  policyEpoch := draft.policyEpoch
  grantedAuthority := draft.grantedAuthority
  delegableAuthority := draft.delegableAuthority
  capabilityManifestDigest := draft.capabilityManifestDigest
  semanticContextDigest := draft.semanticContextDigest
  issuedAt := draft.issuedAt
  expiresAt := draft.expiresAt
  signature := ⟨[]⟩

/-- `signed_lease`. -/
def signedLease (draft : LeaseDraft) (issuerIdentityDigest : Digest)
    (issuerCustody : KeyCustody) : Result AuthorityLeaseCertificate := do
  let certificate := draft.certificate issuerIdentityDigest issuerCustody.keyId
  let signature ← issuerCustody.sign (← certificate.signingPayload)
  let certificate := { certificate with signature := signature }
  certificate.verifySignature issuerCustody.verifyingKey
  return certificate

-- ============================================================================
-- Requests
-- ============================================================================

/-- The draft of the root lease. -/
def RootLeaseRequest.draft (request : RootLeaseRequest) (now : DateTime) (leaseId : LeaseId)
    (identityDigest capabilityManifestDigest : Digest) : LeaseDraft where
  leaseId := leaseId
  missionId := request.mission.missionId
  agentId := request.agentId
  agentIdentityDigest := identityDigest
  parentAgentId := none
  parentLease := none
  renewedFrom := none
  organizationVersion := request.mission.organizationVersion
  policyEpoch := request.mission.policyEpoch
  grantedAuthority := request.grantedAuthority
  delegableAuthority := request.delegableAuthority
  capabilityManifestDigest := capabilityManifestDigest
  semanticContextDigest := request.semanticContextDigest
  issuedAt := now
  expiresAt := request.expiresAt

/-- The draft of a lease delegated from `parent`. -/
def DelegationRequest.draft (request : DelegationRequest) (now : DateTime)
    (parent : LeaseEntry) (childLeaseId : LeaseId) (childIdentityDigest : Digest)
    (parentReference : LeaseRef) (capabilityManifestDigest : Digest) : LeaseDraft where
  leaseId := childLeaseId
  missionId := parent.certificate.missionId
  agentId := request.childAgentId
  agentIdentityDigest := childIdentityDigest
  parentAgentId := some parent.certificate.agentId
  parentLease := some parentReference
  renewedFrom := none
  organizationVersion := parent.certificate.organizationVersion
  policyEpoch := parent.certificate.policyEpoch
  grantedAuthority := request.grantedAuthority
  delegableAuthority := request.delegableAuthority
  capabilityManifestDigest := capabilityManifestDigest
  semanticContextDigest := request.semanticContextDigest
  issuedAt := now
  expiresAt := request.expiresAt

/-- The draft of a lease that replaces `old`. -/
def RenewalRequest.draft (request : RenewalRequest) (now : DateTime) (old : LeaseEntry)
    (renewedId : LeaseId) (renewedFrom : LeaseRef) (capabilityManifestDigest : Digest) :
    LeaseDraft where
  leaseId := renewedId
  missionId := old.certificate.missionId
  agentId := old.certificate.agentId
  agentIdentityDigest := old.certificate.agentIdentityDigest
  parentAgentId := old.certificate.parentAgentId
  parentLease := old.certificate.parentLease
  renewedFrom := some renewedFrom
  organizationVersion := old.certificate.organizationVersion
  policyEpoch := old.certificate.policyEpoch
  grantedAuthority := request.grantedAuthority
  delegableAuthority := request.delegableAuthority
  capabilityManifestDigest := capabilityManifestDigest
  semanticContextDigest := request.semanticContextDigest
  issuedAt := now
  expiresAt := request.expiresAt

/-- `validate_root_request`. -/
def validateRootRequest (request : RootLeaseRequest) (now : DateTime) : Result Unit := do
  rejectIf (¬ request.mission.isUsableAt now ∨ request.expiresAt ≤ now
      ∨ request.expiresAt > request.mission.expiresAt)
    .leaseInactive "root lease lifetime is outside the active mission"
  validateAuthoritySets request.grantedAuthority request.delegableAuthority
  rejectIf (¬ authorityIsSubsetOfCapabilities request.grantedAuthority
      request.mission.allowedCapabilities)
    .capabilityOutsideAuthority "root authority exceeds the mission envelope"
  validateManifest request.capabilityManifest request.grantedAuthority
  rejectIf (∃ bound ∈ request.capabilityManifest.approvedTools,
      bound.toolId ∉ request.mission.allowedTools)
    .toolOutsideMission "root manifest contains a tool outside the mission"

/-- `validate_delegation_request`. -/
def validateDelegationRequest (state : AuthorityState) (parent : LeaseEntry)
    (request : DelegationRequest) (now : DateTime) : Result Unit := do
  rejectIf (request.expiresAt ≤ now ∨ request.expiresAt > parent.certificate.expiresAt
      ∨ request.expiresAt > state.mission.expiresAt)
    .delegationInvalid "child lease lifetime exceeds its parent or mission"
  validateAuthoritySets request.grantedAuthority request.delegableAuthority
  rejectIf (¬ authorityIsSubsetOf request.grantedAuthority
      parent.certificate.delegableAuthority)
    .delegationInvalid "child granted authority exceeds parent delegable authority"
  validateManifest request.capabilityManifest request.grantedAuthority
  validateManifestAttenuation request.capabilityManifest parent.manifest

/-- `validate_renewal_request`. -/
def validateRenewalRequest (state : AuthorityState) (old : LeaseEntry)
    (request : RenewalRequest) (now : DateTime) : Result Unit := do
  rejectIf (request.expiresAt ≤ now ∨ request.expiresAt > state.mission.expiresAt)
    .delegationInvalid "renewed lease lifetime is outside the mission"
  rejectIf (request.semanticContextDigest ≠ old.certificate.semanticContextDigest)
    .semanticContextChanged "renewal must preserve the exact semantic context digest"
  validateAuthoritySets request.grantedAuthority request.delegableAuthority
  rejectIf (¬ authorityIsSubsetOf request.grantedAuthority old.certificate.grantedAuthority
      ∨ ¬ authorityIsSubsetOf request.delegableAuthority old.certificate.delegableAuthority)
    .delegationInvalid "renewal cannot expand authority"
  validateManifest request.capabilityManifest request.grantedAuthority
  validateManifestAttenuation request.capabilityManifest old.manifest
  if let some parentRef := old.certificate.parentLease then
    let parent ← orReject .delegationInvalid "renewal parent lease missing"
      (state.leases.lookup parentRef.leaseId)
    validateActiveRecord parent none now
    rejectIf (request.expiresAt > parent.certificate.expiresAt) .delegationInvalid
      "renewed child cannot outlive its parent"

-- ============================================================================
-- Cascades
-- ============================================================================

/-- A look-up in `children_by_parent`: the stored leases under `parent`, in
    ascending order. -/
def childrenOf (state : AuthorityState) (parent : LeaseId) : List LeaseId :=
  let children := state.leases.entries.filter fun stored => stored.2.parentId = some parent
  sortByKey id (children.map fun stored => stored.1)

/-- The traversal of `descendants_including`. It returns every stored lease at
    most once, so as much fuel as there are leases empties the queue. -/
def descendants (state : AuthorityState) (root : LeaseId) : List LeaseId :=
  bfs (childrenOf state) state.leases.keys.length [root] [root]

/-- `descendants_including`. -/
def descendantsIncluding (state : AuthorityState) (root : LeaseId) :
    Result (List LeaseId) := do
  rejectIf (root ∉ state.leases) .leaseInactive "lease not found"
  return descendants state root

/-- Every change of state advances the generation. -/
def LeaseRecord.advance (next : LeaseState) (record : LeaseRecord) : LeaseRecord :=
  { record with state := next, generation := record.generation + 1 }

/-- The record of a lease that is revoked. -/
def LeaseRecord.revoke (reason : String) (now : DateTime) (record : LeaseRecord) :
    LeaseRecord :=
  { record.advance .revoked with revokedAt := some now, revocationReason := some reason }

/-- The record of a lease that is replaced by a renewal. -/
def LeaseRecord.retire (renewedBy : LeaseId) (record : LeaseRecord) : LeaseRecord :=
  { record.advance .retired with renewedBy := some renewedBy }

/-- The body of the loops of `revoke` and `revoke_descendants`. -/
def revokeIfLive (reason : String) (now : DateTime) (related : Option LeaseId)
    (leaseId : LeaseId) : KernelM Unit := do
  let entry ← orReject .leaseInactive "descendant lease disappeared"
    ((← get).leases.lookup leaseId)
  if entry.record.state.isLive then
    modify (·.putLease leaseId { entry with record := entry.record.revoke reason now })
    modify (·.pushEvent leaseId related .leaseRevoked now)

/-- `revoke_descendants`. -/
def revokeDescendants (root : LeaseId) (reason : String) (now : DateTime) :
    KernelM Unit := do
  let descendants ← ofResult (descendantsIncluding (← get) root)
  forM (descendants.drop 1) (revokeIfLive reason now (some root))

-- ============================================================================
-- Operations
-- ============================================================================

/-- `AuthorityKernel::bootstrap`. -/
def bootstrap (request : RootLeaseRequest) (rootCustody : KeyCustody) (now : DateTime)
    (uuid : String) : Result AuthorityState := do
  validateRootRequest request now
  let rootIdentity ← signedIdentity request.agentId rootCustody none rootCustody now
  let identityDigest ← rootIdentity.canonicalDigest
  let leaseId ← newLeaseId uuid
  let certificate ← signedLease
    (request.draft now leaseId identityDigest (← request.capabilityManifest.canonicalDigest))
    identityDigest rootCustody
  let state : AuthorityState :=
    { mission := request.mission
      rootLeaseId := leaseId
      identities := AList.singleton request.agentId rootIdentity
      custodians := AList.singleton request.agentId rootCustody
      leases := AList.singleton leaseId
        ⟨certificate, LeaseRecord.active leaseId, request.capabilityManifest⟩
      events := [] }
  let state := state.pushEvent leaseId none .identityRegistered now
  return state.pushEvent leaseId none .leaseIssued now

/-- `AuthorityKernel::delegate`. -/
def delegate (request : DelegationRequest) (childCustody : KeyCustody) (now : DateTime)
    (uuid : String) : KernelM LeaseId := do
  let state ← get
  let parent ← orReject .leaseInactive "parent lease not found"
    (state.leases.lookup request.parentLeaseId)
  ofResult (validateActiveRecord parent (some request.expectedParentGeneration) now)
  let validatedParent ← ofResult (validateChain state request.parentLeaseId
    (some request.expectedParentGeneration) parent.manifest now)
  rejectIf (validatedParent.chain.length ≥ maxAuthorityChainDepth) .delegationInvalid
    "delegation would exceed the maximum authority chain depth"
  ofResult (validateDelegationRequest state parent request now)
  rejectIf (request.childAgentId ∈ state.identities) .identityInvalid
    "child agent identity is already registered"
  rejectIf (∃ stored ∈ state.identities.entries, stored.2.keyId = childCustody.keyId)
    .identityInvalid "child key id is already bound to an agent"
  let parentCustody ← orReject .identityInvalid "parent key unavailable"
    (state.custodians.lookup parent.certificate.agentId)
  let childIdentity ← ofResult (signedIdentity request.childAgentId childCustody
    (some parent.certificate.agentId) parentCustody now)
  let childIdentityDigest ← ofResult childIdentity.canonicalDigest
  let parentIdentity ← orReject .identityInvalid "parent identity missing"
    (state.identities.lookup parent.certificate.agentId)
  let parentReference ← ofResult (leaseRef parent.certificate)
  let childLeaseId ← ofResult (newLeaseId uuid)
  let capabilityManifestDigest ← ofResult request.capabilityManifest.canonicalDigest
  let parentIdentityDigest ← ofResult parentIdentity.canonicalDigest
  let childCertificate ← ofResult <| signedLease
    (request.draft now parent childLeaseId childIdentityDigest parentReference
      capabilityManifestDigest)
    parentIdentityDigest parentCustody
  modify fun state =>
    { state with
      identities := state.identities.insert request.childAgentId childIdentity
      custodians := state.custodians.insert request.childAgentId childCustody }
  modify (·.putLease childLeaseId
    ⟨childCertificate, LeaseRecord.active childLeaseId, request.capabilityManifest⟩)
  modify (·.pushEvent childLeaseId (some request.parentLeaseId) .identityRegistered now)
  modify (·.pushEvent childLeaseId (some request.parentLeaseId) .leaseDelegated now)
  return childLeaseId

/-- `AuthorityKernel::transition`. -/
def transition (leaseId : LeaseId) (expectedGeneration : Nat)
    (expectedState nextState : LeaseState) (event : AuthorityEventKind) (now : DateTime) :
    KernelM LeaseRecord := do
  let entry ← orReject .leaseInactive "lease not found" ((← get).leases.lookup leaseId)
  ofResult (requireGeneration entry.record expectedGeneration)
  rejectIf (entry.record.state ≠ expectedState ∨ now ≥ entry.certificate.expiresAt)
    .leaseInactive "lease state does not allow the requested transition"
  let record := entry.record.advance nextState
  modify (·.putLease leaseId { entry with record := record })
  modify (·.pushEvent leaseId none event now)
  return record

/-- `AuthorityKernel::pause`. -/
def pause (leaseId : LeaseId) (expectedGeneration : Nat) (now : DateTime) :
    KernelM LeaseRecord :=
  transition leaseId expectedGeneration .active .paused .leasePaused now

/-- `AuthorityKernel::resume`. -/
def resume (leaseId : LeaseId) (expectedGeneration : Nat) (now : DateTime) :
    KernelM LeaseRecord :=
  transition leaseId expectedGeneration .paused .active .leaseResumed now

/-- `AuthorityKernel::revoke`. -/
def revoke (leaseId : LeaseId) (expectedGeneration : Nat) (reason : String)
    (now : DateTime) : KernelM (List LeaseId) := do
  let entry ← orReject .leaseInactive "lease not found" ((← get).leases.lookup leaseId)
  ofResult (requireGeneration entry.record expectedGeneration)
  rejectIf (¬ entry.record.state.isLive) .leaseInactive
    "only active or paused leases may be revoked"
  let affected ← ofResult (descendantsIncluding (← get) leaseId)
  forM affected fun affectedId =>
    revokeIfLive reason now (if affectedId ≠ leaseId then some leaseId else none) affectedId
  return affected

/-- The body of the loop of `refresh_expirations`. -/
def expireIfLive (now : DateTime) (expired : List LeaseId) (leaseId : LeaseId) :
    KernelM (List LeaseId) := do
  let entry ← orReject .leaseInactive "expiring lease disappeared"
    ((← get).leases.lookup leaseId)
  if entry.record.state.isLive then
    modify (·.putLease leaseId { entry with record := entry.record.advance .expired })
    modify (·.pushEvent leaseId none .leaseExpired now)
    revokeDescendants leaseId "ancestor lease expired" now
    return expired ++ [leaseId]
  else
    return expired

/-- The leases `refresh_expirations` goes through, in ascending order. -/
def dueLeases (state : AuthorityState) (now : DateTime) : List LeaseId :=
  let due := state.leases.entries.filter fun stored =>
    stored.2.record.state.isLive && decide (now ≥ stored.2.certificate.expiresAt)
  sortByKey id (due.map fun stored => stored.1)

/-- `AuthorityKernel::refresh_expirations`. -/
def refreshExpirations (now : DateTime) : KernelM (List LeaseId) := do
  let due := dueLeases (← get) now
  due.foldlM (expireIfLive now) []

/-- `AuthorityKernel::renew`. -/
def renew (request : RenewalRequest) (now : DateTime) (uuid : String) :
    KernelM LeaseId := do
  let state ← get
  let old ← orReject .leaseInactive "lease not found" (state.leases.lookup request.leaseId)
  ofResult (validateActiveRecord old (some request.expectedGeneration) now)
  let _ ← ofResult (validateChain state request.leaseId (some request.expectedGeneration)
    old.manifest now)
  ofResult (validateRenewalRequest state old request now)
  let issuerAgentId := old.certificate.parentAgentId.getD old.certificate.agentId
  let issuerIdentity ← orReject .identityInvalid "renewal issuer identity missing"
    (state.identities.lookup issuerAgentId)
  let issuerCustody ← orReject .identityInvalid "renewal key unavailable"
    (state.custodians.lookup issuerAgentId)
  let renewedId ← ofResult (newLeaseId uuid)
  let renewedFrom ← ofResult (leaseRef old.certificate)
  let capabilityManifestDigest ← ofResult request.capabilityManifest.canonicalDigest
  let issuerIdentityDigest ← ofResult issuerIdentity.canonicalDigest
  let certificate ← ofResult <| signedLease
    (request.draft now old renewedId renewedFrom capabilityManifestDigest)
    issuerIdentityDigest issuerCustody
  let oldEntry ← orReject .leaseInactive "renewed lease disappeared"
    ((← get).leases.lookup request.leaseId)
  modify (·.putLease request.leaseId
    { oldEntry with record := oldEntry.record.retire renewedId })
  revokeDescendants request.leaseId "ancestor lease retired during renewal" now
  modify (·.putLease renewedId
    ⟨certificate, LeaseRecord.active renewedId, request.capabilityManifest⟩)
  modify fun state =>
    if state.rootLeaseId = request.leaseId then { state with rootLeaseId := renewedId }
    else state
  modify (·.pushEvent renewedId (some request.leaseId) .leaseRenewed now)
  return renewedId

/-- An operation under the write lock, with all its arguments but the UUID. -/
inductive KernelOp where
  | delegate (request : DelegationRequest) (childCustody : KeyCustody) (now : DateTime)
  | pause (leaseId : LeaseId) (expectedGeneration : Nat) (now : DateTime)
  | resume (leaseId : LeaseId) (expectedGeneration : Nat) (now : DateTime)
  | revoke (leaseId : LeaseId) (expectedGeneration : Nat) (reason : String) (now : DateTime)
  | refreshExpirations (now : DateTime)
  | renew (request : RenewalRequest) (now : DateTime)

/-- What an operation returns. -/
inductive KernelReturn where
  | lease (leaseId : LeaseId)
  | record (record : LeaseRecord)
  | leases (leaseIds : List LeaseId)

/-- Run one operation. -/
def KernelOp.exec (uuid : String) : KernelOp → KernelM KernelReturn
  | .delegate request childCustody now =>
      .lease <$> GenesisRuntime.delegate request childCustody now uuid
  | .pause leaseId generation now => .record <$> GenesisRuntime.pause leaseId generation now
  | .resume leaseId generation now => .record <$> GenesisRuntime.resume leaseId generation now
  | .revoke leaseId generation reason now =>
      .leases <$> GenesisRuntime.revoke leaseId generation reason now
  | .refreshExpirations now => .leases <$> GenesisRuntime.refreshExpirations now
  | .renew request now => .lease <$> GenesisRuntime.renew request now uuid

end

end GenesisRuntime
