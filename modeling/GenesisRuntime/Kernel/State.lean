/-
  GenesisRuntime.Kernel.State

  `authority_kernel.rs`: the data of the authority kernel.  The maps are finite
  maps; where the sources iterate over one, they sort what they collect.
-/

import GenesisRuntime.Identity
import GenesisRuntime.Lib.AssocMap
import GenesisRuntime.Mission

namespace GenesisRuntime

/-- `MAX_AUTHORITY_CHAIN_DEPTH`. -/
def maxAuthorityChainDepth : Nat := 32

/-- `AuthorityEventKind`. -/
inductive AuthorityEventKind where
  | identityRegistered
  | leaseIssued
  | leaseDelegated
  | leasePaused
  | leaseResumed
  | leaseRevoked
  | leaseExpired
  | leaseRenewed
deriving DecidableEq, Repr

/-- `AuthorityEvent`. -/
structure AuthorityEvent where
  sequence : Nat
  leaseId : LeaseId
  relatedLeaseId : Option LeaseId
  kind : AuthorityEventKind
  occurredAt : DateTime
deriving DecidableEq

section
variable [Externals]

/-- `RootLeaseRequest`. -/
structure RootLeaseRequest where
  mission : MissionEnvelope
  agentId : AgentId
  grantedAuthority : AuthoritySet
  delegableAuthority : AuthoritySet
  capabilityManifest : CapabilityManifest
  semanticContextDigest : Digest
  expiresAt : DateTime

/-- `DelegationRequest`. -/
structure DelegationRequest where
  parentLeaseId : LeaseId
  expectedParentGeneration : Nat
  childAgentId : AgentId
  grantedAuthority : AuthoritySet
  delegableAuthority : AuthoritySet
  capabilityManifest : CapabilityManifest
  semanticContextDigest : Digest
  expiresAt : DateTime

/-- `RenewalRequest`. -/
structure RenewalRequest where
  leaseId : LeaseId
  expectedGeneration : Nat
  grantedAuthority : AuthoritySet
  delegableAuthority : AuthoritySet
  capabilityManifest : CapabilityManifest
  semanticContextDigest : Digest
  expiresAt : DateTime

/-- `LeaseEntry`, which `LeaseSnapshot` copies field by field. -/
structure LeaseEntry where
  certificate : AuthorityLeaseCertificate
  record : LeaseRecord
  manifest : CapabilityManifest
deriving DecidableEq

/-- The stored lease a certificate names as its parent. -/
def LeaseEntry.parentId (entry : LeaseEntry) : Option LeaseId :=
  entry.certificate.parentLease.map LeaseRef.leaseId

theorem LeaseEntry.parentId_eq_none {entry : LeaseEntry} :
    entry.parentId = none ↔ entry.certificate.parentLease = none := by
  simp [parentId]

theorem LeaseEntry.parentId_eq_some {entry : LeaseEntry} {id : LeaseId} :
    entry.parentId = some id ↔
      ∃ ref, entry.certificate.parentLease = some ref ∧ ref.leaseId = id := by
  simp [parentId]

/-- `LeaseSnapshot`. -/
abbrev LeaseSnapshot := LeaseEntry

/-- `ValidatedAuthority`. -/
structure ValidatedAuthority where
  leafLeaseId : LeaseId
  leafExpiresAt : DateTime
  agentIdentityDigest : Digest
  capabilityManifestDigest : Digest
  semanticContextDigest : Digest
  chain : List LeaseRef
  observedGenerations : List (LeaseId × Nat)
deriving DecidableEq

/-- `AuthorityState`. -/
structure AuthorityState where
  mission : MissionEnvelope
  rootLeaseId : LeaseId
  identities : AList fun _ : AgentId => AgentIdentityCertificate
  custodians : AList fun _ : AgentId => KeyCustody
  leases : AList fun _ : LeaseId => LeaseEntry
  events : List AuthorityEvent

namespace AuthorityState

/-- `push_event`. -/
def pushEvent (leaseId : LeaseId) (relatedLeaseId : Option LeaseId)
    (kind : AuthorityEventKind) (occurredAt : DateTime) (state : AuthorityState) :
    AuthorityState :=
  { state with
    events := state.events ++
      [{ sequence := state.events.length + 1
         leaseId := leaseId
         relatedLeaseId := relatedLeaseId
         kind := kind
         occurredAt := occurredAt }] }

/-- Store an entry, in place of the one that was there. -/
def putLease (leaseId : LeaseId) (entry : LeaseEntry) (state : AuthorityState) :
    AuthorityState :=
  { state with leases := state.leases.insert leaseId entry }

section
variable {leaseId : LeaseId} {related : Option LeaseId} {kind : AuthorityEventKind}
  {now : DateTime} {entry : LeaseEntry} (state : AuthorityState)

@[simp] theorem pushEvent_mission :
    (pushEvent leaseId related kind now state).mission = state.mission := rfl
@[simp] theorem pushEvent_rootLeaseId :
    (pushEvent leaseId related kind now state).rootLeaseId = state.rootLeaseId := rfl
@[simp] theorem pushEvent_identities :
    (pushEvent leaseId related kind now state).identities = state.identities := rfl
@[simp] theorem pushEvent_custodians :
    (pushEvent leaseId related kind now state).custodians = state.custodians := rfl
@[simp] theorem pushEvent_leases :
    (pushEvent leaseId related kind now state).leases = state.leases := rfl

@[simp] theorem putLease_mission : (putLease leaseId entry state).mission = state.mission := rfl
@[simp] theorem putLease_rootLeaseId :
    (putLease leaseId entry state).rootLeaseId = state.rootLeaseId := rfl
@[simp] theorem putLease_identities :
    (putLease leaseId entry state).identities = state.identities := rfl
@[simp] theorem putLease_custodians :
    (putLease leaseId entry state).custodians = state.custodians := rfl

theorem lookup_putLease (id : LeaseId) :
    (putLease leaseId entry state).leases.lookup id
      = if id = leaseId then some entry else state.leases.lookup id :=
  AList.lookup_insert_ite leaseId entry state.leases id

end

end AuthorityState

end

end GenesisRuntime
