/-
  GenesisRuntime.Kernel.Checks

  The checks of a validation and of the requests, each read back as what it takes
  for it to pass, and what signing makes of a draft.  A kernel that has just been
  bootstrapped passes them all, so its root lease validates.
-/

import GenesisRuntime.Kernel.Chain
import GenesisRuntime.Serialization

namespace GenesisRuntime

section
variable [Externals] {s : AuthorityState}

-- ============================================================================
-- Authority and manifests
-- ============================================================================

theorem authorityIsSubsetOfCapabilities_iff {child : AuthoritySet} {parent : List Capability} :
    authorityIsSubsetOfCapabilities child parent = true ↔
      ∀ c ∈ child.capabilities, ∃ granted ∈ parent, isSubsetOf c granted = true := by
  simp [authorityIsSubsetOfCapabilities]

/-- Coverage is transitive as `Capability::is_subset_of` is. -/
theorem authorityIsSubsetOfCapabilities_trans (htrans : SubsetTransitive) {a b : AuthoritySet}
    {cs : List Capability} (hab : authorityIsSubsetOf a b = true)
    (hbc : authorityIsSubsetOfCapabilities b cs = true) :
    authorityIsSubsetOfCapabilities a cs = true := by
  rw [authorityIsSubsetOf, authorityIsSubsetOfCapabilities_iff] at hab
  rw [authorityIsSubsetOfCapabilities_iff] at hbc ⊢
  intro c hc
  obtain ⟨d, hd, hcd⟩ := hab c hc
  obtain ⟨e, he, hde⟩ := hbc d hd
  exact ⟨e, he, htrans c d e hcd hde⟩

theorem authorityIsSubsetOf_trans (htrans : SubsetTransitive) {a b c : AuthoritySet}
    (hab : authorityIsSubsetOf a b = true) (hbc : authorityIsSubsetOf b c = true) :
    authorityIsSubsetOf a c = true :=
  authorityIsSubsetOfCapabilities_trans htrans hab hbc

theorem validateAuthoritySets_eq_ok {granted delegable : AuthoritySet} :
    validateAuthoritySets granted delegable = .ok () ↔
      (capabilityAll ∉ granted.capabilities ∧ capabilityAll ∉ delegable.capabilities) ∧
        authorityIsSubsetOf delegable granted = true := by
  simp [validateAuthoritySets, Except.bind_eq_ok]

theorem validateManifest_eq_ok {manifest : CapabilityManifest} {authority : AuthoritySet} :
    validateManifest manifest authority = .ok () ↔
      manifest.version = 1 ∧
      canonicalCapabilities manifest.permissions.capabilities = .ok authority.capabilities ∧
      (manifest.approvedTools.map BoundTool.toolId).Nodup := by
  simp only [validateManifest, Except.bind_eq_ok, rejectIf_eq_ok, authority.canonical, not_not]
  constructor
  · rintro ⟨_, hversion, permissions, hpermissions, granted, hgranted, _, rfl, hnodup⟩
    cases hgranted
    exact ⟨hversion, hpermissions, hnodup⟩
  · rintro ⟨hversion, hpermissions, hnodup⟩
    exact ⟨(), hversion, _, hpermissions, _, rfl, (), rfl, hnodup⟩

theorem validateManifestAttenuation_eq_ok {child parent : CapabilityManifest} :
    validateManifestAttenuation child parent = .ok () ↔
      child.version = parent.version ∧
      child.modelManifestDigest = parent.modelManifestDigest ∧
      child.runtimeConfigDigest = parent.runtimeConfigDigest ∧
      child.toolRegistryRootDigest = parent.toolRegistryRootDigest ∧
      child.approvedTools ⊆ parent.approvedTools := by
  simp only [validateManifestAttenuation, rejectIf_eq_ok, not_or, not_not, not_exists, not_and]
  rfl

theorem validateManifestAttenuation_trans {a b c : CapabilityManifest}
    (hab : validateManifestAttenuation a b = .ok ())
    (hbc : validateManifestAttenuation b c = .ok ()) :
    validateManifestAttenuation a c = .ok () := by
  rw [validateManifestAttenuation_eq_ok] at hab hbc ⊢
  obtain ⟨hversion, hmodel, hconfig, hroot, htools⟩ := hab
  obtain ⟨hversion', hmodel', hconfig', hroot', htools'⟩ := hbc
  exact ⟨hversion.trans hversion', hmodel.trans hmodel', hconfig.trans hconfig',
    hroot.trans hroot', List.Subset.trans htools htools'⟩

-- ============================================================================
-- Requests
-- ============================================================================

theorem validateRootRequest_eq_ok {request : RootLeaseRequest} {now : DateTime} :
    validateRootRequest request now = .ok () ↔
      (request.mission.isUsableAt now = true ∧ now < request.expiresAt ∧
        request.expiresAt ≤ request.mission.expiresAt) ∧
      validateAuthoritySets request.grantedAuthority request.delegableAuthority = .ok () ∧
      authorityIsSubsetOfCapabilities request.grantedAuthority
        request.mission.allowedCapabilities = true ∧
      validateManifest request.capabilityManifest request.grantedAuthority = .ok () ∧
      ∀ bound ∈ request.capabilityManifest.approvedTools,
        bound.toolId ∈ request.mission.allowedTools := by
  simp [validateRootRequest, Except.bind_eq_ok, Except.exists_unit, and_assoc]

theorem validateDelegationRequest_eq_ok {parent : LeaseEntry}
    {request : DelegationRequest} {now : DateTime} :
    validateDelegationRequest s parent request now = .ok () ↔
      (now < request.expiresAt ∧ request.expiresAt ≤ parent.certificate.expiresAt ∧
        request.expiresAt ≤ s.mission.expiresAt) ∧
      validateAuthoritySets request.grantedAuthority request.delegableAuthority = .ok () ∧
      authorityIsSubsetOf request.grantedAuthority parent.certificate.delegableAuthority = true ∧
      validateManifest request.capabilityManifest request.grantedAuthority = .ok () ∧
      validateManifestAttenuation request.capabilityManifest parent.manifest = .ok () := by
  simp [validateDelegationRequest, Except.bind_eq_ok, Except.exists_unit, and_assoc]

theorem validateRenewalRequest_eq_ok {old : LeaseEntry}
    {request : RenewalRequest} {now : DateTime} :
    validateRenewalRequest s old request now = .ok () ↔
      (now < request.expiresAt ∧ request.expiresAt ≤ s.mission.expiresAt) ∧
      request.semanticContextDigest = old.certificate.semanticContextDigest ∧
      validateAuthoritySets request.grantedAuthority request.delegableAuthority = .ok () ∧
      (authorityIsSubsetOf request.grantedAuthority old.certificate.grantedAuthority = true ∧
        authorityIsSubsetOf request.delegableAuthority
          old.certificate.delegableAuthority = true) ∧
      validateManifest request.capabilityManifest request.grantedAuthority = .ok () ∧
      validateManifestAttenuation request.capabilityManifest old.manifest = .ok () ∧
      ∀ id, old.parentId = some id → ∃ parent, s.leases.lookup id = some parent ∧
        parent.ActiveAt now ∧ request.expiresAt ≤ parent.certificate.expiresAt := by
  simp only [validateRenewalRequest, Except.bind_eq_ok, rejectIf_eq_ok, not_or, not_not,
    not_le, not_lt, gt_iff_lt]
  cases hparent : old.certificate.parentLease with
  | none => simp [LeaseEntry.parentId, hparent, Except.pure_eq_ok, Except.exists_unit]
  | some ref =>
      simp [LeaseEntry.parentId, hparent, Except.bind_eq_ok, Except.exists_unit,
        validateActiveRecord_eq_ok, LeaseEntry.ActiveAt, and_assoc]

-- ============================================================================
-- What is signed
-- ============================================================================

theorem signedIdentity_eq_ok {agentId : AgentId} {subject issuer : KeyCustody}
    {issuerAgentId : Option AgentId} {now : DateTime} {identity : AgentIdentityCertificate}
    (h : signedIdentity agentId subject issuerAgentId issuer now = .ok identity) :
    (∃ signature, identity = { AgentIdentityCertificate.unsigned agentId subject.keyId
        subject.verifyingKey issuerAgentId issuer.keyId now with signature := signature }) ∧
      identity.verifySignature issuer.verifyingKey = .ok () := by
  simp only [signedIdentity, Except.bind_eq_ok, Except.pure_eq_ok] at h
  obtain ⟨payload, -, signature, -, _, hverify, rfl⟩ := h
  exact ⟨⟨signature, rfl⟩, hverify⟩

theorem signedLease_eq_ok {draft : LeaseDraft} {digest : Digest} {custody : KeyCustody}
    {certificate : AuthorityLeaseCertificate}
    (h : signedLease draft digest custody = .ok certificate) :
    (∃ signature, certificate
      = { draft.certificate digest custody.keyId with signature := signature }) ∧
      certificate.verifySignature custody.verifyingKey = .ok () := by
  simp only [signedLease, Except.bind_eq_ok, Except.pure_eq_ok] at h
  obtain ⟨payload, -, signature, -, _, hverify, rfl⟩ := h
  exact ⟨⟨signature, rfl⟩, hverify⟩

/-- `certificate` is the signed form of `draft`: the two agree on everything the
    draft says. -/
theorem signedLease_fields {draft : LeaseDraft} {digest : Digest} {custody : KeyCustody}
    {certificate : AuthorityLeaseCertificate}
    (h : signedLease draft digest custody = .ok certificate) :
    ∃ signature, certificate
      = { draft.certificate digest custody.keyId with signature := signature } :=
  (signedLease_eq_ok h).1

/-- A certificate can always be referred to. -/
theorem exists_leaseRef (certificate : AuthorityLeaseCertificate) :
    ∃ ref, leaseRef certificate = .ok ref := by
  obtain ⟨digest, hdigest⟩ : ∃ digest,
      canonicalDigest "aeon-authority-lease-certificate-record-v2" certificate = .ok digest :=
    exists_canonicalDigest ⟨by decide, by decide⟩ certificate
  exact ⟨_, Except.bind_eq_ok.mpr ⟨digest, hdigest, rfl⟩⟩

theorem leaseRef_eq_ok {certificate : AuthorityLeaseCertificate} {ref : LeaseRef}
    (h : leaseRef certificate = .ok ref) : ref.leaseId = certificate.leaseId := by
  simp only [leaseRef, Except.bind_eq_ok, Except.pure_eq_ok] at h
  obtain ⟨digest, -, rfl⟩ := h
  rfl

-- ============================================================================
-- The identity walk
-- ============================================================================

/-- The identities from an agent up to the one that issued its own. -/
abbrev IssuerPath (s : AuthorityState) :
    AgentId → List (AgentId × AgentIdentityCertificate) → Prop :=
  Ascends s.identities.lookup AgentIdentityCertificate.issuerAgentId

/-- The identity bears the key id and a valid signature of the issuer. -/
def IssuedBy (identity issuer : AgentIdentityCertificate) : Prop :=
  identity.issuerKeyId = issuer.keyId ∧
    ∃ key, issuer.verifyingKey = .ok key ∧ identity.verifySignature key = .ok ()

/-- The identity is issued by the agent it names, or by itself. -/
structure Issuance (s : AuthorityState) (identity : AgentIdentityCertificate) : Prop where
  issued : ∀ issuerId, identity.issuerAgentId = some issuerId →
    ∃ issuer, s.identities.lookup issuerId = some issuer ∧ IssuedBy identity issuer
  selfIssued : identity.issuerAgentId = none → IssuedBy identity identity

/-- Along a path on which every identity is properly issued, the walk succeeds when it gets
    to the end of the path, or to an identity that was validated before, in time. -/
theorem identityWalk_iff {validated : List AgentId} {remaining : Nat} {agent : AgentId}
    {visited : List AgentId} {path : List (AgentId × AgentIdentityCertificate)}
    (hpath : IssuerPath s agent path) (hvisited : ∀ node ∈ path, node.1 ∉ visited)
    (hissued : ∀ node ∈ path, Issuance s node.2) :
    (∃ identities, identityWalk s validated remaining agent visited = .ok identities) ↔
      path.length ≤ remaining ∨ ∃ node ∈ path.take remaining, node.1 ∈ validated := by
  induction hpath generalizing remaining visited with
  | @root agent identity hfind hup =>
      cases remaining with
      | zero => simp [identityWalk, Except.throw_eq_ok]
      | succ remaining =>
          refine iff_of_true ?_ (.inl (by simp))
          obtain ⟨hkeyId, key, hkey, hverify⟩ :=
            (hissued (agent, identity) (by simp)).selfIssued hup
          rw [identityWalk]
          split
          · exact ⟨[], rfl⟩
          · refine ⟨[agent], ?_⟩
            simp only [Except.bind_eq_ok, rejectIf_eq_ok, orReject_eq_ok]
            refine ⟨(), hvisited (agent, identity) (by simp), identity, hfind, ?_⟩
            simp only [hup, Except.bind_eq_ok, rejectIf_eq_ok, not_not]
            exact ⟨(), hkeyId, key, hkey, (), hverify, rfl⟩
  | @step agent issuerId identity path hfind hup rest ih =>
      cases remaining with
      | zero => simp [identityWalk, Except.throw_eq_ok]
      | succ remaining =>
          obtain ⟨issuer, hissuer, hkeyId, key, hkey, hverify⟩ :=
            (hissued (agent, identity) (by simp)).issued issuerId hup
          have hpos : 0 < path.length := List.length_pos_of_ne_nil rest.ne_nil
          have hpath : IssuerPath s agent ((agent, identity) :: path) := .step hfind hup rest
          have hrest := @ih remaining (agent :: visited) (hpath.not_mem_visited hvisited)
            (fun node hnode => hissued node (List.mem_cons_of_mem _ hnode))
          rw [identityWalk]
          split
          · rename_i hcached
            exact iff_of_true ⟨[], rfl⟩ (.inr ⟨(agent, identity), by simp, hcached⟩)
          rename_i hcached
          rw [List.length_cons, Nat.add_le_add_iff_right, List.take_succ_cons,
            List.exists_mem_cons_iff,
            or_iff_right hcached, ← hrest]
          simp only [Except.bind_eq_ok, rejectIf_eq_ok, orReject_eq_ok]
          constructor
          · rintro ⟨identities, _, -, identity', hfind', h⟩
            rw [hfind] at hfind'
            cases hfind'
            simp only [hup, Except.bind_eq_ok] at h
            obtain ⟨_, -, _, -, _, -, _, -, _, -, identities', hwalk, -⟩ := h
            exact ⟨identities', hwalk⟩
          · rintro ⟨identities, hwalk⟩
            have hremaining : remaining ≠ 0 := by
              rintro rfl
              simp [identityWalk, Except.throw_eq_ok] at hwalk
            refine ⟨agent :: identities, (), hvisited (agent, identity) (by simp), identity, hfind,
              ?_⟩
            simp only [hup, Except.bind_eq_ok, rejectIf_eq_ok, orReject_eq_ok, not_not]
            exact ⟨(), hremaining, issuer, hissuer, (), hkeyId, key, hkey, (), hverify, identities,
              hwalk, rfl⟩

/-- So does the check of the whole identity chain. -/
theorem validateIdentityChain_iff {agent : AgentId}
    {path : List (AgentId × AgentIdentityCertificate)} (hpath : IssuerPath s agent path)
    (hissued : ∀ node ∈ path, Issuance s node.2) (cache : List AgentId) :
    (∃ cache', validateIdentityChain s agent cache = .ok () cache') ↔
      path.length ≤ maxAuthorityChainDepth ∨
        ∃ node ∈ path.take maxAuthorityChainDepth, node.1 ∈ cache := by
  simp only [validateIdentityChain, EStateM.get_bind_eq_ok]
  by_cases hcached : agent ∈ cache
  · obtain ⟨identity, rest, rfl, -⟩ := hpath.head_eq
    rw [if_pos hcached]
    exact iff_of_true ⟨cache, rfl⟩
      (.inr ⟨(agent, identity), by simp [maxAuthorityChainDepth], hcached⟩)
  · simp only [if_neg hcached, ofResult_bind_eq_ok, EStateM.modify_eq_ok]
    have hvisited : ∀ node ∈ path, node.1 ∉ ([] : List AgentId) := by simp
    rw [← identityWalk_iff hpath hvisited hissued]
    constructor
    · rintro ⟨_, identities, hwalk, -⟩
      exact ⟨identities, hwalk⟩
    · rintro ⟨identities, hwalk⟩
      exact ⟨_, identities, hwalk, rfl⟩

theorem validateIdentityChain_complete {agent : AgentId}
    {path : List (AgentId × AgentIdentityCertificate)} (hpath : IssuerPath s agent path)
    (hlen : path.length ≤ maxAuthorityChainDepth)
    (hissued : ∀ node ∈ path, Issuance s node.2) (cache : List AgentId) :
    ∃ cache', validateIdentityChain s agent cache = .ok () cache' :=
  (validateIdentityChain_iff hpath hissued cache).mpr (.inl hlen)

-- ============================================================================
-- The lease walk
-- ============================================================================

theorem validateBindings_eq_ok {entry : LeaseEntry} {subject : AgentIdentityCertificate} :
    validateBindings s entry subject = .ok () ↔
      subject.canonicalDigest = .ok entry.certificate.agentIdentityDigest ∧
      (∃ issuer, s.identities.lookup
          (entry.certificate.parentAgentId.getD entry.certificate.agentId) = some issuer ∧
        issuer.canonicalDigest = .ok entry.certificate.issuerIdentityDigest ∧
        issuer.keyId = entry.certificate.issuerKeyId ∧
        ∃ key, issuer.verifyingKey = .ok key ∧ entry.certificate.verifySignature key = .ok ()) ∧
      ∀ ref, entry.certificate.renewedFrom = some ref →
        ∃ predecessor, s.leases.lookup ref.leaseId = some predecessor ∧
          leaseRef predecessor.certificate = .ok ref ∧
          predecessor.certificate.agentId = entry.certificate.agentId ∧
          predecessor.certificate.missionId = entry.certificate.missionId ∧
          predecessor.record.state = .retired ∧
          predecessor.record.renewedBy = some entry.certificate.leaseId := by
  simp only [validateBindings, Except.bind_eq_ok, rejectIf_eq_ok, orReject_eq_ok,
    Except.exists_unit, not_or, not_not]
  constructor
  · rintro ⟨_, hsubject, rfl, issuer, hissuer, _, hdigest, ⟨rfl, hkeyId⟩, key, hkey, hverify,
      hrenewed⟩
    refine ⟨hsubject, ⟨issuer, hissuer, hdigest, hkeyId, key, hkey, hverify⟩, ?_⟩
    intro ref href
    simp only [href, Except.bind_eq_ok, rejectIf_eq_ok, orReject_eq_ok, not_or, not_not]
      at hrenewed
    obtain ⟨predecessor, hpredecessor, _, href', rfl, hrest⟩ := hrenewed
    exact ⟨predecessor, hpredecessor, href', hrest⟩
  · rintro ⟨hsubject, ⟨issuer, hissuer, hdigest, hkeyId, key, hkey, hverify⟩, hrenewed⟩
    refine ⟨_, hsubject, rfl, issuer, hissuer, _, hdigest, ⟨rfl, hkeyId⟩, key, hkey, hverify, ?_⟩
    cases href : entry.certificate.renewedFrom with
    | none => rfl
    | some ref =>
        obtain ⟨predecessor, hpredecessor, href', hrest⟩ := hrenewed ref href
        simp only [Except.bind_eq_ok, rejectIf_eq_ok, orReject_eq_ok, not_or, not_not]
        exact ⟨predecessor, hpredecessor, ref, href', rfl, hrest⟩

theorem validateParentChild_eq_ok {parent child : LeaseEntry} :
    validateParentChild parent child = .ok () ↔
      (∃ ref, child.certificate.parentLease = some ref ∧ leaseRef parent.certificate = .ok ref) ∧
      child.certificate.parentAgentId = some parent.certificate.agentId ∧
      child.certificate.expiresAt ≤ parent.certificate.expiresAt ∧
      authorityIsSubsetOf child.certificate.grantedAuthority
        parent.certificate.delegableAuthority = true ∧
      validateAuthoritySets child.certificate.grantedAuthority
        child.certificate.delegableAuthority = .ok () ∧
      validateManifestAttenuation child.manifest parent.manifest = .ok () := by
  simp only [validateParentChild, Except.bind_eq_ok, rejectIf_eq_ok, orReject_eq_ok,
    Except.exists_unit, not_or, not_not, gt_iff_lt, not_lt]
  constructor
  · rintro ⟨ref, href, _, hparent, ⟨rfl, hagent, hexpires, hsub⟩, hsets, hattn⟩
    exact ⟨⟨ref, href, hparent⟩, hagent, hexpires, hsub, hsets, hattn⟩
  · rintro ⟨⟨ref, href, hparent⟩, hagent, hexpires, hsub, hsets, hattn⟩
    exact ⟨ref, href, ref, hparent, ⟨rfl, hagent, hexpires, hsub⟩, hsets, hattn⟩

/-- What it takes for one lease to pass, whatever was validated before. -/
theorem validateCertificateEntry_complete {entry : LeaseEntry}
    {subject : AgentIdentityCertificate}
    (hmission : entry.certificate.missionId = s.mission.missionId ∧
      entry.certificate.organizationVersion = s.mission.organizationVersion ∧
      entry.certificate.policyEpoch = s.mission.policyEpoch)
    (hmanifest : entry.manifest.canonicalDigest = .ok entry.certificate.capabilityManifestDigest)
    (hsubject : s.identities.lookup entry.certificate.agentId = some subject)
    (hchain : ∀ cache, ∃ cache',
      validateIdentityChain s entry.certificate.agentId cache = .ok () cache')
    (hbindings : validateBindings s entry subject = .ok ()) (cache : List AgentId) :
    ∃ cache', validateCertificateEntry s entry cache = .ok () cache' := by
  obtain ⟨cache', hcache'⟩ := hchain cache
  refine ⟨cache', ?_⟩
  simp only [validateCertificateEntry, orReject_eq_ofResult, rejectIf_eq_ofResult,
    ofResult_bind_eq_ok, orReject_eq_ok, rejectIf_eq_ok, not_or, not_not, Except.exists_unit]
  refine ⟨hmission, _, hmanifest, rfl, subject, hsubject, ?_⟩
  exact EStateM.bind_eq_ok.mpr ⟨(), cache', hcache', ofResult_eq_ok.mpr ⟨hbindings, rfl⟩⟩

-- ============================================================================
-- A delegated lease
-- ============================================================================

namespace Delegation

variable {request : DelegationRequest} {custody : KeyCustody} {now : DateTime}
  {uuid : String} (run : Delegation s request custody now uuid)

theorem entry_parentId : run.entry.parentId = some run.parent.certificate.leaseId := by
  obtain ⟨⟨signature, h⟩, -⟩ := signedLease_eq_ok run.certificate_eq
  have href := leaseRef_eq_ok run.parentReference_eq
  simp only [LeaseEntry.parentId, entry, h]
  exact congrArg some href

theorem entry_agentId : run.entry.certificate.agentId = request.childAgentId := by
  obtain ⟨signature, hcert⟩ := signedLease_fields run.certificate_eq
  simp only [entry, hcert]
  rfl

end Delegation

-- ============================================================================
-- A fresh kernel
-- ============================================================================

namespace Bootstrap

variable {request : RootLeaseRequest} {custody : KeyCustody} {now : DateTime} {uuid : String}
  (run : Bootstrap request custody now uuid)

theorem lookup_identity (agent : AgentId) :
    run.post.identities.lookup agent
      = if agent = request.agentId then some run.identity else none :=
  AList.lookup_singleton_ite request.agentId run.identity agent

theorem lookup_custody (agent : AgentId) :
    run.post.custodians.lookup agent
      = if agent = request.agentId then some custody else none :=
  AList.lookup_singleton_ite request.agentId custody agent

theorem lookup_root : run.post.leases.lookup run.leaseId = some run.entry := by
  rw [run.lookup_post, if_pos rfl]

theorem lookup_agent : run.post.identities.lookup request.agentId = some run.identity := by
  rw [run.lookup_identity, if_pos rfl]

theorem entry_parentId : run.entry.parentId = none := by
  obtain ⟨signature, hcert⟩ := signedLease_fields run.certificate_eq
  simp only [LeaseEntry.parentId, entry, hcert]
  rfl

theorem entry_agentId : run.entry.certificate.agentId = request.agentId := by
  obtain ⟨signature, hcert⟩ := signedLease_fields run.certificate_eq
  simp only [entry, hcert]
  rfl

theorem entry_expiresAt : run.entry.certificate.expiresAt = request.expiresAt := by
  obtain ⟨signature, hcert⟩ := signedLease_fields run.certificate_eq
  simp only [entry, hcert]
  rfl

theorem entry_issuer : run.entry.certificate.parentAgentId.getD run.entry.certificate.agentId
    = request.agentId := by
  obtain ⟨signature, hcert⟩ := signedLease_fields run.certificate_eq
  simp only [entry, hcert]
  rfl

/-- The root lease is a path of its own. -/
theorem root_path : LeasePath run.post run.leaseId [(run.leaseId, run.entry)] :=
  .root run.lookup_root run.entry_parentId

theorem verifyingKey_eq (hkey : VerifyingKeyRoundTrip) :
    run.identity.verifyingKey = .ok custody.verifyingKey := by
  obtain ⟨⟨signature, hidentity⟩, -⟩ := signedIdentity_eq_ok run.identity_eq
  rw [AgentIdentityCertificate.verifyingKey, orReject_eq_ok, hidentity]
  exact hkey custody.verifyingKey

/-- The root identity has issued itself. -/
theorem issuance (hkey : VerifyingKeyRoundTrip) : Issuance run.post run.identity := by
  obtain ⟨⟨signature, hidentity⟩, hverify⟩ := signedIdentity_eq_ok run.identity_eq
  constructor
  · intro issuerId hissuer
    rw [hidentity] at hissuer
    cases hissuer
  · intro _
    refine ⟨?_, custody.verifyingKey, run.verifyingKey_eq hkey, hverify⟩
    rw [hidentity]
    rfl

theorem issuerPath :
    IssuerPath run.post request.agentId [(request.agentId, run.identity)] := by
  obtain ⟨⟨signature, hidentity⟩, -⟩ := signedIdentity_eq_ok run.identity_eq
  refine .root run.lookup_agent ?_
  rw [hidentity]
  rfl

theorem manifest_eq : run.entry.manifest.canonicalDigest
    = .ok run.entry.certificate.capabilityManifestDigest := by
  obtain ⟨signature, hcert⟩ := signedLease_fields run.certificate_eq
  simp only [entry, hcert]
  exact run.manifestDigest_eq

theorem bindings_eq (hkey : VerifyingKeyRoundTrip) :
    validateBindings run.post run.entry run.identity = .ok () := by
  obtain ⟨⟨signature, hcert⟩, hverify⟩ := signedLease_eq_ok run.certificate_eq
  obtain ⟨⟨signature', hidentity⟩, -⟩ := signedIdentity_eq_ok run.identity_eq
  refine validateBindings_eq_ok.mpr ⟨?_, ⟨run.identity, ?_, ?_, ?_, custody.verifyingKey,
    run.verifyingKey_eq hkey, hverify⟩, ?_⟩
  · simp only [entry, hcert]
    exact run.identityDigest_eq
  · rw [run.entry_issuer]
    exact run.lookup_agent
  · simp only [entry, hcert]
    exact run.identityDigest_eq
  · simp only [entry, hcert, hidentity]
    rfl
  · intro ref href
    simp only [entry, hcert] at href
    cases href

/-- The root lease passes, whatever was validated before. -/
theorem validateCertificateEntry_ok (hkey : VerifyingKeyRoundTrip) (cache : List AgentId) :
    ∃ cache', validateCertificateEntry run.post run.entry cache = .ok () cache' := by
  obtain ⟨signature, hcert⟩ := signedLease_fields run.certificate_eq
  refine validateCertificateEntry_complete ?_ run.manifest_eq
    (by rw [run.entry_agentId]; exact run.lookup_agent) ?_ (run.bindings_eq hkey) cache
  · simp only [entry, hcert]
    exact ⟨rfl, rfl, rfl⟩
  · rw [run.entry_agentId]
    refine validateIdentityChain_complete run.issuerPath (by simp [maxAuthorityChainDepth])
      fun node hnode => ?_
    rw [List.mem_singleton.mp hnode]
    exact run.issuance hkey

/-- The root lease of a kernel validates while it is active, under the manifest it was
    issued for. -/
theorem exists_validated (hkey : VerifyingKeyRoundTrip) (later : DateTime)
    (hlater : later < request.expiresAt) (expected : Option Nat)
    (hgeneration : ∀ generation, expected = some generation → generation = 0) :
    ∃ v, validateChain run.post run.leaseId expected request.capabilityManifest later = .ok v ∧
      v.chain.length = 1 := by
  obtain ⟨cache, hwalk⟩ : ∃ cache, chainWalk run.post run.leaseId expected later
      maxAuthorityChainDepth run.leaseId [] [] = .ok [(run.leaseId, run.entry)] cache := by
    refine chainWalk_complete run.root_path (by simp [maxAuthorityChainDepth]) (by simp) ?_ ?_
    · intro node hnode
      rw [List.mem_singleton.mp hnode, if_pos rfl, validateActiveRecord_eq_ok,
        run.entry_expiresAt]
      exact ⟨fun generation h => (hgeneration generation h).symm, rfl, hlater⟩
    · intro node hnode
      rw [List.mem_singleton.mp hnode]
      exact run.validateCertificateEntry_ok hkey
  obtain ⟨ref, href⟩ := exists_leaseRef run.entry.certificate
  have hchain : [(run.leaseId, run.entry)].reverse.mapM (fun node => leaseRef node.2.certificate)
      = .ok [ref] := Except.mapM_eq_ok.mpr (.cons href .nil)
  exact ⟨_, validateChain_eq_ok.mpr ⟨_, cache, run.entry, _, [ref], hwalk, List.isChain_singleton _,
    rfl, run.manifestDigest_eq, run.manifestDigest_eq, hchain, rfl⟩, rfl⟩

end Bootstrap

end

end GenesisRuntime
