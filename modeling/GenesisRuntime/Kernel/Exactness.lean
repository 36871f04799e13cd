/-
  GenesisRuntime.Kernel.Exactness

  When a delegation, a bootstrap and a renewal succeed.  Delegation and renewal make
  some twenty checks; in a reachable state most of them hold already, and what is left
  is what the caller answers for: an active chain, terms within those of the lease it
  starts from, and an identity and a key nobody has.  A bootstrap answers to its
  mission alone.  The lease that is issued is valid at once.
-/

import GenesisRuntime.Authority.Canonical
import GenesisRuntime.Kernel.Frames
import GenesisRuntime.Kernel.Renaming

namespace GenesisRuntime

section
variable [Externals]

-- ============================================================================
-- Signing
-- ============================================================================

/-- A custody object that signs what it is given, with signatures its own public key
    accepts. -/
def KeyCustody.Signs (custody : KeyCustody) : Prop :=
  ∀ payload, ∃ signature, custody.sign payload = .ok signature ∧
    signature.bytes.length = 64 ∧
    Externals.verifies custody.verifyingKey payload signature.bytes = true

theorem KeyCustody.Signs.identity (hkey : VerifyingKeyRoundTrip) {issuer : KeyCustody}
    (hsigns : issuer.Signs) (agentId : AgentId) (subject : KeyCustody)
    (issuerAgentId : Option AgentId) (now : DateTime) :
    ∃ identity, signedIdentity agentId subject issuerAgentId issuer now = .ok identity := by
  let unsigned := AgentIdentityCertificate.unsigned agentId subject.keyId subject.verifyingKey
    issuerAgentId issuer.keyId now
  obtain ⟨payload, hpayload⟩ : ∃ payload, unsigned.signingPayload = .ok payload :=
    exists_canonicalBytes ⟨by decide, by decide⟩ unsigned.exists_payload
  obtain ⟨signature, hsignature, hlength, hverifies⟩ := hsigns payload
  refine ⟨{ unsigned with signature := signature }, ?_⟩
  simp only [signedIdentity, Except.bind_eq_ok, Except.pure_eq_ok,
    AgentIdentityCertificate.verifySignature, rejectIf_eq_ok, Except.exists_unit]
  refine ⟨payload, hpayload, signature, hsignature, ⟨subject.verifyingKey,
    orReject_eq_ok.mpr (hkey subject.verifyingKey), ?_, payload, hpayload, ?_⟩, rfl⟩
  · simp [hlength]
  · simp [hverifies]

theorem KeyCustody.Signs.lease {issuer : KeyCustody} (hsigns : issuer.Signs) (draft : LeaseDraft)
    (digest : Digest) : ∃ certificate, signedLease draft digest issuer = .ok certificate := by
  let unsigned := draft.certificate digest issuer.keyId
  obtain ⟨payload, hpayload⟩ : ∃ payload, unsigned.signingPayload = .ok payload :=
    exists_canonicalBytes ⟨by decide, by decide⟩ unsigned.exists_payload
  obtain ⟨signature, hsignature, hlength, hverifies⟩ := hsigns payload
  refine ⟨{ unsigned with signature := signature }, ?_⟩
  simp only [signedLease, Except.bind_eq_ok, Except.pure_eq_ok,
    AuthorityLeaseCertificate.verifySignature, rejectIf_eq_ok, Except.exists_unit]
  refine ⟨payload, hpayload, signature, hsignature, ⟨?_, payload, hpayload, ?_⟩, rfl⟩
  · simp [hlength]
  · simp [hverifies]

-- ============================================================================
-- Terms
-- ============================================================================

/-- A manifest that grants exactly an authority, within an earlier manifest. -/
structure Grants (manifest earlier : CapabilityManifest) (authority : AuthoritySet) : Prop where
  version : manifest.version = 1
  permissions : canonicalCapabilities manifest.permissions.capabilities
    = .ok authority.capabilities
  toolIds : (manifest.approvedTools.map BoundTool.toolId).Nodup
  model : manifest.modelManifestDigest = earlier.modelManifestDigest
  config : manifest.runtimeConfigDigest = earlier.runtimeConfigDigest
  registry : manifest.toolRegistryRootDigest = earlier.toolRegistryRootDigest
  tools : manifest.approvedTools ⊆ earlier.approvedTools

/-- What is asked of a delegation, given the lease it starts from. -/
structure Delegable (parent : LeaseEntry) (request : DelegationRequest) (now : DateTime) :
    Prop where
  lasts : now < request.expiresAt
  expires : request.expiresAt ≤ parent.certificate.expiresAt
  delegable : authorityIsSubsetOf request.delegableAuthority request.grantedAuthority = true
  granted : authorityIsSubsetOf request.grantedAuthority
    parent.certificate.delegableAuthority = true
  manifest : Grants request.capabilityManifest parent.manifest request.grantedAuthority

/-- What is asked of a renewal, given the lease it replaces. -/
structure Renewable (old : LeaseEntry) (request : RenewalRequest) (now : DateTime) : Prop where
  lasts : now < request.expiresAt
  context : request.semanticContextDigest = old.certificate.semanticContextDigest
  delegable : authorityIsSubsetOf request.delegableAuthority request.grantedAuthority = true
  granted : authorityIsSubsetOf request.grantedAuthority old.certificate.grantedAuthority = true
  passedOn : authorityIsSubsetOf request.delegableAuthority
    old.certificate.delegableAuthority = true
  manifest : Grants request.capabilityManifest old.manifest request.grantedAuthority

/-- A manifest that grants an authority has a digest. -/
theorem Grants.exists_digest {manifest earlier : CapabilityManifest} {authority : AuthoritySet}
    (h : Grants manifest earlier authority) : ∃ digest, manifest.canonicalDigest = .ok digest :=
  CapabilityManifest.exists_canonicalDigest_iff.mpr
    ⟨h.toolIds, exists_canonicalCapabilities_iff.mp ⟨_, h.permissions⟩⟩

theorem grants_iff {manifest earlier : CapabilityManifest} {authority : AuthoritySet}
    (hversion : earlier.version = 1) :
    Grants manifest earlier authority ↔ validateManifest manifest authority = .ok () ∧
      validateManifestAttenuation manifest earlier = .ok () := by
  rw [validateManifest_eq_ok, validateManifestAttenuation_eq_ok, hversion]
  constructor
  · rintro ⟨hversion, hpermissions, htools, hmodel, hconfig, hregistry, hsubset⟩
    exact ⟨⟨hversion, hpermissions, htools⟩, hversion, hmodel, hconfig, hregistry, hsubset⟩
  · rintro ⟨⟨hversion, hpermissions, htools⟩, -, hmodel, hconfig, hregistry, hsubset⟩
    exact ⟨hversion, hpermissions, htools, hmodel, hconfig, hregistry, hsubset⟩

theorem validateAuthoritySets_iff {granted delegable : AuthoritySet} :
    validateAuthoritySets granted delegable = .ok () ↔
      authorityIsSubsetOf delegable granted = true := by
  rw [validateAuthoritySets_eq_ok]
  exact and_iff_right ⟨granted.noAll, delegable.noAll⟩

variable {s s' : AuthorityState}

/-- Every stored manifest is of the one version there is. -/
theorem manifest_version (hs : Reachable s) :
    ∀ id entry, s.leases.lookup id = some entry → entry.manifest.version = 1 := by
  refine hs.invariant (P := fun s => ∀ id entry, s.leases.lookup id = some entry →
    entry.manifest.version = 1) ?_ ?_
  · intro request custody now uuid s₀ hboot id entry hid
    obtain ⟨run, rfl⟩ := bootstrap_eq_ok hboot
    obtain ⟨-, rfl⟩ := run.eq_entry hid
    obtain ⟨-, -, -, hmanifest, -⟩ := validateRootRequest_eq_ok.mp run.request_ok
    exact (validateManifest_eq_ok.mp hmanifest).1
  · intro t t' hinv hstep
    refine hstep.forall_leases (P := fun _ _ entry => entry.manifest.version = 1) hinv
      (fun _ _ _ _ h => h) fun id entry hissued => ?_
    cases hissued with
    | delegated run _ =>
        obtain ⟨-, -, -, hmanifest, -⟩ := validateDelegationRequest_eq_ok.mp run.request_ok
        exact (validateManifest_eq_ok.mp hmanifest).1
    | renewed run _ =>
        obtain ⟨-, -, -, -, hmanifest, -⟩ := validateRenewalRequest_eq_ok.mp run.request_ok
        exact (validateManifest_eq_ok.mp hmanifest).1

/-- Every custody object the kernel keeps signs. -/
def CustodiansSign (s : AuthorityState) : Prop :=
  ∀ agent custody, s.custodians.lookup agent = some custody → custody.Signs

-- ============================================================================
-- Delegation
-- ============================================================================

section
variable {request : DelegationRequest} {childCustody : KeyCustody} {now : DateTime}
  {uuid : String}

/-- In a reachable state the lifetime of the mission is no condition of its own. -/
theorem delegable_iff (hatt : Attenuation s) {parent : LeaseEntry}
    (hversion : parent.manifest.version = 1)
    (hparent : s.leases.lookup request.parentLeaseId = some parent) :
    Delegable parent request now ↔ validateDelegationRequest s parent request now = .ok () := by
  have hmission := (hatt.mission _ _ hparent).expiresAt
  rw [validateDelegationRequest_eq_ok, validateAuthoritySets_iff]
  constructor
  · rintro ⟨hlasts, hexpires, hdelegable, hgranted, hmanifest⟩
    obtain ⟨hmanifest, hattenuated⟩ := (grants_iff hversion).mp hmanifest
    exact ⟨⟨hlasts, hexpires, hexpires.trans hmission⟩, hdelegable, hgranted, hmanifest,
      hattenuated⟩
  · rintro ⟨⟨hlasts, hexpires, -⟩, hdelegable, hgranted, hmanifest, hattenuated⟩
    exact ⟨hlasts, hexpires, hdelegable, hgranted,
      (grants_iff hversion).mpr ⟨hmanifest, hattenuated⟩⟩

/-- What a caller of `delegate` answers for. -/
structure MayDelegate (s : AuthorityState) (request : DelegationRequest)
    (childCustody : KeyCustody) (now : DateTime) (uuid : String) : Prop where
  lease : ∃ parent path, s.leases.lookup request.parentLeaseId = some parent ∧
    parent.record.generation = request.expectedParentGeneration ∧
    LeasePath s request.parentLeaseId path ∧ (∀ node ∈ path, node.2.ActiveAt now) ∧
    path.length < maxAuthorityChainDepth ∧ Delegable parent request now
  agent : s.identities.lookup request.childAgentId = none
  key : ∀ agent identity, s.identities.lookup agent = some identity →
    identity.keyId ≠ childCustody.keyId
  leaseId : ∃ id, newLeaseId uuid = .ok id

/-- What the caller answers for is all that is needed. -/
theorem MayDelegate.delegation (hsub : SubsetPreorder) (hkey : VerifyingKeyRoundTrip)
    (hs : Reachable s) (hsigns : CustodiansSign s)
    (h : MayDelegate s request childCustody now uuid) :
    Nonempty (Delegation s request childCustody now uuid) := by
  have hatt := Attenuation.of_reachable hsub.transitive hs
  have hcred := Credentials.of_reachable hsub.transitive hkey hs
  obtain ⟨parent, path, hparent, hgeneration, hpath, hactive, hdepth, hdelegable⟩ := h.lease
  obtain ⟨childLeaseId, hchildLeaseId⟩ := h.leaseId
  have hrequest := (delegable_iff hatt (manifest_version hs _ _ hparent) hparent).mp hdelegable
  -- the chain validates
  have hcertified := hcred.leases _ _ hparent
  have hexpected : ∀ generation, some request.expectedParentGeneration = some generation →
      parent.record.generation = generation := by simpa using hgeneration
  obtain ⟨validated, hvalidated⟩ := hcred.validateChain_ok hatt hparent hexpected hpath hactive
    hcertified.manifest hcertified.manifest
  have hlength : validated.chain.length = path.length := by
    obtain ⟨entry, path', hvalid⟩ := validateChain_sound hvalidated
    obtain rfl := hpath.unique hvalid.isPath
    simpa using (Except.mapM_eq_ok.mp hvalid.chain_eq).length_eq.symm
  obtain ⟨tail, hcons⟩ : ∃ tail, path = (request.parentLeaseId, parent) :: tail := by
    obtain ⟨entry, rest, heq, hentry⟩ := hpath.head_eq
    rw [hparent] at hentry
    cases hentry
    exact ⟨rest, heq⟩
  have hself : parent.ActiveAt now :=
    hactive (request.parentLeaseId, parent) (by rw [hcons]; exact List.mem_cons_self)
  -- the parent's agent is registered, with a custody object that signs
  obtain ⟨parentIdentity, hparentIdentity, -⟩ := hcertified.bindings
  obtain ⟨parentCustody, hparentCustody, -⟩ := (hcred.identities _ _ hparentIdentity).custody
  have hparentSigns := hsigns _ _ hparentCustody
  obtain ⟨childIdentity, hchildIdentity⟩ := hparentSigns.identity hkey request.childAgentId
    childCustody (some parent.certificate.agentId) now
  obtain ⟨childIdentityDigest, hchildDigest⟩ :
      ∃ digest, childIdentity.canonicalDigest = .ok digest :=
    exists_canonicalDigest ⟨by decide, by decide⟩ childIdentity
  obtain ⟨parentDigest, hparentDigest⟩ :
      ∃ digest, parentIdentity.canonicalDigest = .ok digest :=
    exists_canonicalDigest ⟨by decide, by decide⟩ parentIdentity
  obtain ⟨parentReference, hparentReference⟩ := exists_leaseRef parent.certificate
  obtain ⟨manifestDigest, hmanifestDigest⟩ := hdelegable.manifest.exists_digest
  obtain ⟨certificate, hcertificate⟩ := hparentSigns.lease
    (request.draft now parent childLeaseId childIdentityDigest parentReference manifestDigest)
    parentDigest
  exact ⟨{
    parent := parent
    validatedParent := validated
    parentCustody := parentCustody
    childIdentity := childIdentity
    childIdentityDigest := childIdentityDigest
    parentIdentity := parentIdentity
    parentReference := parentReference
    childLeaseId := childLeaseId
    capabilityManifestDigest := manifestDigest
    parentIdentityDigest := parentDigest
    certificate := certificate
    parent_eq := hparent
    active := validateActiveRecord_eq_ok.mpr ⟨hexpected, hself⟩
    validatedParent_eq := hvalidated
    depth := by rwa [hlength]
    request_ok := hrequest
    agent_new := fun hmem => by
      obtain ⟨identity, hidentity⟩ := AList.mem_iff_lookup.mp hmem
      rw [h.agent] at hidentity
      cases hidentity
    key_new := fun stored hstored => h.key stored.1 stored.2 (AList.mem_lookup_iff.mpr hstored)
    parentCustody_eq := hparentCustody
    childIdentity_eq := hchildIdentity
    childIdentityDigest_eq := hchildDigest
    parentIdentity_eq := hparentIdentity
    parentReference_eq := hparentReference
    childLeaseId_eq := hchildLeaseId
    manifestDigest_eq := hmanifestDigest
    parentIdentityDigest_eq := hparentDigest
    certificate_eq := hcertificate }⟩

/-- And it has to hold. -/
theorem Delegation.mayDelegate (hsub : SubsetPreorder) (hs : Reachable s)
    (run : Delegation s request childCustody now uuid) :
    MayDelegate s request childCustody now uuid := by
  have hatt := Attenuation.of_reachable hsub.transitive hs
  obtain ⟨entry, path, hvalid⟩ := validateChain_sound run.validatedParent_eq
  obtain ⟨hgeneration, -⟩ := validateActiveRecord_eq_ok.mp run.active
  have hlength := (Except.mapM_eq_ok.mp hvalid.chain_eq).length_eq
  rw [List.length_reverse] at hlength
  refine ⟨⟨run.parent, path, run.parent_eq, hgeneration _ rfl, hvalid.isPath,
    fun _ => hvalid.active,
    by rw [hlength]; exact run.depth,
    (delegable_iff hatt (manifest_version hs _ _ run.parent_eq) run.parent_eq).mpr run.request_ok⟩,
    ?_, ?_, ⟨_, run.childLeaseId_eq⟩⟩
  · cases hlookup : s.identities.lookup request.childAgentId with
    | none => rfl
    | some identity => exact absurd (AList.mem_of_lookup hlookup) run.agent_new
  · intro agent identity hidentity
    exact run.key_new ⟨agent, identity⟩ (AList.mem_lookup_iff.mp hidentity)

/-- A lease that has just been issued on top of an active chain is valid until it expires. -/
theorem valid_until (hsub : SubsetPreorder) (hkey : VerifyingKeyRoundTrip) (hs : Reachable s)
    {id : LeaseId} {entry : LeaseEntry} {path : List (LeaseId × LeaseEntry)} {now : DateTime}
    (hentry : s.leases.lookup id = some entry) (hpath : LeasePath s id path)
    (hactive : ∀ node ∈ path, node.2.ActiveAt now) (later : DateTime) :
    (∃ v, validateChain s id (some entry.record.generation) entry.manifest later = .ok v) ↔
      later < entry.certificate.expiresAt := by
  have hcred := Credentials.of_reachable hsub.transitive hkey hs
  have hmanifest := (hcred.leases _ _ hentry).manifest
  have hexpected : ∀ generation, some entry.record.generation = some generation →
      entry.record.generation = generation := by simp
  obtain ⟨v, hv⟩ := hcred.validateChain_ok (Attenuation.of_reachable hsub.transitive hs) hentry
    hexpected hpath hactive hmanifest hmanifest
  have hexpires : v.leafExpiresAt = entry.certificate.expiresAt := by
    obtain ⟨entry', path', hvalid⟩ := validateChain_sound hv
    have hentry' := hvalid.entry_eq
    rw [hentry] at hentry'
    cases hentry'
    exact hvalid.leafExpiresAt_eq
  obtain ⟨hbefore, hafter⟩ := validateChain_clock hv later
  rw [hexpires] at hbefore hafter
  constructor
  · rintro ⟨v', hv'⟩
    by_contra hlater
    rw [hafter (not_lt.mp hlater)] at hv'
    cases hv'
  · exact fun hlater => ⟨v, hbefore hlater⟩

/-- A delegation succeeds exactly where the caller has answered for what it has to; and the
    lease it issues is valid from then on, until it expires. -/
theorem delegation_is_exact (hsub : SubsetPreorder) (hkey : VerifyingKeyRoundTrip)
    (hs : Reachable s) (hsigns : CustodiansSign s) (request : DelegationRequest)
    (childCustody : KeyCustody) (now : DateTime) (fresh : FreshUuid s uuid) :
    ((∃ id s', delegate request childCustody now uuid s = .ok id s') ↔
      MayDelegate s request childCustody now uuid) ∧
    ∀ id s', delegate request childCustody now uuid s = .ok id s' → ∀ later,
      (∃ v, validateChain s' id (some 0) request.capabilityManifest later = .ok v) ↔
        later < request.expiresAt := by
  constructor
  · constructor
    · rintro ⟨id, s', h⟩
      obtain ⟨run, -, -⟩ := delegate_eq_ok h
      exact run.mayDelegate hsub hs
    · intro h
      obtain ⟨run⟩ := h.delegation hsub hkey hs hsigns
      exact ⟨_, _, run.succeeds⟩
  · intro id s' h later
    obtain ⟨run, rfl, rfl⟩ := delegate_eq_ok h
    have hreach : Reachable run.post := by
      have hafter : (KernelOp.delegate request childCustody now).after uuid s = run.post := by
        rw [KernelOp.after, KernelOp.exec, map_eq_ok.mpr ⟨_, run.succeeds, rfl⟩]
      exact hafter ▸ hs.run (KernelRun.refl.call _ _ fresh)
    have hnew : run.childLeaseId ∉ s.leases := fresh _ run.childLeaseId_eq
    obtain ⟨parent, path, hparent, -, hpath, hactive, -, hdelegable⟩ :=
      (run.mayDelegate hsub hs).lease
    obtain ⟨signature, hcert⟩ := signedLease_fields run.certificate_eq
    have hexpires : run.entry.certificate.expiresAt = request.expiresAt := by
      simp only [Delegation.entry, hcert]
      rfl
    have hup : run.entry.parentId = some request.parentLeaseId := by
      rw [run.entry_parentId, (Lifecycle.of_reachable hs).keyed _ _ run.parent_eq]
    -- the leases above are as they were
    have habove : LeasePath run.post request.parentLeaseId path :=
      hpath.congr fun node hnode => by
        have hfind := hpath.find_of_mem hnode
        rw [run.lookup_other (run.ne_child hnew hfind)]
        exact hfind
    have hactive' : ∀ node ∈ (run.childLeaseId, run.entry) :: path, node.2.ActiveAt now := by
      intro node hnode
      rcases List.mem_cons.mp hnode with rfl | hnode
      · exact ⟨rfl, by rw [hexpires]; exact hdelegable.lasts⟩
      · exact hactive node hnode
    rw [← hexpires]
    exact valid_until hsub hkey hreach run.lookup_child (.step run.lookup_child hup habove) hactive'
      later

omit [Externals] in
/-- The custody object of the reference root signs. -/
theorem Reference.rootCustody_signs : letI := Reference.externals
    Reference.rootCustody.Signs := by
  let := Reference.externals
  intro payload
  exact ⟨_, rfl, Reference.length_checksum _ _, by simp [Externals.verifies]; rfl⟩

omit [Externals] in
theorem Reference.custodiansSign : letI := Reference.externals
    ∀ {request : RootLeaseRequest} {uuid : String} (run : Bootstrap request Reference.rootCustody
      Reference.start uuid), CustodiansSign run.post := by
  let := Reference.externals
  intro request uuid run agent custody hcustody
  rw [run.lookup_custody] at hcustody
  split at hcustody
  · cases hcustody
    exact Reference.rootCustody_signs
  · cases hcustody

omit [Externals] in
/-- A delegation from the root lease of the reference kernel. -/
theorem delegation_is_exact_reference : letI := Reference.externals
    ∃ (s s' : AuthorityState) (request : DelegationRequest) (custody : KeyCustody)
      (uuid : String) (id : LeaseId), Reachable s ∧
      delegate request custody Reference.start uuid s = .ok id s' ∧
      MayDelegate s request custody Reference.start uuid ∧
      ∃ v, validateChain s' id (some 0) request.capabilityManifest Reference.start = .ok v := by
  let := Reference.externals
  obtain ⟨s, hs⟩ := Reference.exists_kernel
  obtain ⟨boot, rfl⟩ := bootstrap_eq_ok hs
  have hreach : Reachable boot.post := ⟨_, _, _, _, _, hs, .refl⟩
  obtain ⟨run, -, -⟩ := Reference.exists_delegation boot Reference.newLeaseId_child
  obtain ⟨hexact, hvalid⟩ := delegation_is_exact Reference.subsetPreorder
    Reference.verifyingKeyRoundTrip hreach (Reference.custodiansSign boot)
    (Reference.childRequest boot.leaseId) Reference.childCustody Reference.start
    (Reference.freshUuid_second boot)
  have hlasts : Reference.start < Reference.start + Duration.minutes 5 := by decide
  exact ⟨boot.post, run.post, Reference.childRequest boot.leaseId, Reference.childCustody, "2", _,
    hreach, run.succeeds, hexact.mp ⟨_, _, run.succeeds⟩,
    (hvalid _ _ run.succeeds Reference.start).mpr hlasts⟩

end

-- ============================================================================
-- Bootstrap
-- ============================================================================

section
variable {request : RootLeaseRequest} {custody : KeyCustody} {now : DateTime} {uuid : String}

/-- What a caller of `bootstrap` answers for. -/
structure MayBootstrap (request : RootLeaseRequest) (now : DateTime) (uuid : String) : Prop where
  active : request.mission.active = true
  maxActions : 0 < request.mission.maxActions
  lasts : now < request.expiresAt
  expires : request.expiresAt ≤ request.mission.expiresAt
  delegable : authorityIsSubsetOf request.delegableAuthority request.grantedAuthority = true
  granted : authorityIsSubsetOfCapabilities request.grantedAuthority
    request.mission.allowedCapabilities = true
  version : request.capabilityManifest.version = 1
  permissions : canonicalCapabilities request.capabilityManifest.permissions.capabilities
    = .ok request.grantedAuthority.capabilities
  toolIds : (request.capabilityManifest.approvedTools.map BoundTool.toolId).Nodup
  tools : ∀ bound ∈ request.capabilityManifest.approvedTools,
    bound.toolId ∈ request.mission.allowedTools
  leaseId : ∃ id, newLeaseId uuid = .ok id

/-- That the mission has not expired is no condition of its own. -/
theorem mayBootstrap_iff : MayBootstrap request now uuid ↔
    validateRootRequest request now = .ok () ∧ ∃ id, newLeaseId uuid = .ok id := by
  rw [validateRootRequest_eq_ok, validateAuthoritySets_iff, validateManifest_eq_ok]
  simp only [MissionEnvelope.isUsableAt, Bool.and_eq_true, decide_eq_true_eq]
  constructor
  · rintro ⟨hactive, hactions, hlasts, hexpires, hdelegable, hgranted, hversion, hpermissions,
      htoolIds, htools, hid⟩
    exact ⟨⟨⟨⟨⟨hactive, hactions⟩, hlasts.trans_le hexpires⟩, hlasts, hexpires⟩, hdelegable,
      hgranted, ⟨hversion, hpermissions, htoolIds⟩, htools⟩, hid⟩
  · rintro ⟨⟨⟨⟨⟨hactive, hactions⟩, -⟩, hlasts, hexpires⟩, hdelegable, hgranted,
      ⟨hversion, hpermissions, htoolIds⟩, htools⟩, hid⟩
    exact ⟨hactive, hactions, hlasts, hexpires, hdelegable, hgranted, hversion, hpermissions,
      htoolIds, htools, hid⟩

theorem Bootstrap.succeeds (run : Bootstrap request custody now uuid) :
    bootstrap request custody now uuid = .ok run.post := by
  simp only [bootstrap, Except.bind_eq_ok, Except.pure_eq_ok]
  exact ⟨(), run.request_ok, run.identity, run.identity_eq, run.identityDigest,
    run.identityDigest_eq, run.leaseId, run.leaseId_eq, run.capabilityManifestDigest,
    run.manifestDigest_eq, run.certificate, run.certificate_eq, rfl⟩

theorem MayBootstrap.bootstrap (hkey : VerifyingKeyRoundTrip) (hsigns : custody.Signs)
    (h : MayBootstrap request now uuid) : Nonempty (Bootstrap request custody now uuid) := by
  obtain ⟨hrequest, leaseId, hleaseId⟩ := mayBootstrap_iff.mp h
  obtain ⟨identity, hidentity⟩ := hsigns.identity hkey request.agentId custody none now
  obtain ⟨identityDigest, hidentityDigest⟩ : ∃ digest, identity.canonicalDigest = .ok digest :=
    exists_canonicalDigest ⟨by decide, by decide⟩ identity
  obtain ⟨manifestDigest, hmanifestDigest⟩ := CapabilityManifest.exists_canonicalDigest_iff.mpr
    ⟨h.toolIds, exists_canonicalCapabilities_iff.mp ⟨_, h.permissions⟩⟩
  obtain ⟨certificate, hcertificate⟩ := hsigns.lease
    (request.draft now leaseId identityDigest manifestDigest) identityDigest
  exact ⟨⟨identity, identityDigest, leaseId, manifestDigest, certificate, hrequest, hidentity,
    hidentityDigest, hleaseId, hmanifestDigest, hcertificate⟩⟩

theorem bootstrap_exists_iff (hkey : VerifyingKeyRoundTrip) (hsigns : custody.Signs) :
    (∃ s, bootstrap request custody now uuid = .ok s) ↔ MayBootstrap request now uuid := by
  constructor
  · rintro ⟨s, h⟩
    obtain ⟨run, -⟩ := bootstrap_eq_ok h
    exact mayBootstrap_iff.mpr ⟨run.request_ok, _, run.leaseId_eq⟩
  · intro h
    obtain ⟨run⟩ := h.bootstrap hkey hsigns
    exact ⟨_, run.succeeds⟩

/-- The root lease is valid from the start. -/
theorem root_valid_until (hsub : SubsetPreorder) (hkey : VerifyingKeyRoundTrip)
    {s : AuthorityState} (h : bootstrap request custody now uuid = .ok s) (later : DateTime) :
    (∃ v, validateChain s s.rootLeaseId (some 0) request.capabilityManifest later = .ok v) ↔
      later < request.expiresAt := by
  obtain ⟨run, rfl⟩ := bootstrap_eq_ok h
  have hreach : Reachable run.post := ⟨_, _, _, _, _, h, .refl⟩
  have hentry : run.post.leases.lookup run.leaseId = some run.entry := by
    rw [run.lookup_post, if_pos rfl]
  obtain ⟨signature, hcert⟩ := signedLease_fields run.certificate_eq
  have hexpires : run.entry.certificate.expiresAt = request.expiresAt := by
    rw [Bootstrap.entry, hcert]
    rfl
  have hpath : LeasePath run.post run.leaseId [(run.leaseId, run.entry)] :=
    .root hentry run.entry_parentId
  have hmay := mayBootstrap_iff.mpr ⟨run.request_ok, _, run.leaseId_eq⟩
  have hactive : ∀ node ∈ [(run.leaseId, run.entry)], node.2.ActiveAt now := by
    intro node hnode
    obtain rfl := List.mem_singleton.mp hnode
    exact ⟨rfl, by rw [hexpires]; exact hmay.lasts⟩
  rw [← hexpires]
  exact valid_until hsub hkey hreach hentry hpath hactive later

/-- A kernel is made exactly where the caller has answered for what it has to; and its root
    lease, at first the only one, is valid from then on, until it expires. -/
theorem bootstrap_is_exact (hsub : SubsetPreorder) (hkey : VerifyingKeyRoundTrip)
    (hsigns : custody.Signs) (request : RootLeaseRequest) (now : DateTime) (uuid : String) :
    ((∃ s, bootstrap request custody now uuid = .ok s) ↔ MayBootstrap request now uuid) ∧
    ∀ s, bootstrap request custody now uuid = .ok s →
      (∀ id, id ∈ s.leases ↔ id = s.rootLeaseId) ∧
      ∀ later, (∃ v, validateChain s s.rootLeaseId (some 0) request.capabilityManifest later
        = .ok v) ↔ later < request.expiresAt := by
  refine ⟨bootstrap_exists_iff hkey hsigns, fun s h => ⟨fun id => ?_, root_valid_until hsub hkey h⟩⟩
  obtain ⟨run, rfl⟩ := bootstrap_eq_ok h
  rw [← AList.lookup_isSome, run.lookup_post]
  simp

omit [Externals] in
/-- The kernel of the reference. -/
theorem bootstrap_is_exact_reference : letI := Reference.externals
    MayBootstrap Reference.rootRequest Reference.start "1" ∧
    ∃ s, bootstrap Reference.rootRequest Reference.rootCustody Reference.start "1" = .ok s ∧
      ∃ v, validateChain s s.rootLeaseId (some 0) Reference.rootRequest.capabilityManifest
        Reference.start = .ok v := by
  let := Reference.externals
  obtain ⟨hexact, hvalid⟩ := bootstrap_is_exact Reference.subsetPreorder
    Reference.verifyingKeyRoundTrip Reference.rootCustody_signs Reference.rootRequest
    Reference.start "1"
  obtain ⟨s, hs⟩ := Reference.exists_kernel
  have hlasts : Reference.start < Reference.rootRequest.expiresAt := by decide
  exact ⟨hexact.mp ⟨s, hs⟩, s, hs, ((hvalid s hs).2 Reference.start).mpr hlasts⟩

end

-- ============================================================================
-- Renewal
-- ============================================================================

section
variable {request : RenewalRequest} {now : DateTime} {uuid : String}

/-- What a caller of `renew` answers for. -/
structure MayRenew (s : AuthorityState) (request : RenewalRequest) (now : DateTime)
    (uuid : String) : Prop where
  lease : ∃ old path, s.leases.lookup request.leaseId = some old ∧
    old.record.generation = request.expectedGeneration ∧
    LeasePath s request.leaseId path ∧ (∀ node ∈ path, node.2.ActiveAt now) ∧
    Renewable old request now ∧
    ∀ node ∈ path.tail, request.expiresAt ≤ node.2.certificate.expiresAt
  mission : request.expiresAt ≤ s.mission.expiresAt
  leaseId : ∃ id, newLeaseId uuid = .ok id

/-- What does not outlive the parent does not outlive any lease of the path. -/
theorem renewable_iff (htimely : Timely s) {old : LeaseEntry}
    {path : List (LeaseId × LeaseEntry)} (hversion : old.manifest.version = 1)
    (hold : s.leases.lookup request.leaseId = some old) (hpath : LeasePath s request.leaseId path)
    (hactive : ∀ node ∈ path, node.2.ActiveAt now) :
    (Renewable old request now ∧ request.expiresAt ≤ s.mission.expiresAt ∧
      ∀ node ∈ path.tail, request.expiresAt ≤ node.2.certificate.expiresAt) ↔
      validateRenewalRequest s old request now = .ok () := by
  rw [validateRenewalRequest_eq_ok, validateAuthoritySets_iff]
  constructor
  · rintro ⟨⟨hlasts, hcontext, hdelegable, hgranted, hpassed, hmanifest⟩, hmission, habove⟩
    obtain ⟨hmanifest, hattenuated⟩ := (grants_iff hversion).mp hmanifest
    refine ⟨⟨hlasts, hmission⟩, hcontext, hdelegable, ⟨hgranted, hpassed⟩, hmanifest, hattenuated,
      fun id hup => ?_⟩
    obtain ⟨rest, hrest, rfl⟩ := hpath.rest hold hup
    obtain ⟨parent, tail, rfl, hparent⟩ := hrest.head_eq
    exact ⟨parent, hparent, hactive _ (List.mem_cons_of_mem _ List.mem_cons_self),
      habove _ List.mem_cons_self⟩
  · rintro ⟨⟨hlasts, hmission⟩, hcontext, hdelegable, ⟨hgranted, hpassed⟩, hmanifest,
      hattenuated, hparent⟩
    refine ⟨⟨hlasts, hcontext, hdelegable, hgranted, hpassed,
      (grants_iff hversion).mpr ⟨hmanifest, hattenuated⟩⟩, hmission, fun node hnode => ?_⟩
    cases hpath with
    | root => cases hnode
    | step hfind hup hrest =>
        rw [hold] at hfind
        cases hfind
        obtain ⟨parent, hparent, -, hexpires⟩ := hparent _ hup
        obtain ⟨above, habove, hle⟩ := htimely.expiresAt_le (hrest.below_of_mem hnode) hparent
        have hfind := hrest.find_of_mem hnode
        rw [habove] at hfind
        cases hfind
        exact hexpires.trans hle

/-- What the caller answers for is all that is needed. -/
theorem MayRenew.succeeds (hsub : SubsetPreorder) (hkey : VerifyingKeyRoundTrip)
    (hs : Reachable s) (hsigns : CustodiansSign s) (h : MayRenew s request now uuid) :
    ∃ id s', renew request now uuid s = .ok id s' := by
  have hatt := Attenuation.of_reachable hsub.transitive hs
  have hcred := Credentials.of_reachable hsub.transitive hkey hs
  obtain ⟨old, path, hold, hgeneration, hpath, hactive, hrenewable, habove⟩ := h.lease
  obtain ⟨renewedId, hrenewedId⟩ := h.leaseId
  have hrequest := (renewable_iff (Timely.of_reachable hs) (manifest_version hs _ _ hold) hold hpath
    hactive).mp ⟨hrenewable, h.mission, habove⟩
  have hcertified := hcred.leases _ _ hold
  have hexpected : ∀ generation, some request.expectedGeneration = some generation →
      old.record.generation = generation := by simpa using hgeneration
  obtain ⟨validated, hvalidated⟩ := hcred.validateChain_ok hatt hold hexpected hpath hactive
    hcertified.manifest hcertified.manifest
  obtain ⟨tail, hcons⟩ : ∃ tail, path = (request.leaseId, old) :: tail := by
    obtain ⟨entry, rest, heq, hentry⟩ := hpath.head_eq
    rw [hold] at hentry
    cases hentry
    exact ⟨rest, heq⟩
  have hself : old.ActiveAt now :=
    hactive (request.leaseId, old) (by rw [hcons]; exact List.mem_cons_self)
  -- the issuer is registered, with a custody object that signs
  obtain ⟨subject, -, hbindings⟩ := hcertified.bindings
  obtain ⟨-, ⟨issuer, hissuer, -⟩, -⟩ := validateBindings_eq_ok.mp hbindings
  obtain ⟨custody, hcustody, -⟩ := (hcred.identities _ _ hissuer).custody
  obtain ⟨issuerDigest, hissuerDigest⟩ : ∃ digest, issuer.canonicalDigest = .ok digest :=
    exists_canonicalDigest ⟨by decide, by decide⟩ issuer
  obtain ⟨renewedFrom, hrenewedFrom⟩ := exists_leaseRef old.certificate
  obtain ⟨manifestDigest, hmanifestDigest⟩ := hrenewable.manifest.exists_digest
  obtain ⟨certificate, hcertificate⟩ := (hsigns _ _ hcustody).lease
    (request.draft now old renewedId renewedFrom manifestDigest) issuerDigest
  obtain ⟨s', hrenew⟩ := exists_renew request hold
    (validateActiveRecord_eq_ok.mpr ⟨hexpected, hself⟩) hvalidated hrequest hissuer hcustody
    hrenewedId hrenewedFrom hmanifestDigest hissuerDigest hcertificate
  exact ⟨renewedId, s', hrenew⟩

/-- And it has to hold. -/
theorem Renewal.mayRenew (hs : Reachable s) (run : Renewal s request now uuid) :
    MayRenew s request now uuid := by
  obtain ⟨entry, path, hvalid⟩ := validateChain_sound run.validated_eq
  obtain ⟨hgeneration, -⟩ := validateActiveRecord_eq_ok.mp run.active
  obtain ⟨hrenewable, hmission, habove⟩ := (renewable_iff (Timely.of_reachable hs)
    (manifest_version hs _ _ run.old_eq) run.old_eq hvalid.isPath fun _ => hvalid.active).mpr
    run.request_ok
  exact ⟨⟨run.old, path, run.old_eq, hgeneration _ rfl, hvalid.isPath, fun _ => hvalid.active,
    hrenewable, habove⟩, hmission, ⟨_, run.renewedId_eq⟩⟩

/-- A renewal succeeds exactly where the caller has answered for what it has to; and the lease
    it issues is valid from then on, until it expires. -/
theorem renewal_is_exact (hsub : SubsetPreorder) (hkey : VerifyingKeyRoundTrip)
    (hs : Reachable s) (hsigns : CustodiansSign s) (request : RenewalRequest) (now : DateTime)
    (fresh : FreshUuid s uuid) :
    ((∃ id s', renew request now uuid s = .ok id s') ↔ MayRenew s request now uuid) ∧
    ∀ id s', renew request now uuid s = .ok id s' → ∀ later,
      (∃ v, validateChain s' id (some 0) request.capabilityManifest later = .ok v) ↔
        later < request.expiresAt := by
  constructor
  · constructor
    · rintro ⟨id, s', h⟩
      obtain ⟨run, -, -⟩ := renew_eq_ok h
      exact run.mayRenew hs
    · exact MayRenew.succeeds hsub hkey hs hsigns
  · intro id s' h later
    have hreach : Reachable s' := by
      have hafter : (KernelOp.renew request now).after uuid s = s' := by
        rw [KernelOp.after, KernelOp.exec, map_eq_ok.mpr ⟨_, h, rfl⟩]
      exact hafter ▸ hs.run (KernelRun.refl.call _ _ fresh)
    obtain ⟨run, rfl, rfl⟩ := renew_eq_ok h
    have hnew : run.renewedId ∉ s.leases := fresh _ run.renewedId_eq
    obtain ⟨old, path, hold, -, hpath, hactive, hrenewable, -⟩ := (run.mayRenew hs).lease
    rw [run.old_eq] at hold
    cases hold
    obtain ⟨signature, hcert⟩ := signedLease_fields run.certificate_eq
    have hexpires : run.entry.certificate.expiresAt = request.expiresAt := by
      simp only [Renewal.entry, hcert]
      rfl
    have hself : run.entry.ActiveAt now := ⟨rfl, by rw [hexpires]; exact hrenewable.lasts⟩
    have hvalid {path : List (LeaseId × LeaseEntry)} (hpath : LeasePath run.post run.renewedId path)
        (hactive : ∀ node ∈ path, node.2.ActiveAt now) :=
      valid_until hsub hkey hreach run.lookup_renewed hpath hactive later
    rw [hexpires] at hvalid
    have hnot {parent : LeaseId} (hup : run.old.parentId = some parent) :
        ¬ LeaseBelow s request.leaseId parent := hpath.not_below_parent run.old_eq hup
    cases hpath with
    | root hfind hup =>
        rw [run.old_eq] at hfind
        cases hfind
        refine hvalid (.root run.lookup_renewed (by rw [run.entry_parentId]; exact hup)) ?_
        intro node hnode
        obtain rfl := List.mem_singleton.mp hnode
        exact hself
    | @step _ parent _ rest hfind hup hrest =>
        rw [run.old_eq] at hfind
        cases hfind
        -- the leases above do not end with the lease that is renewed
        have habove : LeasePath run.post parent rest := hrest.congr fun node hnode => by
          have hfind := hrest.find_of_mem hnode
          have hout : node.1 ∉ run.ended := fun hin =>
            hnot hup ((run.ended_below _ hin).trans (hrest.below_of_mem hnode))
          rw [run.lookup_other (run.ne_renewed hnew hfind), run.endsBelow.outside _ hout]
          exact hfind
        refine hvalid (.step run.lookup_renewed (by rw [run.entry_parentId]; exact hup) habove) ?_
        intro node hnode
        rcases List.mem_cons.mp hnode with rfl | hnode
        · exact hself
        · exact hactive node (List.mem_cons_of_mem _ hnode)

omit [Externals] in
/-- A renewal of the root lease of the reference kernel, on the same terms. -/
theorem renewal_is_exact_reference : letI := Reference.externals
    ∃ (s s' : AuthorityState) (request : RenewalRequest) (uuid : String) (id : LeaseId),
      Reachable s ∧ renew request Reference.start uuid s = .ok id s' ∧
      ∃ v, validateChain s' id (some 0) request.capabilityManifest Reference.start = .ok v := by
  let := Reference.externals
  obtain ⟨s, hs⟩ := Reference.exists_kernel
  obtain ⟨boot, rfl⟩ := bootstrap_eq_ok hs
  have hreach : Reachable boot.post := ⟨_, _, _, _, _, hs, .refl⟩
  have hlasts : Reference.start < Reference.start + Duration.minutes 5 := by decide
  let request : RenewalRequest :=
    { leaseId := boot.leaseId
      expectedGeneration := 0
      grantedAuthority := Reference.authority
      delegableAuthority := Reference.authority
      capabilityManifest := Reference.manifest
      semanticContextDigest := [4]
      expiresAt := Reference.start + Duration.minutes 5 }
  obtain ⟨hexact, hvalid⟩ := renewal_is_exact Reference.subsetPreorder
    Reference.verifyingKeyRoundTrip hreach (Reference.custodiansSign boot) request Reference.start
    (Reference.freshUuid_second boot)
  have hmay : MayRenew boot.post request Reference.start "2" := by
    obtain ⟨signature, hcert⟩ := signedLease_fields boot.certificate_eq
    have hentry : boot.post.leases.lookup boot.leaseId = some boot.entry := by
      rw [boot.lookup_post, if_pos rfl]
    have hexpires : boot.entry.certificate.expiresAt = request.expiresAt := by
      simp only [Bootstrap.entry, hcert]
      rfl
    have hgrants : Grants Reference.manifest Reference.manifest Reference.authority :=
      (grants_iff rfl).mpr ⟨by decide +kernel, by decide +kernel⟩
    have hauthority : authorityIsSubsetOf Reference.authority Reference.authority = true := by
      decide +kernel
    have hmission : Reference.start + Duration.minutes 5 ≤ Reference.mission.expiresAt := by
      decide
    refine ⟨⟨boot.entry, [(boot.leaseId, boot.entry)], hentry, rfl,
      .root hentry boot.entry_parentId, ?_, ?_, by simp⟩, hmission, ⟨⟨"lease-2", by decide⟩,
      Identifier.new_value (⟨"lease-2", by decide⟩ : LeaseId)⟩⟩
    · intro node hnode
      obtain rfl := List.mem_singleton.mp hnode
      exact ⟨rfl, by rw [hexpires]; exact hlasts⟩
    · constructor
      · exact hlasts
      · simp only [Bootstrap.entry, hcert]
        rfl
      · exact hauthority
      · simp only [Bootstrap.entry, hcert]
        exact hauthority
      · simp only [Bootstrap.entry, hcert]
        exact hauthority
      · exact hgrants
  obtain ⟨id, s', hrenew⟩ := hexact.mpr hmay
  exact ⟨boot.post, s', request, "2", id, hreach, hrenew,
    (hvalid _ _ hrenew Reference.start).mpr hlasts⟩

end

end

end GenesisRuntime
