/-
  GenesisRuntime.Kernel.Completeness

  When a validation succeeds.  `Credentials` is what every operation establishes
  for the identities and leases it stores; on a state that has it no check of the
  walk fails but those on the activity of the leases, the expected generation and
  the manifest presented.
-/

import GenesisRuntime.Kernel.Tree

namespace GenesisRuntime

section
variable [Externals]

-- ============================================================================
-- Identities and custodians over time
-- ============================================================================

section
variable {s s' : AuthorityState}

theorem KernelStep.keepsIssuance (h : KernelStep s s') {identity : AgentIdentityCertificate}
    (hissued : Issuance s identity) : Issuance s' identity where
  issued := by
    intro issuerId hissuerId
    obtain ⟨issuer, hissuer, hby⟩ := hissued.issued issuerId hissuerId
    exact ⟨issuer, (h.keepsIdentity hissuer).1, hby⟩
  selfIssued := hissued.selfIssued

/-- What binds a lease to identities and to the lease it renews goes on binding
    it: a predecessor is over, so its record does not change any more. -/
theorem KernelStep.keepsBindings (h : KernelStep s s') {entry : LeaseEntry}
    {subject : AgentIdentityCertificate} (record : LeaseRecord)
    (hbindings : validateBindings s entry subject = .ok ()) :
    validateBindings s' (entry.withRecord record) subject = .ok () := by
  obtain ⟨hsubject, ⟨issuer, hissuer, hissued⟩, hrenewed⟩ := validateBindings_eq_ok.mp hbindings
  refine validateBindings_eq_ok.mpr
    ⟨hsubject, ⟨issuer, (h.keepsIdentity hissuer).1, hissued⟩, ?_⟩
  intro ref href
  obtain ⟨predecessor, hpredecessor, href', hagent, hmission, hstate, hby⟩ := hrenewed ref href
  obtain ⟨r, hr, hlater⟩ := h.keepsLeases _ _ hpredecessor
  obtain rfl := hlater.eq_of_dead (by rw [hstate]; rfl)
  exact ⟨_, hr, href', hagent, hmission, hstate, hby⟩

-- ============================================================================
-- The invariant
-- ============================================================================

/-- A registered identity: properly issued, and in agreement with its custody. -/
structure Registered (s : AuthorityState) (agent : AgentId)
    (identity : AgentIdentityCertificate) : Prop where
  issuance : Issuance s identity
  custody : ∃ custody, s.custodians.lookup agent = some custody ∧
    identity.keyId = custody.keyId ∧
    identity.verifyingKeyBytes = Externals.verifyingKeyToBytes custody.verifyingKey

/-- A stored lease: bound to its manifest, to the identities behind it and to its
    parent, on a path that is not too long. -/
structure Certified (s : AuthorityState) (id : LeaseId) (entry : LeaseEntry) : Prop where
  manifest : entry.manifest.canonicalDigest = .ok entry.certificate.capabilityManifestDigest
  bindings : ∃ subject, s.identities.lookup entry.certificate.agentId = some subject ∧
    validateBindings s entry subject = .ok ()
  parent : ∀ parent above, entry.parentId = some parent →
    s.leases.lookup parent = some above → validateParentChild above entry = .ok ()
  path : ∃ path agents, LeasePath s id path ∧ path.length ≤ maxAuthorityChainDepth ∧
    IssuerPath s entry.certificate.agentId agents ∧ agents.length = path.length

structure Credentials (s : AuthorityState) : Prop where
  identities : ∀ agent identity, s.identities.lookup agent = some identity →
    Registered s agent identity
  leases : ∀ id entry, s.leases.lookup id = some entry → Certified s id entry

/-- An identity is read back with the key of its custody. -/
theorem Registered.verifyingKey_eq (hkey : VerifyingKeyRoundTrip) {agent : AgentId}
    {identity : AgentIdentityCertificate} (h : Registered s agent identity)
    {custody : KeyCustody} (hcustody : s.custodians.lookup agent = some custody) :
    identity.keyId = custody.keyId ∧ identity.verifyingKey = .ok custody.verifyingKey := by
  obtain ⟨custody', hcustody', hkeyId, hbytes⟩ := h.custody
  rw [hcustody] at hcustody'
  cases hcustody'
  refine ⟨hkeyId, ?_⟩
  rw [AgentIdentityCertificate.verifyingKey, orReject_eq_ok, hbytes]
  exact hkey custody.verifyingKey

theorem KernelStep.keepsCertified (h : KernelStep s s') {id : LeaseId} {entry : LeaseEntry}
    (record : LeaseRecord) (hparent : ∀ parent, entry.parentId = some parent →
      ∃ above, s.leases.lookup parent = some above)
    (hcert : Certified s id entry) : Certified s' id (entry.withRecord record) where
  manifest := hcert.manifest
  bindings := by
    obtain ⟨subject, hsubject, hbindings⟩ := hcert.bindings
    exact ⟨subject, (h.keepsIdentity hsubject).1, h.keepsBindings record hbindings⟩
  parent := by
    intro parent above' hid habove'
    obtain ⟨above, habove⟩ := hparent parent hid
    rw [(h.keepsLeases.eq_withRecord habove habove').1]
    exact hcert.parent parent above hid habove
  path := by
    obtain ⟨path, agents, hpath, hlen, hagents, hagentsLen⟩ := hcert.path
    obtain ⟨path', hpath', hpathAgents⟩ := h.keepsLeasePath hpath
    have hlen' : path'.length = path.length := by
      rw [← length_pathAgents, hpathAgents, length_pathAgents]
    exact ⟨path', agents, hpath', by omega, h.keepsIssuerPath hagents, by omega⟩

-- ============================================================================
-- What the operations establish
-- ============================================================================

namespace Bootstrap

variable {request : RootLeaseRequest} {custody : KeyCustody} {now : DateTime} {uuid : String}
  (run : Bootstrap request custody now uuid)

theorem registered (hkey : VerifyingKeyRoundTrip) :
    Registered run.post request.agentId run.identity := by
  obtain ⟨⟨signature, hidentity⟩, -⟩ := signedIdentity_eq_ok run.identity_eq
  refine ⟨run.issuance hkey, custody, by rw [run.lookup_custody, if_pos rfl], ?_, ?_⟩
  · rw [hidentity]
    rfl
  · rw [hidentity]
    rfl

theorem certified (hkey : VerifyingKeyRoundTrip) :
    Certified run.post run.leaseId run.entry where
  manifest := run.manifest_eq
  bindings := by
    rw [run.entry_agentId]
    exact ⟨run.identity, run.lookup_agent, run.bindings_eq hkey⟩
  parent := by
    intro parent above hid
    rw [run.entry_parentId] at hid
    cases hid
  path := run.placed.path_lengths

end Bootstrap

namespace Delegation

variable {request : DelegationRequest} {custody : KeyCustody} {now : DateTime}
  {uuid : String} (run : Delegation s request custody now uuid)

theorem registered (hkey : VerifyingKeyRoundTrip) (h : Credentials s)
    (fresh : run.childLeaseId ∉ s.leases) :
    Registered run.post request.childAgentId run.childIdentity := by
  obtain ⟨⟨signature, hidentity⟩, hverify⟩ := signedIdentity_eq_ok run.childIdentity_eq
  obtain ⟨hkeyId, hparentKey⟩ :=
    (h.identities _ _ run.parentIdentity_eq).verifyingKey_eq hkey run.parentCustody_eq
  have hissuer := ((KernelStep.delegated run fresh).keepsIdentity run.parentIdentity_eq).1
  refine ⟨⟨?_, ?_⟩, custody, ?_, ?_, ?_⟩
  · intro issuerId hissuerId
    rw [hidentity] at hissuerId
    cases hissuerId
    refine ⟨run.parentIdentity, hissuer, ?_, run.parentCustody.verifyingKey, hparentKey, hverify⟩
    rw [hkeyId, hidentity]
    rfl
  · intro hnone
    rw [hidentity] at hnone
    cases hnone
  · rw [run.post_custodians, AList.lookup_insert_ite, if_pos rfl]
  · rw [hidentity]
    rfl
  · rw [hidentity]
    rfl

theorem validateParentChild_eq : validateParentChild run.parent run.entry = .ok () := by
  obtain ⟨⟨signature, hcert⟩, -⟩ := signedLease_eq_ok run.certificate_eq
  obtain ⟨⟨-, hexpires, -⟩, hsets, hsub, -, hattn⟩ :=
    validateDelegationRequest_eq_ok.mp run.request_ok
  rw [validateParentChild_eq_ok]
  simp only [entry, hcert]
  exact ⟨⟨_, rfl, run.parentReference_eq⟩, rfl, hexpires, hsub, hsets, hattn⟩

theorem certified (hkey : VerifyingKeyRoundTrip) (hlife : Lifecycle s) (h : Credentials s)
    (hparent : Placed s request.parentLeaseId run.parent) (fresh : run.childLeaseId ∉ s.leases) :
    Certified run.post run.childLeaseId run.entry := by
  have hstep := KernelStep.delegated run fresh
  obtain ⟨⟨signature, hcert⟩, hverify⟩ := signedLease_eq_ok run.certificate_eq
  obtain ⟨⟨signature', hidentity⟩, -⟩ := signedIdentity_eq_ok run.childIdentity_eq
  obtain ⟨hkeyId, hparentKey⟩ :=
    (h.identities _ _ run.parentIdentity_eq).verifyingKey_eq hkey run.parentCustody_eq
  have hagent : run.entry.certificate.agentId = request.childAgentId := by
    simp only [entry, hcert]
    rfl
  have hissuer : run.entry.certificate.parentAgentId.getD run.entry.certificate.agentId
      = run.parent.certificate.agentId := by
    simp only [entry, hcert]
    rfl
  have hparentId : run.entry.parentId = some request.parentLeaseId := by
    rw [run.entry_parentId, hlife.keyed _ _ run.parent_eq]
  have hparentLookup : run.post.leases.lookup request.parentLeaseId = some run.parent := by
    rw [run.lookup_other (run.ne_child fresh run.parent_eq)]
    exact run.parent_eq
  constructor
  · simp only [entry, hcert]
    exact run.manifestDigest_eq
  · refine ⟨run.childIdentity, by rw [hagent]; exact run.lookup_identity,
      validateBindings_eq_ok.mpr ⟨?_, ⟨run.parentIdentity, ?_, ?_, ?_,
        run.parentCustody.verifyingKey, hparentKey, hverify⟩, ?_⟩⟩
    · simp only [entry, hcert]
      exact run.childIdentityDigest_eq
    · rw [hissuer]
      exact (hstep.keepsIdentity run.parentIdentity_eq).1
    · simp only [entry, hcert]
      exact run.parentIdentityDigest_eq
    · simp only [entry, hcert]
      exact hkeyId
    · intro ref href
      simp only [entry, hcert] at href
      cases href
  · intro parent above hid habove
    rw [hparentId] at hid
    cases hid
    rw [hparentLookup] at habove
    cases habove
    exact run.validateParentChild_eq
  · exact (run.placed hlife hparent fresh).path_lengths

end Delegation

namespace Renewal

variable {request : RenewalRequest} {now : DateTime} {uuid : String}
  (run : Renewal s request now uuid)

/-- A renewal passes the check its predecessor has passed. -/
theorem validateParentChild_eq (htrans : SubsetTransitive) {parent : LeaseId}
    {above : LeaseEntry} (hparent : run.old.parentId = some parent)
    (habove : s.leases.lookup parent = some above)
    (hold : validateParentChild above run.old = .ok ()) :
    validateParentChild above run.entry = .ok () := by
  obtain ⟨⟨signature, hcert⟩, -⟩ := signedLease_eq_ok run.certificate_eq
  obtain ⟨-, -, hsets, ⟨hgranted, -⟩, -, hattn, hactive⟩ :=
    validateRenewalRequest_eq_ok.mp run.request_ok
  obtain ⟨above', habove', -, hexpires⟩ := hactive parent hparent
  rw [habove] at habove'
  cases habove'
  obtain ⟨href, hagent, -, hsub, -, hattn'⟩ := validateParentChild_eq_ok.mp hold
  rw [validateParentChild_eq_ok]
  simp only [entry, hcert]
  exact ⟨href, hagent, hexpires, authorityIsSubsetOf_trans htrans hgranted hsub, hsets,
    validateManifestAttenuation_trans hattn hattn'⟩

theorem certified (htrans : SubsetTransitive) (hkey : VerifyingKeyRoundTrip)
    (hlife : Lifecycle s) (h : Credentials s) (hplaced : Placed s request.leaseId run.old)
    (fresh : run.renewedId ∉ s.leases) : Certified run.post run.renewedId run.entry := by
  have hstep := KernelStep.renewed run fresh
  obtain ⟨⟨signature, hcert⟩, hverify⟩ := signedLease_eq_ok run.certificate_eq
  obtain ⟨hkeyId, hissuerKey⟩ :=
    (h.identities _ _ run.issuerIdentity_eq).verifyingKey_eq hkey run.issuerCustody_eq
  have hagent : run.entry.certificate.agentId = run.old.certificate.agentId := by
    simp only [entry, hcert]
    rfl
  have hissuer : run.entry.certificate.parentAgentId.getD run.entry.certificate.agentId
      = run.old.certificate.parentAgentId.getD run.old.certificate.agentId := by
    simp only [entry, hcert]
    rfl
  have hold := h.leases _ _ run.old_eq
  have hpredecessor : run.post.leases.lookup request.leaseId
      = some (run.old.withRecord (run.old.record.retire run.renewedId)) := by
    rw [run.lookup_other (run.ne_renewed fresh run.old_eq)]
    exact run.old_retired
  constructor
  · simp only [entry, hcert]
    exact run.manifestDigest_eq
  · obtain ⟨subject, hsubject, hbindings⟩ := hold.bindings
    refine ⟨subject, by rw [hagent]; exact (hstep.keepsIdentity hsubject).1,
      validateBindings_eq_ok.mpr ⟨?_, ⟨run.issuerIdentity, ?_, ?_, ?_,
        run.issuerCustody.verifyingKey, hissuerKey, hverify⟩, ?_⟩⟩
    · simp only [entry, hcert]
      exact (validateBindings_eq_ok.mp hbindings).1
    · rw [hissuer]
      exact (hstep.keepsIdentity run.issuerIdentity_eq).1
    · simp only [entry, hcert]
      exact run.issuerDigest_eq
    · simp only [entry, hcert]
      exact hkeyId
    · intro ref href
      simp only [entry, hcert] at href ⊢
      cases href
      refine ⟨run.old.withRecord (run.old.record.retire run.renewedId), ?_,
        run.renewedFrom_eq, rfl, rfl, rfl, rfl⟩
      rw [leaseRef_eq_ok run.renewedFrom_eq, hlife.keyed _ _ run.old_eq]
      exact hpredecessor
  · intro parent above hid habove
    rw [run.entry_parentId] at hid
    obtain ⟨above₀, habove₀, -⟩ := run.parent_active hid
    have hvalid := run.validateParentChild_eq htrans hid habove₀
      (hold.parent parent above₀ hid habove₀)
    rw [(hstep.keepsLeases.eq_withRecord habove₀ habove).1]
    exact hvalid
  · exact (run.placed hplaced fresh).path_lengths

end Renewal

namespace Credentials

theorem bootstrapped (hkey : VerifyingKeyRoundTrip) {request : RootLeaseRequest}
    {custody : KeyCustody} {now : DateTime} {uuid : String}
    (run : Bootstrap request custody now uuid) : Credentials run.post := by
  constructor
  · intro agent identity hid
    rw [run.lookup_identity] at hid
    split at hid
    · rename_i heq
      cases hid
      subst heq
      exact run.registered hkey
    · cases hid
  · intro id entry hid
    obtain ⟨rfl, rfl⟩ := run.eq_entry hid
    exact run.certified hkey

theorem step (htrans : SubsetTransitive) (hkey : VerifyingKeyRoundTrip) (hlife : Lifecycle s)
    (hatt : Attenuation s) (htrees : Trees s) (h : Credentials s) (hstep : KernelStep s s') :
    Credentials s' := by
  constructor
  · intro agent identity hid
    rcases hstep.identity_origin hid with
      hold | ⟨request, custody, now, uuid, run, fresh, rfl, rfl, rfl⟩
    · obtain ⟨hissuance, custody, hcustody, hbinds⟩ := h.identities agent identity hold
      exact ⟨hstep.keepsIssuance hissuance, custody,
        by rw [(hstep.keepsIdentity hold).2]; exact hcustody, hbinds⟩
    · exact run.registered hkey h fresh
  · refine hstep.forall_leases (P := fun t id entry => Certified t id entry) h.leases ?_ ?_
    · intro id entry record hid hcert
      refine hstep.keepsCertified record (fun parent hparent => ?_) hcert
      obtain ⟨above, habove, -⟩ := hatt.parent id entry hid parent hparent
      exact ⟨above, habove⟩
    · intro id entry hissued
      cases hissued with
      | delegated run fresh =>
          exact run.certified hkey hlife h (htrees.leases _ _ run.parent_eq) fresh
      | renewed run fresh =>
          exact run.certified htrans hkey hlife h (htrees.leases _ _ run.old_eq) fresh

/-- The invariants of the kernel, together. -/
theorem of_reachable (htrans : SubsetTransitive) (hkey : VerifyingKeyRoundTrip)
    (h : Reachable s) : Credentials s := by
  have hall : Lifecycle s ∧ Attenuation s ∧ Trees s ∧ Credentials s := by
    refine h.invariant (P := fun t => Lifecycle t ∧ Attenuation t ∧ Trees t ∧ Credentials t) ?_ ?_
    · intro request custody now uuid s₀ hboot
      obtain ⟨run, rfl⟩ := bootstrap_eq_ok hboot
      exact ⟨Lifecycle.bootstrapped run, Attenuation.bootstrapped run, Trees.bootstrapped run,
        bootstrapped hkey run⟩
    · intro t t' ⟨hlife, hatt, htrees, hcred⟩ hstep
      exact ⟨hlife.step hstep, hatt.step htrans hlife hstep, htrees.step hlife hstep,
        hcred.step htrans hkey hlife hatt htrees hstep⟩
  exact hall.2.2.2

/-- Every stored lease passes, whatever was validated before. -/
theorem validateCertificateEntry_ok (hatt : Attenuation s) (h : Credentials s) {id : LeaseId}
    {entry : LeaseEntry} (hid : s.leases.lookup id = some entry) (cache : List AgentId) :
    ∃ cache', validateCertificateEntry s entry cache = .ok () cache' := by
  have hcert := h.leases id entry hid
  obtain ⟨subject, hsubject, hbindings⟩ := hcert.bindings
  obtain ⟨path, agents, -, hlen, hagents, hagentsLen⟩ := hcert.path
  have hmission := hatt.mission id entry hid
  refine validateCertificateEntry_complete
    ⟨hmission.missionId, hmission.organizationVersion, hmission.policyEpoch⟩ hcert.manifest hsubject
    (validateIdentityChain_complete hagents (by omega) ?_) hbindings cache
  intro node hnode
  exact (h.identities _ _ (hagents.find_of_mem hnode)).issuance

/-- Along the path every lease passes the check against the next one. -/
theorem isChain_attenuatedFrom (h : Credentials s) {id : LeaseId}
    {path : List (LeaseId × LeaseEntry)} (hpath : LeasePath s id path) :
    path.IsChain AttenuatedFrom := by
  induction hpath with
  | root => exact List.isChain_singleton _
  | @step id parent entry path hfind hup rest ih =>
      obtain ⟨above, tail, rfl, habove⟩ := rest.head_eq
      refine List.isChain_cons_cons.mpr ⟨?_, ih⟩
      exact (h.leases id entry hfind).parent parent above hup habove

/-- On a path of active leases the walk goes all the way. -/
theorem chainWalk_ok (hatt : Attenuation s) (h : Credentials s) {leaf : LeaseId}
    {entry : LeaseEntry} {expected : Option Nat} {now : DateTime}
    {path : List (LeaseId × LeaseEntry)} (hentry : s.leases.lookup leaf = some entry)
    (hgeneration : ∀ generation, expected = some generation →
      entry.record.generation = generation)
    (hpath : LeasePath s leaf path) (hactive : ∀ node ∈ path, node.2.ActiveAt now) :
    ∃ cache, chainWalk s leaf expected now maxAuthorityChainDepth leaf [] []
      = .ok path cache := by
  obtain ⟨path', agents, hpath', hlen, -⟩ := (h.leases leaf entry hentry).path
  obtain rfl := hpath.unique hpath'
  refine chainWalk_complete hpath hlen (by simp) ?_ ?_
  · intro node hnode
    refine validateActiveRecord_eq_ok.mpr ⟨?_, hactive node hnode⟩
    intro generation hexpected
    split at hexpected
    · rename_i heq
      have hfind : s.leases.lookup node.1 = some node.2 := hpath.find_of_mem hnode
      rw [heq, hentry] at hfind
      cases hfind
      exact hgeneration generation hexpected
    · cases hexpected
  · intro node hnode cache
    exact h.validateCertificateEntry_ok hatt (hpath.find_of_mem hnode) cache

/-- So a chain of active leases validates, under a manifest of the leaf's digest. -/
theorem validateChain_ok (hatt : Attenuation s) (h : Credentials s) {leaf : LeaseId}
    {entry : LeaseEntry} {path : List (LeaseId × LeaseEntry)} {expected : Option Nat}
    {manifest : CapabilityManifest} {now : DateTime} {digest : Digest}
    (hentry : s.leases.lookup leaf = some entry)
    (hgeneration : ∀ generation, expected = some generation →
      entry.record.generation = generation)
    (hpath : LeasePath s leaf path) (hactive : ∀ node ∈ path, node.2.ActiveAt now)
    (hd : entry.manifest.canonicalDigest = .ok digest)
    (hd' : manifest.canonicalDigest = .ok digest) :
    ∃ v, validateChain s leaf expected manifest now = .ok v := by
  obtain ⟨cache, hwalk⟩ := h.chainWalk_ok hatt hentry hgeneration hpath hactive
  obtain ⟨chain, hchain⟩ : ∃ chain,
      path.reverse.mapM (fun node => leaseRef node.2.certificate) = .ok chain :=
    Except.exists_mapM_eq_ok fun node _ => exists_leaseRef node.2.certificate
  obtain ⟨entry', rest, hcons, hentry'⟩ := hpath.head_eq
  rw [hentry] at hentry'
  cases hentry'
  exact ⟨_, validateChain_eq_ok.mpr ⟨path, cache, entry, digest, chain, hwalk,
    h.isChain_attenuatedFrom hpath, by rw [hcons]; rfl, hd, hd', hchain, rfl⟩⟩

end Credentials

/-- In every reachable state a validation succeeds exactly on leases whose whole
    path is active, at the expected generation and with the manifest the lease is
    bound to; it returns the path, from the root lease down. -/
theorem validateActiveChain_exact (hsub : SubsetPreorder) (hkey : VerifyingKeyRoundTrip)
    (hs : Reachable s) (leaf : LeaseId) (expected : Option Nat) (manifest : CapabilityManifest)
    (now : DateTime) :
    ((∃ v, validateActiveChain s leaf expected manifest now = .ok v) ↔
      ∃ entry path, s.leases.lookup leaf = some entry ∧
        (∀ generation, expected = some generation → entry.record.generation = generation) ∧
        LeasePath s leaf path ∧ (∀ node ∈ path, node.2.ActiveAt now) ∧
        ∃ digest, entry.manifest.canonicalDigest = .ok digest ∧
          manifest.canonicalDigest = .ok digest) ∧
    ∀ v path, validateActiveChain s leaf expected manifest now = .ok v →
      LeasePath s leaf path →
        path.reverse.head?.map Prod.fst = some s.rootLeaseId ∧
        path.reverse.mapM (fun node => leaseRef node.2.certificate) = .ok v.chain ∧
        v.chain.map LeaseRef.leaseId = path.reverse.map Prod.fst ∧
        v.observedGenerations
          = path.reverse.map fun node => (node.1, node.2.record.generation) := by
  have hlife := Lifecycle.of_reachable hs
  have hatt := Attenuation.of_reachable hsub.transitive hs
  have hcred := Credentials.of_reachable hsub.transitive hkey hs
  constructor
  · constructor
    · rintro ⟨v, hv⟩
      obtain ⟨entry, path, hvalid⟩ := validateChain_sound hv
      exact ⟨entry, path, hvalid.entry_eq, fun _ => hvalid.generation_eq, hvalid.isPath,
        fun _ => hvalid.active, hvalid.manifest_eq⟩
    · rintro ⟨entry, path, hentry, hgeneration, hpath, hactive, digest, hd, hd'⟩
      exact hcred.validateChain_ok hatt hentry hgeneration hpath hactive hd hd'
  · intro v path hv hpath
    obtain ⟨entry, path', hvalid⟩ := validateChain_sound hv
    obtain rfl := hpath.unique hvalid.isPath
    refine ⟨?_, hvalid.chain_eq, ?_, hvalid.generations_eq⟩
    · obtain ⟨⟨rootId, root⟩, hlast, hup⟩ := hpath.getLast_eq
      have hmem := List.mem_of_getLast? hlast
      rw [List.head?_reverse, hlast]
      exact congrArg some (hlife.root_only rootId root (hpath.find_of_mem hmem)
        (hvalid.active hmem).live hup)
    · refine Except.map_of_mapM_eq_ok hvalid.chain_eq fun node hnode ref href => ?_
      rw [leaseRef_eq_ok href]
      exact hlife.keyed _ _ (hpath.find_of_mem (List.mem_reverse.mp hnode))

omit [Externals] in
/-- In the reference kernel, a lease below the root lease validates under its own manifest:
    the two leases are returned, from the root lease down, at generation 0. -/
theorem validateActiveChain_exact_reference : letI := Reference.externals
    ∃ (s : AuthorityState) (v : ValidatedAuthority), Reachable s ∧
      validateActiveChain s Reference.childId (some 0) Reference.manifest Reference.start = .ok v ∧
      v.chain.map LeaseRef.leaseId = [s.rootLeaseId, Reference.childId] ∧
      v.observedGenerations = [(s.rootLeaseId, 0), (Reference.childId, 0)] ∧
      ∀ v', validateActiveChain s Reference.childId (some 1) Reference.manifest Reference.start
        ≠ .ok v' := by
  let := Reference.externals
  obtain ⟨s, rootEntry, childEntry, h⟩ := Reference.exists_delegated
  have hexact := validateActiveChain_exact Reference.subsetPreorder
    Reference.verifyingKeyRoundTrip h.reachable Reference.childId
  have hdigest := ((Credentials.of_reachable Reference.subsetPreorder.transitive
    Reference.verifyingKeyRoundTrip h.reachable).leases _ _ h.lookup_child).manifest
  have hgeneration := h.child_generation
  obtain ⟨v, hv⟩ := (hexact (some 0) Reference.manifest Reference.start).1.mpr
    ⟨childEntry, _, h.lookup_child, by simp [hgeneration], h.path, h.activeAt (by decide), _,
      hdigest, h.child_manifest ▸ hdigest⟩
  obtain ⟨-, -, hchain, hgenerations⟩ := (hexact _ _ _).2 v _ hv h.path
  refine ⟨s, v, h.reachable, hv, ?_, ?_, fun v' hv' => ?_⟩
  · rw [hchain, h.rootId]
    rfl
  · rw [hgenerations, h.rootId]
    simp [h.root_record, h.child_record, LeaseRecord.active]
  · obtain ⟨entry, path, hentry, hexpected, -⟩ := (hexact _ _ _).1.mp ⟨v', hv'⟩
    obtain rfl := Option.some.inj (h.lookup_child.symm.trans hentry)
    exact absurd (hexpected 1 rfl) (by rw [hgeneration]; decide)

end

end

namespace Reference

local instance validationExternals : Externals := externals

/-- The two leases of the reference kernel validate together while they are active. -/
theorem TwoLeases.exists_validated {root child : LeaseId} {s : AuthorityState}
    {rootEntry childEntry : LeaseEntry} (h : TwoLeases root child s rootEntry childEntry)
    (now : DateTime) (hnow : now < start + Duration.minutes 5) :
    ∃ v, validateChain s child (some 0) manifest now = .ok v := by
  have hcred := Credentials.of_reachable subsetPreorder.transitive verifyingKeyRoundTrip h.reachable
  have hdigest := (hcred.leases _ _ h.lookup_child).manifest
  refine hcred.validateChain_ok (Attenuation.of_reachable subsetPreorder.transitive h.reachable)
    h.lookup_child ?_ h.path (h.activeAt hnow) hdigest (h.child_manifest ▸ hdigest)
  intro generation hgeneration
  cases hgeneration
  exact h.child_generation

/-- And so does the one at the top. -/
theorem TwoLeases.exists_root_validated {root child : LeaseId} {s : AuthorityState}
    {rootEntry childEntry : LeaseEntry} (h : TwoLeases root child s rootEntry childEntry)
    (now : DateTime) (hnow : now < start + Duration.minutes 5) :
    ∃ v, validateChain s root (some 0) manifest now = .ok v := by
  have hcred := Credentials.of_reachable subsetPreorder.transitive verifyingKeyRoundTrip h.reachable
  have hdigest := (hcred.leases _ _ h.lookup_root).manifest
  refine hcred.validateChain_ok (Attenuation.of_reachable subsetPreorder.transitive h.reachable)
    h.lookup_root ?_ h.root_path (fun node hnode => h.activeAt hnow node (by simp_all)) hdigest
    (h.root_manifest ▸ hdigest)
  intro generation hgeneration
  cases hgeneration
  exact h.root_generation

end Reference

end GenesisRuntime
