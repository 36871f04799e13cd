/-
  GenesisRuntime.Kernel.Tree

  The two trees of the kernel: leases under leases, and identities issued by
  identities.

  A delegation grows both of them by one node, below a lease whose path it has
  just walked and found shorter than the bound; a renewal puts a lease in the place
  of another one.  So from every lease a path leads up, within the bound, and the
  agents on it are the issuers of the agent of the lease.
-/

import GenesisRuntime.Kernel.Attenuation

namespace GenesisRuntime

section
variable [Externals] {s s' : AuthorityState}

-- ============================================================================
-- Identities over time
-- ============================================================================

/-- A registered identity stays registered, under the same custody. -/
theorem KernelStep.keepsIdentity (h : KernelStep s s') {agent : AgentId}
    {identity : AgentIdentityCertificate} (hid : s.identities.lookup agent = some identity) :
    s'.identities.lookup agent = some identity ∧
      s'.custodians.lookup agent = s.custodians.lookup agent := by
  cases h with
  | unchanged => exact ⟨hid, rfl⟩
  | toggled => exact ⟨hid, rfl⟩
  | ended ended hends =>
      rw [hends.cascade.identities, hends.cascade.custodians]
      exact ⟨hid, rfl⟩
  | @delegated request custody now uuid run fresh =>
      have hne : agent ≠ request.childAgentId := by
        rintro rfl
        exact run.agent_new (AList.mem_of_lookup hid)
      rw [run.post_identities, run.post_custodians, AList.lookup_insert_ite, if_neg hne,
        AList.lookup_insert_ite, if_neg hne]
      exact ⟨hid, rfl⟩
  | renewed run fresh =>
      rw [run.post_identities, run.post_custodians]
      exact ⟨hid, rfl⟩

/-- An identity registered after a step was registered before it, or is the one
    a delegation has just made. -/
theorem KernelStep.identity_origin (h : KernelStep s s') {agent : AgentId}
    {identity : AgentIdentityCertificate} (hid : s'.identities.lookup agent = some identity) :
    s.identities.lookup agent = some identity ∨
      ∃ request custody now uuid, ∃ run : Delegation s request custody now uuid,
        run.childLeaseId ∉ s.leases ∧ agent = request.childAgentId ∧
          identity = run.childIdentity ∧ s' = run.post := by
  cases h with
  | unchanged => exact .inl hid
  | toggled => exact .inl hid
  | ended ended hends => exact .inl (by rw [← hends.cascade.identities]; exact hid)
  | @delegated request custody now uuid run fresh =>
      rw [run.post_identities, AList.lookup_insert_ite] at hid
      split at hid
      · rename_i heq
        cases hid
        exact .inr ⟨request, custody, now, uuid, run, fresh, heq, rfl, rfl⟩
      · exact .inl hid
  | renewed run fresh =>
      rw [run.post_identities] at hid
      exact .inl hid

/-- The path from an identity does not change. -/
theorem KernelStep.keepsIssuerPath (h : KernelStep s s') {agent : AgentId}
    {path : List (AgentId × AgentIdentityCertificate)} (hpath : IssuerPath s agent path) :
    IssuerPath s' agent path :=
  hpath.congr fun _ hnode => (h.keepsIdentity (hpath.find_of_mem hnode)).1

theorem Delegation.lookup_identity {request : DelegationRequest} {custody : KeyCustody}
    {now : DateTime} {uuid : String} (run : Delegation s request custody now uuid) :
    run.post.identities.lookup request.childAgentId = some run.childIdentity := by
  rw [run.post_identities, AList.lookup_insert_ite, if_pos rfl]

-- ============================================================================
-- The place of a lease
-- ============================================================================

/-- The agents of the leases on a path. -/
def pathAgents (path : List (LeaseId × LeaseEntry)) : List AgentId :=
  path.map fun node => node.2.certificate.agentId

theorem KernelStep.keepsLeasePath (h : KernelStep s s') {id : LeaseId}
    {path : List (LeaseId × LeaseEntry)} (hpath : LeasePath s id path) :
    ∃ path', LeasePath s' id path' ∧ pathAgents path' = pathAgents path := by
  obtain ⟨path', hpath', hmap⟩ := h.keepsLeases.path hpath
  have hagents := congrArg
    (List.map fun node : LeaseId × AuthorityLeaseCertificate => node.2.agentId) hmap
  rw [List.map_map, List.map_map] at hagents
  exact ⟨path', hpath', hagents⟩

/-- A lease refers to the lease above it by the digest of its certificate; the path up
    from it keeps to the bound, and the agents on it are the issuers of its agent. -/
structure Placed (s : AuthorityState) (id : LeaseId) (entry : LeaseEntry) : Prop where
  parent : ∀ ref, entry.certificate.parentLease = some ref →
    ∃ above, s.leases.lookup ref.leaseId = some above ∧ leaseRef above.certificate = .ok ref
  path : ∃ path agents, LeasePath s id path ∧ path.length ≤ maxAuthorityChainDepth ∧
    IssuerPath s entry.certificate.agentId agents ∧ agents.map Prod.fst = pathAgents path

theorem length_pathAgents (path : List (LeaseId × LeaseEntry)) :
    (pathAgents path).length = path.length :=
  List.length_map _

/-- The two paths are of the same length. -/
theorem Placed.path_lengths {id : LeaseId} {entry : LeaseEntry} (h : Placed s id entry) :
    ∃ path agents, LeasePath s id path ∧ path.length ≤ maxAuthorityChainDepth ∧
      IssuerPath s entry.certificate.agentId agents ∧ agents.length = path.length := by
  obtain ⟨path, agents, hpath, hlength, hagents, hsame⟩ := h.path
  refine ⟨path, agents, hpath, hlength, hagents, ?_⟩
  rw [← length_pathAgents, ← hsame, List.length_map]

theorem KernelStep.keepsPlaced (h : KernelStep s s') {id : LeaseId} {entry : LeaseEntry}
    (hplaced : Placed s id entry) (record : LeaseRecord) :
    Placed s' id (entry.withRecord record) where
  parent := by
    intro ref href
    obtain ⟨above, habove, hrefAbove⟩ := hplaced.parent ref href
    obtain ⟨r, hr, -⟩ := h.keepsLeases _ _ habove
    exact ⟨_, hr, hrefAbove⟩
  path := by
    obtain ⟨path, agents, hpath, hlength, hagents, hsame⟩ := hplaced.path
    obtain ⟨path', hpath', hpathAgents⟩ := h.keepsLeasePath hpath
    refine ⟨path', agents, hpath', ?_, h.keepsIssuerPath hagents, hsame.trans hpathAgents.symm⟩
    rw [← length_pathAgents, hpathAgents, length_pathAgents]
    exact hlength

theorem Bootstrap.placed {request : RootLeaseRequest} {custody : KeyCustody} {now : DateTime}
    {uuid : String} (run : Bootstrap request custody now uuid) :
    Placed run.post run.leaseId run.entry := by
  obtain ⟨signature, hcert⟩ := signedLease_fields run.certificate_eq
  obtain ⟨⟨signature', hidentity⟩, -⟩ := signedIdentity_eq_ok run.identity_eq
  have hagent : run.entry.certificate.agentId = request.agentId := by
    simp only [entry, hcert]
    rfl
  constructor
  · intro ref href
    simp only [entry, hcert] at href
    cases href
  · refine ⟨[(run.leaseId, run.entry)], [(request.agentId, run.identity)], .root ?_ ?_,
      by simp [maxAuthorityChainDepth], ?_, ?_⟩
    · rw [run.lookup_post, if_pos rfl]
    · simp only [LeaseEntry.parentId, entry, hcert]
      rfl
    · rw [hagent]
      refine .root (by rw [run.lookup_identity, if_pos rfl]) ?_
      rw [hidentity]
      rfl
    · rw [pathAgents, List.map_singleton, List.map_singleton, hagent]

/-- The lease delegated from has been validated with less than the full depth. -/
theorem Delegation.placed {request : DelegationRequest} {custody : KeyCustody}
    {now : DateTime} {uuid : String} (run : Delegation s request custody now uuid)
    (hlife : Lifecycle s) (hparent : Placed s request.parentLeaseId run.parent)
    (fresh : run.childLeaseId ∉ s.leases) : Placed run.post run.childLeaseId run.entry := by
  have hstep := KernelStep.delegated run fresh
  obtain ⟨signature, hcert⟩ := signedLease_fields run.certificate_eq
  obtain ⟨⟨signature', hidentity⟩, -⟩ := signedIdentity_eq_ok run.childIdentity_eq
  have hagent : run.entry.certificate.agentId = request.childAgentId := by
    simp only [entry, hcert]
    rfl
  have hparentKey : run.parent.certificate.leaseId = request.parentLeaseId :=
    hlife.keyed _ _ run.parent_eq
  have hup : run.entry.parentId = some request.parentLeaseId := by
    rw [run.entry_parentId, hparentKey]
  constructor
  · intro ref href
    have href' : run.parentReference = ref := by
      simp only [entry, hcert] at href
      exact Option.some.inj href
    rw [← href', leaseRef_eq_ok run.parentReference_eq, hparentKey,
      run.lookup_other (run.ne_child fresh run.parent_eq)]
    exact ⟨run.parent, run.parent_eq, run.parentReference_eq⟩
  · obtain ⟨path, agents, hpath, -, hagents, hsame⟩ := hparent.path
    obtain ⟨entry', path', hvalid⟩ := validateChain_sound run.validatedParent_eq
    have hdepth := run.depth
    have hrefs := (Except.mapM_eq_ok.mp hvalid.chain_eq).length_eq
    rw [List.length_reverse, hvalid.isPath.unique hpath] at hrefs
    obtain ⟨path₁, hpath₁, hpathAgents⟩ := hstep.keepsLeasePath hpath
    have hlength : path₁.length = path.length := by
      rw [← length_pathAgents, hpathAgents, length_pathAgents]
    refine ⟨(run.childLeaseId, run.entry) :: path₁,
      (request.childAgentId, run.childIdentity) :: agents, .step run.lookup_child hup hpath₁, ?_,
      ?_, ?_⟩
    · rw [List.length_cons]
      omega
    · rw [hagent]
      refine .step run.lookup_identity ?_ (hstep.keepsIssuerPath hagents)
      rw [hidentity]
      rfl
    · rw [List.map_cons, hsame, ← hpathAgents]
      simp only [pathAgents, List.map_cons, hagent]

/-- A renewal takes the place of the lease it replaces. -/
theorem Renewal.placed {request : RenewalRequest} {now : DateTime} {uuid : String}
    (run : Renewal s request now uuid) (hold : Placed s request.leaseId run.old)
    (fresh : run.renewedId ∉ s.leases) : Placed run.post run.renewedId run.entry := by
  have hstep := KernelStep.renewed run fresh
  obtain ⟨signature, hcert⟩ := signedLease_fields run.certificate_eq
  have hagent : run.entry.certificate.agentId = run.old.certificate.agentId := by
    simp only [entry, hcert]
    rfl
  constructor
  · intro ref href
    simp only [entry, hcert] at href
    obtain ⟨above, habove, hrefAbove⟩ := hold.parent ref href
    obtain ⟨r, hr, -⟩ := hstep.keepsLeases _ _ habove
    exact ⟨_, hr, hrefAbove⟩
  · obtain ⟨path, agents, hpath, hlength, hagents, hsame⟩ := hold.path
    have hagents' := hstep.keepsIssuerPath hagents
    rw [← hagent] at hagents'
    cases hpath with
    | root hfind hup =>
        rw [run.old_eq] at hfind
        cases hfind
        refine ⟨[(run.renewedId, run.entry)], agents,
          .root run.lookup_renewed (by rw [run.entry_parentId]; exact hup), hlength, hagents', ?_⟩
        rw [hsame, pathAgents, pathAgents, List.map_singleton, List.map_singleton, hagent]
    | step hfind hup rest =>
        rw [run.old_eq] at hfind
        cases hfind
        obtain ⟨rest₁, hrest₁, hpathAgents⟩ := hstep.keepsLeasePath rest
        refine ⟨(run.renewedId, run.entry) :: rest₁, agents,
          .step run.lookup_renewed (by rw [run.entry_parentId]; exact hup) hrest₁, ?_,
          hagents', ?_⟩
        · rw [List.length_cons, ← length_pathAgents, hpathAgents, length_pathAgents]
          exact hlength
        · rw [hsame]
          simp only [pathAgents, List.map_cons, hagent] at hpathAgents ⊢
          rw [hpathAgents]

-- ============================================================================
-- The invariant
-- ============================================================================

/-- An identity without issuer, signed by its own key. -/
structure SelfIssued (identity : AgentIdentityCertificate) : Prop where
  issuerAgentId : identity.issuerAgentId = none
  issuerKeyId : identity.issuerKeyId = identity.keyId
  signed : ∃ key, identity.verifyingKeyBytes = Externals.verifyingKeyToBytes key ∧
    identity.verifySignature key = .ok ()

/-- Every lease has its place, and all identities but one have an issuer. -/
structure Trees (s : AuthorityState) : Prop where
  leases : ∀ id entry, s.leases.lookup id = some entry → Placed s id entry
  root : ∃ agent identity, s.identities.lookup agent = some identity ∧ SelfIssued identity ∧
    ∀ agent' identity', s.identities.lookup agent' = some identity' →
      identity'.issuerAgentId = none → agent' = agent

namespace Trees

theorem bootstrapped {request : RootLeaseRequest} {custody : KeyCustody} {now : DateTime}
    {uuid : String} (run : Bootstrap request custody now uuid) : Trees run.post := by
  obtain ⟨⟨signature, hidentity⟩, hverify⟩ := signedIdentity_eq_ok run.identity_eq
  constructor
  · intro id entry hid
    obtain ⟨rfl, rfl⟩ := run.eq_entry hid
    exact run.placed
  · refine ⟨request.agentId, run.identity, by rw [run.lookup_identity, if_pos rfl], ?_, ?_⟩
    · refine ⟨by rw [hidentity]; rfl, by rw [hidentity]; rfl, custody.verifyingKey, ?_, hverify⟩
      rw [hidentity]
      rfl
    · intro agent identity hid _
      rw [run.lookup_identity] at hid
      split at hid
      · rename_i heq
        exact heq
      · cases hid

theorem step (hlife : Lifecycle s) (h : Trees s) (hstep : KernelStep s s') : Trees s' := by
  constructor
  · refine hstep.forall_leases (P := fun t id entry => Placed t id entry) h.leases ?_ ?_
    · intro id entry record _ hplaced
      exact hstep.keepsPlaced hplaced record
    · intro id entry hissued
      cases hissued with
      | delegated run fresh => exact run.placed hlife (h.leases _ _ run.parent_eq) fresh
      | renewed run fresh => exact run.placed (h.leases _ _ run.old_eq) fresh
  · obtain ⟨agent, identity, hid, hself, honly⟩ := h.root
    refine ⟨agent, identity, (hstep.keepsIdentity hid).1, hself, ?_⟩
    intro agent' identity' hid' hnone
    rcases hstep.identity_origin hid' with hold | ⟨request, custody, now, uuid, run, -, rfl, rfl, -⟩
    · exact honly agent' identity' hold hnone
    · -- a delegated identity has an issuer
      obtain ⟨⟨signature, hidentity⟩, -⟩ := signedIdentity_eq_ok run.childIdentity_eq
      rw [hidentity] at hnone
      cases hnone

theorem of_reachable (h : Reachable s) : Trees s := by
  have hboth : Lifecycle s ∧ Trees s := by
    refine h.invariant (P := fun t => Lifecycle t ∧ Trees t) ?_ ?_
    · intro request custody now uuid s₀ hboot
      obtain ⟨run, rfl⟩ := bootstrap_eq_ok hboot
      exact ⟨Lifecycle.bootstrapped run, bootstrapped run⟩
    · intro t t' ⟨hlife, htrees⟩ hstep
      exact ⟨hlife.step hstep, htrees.step hlife hstep⟩
  exact hboth.2

end Trees

end

end GenesisRuntime
