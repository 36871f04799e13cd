/-
  GenesisRuntime.Kernel.Soundness

  What a successful `validate_chain` says of the state it was called on, whatever
  that state is: nothing is assumed of how its certificates, records, links and
  identities came about.

  The walk goes from the leaf up and compares neighbours only.  That every lease
  of the chain is within every lease above it follows along the chain, because a
  lease delegates no more than it was granted.
-/

import GenesisRuntime.Kernel.Completeness

namespace GenesisRuntime

section
variable [Externals] {s : AuthorityState}

-- ============================================================================
-- Identities
-- ============================================================================

/-- The identity of an agent is registered, and every identity from it up to a
    self-issued one bears the signature of its issuer. -/
def ValidIdentity (s : AuthorityState) (agent : AgentId) : Prop :=
  ∃ path, IssuerPath s agent path ∧ ∀ node ∈ path, Issuance s node.2

theorem identityWalk_sound {validated : List AgentId}
    (hvalidated : ∀ agent ∈ validated, ValidIdentity s agent) {remaining : Nat} {agent : AgentId}
    {visited identities : List AgentId}
    (h : identityWalk s validated remaining agent visited = .ok identities) :
    ValidIdentity s agent ∧ ∀ id ∈ identities, ValidIdentity s id := by
  induction remaining generalizing agent visited identities with
  | zero =>
      rw [identityWalk] at h
      cases h
  | succ remaining ih =>
      rw [identityWalk] at h
      split at h
      · rename_i hin
        cases h
        exact ⟨hvalidated agent hin, by simp⟩
      simp only [Except.bind_eq_ok, rejectIf_eq_ok, orReject_eq_ok] at h
      obtain ⟨_, -, identity, hidentity, h⟩ := h
      cases hissuer : identity.issuerAgentId with
      | none =>
          simp only [hissuer, Except.bind_eq_ok, Except.pure_eq_ok, rejectIf_eq_ok, not_not] at h
          obtain ⟨_, hkeyId, key, hkey, _, hverify, rfl⟩ := h
          have hvalid : ValidIdentity s agent := by
            refine ⟨[(agent, identity)], .root hidentity hissuer, ?_⟩
            intro node hnode
            obtain rfl := List.mem_singleton.mp hnode
            exact ⟨fun issuerId h => by simp [hissuer] at h, fun _ => ⟨hkeyId, key, hkey, hverify⟩⟩
          exact ⟨hvalid, by simpa using hvalid⟩
      | some issuerId =>
          simp only [hissuer, Except.bind_eq_ok, Except.pure_eq_ok, rejectIf_eq_ok, orReject_eq_ok,
            not_not] at h
          obtain ⟨_, -, issuer, hfound, _, hkeyId, key, hkey, _, hverify, rest, hrest, rfl⟩ := h
          obtain ⟨⟨path, hpath, hissued⟩, hvalidRest⟩ := ih hrest
          have hvalid : ValidIdentity s agent := by
            refine ⟨(agent, identity) :: path, .step hidentity hissuer hpath, ?_⟩
            intro node hnode
            rcases List.mem_cons.mp hnode with rfl | hnode
            · refine ⟨fun issuerId' h => ?_, fun h => by simp [hissuer] at h⟩
              obtain rfl : issuerId = issuerId' := by simpa [hissuer] using h
              exact ⟨issuer, hfound, hkeyId, key, hkey, hverify⟩
            · exact hissued node hnode
          refine ⟨hvalid, fun id hid => ?_⟩
          rcases List.mem_cons.mp hid with rfl | hid
          · exact hvalid
          · exact hvalidRest id hid

theorem validateIdentityChain_sound {agent : AgentId} {cache cache' : List AgentId}
    (hcache : ∀ agent ∈ cache, ValidIdentity s agent)
    (h : validateIdentityChain s agent cache = .ok () cache') :
    ValidIdentity s agent ∧ ∀ agent ∈ cache', ValidIdentity s agent := by
  simp only [validateIdentityChain, EStateM.get_bind_eq_ok] at h
  split at h
  · rename_i hin
    obtain ⟨-, rfl⟩ := EStateM.pure_eq_ok.mp h
    exact ⟨hcache agent hin, hcache⟩
  · simp only [ofResult_bind_eq_ok, EStateM.modify_eq_ok] at h
    obtain ⟨identities, hwalk, rfl⟩ := h
    obtain ⟨hvalid, hidentities⟩ := identityWalk_sound hcache hwalk
    refine ⟨hvalid, fun id hid => ?_⟩
    rcases List.mem_append.mp hid with hid | hid
    · exact hcache id hid
    · exact hidentities id hid

-- ============================================================================
-- One lease
-- ============================================================================

/-- The terms of a lease are those of the mission, and its manifest is the one it
    was issued with. -/
structure BoundToMission (mission : MissionEnvelope) (entry : LeaseEntry) : Prop where
  missionId : entry.certificate.missionId = mission.missionId
  organizationVersion : entry.certificate.organizationVersion = mission.organizationVersion
  policyEpoch : entry.certificate.policyEpoch = mission.policyEpoch
  manifest : entry.manifest.canonicalDigest = .ok entry.certificate.capabilityManifestDigest

/-- The certificate of a lease bears the signature of the registered key of its
    issuer. -/
def SignedByIssuer (s : AuthorityState) (certificate : AuthorityLeaseCertificate) : Prop :=
  ∃ issuer, s.identities.lookup (certificate.parentAgentId.getD certificate.agentId)
      = some issuer ∧
    issuer.canonicalDigest = .ok certificate.issuerIdentityDigest ∧
    issuer.keyId = certificate.issuerKeyId ∧
    ∃ key, issuer.verifyingKey = .ok key ∧ certificate.verifySignature key = .ok ()

/-- The subject of a lease is registered under the identity the lease names, and that
    identity is valid. -/
def ValidSubject (s : AuthorityState) (certificate : AuthorityLeaseCertificate) : Prop :=
  ValidIdentity s certificate.agentId ∧
    ∃ subject, s.identities.lookup certificate.agentId = some subject ∧
      subject.canonicalDigest = .ok certificate.agentIdentityDigest

/-- All that `validate_certificate_entry` establishes of one lease. -/
structure ValidEntry (s : AuthorityState) (entry : LeaseEntry) : Prop where
  bound : BoundToMission s.mission entry
  signed : SignedByIssuer s entry.certificate
  subject : ValidSubject s entry.certificate

theorem validateCertificateEntry_sound {entry : LeaseEntry} {cache cache' : List AgentId}
    (hcache : ∀ agent ∈ cache, ValidIdentity s agent)
    (h : validateCertificateEntry s entry cache = .ok () cache') :
    ValidEntry s entry ∧ ∀ agent ∈ cache', ValidIdentity s agent := by
  simp only [validateCertificateEntry, orReject_eq_ofResult, rejectIf_eq_ofResult,
    ofResult_bind_eq_ok, orReject_eq_ok, rejectIf_eq_ok, not_or, not_not] at h
  obtain ⟨_, ⟨hmission, hversion, hepoch⟩, digest, hdigest, _, hmanifest, subject, hsubject, h⟩ := h
  obtain ⟨_, cache₁, hchain, hrest⟩ := EStateM.bind_eq_ok.mp h
  obtain ⟨hbindings, rfl⟩ := ofResult_eq_ok.mp hrest
  obtain ⟨hidentity, hcache₁⟩ := validateIdentityChain_sound hcache hchain
  obtain ⟨hsubjectDigest, hissuer, -⟩ := validateBindings_eq_ok.mp hbindings
  rw [← hmanifest] at hdigest
  exact ⟨⟨⟨hmission, hversion, hepoch, hdigest⟩, hissuer, hidentity, subject, hsubject,
    hsubjectDigest⟩, hcache₁⟩

/-- The walk checks every lease it passes, with what it has validated on the way. -/
theorem chainWalk_entries {leaf : LeaseId} {expected : Option Nat} {now : DateTime}
    {remaining : Nat} {current : LeaseId} {visited : List LeaseId} {cache cache' : List AgentId}
    {path : List (LeaseId × LeaseEntry)} (hcache : ∀ agent ∈ cache, ValidIdentity s agent)
    (h : chainWalk s leaf expected now remaining current visited cache = .ok path cache') :
    ∀ node ∈ path, ValidEntry s node.2 := by
  induction remaining generalizing current visited cache path with
  | zero => simp [chainWalk, EStateM.throw_eq_ok] at h
  | succ remaining ih =>
      obtain ⟨-, entry, cache₁, -, -, hcert, hend | hstep⟩ := chainWalk_succ.mp h
      · obtain ⟨-, rfl, rfl⟩ := hend
        intro node hnode
        obtain rfl := List.mem_singleton.mp hnode
        exact (validateCertificateEntry_sound hcache hcert).1
      · obtain ⟨parent, rest, -, hrest, rfl⟩ := hstep
        obtain ⟨hentry, hcache₁⟩ := validateCertificateEntry_sound hcache hcert
        intro node hnode
        rcases List.mem_cons.mp hnode with rfl | hnode
        · exact hentry
        · exact ih hcache₁ hrest node hnode

-- ============================================================================
-- The chain
-- ============================================================================

/-- The lease is within the one above it, and delegates no more than it was granted. -/
structure Attenuated (entry above : LeaseEntry) : Prop where
  within : WithinLease above entry
  delegable : authorityIsSubsetOf entry.certificate.delegableAuthority
    entry.certificate.grantedAuthority = true

theorem Attenuated.of_neighbours {child parent : LeaseId × LeaseEntry}
    (h : AttenuatedFrom child parent) : Attenuated child.2 parent.2 := by
  obtain ⟨-, -, hexpires, hgranted, hsets, hmanifest⟩ := validateParentChild_eq_ok.mp h
  obtain ⟨-, -, -, -, htools⟩ := validateManifestAttenuation_eq_ok.mp hmanifest
  exact ⟨⟨hgranted, hexpires, htools⟩, (validateAuthoritySets_eq_ok.mp hsets).2⟩

theorem Attenuated.trans (htrans : SubsetTransitive) {a b c : LeaseEntry}
    (hab : Attenuated a b) (hbc : Attenuated b c) : Attenuated a c where
  within :=
    { granted := authorityIsSubsetOf_trans htrans hab.within.granted
        (authorityIsSubsetOf_trans htrans hbc.delegable hbc.within.granted)
      expiresAt := hab.within.expiresAt.trans hbc.within.expiresAt
      tools := List.Subset.trans hab.within.tools hbc.within.tools }
  delegable := hab.delegable

/-- Attenuation between neighbours is attenuation between any two. -/
theorem attenuated_pairwise (htrans : SubsetTransitive) {path : List (LeaseId × LeaseEntry)}
    (h : path.IsChain AttenuatedFrom) :
    path.Pairwise fun entry above => Attenuated entry.2 above.2 := by
  have htransitive : IsTrans (LeaseId × LeaseEntry)
      fun entry above => Attenuated entry.2 above.2 :=
    ⟨fun _ _ _ => Attenuated.trans htrans⟩
  rw [← List.isChain_iff_pairwise]
  exact h.imp fun _ _ => Attenuated.of_neighbours

/-- A link of the chain: the lease names the digest of its parent's certificate. -/
def NamesParent (child parent : LeaseId × LeaseEntry) : Prop :=
  ∃ ref, child.2.certificate.parentLease = some ref ∧ ref.leaseId = parent.1 ∧
    leaseRef parent.2.certificate = .ok ref

theorem namesParent_of_path {leaf : LeaseId} {path : List (LeaseId × LeaseEntry)}
    (hpath : LeasePath s leaf path) (h : path.IsChain AttenuatedFrom) :
    path.IsChain NamesParent := by
  induction hpath with
  | root => exact List.isChain_singleton _
  | @step child parent entry path hfind hup rest ih =>
      obtain ⟨above, rest', hcons, -⟩ := rest.head_eq
      rw [hcons, List.isChain_cons_cons] at h
      obtain ⟨hneighbours, htail⟩ := h
      rw [hcons] at ih ⊢
      refine List.isChain_cons_cons.mpr ⟨?_, ih htail⟩
      obtain ⟨⟨ref, href, hparentRef⟩, -⟩ := validateParentChild_eq_ok.mp hneighbours
      obtain ⟨ref', href', hid⟩ := LeaseEntry.parentId_eq_some.mp hup
      rw [href] at href'
      cases href'
      exact ⟨ref, href, hid, hparentRef⟩

/-- A validation that succeeds has walked between one and 32 stored leases, each once,
    from the leaf up to one without parent; it has checked each of them and each link,
    and no lease of the chain exceeds one above it. -/
theorem validated_chain_is_sound {leaf : LeaseId} {expected : Option Nat}
    {manifest : CapabilityManifest} {now : DateTime} {v : ValidatedAuthority}
    (h : validateChain s leaf expected manifest now = .ok v) :
    ∃ path, LeasePath s leaf path ∧
      (1 ≤ path.length ∧ path.length ≤ maxAuthorityChainDepth) ∧
      (path.map Prod.fst).Nodup ∧
      (∀ node ∈ path, s.leases.lookup node.1 = some node.2 ∧ node.2.ActiveAt now ∧
        ValidEntry s node.2) ∧
      path.IsChain NamesParent ∧
      (∀ root ∈ path.getLast?, root.2.certificate.parentLease = none) ∧
      (∀ generation, expected = some generation →
        ∃ entry, s.leases.lookup leaf = some entry ∧ entry.record.generation = generation) ∧
      (SubsetPreorder → path.Pairwise fun descendant ancestor =>
        WithinLease ancestor.2 descendant.2) := by
  obtain ⟨path, cache, entry, digest, chain, hwalk, hattn, -⟩ := validateChain_eq_ok.mp h
  obtain ⟨entry', path', hvalid⟩ := validateChain_sound h
  obtain ⟨hpath, hlength, -⟩ := chainWalk_sound hwalk
  obtain rfl := hpath.unique hvalid.isPath
  have hentries := chainWalk_entries (by simp) hwalk
  refine ⟨path, hpath, ⟨List.length_pos_of_ne_nil hpath.ne_nil, hlength⟩, hpath.nodup, ?_,
    namesParent_of_path hpath hattn, ?_, ?_, ?_⟩
  · intro node hnode
    exact ⟨hpath.find_of_mem hnode, hvalid.active hnode, hentries node hnode⟩
  · intro root hroot
    obtain ⟨last, hlast, hup⟩ := hpath.getLast_eq
    rw [hlast] at hroot
    cases hroot
    exact LeaseEntry.parentId_eq_none.mp hup
  · intro generation hexpected
    exact ⟨entry', hvalid.entry_eq, hvalid.generation_eq hexpected⟩
  · intro hsub
    exact (attenuated_pairwise hsub.transitive hattn).imp Attenuated.within

omit [Externals] in
/-- A validation of a delegated lease has walked two leases, the second the parent of the
    first. -/
theorem validated_chain_is_sound_reference : letI := Reference.externals
    ∃ (s : AuthorityState) (v : ValidatedAuthority) (child root : LeaseId × LeaseEntry),
      validateChain s Reference.childId (some 0) Reference.manifest Reference.start = .ok v ∧
      child.1 = Reference.childId ∧ child.1 ≠ root.1 ∧ child.2.parentId = some root.1 ∧
      LeasePath s Reference.childId [child, root] ∧ NamesParent child root ∧
      ValidEntry s child.2 ∧ ValidEntry s root.2 ∧ root.2.certificate.parentLease = none ∧
      child.2.record.generation = 0 ∧ WithinLease root.2 child.2 := by
  let := Reference.externals
  obtain ⟨s, rootEntry, childEntry, h⟩ := Reference.exists_delegated
  obtain ⟨v, hv⟩ := h.exists_validated Reference.start (by decide)
  obtain ⟨path, hpath, -, -, hentries, hchain, hroot, hgeneration, hwithin⟩ :=
    validated_chain_is_sound hv
  obtain rfl := h.path.unique hpath
  obtain ⟨entry, hentry, hzero⟩ := hgeneration 0 rfl
  obtain rfl := Option.some.inj (h.lookup_child.symm.trans hentry)
  exact ⟨s, v, _, _, hv, rfl, h.ne, h.child_parent, hpath, (List.isChain_cons_cons.mp hchain).1,
    (hentries _ (by simp)).2.2, (hentries _ (by simp)).2.2, hroot _ (by simp), hzero,
    List.rel_of_pairwise_cons (hwithin Reference.subsetPreorder) (by simp)⟩

end

end GenesisRuntime
