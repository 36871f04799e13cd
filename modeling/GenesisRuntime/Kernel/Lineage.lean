/-
  GenesisRuntime.Kernel.Lineage

  The leases of one agent.

  A delegation registers a new agent with its first lease, and a renewal replaces
  the lease an agent has.  So the leases of an agent form one line, in which every
  lease but the last has been retired in favour of the next.  What a renewal may
  not change stays the same all along the line, and what it may only narrow shrinks.
-/

import GenesisRuntime.Kernel.Replay
import GenesisRuntime.Kernel.Stamps
import GenesisRuntime.Kernel.Tree

namespace GenesisRuntime

section
variable [Externals] {s s' : AuthorityState}

-- ============================================================================
-- Steps, as far as lineages are concerned
-- ============================================================================

/-- No lease comes or goes, no identity either, and no lease finds a successor. -/
structure KeepsLineages (s s' : AuthorityState) : Prop where
  identities : s'.identities = s.identities
  custodians : s'.custodians = s.custodians
  rootLeaseId : s'.rootLeaseId = s.rootLeaseId
  absent : ∀ id, s.leases.lookup id = none → s'.leases.lookup id = none
  present : ∀ id entry, s.leases.lookup id = some entry →
    ∃ record, s'.leases.lookup id = some (entry.withRecord record) ∧
      RecordStep entry.record record
  successor : ∀ id, s'.view.successor id = s.view.successor id

/-- One call. Unlike `KernelStep` it tells which leases have found a successor. -/
inductive LineageStep (s : AuthorityState) : AuthorityState → Prop where
  | kept {s' : AuthorityState} (h : KeepsLineages s s') : LineageStep s s'
  | delegated {request : DelegationRequest} {custody : KeyCustody} {now : DateTime}
      {uuid : String} (run : Delegation s request custody now uuid)
      (fresh : run.childLeaseId ∉ s.leases) : LineageStep s run.post
  | renewed {request : RenewalRequest} {now : DateTime} {uuid : String}
      (run : Renewal s request now uuid) (fresh : run.renewedId ∉ s.leases)
      (spared : ∀ id, id ≠ request.leaseId →
        run.retired.view.successor id = s.view.successor id) : LineageStep s run.post

theorem KeepsLineages.of_cascade (h : Cascade s s')
    (hsuccessor : ∀ id, s'.view.successor id = s.view.successor id) : KeepsLineages s s' where
  identities := h.identities
  custodians := h.custodians
  rootLeaseId := h.rootLeaseId
  absent := h.absent
  present := by
    intro id entry hid
    obtain ⟨record, hrecord, hends⟩ := h.present id entry hid
    exact ⟨record, hrecord, .ends hends⟩
  successor := hsuccessor

theorem KeepsLineages.toggled {id : LeaseId} {entry : LeaseEntry} {next : LeaseState}
    {kind : AuthorityEventKind} {now : DateTime} (hentry : s.leases.lookup id = some entry)
    (hstep : RecordStep entry.record (entry.record.advance next)) :
    KeepsLineages s ((s.putLease id (entry.withRecord (entry.record.advance next))).pushEvent
      id none kind now) where
  identities := rfl
  custodians := rfl
  rootLeaseId := rfl
  absent := by
    intro id' hid'
    rw [AuthorityState.pushEvent_leases, AuthorityState.lookup_putLease, hid']
    apply if_neg
    rintro rfl
    rw [hentry] at hid'
    cases hid'
  present := by
    intro id' entry' hid'
    rw [AuthorityState.pushEvent_leases, AuthorityState.lookup_putLease]
    by_cases heq : id' = id
    · subst heq
      rw [hentry] at hid'
      cases hid'
      exact ⟨_, if_pos rfl, hstep⟩
    · rw [if_neg heq]
      exact ⟨entry'.record, hid', .ends (.same _)⟩
  successor := by
    intro id'
    have hview : (s.putLease id (entry.withRecord (entry.record.advance next))).view
        = s.view.change id (.advance next) := view_putLease_record hentry rfl
    have hsuccessor : (s.view.change id (.advance next)).successor id' = s.view.successor id' :=
      Replayed.change_successor (f := .advance next) (fun _ => rfl) s.view id'
    rw [← hview] at hsuccessor
    exact hsuccessor

/-- Every call is such a step. -/
theorem KernelOp.lineageStep_after (op : KernelOp) {uuid : String} (fresh : FreshUuid s uuid) :
    LineageStep s (op.after uuid s) := by
  unfold KernelOp.after
  split
  · rename_i r s' h
    cases op with
    | delegate request custody now =>
        obtain ⟨id, hrun, -⟩ := map_eq_ok.mp h
        obtain ⟨run, -, rfl⟩ := delegate_eq_ok hrun
        exact .delegated run (fresh _ run.childLeaseId_eq)
    | pause id generation now =>
        obtain ⟨record, hrun, -⟩ := map_eq_ok.mp h
        obtain ⟨entry, hentry, -, hstate, -, rfl, rfl⟩ := transition_eq_ok hrun
        exact .kept (.toggled hentry (.pause hstate))
    | resume id generation now =>
        obtain ⟨record, hrun, -⟩ := map_eq_ok.mp h
        obtain ⟨entry, hentry, -, hstate, -, rfl, rfl⟩ := transition_eq_ok hrun
        exact .kept (.toggled hentry (.resume hstate))
    | revoke id generation reason now =>
        obtain ⟨affected, hrun, -⟩ := map_eq_ok.mp h
        obtain ⟨new, hnew, hkinds⟩ := revoke_logs hrun
        refine .kept (.of_cascade (revoke_endsBelow hrun).2.cascade fun id' => ?_)
        rw [← hnew.view_eq]
        exact Replayed.foldl_successor hkinds s.view id'
    | refreshExpirations now =>
        obtain ⟨expired, hrun, -⟩ := map_eq_ok.mp h
        obtain ⟨new, hnew, hkinds⟩ := refreshExpirations_logs hrun
        obtain ⟨expired', t, ended, hrun', hbelow, -⟩ := refreshExpirations_spec s now
        rw [hrun'] at hrun
        cases hrun
        refine .kept (.of_cascade hbelow.cascade fun id' => ?_)
        rw [← hnew.view_eq]
        exact Replayed.foldl_successor hkinds s.view id'
    | renew request now =>
        obtain ⟨id, hrun, -⟩ := map_eq_ok.mp h
        obtain ⟨run, -, rfl, hretired⟩ := renew_eq_ok_retired hrun
        refine .renewed run (fresh _ run.renewedId_eq) fun id' hne => ?_
        obtain ⟨new, -, -, hkinds, hview⟩ := run.cascade_logs hretired
        rw [← hview, Replayed.successor, Replayed.change_leases, if_neg hne]
        exact Replayed.foldl_successor hkinds s.view id'
  · rename_i e s' h
    rw [op.exec_failsClean uuid s e s' h]
    exact .kept (.of_cascade (Cascade.refl s) fun _ => rfl)

/-- The induction rule for invariants that need to know of successors. -/
theorem Reachable.lineage_invariant {P : AuthorityState → Prop} (h : Reachable s)
    (hinit : ∀ request custody now uuid,
      ∀ run : Bootstrap request custody now uuid, P run.post)
    (hstep : ∀ t t', Reachable t → P t → LineageStep t t' → P t') : P s := by
  obtain ⟨request, custody, now, uuid, s₀, hboot, hrun⟩ := h
  have hstart : Reachable s₀ := ⟨request, custody, now, uuid, s₀, hboot, .refl⟩
  induction hrun with
  | refl =>
      obtain ⟨run, rfl⟩ := bootstrap_eq_ok hboot
      exact hinit request custody now uuid run
  | call hbefore op uuid fresh ih =>
      exact hstep _ _ (hstart.run hbefore) ih (op.lineageStep_after fresh)

-- ============================================================================
-- Lines of renewals
-- ============================================================================

/-- What a renewal hands down: what it may not change, and what it may only narrow. -/
structure Narrowed (earlier later : LeaseEntry) : Prop where
  agentId : later.certificate.agentId = earlier.certificate.agentId
  parentLease : later.certificate.parentLease = earlier.certificate.parentLease
  parentAgentId : later.certificate.parentAgentId = earlier.certificate.parentAgentId
  issuerIdentityDigest :
    later.certificate.issuerIdentityDigest = earlier.certificate.issuerIdentityDigest
  issuerKeyId : later.certificate.issuerKeyId = earlier.certificate.issuerKeyId
  semanticContextDigest :
    later.certificate.semanticContextDigest = earlier.certificate.semanticContextDigest
  version : later.manifest.version = earlier.manifest.version
  modelManifestDigest : later.manifest.modelManifestDigest = earlier.manifest.modelManifestDigest
  runtimeConfigDigest : later.manifest.runtimeConfigDigest = earlier.manifest.runtimeConfigDigest
  toolRegistryRootDigest :
    later.manifest.toolRegistryRootDigest = earlier.manifest.toolRegistryRootDigest
  granted : authorityIsSubsetOf later.certificate.grantedAuthority
    earlier.certificate.grantedAuthority = true
  delegable : authorityIsSubsetOf later.certificate.delegableAuthority
    earlier.certificate.delegableAuthority = true
  tools : later.manifest.approvedTools ⊆ earlier.manifest.approvedTools

namespace Narrowed

variable {a b c : LeaseEntry}

theorem trans (htrans : SubsetTransitive) (h : Narrowed a b) (h' : Narrowed b c) :
    Narrowed a c where
  agentId := h'.agentId.trans h.agentId
  parentLease := h'.parentLease.trans h.parentLease
  parentAgentId := h'.parentAgentId.trans h.parentAgentId
  issuerIdentityDigest := h'.issuerIdentityDigest.trans h.issuerIdentityDigest
  issuerKeyId := h'.issuerKeyId.trans h.issuerKeyId
  semanticContextDigest := h'.semanticContextDigest.trans h.semanticContextDigest
  version := h'.version.trans h.version
  modelManifestDigest := h'.modelManifestDigest.trans h.modelManifestDigest
  runtimeConfigDigest := h'.runtimeConfigDigest.trans h.runtimeConfigDigest
  toolRegistryRootDigest := h'.toolRegistryRootDigest.trans h.toolRegistryRootDigest
  granted := authorityIsSubsetOf_trans htrans h'.granted h.granted
  delegable := authorityIsSubsetOf_trans htrans h'.delegable h.delegable
  tools := List.Subset.trans h'.tools h.tools

/-- Records play no part in it. -/
theorem withRecord (h : Narrowed a b) (r r' : LeaseRecord) :
    Narrowed (a.withRecord r) (b.withRecord r') :=
  ⟨h.1, h.2, h.3, h.4, h.5, h.6, h.7, h.8, h.9, h.10, h.11, h.12, h.13⟩

end Narrowed

/-- The lease stored under `next` has taken the place of the one stored under `id`. -/
structure RenewedInto (s : AuthorityState) (id next : LeaseId) (entry nextEntry : LeaseEntry) :
    Prop where
  entry_eq : s.leases.lookup id = some entry
  next_eq : s.leases.lookup next = some nextEntry
  retired : entry.record.state = .retired
  renewedBy : entry.record.renewedBy = some next
  renewedFrom : ∃ ref, nextEntry.certificate.renewedFrom = some ref ∧
    leaseRef entry.certificate = .ok ref
  narrowed : Narrowed entry nextEntry

/-- A link of a line. -/
def Successor (s : AuthorityState) (id next : LeaseId) : Prop :=
  ∃ entry nextEntry, RenewedInto s id next entry nextEntry

/-- The leases of one agent, from its first one to the one it has now. -/
structure Lineage (s : AuthorityState) (agent : AgentId) (line : List LeaseId) : Prop where
  mem_iff : ∀ id, id ∈ line ↔
    ∃ entry, s.leases.lookup id = some entry ∧ entry.certificate.agentId = agent
  ne_nil : line ≠ []
  nodup : line.Nodup
  linked : line.IsChain (Successor s)
  first : ∀ id ∈ line.head?, ∀ entry, s.leases.lookup id = some entry →
    entry.certificate.renewedFrom = none
  last : ∀ id ∈ line.getLast?, s.view.successor id = none

namespace LineageStep

/-- A stored lease stays stored, with one change of its record at most. -/
theorem present (h : LineageStep s s') {id : LeaseId} {entry : LeaseEntry}
    (hid : s.leases.lookup id = some entry) :
    ∃ record, s'.leases.lookup id = some (entry.withRecord record) ∧
      RecordStep entry.record record := by
  cases h with
  | kept h => exact h.present id entry hid
  | delegated run fresh => exact (KernelStep.delegated run fresh).record_step hid
  | renewed run fresh => exact (KernelStep.renewed run fresh).record_step hid

theorem identity (h : LineageStep s s') {agent : AgentId} {identity : AgentIdentityCertificate}
    (hid : s.identities.lookup agent = some identity) :
    s'.identities.lookup agent = some identity ∧
      s'.custodians.lookup agent = s.custodians.lookup agent := by
  cases h with
  | kept h =>
      rw [h.identities, h.custodians]
      exact ⟨hid, rfl⟩
  | delegated run fresh => exact (KernelStep.delegated run fresh).keepsIdentity hid
  | renewed run fresh => exact (KernelStep.renewed run fresh).keepsIdentity hid

/-- A link holds for good: the lease that was replaced does not change any more. -/
theorem successor (h : LineageStep s s') {id next : LeaseId} (hlink : Successor s id next) :
    Successor s' id next := by
  obtain ⟨entry, nextEntry, hentry, hnext, hretired, hby, hfrom, hnarrowed⟩ := hlink
  obtain ⟨record, hrecord, hstep⟩ := h.present hentry
  obtain ⟨record', hrecord', -⟩ := h.present hnext
  have hsame : record = entry.record := hstep.eq_of_dead (by rw [hretired]; rfl)
  rw [hsame] at hrecord
  exact ⟨_, _, hrecord, hrecord', hretired, hby, hfrom, hnarrowed.withRecord _ _⟩

/-- A line that is neither started nor continued. -/
theorem lineage (h : LineageStep s s') {agent : AgentId} {line : List LeaseId}
    (hline : Lineage s agent line)
    (hback : ∀ id entry', s'.leases.lookup id = some entry' →
      entry'.certificate.agentId = agent → ∃ entry, s.leases.lookup id = some entry ∧
        entry.certificate = entry'.certificate)
    (hlast : ∀ id ∈ line.getLast?, s'.view.successor id = s.view.successor id) :
    Lineage s' agent line where
  mem_iff := by
    intro id
    rw [hline.mem_iff]
    constructor
    · rintro ⟨entry, hentry, hagent⟩
      obtain ⟨record, hrecord, -⟩ := h.present hentry
      exact ⟨_, hrecord, hagent⟩
    · rintro ⟨entry', hentry', hagent⟩
      obtain ⟨entry, hentry, hcert⟩ := hback id entry' hentry' hagent
      exact ⟨entry, hentry, by rw [hcert]; exact hagent⟩
  ne_nil := hline.ne_nil
  nodup := hline.nodup
  linked := hline.linked.imp fun _ _ => h.successor
  first := by
    intro id hid entry' hentry'
    obtain ⟨entry, hentry, -⟩ := (hline.mem_iff id).mp (List.mem_of_mem_head? hid)
    obtain ⟨record, hrecord, -⟩ := h.present hentry
    rw [hentry'] at hrecord
    cases hrecord
    exact hline.first id hid entry hentry
  last := by
    intro id hid
    rw [hlast id hid]
    exact hline.last id hid

end LineageStep

-- ============================================================================
-- What the operations establish
-- ============================================================================

theorem successor_eq {id : LeaseId} {entry : LeaseEntry}
    (h : s.leases.lookup id = some entry) : s.view.successor id = entry.record.renewedBy := by
  rw [view_successor, h]
  rfl

/-- The issuer a lease names is registered, and the certificate bears the digest of its
    identity and the id of its key. -/
structure IssuerBound (s : AuthorityState) (entry : LeaseEntry) : Prop where
  identity : ∃ identity, s.identities.lookup
    (entry.certificate.parentAgentId.getD entry.certificate.agentId) = some identity ∧
      identity.canonicalDigest = .ok entry.certificate.issuerIdentityDigest
  custody : ∃ custody, s.custodians.lookup
    (entry.certificate.parentAgentId.getD entry.certificate.agentId) = some custody ∧
      custody.keyId = entry.certificate.issuerKeyId

theorem LineageStep.issuerBound (h : LineageStep s s') {entry : LeaseEntry}
    (hbound : IssuerBound s entry) (record : LeaseRecord) :
    IssuerBound s' (entry.withRecord record) := by
  obtain ⟨identity, hidentity, hdigest⟩ := hbound.identity
  obtain ⟨hidentity', hcustodians⟩ := h.identity hidentity
  refine ⟨⟨identity, hidentity', hdigest⟩, ?_⟩
  rw [hcustodians]
  exact hbound.custody

namespace Delegation

variable {request : DelegationRequest} {custody : KeyCustody} {now : DateTime}
  {uuid : String} (run : Delegation s request custody now uuid)

theorem issuerBound (fresh : run.childLeaseId ∉ s.leases) : IssuerBound run.post run.entry := by
  obtain ⟨signature, hcert⟩ := signedLease_fields run.certificate_eq
  obtain ⟨hidentity, hcustodians⟩ :=
    (KernelStep.delegated run fresh).keepsIdentity run.parentIdentity_eq
  have hissuer : run.entry.certificate.parentAgentId.getD run.entry.certificate.agentId
      = run.parent.certificate.agentId := by
    simp only [entry, hcert]
    rfl
  rw [← hissuer] at hidentity hcustodians
  refine ⟨⟨run.parentIdentity, hidentity, ?_⟩, ⟨run.parentCustody, ?_, ?_⟩⟩
  · simp only [entry, hcert]
    exact run.parentIdentityDigest_eq
  · rw [hcustodians, hissuer]
    exact run.parentCustody_eq
  · simp only [entry, hcert]
    rfl

end Delegation

namespace Renewal

variable {request : RenewalRequest} {now : DateTime} {uuid : String}
  (run : Renewal s request now uuid)

theorem entry_agentId : run.entry.certificate.agentId = run.old.certificate.agentId := by
  obtain ⟨signature, hcert⟩ := signedLease_fields run.certificate_eq
  simp only [entry, hcert]
  rfl

theorem entry_parentAgentId :
    run.entry.certificate.parentAgentId = run.old.certificate.parentAgentId := by
  obtain ⟨signature, hcert⟩ := signedLease_fields run.certificate_eq
  simp only [entry, hcert]
  rfl

theorem issuerBound (fresh : run.renewedId ∉ s.leases) : IssuerBound run.post run.entry := by
  obtain ⟨signature, hcert⟩ := signedLease_fields run.certificate_eq
  obtain ⟨hidentity, hcustodians⟩ :=
    (KernelStep.renewed run fresh).keepsIdentity run.issuerIdentity_eq
  rw [← run.entry_agentId, ← run.entry_parentAgentId] at hidentity hcustodians
  refine ⟨⟨run.issuerIdentity, hidentity, ?_⟩, ⟨run.issuerCustody, ?_, ?_⟩⟩
  · simp only [entry, hcert]
    exact run.issuerDigest_eq
  · rw [hcustodians, run.entry_agentId, run.entry_parentAgentId]
    exact run.issuerCustody_eq
  · simp only [entry, hcert]
    rfl

/-- A renewal narrows the lease it replaces. -/
theorem narrowed (hbound : IssuerBound s run.old) : Narrowed run.old run.entry := by
  obtain ⟨signature, hcert⟩ := signedLease_fields run.certificate_eq
  obtain ⟨-, hcontext, -, ⟨hgranted, hdelegable⟩, -, hmanifest, -⟩ :=
    validateRenewalRequest_eq_ok.mp run.request_ok
  obtain ⟨hversion, hmodel, hconfig, hroot, htools⟩ :=
    validateManifestAttenuation_eq_ok.mp hmanifest
  obtain ⟨identity, hidentity, hdigest⟩ := hbound.identity
  obtain ⟨custody, hcustody, hkeyId⟩ := hbound.custody
  rw [run.issuerIdentity_eq] at hidentity
  cases hidentity
  rw [run.issuerCustody_eq] at hcustody
  cases hcustody
  have hissuer : run.old.certificate.issuerIdentityDigest = run.issuerIdentityDigest := by
    have hsame := run.issuerDigest_eq
    rw [hdigest] at hsame
    exact Except.ok.inj hsame
  constructor <;> simp only [entry, hcert]
  · rfl
  · rfl
  · rfl
  · exact hissuer.symm
  · exact hkeyId
  · exact hcontext
  · exact hversion
  · exact hmodel
  · exact hconfig
  · exact hroot
  · exact hgranted
  · exact hdelegable
  · exact htools

/-- The renewed lease is the successor of the one it replaces. -/
theorem successor (fresh : run.renewedId ∉ s.leases) (hbound : IssuerBound s run.old) :
    Successor run.post request.leaseId run.renewedId := by
  obtain ⟨signature, hcert⟩ := signedLease_fields run.certificate_eq
  refine ⟨run.old.withRecord (run.old.record.retire run.renewedId), run.entry, ?_,
    run.lookup_renewed, rfl, rfl, ⟨run.renewedFrom, ?_, run.renewedFrom_eq⟩,
    (run.narrowed hbound).withRecord _ run.entry.record⟩
  · rw [run.lookup_other (run.ne_renewed fresh run.old_eq)]
    exact run.old_retired
  · simp only [entry, hcert]
    rfl

end Renewal

/-- A lease that is not retired is the last of its line. -/
theorem Lineage.getLast_eq {agent : AgentId} {line : List LeaseId} (h : Lineage s agent line)
    {id : LeaseId} {entry : LeaseEntry} (hid : s.leases.lookup id = some entry)
    (hagent : entry.certificate.agentId = agent) (hstate : entry.record.state ≠ .retired) :
    line.getLast? = some id := by
  rcases h.linked.exists_next ((h.mem_iff id).mpr ⟨entry, hid, hagent⟩) with
    hlast | ⟨next, -, entry', nextEntry, hlink⟩
  · exact hlast
  · have hentry := hlink.entry_eq
    rw [hid] at hentry
    cases hentry
    exact absurd hlink.retired hstate

/-- So is a lease without successor. -/
theorem Lineage.getLast_of_successor {agent : AgentId} {line : List LeaseId}
    (h : Lineage s agent line) {id : LeaseId} {entry : LeaseEntry}
    (hid : s.leases.lookup id = some entry) (hagent : entry.certificate.agentId = agent)
    (hnone : s.view.successor id = none) : line.getLast? = some id := by
  rcases h.linked.exists_next ((h.mem_iff id).mpr ⟨entry, hid, hagent⟩) with
    hlast | ⟨next, -, entry', nextEntry, hrenewed⟩
  · exact hlast
  · rw [successor_eq hrenewed.entry_eq, hrenewed.renewedBy] at hnone
    cases hnone

/-- A renewal continues the line of the lease it replaces. -/
theorem Renewal.lineage {request : RenewalRequest} {now : DateTime} {uuid : String}
    (run : Renewal s request now uuid)
    (hissuers : ∀ id entry, s.leases.lookup id = some entry → IssuerBound s entry)
    (fresh : run.renewedId ∉ s.leases) {line : List LeaseId}
    (hline : Lineage s run.old.certificate.agentId line) (hstep : LineageStep s run.post) :
    Lineage run.post run.old.certificate.agentId (line ++ [run.renewedId]) := by
  obtain ⟨signature, hcert⟩ := signedLease_fields run.certificate_eq
  have hlast : line.getLast? = some request.leaseId := by
    apply hline.getLast_eq run.old_eq rfl
    rw [run.old_active.1]
    exact LeaseState.noConfusion
  have hnew : run.renewedId ∉ line := by
    intro hmem
    obtain ⟨entry, hentry, -⟩ := (hline.mem_iff _).mp hmem
    exact run.ne_renewed fresh hentry rfl
  constructor
  · intro id
    rw [List.mem_append, List.mem_singleton, hline.mem_iff]
    constructor
    · rintro (⟨entry, hentry, hagent⟩ | rfl)
      · obtain ⟨record, hrecord, -⟩ := hstep.present hentry
        exact ⟨_, hrecord, hagent⟩
      · exact ⟨run.entry, run.lookup_renewed, run.entry_agentId⟩
    · rintro ⟨entry', hentry', hagent⟩
      rcases run.lookup_origin hentry' with ⟨heq, -⟩ | ⟨entry, hentry, heq⟩
      · exact .inr heq
      · rw [heq] at hagent
        exact .inl ⟨entry, hentry, hagent⟩
  · simp
  · rw [List.nodup_append]
    refine ⟨hline.nodup, List.nodup_singleton _, ?_⟩
    intro a ha b hb
    obtain rfl := List.mem_singleton.mp hb
    rintro rfl
    exact hnew ha
  · rw [List.isChain_append]
    refine ⟨hline.linked.imp fun _ _ => hstep.successor, List.isChain_singleton _, ?_⟩
    intro id hid next hnext
    rw [hlast] at hid
    cases hid
    cases hnext
    exact run.successor fresh (hissuers _ _ run.old_eq)
  · intro id hid entry' hentry'
    rw [List.head?_append_of_ne_nil _ hline.ne_nil] at hid
    obtain ⟨entry, hentry, -⟩ := (hline.mem_iff id).mp (List.mem_of_mem_head? hid)
    obtain ⟨record, hrecord, -⟩ := hstep.present hentry
    rw [hrecord] at hentry'
    cases hentry'
    exact hline.first id hid entry hentry
  · intro id hid
    rw [List.getLast?_concat] at hid
    cases hid
    exact successor_eq run.lookup_renewed

-- ============================================================================
-- The invariant
-- ============================================================================

/-- The lease the root id names, and the agent it belongs to: its leases are those
    without a parent. -/
structure RootHeld (s : AuthorityState) (agent : AgentId) : Prop where
  registered : ∃ identity, s.identities.lookup agent = some identity
  parentless : ∀ id entry, s.leases.lookup id = some entry →
    (entry.parentId = none ↔ entry.certificate.agentId = agent)
  held : ∃ entry, s.leases.lookup s.rootLeaseId = some entry ∧
    entry.certificate.agentId = agent ∧ s.view.successor s.rootLeaseId = none

structure Lineages (s : AuthorityState) : Prop where
  lines : ∀ agent identity, s.identities.lookup agent = some identity →
    ∃ line, Lineage s agent line
  registered : ∀ id entry, s.leases.lookup id = some entry →
    ∃ identity, s.identities.lookup entry.certificate.agentId = some identity
  issuers : ∀ id entry, s.leases.lookup id = some entry → IssuerBound s entry
  root : ∃ agent, RootHeld s agent
  keys : ∀ agent identity agent' identity', s.identities.lookup agent = some identity →
    s.identities.lookup agent' = some identity' → identity.keyId = identity'.keyId →
      agent = agent'

namespace Lineages

theorem bootstrapped {request : RootLeaseRequest} {custody : KeyCustody} {now : DateTime}
    {uuid : String} (run : Bootstrap request custody now uuid) : Lineages run.post := by
  obtain ⟨signature, hcert⟩ := signedLease_fields run.certificate_eq
  obtain ⟨⟨signature', hidentity⟩, -⟩ := signedIdentity_eq_ok run.identity_eq
  have hentry : run.post.leases.lookup run.leaseId = some run.entry := by
    rw [run.lookup_post, if_pos rfl]
  have hlookup : run.post.identities.lookup request.agentId = some run.identity := by
    rw [run.lookup_identity, if_pos rfl]
  have hagent : run.entry.certificate.agentId = request.agentId := by
    simp only [Bootstrap.entry, hcert]
    rfl
  have hparent : run.entry.parentId = none := by
    simp only [LeaseEntry.parentId, Bootstrap.entry, hcert]
    rfl
  have hagents : ∀ agent identity, run.post.identities.lookup agent = some identity →
      agent = request.agentId := by
    intro agent identity hid
    rw [run.lookup_identity] at hid
    split at hid
    · rename_i heq
      exact heq
    · cases hid
  have hsuccessor : run.post.view.successor run.leaseId = none := successor_eq hentry
  constructor
  · intro agent identity hid
    obtain rfl := hagents agent identity hid
    refine ⟨[run.leaseId], ⟨?_, by simp, by simp, List.isChain_singleton _, ?_, ?_⟩⟩
    · intro id
      rw [List.mem_singleton]
      constructor
      · rintro rfl
        exact ⟨run.entry, hentry, hagent⟩
      · rintro ⟨entry, hid, -⟩
        exact (run.eq_entry hid).1
    · intro id hid entry hentry'
      obtain ⟨-, rfl⟩ := run.eq_entry hentry'
      simp only [Bootstrap.entry, hcert]
      rfl
    · intro id hid
      obtain rfl : run.leaseId = id := by simpa using hid
      exact hsuccessor
  · intro id entry hid
    obtain ⟨-, rfl⟩ := run.eq_entry hid
    exact ⟨run.identity, by rw [hagent]; exact hlookup⟩
  · intro id entry hid
    obtain ⟨-, rfl⟩ := run.eq_entry hid
    have hissuer : run.entry.certificate.parentAgentId.getD run.entry.certificate.agentId
        = request.agentId := by
      simp only [Bootstrap.entry, hcert]
      rfl
    refine ⟨⟨run.identity, by rw [hissuer]; exact hlookup, ?_⟩, ⟨custody, ?_, ?_⟩⟩
    · simp only [Bootstrap.entry, hcert]
      exact run.identityDigest_eq
    · rw [hissuer, run.lookup_custody, if_pos rfl]
    · simp only [Bootstrap.entry, hcert]
      rfl
  · refine ⟨request.agentId, ⟨run.identity, hlookup⟩, ?_, run.entry, hentry, hagent, hsuccessor⟩
    intro id entry hid
    obtain ⟨-, rfl⟩ := run.eq_entry hid
    exact iff_of_true hparent hagent
  · intro agent identity agent' identity' hid hid' _
    rw [hagents agent identity hid, hagents agent' identity' hid']

/-- What a call does not touch stays as it is. -/
theorem kept (h : Lineages s) (hkept : KeepsLineages s s') : Lineages s' := by
  have hstep : LineageStep s s' := .kept hkept
  have hback : ∀ id entry', s'.leases.lookup id = some entry' →
      ∃ entry, s.leases.lookup id = some entry ∧ entry' = entry.withRecord entry'.record := by
    intro id entry' hid'
    cases hid : s.leases.lookup id with
    | none =>
        rw [hkept.absent id hid] at hid'
        cases hid'
    | some entry =>
        obtain ⟨record, hrecord, -⟩ := hkept.present id entry hid
        rw [hrecord] at hid'
        cases hid'
        exact ⟨entry, rfl, rfl⟩
  constructor
  · intro agent identity hid
    rw [hkept.identities] at hid
    obtain ⟨line, hline⟩ := h.lines agent identity hid
    refine ⟨line, hstep.lineage hline ?_ fun id _ => hkept.successor id⟩
    intro id entry' hid' _
    obtain ⟨entry, hentry, heq⟩ := hback id entry' hid'
    exact ⟨entry, hentry, by rw [heq]⟩
  · intro id entry' hid'
    obtain ⟨entry, hentry, heq⟩ := hback id entry' hid'
    rw [hkept.identities, heq]
    exact h.registered id entry hentry
  · intro id entry' hid'
    obtain ⟨entry, hentry, heq⟩ := hback id entry' hid'
    rw [heq]
    exact hstep.issuerBound (h.issuers id entry hentry) _
  · obtain ⟨agent, hregistered, hparentless, entry, hentry, hagent, hnone⟩ := h.root
    obtain ⟨record, hrecord, -⟩ := hkept.present _ _ hentry
    refine ⟨agent, by rw [hkept.identities]; exact hregistered, ?_, ?_⟩
    · intro id entry' hid'
      obtain ⟨entry₀, hentry₀, heq⟩ := hback id entry' hid'
      rw [heq]
      exact hparentless id entry₀ hentry₀
    · rw [hkept.rootLeaseId, hkept.successor]
      exact ⟨_, hrecord, hagent, hnone⟩
  · rw [hkept.identities]
    exact h.keys

section
variable {request : DelegationRequest} {custody : KeyCustody} {now : DateTime} {uuid : String}
  (run : Delegation s request custody now uuid)

/-- The agent a delegation registers holds one lease. -/
theorem lineage_child (h : Lineages s) :
    Lineage run.post request.childAgentId [run.childLeaseId] := by
  obtain ⟨signature, hcert⟩ := signedLease_fields run.certificate_eq
  refine ⟨?_, by simp, by simp, List.isChain_singleton _, ?_, ?_⟩
  · intro id
    rw [List.mem_singleton]
    constructor
    · rintro rfl
      exact ⟨run.entry, run.lookup_child, run.entry_agentId⟩
    · rintro ⟨entry, hentry, hagent⟩
      rcases run.lookup_cases hentry with ⟨heq, -⟩ | ⟨-, hentry⟩
      · exact heq
      · obtain ⟨registered, hregistered⟩ := h.registered id entry hentry
        rw [hagent, AList.lookup_eq_none.mpr run.agent_new] at hregistered
        cases hregistered
  · intro id hfirst entry hentry
    obtain rfl : run.childLeaseId = id := by simpa using hfirst
    rw [run.lookup_child] at hentry
    cases hentry
    simp only [Delegation.entry, hcert]
    rfl
  · intro id hlast
    obtain rfl : run.childLeaseId = id := by simpa using hlast
    exact successor_eq run.lookup_child

/-- The lines of the other agents go on as they are. -/
theorem lineage_other (fresh : run.childLeaseId ∉ s.leases) {agent : AgentId}
    (hne : agent ≠ request.childAgentId) {line : List LeaseId} (hline : Lineage s agent line) :
    Lineage run.post agent line := by
  have hstep : LineageStep s run.post := .delegated run fresh
  refine hstep.lineage hline ?_ ?_
  · intro id entry' hid' hagent
    rcases run.lookup_cases hid' with ⟨-, rfl⟩ | ⟨-, hid⟩
    · rw [run.entry_agentId] at hagent
      exact absurd hagent.symm hne
    · exact ⟨entry', hid, rfl⟩
  · intro id hlast
    obtain ⟨entry, hentry, -⟩ := (hline.mem_iff id).mp (List.mem_of_getLast? hlast)
    rw [view_successor, view_successor, run.lookup_other (run.ne_child fresh hentry)]

/-- No two agents have one key, as the new one has not been used. -/
theorem keys_delegated (h : Lineages s) :
    ∀ agent identity agent' identity', run.post.identities.lookup agent = some identity →
      run.post.identities.lookup agent' = some identity' → identity.keyId = identity'.keyId →
        agent = agent' := by
  obtain ⟨⟨signature, hidentity⟩, -⟩ := signedIdentity_eq_ok run.childIdentity_eq
  have hchildKey : run.childIdentity.keyId = custody.keyId := by
    rw [hidentity]
    rfl
  have hkeyNew : ∀ agent identity, s.identities.lookup agent = some identity →
      identity.keyId ≠ custody.keyId := by
    intro agent identity hid
    exact run.key_new ⟨agent, identity⟩ (AList.mem_lookup_iff.mp hid)
  intro agent identity agent' identity' hid hid' hkey
  rw [run.post_identities, AList.lookup_insert_ite] at hid hid'
  split at hid <;> split at hid'
  · rename_i heq heq'
    rw [heq, heq']
  · cases hid
    rw [hchildKey] at hkey
    exact absurd hkey.symm (hkeyNew agent' identity' hid')
  · cases hid'
    rw [hchildKey] at hkey
    exact absurd hkey (hkeyNew agent identity hid)
  · exact h.keys agent identity agent' identity' hid hid' hkey

/-- A delegation starts the line of the agent it registers. -/
theorem delegated (h : Lineages s) (fresh : run.childLeaseId ∉ s.leases) :
    Lineages run.post := by
  have hstep : LineageStep s run.post := .delegated run fresh
  refine ⟨?_, ?_, ?_, ?_, keys_delegated run h⟩
  · intro agent identity hid
    rw [run.post_identities, AList.lookup_insert_ite] at hid
    split at hid
    · rename_i heq
      subst heq
      exact ⟨_, lineage_child run h⟩
    · rename_i hne
      obtain ⟨line, hline⟩ := h.lines agent identity hid
      exact ⟨line, lineage_other run fresh hne hline⟩
  · intro id entry hid
    rcases run.lookup_cases hid with ⟨rfl, rfl⟩ | ⟨-, hid⟩
    · rw [run.entry_agentId]
      exact ⟨run.childIdentity, run.lookup_identity⟩
    · obtain ⟨identity, hregistered⟩ := h.registered id entry hid
      exact ⟨identity, (hstep.identity hregistered).1⟩
  · intro id entry hid
    rcases run.lookup_cases hid with ⟨rfl, rfl⟩ | ⟨-, hid⟩
    · exact run.issuerBound fresh
    · exact hstep.issuerBound (h.issuers id entry hid) entry.record
  · obtain ⟨agent, ⟨identity, hregistered⟩, hparentless, entry, hentry, hagent, hnone⟩ := h.root
    have hrootNe := run.ne_child fresh hentry
    refine ⟨agent, ⟨identity, (hstep.identity hregistered).1⟩, ?_, entry, ?_, hagent, ?_⟩
    · intro id entry' hid
      rcases run.lookup_cases hid with ⟨rfl, rfl⟩ | ⟨-, hid⟩
      · refine iff_of_false ?_ ?_
        · rw [run.entry_parentId]
          exact Option.some_ne_none _
        · rw [run.entry_agentId]
          rintro rfl
          exact run.agent_new (AList.mem_of_lookup hregistered)
      · exact hparentless id entry' hid
    · rw [run.post_rootLeaseId, run.lookup_other hrootNe]
      exact hentry
    · rw [run.post_rootLeaseId, view_successor, run.lookup_other hrootNe, ← view_successor]
      exact hnone

end

/-- A renewal continues the line of its agent. -/
theorem renewed (h : Lineages s) {request : RenewalRequest} {now : DateTime} {uuid : String}
    (run : Renewal s request now uuid) (fresh : run.renewedId ∉ s.leases)
    (spared : ∀ id, id ≠ request.leaseId →
      run.retired.view.successor id = s.view.successor id) : Lineages run.post := by
  have hstep : LineageStep s run.post := .renewed run fresh spared
  obtain ⟨signature, hcert⟩ := signedLease_fields run.certificate_eq
  have hother : ∀ id, id ≠ run.renewedId → id ≠ request.leaseId →
      run.post.view.successor id = s.view.successor id := by
    intro id hne hold
    rw [← spared id hold, view_successor, view_successor, run.lookup_other hne]
  have hrenewed : run.post.view.successor run.renewedId = none :=
    successor_eq run.lookup_renewed
  constructor
  · intro agent identity hid
    rw [run.post_identities] at hid
    obtain ⟨line, hline⟩ := h.lines agent identity hid
    by_cases hagent : agent = run.old.certificate.agentId
    · subst hagent
      exact ⟨_, run.lineage h.issuers fresh hline hstep⟩
    · refine ⟨line, hstep.lineage hline ?_ ?_⟩
      · intro id entry' hid' hsame
        rcases run.lookup_origin hid' with ⟨-, rfl⟩ | ⟨entry, hentry, heq⟩
        · rw [run.entry_agentId] at hsame
          exact absurd hsame.symm hagent
        · exact ⟨entry, hentry, by rw [heq]⟩
      · intro id hlast
        obtain ⟨entry, hentry, hsame⟩ := (hline.mem_iff id).mp (List.mem_of_getLast? hlast)
        refine hother id (run.ne_renewed fresh hentry) ?_
        rintro rfl
        rw [run.old_eq] at hentry
        cases hentry
        exact hagent hsame.symm
  · intro id entry' hid'
    rw [run.post_identities]
    rcases run.lookup_origin hid' with ⟨rfl, rfl⟩ | ⟨entry, hentry, heq⟩
    · rw [run.entry_agentId]
      exact h.registered _ _ run.old_eq
    · rw [heq]
      exact h.registered id entry hentry
  · intro id entry' hid'
    rcases run.lookup_origin hid' with ⟨rfl, rfl⟩ | ⟨entry, hentry, heq⟩
    · exact run.issuerBound fresh
    · rw [heq]
      exact hstep.issuerBound (h.issuers id entry hentry) _
  · obtain ⟨agent, hregistered, hparentless, entry, hentry, hagent, hnone⟩ := h.root
    refine ⟨agent, by rw [run.post_identities]; exact hregistered, ?_, ?_⟩
    · intro id entry' hid'
      rcases run.lookup_origin hid' with ⟨rfl, rfl⟩ | ⟨entry₀, hentry₀, heq⟩
      · rw [run.entry_parentId, run.entry_agentId]
        exact hparentless _ _ run.old_eq
      · rw [heq]
        exact hparentless id entry₀ hentry₀
    · by_cases hroot : s.rootLeaseId = request.leaseId
      · rw [hroot, run.old_eq] at hentry
        cases hentry
        rw [run.post_rootLeaseId, if_pos hroot]
        exact ⟨run.entry, run.lookup_renewed, run.entry_agentId.trans hagent, hrenewed⟩
      · obtain ⟨record, hrecord, -⟩ := hstep.present hentry
        rw [run.post_rootLeaseId, if_neg hroot]
        refine ⟨_, hrecord, hagent, ?_⟩
        rw [hother _ (run.ne_renewed fresh hentry) hroot]
        exact hnone
  · rw [run.post_identities]
    exact h.keys

theorem step (h : Lineages s) (hstep : LineageStep s s') : Lineages s' := by
  cases hstep with
  | kept hkept => exact h.kept hkept
  | delegated run fresh => exact delegated run h fresh
  | renewed run fresh spared => exact h.renewed run fresh spared

theorem of_reachable (hs : Reachable s) : Lineages s :=
  hs.lineage_invariant (fun _ _ _ _ run => bootstrapped run) fun _ _ _ h hstep => h.step hstep

end Lineages

-- ============================================================================
-- The lineages of a reachable state
-- ============================================================================

/-- A lease that has been replaced names its successor, and the successor names it. -/
theorem Lineages.renewedBy_iff (h : Lineages s) {id next : LeaseId} {entry : LeaseEntry}
    (hid : s.leases.lookup id = some entry) :
    entry.record.renewedBy = some next ↔ Successor s id next := by
  constructor
  · intro hby
    obtain ⟨identity, hidentity⟩ := h.registered id entry hid
    obtain ⟨line, hline⟩ := h.lines _ identity hidentity
    rcases hline.linked.exists_next ((hline.mem_iff id).mpr ⟨entry, hid, rfl⟩) with
      hlast | ⟨next', -, hlink⟩
    · have hnone := hline.last id hlast
      rw [successor_eq hid, hby] at hnone
      cases hnone
    · obtain ⟨entry', nextEntry, hrenewed⟩ := hlink
      have hentry := hrenewed.entry_eq
      rw [hid] at hentry
      cases hentry
      have hby' := hrenewed.renewedBy
      rw [hby] at hby'
      cases hby'
      exact ⟨entry, nextEntry, hrenewed⟩
  · rintro ⟨entry', nextEntry, hrenewed⟩
    have hentry := hrenewed.entry_eq
    rw [hid] at hentry
    cases hentry
    exact hrenewed.renewedBy

theorem Lineages.renewedFrom_eq (h : Lineages s) (hlife : Lifecycle s) {next : LeaseId}
    {nextEntry : LeaseEntry} {ref : LeaseRef} (hnext : s.leases.lookup next = some nextEntry)
    (hfrom : nextEntry.certificate.renewedFrom = some ref) :
    ∃ entry, RenewedInto s ref.leaseId next entry nextEntry ∧
      leaseRef entry.certificate = .ok ref := by
  obtain ⟨identity, hidentity⟩ := h.registered next nextEntry hnext
  obtain ⟨line, hline⟩ := h.lines _ identity hidentity
  rcases hline.linked.exists_previous ((hline.mem_iff next).mpr ⟨nextEntry, hnext, rfl⟩) with
    hfirst | ⟨id, -, entry, nextEntry', hrenewed⟩
  · have hnone := hline.first next hfirst nextEntry hnext
    rw [hfrom] at hnone
    cases hnone
  · have hentry := hrenewed.next_eq
    rw [hnext] at hentry
    cases hentry
    obtain ⟨ref', href', href⟩ := hrenewed.renewedFrom
    rw [hfrom] at href'
    cases href'
    have hid : ref.leaseId = id := by
      rw [leaseRef_eq_ok href]
      exact hlife.keyed id entry hrenewed.entry_eq
    rw [hid]
    exact ⟨entry, hrenewed, href⟩

/-- Narrowing composes along the line. -/
theorem Lineage.narrowed (htrans : SubsetTransitive) {agent : AgentId} {line : List LeaseId}
    (h : Lineage s agent line) :
    line.Pairwise fun earlier later => ∀ entry laterEntry,
      s.leases.lookup earlier = some entry → s.leases.lookup later = some laterEntry →
        Narrowed entry laterEntry := by
  let R : LeaseId → LeaseId → Prop := fun earlier later => ∃ entry laterEntry,
    s.leases.lookup earlier = some entry ∧ s.leases.lookup later = some laterEntry ∧
      Narrowed entry laterEntry
  have htransR : ∀ {a b c : LeaseId}, R a b → R b c → R a c := by
    rintro a b c ⟨ea, eb, ha, hb, hab⟩ ⟨eb', ec, hb', hc, hbc⟩
    rw [hb] at hb'
    cases hb'
    exact ⟨ea, ec, ha, hc, hab.trans htrans hbc⟩
  have hpairwise : line.Pairwise R := by
    have : Trans R R R := ⟨htransR⟩
    apply List.isChain_iff_pairwise.mp
    apply h.linked.imp
    rintro earlier later ⟨entry, laterEntry, hrenewed⟩
    exact ⟨entry, laterEntry, hrenewed.entry_eq, hrenewed.next_eq, hrenewed.narrowed⟩
  apply hpairwise.imp
  rintro earlier later ⟨entry, laterEntry, hentry, hlater, hnarrowed⟩ entry' laterEntry' h₁ h₂
  rw [hentry] at h₁
  rw [hlater] at h₂
  cases h₁
  cases h₂
  exact hnarrowed

theorem Lineage.retired {agent : AgentId} {line : List LeaseId} (h : Lineage s agent line)
    {id : LeaseId} (hid : id ∈ line.dropLast) {entry : LeaseEntry}
    (hentry : s.leases.lookup id = some entry) : entry.record.state = .retired := by
  by_contra hstate
  obtain ⟨entry', hentry', hagent⟩ := (h.mem_iff id).mp ((List.dropLast_sublist line).subset hid)
  rw [hentry] at hentry'
  cases hentry'
  have hlast := h.getLast_eq hentry hagent hstate
  have hnodup := h.nodup
  rw [← List.dropLast_append_getLast? id hlast, List.nodup_append] at hnodup
  exact hnodup.2.2 id hid id (List.mem_singleton_self id) rfl

/-- In every reachable state the leases of each registered agent form one line of
    renewals, in which `renewed_by` and `renewed_from` name each other, all but the last
    are retired, and nothing grows; so an agent has one live lease at most. The root id
    names the last lease of the one line without a parent, and no two agents share a
    key id. -/
theorem renewal_lineages (hsub : SubsetPreorder) (hs : Reachable s) :
    (∀ agent ∈ s.identities, ∃ line, Lineage s agent line ∧
      (∀ id ∈ line.dropLast, ∀ entry, s.leases.lookup id = some entry →
        entry.record.state = .retired) ∧
      line.Pairwise fun earlier later => ∀ entry laterEntry,
        s.leases.lookup earlier = some entry → s.leases.lookup later = some laterEntry →
          Narrowed entry laterEntry) ∧
    (∀ id entry, s.leases.lookup id = some entry → entry.certificate.agentId ∈ s.identities) ∧
    (∀ id entry next, s.leases.lookup id = some entry →
      (entry.record.renewedBy = some next ↔ ∃ nextEntry ref,
        s.leases.lookup next = some nextEntry ∧
        nextEntry.certificate.renewedFrom = some ref ∧ ref.leaseId = id)) ∧
    (∀ next nextEntry ref, s.leases.lookup next = some nextEntry →
      nextEntry.certificate.renewedFrom = some ref →
        ∃ entry, s.leases.lookup ref.leaseId = some entry ∧
          leaseRef entry.certificate = .ok ref ∧ entry.record.renewedBy = some next) ∧
    (∀ id entry id' entry', s.leases.lookup id = some entry →
      s.leases.lookup id' = some entry' → entry.record.state.isLive = true →
      entry'.record.state.isLive = true →
      entry.certificate.agentId = entry'.certificate.agentId → id = id') ∧
    (∃ agent line, Lineage s agent line ∧ line.getLast? = some s.rootLeaseId ∧
      ∀ id entry, s.leases.lookup id = some entry →
        (entry.certificate.parentLease = none ↔ entry.certificate.agentId = agent)) ∧
    (∀ agent identity agent' identity', s.identities.lookup agent = some identity →
      s.identities.lookup agent' = some identity' → identity.keyId = identity'.keyId →
        agent = agent') := by
  have hlines := Lineages.of_reachable hs
  have hlife := Lifecycle.of_reachable hs
  refine ⟨?_, ?_, ?_, ?_, ?_, ?_, hlines.keys⟩
  · intro agent hagent
    obtain ⟨identity, hidentity⟩ := AList.mem_iff_lookup.mp hagent
    obtain ⟨line, hline⟩ := hlines.lines agent identity hidentity
    exact ⟨line, hline, fun _ hid _ => hline.retired hid, hline.narrowed hsub.transitive⟩
  · intro id entry hid
    obtain ⟨identity, hidentity⟩ := hlines.registered id entry hid
    exact AList.mem_of_lookup hidentity
  · intro id entry next hid
    rw [hlines.renewedBy_iff hid]
    constructor
    · rintro ⟨entry', nextEntry, hrenewed⟩
      obtain ⟨ref, hfrom, href⟩ := hrenewed.renewedFrom
      refine ⟨nextEntry, ref, hrenewed.next_eq, hfrom, ?_⟩
      rw [leaseRef_eq_ok href]
      exact hlife.keyed id entry' hrenewed.entry_eq
    · rintro ⟨nextEntry, ref, hnext, hfrom, rfl⟩
      obtain ⟨entry', hrenewed, -⟩ := hlines.renewedFrom_eq hlife hnext hfrom
      exact ⟨entry', nextEntry, hrenewed⟩
  · intro next nextEntry ref hnext hfrom
    obtain ⟨entry, hrenewed, href⟩ := hlines.renewedFrom_eq hlife hnext hfrom
    exact ⟨entry, hrenewed.entry_eq, href, hrenewed.renewedBy⟩
  · intro id entry id' entry' hid hid' hlive hlive' hagent
    obtain ⟨identity, hidentity⟩ := hlines.registered id entry hid
    obtain ⟨line, hline⟩ := hlines.lines _ identity hidentity
    have hnotRetired : ∀ e : LeaseEntry, e.record.state.isLive = true →
        e.record.state ≠ .retired := by
      intro e he hretired
      rw [hretired] at he
      cases he
    have hlast := hline.getLast_eq hid rfl (hnotRetired entry hlive)
    have hlast' := hline.getLast_eq hid' hagent.symm (hnotRetired entry' hlive')
    exact Option.some.inj (hlast.symm.trans hlast')
  · obtain ⟨agent, ⟨identity, hidentity⟩, hparentless, entry, hentry, hagent, hnone⟩ :=
      hlines.root
    obtain ⟨line, hline⟩ := hlines.lines agent identity hidentity
    refine ⟨agent, line, hline, hline.getLast_of_successor hentry hagent hnone, ?_⟩
    intro id entry' hid
    rw [← LeaseEntry.parentId_eq_none]
    exact hparentless id entry' hid

/-- A lineage of two leases, of which the second one has not been renewed. -/
theorem Lineage.eq_pair {agent : AgentId} {line : List LeaseId} (h : Lineage s agent line)
    {old next : LeaseId} (hne : old ≠ next) (hmem : ∀ id, id ∈ line ↔ id = next ∨ id = old)
    (hnext : next ∉ line.dropLast) : line = [old, next] := by
  have hperm : line.Perm [old, next] :=
    (List.perm_ext_iff_of_nodup h.nodup (by simp [hne])).mpr fun id => by
      rw [hmem, List.mem_pair, or_comm]
  obtain ⟨a, b, rfl⟩ := List.length_eq_two.mp hperm.length_eq
  have hfirst : a ≠ next := by
    rintro rfl
    exact hnext (by simp)
  have ha := ((hmem a).mp (by simp)).resolve_left hfirst
  have hlast : b ≠ old := by
    rintro rfl
    exact absurd h.nodup (by simp [ha])
  rw [ha, ((hmem b).mp (by simp)).resolve_right hlast]

omit [Externals] in
/-- The root lease of the reference kernel is renewed: it is retired, its successor is the new
    root lease, and the two are the lineage of their agent. -/
theorem renewal_lineages_reference : letI := Reference.externals
    ∃ (s₀ s : AuthorityState) (old next : LeaseId) (oldEntry nextEntry : LeaseEntry)
      (ref : LeaseRef),
      bootstrap Reference.rootRequest Reference.rootCustody Reference.start "1" = .ok s₀ ∧
      renew (Reference.renewalRequest old) Reference.start "2" s₀ = .ok next s ∧
      s.leases.lookup old = some oldEntry ∧ s.leases.lookup next = some nextEntry ∧
      Lineage s Reference.agentId [old, next] ∧ s.rootLeaseId = next ∧
      oldEntry.record.state = .retired ∧ nextEntry.record.state = .active ∧
      oldEntry.record.renewedBy = some next ∧ nextEntry.certificate.renewedFrom = some ref ∧
      leaseRef oldEntry.certificate = .ok ref ∧ Narrowed oldEntry nextEntry := by
  let := Reference.externals
  obtain ⟨boot, s, hs, hrenew, hrun⟩ := Reference.exists_renewed
  obtain ⟨run, hnext, rfl⟩ := renew_eq_ok hrenew
  rw [hnext] at hrenew
  have hne : boot.leaseId ≠ run.renewedId := by
    rw [← hnext, Except.ok.inj (boot.leaseId_eq.symm.trans Reference.newLeaseId_eq)]
    decide
  have hold : run.old = boot.entry := Option.some.inj (run.old_eq.symm.trans boot.lookup_root)
  have hlookup (id : LeaseId) : run.post.leases.lookup id = if id = run.renewedId then
      some run.entry else if id = boot.leaseId then
      some (run.old.withRecord (run.old.record.retire run.renewedId)) else none := by
    rw [run.lookup_post]
    split
    · rfl
    · split
      · rename_i hid
        rw [hid]
        exact run.old_retired
      · rename_i hid
        exact run.endsBelow.cascade.absent id (by rw [boot.lookup_post, if_neg hid])
  have hlookupOld := (hlookup boot.leaseId).trans ((if_neg hne).trans (if_pos rfl))
  have hlookupNext := (hlookup run.renewedId).trans (if_pos rfl)
  have hagentOld : run.old.certificate.agentId = Reference.agentId := by
    rw [hold]
    exact boot.entry_agentId
  have hagentNext := run.entry_agentId.trans hagentOld
  obtain ⟨hlines, hregistered, hmutual, hfrom, -⟩ := renewal_lineages Reference.subsetPreorder
    (Reachable.run ⟨_, _, _, _, _, hs, .refl⟩ hrun)
  obtain ⟨line, hline, hretired, hnarrowed⟩ := hlines _ (hregistered _ _ hlookupNext)
  rw [hagentNext] at hline
  have hmem (id : LeaseId) : id ∈ line ↔ id = run.renewedId ∨ id = boot.leaseId := by
    rw [hline.mem_iff, hlookup]
    split
    · rename_i hid
      exact ⟨fun _ => .inl hid, fun _ => ⟨_, rfl, hagentNext⟩⟩
    · rename_i hid
      split
      · rename_i hid'
        exact ⟨fun _ => .inr hid', fun _ => ⟨_, rfl, hagentOld⟩⟩
      · rename_i hid'
        exact ⟨fun ⟨_, h, _⟩ => absurd h (by simp), fun h => (h.elim hid hid').elim⟩
  have hactive : run.entry.record.state = .active := rfl
  obtain rfl := hline.eq_pair hne hmem fun hin => by
    have hstate := hretired _ hin _ hlookupNext
    rw [hactive] at hstate
    cases hstate
  obtain ⟨nextEntry, ref, hnextEntry, href, hid⟩ :=
    (hmutual _ _ run.renewedId hlookupOld).mp rfl
  obtain rfl := Option.some.inj (hlookupNext.symm.trans hnextEntry)
  obtain ⟨entry, hentry, hleaseRef, -⟩ := hfrom _ _ _ hlookupNext href
  rw [hid, hlookupOld] at hentry
  obtain rfl := Option.some.inj hentry
  exact ⟨_, _, boot.leaseId, run.renewedId, _, _, ref, hs, hrenew, hlookupOld, hlookupNext, hline,
    run.post_rootLeaseId.trans (if_pos rfl), rfl, hactive, rfl, href, hleaseRef,
    List.rel_of_pairwise_cons hnarrowed (by simp) _ _ hlookupOld hlookupNext⟩

end

end GenesisRuntime
