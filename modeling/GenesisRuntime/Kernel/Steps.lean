/-
  GenesisRuntime.Kernel.Steps

  What each operation can do, said once: the values an operation went through
  when it succeeded, and the state it left.  Every invariant of the kernel is
  derived from these, and no operation is unfolded again.
-/

import GenesisRuntime.Kernel.Cascade

namespace GenesisRuntime

section
variable [Externals]

-- ============================================================================
-- Ending a set of leases
-- ============================================================================

/-- A set of leases that contains the children of its members. -/
def ClosedBelow (s : AuthorityState) (ended : List LeaseId) : Prop :=
  ∀ child entry parent, s.leases.lookup child = some entry →
    entry.parentId = some parent → parent ∈ ended → child ∈ ended

/-- A cascade that ended exactly the leases of a set closed below. -/
structure EndsBelow (s s' : AuthorityState) (ended : List LeaseId) : Prop where
  cascade : Cascade s s'
  closed : ClosedBelow s ended
  inside : ∀ id ∈ ended, ∀ entry, s'.leases.lookup id = some entry →
    entry.record.state.isLive = false
  outside : ∀ id, id ∉ ended → s'.leases.lookup id = s.leases.lookup id

variable {s s' s'' : AuthorityState}

theorem Cascade.closedBelow_iff (h : Cascade s s') {ended : List LeaseId} :
    ClosedBelow s' ended ↔ ClosedBelow s ended := by
  constructor
  · intro hc child entry parent hchild hparent hin
    obtain ⟨r, hr, -⟩ := h.present child entry hchild
    exact hc child _ parent hr hparent hin
  · intro hc child entry parent hchild hparent hin
    obtain ⟨entry₀, h₀, heq, -⟩ := h.before hchild
    rw [heq] at hparent
    exact hc child entry₀ parent h₀ hparent hin

/-- Cascades leave the tree as it is. -/
theorem Cascade.below_iff (h : Cascade s s') {a id : LeaseId} :
    LeaseBelow s' a id
      ↔ LeaseBelow s a id := by
  constructor
  · refine Relation.ReflTransGen.mono (fun parent child => ?_) _ _
    rintro ⟨entry', hentry', hparent⟩
    obtain ⟨entry, hentry, heq, -⟩ := h.before hentry'
    rw [heq] at hparent
    exact ⟨entry, hentry, hparent⟩
  · refine Relation.ReflTransGen.mono (fun parent child => ?_) _ _
    rintro ⟨entry, hentry, hparent⟩
    obtain ⟨r, hr, -⟩ := h.present child entry hentry
    exact ⟨_, hr, hparent⟩

theorem descendants_closedBelow {root : LeaseId} (h : root ∈ s.leases) :
    ClosedBelow s (descendants s root) := by
  intro child entry parent hchild hparent hin
  exact children_mem_descendants h hin (mem_childrenOf.mpr ⟨entry, hchild, hparent⟩)

namespace EndsBelow

theorem refl (s : AuthorityState) : EndsBelow s s [] where
  cascade := Cascade.refl s
  closed := by
    intro child entry parent _ _ h
    simp at h
  inside := by simp
  outside := fun _ _ => rfl

theorem trans {ended ended' : List LeaseId} (h : EndsBelow s s' ended)
    (h' : EndsBelow s' s'' ended') : EndsBelow s s'' (ended ++ ended') where
  cascade := h.cascade.trans h'.cascade
  closed := by
    intro child entry parent hchild hparent hin
    rcases List.mem_append.mp hin with hin | hin
    · exact List.mem_append_left _ (h.closed child entry parent hchild hparent hin)
    · exact List.mem_append_right _
        (h.cascade.closedBelow_iff.mp h'.closed child entry parent hchild hparent hin)
  inside := by
    intro id hid entry hentry
    rcases List.mem_append.mp hid with hid | hid
    · obtain ⟨entry', hentry', heq, hends⟩ := h'.cascade.before hentry
      have hdead := h.inside id hid entry' hentry'
      rw [hends.eq_of_dead hdead]
      exact hdead
    · exact h'.inside id hid entry hentry
  outside := by
    intro id hid
    rw [List.mem_append, not_or] at hid
    rw [h'.outside id hid.2, h.outside id hid.1]

end EndsBelow

theorem cascadeEntry_dead {reason : String} {now : DateTime} {ids : List LeaseId}
    {id : LeaseId} {entry : LeaseEntry} (h : id ∈ ids) :
    (cascadeEntry reason now ids id entry).record.state.isLive = false := by
  rw [cascadeEntry, if_pos h]
  exact LeaseRecord.cascade_dead reason now entry.record

/-- Ending one lease and then cascading over the leases below it. -/
theorem endThenRevokeDescendants_spec (reason : String) (now : DateTime) (id : LeaseId)
    (entry : LeaseEntry) {record : LeaseRecord} {s₁ : AuthorityState}
    (hdead : record.state.isLive = false) (hcas₁ : Cascade s s₁)
    (hlook₁ : ∀ id', s₁.leases.lookup id'
      = if id' = id then some (entry.withRecord record) else s.leases.lookup id') :
    ∃ s' ended, revokeDescendants id reason now s₁ = .ok () s' ∧ id ∈ ended ∧
      EndsBelow s s' ended ∧ (∀ id' ∈ ended, LeaseBelow s id id') ∧
      s'.leases.lookup id = some (entry.withRecord record) := by
  have hmem : id ∈ s₁.leases := by
    rw [← AList.lookup_isSome, hlook₁, if_pos rfl]
    rfl
  obtain ⟨s', hrun, hcas, hlook⟩ :=
    revokeDescendants_spec reason now hmem
  have hself : s'.leases.lookup id = some (entry.withRecord record) := by
    have hnot : id ∉ (descendants s₁ id).drop 1 := fun h =>
      ((mem_drop_descendants hmem).mp h).2 rfl
    rw [hlook, hlook₁, if_pos rfl, Option.map_some, cascadeEntry, if_neg hnot]
  refine ⟨s', descendants s₁ id, hrun, root_mem_descendants hmem, ?_,
    fun id' hid' => hcas₁.below_iff.mp (below_of_mem_descendants hid'), hself⟩
  constructor
  · exact hcas₁.trans hcas
  · exact hcas₁.closedBelow_iff.mp (descendants_closedBelow hmem)
  · intro id' hid' entry' hentry'
    by_cases heq : id' = id
    · subst heq
      rw [hself] at hentry'
      cases hentry'
      exact hdead
    · have hin := (mem_drop_descendants hmem).mpr ⟨hid', heq⟩
      rw [hlook] at hentry'
      obtain ⟨entry₁, -, rfl⟩ := Option.map_eq_some_iff.mp hentry'
      exact cascadeEntry_dead hin
  · intro id' hid'
    have hne : id' ≠ id := by
      rintro rfl
      exact hid' (root_mem_descendants hmem)
    have hnot : id' ∉ (descendants s₁ id).drop 1 := fun h =>
      hid' ((mem_drop_descendants hmem).mp h).1
    rw [hlook, hlook₁, if_neg hne]
    cases s.leases.lookup id' with
    | none => rfl
    | some entry' => exact congrArg some (if_neg hnot)

-- ============================================================================
-- Bootstrap
-- ============================================================================

/-- The values a successful `bootstrap` went through. -/
structure Bootstrap (request : RootLeaseRequest) (custody : KeyCustody) (now : DateTime)
    (uuid : String) where
  identity : AgentIdentityCertificate
  identityDigest : Digest
  leaseId : LeaseId
  capabilityManifestDigest : Digest
  certificate : AuthorityLeaseCertificate
  request_ok : validateRootRequest request now = .ok ()
  identity_eq : signedIdentity request.agentId custody none custody now = .ok identity
  identityDigest_eq : identity.canonicalDigest = .ok identityDigest
  leaseId_eq : newLeaseId uuid = .ok leaseId
  manifestDigest_eq : request.capabilityManifest.canonicalDigest = .ok capabilityManifestDigest
  certificate_eq : signedLease
    (request.draft now leaseId identityDigest capabilityManifestDigest) identityDigest custody
      = .ok certificate

namespace Bootstrap

variable {request : RootLeaseRequest} {custody : KeyCustody} {now : DateTime} {uuid : String}
  (run : Bootstrap request custody now uuid)

/-- The root lease. -/
def entry : LeaseEntry :=
  ⟨run.certificate, LeaseRecord.active run.leaseId, request.capabilityManifest⟩

/-- The state a kernel starts from. -/
def post : AuthorityState :=
  let state : AuthorityState :=
    { mission := request.mission
      rootLeaseId := run.leaseId
      identities := AList.singleton request.agentId run.identity
      custodians := AList.singleton request.agentId custody
      leases := AList.singleton run.leaseId run.entry
      events := [] }
  (state.pushEvent run.leaseId none .identityRegistered now).pushEvent run.leaseId none
    .leaseIssued now

@[simp] theorem post_mission : run.post.mission = request.mission := rfl
@[simp] theorem post_rootLeaseId : run.post.rootLeaseId = run.leaseId := rfl

theorem lookup_post (id : LeaseId) :
    run.post.leases.lookup id = if id = run.leaseId then some run.entry else none :=
  AList.lookup_singleton_ite run.leaseId run.entry id

/-- The root lease is the only one. -/
theorem eq_entry {id : LeaseId} {entry : LeaseEntry}
    (h : run.post.leases.lookup id = some entry) : id = run.leaseId ∧ entry = run.entry := by
  rw [run.lookup_post] at h
  split at h
  · rename_i heq
    cases h
    exact ⟨heq, rfl⟩
  · cases h

end Bootstrap

theorem bootstrap_eq_ok {request : RootLeaseRequest} {custody : KeyCustody} {now : DateTime}
    {uuid : String} (h : bootstrap request custody now uuid = .ok s) :
    ∃ run : Bootstrap request custody now uuid, s = run.post := by
  simp only [bootstrap, Except.bind_eq_ok, Except.pure_eq_ok] at h
  obtain ⟨_, hrequest, identity, hidentity, digest, hdigest, leaseId, hleaseId, manifestDigest,
    hmanifest, certificate, hcertificate, hpost⟩ := h
  exact ⟨⟨identity, digest, leaseId, manifestDigest, certificate, hrequest, hidentity, hdigest,
    hleaseId, hmanifest, hcertificate⟩, hpost.symm⟩

-- ============================================================================
-- Pause, resume and revoke
-- ============================================================================

/-- `transition`: one lease, found in the expected state and not yet expired. -/
theorem transition_eq_ok {id : LeaseId} {generation : Nat} {expected next : LeaseState}
    {kind : AuthorityEventKind} {now : DateTime} {record : LeaseRecord}
    (h : transition id generation expected next kind now s = .ok record s') :
    ∃ entry, s.leases.lookup id = some entry ∧ entry.record.generation = generation ∧
      entry.record.state = expected ∧ now < entry.certificate.expiresAt ∧
      record = entry.record.advance next ∧
      s' = (s.putLease id (entry.withRecord record)).pushEvent id none kind now := by
  simp only [transition, EStateM.get_bind_eq_ok, EStateM.modify_bind_eq_ok,
    EStateM.pure_eq_ok, orReject_eq_ofResult, rejectIf_eq_ofResult, ofResult_bind_eq_ok,
    orReject_eq_ok, rejectIf_eq_ok, requireGeneration, not_or, not_not, ge_iff_le, not_le] at h
  obtain ⟨entry, hentry, _, hgen, _, ⟨hstate, hnow⟩, rfl, rfl⟩ := h
  exact ⟨entry, hentry, hgen, hstate, hnow, rfl, rfl⟩

/-- Nothing else can stand in the way of a `transition`. -/
theorem transition_succeeds {id : LeaseId} {entry : LeaseEntry} {now : DateTime}
    (h : s.leases.lookup id = some entry) (hnow : now < entry.certificate.expiresAt)
    (next : LeaseState) (kind : AuthorityEventKind) :
    transition id entry.record.generation entry.record.state next kind now s
      = .ok (entry.record.advance next)
        ((s.putLease id (entry.withRecord (entry.record.advance next))).pushEvent id none kind
          now) := by
  simp only [transition, EStateM.get_bind_eq_ok, EStateM.modify_bind_eq_ok,
    EStateM.pure_eq_ok, orReject_eq_ofResult, rejectIf_eq_ofResult, ofResult_bind_eq_ok,
    orReject_eq_ok, rejectIf_eq_ok, requireGeneration, not_or, not_not, ge_iff_le, not_le]
  exact ⟨entry, h, (), rfl, (), ⟨rfl, hnow⟩, rfl, rfl⟩

/-- An active lease can be paused, and a paused one resumed, until it expires. -/
theorem exists_pause {id : LeaseId} {entry : LeaseEntry} {now : DateTime}
    (h : s.leases.lookup id = some entry) (hactive : entry.record.state = .active)
    (hnow : now < entry.certificate.expiresAt) :
    ∃ s', pause id entry.record.generation now s = .ok (entry.record.advance .paused) s' ∧
      ∀ id', s'.leases.lookup id' = if id' = id
        then some (entry.withRecord (entry.record.advance .paused)) else s.leases.lookup id' := by
  have hrun := transition_succeeds h hnow .paused .leasePaused
  rw [hactive] at hrun
  exact ⟨_, hrun, AuthorityState.lookup_putLease s⟩

theorem exists_resume {id : LeaseId} {entry : LeaseEntry} {now : DateTime}
    (h : s.leases.lookup id = some entry) (hpaused : entry.record.state = .paused)
    (hnow : now < entry.certificate.expiresAt) :
    ∃ s', resume id entry.record.generation now s = .ok (entry.record.advance .active) s' ∧
      ∀ id', s'.leases.lookup id' = if id' = id
        then some (entry.withRecord (entry.record.advance .active)) else s.leases.lookup id' := by
  have hrun := transition_succeeds h hnow .active .leaseResumed
  rw [hpaused] at hrun
  exact ⟨_, hrun, AuthorityState.lookup_putLease s⟩

/-- `revoke`: the lease was live, and the whole subtree below it is over. -/
theorem revoke_eq_ok {id : LeaseId} {generation : Nat} {reason : String} {now : DateTime}
    {affected : List LeaseId} (h : revoke id generation reason now s = .ok affected s') :
    ∃ entry, s.leases.lookup id = some entry ∧ entry.record.generation = generation ∧
      entry.record.state.isLive = true ∧ affected = descendants s id ∧ Cascade s s' ∧
      ∀ id', s'.leases.lookup id'
        = (s.leases.lookup id').map (cascadeEntry reason now affected id') := by
  simp only [revoke, EStateM.get_bind_eq_ok, orReject_eq_ofResult, rejectIf_eq_ofResult,
    ofResult_bind_eq_ok, orReject_eq_ok, rejectIf_eq_ok, requireGeneration, not_not] at h
  obtain ⟨entry, hentry, _, hgen, _, hlive, ids, haffected, h⟩ := h
  obtain ⟨_, t, hrun, hret⟩ := EStateM.bind_eq_ok.mp h
  obtain ⟨rfl, rfl⟩ := EStateM.pure_eq_ok.mp hret
  have hmem : id ∈ s.leases := AList.mem_of_lookup hentry
  rw [descendantsIncluding_eq hmem] at haffected
  cases haffected
  obtain ⟨t, ht, hcas, hlook⟩ := forM_revokeIfLive_spec reason now
    (fun id' => if id' ≠ id then some id else none)
    fun id' hid' => mem_leases_of_mem_descendants hmem hid'
  rw [ht] at hrun
  cases hrun
  exact ⟨entry, hentry, hgen, hlive, rfl, hcas, hlook⟩

/-- A live lease can be revoked. -/
theorem exists_revoke {id : LeaseId} {entry : LeaseEntry} (h : s.leases.lookup id = some entry)
    (hlive : entry.record.state.isLive = true) (reason : String) (now : DateTime) :
    ∃ affected s', revoke id entry.record.generation reason now s = .ok affected s' := by
  have hmem : id ∈ s.leases := AList.mem_of_lookup h
  obtain ⟨s', hrun, -⟩ := forM_revokeIfLive_spec reason now
    (fun id' => if id' ≠ id then some id else none)
    fun id' hid' => mem_leases_of_mem_descendants hmem hid'
  refine ⟨descendants s id, s', ?_⟩
  simp only [revoke, EStateM.get_bind_eq_ok, orReject_eq_ofResult, rejectIf_eq_ofResult,
    ofResult_bind_eq_ok, orReject_eq_ok, rejectIf_eq_ok, requireGeneration, not_not]
  exact ⟨entry, h, (), rfl, (), hlive, _, descendantsIncluding_eq hmem,
    EStateM.bind_eq_ok.mpr ⟨(), s', hrun, rfl⟩⟩

/-- The lease itself is revoked, with the reason given. -/
theorem revoke_self {id : LeaseId} {generation : Nat} {reason : String} {now : DateTime}
    {affected : List LeaseId} (h : revoke id generation reason now s = .ok affected s')
    {entry : LeaseEntry} (hentry : s.leases.lookup id = some entry) :
    s'.leases.lookup id = some (entry.withRecord (entry.record.revoke reason now)) := by
  obtain ⟨entry', hentry', -, hlive, rfl, -, hlookup⟩ := revoke_eq_ok h
  obtain rfl := Option.some.inj (hentry.symm.trans hentry')
  rw [hlookup, hentry, Option.map_some, cascadeEntry,
    if_pos (root_mem_descendants (AList.mem_of_lookup hentry)), LeaseRecord.cascade, if_pos hlive]

theorem revoke_endsBelow {id : LeaseId} {generation : Nat} {reason : String} {now : DateTime}
    {affected : List LeaseId} (h : revoke id generation reason now s = .ok affected s') :
    id ∈ affected ∧ EndsBelow s s' affected := by
  obtain ⟨entry, hentry, -, -, rfl, hcas, hlook⟩ := revoke_eq_ok h
  have hmem : id ∈ s.leases := AList.mem_of_lookup hentry
  refine ⟨root_mem_descendants hmem, hcas, descendants_closedBelow hmem, ?_, ?_⟩
  · intro id' hid' entry' hentry'
    rw [hlook] at hentry'
    obtain ⟨entry₀, -, rfl⟩ := Option.map_eq_some_iff.mp hentry'
    exact cascadeEntry_dead hid'
  · intro id' hid'
    rw [hlook]
    cases s.leases.lookup id' with
    | none => rfl
    | some entry' => exact congrArg some (if_neg hid')

-- ============================================================================
-- Expiry
-- ============================================================================

theorem mem_dueLeases {now : DateTime} {id : LeaseId} :
    id ∈ dueLeases s now ↔ ∃ entry, s.leases.lookup id = some entry ∧
      entry.record.state.isLive = true ∧ entry.certificate.expiresAt ≤ now := by
  simp only [dueLeases, mem_sortByKey, List.mem_map, List.mem_filter, Bool.and_eq_true,
    decide_eq_true_eq, Sigma.exists]
  constructor
  · rintro ⟨id', entry, ⟨hmem, hlive, hdue⟩, rfl⟩
    exact ⟨entry, AList.mem_lookup_iff.mpr hmem, hlive, hdue⟩
  · rintro ⟨entry, hlookup, hlive, hdue⟩
    exact ⟨id, entry, ⟨AList.mem_lookup_iff.mp hlookup, hlive, hdue⟩, rfl⟩

/-- One turn of the expiry loop. -/
theorem expireIfLive_spec (now : DateTime) (expired : List LeaseId) {id : LeaseId}
    (h : id ∈ s.leases) :
    ∃ expired' s' ended, expireIfLive now expired id s = .ok expired' s' ∧
      EndsBelow s s' ended ∧
      ∀ entry, s'.leases.lookup id = some entry → entry.record.state.isLive = false := by
  obtain ⟨entry, hentry⟩ := AList.mem_iff_lookup.mp h
  by_cases hlive : entry.record.state.isLive
  · have hends : Ends entry.record (entry.record.advance .expired) := .expire hlive
    obtain ⟨s', ended, hrun, hid, hbelow, -, -⟩ := endThenRevokeDescendants_spec
      "ancestor lease expired" now id entry rfl
      ((Cascade.putLease hentry hends).trans (Cascade.pushEvent id none .leaseExpired now _))
      fun id' => AuthorityState.lookup_putLease s id'
    refine ⟨expired ++ [id], s', ended, ?_, hbelow, hbelow.inside id hid⟩
    simp only [expireIfLive, EStateM.bind_eq_ok, EStateM.get_eq_ok, orReject_eq_ofResult,
      ofResult_eq_ok, orReject_eq_ok]
    refine ⟨s, s, ⟨rfl, rfl⟩, entry, s, ⟨hentry, rfl⟩, ?_⟩
    rw [if_pos hlive]
    simp only [EStateM.bind_eq_ok, EStateM.modify_eq_ok, EStateM.pure_eq_ok]
    exact ⟨(), _, rfl, (), _, rfl, (), s', hrun, trivial, rfl⟩
  · refine ⟨expired, s, [], ?_, EndsBelow.refl s, ?_⟩
    · simp only [expireIfLive, EStateM.bind_eq_ok, EStateM.get_eq_ok, orReject_eq_ofResult,
        ofResult_eq_ok, orReject_eq_ok]
      refine ⟨s, s, ⟨rfl, rfl⟩, entry, s, ⟨hentry, rfl⟩, ?_⟩
      rw [if_neg hlive]
      rfl
    · intro entry' hentry'
      rw [hentry] at hentry'
      cases hentry'
      simpa using hlive

/-- The expiry loop never fails, and ends every lease it goes through. -/
theorem foldlM_expireIfLive_spec (now : DateTime) {ids : List LeaseId}
    (expired : List LeaseId)
    (h : ∀ id ∈ ids, id ∈ s.leases) :
    ∃ expired' s' ended, ids.foldlM (expireIfLive now) expired s = .ok expired' s' ∧
      EndsBelow s s' ended ∧
      ∀ id ∈ ids, ∀ entry, s'.leases.lookup id = some entry →
        entry.record.state.isLive = false := by
  induction ids generalizing s expired with
  | nil => exact ⟨expired, s, [], rfl, EndsBelow.refl s, by simp⟩
  | cons id ids ih =>
      obtain ⟨expired₁, s₁, ended₁, hrun₁, hbelow₁, hdead₁⟩ :=
        expireIfLive_spec now expired (h id (by simp))
      have hids : ∀ id' ∈ ids, id' ∈ s₁.leases :=
        fun id' hid' => hbelow₁.cascade.mem_iff.mpr (h id' (by simp [hid']))
      obtain ⟨expired₂, s₂, ended₂, hrun₂, hbelow₂, hdead₂⟩ := ih expired₁ hids
      refine ⟨expired₂, s₂, ended₁ ++ ended₂, ?_, hbelow₁.trans hbelow₂, ?_⟩
      · rw [List.foldlM_cons, EStateM.bind_apply, hrun₁]
        exact hrun₂
      · intro id' hid' entry hentry
        rcases List.mem_cons.mp hid' with rfl | hid'
        · obtain ⟨entry₁, hentry₁, -, hends⟩ := hbelow₂.cascade.before hentry
          have hdead := hdead₁ entry₁ hentry₁
          rw [hends.eq_of_dead hdead]
          exact hdead
        · exact hdead₂ id' hid' entry hentry

/-- `refresh_expirations` always succeeds. -/
theorem refreshExpirations_spec (s : AuthorityState) (now : DateTime) :
    ∃ expired s' ended, refreshExpirations now s = .ok expired s' ∧ EndsBelow s s' ended ∧
      ∀ id ∈ dueLeases s now, ∀ entry, s'.leases.lookup id = some entry →
        entry.record.state.isLive = false := by
  have hmem : ∀ id ∈ dueLeases s now, id ∈ s.leases := by
    intro id hid
    obtain ⟨entry, hentry, -⟩ := mem_dueLeases.mp hid
    exact AList.mem_of_lookup hentry
  obtain ⟨expired, s', ended, hrun, hbelow, hdead⟩ :=
    foldlM_expireIfLive_spec now [] hmem
  refine ⟨expired, s', ended, ?_, hbelow, hdead⟩
  simp only [refreshExpirations, EStateM.bind_eq_ok, EStateM.get_eq_ok]
  exact ⟨s, s, ⟨rfl, rfl⟩, hrun⟩

-- ============================================================================
-- Delegation
-- ============================================================================

/-- The values a successful `delegate` went through. -/
structure Delegation (s : AuthorityState) (request : DelegationRequest)
    (childCustody : KeyCustody) (now : DateTime) (uuid : String) where
  parent : LeaseEntry
  validatedParent : ValidatedAuthority
  parentCustody : KeyCustody
  childIdentity : AgentIdentityCertificate
  childIdentityDigest : Digest
  parentIdentity : AgentIdentityCertificate
  parentReference : LeaseRef
  childLeaseId : LeaseId
  capabilityManifestDigest : Digest
  parentIdentityDigest : Digest
  certificate : AuthorityLeaseCertificate
  parent_eq : s.leases.lookup request.parentLeaseId = some parent
  active : validateActiveRecord parent (some request.expectedParentGeneration) now = .ok ()
  validatedParent_eq : validateChain s request.parentLeaseId
    (some request.expectedParentGeneration) parent.manifest now = .ok validatedParent
  depth : validatedParent.chain.length < maxAuthorityChainDepth
  request_ok : validateDelegationRequest s parent request now = .ok ()
  agent_new : request.childAgentId ∉ s.identities
  key_new : ∀ stored ∈ s.identities.entries, stored.2.keyId ≠ childCustody.keyId
  parentCustody_eq : s.custodians.lookup parent.certificate.agentId = some parentCustody
  childIdentity_eq : signedIdentity request.childAgentId childCustody
    (some parent.certificate.agentId) parentCustody now = .ok childIdentity
  childIdentityDigest_eq : childIdentity.canonicalDigest = .ok childIdentityDigest
  parentIdentity_eq : s.identities.lookup parent.certificate.agentId = some parentIdentity
  parentReference_eq : leaseRef parent.certificate = .ok parentReference
  childLeaseId_eq : newLeaseId uuid = .ok childLeaseId
  manifestDigest_eq : request.capabilityManifest.canonicalDigest = .ok capabilityManifestDigest
  parentIdentityDigest_eq : parentIdentity.canonicalDigest = .ok parentIdentityDigest
  certificate_eq : signedLease
    (request.draft now parent childLeaseId childIdentityDigest parentReference
      capabilityManifestDigest) parentIdentityDigest parentCustody = .ok certificate

namespace Delegation

variable {request : DelegationRequest} {childCustody : KeyCustody} {now : DateTime}
  {uuid : String} (run : Delegation s request childCustody now uuid)

/-- The lease a delegation stores. -/
def entry : LeaseEntry :=
  ⟨run.certificate, LeaseRecord.active run.childLeaseId, request.capabilityManifest⟩

/-- The state a delegation leaves. -/
def post : AuthorityState :=
  let registered :=
    { s with
      identities := s.identities.insert request.childAgentId run.childIdentity
      custodians := s.custodians.insert request.childAgentId childCustody }
  ((registered.putLease run.childLeaseId run.entry).pushEvent run.childLeaseId
      (some request.parentLeaseId) .identityRegistered now).pushEvent run.childLeaseId
    (some request.parentLeaseId) .leaseDelegated now

@[simp] theorem post_mission : run.post.mission = s.mission := rfl
@[simp] theorem post_rootLeaseId : run.post.rootLeaseId = s.rootLeaseId := rfl

@[simp] theorem post_identities :
    run.post.identities = s.identities.insert request.childAgentId run.childIdentity := rfl

@[simp] theorem post_custodians :
    run.post.custodians = s.custodians.insert request.childAgentId childCustody := rfl

theorem lookup_post (id : LeaseId) :
    run.post.leases.lookup id
      = if id = run.childLeaseId then some run.entry else s.leases.lookup id :=
  AuthorityState.lookup_putLease _ id

end Delegation

theorem delegate_eq_ok {request : DelegationRequest} {childCustody : KeyCustody}
    {now : DateTime} {uuid : String} {id : LeaseId}
    (h : delegate request childCustody now uuid s = .ok id s') :
    ∃ run : Delegation s request childCustody now uuid,
      id = run.childLeaseId ∧ s' = run.post := by
  simp only [delegate, EStateM.get_bind_eq_ok, EStateM.modify_bind_eq_ok,
    EStateM.pure_eq_ok, orReject_eq_ofResult, rejectIf_eq_ofResult, ofResult_bind_eq_ok,
    orReject_eq_ok, rejectIf_eq_ok, not_exists, not_and, ge_iff_le, not_le] at h
  obtain ⟨parent, hparent, _, hactive, validated, hvalidated, _, hdepth, _, hrequest, _, hagent,
    _, hkey, custody, hcustody, identity, hidentity, digest, hdigest, issuer, hissuer, ref, href,
    childId, hchildId, manifestDigest, hmanifest, issuerDigest, hissuerDigest, cert, hcert,
    hid, hpost⟩ := h
  exact ⟨⟨parent, validated, custody, identity, digest, issuer, ref, childId, manifestDigest,
    issuerDigest, cert, hparent, hactive, hvalidated, hdepth, hrequest, hagent, hkey, hcustody,
    hidentity, hdigest, hissuer, href, hchildId, hmanifest, hissuerDigest, hcert⟩, hid.symm,
    hpost.symm⟩

/-- Nothing else can stand in the way of a delegation. -/
theorem Delegation.succeeds {request : DelegationRequest} {childCustody : KeyCustody}
    {now : DateTime} {uuid : String} (run : Delegation s request childCustody now uuid) :
    delegate request childCustody now uuid s = .ok run.childLeaseId run.post := by
  simp only [delegate, EStateM.get_bind_eq_ok, EStateM.modify_bind_eq_ok,
    EStateM.pure_eq_ok, orReject_eq_ofResult, rejectIf_eq_ofResult, ofResult_bind_eq_ok,
    orReject_eq_ok, rejectIf_eq_ok, not_exists, not_and, ge_iff_le, not_le]
  exact ⟨_, run.parent_eq, (), run.active, _, run.validatedParent_eq, (), run.depth, (),
    run.request_ok, (), run.agent_new, (), run.key_new, _, run.parentCustody_eq, _,
    run.childIdentity_eq, _, run.childIdentityDigest_eq, _, run.parentIdentity_eq, _,
    run.parentReference_eq, _, run.childLeaseId_eq, _, run.manifestDigest_eq, _,
    run.parentIdentityDigest_eq, _, run.certificate_eq, rfl, rfl⟩

-- ============================================================================
-- Renewal
-- ============================================================================

/-- The values a successful `renew` went through. `retired` is the state after
    the renewed lease and everything below it has ended. -/
structure Renewal (s : AuthorityState) (request : RenewalRequest) (now : DateTime)
    (uuid : String) where
  old : LeaseEntry
  validated : ValidatedAuthority
  issuerIdentity : AgentIdentityCertificate
  issuerCustody : KeyCustody
  renewedId : LeaseId
  renewedFrom : LeaseRef
  capabilityManifestDigest : Digest
  issuerIdentityDigest : Digest
  certificate : AuthorityLeaseCertificate
  retired : AuthorityState
  ended : List LeaseId
  old_eq : s.leases.lookup request.leaseId = some old
  active : validateActiveRecord old (some request.expectedGeneration) now = .ok ()
  validated_eq : validateChain s request.leaseId (some request.expectedGeneration)
    old.manifest now = .ok validated
  request_ok : validateRenewalRequest s old request now = .ok ()
  issuerIdentity_eq : s.identities.lookup
    (old.certificate.parentAgentId.getD old.certificate.agentId) = some issuerIdentity
  issuerCustody_eq : s.custodians.lookup
    (old.certificate.parentAgentId.getD old.certificate.agentId) = some issuerCustody
  renewedId_eq : newLeaseId uuid = .ok renewedId
  renewedFrom_eq : leaseRef old.certificate = .ok renewedFrom
  manifestDigest_eq : request.capabilityManifest.canonicalDigest = .ok capabilityManifestDigest
  issuerDigest_eq : issuerIdentity.canonicalDigest = .ok issuerIdentityDigest
  certificate_eq : signedLease
    (request.draft now old renewedId renewedFrom capabilityManifestDigest)
    issuerIdentityDigest issuerCustody = .ok certificate
  endsBelow : EndsBelow s retired ended
  old_mem : request.leaseId ∈ ended
  ended_below : ∀ id ∈ ended, LeaseBelow s request.leaseId id
  old_retired : retired.leases.lookup request.leaseId
    = some (old.withRecord (old.record.retire renewedId))

namespace Renewal

variable {request : RenewalRequest} {now : DateTime} {uuid : String}
  (run : Renewal s request now uuid)

/-- The lease a renewal stores. -/
def entry : LeaseEntry :=
  ⟨run.certificate, LeaseRecord.active run.renewedId, request.capabilityManifest⟩

/-- The state a renewal leaves. -/
def post : AuthorityState :=
  let stored := run.retired.putLease run.renewedId run.entry
  let moved :=
    if stored.rootLeaseId = request.leaseId then { stored with rootLeaseId := run.renewedId }
    else stored
  moved.pushEvent run.renewedId (some request.leaseId) .leaseRenewed now

theorem post_mission : run.post.mission = s.mission := by
  simp only [post, AuthorityState.pushEvent_mission]
  split <;> exact run.endsBelow.cascade.mission

theorem post_identities : run.post.identities = s.identities := by
  simp only [post, AuthorityState.pushEvent_identities]
  split <;> exact run.endsBelow.cascade.identities

theorem post_custodians : run.post.custodians = s.custodians := by
  simp only [post, AuthorityState.pushEvent_custodians]
  split <;> exact run.endsBelow.cascade.custodians

theorem post_rootLeaseId :
    run.post.rootLeaseId
      = if s.rootLeaseId = request.leaseId then run.renewedId else s.rootLeaseId := by
  simp only [post, AuthorityState.pushEvent_rootLeaseId, AuthorityState.putLease_rootLeaseId,
    run.endsBelow.cascade.rootLeaseId]
  split
  · rfl
  · exact run.endsBelow.cascade.rootLeaseId

theorem lookup_post (id : LeaseId) :
    run.post.leases.lookup id
      = if id = run.renewedId then some run.entry else run.retired.leases.lookup id := by
  simp only [post, AuthorityState.pushEvent_leases]
  split <;> exact AuthorityState.lookup_putLease _ id

end Renewal

theorem validateActiveRecord_eq_ok {entry : LeaseEntry} {expected : Option Nat}
    {now : DateTime} :
    validateActiveRecord entry expected now = .ok () ↔
      (∀ generation, expected = some generation → entry.record.generation = generation) ∧
      entry.record.state = .active ∧ now < entry.certificate.expiresAt := by
  cases expected with
  | none =>
      simp [validateActiveRecord]
  | some generation =>
      simp [validateActiveRecord, Except.bind_eq_ok, requireGeneration]

/-- `renew`, with the cascade that led to the state in between. -/
theorem renew_eq_ok_retired {request : RenewalRequest} {now : DateTime} {uuid : String}
    {id : LeaseId} (h : renew request now uuid s = .ok id s') :
    ∃ run : Renewal s request now uuid, id = run.renewedId ∧ s' = run.post ∧
      revokeDescendants request.leaseId "ancestor lease retired during renewal" now
        (s.putLease request.leaseId (run.old.withRecord (run.old.record.retire run.renewedId)))
          = .ok () run.retired := by
  simp only [renew, EStateM.get_bind_eq_ok, EStateM.modify_bind_eq_ok, orReject_eq_ofResult,
    ofResult_bind_eq_ok, orReject_eq_ok] at h
  obtain ⟨old, hold, _, hactive, validated, hvalidated, _, hrequest, issuer, hissuer, custody,
    hcustody, renewedId, hrenewedId, renewedFrom, hrenewedFrom, manifestDigest, hmanifest,
    issuerDigest, hissuerDigest, cert, hcert, oldEntry, holdEntry, h⟩ := h
  obtain ⟨_, retired, hretired, hrest⟩ := EStateM.bind_eq_ok.mp h
  simp only [EStateM.modify_bind_eq_ok, EStateM.pure_eq_ok] at hrest
  rw [hold] at holdEntry
  cases holdEntry
  have hlive : old.record.state.isLive = true := by
    rw [(validateActiveRecord_eq_ok.mp hactive).2.1]
    rfl
  have hends : Ends old.record (old.record.retire renewedId) := .retire renewedId hlive
  obtain ⟨t, ended, hrun, hmem, hbelow, hunder, hself⟩ := endThenRevokeDescendants_spec
    "ancestor lease retired during renewal" now request.leaseId old rfl
    (Cascade.putLease hold hends) fun id' => AuthorityState.lookup_putLease s id'
  obtain rfl : t = retired := by
    rw [hrun] at hretired
    cases hretired
    rfl
  exact ⟨⟨old, validated, issuer, custody, renewedId, renewedFrom, manifestDigest, issuerDigest,
    cert, t, ended, hold, hactive, hvalidated, hrequest, hissuer, hcustody, hrenewedId,
    hrenewedFrom, hmanifest, hissuerDigest, hcert, hbelow, hmem, hunder, hself⟩, hrest.1.symm,
    hrest.2.symm, hretired⟩

/-- Once the checks have passed and the certificate is signed, a renewal succeeds: the cascade
    below the renewed lease cannot fail. -/
theorem exists_renew (request : RenewalRequest) {now : DateTime} {uuid : String} {old : LeaseEntry}
    {validated : ValidatedAuthority} {issuerIdentity : AgentIdentityCertificate}
    {issuerCustody : KeyCustody} {renewedId : LeaseId} {renewedFrom : LeaseRef}
    {manifestDigest issuerDigest : Digest} {certificate : AuthorityLeaseCertificate}
    (hold : s.leases.lookup request.leaseId = some old)
    (hactive : validateActiveRecord old (some request.expectedGeneration) now = .ok ())
    (hvalidated : validateChain s request.leaseId (some request.expectedGeneration)
      old.manifest now = .ok validated)
    (hrequest : validateRenewalRequest s old request now = .ok ())
    (hissuer : s.identities.lookup
      (old.certificate.parentAgentId.getD old.certificate.agentId) = some issuerIdentity)
    (hcustody : s.custodians.lookup
      (old.certificate.parentAgentId.getD old.certificate.agentId) = some issuerCustody)
    (hrenewedId : newLeaseId uuid = .ok renewedId)
    (hrenewedFrom : leaseRef old.certificate = .ok renewedFrom)
    (hmanifest : request.capabilityManifest.canonicalDigest = .ok manifestDigest)
    (hissuerDigest : issuerIdentity.canonicalDigest = .ok issuerDigest)
    (hcertificate : signedLease (request.draft now old renewedId renewedFrom manifestDigest)
      issuerDigest issuerCustody = .ok certificate) :
    ∃ s', renew request now uuid s = .ok renewedId s' := by
  have hlive : old.record.state.isLive = true := by
    rw [(validateActiveRecord_eq_ok.mp hactive).2.1]
    rfl
  obtain ⟨retired, ended, hretired, -⟩ := endThenRevokeDescendants_spec
    "ancestor lease retired during renewal" now request.leaseId old rfl
    (Cascade.putLease hold (.retire renewedId hlive))
    fun id' => AuthorityState.lookup_putLease s id'
  simp only [renew, EStateM.get_bind_eq_ok, EStateM.modify_bind_eq_ok, orReject_eq_ofResult,
    ofResult_bind_eq_ok, orReject_eq_ok]
  refine ⟨?post, old, hold, (), hactive, validated, hvalidated, (), hrequest, issuerIdentity,
    hissuer, issuerCustody, hcustody, renewedId, hrenewedId, renewedFrom, hrenewedFrom,
    manifestDigest, hmanifest, issuerDigest, hissuerDigest, certificate, hcertificate, old, hold,
    EStateM.bind_eq_ok.mpr ⟨(), retired, hretired, ?_⟩⟩
  swap
  exact rfl

theorem renew_eq_ok {request : RenewalRequest} {now : DateTime} {uuid : String}
    {id : LeaseId} (h : renew request now uuid s = .ok id s') :
    ∃ run : Renewal s request now uuid, id = run.renewedId ∧ s' = run.post := by
  obtain ⟨run, hid, hpost, -⟩ := renew_eq_ok_retired h
  exact ⟨run, hid, hpost⟩

end

end GenesisRuntime
