/-
  GenesisRuntime.Kernel.Attenuation

  Authority never grows.  Only the root request is checked against the mission;
  a delegation is checked against its parent and a renewal against the lease it
  replaces.  What these checks hand down, link by link, is that every lease stays
  within the mission and within every lease above it.
-/

import GenesisRuntime.Kernel.Lifecycle

namespace GenesisRuntime

section
variable [Externals]

-- ============================================================================
-- The invariant
-- ============================================================================

/-- A lease within the bounds of the mission. -/
structure WithinMission (mission : MissionEnvelope) (entry : LeaseEntry) : Prop where
  missionId : entry.certificate.missionId = mission.missionId
  organizationVersion : entry.certificate.organizationVersion = mission.organizationVersion
  policyEpoch : entry.certificate.policyEpoch = mission.policyEpoch
  expiresAt : entry.certificate.expiresAt ≤ mission.expiresAt
  granted : ∀ c ∈ entry.certificate.grantedAuthority.capabilities,
    ∃ allowed ∈ mission.allowedCapabilities, isSubsetOf c allowed = true
  noAll : capabilityAll ∉ entry.certificate.grantedAuthority.capabilities ∧
    capabilityAll ∉ entry.certificate.delegableAuthority.capabilities
  delegable : authorityIsSubsetOf entry.certificate.delegableAuthority
    entry.certificate.grantedAuthority = true
  permissions : canonicalCapabilities entry.manifest.permissions.capabilities
    = .ok entry.certificate.grantedAuthority.capabilities
  tools : ∀ bound ∈ entry.manifest.approvedTools, bound.toolId ∈ mission.allowedTools

/-- A lease within the bounds of a lease above it. -/
structure WithinLease (above entry : LeaseEntry) : Prop where
  granted : authorityIsSubsetOf entry.certificate.grantedAuthority
    above.certificate.delegableAuthority = true
  expiresAt : entry.certificate.expiresAt ≤ above.certificate.expiresAt
  tools : entry.manifest.approvedTools ⊆ above.manifest.approvedTools

/-- Every lease is within the mission and within its parent. -/
structure Attenuation (s : AuthorityState) : Prop where
  mission : ∀ id entry, s.leases.lookup id = some entry → WithinMission s.mission entry
  parent : ∀ id entry, s.leases.lookup id = some entry → ∀ parent, entry.parentId = some parent →
    ∃ above, s.leases.lookup parent = some above ∧ WithinLease above entry

variable {s s' : AuthorityState}

theorem Delegation.withinLease {request : DelegationRequest} {custody : KeyCustody}
    {now : DateTime} {uuid : String} (run : Delegation s request custody now uuid) :
    WithinLease run.parent run.entry := by
  obtain ⟨⟨-, hexpires, -⟩, -, hgranted, -, hmanifest⟩ :=
    validateDelegationRequest_eq_ok.mp run.request_ok
  obtain ⟨signature, hcert⟩ := signedLease_fields run.certificate_eq
  obtain ⟨-, -, -, -, htools⟩ := validateManifestAttenuation_eq_ok.mp hmanifest
  constructor
  · simp only [Delegation.entry, hcert]
    exact hgranted
  · simp only [Delegation.entry, hcert]
    exact hexpires
  · exact htools

theorem Delegation.withinMission (htrans : SubsetTransitive) {request : DelegationRequest}
    {custody : KeyCustody} {now : DateTime} {uuid : String}
    (run : Delegation s request custody now uuid) (hparent : WithinMission s.mission run.parent) :
    WithinMission s.mission run.entry := by
  obtain ⟨⟨-, hexpires, -⟩, hsets, hgranted, hmanifest, hattn⟩ :=
    validateDelegationRequest_eq_ok.mp run.request_ok
  obtain ⟨hall, hdelegable⟩ := validateAuthoritySets_eq_ok.mp hsets
  obtain ⟨-, hpermissions, -⟩ := validateManifest_eq_ok.mp hmanifest
  obtain ⟨-, -, -, -, htools⟩ := validateManifestAttenuation_eq_ok.mp hattn
  obtain ⟨signature, hcert⟩ := signedLease_fields run.certificate_eq
  have hbound : authorityIsSubsetOfCapabilities request.grantedAuthority
      s.mission.allowedCapabilities = true := by
    refine authorityIsSubsetOfCapabilities_trans htrans
      (authorityIsSubsetOf_trans htrans hgranted hparent.delegable) ?_
    exact authorityIsSubsetOfCapabilities_iff.mpr hparent.granted
  constructor <;> simp only [Delegation.entry, hcert]
  · exact hparent.missionId
  · exact hparent.organizationVersion
  · exact hparent.policyEpoch
  · exact hexpires.trans hparent.expiresAt
  · exact authorityIsSubsetOfCapabilities_iff.mp hbound
  · exact hall
  · exact hdelegable
  · exact hpermissions
  · exact fun bound hbound => hparent.tools bound (htools hbound)

theorem Renewal.withinMission (htrans : SubsetTransitive) {request : RenewalRequest}
    {now : DateTime} {uuid : String} (run : Renewal s request now uuid)
    (hold : WithinMission s.mission run.old) : WithinMission s.mission run.entry := by
  obtain ⟨⟨-, hexpires⟩, -, hsets, ⟨hgranted, -⟩, hmanifest, hattn, -⟩ :=
    validateRenewalRequest_eq_ok.mp run.request_ok
  obtain ⟨hall, hdelegable⟩ := validateAuthoritySets_eq_ok.mp hsets
  obtain ⟨-, hpermissions, -⟩ := validateManifest_eq_ok.mp hmanifest
  obtain ⟨-, -, -, -, htools⟩ := validateManifestAttenuation_eq_ok.mp hattn
  obtain ⟨signature, hcert⟩ := signedLease_fields run.certificate_eq
  have hbound : authorityIsSubsetOfCapabilities request.grantedAuthority
      s.mission.allowedCapabilities = true :=
    authorityIsSubsetOfCapabilities_trans htrans hgranted
      (authorityIsSubsetOfCapabilities_iff.mpr hold.granted)
  constructor <;> simp only [Renewal.entry, hcert]
  · exact hold.missionId
  · exact hold.organizationVersion
  · exact hold.policyEpoch
  · exact hexpires
  · exact authorityIsSubsetOfCapabilities_iff.mp hbound
  · exact hall
  · exact hdelegable
  · exact hpermissions
  · exact fun bound hbound => hold.tools bound (htools hbound)

/-- A renewal stays within the parent of the lease it replaces. -/
theorem Renewal.withinLease (htrans : SubsetTransitive) {request : RenewalRequest}
    {now : DateTime} {uuid : String} (run : Renewal s request now uuid) {above : LeaseEntry}
    {parent : LeaseId} (hparent : run.old.parentId = some parent)
    (habove : s.leases.lookup parent = some above) (hold : WithinLease above run.old) :
    WithinLease above run.entry := by
  obtain ⟨-, -, -, ⟨hgranted, -⟩, -, hattn, hactive⟩ :=
    validateRenewalRequest_eq_ok.mp run.request_ok
  obtain ⟨-, -, -, -, htools⟩ := validateManifestAttenuation_eq_ok.mp hattn
  obtain ⟨signature, hcert⟩ := signedLease_fields run.certificate_eq
  obtain ⟨above', habove', -, hexpires⟩ := hactive parent hparent
  rw [habove] at habove'
  cases habove'
  constructor
  · simp only [Renewal.entry, hcert]
    exact authorityIsSubsetOf_trans htrans hgranted hold.granted
  · simp only [Renewal.entry, hcert]
    exact hexpires
  · exact List.Subset.trans htools hold.tools

theorem Bootstrap.withinMission {request : RootLeaseRequest} {custody : KeyCustody}
    {now : DateTime} {uuid : String} (run : Bootstrap request custody now uuid) :
    WithinMission request.mission run.entry := by
  obtain ⟨⟨-, -, hexpires⟩, hsets, hgranted, hmanifest, htools⟩ :=
    validateRootRequest_eq_ok.mp run.request_ok
  obtain ⟨hall, hdelegable⟩ := validateAuthoritySets_eq_ok.mp hsets
  obtain ⟨-, hpermissions, -⟩ := validateManifest_eq_ok.mp hmanifest
  obtain ⟨signature, hcert⟩ := signedLease_fields run.certificate_eq
  constructor <;> simp only [Bootstrap.entry, hcert]
  · rfl
  · rfl
  · rfl
  · exact hexpires
  · exact authorityIsSubsetOfCapabilities_iff.mp hgranted
  · exact hall
  · exact hdelegable
  · exact hpermissions
  · exact htools

/-- The rule for invariants that relate a lease to its parent, whatever the records of the
    two: a delegation establishes the relation, a renewal takes it over. -/
theorem KernelStep.forall_parents {Q : LeaseEntry → LeaseEntry → Prop} (hstep : KernelStep s s')
    (hlife : Lifecycle s)
    (hinv : ∀ id entry, s.leases.lookup id = some entry → ∀ parent,
      entry.parentId = some parent → ∃ above, s.leases.lookup parent = some above ∧ Q above entry)
    (hrecord : ∀ above entry record record', Q above entry →
      Q (above.withRecord record) (entry.withRecord record'))
    (hdelegated : ∀ {request : DelegationRequest} {custody : KeyCustody} {now : DateTime}
      {uuid : String} (run : Delegation s request custody now uuid), Q run.parent run.entry)
    (hrenewed : ∀ {request : RenewalRequest} {now : DateTime} {uuid : String}
      (run : Renewal s request now uuid) (parent : LeaseId) (above : LeaseEntry),
      run.old.parentId = some parent → s.leases.lookup parent = some above →
      Q above run.old → Q above run.entry) :
    ∀ id entry, s'.leases.lookup id = some entry → ∀ parent, entry.parentId = some parent →
      ∃ above, s'.leases.lookup parent = some above ∧ Q above entry := by
  -- the parent may have ended or been suspended, but is still stored
  have hkept : ∀ {parent above entry}, s.leases.lookup parent = some above → Q above entry →
      ∀ record, ∃ above', s'.leases.lookup parent = some above' ∧
        Q above' (entry.withRecord record) := by
    intro parent above entry habove hQ record
    obtain ⟨r, hr, -⟩ := hstep.keepsLeases _ _ habove
    exact ⟨_, hr, hrecord above entry r record hQ⟩
  refine hstep.forall_leases (P := fun t _ entry => ∀ parent, entry.parentId = some parent →
    ∃ above, t.leases.lookup parent = some above ∧ Q above entry) hinv ?_ ?_
  · intro id entry record _ hparents parent hparent
    obtain ⟨above, habove, hQ⟩ := hparents parent hparent
    exact hkept habove hQ record
  · intro id entry hissued parent hparent
    cases hissued with
    | delegated run fresh =>
        rw [run.entry_parentId, hlife.keyed _ _ run.parent_eq] at hparent
        cases hparent
        exact hkept run.parent_eq (hdelegated run) run.entry.record
    | renewed run fresh =>
        rw [run.entry_parentId] at hparent
        obtain ⟨above, habove, hold⟩ := hinv _ _ run.old_eq parent hparent
        exact hkept habove (hrenewed run parent above hparent habove hold) run.entry.record

namespace Attenuation

theorem bootstrapped {request : RootLeaseRequest} {custody : KeyCustody} {now : DateTime}
    {uuid : String} (run : Bootstrap request custody now uuid) : Attenuation run.post := by
  constructor
  · intro id entry hid
    obtain ⟨-, rfl⟩ := run.eq_entry hid
    exact run.withinMission
  · intro id entry hid parent hparent
    obtain ⟨-, rfl⟩ := run.eq_entry hid
    rw [run.entry_parentId] at hparent
    cases hparent

theorem step (htrans : SubsetTransitive) (hlife : Lifecycle s) (h : Attenuation s)
    (hstep : KernelStep s s') : Attenuation s' := by
  constructor
  · refine hstep.forall_leases (P := fun t _ entry => WithinMission t.mission entry) h.mission ?_ ?_
    · intro id entry record _ hwithin
      rw [hstep.mission_eq]
      exact ⟨hwithin.1, hwithin.2, hwithin.3, hwithin.4, hwithin.5, hwithin.6, hwithin.7,
        hwithin.8, hwithin.9⟩
    · intro id entry hissued
      rw [hstep.mission_eq]
      cases hissued with
      | delegated run fresh =>
          exact run.withinMission htrans (h.mission _ _ run.parent_eq)
      | renewed run fresh => exact run.withinMission htrans (h.mission _ _ run.old_eq)
  · refine hstep.forall_parents hlife (Q := WithinLease) h.parent ?_ ?_ ?_
    · exact fun _ _ _ _ hab => ⟨hab.1, hab.2, hab.3⟩
    · exact fun run => run.withinLease
    · exact fun run parent above => run.withinLease htrans

theorem of_reachable (htrans : SubsetTransitive) (h : Reachable s) : Attenuation s := by
  have hboth : Lifecycle s ∧ Attenuation s := by
    refine h.invariant (P := fun t => Lifecycle t ∧ Attenuation t) ?_ ?_
    · intro request custody now uuid s₀ hboot
      obtain ⟨run, rfl⟩ := bootstrap_eq_ok hboot
      exact ⟨Lifecycle.bootstrapped run, bootstrapped run⟩
    · intro t t' ⟨hlife, hatt⟩ hstep
      exact ⟨hlife.step hstep, hatt.step htrans hlife hstep⟩
  exact hboth.2

/-- Attenuation composes along the path. -/
theorem within_above (htrans : SubsetTransitive) (h : Attenuation s) {above parent : LeaseId}
    (hbelow : LeaseBelow s above parent) {id : LeaseId} {entry : LeaseEntry}
    (hentry : s.leases.lookup id = some entry) (hparent : entry.parentId = some parent) :
    ∃ aboveEntry, s.leases.lookup above = some aboveEntry ∧ WithinLease aboveEntry entry := by
  induction hbelow using Relation.ReflTransGen.head_induction_on with
  | refl => exact h.parent _ _ hentry parent hparent
  | head hlink _ ih =>
      obtain ⟨child, hchild, hup⟩ := hlink
      obtain ⟨childEntry, hchildEntry, hwithin⟩ := ih
      obtain rfl : child = childEntry := Option.some.inj (hchild.symm.trans hchildEntry)
      obtain ⟨aboveEntry, habove, hchildWithin⟩ := h.parent _ _ hchild _ hup
      refine ⟨aboveEntry, habove, ?_, hwithin.expiresAt.trans hchildWithin.expiresAt,
        List.Subset.trans hwithin.tools hchildWithin.tools⟩
      exact authorityIsSubsetOf_trans htrans hwithin.granted
        (authorityIsSubsetOf_trans htrans (h.mission _ _ hchild).delegable hchildWithin.granted)

end Attenuation

theorem KernelRun.mission_eq (h : KernelRun s s') : s'.mission = s.mission :=
  h.relates (R := fun t t' => t'.mission = t.mission) (fun _ => rfl)
    (fun _ _ _ h h' => h'.trans h) fun _ _ => KernelStep.mission_eq

/-- Every lease of every reachable state, whatever its lifecycle state, is within
    the mission the kernel was started with and within every lease above it. -/
theorem leases_are_attenuated (hsub : SubsetPreorder) {request : RootLeaseRequest}
    {custody : KeyCustody} {start : DateTime} {uuid : String} {s₀ s : AuthorityState}
    (hboot : bootstrap request custody start uuid = .ok s₀) (hrun : KernelRun s₀ s) :
    ∀ id entry, s.leases.lookup id = some entry →
      WithinMission request.mission entry ∧
      (JsonTextInjective → CapabilitySerializationInjective →
        ∀ c, c ∈ entry.manifest.permissions.capabilities ↔
          c ∈ entry.certificate.grantedAuthority.capabilities) ∧
      ∀ parent above, entry.parentId = some parent → LeaseBelow s above parent →
        ∃ aboveEntry, s.leases.lookup above = some aboveEntry ∧
          WithinLease aboveEntry entry := by
  have htrans := hsub.transitive
  have hatt := Attenuation.of_reachable htrans ⟨request, custody, start, uuid, s₀, hboot, hrun⟩
  have hmission : s.mission = request.mission := by
    obtain ⟨run, rfl⟩ := bootstrap_eq_ok hboot
    rw [hrun.mission_eq, run.post_mission]
  intro id entry hentry
  have hwithin := hatt.mission id entry hentry
  refine ⟨hmission ▸ hwithin, ?_, ?_⟩
  · intro htext hcap c
    exact (mem_canonicalCapabilities hcap htext hwithin.permissions).symm
  · intro parent above hparent hbelow
    exact hatt.within_above htrans hbelow hentry hparent

omit [Externals] in
/-- The reference kernel, after a delegation: the lease below the root lease is within it. -/
theorem leases_are_attenuated_reference : letI := Reference.externals
    ∃ (s₀ s : AuthorityState) (uuid : String) (root child : LeaseId)
      (rootEntry childEntry : LeaseEntry),
      bootstrap Reference.rootRequest Reference.rootCustody Reference.start uuid = .ok s₀ ∧
      KernelRun s₀ s ∧ s.leases.lookup root = some rootEntry ∧
      s.leases.lookup child = some childEntry ∧ childEntry.parentId = some root ∧
      WithinMission Reference.mission childEntry ∧
      (∀ c, c ∈ childEntry.manifest.permissions.capabilities ↔
        c ∈ childEntry.certificate.grantedAuthority.capabilities) ∧
      WithinLease rootEntry childEntry := by
  let := Reference.externals
  obtain ⟨s, rootEntry, childEntry, h⟩ := Reference.exists_delegated
  obtain ⟨uuid, s₀, hboot, hrun⟩ := h.booted
  obtain ⟨hmission, hpermissions, habove⟩ := leases_are_attenuated Reference.subsetPreorder hboot
    hrun _ _ h.lookup_child
  obtain ⟨above, hlookup, hwithin⟩ := habove _ _ h.child_parent .refl
  obtain rfl := Option.some.inj (h.lookup_root.symm.trans hlookup)
  exact ⟨s₀, s, uuid, _, _, rootEntry, childEntry, hboot, hrun, h.lookup_root, h.lookup_child,
    h.child_parent, hmission,
    hpermissions Reference.jsonTextInjective Reference.capabilitySerializationInjective, hwithin⟩

end

end GenesisRuntime
