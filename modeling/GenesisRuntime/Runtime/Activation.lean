/-
  GenesisRuntime.Runtime.Activation

  When a runtime comes to be.  `bootstrap_r2` makes its own checks of the mission and
  the specification and then asks the kernel for a root lease, which checks the request
  again; the kernel refuses nothing that has been put together after those checks, but
  for a delegable authority that exceeds the requested one.
-/

import GenesisRuntime.Kernel.Exactness
import GenesisRuntime.Runtime.Coherence
import GenesisRuntime.Runtime.Reference

namespace GenesisRuntime

theorem nodup_of_firstRepeated {α : Type} [DecidableEq α] {xs seen : List α}
    (h : firstRepeated seen xs = none) : xs.Nodup ∧ ∀ x ∈ xs, x ∉ seen := by
  induction xs generalizing seen with
  | nil => simp
  | cons x xs ih =>
      rw [firstRepeated] at h
      split at h
      · cases h
      · rename_i hseen
        obtain ⟨hnodup, hnew⟩ := ih h
        refine ⟨List.nodup_cons.mpr ⟨fun hmem => hnew x hmem List.mem_cons_self, hnodup⟩, ?_⟩
        intro y hy
        rcases List.mem_cons.mp hy with rfl | hy
        · exact hseen
        · exact fun hmem => hnew y hy (List.mem_cons_of_mem _ hmem)

section
variable [Externals] {mission : MissionEnvelope} {spec : AgentSpec} {now : DateTime}

-- ============================================================================
-- The checks before the kernel is asked
-- ============================================================================

theorem AgentSpec.nodup_requestedTools (h : spec.validate = .ok ()) :
    spec.requestedTools.Nodup := by
  simp only [AgentSpec.validate, Except.bind_eq_ok, rejectIf_eq_ok] at h
  obtain ⟨_, -, h⟩ := h
  cases hrepeated : firstRepeated [] spec.requestedTools with
  | none => exact (nodup_of_firstRepeated hrepeated).1
  | some toolId =>
      rw [hrepeated] at h
      cases h

/-- What the checks of an activation establish for the kernel. -/
structure Activated (mission : MissionEnvelope) (spec : AgentSpec) (now : DateTime)
    (granted : AuthoritySet) : Prop where
  requestedTools : spec.requestedTools.Nodup
  active : mission.active = true
  lasts : now < mission.expiresAt
  maxActions : 0 < mission.maxActions
  granted_eq : AuthoritySet.new spec.requestedAuthority.capabilities = .ok granted
  within : authorityIsSubsetOfCapabilities granted mission.allowedCapabilities = true
  tools : ∀ toolId ∈ spec.requestedTools, toolId ∈ mission.allowedTools

theorem exists_activated (h : checkActivation mission spec now = .ok ()) :
    ∃ granted, Activated mission spec now granted := by
  simp only [checkActivation, Except.bind_eq_ok, rejectIf_eq_ok, Except.exists_unit, not_or,
    not_not, not_exists, not_and, not_le] at h
  obtain ⟨hspec, ⟨hactive, hlasts⟩, ⟨hactions, -⟩, -, missionAuthority, hmission, granted, hgranted,
    hsubset, htools⟩ := h
  refine ⟨granted, AgentSpec.nodup_requestedTools hspec, hactive, hlasts, ?_, hgranted, ?_, htools⟩
  · exact UInt64.pos_iff_ne_zero.mpr hactions
  · refine authorityIsSubsetOfCapabilities_iff.mpr fun c hc => ?_
    have hcovered : missionAuthority.covers c = true := List.all_eq_true.mp hsubset c hc
    obtain ⟨above, habove, hle⟩ := List.any_eq_true.mp hcovered
    exact ⟨above, canonicalCapabilities_subset (AuthoritySet.new_eq_ok hmission).2 habove, hle⟩

-- ============================================================================
-- Activation
-- ============================================================================

/-- What the caller of `bootstrap_r2`, and its environment, answer for. -/
structure MayActivate (mission : MissionEnvelope) (spec : AgentSpec) (registry : ToolRegistry)
    (delegable : AuthoritySet) (input : BootstrapInput) : Prop where
  activation : checkActivation mission spec input.now = .ok ()
  generations : AsksForNoGenerations spec
  tools : ∃ snapshot, registry.snapshot spec.requestedTools = .ok snapshot
  model : ∃ digest, input.modelManifestDigest spec.requestedModel = .ok digest
  key : ∃ keyId custody, Identifier.new _ ("key-" ++ input.keyUuid) = .ok keyId ∧
    input.generateKey keyId = .ok custody
  delegable : ∀ granted, AuthoritySet.new spec.requestedAuthority.capabilities = .ok granted →
    authorityIsSubsetOf delegable granted = true
  leaseId : ∃ id, newLeaseId input.leaseUuid = .ok id
  hypervisor : input.hypervisorFails = false

/-- The time until which the root lease of a runtime is valid. -/
def leaseExpiry (mission : MissionEnvelope) (now : DateTime) : DateTime :=
  min mission.expiresAt (now + Duration.minutes 5)

variable {granted delegable : AuthoritySet} {snapshot : ToolRegistry.Snapshot}
  {registry : ToolRegistry}

/-- The kernel refuses nothing that has been put together after the checks. -/
theorem Activated.mayBootstrap (h : Activated mission spec now granted)
    (hsnapshot : registry.snapshot spec.requestedTools = .ok snapshot)
    (hdelegable : authorityIsSubsetOf delegable granted = true) {uuid : String}
    (hid : ∃ id, newLeaseId uuid = .ok id) {request : RootLeaseRequest}
    (hmission : request.mission = mission) (hgranted : request.grantedAuthority = granted)
    (hdelegated : request.delegableAuthority = delegable)
    (hversion : request.capabilityManifest.version = 1)
    (htools : request.capabilityManifest.approvedTools = snapshot.boundTools)
    (hpermissions : request.capabilityManifest.permissions.capabilities
      = spec.requestedAuthority.capabilities)
    (hexpires : request.expiresAt = leaseExpiry mission now) : MayBootstrap request now uuid where
  active := hmission ▸ h.active
  maxActions := hmission ▸ h.maxActions
  lasts := by
    have hlater : now < now + Duration.minutes 5 := by
      rw [DateTime.lt_def, DateTime.add_nanos]
      exact Int.lt_add_of_pos_right _ (by decide)
    rw [hexpires]
    exact lt_min h.lasts hlater
  expires := by
    rw [hexpires, hmission]
    exact min_le_left _ _
  delegable := by rwa [hgranted, hdelegated]
  granted := by
    rw [hgranted, hmission]
    exact h.within
  version := hversion
  permissions := by
    rw [hpermissions, hgranted]
    exact (AuthoritySet.new_eq_ok h.granted_eq).2
  toolIds := by
    rw [htools, ToolRegistry.snapshot_ids hsnapshot]
    exact h.requestedTools
  tools := by
    intro bound hbound
    rw [htools] at hbound
    rw [hmission]
    refine h.tools _ ?_
    rw [← ToolRegistry.snapshot_ids hsnapshot]
    exact List.mem_map.mpr ⟨bound, hbound, rfl⟩
  leaseId := hid

variable {agentId : AgentId} {contextVersion : UInt64} {input : BootstrapInput}

/-- Where nothing is missing, every step of the bootstrap succeeds. -/
theorem MayActivate.activates (hkey : VerifyingKeyRoundTrip)
    (hsigns : ∀ keyId custody, input.generateKey keyId = .ok custody → custody.Signs)
    (h : MayActivate mission spec registry delegable input) :
    ∃ rt w, R1Runtime.bootstrapR2 mission agentId spec registry contextVersion delegable input
      = .ok (rt, w) := by
  obtain ⟨granted, hactivated⟩ := exists_activated h.activation
  obtain ⟨snapshot, hsnapshot⟩ := h.tools
  obtain ⟨modelDigest, hmodel⟩ := h.model
  obtain ⟨keyId, custody, hkeyId, hcustody⟩ := h.key
  obtain ⟨schemaDigest, hschema⟩ := exists_schemaDigest
  have hresolver : ContextResolver.forR1 modelDigest mission.policyEpoch contextVersion
      = .ok ⟨modelDigest, schemaDigest, mission.policyEpoch, contextVersion⟩ := by
    simp only [ContextResolver.forR1, Except.bind_eq_ok, Except.pure_eq_ok]
    exact ⟨schemaDigest, hschema, rfl⟩
  obtain ⟨context, hcontext⟩ := ContextResolver.exists_resolve h.generations
    ⟨modelDigest, schemaDigest, mission.policyEpoch, contextVersion⟩ snapshot
  obtain ⟨contextDigest, hcontextDigest⟩ := context.exists_canonicalDigest
  obtain ⟨config, hconfig⟩ : ∃ digest, canonicalDigest "aeon-r1-runtime-config-v1"
      (mission.maxActions, spec.resourceBudget.maxSteps) = .ok digest :=
    exists_canonicalDigest ⟨by decide, by decide⟩ _
  let request : RootLeaseRequest :=
    { mission := mission
      agentId := agentId
      grantedAuthority := granted
      delegableAuthority := delegable
      capabilityManifest :=
        { version := 1
          modelManifestDigest := context.modelManifestDigest
          approvedTools := snapshot.boundTools
          permissions := ⟨spec.requestedAuthority.capabilities⟩
          runtimeConfigDigest := config
          toolRegistryRootDigest := context.toolRegistryRootDigest }
      semanticContextDigest := contextDigest
      expiresAt := leaseExpiry mission input.now }
  have hmay : MayBootstrap request input.now input.leaseUuid :=
    hactivated.mayBootstrap hsnapshot (h.delegable _ hactivated.granted_eq) h.leaseId rfl rfl rfl
      rfl rfl rfl rfl
  obtain ⟨kernel, hkernel⟩ := (bootstrap_exists_iff hkey (hsigns _ _ hcustody)).mpr hmay
  have hok : ∃ result, R1Runtime.bootstrapR2 mission agentId spec registry contextVersion
      delegable input = .ok result := by
    simp only [R1Runtime.bootstrapR2, Except.bind_eq_ok, Except.pure_eq_ok]
    exact ⟨_, (), h.activation, snapshot, hsnapshot, modelDigest, hmodel, _, hresolver, context,
      hcontext, contextDigest, hcontextDigest, config, hconfig, keyId, hkeyId, custody, hcustody,
      granted, hactivated.granted_eq, kernel, hkernel, (),
      rejectIf_eq_ok.mpr (by simp [h.hypervisor]), rfl⟩
  obtain ⟨⟨rt, w⟩, hresult⟩ := hok
  exact ⟨rt, w, hresult⟩

/-- And nothing has been missing where it succeeded. -/
theorem mayActivate_of_ok {rt : R1Runtime} {w : World}
    (h : R1Runtime.bootstrapR2 mission agentId spec registry contextVersion delegable input
      = .ok (rt, w)) : MayActivate mission spec registry delegable input := by
  simp only [R1Runtime.bootstrapR2, Except.bind_eq_ok, Except.pure_eq_ok] at h
  obtain ⟨_, hactivation, snapshot, hsnapshot, modelDigest, hmodel, resolver, -, context,
    hcontext, contextDigest, -, config, -, keyId, hkeyId, custody, hcustody, granted, hgranted,
    kernel, hkernel, _, hhypervisor, -⟩ := h
  obtain ⟨run, -⟩ := bootstrap_eq_ok hkernel
  have hmay := mayBootstrap_iff.mpr ⟨run.request_ok, _, run.leaseId_eq⟩
  refine ⟨hactivation, (ContextResolver.resolve_eq_ok.mp hcontext).1, ⟨_, hsnapshot⟩,
    ⟨_, hmodel⟩, ⟨_, _, hkeyId, hcustody⟩, fun granted' hgranted' => ?_, hmay.leaseId,
    by simpa using rejectIf_eq_ok.mp hhypervisor⟩
  cases hgranted.symm.trans hgranted'
  exact hmay.delegable

/-- A runtime comes to be exactly where its caller and its environment have answered for what
    they have to; and from then on its root lease is valid under a manifest, until the mission
    expires or five minutes have passed. -/
theorem activation_is_exact (hsub : SubsetPreorder) (hkey : VerifyingKeyRoundTrip)
    (mission : MissionEnvelope) (agentId : AgentId) (spec : AgentSpec) (registry : ToolRegistry)
    (contextVersion : UInt64) (delegable : AuthoritySet) (input : BootstrapInput)
    (hsigns : ∀ keyId custody, input.generateKey keyId = .ok custody → custody.Signs) :
    ((∃ rt w, R1Runtime.bootstrapR2 mission agentId spec registry contextVersion delegable input
        = .ok (rt, w)) ↔ MayActivate mission spec registry delegable input) ∧
    ∀ rt w, R1Runtime.bootstrapR2 mission agentId spec registry contextVersion delegable input
        = .ok (rt, w) → ∃ manifest, ∀ later,
      (∃ v, validateChain w.kernel w.kernel.rootLeaseId (some 0) manifest later = .ok v) ↔
        later < leaseExpiry mission input.now := by
  refine ⟨⟨fun ⟨rt, w, h⟩ => mayActivate_of_ok h, fun h => h.activates hkey hsigns⟩, ?_⟩
  intro rt w h
  simp only [R1Runtime.bootstrapR2, Except.bind_eq_ok, Except.pure_eq_ok] at h
  obtain ⟨_, -, snapshot, -, modelDigest, -, resolver, -, context, -, contextDigest, -, config, -,
    keyId, -, custody, hcustody, granted, -, kernel, hkernel, _, -, h⟩ := h
  cases h
  exact ⟨_, root_valid_until hsub hkey hkernel⟩

omit [Externals] in
/-- The runtime of the reference, which has one tool. -/
theorem activation_is_exact_reference : letI := Reference.externals
    ∃ (tool : RegisteredTool) (rt : R1Runtime) (w : World),
      R1Runtime.bootstrapR2 Reference.mission Reference.agentId Reference.spec [tool] 1
        Reference.authority Reference.bootstrapInput = .ok (rt, w) ∧
      MayActivate Reference.mission Reference.spec [tool] Reference.authority
        Reference.bootstrapInput ∧
      ∃ manifest, ∀ later,
        (∃ v, validateChain w.kernel w.kernel.rootLeaseId (some 0) manifest later = .ok v) ↔
          later < leaseExpiry Reference.mission Reference.start := by
  let := Reference.externals
  have hsigns : ∀ keyId custody, Reference.bootstrapInput.generateKey keyId = .ok custody →
      custody.Signs := by
    intro keyId custody h payload
    cases h
    exact ⟨_, rfl, Reference.length_checksum _ _, by simp [Externals.verifies]; rfl⟩
  obtain ⟨rt, w, tool, ⟨act⟩⟩ := Reference.exists_activated
  obtain ⟨hexact, hvalid⟩ := activation_is_exact Reference.subsetPreorder
    Reference.verifyingKeyRoundTrip Reference.mission Reference.agentId Reference.spec [tool] 1
    Reference.authority Reference.bootstrapInput hsigns
  exact ⟨tool, rt, w, act.boot, hexact.mp ⟨rt, w, act.boot⟩, hvalid rt w act.boot⟩

end

end GenesisRuntime
