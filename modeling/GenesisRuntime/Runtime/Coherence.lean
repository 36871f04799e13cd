/-
  GenesisRuntime.Runtime.Coherence

  One generation of registry and context.  A bootstrap resolves the manifest of the
  root lease and the semantic context from one snapshot of the registry.  A renewal
  reads the registry and the context separately, but it keeps the digest of the
  context and cannot change what the manifest binds; so it only succeeds where both
  reads agree with the bootstrap, whatever was written in between.
-/

import GenesisRuntime.Runtime.Drift
import GenesisRuntime.Runtime.Reference.Runs

namespace GenesisRuntime

open ToolRegistry (SameTools)

section
variable [Externals]

-- ============================================================================
-- Refreshed manifests
-- ============================================================================

namespace ToolRegistry

/-- A snapshot has the tools it was asked for, in their order. -/
theorem snapshot_ids {tools : ToolRegistry} {toolIds : List ToolId} {snapshot : Snapshot}
    (h : tools.snapshot toolIds = .ok snapshot) :
    snapshot.boundTools.map BoundTool.toolId = toolIds := by
  simp only [ToolRegistry.snapshot, Except.bind_eq_ok, Except.pure_eq_ok, Except.mapM_eq_ok,
    orReject_eq_ok] at h
  obtain ⟨resolved, hresolved, bounds, hbounds, root, -, rfl⟩ := h
  show bounds.map BoundTool.toolId = toolIds
  induction hresolved generalizing bounds with
  | nil =>
      cases hbounds
      rfl
  | cons hfind _ ih =>
      cases hbounds with
      | cons hbound hbounds =>
          obtain ⟨digest, -, rfl⟩ := hbound
          rw [List.map_cons, ih _ hbounds, (find_eq_some hfind).2]

/-- A refreshed manifest is the template, but for the digests of the same tools. -/
theorem refresh_eq_ok {tools : ToolRegistry} {template manifest : CapabilityManifest}
    (h : tools.refreshCapabilityManifest template = .ok manifest) :
    manifest = { template with
      approvedTools := manifest.approvedTools
      toolRegistryRootDigest := manifest.toolRegistryRootDigest } ∧
    manifest.approvedTools.map BoundTool.toolId = template.approvedTools.map BoundTool.toolId := by
  unfold refreshCapabilityManifest at h
  split at h
  · rename_i snapshot hsnapshot
    cases h
    exact ⟨rfl, snapshot_ids hsnapshot⟩
  · cases h

end ToolRegistry

/-- A manifest that was refreshed and still attenuates the one it was made of is that
    manifest. -/
theorem refresh_attenuated {tools : ToolRegistry} {template manifest : CapabilityManifest}
    (hnodup : (template.approvedTools.map BoundTool.toolId).Nodup)
    (hrefresh : tools.refreshCapabilityManifest template = .ok manifest)
    (hattenuated : validateManifestAttenuation manifest template = .ok ()) :
    manifest = template := by
  obtain ⟨heq, hids⟩ := ToolRegistry.refresh_eq_ok hrefresh
  obtain ⟨-, -, -, hroot, hsub⟩ := validateManifestAttenuation_eq_ok.mp hattenuated
  have htools : manifest.approvedTools = template.approvedTools :=
    eq_of_map_eq (fun x hx y hy => List.inj_on_of_nodup_map hnodup hx hy) hsub
      (List.Subset.refl _) hids
  rw [heq, htools, hroot]

-- ============================================================================
-- Leases of one manifest
-- ============================================================================

/-- A lease of the agent that binds this manifest and the context with this digest. -/
structure BindsTerms (agentId : AgentId) (manifest : CapabilityManifest) (contextDigest : Digest)
    (entry : LeaseEntry) : Prop where
  agentId_eq : entry.certificate.agentId = agentId
  manifest_eq : entry.manifest = manifest
  manifestDigest_eq : manifest.canonicalDigest = .ok entry.certificate.capabilityManifestDigest
  contextDigest_eq : entry.certificate.semanticContextDigest = contextDigest

/-- Every lease there is binds the same terms. -/
def AllBind (agentId : AgentId) (manifest : CapabilityManifest) (contextDigest : Digest)
    (s : AuthorityState) : Prop :=
  ∀ leaseId entry, s.leases.lookup leaseId = some entry →
    BindsTerms agentId manifest contextDigest entry

/-- Runs of a runtime in which nobody uses a handle of the kernel directly. -/
abbrev ManagedRun (rt : R1Runtime) (init : World) (c : SystemState) : Prop :=
  Run rt.system init FreshIds (fun _ call => ∀ op, call ≠ .kernelOp op) c

variable {rt : R1Runtime} {init : World} {c : SystemState} {agentId : AgentId}
  {manifest : CapabilityManifest} {contextDigest : Digest}

/-- Only calls of `renew` and those of the state of a lease operate on the kernel. -/
theorem kernelOpOf_managed (run : ManagedRun rt init c) {k : Nat} {e : Step}
    (he : c.trace[k]? = some e) {op : KernelOp} (hop : e.op = .kernelOp op) :
    (∀ request custody now, op ≠ .delegate request custody now) ∧
      ∀ request now, op = .renew request now → ∃ (expiresAt : DateTime)
        (renewing : Renewing expiresAt),
        historyOf (c.trace.take k) e.tid = renewing.events ∧ op = renewing.op := by
  obtain ⟨thread, hthread, hbefore⟩ := run.spec_before (code_ops rt) he
  obtain ⟨_, _, _, hmay⟩ := (run.lives hthread).may
  have hbefore := hbefore op hop
  generalize thread.call = call at hbefore hmay
  cases call with
  | kernelOp op' => exact absurd rfl (hmay op')
  | renew expiresAt =>
      obtain ⟨renewing, hhist, rfl⟩ := hbefore
      exact ⟨fun _ _ _ h => (by cases h), fun _ _ _ => ⟨expiresAt, renewing, hhist, rfl⟩⟩
  | pause =>
      obtain ⟨_, _, _, rfl⟩ := hbefore
      exact ⟨fun _ _ _ h => (by cases h), fun _ _ h => (by cases h)⟩
  | resume =>
      obtain ⟨_, _, _, rfl⟩ := hbefore
      exact ⟨fun _ _ _ h => (by cases h), fun _ _ h => (by cases h)⟩
  | revoke reason =>
      obtain ⟨_, _, _, rfl⟩ := hbefore
      exact ⟨fun _ _ _ h => (by cases h), fun _ _ h => (by cases h)⟩
  | refreshExpirations =>
      obtain ⟨_, rfl⟩ := hbefore
      exact ⟨fun _ _ _ h => (by cases h), fun _ _ h => (by cases h)⟩
  | _ => exact hbefore.elim

/-- A renewal of a lease with the terms, asked for with what was read of such a lease. -/
theorem Renewal.bindsTerms {s : AuthorityState} (hall : AllBind agentId manifest contextDigest s)
    (hnodup : (manifest.approvedTools.map BoundTool.toolId).Nodup) {expiresAt : DateTime}
    {renewing : Renewing expiresAt} {now : DateTime} {uuid : String}
    (renewal : Renewal s renewing.request now uuid)
    (hlease : renewing.lease.manifest = manifest) {live : ToolRegistry}
    (hrefresh : live.refreshCapabilityManifest renewing.lease.manifest = .ok renewing.manifest) :
    renewing.manifest = manifest ∧ renewing.contextDigest = contextDigest ∧
      BindsTerms agentId manifest contextDigest renewal.entry := by
  have hold := hall _ _ renewal.old_eq
  obtain ⟨-, hcontext, -, -, -, hattenuated, -⟩ :=
    validateRenewalRequest_eq_ok.mp renewal.request_ok
  rw [hlease] at hrefresh
  rw [hold.manifest_eq] at hattenuated
  have hmanifest : renewing.manifest = manifest :=
    refresh_attenuated hnodup hrefresh hattenuated
  have hdigest : renewing.contextDigest = contextDigest := hcontext.trans hold.contextDigest_eq
  obtain ⟨⟨signature, hcertificate⟩, -⟩ := signedLease_eq_ok renewal.certificate_eq
  refine ⟨hmanifest, hdigest, ?_⟩
  exact
    { agentId_eq := by
        rw [← hold.agentId_eq]
        simp [Renewal.entry, hcertificate, LeaseDraft.certificate, RenewalRequest.draft]
      manifest_eq := hmanifest
      manifestDigest_eq := by
        have hdigest := renewal.manifestDigest_eq
        rw [show renewing.request.capabilityManifest = manifest from hmanifest] at hdigest
        rw [hdigest]
        simp [Renewal.entry, hcertificate, LeaseDraft.certificate, RenewalRequest.draft]
      contextDigest_eq := by
        rw [← hdigest]
        simp [Renewal.entry, hcertificate, LeaseDraft.certificate, RenewalRequest.draft,
          Renewing.request] }

/-- Whatever is called and written, every lease binds the terms of the first. -/
theorem allBind_at (run : ManagedRun rt init c)
    (hinit : AllBind agentId manifest contextDigest init.kernel)
    (hnodup : (manifest.approvedTools.map BoundTool.toolId).Nodup) {i : Nat}
    (hi : i ≤ c.trace.length) :
    AllBind agentId manifest contextDigest (c.worldAt i).kernel := by
  induction i using Nat.strong_induction_on with
  | _ i ih =>
      cases i with
      | zero =>
          rw [run.linked.1]
          exact hinit
      | succ i =>
          obtain ⟨e, he⟩ : ∃ e, c.trace[i]? = some e :=
            ⟨_, List.getElem?_eq_getElem (by omega)⟩
          obtain ⟨hpre, hpost⟩ := run.linked.2 i e he
          have hall := ih i (by omega) (by omega)
          rw [← hpre] at hall
          rw [← hpost, ← post_eq run he]
          by_cases hop : ∃ op, e.op = .kernelOp op
          swap
          · rw [exec_kernel fun op heq => hop ⟨op, heq⟩]
            exact hall
          obtain ⟨op, hop⟩ := hop
          obtain ⟨hdelegate, hrenew⟩ := kernelOpOf_managed run he hop
          rw [hop, exec_kernelOp]
          intro leaseId entry' hid
          rcases op.stored_after hid with ⟨entry, hentry, heq⟩ | ⟨_, _, _, hop', -⟩ |
            ⟨request, now, hop', renewal, rfl⟩
          · have hbinds := hall leaseId entry hentry
            rw [heq]
            exact ⟨hbinds.agentId_eq, hbinds.manifest_eq, hbinds.manifestDigest_eq,
              hbinds.contextDigest_eq⟩
          · exact absurd hop' (hdelegate _ _ _)
          · -- what was read of the lease was read of one with the terms
            obtain ⟨expiresAt, renewing, hhist, heq⟩ := hrenew request now hop'
            rw [hop'] at heq
            cases heq
            obtain ⟨l, r, m, hlr, hrm, hmi, hlookup, -, -, hrefresh, -⟩ :=
              renewing_positions run renewing hhist
            have hlease := (ih l (by omega) (by omega) _ _ hlookup).manifest_eq
            exact (renewal.bindsTerms hall hnodup hlease hrefresh).2.2

-- ============================================================================
-- The terms of a bootstrap
-- ============================================================================

/-- The lease binds the semantic context: its manifest has the model, the registry and the
    tools of the context, and its certificate the digest of the context. -/
structure BindsContext (agentId : AgentId) (context : SemanticContext) (entry : LeaseEntry) :
    Prop where
  agentId_eq : entry.certificate.agentId = agentId
  manifestDigest_eq : entry.manifest.canonicalDigest
    = .ok entry.certificate.capabilityManifestDigest
  model : entry.manifest.modelManifestDigest = context.modelManifestDigest
  root : entry.manifest.toolRegistryRootDigest = context.toolRegistryRootDigest
  tools : ∀ digest, digest ∈ entry.manifest.approvedTools.map BoundTool.toolManifestDigest ↔
    digest ∈ context.boundToolDigests
  contextDigest_eq : context.canonicalDigest = .ok entry.certificate.semanticContextDigest

/-- What a bootstrap has put together: one manifest and one context, both of one snapshot of
    the registry. -/
theorem bootstrapR2_binds {mission : MissionEnvelope} {agentId : AgentId} {spec : AgentSpec}
    {registry : ToolRegistry} {contextVersion : UInt64} {delegable : AuthoritySet}
    {input : BootstrapInput}
    (h : R1Runtime.bootstrapR2 mission agentId spec registry contextVersion delegable input
      = .ok (rt, init)) :
    rt.agentId = agentId ∧ init.registry = registry ∧
    ∃ manifest contextDigest, AllBind agentId manifest contextDigest init.kernel ∧
      (manifest.approvedTools.map BoundTool.toolId).Nodup ∧
      init.semanticContext.canonicalDigest = .ok contextDigest ∧
      manifest.modelManifestDigest = init.semanticContext.modelManifestDigest ∧
      manifest.toolRegistryRootDigest = init.semanticContext.toolRegistryRootDigest ∧
      registry.rootDigest = .ok init.semanticContext.toolRegistryRootDigest ∧
      ∀ digest, digest ∈ manifest.approvedTools.map BoundTool.toolManifestDigest ↔
        digest ∈ init.semanticContext.boundToolDigests := by
  simp only [R1Runtime.bootstrapR2, Except.bind_eq_ok, Except.pure_eq_ok] at h
  obtain ⟨_, -, snapshot, hsnapshot, modelDigest, -, resolver, -, context, hcontext,
    contextDigest, hcontextDigest, config, -, keyId, -, custody, -, granted, -, kernel, hkernel,
    _, -, h⟩ := h
  cases h
  obtain ⟨run, rfl⟩ := bootstrap_eq_ok hkernel
  obtain ⟨-, -, -, hmanifest, -⟩ := validateRootRequest_eq_ok.mp run.request_ok
  obtain ⟨-, -, hnodup⟩ := validateManifest_eq_ok.mp hmanifest
  obtain ⟨⟨signature, hcertificate⟩, -⟩ := signedLease_eq_ok run.certificate_eq
  obtain ⟨-, instruction, instructionDigest, -, -, rfl⟩ :=
    ContextResolver.resolve_eq_ok.mp hcontext
  have hroot := ToolRegistry.snapshot_rootDigest hsnapshot
  refine ⟨rfl, rfl, _, contextDigest, ?_, hnodup, hcontextDigest, rfl, rfl, hroot,
    fun digest => mem_sortDigests.symm⟩
  intro leaseId entry hid
  obtain ⟨-, rfl⟩ := run.eq_entry hid
  exact
    { agentId_eq := by
        simp [Bootstrap.entry, hcertificate, LeaseDraft.certificate, RootLeaseRequest.draft]
      manifest_eq := rfl
      manifestDigest_eq := by
        rw [run.manifestDigest_eq]
        simp [Bootstrap.entry, hcertificate, LeaseDraft.certificate, RootLeaseRequest.draft]
      contextDigest_eq := by
        simp [Bootstrap.entry, hcertificate, LeaseDraft.certificate, RootLeaseRequest.draft] }

/-- A renewal of one generation: the registry it has read holds the tools of the bootstrap,
    and the context it has read says what the context of the bootstrap says, the root digest of
    that registry included. -/
structure OneGeneration (init : World) (registry : ToolRegistry) (context : SemanticContext) :
    Prop where
  sameTools : SameTools init.registry registry
  sameContext : context.material = init.semanticContext.material
  contextDigest_eq : context.canonicalDigest = init.semanticContext.canonicalDigest
  root_eq : registry.rootDigest = .ok context.toolRegistryRootDigest

/-- Every lease a runtime is ever issued binds the context that was resolved at its bootstrap;
    no renewal mixes generations of the registry and of the context, whatever is written
    between its reads. -/
theorem leases_bind_resolved_context (hcollision : CollisionFree) (htext : JsonTextInjective)
    (hhex : HexInjective) {mission : MissionEnvelope} {agentId : AgentId} {spec : AgentSpec}
    {registry : ToolRegistry} {contextVersion : UInt64} {delegable : AuthoritySet}
    {input : BootstrapInput}
    (boot : R1Runtime.bootstrapR2 mission agentId spec registry contextVersion delegable input
      = .ok (rt, init)) (run : ManagedRun rt init c) :
    (∀ i ≤ c.trace.length, ∀ leaseId entry,
      (c.worldAt i).kernel.leases.lookup leaseId = some entry →
      BindsContext rt.agentId init.semanticContext entry) ∧
    ∀ (k : Nat) (e : Step) request now returned, c.trace[k]? = some e →
      e.event = ⟨.kernelOp (.renew request now), .ok returned⟩ →
      ∃ (expiresAt : DateTime) (renewing : Renewing expiresAt) (r m : Nat),
        .renew request now = renewing.op ∧ r < m ∧ m < k ∧
        historyOf (c.trace.take k) e.tid = renewing.events ∧
        (c.worldAt r).registry.refreshCapabilityManifest renewing.lease.manifest
          = .ok renewing.manifest ∧
        (c.worldAt m).semanticContext = renewing.context ∧
        OneGeneration init (c.worldAt r).registry renewing.context := by
  obtain ⟨rfl, hregistry, manifest, contextDigest, hinit, hnodup, hcontext, hmodel, hroot,
    hrootDigest, htools⟩ := bootstrapR2_binds boot
  have hall {i : Nat} (hi : i ≤ c.trace.length) :
      AllBind rt.agentId manifest contextDigest (c.worldAt i).kernel :=
    allBind_at run hinit hnodup hi
  refine ⟨?_, ?_⟩
  · intro i hi leaseId entry hid
    have hbinds := hall hi leaseId entry hid
    obtain rfl := hbinds.manifest_eq
    exact
      { agentId_eq := hbinds.agentId_eq
        manifestDigest_eq := hbinds.manifestDigest_eq
        model := hmodel
        root := hroot
        tools := htools
        contextDigest_eq := by rw [hbinds.contextDigest_eq]; exact hcontext }
  · intro k e request now returned he hev
    have hk := (List.getElem?_eq_some_iff.mp he).1.le
    obtain ⟨expiresAt, renewing, hhist, hop⟩ :=
      (kernelOpOf_managed run he (congrArg Prog.Event.op hev)).2 request now rfl
    cases hop
    obtain ⟨l, r, m, hlr, hrm, hmk, hlookup, -, -, hrefresh, hread⟩ :=
      renewing_positions run renewing hhist
    obtain ⟨s', hexec⟩ := kernelOp_eq_ok (resp_eq run he hev)
    obtain ⟨id, hrenew, -⟩ := map_eq_ok.mp hexec
    obtain ⟨renewal, -, -⟩ := renew_eq_ok hrenew
    obtain ⟨hmanifest, hdigest, -⟩ := renewal.bindsTerms (hall hk) hnodup
      (hall (by omega) _ _ hlookup).manifest_eq hrefresh
    have hlive := ToolRegistry.refresh_root hrefresh
    have hcontext' := renewing.context_eq
    rw [hdigest] at hcontext'
    have hmaterial := material_of_canonicalDigest hcollision htext hhex hcontext' hcontext
    have hsameRoot := congrArg SemanticContext.toolRegistryRootDigest hmaterial
    refine ⟨expiresAt, renewing, r, m, rfl, hrm, hmk, hhist, hrefresh, hread, ?_, hmaterial, ?_, ?_⟩
    · rw [hmanifest, hroot] at hlive
      rw [hregistry]
      exact ToolRegistry.sameTools_of_rootDigest hcollision htext hhex hrootDigest hlive
    · rw [hcontext', hcontext]
    · rw [hlive, hmanifest, hroot]
      exact congrArg Except.ok hsameRoot.symm

omit [Externals] in
/-- The reference runtime renews its lease: the first lease and the renewed one bind the
    context of the bootstrap, and the renewal is of one generation. -/
theorem leases_bind_resolved_context_reference : letI := Reference.externals
    ∃ (rt : R1Runtime) (init : World) (c : SystemState), ManagedRun rt init c ∧
      (∀ i ≤ c.trace.length, ∀ leaseId entry,
        (c.worldAt i).kernel.leases.lookup leaseId = some entry →
        BindsContext rt.agentId init.semanticContext entry) ∧
      ∃ (k : Nat) (e : Step) (request : RenewalRequest) (now : DateTime)
        (returned : KernelReturn), c.trace[k]? = some e ∧
        e.event = ⟨.kernelOp (.renew request now), .ok returned⟩ ∧
        ∃ (expiresAt : DateTime) (renewing : Renewing expiresAt) (r m : Nat),
          .renew request now = renewing.op ∧ r < m ∧ m < k ∧
          historyOf (c.trace.take k) e.tid = renewing.events ∧
          (c.worldAt r).registry.refreshCapabilityManifest renewing.lease.manifest
            = .ok renewing.manifest ∧
          (c.worldAt m).semanticContext = renewing.context ∧
          OneGeneration init (c.worldAt r).registry renewing.context := by
  let := Reference.externals
  obtain ⟨rt, w, tool, ⟨act⟩⟩ := Reference.exists_activated
  have run₀ : ManagedRun rt w ⟨w, [], []⟩ := .start
  obtain ⟨c, value, returned, run, -, hmem⟩ := act.exists_renewed act.allows_freshIds run₀
    (fun _ h => by cases h) (.refl w)
  obtain ⟨k, e, -, he, -, hev⟩ := exists_of_mem_historyOf hmem
  obtain ⟨hbinds, hrenewals⟩ := leases_bind_resolved_context Reference.collisionFree
    Reference.jsonTextInjective Reference.hexInjective act.boot run
  exact ⟨rt, w, c, run, hbinds, k, e, _, _, returned, he, hev, hrenewals k e _ _ _ he hev⟩

end

end GenesisRuntime
