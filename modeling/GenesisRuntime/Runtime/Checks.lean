/-
  GenesisRuntime.Runtime.Checks

  The checks the gate and the port make, each read back as what it takes for it to
  pass, and the steps of an execution that can only fail for what the environment
  does.  What the gate has authorized passes the checks of the port as long as the
  chain, the context and the clock are as the gate has found them.
-/

import GenesisRuntime.Kernel.Exactness
import GenesisRuntime.Runtime.Specs
import GenesisRuntime.Store.Ledger
import GenesisRuntime.ToolRegistry.Generation

namespace GenesisRuntime

-- ============================================================================
-- The time that is left
-- ============================================================================

/-- There is time left before either expires, and tokens are valid for that time, or for
    thirty seconds. -/
theorem remainingValidity_eq_ok {leafExpiresAt certificateExpiresAt issueNow : DateTime}
    {validity : Duration} :
    remainingValidity leafExpiresAt certificateExpiresAt issueNow = .ok validity ↔
      issueNow < min leafExpiresAt certificateExpiresAt ∧
        validity = min tokenValidity (min leafExpiresAt certificateExpiresAt - issueNow) := by
  have hthirty : tokenValidity.nanos = 30000000000 := rfl
  simp only [remainingValidity, Except.bind_eq_ok, rejectIf_eq_ok, Except.exists_unit,
    Except.pure_eq_ok, Duration.min_nanos, DateTime.sub_nanos, hthirty, DateTime.lt_def]
  constructor
  · rintro ⟨hleft, hnonzero, rfl⟩
    exact ⟨by omega, rfl⟩
  · rintro ⟨hleft, rfl⟩
    exact ⟨by omega, by omega, rfl⟩

section
variable [Externals]

-- ============================================================================
-- The gate
-- ============================================================================

theorem resolve_eq_ok {tools : ToolRegistry} {toolId : ToolId}
    {template manifest : CapabilityManifest} {tool : RegisteredTool}
    (h : tools.resolveWithCapabilityManifest toolId template = .ok (tool, manifest)) :
    tools.find toolId = some tool ∧ tools.refreshCapabilityManifest template = .ok manifest := by
  simp only [ToolRegistry.resolveWithCapabilityManifest, Except.bind_eq_ok, orReject_eq_ok,
    Except.pure_eq_ok] at h
  obtain ⟨selected, hfind, refreshed, hrefreshed, heq⟩ := h
  cases heq
  exact ⟨hfind, hrefreshed⟩

/-- With the manifest that came of it, a tool is resolved as before. -/
theorem resolve_again {tools : ToolRegistry} {toolId : ToolId}
    {template manifest : CapabilityManifest} {tool : RegisteredTool}
    (h : tools.resolveWithCapabilityManifest toolId template = .ok (tool, manifest)) :
    tools.resolveWithCapabilityManifest toolId manifest = .ok (tool, manifest) := by
  obtain ⟨hfind, hrefresh⟩ := resolve_eq_ok h
  simp only [ToolRegistry.resolveWithCapabilityManifest, Except.bind_eq_ok, orReject_eq_ok,
    Except.pure_eq_ok]
  exact ⟨_, hfind, _, (ToolRegistry.binds_of_refresh hrefresh).refresh, rfl⟩

theorem checkTool_eq_ok {request : AuthorizeRequest} {snapshot : LeaseSnapshot}
    {tool : RegisteredTool} (h : request.checkTool snapshot tool = .ok ()) :
    tool.validateInput request.arguments = .ok () ∧
      capabilityAll ∉ tool.manifest.requiredCapabilities ∧
      ∀ capability ∈ tool.manifest.requiredCapabilities,
        (∃ allowed ∈ request.mission.allowedCapabilities, isSubsetOf capability allowed = true) ∧
        snapshot.certificate.grantedAuthority.covers capability = true := by
  simp only [AuthorizeRequest.checkTool, Except.bind_eq_ok, rejectIf_eq_ok] at h
  obtain ⟨_, hinput, _, hall, mission, hmission, hcovered⟩ := h
  refine ⟨hinput, hall, fun capability hcapability => ?_⟩
  have hcovers : mission.covers capability = true ∧
      snapshot.certificate.grantedAuthority.covers capability = true := by
    by_contra hnot
    rw [not_and_or] at hnot
    exact hcovered ⟨capability, hcapability, hnot⟩
  obtain ⟨allowed, hallowed, hsubset⟩ := List.any_eq_true.mp hcovers.1
  have hin := canonicalCapabilities_subset (AuthoritySet.new_eq_ok hmission).2 hallowed
  exact ⟨⟨allowed, hin, hsubset⟩, hcovers.2⟩

/-- The certificate of an authorized action carries what the custody object has made of its
    payload. -/
def SignedBy (keyCustody : KeyCustody) (certificate : ActionCertificate) : Prop :=
  ∃ payload, certificate.signingPayload = .ok payload ∧
    keyCustody.sign payload = .ok certificate.signature

-- ============================================================================
-- The port
-- ============================================================================

theorem checkAuthority_eq_ok {authorized : AuthorizedExecution}
    {liveManifest : CapabilityManifest} {validated : ValidatedAuthority} :
    authorized.checkAuthority liveManifest validated = .ok () ↔
      validated.observedGenerations = authorized.observedGenerations ∧
      validated.agentIdentityDigest = authorized.certificate.agentIdentityDigest ∧
      validated.semanticContextDigest = authorized.certificate.semanticContextDigest ∧
      liveManifest.canonicalDigest = .ok validated.capabilityManifestDigest := by
  simp only [AuthorizedExecution.checkAuthority, Except.bind_eq_ok, rejectIf_eq_ok,
    Except.exists_unit, not_or, not_not]
  constructor
  · rintro ⟨⟨hgen, hid, hcontext⟩, digest, hdigest, rfl⟩
    exact ⟨hgen, hid, hcontext, hdigest⟩
  · rintro ⟨hgen, hid, hcontext, hdigest⟩
    exact ⟨⟨hgen, hid, hcontext⟩, _, hdigest, rfl⟩

theorem validateActionCertificate_eq_ok {certificate : ActionCertificate}
    {authorized : AuthorizedExecution} {keyCustody : KeyCustody} {now : DateTime} :
    validateActionCertificate certificate authorized keyCustody now = .ok () ↔
      now < certificate.expiresAt ∧ certificate.toolId = authorized.toolId ∧
      certificate.toolManifestDigest = authorized.toolManifestDigest ∧
      canonicalDigest "aeon-concrete-input-v1" authorized.arguments
        = .ok certificate.concreteInputDigest ∧
      certificate.signature.bytes.length = 64 ∧
      ∃ payload, certificate.signingPayload = .ok payload ∧
        Externals.verifies keyCustody.verifyingKey payload certificate.signature.bytes = true := by
  simp only [validateActionCertificate, Except.bind_eq_ok, rejectIf_eq_ok, Except.exists_unit,
    not_or, not_not, ge_iff_le, not_le]
  constructor
  · rintro ⟨⟨hnow, htool, hmanifest⟩, digest, hdigest, rfl, hlength, payload, hpayload, hverifies⟩
    exact ⟨hnow, htool, hmanifest, hdigest, hlength, payload, hpayload, hverifies⟩
  · rintro ⟨hnow, htool, hmanifest, hdigest, hlength, payload, hpayload, hverifies⟩
    exact ⟨⟨hnow, htool, hmanifest⟩, _, hdigest, rfl, hlength, payload, hpayload, hverifies⟩

/-- A lease that passes carries the digest of its manifest. -/
theorem manifestDigest_of_certified {s : AuthorityState} {entry : LeaseEntry}
    {cache cache' : List AgentId} (h : validateCertificateEntry s entry cache = .ok () cache') :
    entry.manifest.canonicalDigest = .ok entry.certificate.capabilityManifestDigest := by
  simp only [validateCertificateEntry, orReject_eq_ofResult, rejectIf_eq_ofResult,
    ofResult_bind_eq_ok, rejectIf_eq_ok, Except.exists_unit, not_not] at h
  obtain ⟨-, digest, hdigest, rfl, -⟩ := h
  exact hdigest

namespace Authorization

variable {request : AuthorizeRequest} (run : Authorization request) {s : AuthorityState}
  {now : DateTime}

/-- The action carries the generation of its leaf. -/
theorem leafGeneration_eq (hvalid : validateChain s request.leaseId
      (some run.snapshot.record.generation) run.liveManifest now = .ok run.validated) :
    run.execution.leafGeneration = some run.snapshot.record.generation := by
  obtain ⟨leaf, path, hchain⟩ := validateChain_sound hvalid
  have hgenerations : run.execution.observedGenerations
      = path.reverse.map fun node => (node.1, node.2.record.generation) := hchain.generations_eq
  have hgeneration := hchain.generation_eq rfl
  rw [AuthorizedExecution.leafGeneration, hgenerations]
  cases hfind : (path.reverse.map fun node => (node.1, node.2.record.generation)).find?
      fun observed => observed.1 = run.execution.certificate.authorityLeaseId with
  | none =>
      have hnone := List.find?_eq_none.mp hfind (request.leaseId, leaf.record.generation)
        (List.mem_map.mpr ⟨_, List.mem_reverse.mpr hchain.leaf_mem, rfl⟩)
      exact absurd (decide_eq_true rfl) hnone
  | some observed =>
      -- the keys of the path are those of the store
      obtain ⟨node, hnode, rfl⟩ := List.mem_map.mp (List.mem_of_find?_eq_some hfind)
      have hfound := List.find?_some hfind
      have hid : node.1 = request.leaseId := of_decide_eq_true hfound
      have hlookup := hchain.isPath.find_of_mem (List.mem_reverse.mp hnode)
      rw [hid, hchain.entry_eq] at hlookup
      rw [Option.map_some, ← Option.some.inj hlookup, hgeneration]

/-- The live manifest has the digest of the manifest of the lease. -/
theorem checkAuthority_ok (hvalid : validateChain s request.leaseId
      (some run.snapshot.record.generation) run.liveManifest now = .ok run.validated) :
    run.execution.checkAuthority run.liveManifest run.validated = .ok () := by
  obtain ⟨leaf, path, hchain⟩ := validateChain_sound hvalid
  obtain ⟨digest, hleaf, hlive⟩ := hchain.manifest_eq
  obtain ⟨cache, cache', hcertified⟩ := (hchain.checked _ hchain.leaf_mem).certified
  rw [manifestDigest_of_certified hcertified] at hleaf
  refine checkAuthority_eq_ok.mpr ⟨rfl, rfl, rfl, ?_⟩
  rw [hchain.manifestDigest_eq, Except.ok.inj hleaf]
  exact hlive

/-- The certificate is one the port accepts, until it expires. -/
theorem certificate_ok (hsigns : request.keyCustody.Signs)
    (hsigned : SignedBy request.keyCustody run.certificate)
    (hnow : now < run.certificate.expiresAt) :
    validateActionCertificate run.execution.certificate run.execution request.keyCustody now
      = .ok () := by
  obtain ⟨payload, hpayload, hsignature⟩ := hsigned
  obtain ⟨signature, hsign, hlength, hverifies⟩ := hsigns payload
  obtain rfl : signature = run.certificate.signature :=
    Except.ok.inj (hsign.symm.trans hsignature)
  exact validateActionCertificate_eq_ok.mpr ⟨hnow, rfl, rfl, run.inputDigest_eq, hlength, payload,
    hpayload, hverifies⟩

end Authorization

-- ============================================================================
-- A consumption that can succeed
-- ============================================================================

/-- Where Nexus is there and issues every token, all are issued. -/
theorem issueTokens_eq_ok {input : Input} {capabilities : List Capability}
    (hup : input.hypervisorFails = false)
    (hissued : ∀ i < capabilities.length, input.tokenFails i = false) (validity : Duration)
    (tokens : List CapabilityToken) :
    ∃ issued, finalValue (World.issueTokens input capabilities validity tokens) = .ok issued ∧
      issued.map CapabilityToken.capability = capabilities := by
  have hstep : ∀ pair ∈ capabilities.zipIdx, ∀ tokens, ∃ token tokens',
      (do
        rejectIf (input.tokenFails pair.2) .executionFailed "Nexus token issuance failed"
        let token : CapabilityToken := ⟨pair.1, "aeon-r2", validity⟩
        modify (· ++ [token])
        return token : EStateM RuntimeError (List CapabilityToken) CapabilityToken) tokens
        = .ok token tokens' ∧ token.capability = pair.1 := by
    intro pair hpair tokens
    have hlt : pair.2 < capabilities.length := List.snd_lt_of_mem_zipIdx hpair
    rw [rejectIf, if_neg (by simp [hissued _ hlt])]
    exact ⟨_, _, rfl, rfl⟩
  obtain ⟨issued, tokens', h, hcapabilities⟩ := EStateM.exists_mapM_map_eq_ok hstep tokens
  rw [List.zipIdx_map_fst] at hcapabilities
  refine ⟨issued, finalValue_eq_ok.mpr ⟨tokens', ?_⟩, hcapabilities⟩
  unfold World.issueTokens
  rw [rejectIf, if_neg (by simp [hup])]
  exact h

/-- A consumption of a record that is available fails in Nexus only. -/
theorem consume_eq_ok {recordId : AuthorizationId} {generation : UInt64}
    {capabilities : List Capability} (validity : Duration) {input : Input} {w : World}
    (havailable : ∃ record, w.store.authorizationRecords.find? (fun r => r.recordId = recordId)
      = some record ∧ InMemoryMissionStore.Available record generation)
    (hup : input.hypervisorFails = false)
    (hissued : ∀ i < capabilities.length, input.tokenFails i = false) :
    ∃ tokens, (w.consume recordId generation capabilities validity input).1 = .ok tokens ∧
      tokens.map CapabilityToken.capability = capabilities := by
  obtain ⟨issued, hvalue, hcapabilities⟩ := issueTokens_eq_ok hup hissued validity w.tokens
  refine ⟨issued, ?_, hcapabilities⟩
  have hconsume : InMemoryMissionStore.consumeAuthorizationWith recordId generation
      (finalValue (World.issueTokens input capabilities validity w.tokens)) w.store
      = .ok issued (w.store.consumed recordId) :=
    InMemoryMissionStore.consumeAuthorizationWith_eq_ok.mpr ⟨havailable, hvalue, rfl⟩
  have hstore {w' : World} (h : w'.store = w.store) :
      (w'.onStore (InMemoryMissionStore.consumeAuthorizationWith recordId generation
        (finalValue (World.issueTokens input capabilities validity w.tokens)))).1 = .ok issued := by
    rw [World.onStore, h, hconsume]
  refine hstore ?_
  split <;> rfl

end

end GenesisRuntime
