/-
  GenesisRuntime.Runtime.Reference

  A runtime over the reference components: an agent with one tool, bootstrapped at
  the start of the reference mission.  A turn of it can call the tool, and can end
  with a final message; a revocation in between takes both away.
-/

import GenesisRuntime.Context.Continuation
import GenesisRuntime.Protocol.Wire
import GenesisRuntime.Reference
import GenesisRuntime.Runtime.Feasible
import GenesisRuntime.Runtime.Renewals

namespace GenesisRuntime

open Prog (Can)

namespace Reference

local instance : Externals := externals

-- ============================================================================
-- A tool
-- ============================================================================

instance : Serializes ToolManifest where
  exists_toValue manifest := exists_structValue (by simp [Serializes.exists_toValue])

theorem capabilityRoundTrip : CapabilityRoundTrip := by
  intro capability text h
  cases h
  cases capability <;> decide

theorem sortCapabilities_fileRead :
    sortCapabilities [Capability.fileRead] = .ok [Capability.fileRead] := by
  simp only [sortCapabilities, Except.bind_eq_ok, Except.pure_eq_ok]
  refine ⟨[Json.compact (.string "FileRead")], Except.mapM_eq_ok.mpr (.cons rfl .nil), ?_⟩
  rw [sortByKey_of_pairwise (List.pairwise_singleton _ _)]
  exact ⟨[Capability.fileRead], Except.mapM_eq_ok.mpr (.cons rfl .nil), rfl⟩

/-- A tool that reads files and takes any arguments. -/
structure IsReader (toolId : ToolId) (wasmBytes : List UInt8) (tool : RegisteredTool)
    (digest : Digest) : Prop where
  made : RegisteredTool.new toolId wasmBytes "run" (.object []) [Capability.fileRead] .readOnly none
    = .ok tool
  toolId_eq : tool.manifest.toolId = toolId
  capabilities_eq : tool.manifest.requiredCapabilities = [Capability.fileRead]
  effect_eq : tool.manifest.effectClass = .readOnly
  schema_eq : tool.inputSchema = .object []
  digest_eq : tool.manifestDigest = .ok digest

theorem exists_tool (toolId : ToolId) {wasmBytes : List UInt8} (hwasm : wasmBytes.isEmpty = false) :
    ∃ tool digest, IsReader toolId wasmBytes tool digest := by
  obtain ⟨schemaDigest, hschema⟩ : ∃ digest,
      canonicalDigest "aeon-tool-input-schema-v1" (Json.object []) = .ok digest :=
    exists_canonicalDigest ⟨by decide, by decide⟩ _
  let manifest : ToolManifest :=
    { version := 1
      toolId := toolId
      wasmSha256 := hexText wasmBytes
      entryPoint := "run"
      inputSchemaDigest := schemaDigest
      requiredCapabilities := [Capability.fileRead]
      effectClass := .readOnly
      outputSchemaDigest := none }
  have hmade : ToolManifest.new 1 toolId wasmBytes "run" (.object []) [Capability.fileRead]
      .readOnly none = .ok manifest := by
    have hpresent : ¬ ((1 : UInt64) = 0 ∨ wasmBytes.isEmpty = true ∨ trimIsEmpty "run" = true) := by
      rw [hwasm]
      decide
    simp only [ToolManifest.new, Except.bind_eq_ok, Except.pure_eq_ok]
    refine ⟨(), rejectIf_eq_ok.mpr hpresent, (), ?_, (), rfl, _, sortCapabilities_fileRead,
      schemaDigest, hschema, none, rfl, rfl⟩
    simp [validateSchemaDefinition]
    rfl
  obtain ⟨digest, hdigest⟩ : ∃ digest,
      canonicalDigest "aeon-tool-manifest-v1" manifest = .ok digest :=
    exists_canonicalDigest ⟨by decide, by decide⟩ manifest
  refine ⟨⟨manifest, wasmBytes, .object [], none, "run", _, .readOnly, hmade⟩, digest, ?_, rfl, rfl,
    rfl, rfl, Except.bind_eq_ok.mpr ⟨_, sortCapabilities_fileRead, hdigest⟩⟩
  unfold RegisteredTool.new
  split
  · rename_i made h
    cases hmade.symm.trans h
    rfl
  · rename_i h
    cases hmade.symm.trans h

-- ============================================================================
-- The runtime
-- ============================================================================

def spec : AgentSpec where
  role := ⟨"reader", by decide⟩
  objective := ⟨"read one file", by decide⟩
  requestedModel := ⟨"model-1", by decide⟩
  requestedTools := [toolId]
  requestedAuthority := ⟨[Capability.fileRead]⟩
  outputContract := ⟨"plain text", by decide⟩
  resourceBudget := ⟨2⟩
  semanticRequirements := ⟨none, none, none⟩

def bootstrapInput : BootstrapInput where
  now := start
  keyUuid := "1"
  leaseUuid := "1"
  generateKey keyId := .ok (custody keyId (Vector.replicate 32 1))
  modelManifestDigest _ := .ok [0]
  hypervisorFails := false
  appendTimes := (start, start, start, start)

theorem checkActivation_eq : checkActivation mission spec start = .ok () := by
  decide +kernel

theorem exists_rootDigest {tools : ToolRegistry}
    (h : ∀ tool ∈ tools, ∃ digest, tool.manifestDigest = .ok digest) :
    ∃ root, tools.rootDigest = .ok root := by
  have hentry (tool : RegisteredTool) (htool : tool ∈ tools) : ∃ entry : Json, (do
      let manifestDigest ← tool.manifestDigest
      return Json.object
        [("manifest_digest", .string (Externals.toHex manifestDigest)),
         ("tool_id", .string tool.manifest.toolId.value)]) = Except.ok entry := by
    obtain ⟨digest, hdigest⟩ := h tool htool
    exact ⟨_, Except.bind_eq_ok.mpr ⟨digest, hdigest, rfl⟩⟩
  obtain ⟨entries, hentries⟩ := Except.exists_mapM_eq_ok hentry
  obtain ⟨root, hroot⟩ : ∃ root, canonicalDigest "aeon-tool-registry-root-v1"
      (sortByKey Externals.jsonText entries) = .ok root :=
    exists_canonicalDigest ⟨by decide, by decide⟩ _
  exact ⟨root, Except.bind_eq_ok.mpr ⟨entries, hentries, hroot⟩⟩

/-- What a bootstrap of the reference computes from its tool. -/
structure Digested (tool : RegisteredTool) where
  digest : Digest
  isReader : IsReader toolId [0] tool digest
  schemaDigest : Digest
  schema_eq : AgentMessage.schemaDigest = .ok schemaDigest
  rootDigest : Digest
  root_eq : ToolRegistry.rootDigest [tool] = .ok rootDigest
  instruction : String
  instruction_eq : resolvedSystemInstruction spec = .ok instruction
  instructionDigest : Digest
  instructionDigest_eq : canonicalDigest "aeon-resolved-system-instruction-v1" instruction
    = .ok instructionDigest
  configDigest : Digest
  config_eq : canonicalDigest "aeon-r1-runtime-config-v1"
    (mission.maxActions, spec.resourceBudget.maxSteps) = .ok configDigest

theorem exists_digested : ∃ tool, Nonempty (Digested tool) := by
  obtain ⟨tool, digest, isReader⟩ := exists_tool toolId
    (show ([0] : List UInt8).isEmpty = false from rfl)
  obtain ⟨schemaDigest, hschema⟩ := exists_schemaDigest
  obtain ⟨rootDigest, hroot⟩ : ∃ root, ToolRegistry.rootDigest [tool] = .ok root :=
    exists_rootDigest (by simpa using ⟨digest, isReader.digest_eq⟩)
  obtain ⟨instruction, hinstruction⟩ : ∃ text, resolvedSystemInstruction spec = .ok text :=
    ⟨_, rfl⟩
  obtain ⟨instructionDigest, hinstructionDigest⟩ :
      ∃ digest, canonicalDigest "aeon-resolved-system-instruction-v1" instruction = .ok digest :=
    exists_canonicalDigest ⟨by decide, by decide⟩ instruction
  obtain ⟨configDigest, hconfig⟩ : ∃ digest, canonicalDigest "aeon-r1-runtime-config-v1"
      (mission.maxActions, spec.resourceBudget.maxSteps) = .ok digest :=
    exists_canonicalDigest ⟨by decide, by decide⟩ _
  exact ⟨tool, ⟨⟨digest, isReader, schemaDigest, hschema, rootDigest, hroot, instruction,
    hinstruction, instructionDigest, hinstructionDigest, configDigest, hconfig⟩⟩⟩

namespace Digested

variable {tool : RegisteredTool} (d : Digested tool)

def boundTools : List BoundTool := [⟨toolId, d.digest⟩]

def context : SemanticContext where
  contextVersion := 1
  modelManifestDigest := [0]
  resolvedSystemInstructionDigest := d.instructionDigest
  toolRegistryRootDigest := d.rootDigest
  boundToolDigests := sortDigests [d.digest]
  protocolSchemaDigest := d.schemaDigest
  policyEpoch := 1
  memoryGeneration := none
  retrievalIndexGeneration := none

def manifest : CapabilityManifest where
  version := 1
  modelManifestDigest := [0]
  approvedTools := d.boundTools
  permissions := ⟨[Capability.fileRead]⟩
  runtimeConfigDigest := d.configDigest
  toolRegistryRootDigest := d.rootDigest

def request (contextDigest : Digest) : RootLeaseRequest where
  mission := mission
  agentId := agentId
  grantedAuthority := authority
  delegableAuthority := authority
  capabilityManifest := d.manifest
  semanticContextDigest := contextDigest
  expiresAt := start + Duration.minutes 5

theorem snapshot_eq : ToolRegistry.snapshot [tool] spec.requestedTools
    = .ok ⟨[tool], d.boundTools, d.rootDigest⟩ := by
  simp only [ToolRegistry.snapshot, Except.bind_eq_ok, Except.pure_eq_ok]
  refine ⟨[tool], Except.mapM_eq_ok.mpr (.cons ?_ .nil), d.boundTools,
    Except.mapM_eq_ok.mpr (.cons ?_ .nil), d.rootDigest, d.root_eq, rfl⟩
  · simp [ToolRegistry.find, d.isReader.toolId_eq]
  · rw [d.isReader.digest_eq, d.isReader.toolId_eq]
    rfl

theorem forR1_eq : ContextResolver.forR1 [0] 1 1 = .ok ⟨[0], d.schemaDigest, 1, 1⟩ := by
  simp only [ContextResolver.forR1, Except.bind_eq_ok, Except.pure_eq_ok]
  exact ⟨d.schemaDigest, d.schema_eq, rfl⟩

theorem resolve_eq : ContextResolver.resolve ⟨[0], d.schemaDigest, 1, 1⟩ spec
    ⟨[tool], d.boundTools, d.rootDigest⟩ = .ok d.context :=
  ContextResolver.resolve_eq_ok.mpr ⟨⟨rfl, rfl⟩, d.instruction, d.instructionDigest,
    d.instruction_eq, d.instructionDigest_eq, rfl⟩

theorem binds : ToolRegistry.Binds [tool] d.manifest where
  root := d.root_eq
  bound bound hbound := by
    obtain rfl := List.mem_singleton.mp hbound
    exact ⟨tool, by simp [ToolRegistry.find, d.isReader.toolId_eq], d.isReader.digest_eq⟩

/-- The world of the runtime once the kernel is this one. -/
def world (kernel : AuthorityState) : World where
  kernel := kernel
  kernelReaders := []
  semanticContext := d.context
  contextReaders := []
  registry := [tool]
  store := ((((InMemoryMissionStore.new mission).append .missionCreated start).append
    .contextResolved start).append .leaseIssued start).append .agentActivated start
  actionCertificates := []
  stepsConsumed := 0
  actionsConsumed := 0
  tokens := []

theorem bootstrapR2_eq {contextDigest : Digest} {kernel : AuthorityState}
    (hcontext : d.context.canonicalDigest = .ok contextDigest)
    (hkernel : bootstrap (d.request contextDigest) rootCustody start "1" = .ok kernel) :
    R1Runtime.bootstrapR2 mission agentId spec [tool] 1 authority bootstrapInput
      = .ok (⟨mission, agentId, spec, rootCustody, ProtocolGate.default⟩, d.world kernel) := by
  simp only [R1Runtime.bootstrapR2, Except.bind_eq_ok, Except.pure_eq_ok]
  exact ⟨(), checkActivation_eq, _, d.snapshot_eq, [0], rfl, _, d.forR1_eq, _, d.resolve_eq,
    contextDigest, hcontext, d.configDigest, d.config_eq, keyId, Identifier.new_value keyId,
    rootCustody, rfl, authority, AuthoritySet.new_capabilities authority, kernel, hkernel, (),
    rejectIf_eq_ok.mpr (by decide), rfl⟩

variable {contextDigest : Digest} (run : Bootstrap (d.request contextDigest) rootCustody start "1")

theorem exists_validated : ∃ validated : ValidatedAuthority,
    validateChain run.post run.post.rootLeaseId (some 0) d.manifest start = .ok validated ∧
      validated.semanticContextDigest = contextDigest := by
  obtain ⟨signature, hcertificate⟩ := signedLease_fields run.certificate_eq
  obtain ⟨validated, hvalid, -⟩ := run.exists_validated verifyingKeyRoundTrip start
    (show start < start + Duration.minutes 5 by decide) (some 0) (by simp)
  obtain ⟨leaf, path, hchain⟩ := validateChain_sound hvalid
  obtain rfl : leaf = run.entry := Option.some.inj (hchain.entry_eq.symm.trans run.lookup_root)
  refine ⟨validated, hvalid, ?_⟩
  rw [hchain.contextDigest_eq, Bootstrap.entry, hcertificate]
  rfl

def ready (hcontext : d.context.canonicalDigest = .ok contextDigest)
    {validated : ValidatedAuthority}
    (hvalid : validateChain run.post run.post.rootLeaseId (some 0) d.manifest start
      = .ok validated) (hdigest : validated.semanticContextDigest = contextDigest) :
    Ready ⟨mission, agentId, spec, rootCustody, ProtocolGate.default⟩ (d.world run.post) start where
  lease := run.entry
  validated := validated
  instruction := d.instruction
  usable := by decide
  lookup := run.lookup_root
  isRoot := by
    obtain ⟨signature, hcertificate⟩ := signedLease_fields run.certificate_eq
    rw [Bootstrap.entry, hcertificate]
    rfl
  isBound := by
    obtain ⟨signature, hcertificate⟩ := signedLease_fields run.certificate_eq
    rw [Bootstrap.entry, hcertificate]
    exact ⟨rfl, rfl, rfl, rfl⟩
  valid := hvalid
  context := hdigest.symm ▸ hcontext
  steps := show (0 : UInt64) < 2 by decide
  instruction_eq := d.instruction_eq

end Digested

/-- A runtime of the reference as a bootstrap leaves it, with the tool it is for. -/
structure Activated (rt : R1Runtime) (w : World) (tool : RegisteredTool) where
  digest : Digest
  isReader : IsReader toolId [0] tool digest
  boot : R1Runtime.bootstrapR2 mission agentId spec [tool] 1 authority bootstrapInput = .ok (rt, w)
  ready : Ready rt w start
  rt_eq : rt = ⟨mission, agentId, spec, rootCustody, ProtocolGate.default⟩
  registry_eq : w.registry = [tool]
  binds : ToolRegistry.Binds [tool] ready.lease.manifest
  approved : ready.lease.manifest.approvedTools = [⟨toolId, digest⟩]
  granted : ready.lease.certificate.grantedAuthority = authority
  delegable : ready.lease.certificate.delegableAuthority = authority
  expiresAt : ready.lease.certificate.expiresAt = start + Duration.minutes 5
  grants : Grants ready.lease.manifest ready.lease.manifest authority
  parentless : ready.lease.parentId = none
  active : ready.lease.record.state = .active
  mission_eq : w.kernel.mission = mission
  custodians : CustodiansSign w.kernel
  readers : w.kernelReaders = []
  records : w.store.authorizationRecords = []
  events : ∀ event ∈ w.store.events, event.attemptId = none
  steps : w.stepsConsumed = 0
  actions : w.actionsConsumed = 0
  fresh : FreshUuid w.kernel "2"

theorem exists_activated : ∃ rt w tool, Nonempty (Activated rt w tool) := by
  obtain ⟨tool, ⟨d⟩⟩ := exists_digested
  obtain ⟨contextDigest, hcontext⟩ := d.context.exists_canonicalDigest
  have hrequest : validateRootRequest (d.request contextDigest) start = .ok () :=
    validateRootRequest_eq
  obtain ⟨kernel, hkernel⟩ := exists_bootstrap newLeaseId_eq hrequest
    (exists_manifestDigest (List.nodup_singleton _) rfl)
  obtain ⟨run, rfl⟩ := bootstrap_eq_ok hkernel
  obtain ⟨signature, hcertificate⟩ := signedLease_fields run.certificate_eq
  obtain ⟨validated, hvalid, hdigest⟩ := d.exists_validated run
  exact ⟨_, _, tool, ⟨{
    digest := d.digest
    isReader := d.isReader
    boot := d.bootstrapR2_eq hcontext hkernel
    ready := d.ready run hcontext hvalid hdigest
    rt_eq := rfl
    registry_eq := rfl
    binds := d.binds
    approved := rfl
    granted := by
      simp only [Digested.ready, Bootstrap.entry, hcertificate]
      rfl
    delegable := by
      simp only [Digested.ready, Bootstrap.entry, hcertificate]
      rfl
    expiresAt := run.entry_expiresAt
    grants := (grants_iff rfl).mpr ⟨(validateRootRequest_eq_ok.mp run.request_ok).2.2.2.1,
      validateManifestAttenuation_eq_ok.mpr ⟨rfl, rfl, rfl, rfl, List.Subset.refl _⟩⟩
    parentless := run.entry_parentId
    active := rfl
    mission_eq := rfl
    custodians := custodiansSign run
    readers := rfl
    records := rfl
    events := by
      simp [Digested.world, InMemoryMissionStore.append, InMemoryMissionStore.appendEvent,
        InMemoryMissionStore.new]
    steps := rfl
    actions := rfl
    fresh := freshUuid_second run }⟩⟩

-- ============================================================================
-- Its turns
-- ============================================================================

theorem parse_eq_ok {raw : String} {entries : List (String × Json)} {message : AgentMessage}
    (hsize : raw.utf8ByteSize ≤ defaultMaxOutputBytes) (hentries : parseEntries raw = .ok entries)
    (hencode : message.encode = .ok entries) : ProtocolGate.default.parse raw = .ok message := by
  have hdecoded : (Externals.parseEntries raw >>= AgentMessage.decode) = .ok message :=
    Except.bind_eq_ok.mpr
      ⟨entries, hentries, decode_eq_ok_iff_encode.mpr ⟨entries, hencode, .refl _⟩⟩
  simp only [ProtocolGate.parse, Except.bind_eq_ok, rejectIf_eq_ok]
  refine ⟨(), not_lt.mpr hsize, ?_⟩
  rw [hdecoded]
  rfl

/-- What the environment does where the model writes this text. -/
def input (text : String) : Input where
  now := start
  uuid := "2"
  appendError := none
  model := .ok ⟨text⟩
  hypervisorFails := false
  tokenFails _ := false
  output := some ⟨true⟩

theorem favours {admits : World → Op → Input → Prop} {text : String}
    (hadmits : ∀ w o, o.waits = false → admits w o (input text)) :
    Favourable admits (input text) :=
  ⟨hadmits, rfl, rfl, fun _ => rfl⟩

theorem freshIds_input (text : String) (w : World) (o : Op) (hwaits : o.waits = false) :
    FreshIds w o (input text) := by
  rintro op rfl
  cases hwaits

namespace Activated

variable {rt : R1Runtime} {w : World} {tool : RegisteredTool} (act : Activated rt w tool)

include act in
theorem bootstrapped : Bootstrapped rt w := ⟨_, _, _, _, _, _, _, act.boot⟩

include act in
theorem signs : rt.keyCustody.Signs := by
  rw [act.rt_eq]
  exact fun payload =>
    ⟨_, rfl, length_checksum _ _, by simp [rootCustody, custody, Externals.verifies]⟩

/-- A call of the tool passes the gate. -/
def passes (arguments : Json) : Passes (rt.authorizeRequest w.kernel.rootLeaseId
    w.semanticContext ⟨toolId, arguments⟩ start) where
  snapshot := act.ready.lease
  tool := tool
  liveManifest := act.ready.lease.manifest
  validated := act.ready.validated
  manifestDigest := act.digest
  target := ⟨toolId.value, by decide⟩
  authorizationUuid := "2"
  authorizationId := ⟨"auth-2", by decide⟩
  certificateUuid := "2"
  certificateId := ⟨"cert-2", by decide⟩
  usable := act.ready.usable
  toolAllowed := by
    rw [act.rt_eq]
    exact List.mem_singleton_self _
  manifestDigest_eq := act.isReader.digest_eq
  bound := by
    rw [act.approved]
    rfl
  isBound := act.ready.isBound
  context_eq := act.ready.context
  checked := by
    have hschema := act.isReader.schema_eq
    have hcapabilities := act.isReader.capabilities_eq
    have hgranted := act.granted
    simp only [R1Runtime.authorizeRequest, act.rt_eq, AuthorizeRequest.checkTool,
      RegisteredTool.validateInput, hschema, hcapabilities, hgranted, Except.bind_eq_ok,
      rejectIf_eq_ok]
    refine ⟨(), validateInstance_eq_ok.mpr ⟨by simp [TypeMatches, Json.get?], ?_⟩, (), ?_,
      authority, AuthoritySet.new_capabilities authority, ?_⟩
    · rintro _ object ⟨⟩ -
      exact ⟨by simp, by simp, by simp⟩
    · decide
    · rintro ⟨capability, hmem, hnot⟩
      obtain rfl := List.mem_singleton.mp hmem
      revert hnot
      decide
  target_eq := ActionTarget.new_value ⟨toolId.value, by decide⟩
  authorizationId_eq := Identifier.new_value ⟨"auth-2", by decide⟩
  certificateId_eq := Identifier.new_value ⟨"cert-2", by decide⟩
  signs := act.signs

theorem found (arguments : Json) : (act.passes arguments).Found w where
  snapshot := show w.leaseSnapshot w.kernel.rootLeaseId = .ok act.ready.lease from
    act.ready.snapshot_eq
  tool := by
    simp only [act.registry_eq, ToolRegistry.resolveWithCapabilityManifest, Except.bind_eq_ok,
      orReject_eq_ok, Except.pure_eq_ok]
    exact ⟨tool, by simp [ToolRegistry.find, act.isReader.toolId_eq, R1Runtime.authorizeRequest],
      _, act.binds.refresh, rfl⟩
  chain := act.ready.valid

include act in
theorem parse_call : rt.protocolGate.parse callText = .ok (.toolCall ⟨toolId, .object []⟩) := by
  rw [act.rt_eq]
  exact parse_eq_ok (by decide) rfl rfl

include act in
theorem parse_final : rt.protocolGate.parse finalText = .ok (.final ⟨"done"⟩) := by
  rw [act.rt_eq]
  exact parse_eq_ok (by decide) rfl rfl

section
variable {admits : World → Op → Input → Prop} {t : Nat} {h : History}

/-- A turn whose model calls the tool gets to the execution of the call. -/
theorem can_call (hadmits : ∀ w o, o.waits = false → admits w o (input callText))
    {Q : History → World → Prog Op Op.Resp (Result RunOutcome) → Prop}
    (after : ∀ run h' w', (act.passes (.object [])).Authorizes run → Keeps w w' →
      Can (rt.system.Offers admits t) Q h' w' (rt.executeAuthorized (w.store.nextAttemptId + 1)
        run.execution ⟨run.certificate, run.record⟩).run) :
    Can (rt.system.Offers admits t) Q h w rt.runOnce.run := by
  have hfavours := favours hadmits
  refine act.ready.can_respond hfavours rfl fun _ h₁ w₁ _ begun => ?_
  refine hfavours.can_call act.parse_call (congrArg AuthorityState.rootLeaseId begun.kernel)
    (act.passes (.object [])) ((act.found _).of_keeps begun.toKeeps) rfl rfl ?_
    fun run h₂ w₂ hrun keeps => after run h₂ w₂ hrun (begun.toKeeps.trans keeps)
  rw [begun.actions, act.actions, act.rt_eq]
  decide

end

/-- A renewal of the root lease on the same terms. -/
def renewing : Renewing (start + Duration.minutes 5) where
  rootId := w.kernel.rootLeaseId
  lease := act.ready.lease
  manifest := act.ready.lease.manifest
  context := w.semanticContext
  contextDigest := act.ready.validated.semanticContextDigest
  now := start
  context_eq := act.ready.context

theorem mayRenew : MayRenew w.kernel act.renewing.request start "2" := by
  have hsubset : authorityIsSubsetOf authority authority = true := by decide +kernel
  have hlasts : start < start + Duration.minutes 5 := by decide
  have hlookup : w.kernel.leases.lookup act.ready.lease.certificate.leaseId
      = some act.ready.lease := by
    rw [act.ready.isRoot]
    exact act.ready.lookup
  obtain ⟨leaf, path, hchain⟩ := validateChain_sound act.ready.valid
  obtain rfl := Option.some.inj (hchain.entry_eq.symm.trans act.ready.lookup)
  refine
    { lease := ⟨act.ready.lease, [(_, act.ready.lease)], hlookup, rfl,
        .root hlookup act.parentless, ?_, ?_, by simp⟩
      mission := ?_
      leaseId := ⟨_, newLeaseId_child⟩ }
  · intro node hnode
    obtain rfl := List.mem_singleton.mp hnode
    exact ⟨act.active, by rw [act.expiresAt]; exact hlasts⟩
  · exact
      { lasts := hlasts
        context := hchain.contextDigest_eq
        delegable := by
          simp only [Renewing.request, renewing, act.granted, act.delegable]
          exact hsubset
        granted := by
          simp only [Renewing.request, renewing, act.granted]
          exact hsubset
        passedOn := by
          simp only [Renewing.request, renewing, act.delegable]
          exact hsubset
        manifest := by
          simp only [Renewing.request, renewing, act.granted]
          exact act.grants }
  · rw [act.mission_eq]
    exact show start + Duration.minutes 5 ≤ start + Duration.minutes 60 by decide

end Activated

end Reference

end GenesisRuntime
