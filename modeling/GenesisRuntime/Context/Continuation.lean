/-
  GenesisRuntime.Context.Continuation

  When one semantic context passes as the continuation of another.  The digests that are
  compared hide everything but the contexts themselves; under the assumptions on the hash
  and the encodings they hide nothing of these: neither through the identity, which leaves
  out the version and sorts the tools, nor through the instruction, which is a text inside
  it.
-/

import GenesisRuntime.Context
import GenesisRuntime.Reference
import GenesisRuntime.ToolRegistry.Generation

namespace GenesisRuntime

section
variable [Externals]

-- ============================================================================
-- Contexts
-- ============================================================================

theorem mem_sortDigests {digests : List Digest} {digest : Digest} :
    digest ∈ sortDigests digests ↔ digest ∈ digests := by
  constructor
  · intro h
    exact mem_sortByKey.mp ((dedupByKey_sublist id _).subset h)
  · intro h
    have hsorted : digest ∈ sortByKey id digests := mem_sortByKey.mpr h
    obtain ⟨d, hd, heq⟩ := exists_mem_dedupByKey id hsorted
    obtain rfl : d = digest := heq
    exact hd

theorem sortDigests_pairwise_lt (digests : List Digest) :
    (sortDigests digests).Pairwise fun a b => id a < id b :=
  dedupByKey_pairwise_lt (sortByKey_pairwise id digests)

theorem sortDigests_idem (digests : List Digest) :
    sortDigests (sortDigests digests) = sortDigests digests := by
  have hlt := sortDigests_pairwise_lt digests
  have hsorted : sortByKey id (sortDigests digests) = sortDigests digests :=
    sortByKey_of_pairwise (hlt.imp le_of_lt)
  unfold sortDigests at hsorted ⊢
  rw [hsorted]
  exact dedupByKey_of_pairwise_lt hlt

/-- Sorted lists of digests are equal where the digests are the same set. -/
theorem sortDigests_eq_iff {digests digests' : List Digest} :
    sortDigests digests = sortDigests digests' ↔
      ∀ digest, digest ∈ digests ↔ digest ∈ digests' := by
  constructor
  · intro h digest
    rw [← mem_sortDigests, h, mem_sortDigests]
  · intro h
    refine eq_of_pairwise_lt (sortDigests_pairwise_lt digests) (sortDigests_pairwise_lt digests') ?_
    intro digest
    rw [mem_sortDigests, mem_sortDigests, h]

namespace SemanticContext

variable {a b : SemanticContext}

/-- What a context says apart from its version: the digests of the tools are a set. -/
def material (context : SemanticContext) : SemanticContext :=
  { context with
    contextVersion := 0
    boundToolDigests := sortDigests context.boundToolDigests }

/-- The digest is one of the material. -/
theorem canonicalDigest_material (context : SemanticContext) :
    context.material.canonicalDigest = context.canonicalDigest := by
  simp only [canonicalDigest, material, sortDigests_idem]

theorem exists_canonicalDigest (context : SemanticContext) :
    ∃ digest, context.canonicalDigest = .ok digest := by
  obtain ⟨json, hjson⟩ : ∃ json, structValue
      [("model_manifest_digest", toValue context.modelManifestDigest),
       ("resolved_system_instruction_digest", toValue context.resolvedSystemInstructionDigest),
       ("tool_registry_root_digest", toValue context.toolRegistryRootDigest),
       ("bound_tool_digests", toValue (sortDigests context.boundToolDigests)),
       ("protocol_schema_digest", toValue context.protocolSchemaDigest),
       ("policy_epoch", toValue context.policyEpoch),
       ("memory_generation", toValue context.memoryGeneration),
       ("retrieval_index_generation", toValue context.retrievalIndexGeneration)] = .ok json :=
    exists_structValue (by simp [Serializes.exists_toValue])
  exact ⟨_, canonicalDigest_eq_ok.mpr ⟨⟨by decide, by decide⟩, json, hjson, rfl⟩⟩

/-- The contexts describe one reality: they agree on everything but the version, and on the
    tools as a set. -/
structure SameReality (a b : SemanticContext) : Prop where
  modelManifestDigest : a.modelManifestDigest = b.modelManifestDigest
  resolvedSystemInstructionDigest :
    a.resolvedSystemInstructionDigest = b.resolvedSystemInstructionDigest
  toolRegistryRootDigest : a.toolRegistryRootDigest = b.toolRegistryRootDigest
  boundToolDigests : ∀ digest, digest ∈ a.boundToolDigests ↔ digest ∈ b.boundToolDigests
  protocolSchemaDigest : a.protocolSchemaDigest = b.protocolSchemaDigest
  policyEpoch : a.policyEpoch = b.policyEpoch
  memoryGeneration : a.memoryGeneration = b.memoryGeneration
  retrievalIndexGeneration : a.retrievalIndexGeneration = b.retrievalIndexGeneration

theorem SameReality.symm (h : SameReality a b) : SameReality b a where
  modelManifestDigest := h.modelManifestDigest.symm
  resolvedSystemInstructionDigest := h.resolvedSystemInstructionDigest.symm
  toolRegistryRootDigest := h.toolRegistryRootDigest.symm
  boundToolDigests := fun digest => (h.boundToolDigests digest).symm
  protocolSchemaDigest := h.protocolSchemaDigest.symm
  policyEpoch := h.policyEpoch.symm
  memoryGeneration := h.memoryGeneration.symm
  retrievalIndexGeneration := h.retrievalIndexGeneration.symm

theorem material_eq_iff : a.material = b.material ↔ SameReality a b := by
  simp only [material, SemanticContext.mk.injEq, sortDigests_eq_iff]
  constructor
  · rintro ⟨-, hmodel, hinstruction, hroot, hbound, hschema, hepoch, hmemory, hindex⟩
    exact ⟨hmodel, hinstruction, hroot, hbound, hschema, hepoch, hmemory, hindex⟩
  · intro h
    exact ⟨trivial, h.modelManifestDigest, h.resolvedSystemInstructionDigest,
      h.toolRegistryRootDigest, h.boundToolDigests, h.protocolSchemaDigest, h.policyEpoch,
      h.memoryGeneration, h.retrievalIndexGeneration⟩

end SemanticContext

/-- Contexts with one digest say the same. -/
theorem material_of_canonicalDigest (hcollision : CollisionFree) (htext : JsonTextInjective)
    (hhex : HexInjective) {a b : SemanticContext} {digest : Digest}
    (ha : a.canonicalDigest = .ok digest) (hb : b.canonicalDigest = .ok digest) :
    a.material = b.material := by
  have hfields := SameValue.fields (sameValue_of_canonicalDigest hcollision htext ha hb) rfl
    (by simp)
  simp only [List.forall₂_cons, List.forall₂_nil_left_iff] at hfields
  obtain ⟨hmodel, hinstruction, hroot, hbound, hschema, hepoch, hmemory, hindex, -⟩ := hfields
  have hdigest := distinguishes_digest hhex
  simp only [SemanticContext.material, SemanticContext.mk.injEq]
  exact ⟨trivial, hdigest _ _ hmodel, hdigest _ _ hinstruction, hdigest _ _ hroot,
    hdigest.list _ _ hbound, hdigest _ _ hschema, distinguishes_uint64 _ _ hepoch,
    hdigest.option toValue_digest_ne_null _ _ hmemory,
    hdigest.option toValue_digest_ne_null _ _ hindex⟩

theorem validateContextContinuation_eq_ok {digest : Digest} {context : SemanticContext} :
    validateContextContinuation digest context = .ok () ↔ context.canonicalDigest = .ok digest := by
  simp only [validateContextContinuation, Except.bind_eq_ok, rejectIf_eq_ok, not_not]
  constructor
  · rintro ⟨digest', hdigest, rfl⟩
    exact hdigest
  · intro hdigest
    exact ⟨digest, hdigest, rfl⟩

/-- The second context passes as a continuation of the first. -/
def ContextContinues (original current : SemanticContext) : Prop :=
  ∃ digest, original.canonicalDigest = .ok digest ∧
    validateContextContinuation digest current = .ok ()

theorem contextContinues_iff (hcollision : CollisionFree) (htext : JsonTextInjective)
    (hhex : HexInjective) {a b : SemanticContext} :
    ContextContinues a b ↔ SemanticContext.SameReality a b := by
  simp only [ContextContinues, validateContextContinuation_eq_ok,
    ← SemanticContext.material_eq_iff]
  constructor
  · rintro ⟨digest, ha, hb⟩
    exact material_of_canonicalDigest hcollision htext hhex ha hb
  · intro hmaterial
    obtain ⟨digest, hdigest⟩ := a.exists_canonicalDigest
    refine ⟨digest, hdigest, ?_⟩
    rw [← b.canonicalDigest_material, ← hmaterial, a.canonicalDigest_material]
    exact hdigest

-- ============================================================================
-- Instructions
-- ============================================================================

omit [Externals] in
theorem DeclarativeText.value_injective {kind : String} :
    Function.Injective (DeclarativeText.value : DeclarativeText kind → String) := by
  rintro ⟨a, ha⟩ ⟨b, hb⟩ h
  cases h
  rfl

omit [Externals] in
theorem distinguishes_declarativeText (kind : String) : Distinguishes (DeclarativeText kind) :=
  fun _ _ hsame => DeclarativeText.value_injective (distinguishes_string _ _ hsame)

instance {kind : String} : Serializes (DeclarativeText kind) := ⟨fun _ => ⟨_, rfl⟩⟩

/-- The specifications make one instruction. -/
structure SameInstruction (spec spec' : AgentSpec) : Prop where
  role : spec.role = spec'.role
  objective : spec.objective = spec'.objective
  instructionProfile : spec.semanticRequirements.requestedInstructionProfile
    = spec'.semanticRequirements.requestedInstructionProfile
  outputContract : spec.outputContract = spec'.outputContract

/-- The fields of `ResolvedInstruction`. -/
def instructionFields (spec : AgentSpec) : List (String × Except String Json) :=
  [("role", toValue spec.role),
   ("objective", toValue spec.objective),
   ("instruction_profile", toValue spec.semanticRequirements.requestedInstructionProfile),
   ("output_contract", toValue spec.outputContract)]

theorem resolvedSystemInstruction_eq_ok {spec : AgentSpec} {instruction : String} :
    resolvedSystemInstruction spec = .ok instruction ↔
      ∃ value, structValue (instructionFields spec) = .ok value ∧
        instruction = Externals.jsonText value := by
  unfold resolvedSystemInstruction
  split
  · rename_i value hvalue
    have hfields : structValue (instructionFields spec) = .ok value := hvalue
    simp [hfields, Except.pure_eq_ok, eq_comm (a := instruction)]
  · rename_i e he
    have hfields : structValue (instructionFields spec) = .error e := he
    simp [hfields, Except.throw_eq_ok]

/-- The text of the instruction is one for the specifications that agree on its parts. -/
theorem resolvedSystemInstruction_eq_iff (htext : JsonTextInjective) {spec spec' : AgentSpec}
    {instruction instruction' : String} (h : resolvedSystemInstruction spec = .ok instruction)
    (h' : resolvedSystemInstruction spec' = .ok instruction') :
    instruction = instruction' ↔ SameInstruction spec spec' := by
  obtain ⟨value, hvalue, rfl⟩ := resolvedSystemInstruction_eq_ok.mp h
  obtain ⟨value', hvalue', rfl⟩ := resolvedSystemInstruction_eq_ok.mp h'
  constructor
  · intro heq
    obtain rfl := htext heq
    have hsame : SameValue (structValue (instructionFields spec))
        (structValue (instructionFields spec')) := ⟨value, value, hvalue, hvalue', rfl⟩
    have hfields := hsame.fields rfl (by simp [instructionFields])
    simp only [instructionFields, List.forall₂_cons] at hfields
    obtain ⟨hrole, hobjective, hprofile, hcontract, -⟩ := hfields
    exact {
      role := distinguishes_declarativeText _ _ _ hrole
      objective := distinguishes_declarativeText _ _ _ hobjective
      instructionProfile :=
        (distinguishes_identifier _).option toValue_identifier_ne_null _ _ hprofile
      outputContract := distinguishes_declarativeText _ _ _ hcontract }
  · intro hsame
    have hfields : instructionFields spec = instructionFields spec' := by
      simp only [instructionFields, hsame.role, hsame.objective, hsame.instructionProfile,
        hsame.outputContract]
    rw [hfields, hvalue'] at hvalue
    rw [Except.ok.inj hvalue]

-- ============================================================================
-- Resolutions
-- ============================================================================

/-- The specification asks for neither memory nor retrieval. -/
structure AsksForNoGenerations (spec : AgentSpec) : Prop where
  requestedMemory : spec.semanticRequirements.requestedMemory = none
  requestedRetrievalIndex : spec.semanticRequirements.requestedRetrievalIndex = none

theorem ContextResolver.resolve_eq_ok {resolver : ContextResolver} {spec : AgentSpec}
    {snapshot : ToolRegistry.Snapshot} {context : SemanticContext} :
    resolver.resolve spec snapshot = .ok context ↔ AsksForNoGenerations spec ∧
      ∃ instruction digest, resolvedSystemInstruction spec = .ok instruction ∧
        canonicalDigest "aeon-resolved-system-instruction-v1" instruction = .ok digest ∧
        context =
          { contextVersion := resolver.contextVersion
            modelManifestDigest := resolver.modelManifestDigest
            resolvedSystemInstructionDigest := digest
            toolRegistryRootDigest := snapshot.rootDigest
            boundToolDigests := sortDigests (snapshot.boundTools.map BoundTool.toolManifestDigest)
            protocolSchemaDigest := resolver.protocolSchemaDigest
            policyEpoch := resolver.policyEpoch
            memoryGeneration := none
            retrievalIndexGeneration := none } := by
  simp only [ContextResolver.resolve, Except.bind_eq_ok, Except.pure_eq_ok, rejectIf_eq_ok, not_or,
    Bool.not_eq_true, Option.isSome_eq_false_iff, Option.isNone_iff_eq_none, Except.exists_unit]
  constructor
  · rintro ⟨⟨hmemory, hindex⟩, instruction, hinstruction, digest, hdigest, rfl⟩
    exact ⟨⟨hmemory, hindex⟩, instruction, digest, hinstruction, hdigest, rfl⟩
  · rintro ⟨⟨hmemory, hindex⟩, instruction, digest, hinstruction, hdigest, rfl⟩
    exact ⟨⟨hmemory, hindex⟩, instruction, hinstruction, digest, hdigest, rfl⟩

/-- Nothing else can go wrong. -/
theorem ContextResolver.exists_resolve {spec : AgentSpec} (hspec : AsksForNoGenerations spec)
    (resolver : ContextResolver) (snapshot : ToolRegistry.Snapshot) :
    ∃ context, resolver.resolve spec snapshot = .ok context := by
  obtain ⟨value, hvalue⟩ : ∃ value, structValue (instructionFields spec) = .ok value :=
    exists_structValue (by simp [instructionFields, Serializes.exists_toValue])
  obtain ⟨digest, hdigest⟩ : ∃ digest, canonicalDigest "aeon-resolved-system-instruction-v1"
      (Externals.jsonText value) = .ok digest := exists_canonicalDigest ⟨by decide, by decide⟩ _
  exact ⟨_, ContextResolver.resolve_eq_ok.mpr ⟨hspec, _, digest,
    resolvedSystemInstruction_eq_ok.mpr ⟨value, hvalue, rfl⟩, hdigest, rfl⟩⟩

/-- Two resolutions start from the same reality. -/
structure SameInputs (resolver resolver' : ContextResolver) (spec spec' : AgentSpec)
    (snapshot snapshot' : ToolRegistry.Snapshot) : Prop where
  modelManifestDigest : resolver.modelManifestDigest = resolver'.modelManifestDigest
  protocolSchemaDigest : resolver.protocolSchemaDigest = resolver'.protocolSchemaDigest
  policyEpoch : resolver.policyEpoch = resolver'.policyEpoch
  instruction : SameInstruction spec spec'
  boundToolDigests : ∀ digest, digest ∈ snapshot.boundTools.map BoundTool.toolManifestDigest ↔
    digest ∈ snapshot'.boundTools.map BoundTool.toolManifestDigest
  rootDigest : snapshot.rootDigest = snapshot'.rootDigest

/-- The digest of the instruction says what the instruction is. -/
theorem instructionDigest_eq_iff (hcollision : CollisionFree) (htext : JsonTextInjective)
    {instruction instruction' : String} {digest digest' : Digest}
    (h : canonicalDigest "aeon-resolved-system-instruction-v1" instruction = .ok digest)
    (h' : canonicalDigest "aeon-resolved-system-instruction-v1" instruction' = .ok digest') :
    digest = digest' ↔ instruction = instruction' := by
  constructor
  · rintro rfl
    exact distinguishes_string _ _ (sameValue_of_canonicalDigest hcollision htext h h')
  · rintro rfl
    exact Except.ok.inj (h.symm.trans h')

/-- Resolved contexts describe one reality where the resolutions started from one. -/
theorem sameReality_resolve_iff (hcollision : CollisionFree) (htext : JsonTextInjective)
    {resolver resolver' : ContextResolver} {spec spec' : AgentSpec}
    {snapshot snapshot' : ToolRegistry.Snapshot} {context context' : SemanticContext}
    (h : resolver.resolve spec snapshot = .ok context)
    (h' : resolver'.resolve spec' snapshot' = .ok context') :
    SemanticContext.SameReality context context' ↔
      SameInputs resolver resolver' spec spec' snapshot snapshot' := by
  obtain ⟨-, instruction, digest, hinstruction, hdigest, rfl⟩ :=
    ContextResolver.resolve_eq_ok.mp h
  obtain ⟨-, instruction', digest', hinstruction', hdigest', rfl⟩ :=
    ContextResolver.resolve_eq_ok.mp h'
  have hsame : digest = digest' ↔ SameInstruction spec spec' :=
    (instructionDigest_eq_iff hcollision htext hdigest hdigest').trans
      (resolvedSystemInstruction_eq_iff htext hinstruction hinstruction')
  constructor
  · intro hreality
    exact {
      modelManifestDigest := hreality.modelManifestDigest
      protocolSchemaDigest := hreality.protocolSchemaDigest
      policyEpoch := hreality.policyEpoch
      instruction := hsame.mp hreality.resolvedSystemInstructionDigest
      boundToolDigests := fun d => by
        rw [← mem_sortDigests, hreality.boundToolDigests d, mem_sortDigests]
      rootDigest := hreality.toolRegistryRootDigest }
  · intro hinputs
    exact {
      modelManifestDigest := hinputs.modelManifestDigest
      resolvedSystemInstructionDigest := hsame.mpr hinputs.instruction
      toolRegistryRootDigest := hinputs.rootDigest
      boundToolDigests := fun d => by
        rw [mem_sortDigests, hinputs.boundToolDigests d, mem_sortDigests]
      protocolSchemaDigest := hinputs.protocolSchemaDigest
      policyEpoch := hinputs.policyEpoch
      memoryGeneration := rfl
      retrievalIndexGeneration := rfl }

namespace ToolRegistry

variable {tools : ToolRegistry} {toolIds : List ToolId} {snapshot : Snapshot}

/-- What a snapshot binds are the digests of the tools it was asked for. -/
theorem mem_boundDigests (h : tools.snapshot toolIds = .ok snapshot) {digest : Digest} :
    digest ∈ snapshot.boundTools.map BoundTool.toolManifestDigest ↔
      ∃ toolId ∈ toolIds, ∃ tool, tools.find toolId = some tool ∧
        tool.manifestDigest = .ok digest := by
  simp only [ToolRegistry.snapshot, Except.bind_eq_ok, Except.pure_eq_ok, Except.mapM_eq_ok,
    orReject_eq_ok] at h
  obtain ⟨resolved, hresolved, bounds, hbounds, root, -, rfl⟩ := h
  rw [List.mem_map]
  constructor
  · rintro ⟨bound, hbound, rfl⟩
    obtain ⟨tool, htool, digest, hdigest, rfl⟩ := hbounds.exists_of_right hbound
    obtain ⟨toolId, htoolId, hfind⟩ := hresolved.exists_of_right htool
    exact ⟨toolId, htoolId, tool, hfind, hdigest⟩
  · rintro ⟨toolId, htoolId, tool, hfind, hdigest⟩
    obtain ⟨tool', htool', hfind'⟩ := hresolved.exists_of_left htoolId
    rw [hfind] at hfind'
    cases hfind'
    obtain ⟨bound, hbound, digest', hdigest', rfl⟩ := hbounds.exists_of_left htool'
    rw [hdigest] at hdigest'
    cases hdigest'
    exact ⟨_, hbound, rfl⟩

end ToolRegistry

/-- In whatever order, and however often, the tools are asked for. -/
theorem sameInputs_of_sameTools {tools : ToolRegistry} {spec : AgentSpec} {toolIds : List ToolId}
    (hsame : ∀ toolId, toolId ∈ spec.requestedTools ↔ toolId ∈ toolIds)
    {snapshot snapshot' : ToolRegistry.Snapshot}
    (h : tools.snapshot spec.requestedTools = .ok snapshot)
    (h' : tools.snapshot toolIds = .ok snapshot') (resolver : ContextResolver) (version : UInt64) :
    SameInputs resolver { resolver with contextVersion := version } spec
      { spec with requestedTools := toolIds } snapshot snapshot' where
  modelManifestDigest := rfl
  protocolSchemaDigest := rfl
  policyEpoch := rfl
  instruction := ⟨rfl, rfl, rfl, rfl⟩
  boundToolDigests digest := by
    simp only [ToolRegistry.mem_boundDigests h, ToolRegistry.mem_boundDigests h', hsame]
  rootDigest := by
    have hroot := ToolRegistry.snapshot_rootDigest h
    rw [ToolRegistry.snapshot_rootDigest h'] at hroot
    exact (Except.ok.inj hroot).symm

-- ============================================================================
-- Continuation
-- ============================================================================

/-- A context continues another exactly where they agree on everything but the version, with
    the tools as a set. Resolved contexts continue each other exactly where what they were
    resolved from agrees; the order in which tools are requested, and the version, do not
    count. -/
theorem continuation_is_same_reality (hcollision : CollisionFree) (htext : JsonTextInjective)
    (hhex : HexInjective) :
    (∀ a b : SemanticContext, ContextContinues a b ↔ SemanticContext.SameReality a b) ∧
    (∀ (resolver resolver' : ContextResolver) (spec spec' : AgentSpec)
        (snapshot snapshot' : ToolRegistry.Snapshot),
      AsksForNoGenerations spec → AsksForNoGenerations spec' →
      ∃ context context', resolver.resolve spec snapshot = .ok context ∧
        resolver'.resolve spec' snapshot' = .ok context' ∧
        (ContextContinues context context' ∧ ContextContinues context' context ↔
          SameInputs resolver resolver' spec spec' snapshot snapshot')) ∧
    ∀ (tools : ToolRegistry) (resolver : ContextResolver) (spec : AgentSpec)
        (toolIds : List ToolId) (version : UInt64) (snapshot snapshot' : ToolRegistry.Snapshot)
        (context context' : SemanticContext),
      (∀ toolId, toolId ∈ spec.requestedTools ↔ toolId ∈ toolIds) →
      tools.snapshot spec.requestedTools = .ok snapshot →
      tools.snapshot toolIds = .ok snapshot' →
      resolver.resolve spec snapshot = .ok context →
      { resolver with contextVersion := version }.resolve
        { spec with requestedTools := toolIds } snapshot' = .ok context' →
      ContextContinues context context' ∧ ContextContinues context' context := by
  have hcontinue (a b : SemanticContext) :
      ContextContinues a b ↔ SemanticContext.SameReality a b :=
    contextContinues_iff hcollision htext hhex
  have hboth (a b : SemanticContext) :
      ContextContinues a b ∧ ContextContinues b a ↔ SemanticContext.SameReality a b := by
    rw [hcontinue, hcontinue]
    exact and_iff_left_of_imp SemanticContext.SameReality.symm
  refine ⟨hcontinue, ?_, ?_⟩
  · intro resolver resolver' spec spec' snapshot snapshot' hspec hspec'
    obtain ⟨context, h⟩ := ContextResolver.exists_resolve hspec resolver snapshot
    obtain ⟨context', h'⟩ := ContextResolver.exists_resolve hspec' resolver' snapshot'
    refine ⟨context, context', h, h', ?_⟩
    rw [hboth]
    exact sameReality_resolve_iff hcollision htext h h'
  · intro tools resolver spec toolIds version snapshot snapshot' context context' hsame hsnapshot
      hsnapshot' h h'
    rw [hboth, sameReality_resolve_iff hcollision htext h h']
    exact sameInputs_of_sameTools hsame hsnapshot hsnapshot' resolver version

omit [Externals] in
/-- Two tools in another order, a new version, and another model, over the reference
    components. -/
theorem continuation_is_same_reality_reference : letI := Reference.externals
    ∃ a b c : SemanticContext, a ≠ b ∧ ContextContinues a b ∧ ¬ ContextContinues a c := by
  let := Reference.externals
  obtain ⟨hcontinue, -⟩ := continuation_is_same_reality Reference.collisionFree
    Reference.jsonTextInjective Reference.hexInjective
  let a : SemanticContext := ⟨1, [0], [1], [2], [[3], [4]], [5], 1, none, none⟩
  let b : SemanticContext := { a with contextVersion := 2, boundToolDigests := [[4], [3]] }
  let c : SemanticContext := { a with modelManifestDigest := [9] }
  refine ⟨a, b, c, ?_, (hcontinue a b).mpr ?_, fun h => ?_⟩
  · intro heq
    exact absurd (congrArg SemanticContext.contextVersion heq) (by decide)
  · exact ⟨rfl, rfl, rfl, fun digest => by simp [a, b, or_comm], rfl, rfl, rfl, rfl⟩
  · have hmodel := ((hcontinue a c).mp h).modelManifestDigest
    exact absurd (List.cons.inj hmodel).1 (by decide)

end

end GenesisRuntime
