/-
  GenesisRuntime.ToolRegistry.Generation

  What the digests of the registry determine.  The manifest digest of a tool stands
  for the tool, the root digest of a registry for its set of tools, and the digest
  of a capability manifest for both: a manifest that was taken from one registry
  refreshes to the same digest in another exactly where the two hold the same tools.
-/

import GenesisRuntime.ToolRegistry.Schema

namespace GenesisRuntime

section
variable [Externals]

/-- A capability survives the round trip through its text (`serde_json`). -/
def CapabilityRoundTrip : Prop :=
  ∀ (capability : Capability) (text : String), Externals.capabilityToString capability = .ok text →
    Externals.capabilityFromStr text = .ok capability

-- ============================================================================
-- Tools
-- ============================================================================

/-- Sorting the required capabilities changes their order and number only. -/
theorem mem_sortCapabilities (hround : CapabilityRoundTrip) {capabilities sorted : List Capability}
    (h : sortCapabilities capabilities = .ok sorted) {capability : Capability} :
    capability ∈ sorted ↔ capability ∈ capabilities := by
  simp only [sortCapabilities, Except.bind_eq_ok, Except.pure_eq_ok, Except.mapM_eq_ok] at h
  obtain ⟨texts, htexts, parsed, hparsed, rfl⟩ := h
  have htexts : List.Forall₂ (fun c text => Externals.capabilityToString c = .ok text)
      capabilities texts := by
    refine htexts.imp fun c text hc => ?_
    cases hstring : Externals.capabilityToString c <;> rw [hstring] at hc <;> cases hc
    rfl
  have hparsed : List.Forall₂ (fun text c => Externals.capabilityFromStr text = .ok c)
      (sortByKey id texts) parsed := by
    refine hparsed.imp fun text c hc => ?_
    cases hparse : Externals.capabilityFromStr text <;> rw [hparse] at hc <;> cases hc
    rfl
  rw [mem_destutter_ne]
  constructor
  · intro hmem
    obtain ⟨text, htext, hparse⟩ := hparsed.exists_of_right hmem
    obtain ⟨c, hc, hstring⟩ := htexts.exists_of_right (mem_sortByKey.mp htext)
    rw [hround c text hstring] at hparse
    cases hparse
    exact hc
  · intro hmem
    obtain ⟨text, htext, hstring⟩ := htexts.exists_of_left hmem
    obtain ⟨c, hc, hparse⟩ := hparsed.exists_of_left (mem_sortByKey.mpr htext)
    rw [hround capability text hstring] at hparse
    cases hparse
    exact hc

omit [Externals] in
theorem distinguishes_effectClass : Distinguishes EffectClass := by
  intro a b h
  cases a <;> cases b <;> first | rfl | exact absurd (distinguishes_string _ _ h) (by decide)

/-- A digest never serializes to `null`. -/
theorem toValue_digest_ne_null (digest : Digest) (value : Json) (h : toValue digest = .ok value) :
    canonicalizeJson value ≠ .null := by
  cases h
  simp

/-- Manifests with one serialization are one manifest. -/
theorem distinguishes_toolManifest (hhex : HexInjective) (hcap : CapabilitySerializationInjective) :
    Distinguishes ToolManifest := by
  intro a b h
  have hfields := SameValue.fields h rfl (by simp)
  simp only [List.forall₂_cons, List.forall₂_nil_left_iff] at hfields
  obtain ⟨hversion, hid, hwasm, hentry, hinput, hcaps, heffect, houtput, -⟩ := hfields
  cases a
  cases b
  simp only [ToolManifest.mk.injEq]
  exact ⟨distinguishes_uint64 _ _ hversion, distinguishes_identifier _ _ _ hid,
    distinguishes_string _ _ hwasm, distinguishes_string _ _ hentry,
    distinguishes_digest hhex _ _ hinput, hcap.distinguishes.list _ _ hcaps,
    distinguishes_effectClass _ _ heffect,
    (distinguishes_digest hhex).option toValue_digest_ne_null _ _ houtput⟩

/-- What a tool was made of. -/
theorem RegisteredTool.new_eq_ok {toolId : ToolId} {wasmBytes : List UInt8} {entryPoint : String}
    {inputSchema : Json} {capabilities : List Capability} {effectClass : EffectClass}
    {outputSchema : Option Json} {tool : RegisteredTool}
    (h : RegisteredTool.new toolId wasmBytes entryPoint inputSchema capabilities effectClass
      outputSchema = .ok tool) :
    ToolManifest.new 1 toolId wasmBytes entryPoint inputSchema capabilities effectClass
        outputSchema = .ok tool.manifest ∧ tool.wasmBytes = wasmBytes ∧
      tool.inputSchema = inputSchema ∧ tool.outputSchema = outputSchema := by
  unfold RegisteredTool.new at h
  split at h
  · rename_i manifest hmanifest
    cases h
    exact ⟨hmanifest, rfl, rfl, rfl⟩
  · cases h

/-- What a manifest carries of the parts it was made of. -/
theorem ToolManifest.new_fields {toolId : ToolId} {wasmBytes : List UInt8} {entryPoint : String}
    {inputSchema : Json} {capabilities : List Capability} {effectClass : EffectClass}
    {outputSchema : Option Json} {manifest : ToolManifest}
    (h : ToolManifest.new 1 toolId wasmBytes entryPoint inputSchema capabilities effectClass
      outputSchema = .ok manifest) :
    manifest.toolId = toolId ∧
      manifest.wasmSha256 = Externals.toHex (Externals.sha256 wasmBytes) ∧
      manifest.entryPoint = entryPoint ∧ manifest.effectClass = effectClass ∧
      sortCapabilities capabilities = .ok manifest.requiredCapabilities ∧
      GenesisRuntime.canonicalDigest "aeon-tool-input-schema-v1" inputSchema
        = .ok manifest.inputSchemaDigest ∧
      (outputSchema.mapM fun schema =>
          GenesisRuntime.canonicalDigest "aeon-tool-output-schema-v1" schema)
        = .ok manifest.outputSchemaDigest := by
  simp only [ToolManifest.new, Except.bind_eq_ok, Except.pure_eq_ok] at h
  obtain ⟨_, -, _, -, _, -, sorted, hsorted, inputDigest, hinput, outputDigest, houtput, rfl⟩ := h
  exact ⟨rfl, rfl, rfl, rfl, hsorted, hinput, houtput⟩

/-- Schemas with one digest are the same up to the order of members. -/
theorem schema_of_digest (hcollision : CollisionFree) (htext : JsonTextInjective) {domain : String}
    {schema schema' : Json} {digest : Digest}
    (h : GenesisRuntime.canonicalDigest domain schema = .ok digest)
    (h' : GenesisRuntime.canonicalDigest domain schema' = .ok digest) :
    canonicalizeJson schema = canonicalizeJson schema' :=
  (canonicalDigest_json_iff hcollision htext h h').mp rfl

theorem optionalSchema_of_digest (hcollision : CollisionFree) (htext : JsonTextInjective)
    {domain : String} {schema schema' : Option Json} {digest : Option Digest}
    (h : (schema.mapM fun s => GenesisRuntime.canonicalDigest domain s) = .ok digest)
    (h' : (schema'.mapM fun s => GenesisRuntime.canonicalDigest domain s) = .ok digest) :
    schema.map canonicalizeJson = schema'.map canonicalizeJson := by
  cases schema with
  | none =>
      cases schema' with
      | none => rfl
      | some s' =>
          cases h
          obtain ⟨d, -, hd⟩ := Except.bind_eq_ok.mp h'
          cases hd
  | some s =>
      obtain ⟨d, hd, heq⟩ := Except.bind_eq_ok.mp h
      cases heq
      cases schema' with
      | none => cases h'
      | some s' =>
          obtain ⟨d', hd', heq⟩ := Except.bind_eq_ok.mp h'
          cases heq
          rw [Option.map_some, Option.map_some, schema_of_digest hcollision htext hd hd']

/-- Tools with one manifest digest are made of the same parts. -/
theorem parts_of_manifestDigest (hcollision : CollisionFree) (htext : JsonTextInjective)
    (hhex : HexInjective) (hcap : CapabilitySerializationInjective) (hround : CapabilityRoundTrip)
    {toolId toolId' : ToolId} {wasmBytes wasmBytes' : List UInt8} {entryPoint entryPoint' : String}
    {inputSchema inputSchema' : Json} {capabilities capabilities' : List Capability}
    {effectClass effectClass' : EffectClass} {outputSchema outputSchema' : Option Json}
    {tool tool' : RegisteredTool} {digest : Digest}
    (hnew : RegisteredTool.new toolId wasmBytes entryPoint inputSchema capabilities effectClass
      outputSchema = .ok tool)
    (hnew' : RegisteredTool.new toolId' wasmBytes' entryPoint' inputSchema' capabilities'
      effectClass' outputSchema' = .ok tool')
    (hdigest : tool.manifestDigest = .ok digest) (hdigest' : tool'.manifestDigest = .ok digest) :
    toolId = toolId' ∧ wasmBytes = wasmBytes' ∧ entryPoint = entryPoint' ∧
      effectClass = effectClass' ∧ (∀ c, c ∈ capabilities ↔ c ∈ capabilities') ∧
      canonicalizeJson inputSchema = canonicalizeJson inputSchema' ∧
      outputSchema.map canonicalizeJson = outputSchema'.map canonicalizeJson := by
  obtain ⟨hid, hwasm, hentry, heffect, hcaps, hinput, houtput⟩ :=
    ToolManifest.new_fields (RegisteredTool.new_eq_ok hnew).1
  obtain ⟨hid', hwasm', hentry', heffect', hcaps', hinput', houtput'⟩ :=
    ToolManifest.new_fields (RegisteredTool.new_eq_ok hnew').1
  simp only [RegisteredTool.manifestDigest, ToolManifest.canonicalDigest, Except.bind_eq_ok]
    at hdigest hdigest'
  obtain ⟨sorted, hsorted, hdigest⟩ := hdigest
  obtain ⟨sorted', hsorted', hdigest'⟩ := hdigest'
  have hsame := distinguishes_toolManifest hhex hcap _ _
    (sameValue_of_canonicalDigest hcollision htext hdigest hdigest')
  simp only [ToolManifest.mk.injEq] at hsame
  obtain ⟨-, hsameId, hsameWasm, hsameEntry, hsameInput, hsameCaps, hsameEffect, hsameOutput⟩ :=
    hsame
  rw [hid, hid'] at hsameId
  rw [hentry, hentry'] at hsameEntry
  rw [heffect, heffect'] at hsameEffect
  rw [hwasm, hwasm'] at hsameWasm
  rw [hsameInput] at hinput
  rw [hsameOutput] at houtput
  refine ⟨hsameId, hcollision (hhex hsameWasm), hsameEntry, hsameEffect, fun c => ?_,
    schema_of_digest hcollision htext hinput hinput',
    optionalSchema_of_digest hcollision htext houtput houtput'⟩
  -- the digest sorts the capabilities once more
  rw [← mem_sortCapabilities hround hcaps, ← mem_sortCapabilities hround hsorted, hsameCaps,
    mem_sortCapabilities hround hsorted', mem_sortCapabilities hround hcaps']

theorem RegisteredTool.exists_new (tool : RegisteredTool) :
    ∃ entryPoint capabilities effectClass,
      sortCapabilities capabilities = .ok tool.manifest.requiredCapabilities ∧
      RegisteredTool.new tool.manifest.toolId tool.wasmBytes entryPoint tool.inputSchema
        capabilities effectClass tool.outputSchema = .ok tool := by
  obtain ⟨entryPoint, capabilities, effectClass, hmade⟩ := tool.made
  refine ⟨entryPoint, capabilities, effectClass, (ToolManifest.new_eq_ok hmade).2.2.1, ?_⟩
  unfold RegisteredTool.new
  split
  · rename_i manifest hmanifest
    rw [hmade] at hmanifest
    cases hmanifest
    rfl
  · rename_i e he
    rw [hmade] at he
    cases he

/-- Tools with one manifest digest have one identifier, require the same capabilities and
    accept the same input. -/
theorem agree_of_manifestDigest (hcollision : CollisionFree) (htext : JsonTextInjective)
    (hhex : HexInjective) (hcap : CapabilitySerializationInjective) (hround : CapabilityRoundTrip)
    {tool tool' : RegisteredTool} {digest : Digest} (h : tool.manifestDigest = .ok digest)
    (h' : tool'.manifestDigest = .ok digest) :
    tool.manifest.toolId = tool'.manifest.toolId ∧
      (∀ c, c ∈ tool.manifest.requiredCapabilities ↔ c ∈ tool'.manifest.requiredCapabilities) ∧
      ∀ input, tool.validateInput input = .ok () ↔ tool'.validateInput input = .ok () := by
  obtain ⟨entryPoint, capabilities, effectClass, hsorted, hnew⟩ := tool.exists_new
  obtain ⟨entryPoint', capabilities', effectClass', hsorted', hnew'⟩ := tool'.exists_new
  obtain ⟨hid, -, -, -, hcapabilities, hschema, -⟩ :=
    parts_of_manifestDigest hcollision htext hhex hcap hround hnew hnew' h h'
  refine ⟨hid, fun c => ?_, fun input => validateInstance_congr hschema⟩
  rw [mem_sortCapabilities hround hsorted, mem_sortCapabilities hround hsorted', hcapabilities]

-- ============================================================================
-- Registries
-- ============================================================================

namespace ToolRegistry

/-- What a registry holds: identifiers with manifest digests. -/
def entries (tools : ToolRegistry) : List (ToolId × Result Digest) :=
  tools.map fun tool => (tool.manifest.toolId, tool.manifestDigest)

/-- Two registries hold the same tools, in whatever order. -/
def SameTools (tools tools' : ToolRegistry) : Prop :=
  ∀ entry, entry ∈ tools.entries ↔ entry ∈ tools'.entries

/-- The entry of the root for one tool. -/
def rootEntry (pair : ToolId × Digest) : Json :=
  .object [("manifest_digest", .string (Externals.toHex pair.2)), ("tool_id", .string pair.1.value)]

theorem rootEntry_injective (hhex : HexInjective) {p q : ToolId × Digest}
    (h : canonicalizeJson (rootEntry p) = canonicalizeJson (rootEntry q)) : p = q := by
  have hlookup := lookup_of_canonical (by simp) (by simp) h
  have hdigest := hlookup "manifest_digest"
  have hid := hlookup "tool_id"
  simp [Json.lookup_cons] at hdigest hid
  exact Prod.ext (Identifier.value_injective hid) (hhex hdigest)

/-- The entries of the root, tool by tool. -/
theorem mapM_rootEntry {tools : ToolRegistry} {values : List Json} :
    (tools.mapM fun tool => do
        let manifestDigest ← tool.manifestDigest
        return Json.object
          [("manifest_digest", .string (Externals.toHex manifestDigest)),
           ("tool_id", .string tool.manifest.toolId.value)]) = .ok values ↔
      ∃ pairs : List (ToolId × Digest),
        tools.entries = pairs.map (fun pair => (pair.1, .ok pair.2)) ∧
        values = pairs.map rootEntry := by
  simp only [Except.mapM_eq_ok, Except.bind_eq_ok, Except.pure_eq_ok]
  induction tools generalizing values with
  | nil =>
      constructor
      · intro h
        cases h
        exact ⟨[], rfl, rfl⟩
      · rintro ⟨pairs, hpairs, rfl⟩
        obtain rfl : pairs = [] := by simpa [entries] using hpairs.symm
        exact .nil
  | cons tool tools ih =>
      constructor
      · intro h
        cases h with
        | cons hhead htail =>
            obtain ⟨digest, hdigest, rfl⟩ := hhead
            obtain ⟨pairs, hpairs, rfl⟩ := ih.mp htail
            refine ⟨(tool.manifest.toolId, digest) :: pairs, ?_, rfl⟩
            rw [entries] at hpairs ⊢
            rw [List.map_cons, List.map_cons, hpairs, hdigest]
      · rintro ⟨pairs, hpairs, rfl⟩
        cases pairs with
        | nil => cases hpairs
        | cons pair pairs =>
            rw [entries, List.map_cons, List.map_cons, List.cons.injEq, Prod.mk.injEq] at hpairs
            obtain ⟨⟨hid, hdigest⟩, hrest⟩ := hpairs
            refine .cons ⟨pair.2, hdigest, ?_⟩ (ih.mpr ⟨pairs, hrest, rfl⟩)
            rw [rootEntry, hid]

/-- What goes into the root digest. -/
theorem rootDigest_eq_ok {tools : ToolRegistry} {root : Digest} :
    tools.rootDigest = .ok root ↔ ∃ pairs : List (ToolId × Digest),
      tools.entries = pairs.map (fun pair => (pair.1, .ok pair.2)) ∧
      canonicalDigest "aeon-tool-registry-root-v1"
        (sortByKey Externals.jsonText (pairs.map rootEntry)) = .ok root := by
  simp only [rootDigest, Except.bind_eq_ok (x := List.mapM _ _), mapM_rootEntry]
  constructor
  · rintro ⟨_, ⟨pairs, hpairs, rfl⟩, hroot⟩
    exact ⟨pairs, hpairs, hroot⟩
  · rintro ⟨pairs, hpairs, hroot⟩
    exact ⟨_, ⟨pairs, hpairs, rfl⟩, hroot⟩

theorem mem_entries {tools : ToolRegistry} {pairs : List (ToolId × Digest)}
    (hpairs : tools.entries = pairs.map fun pair => (pair.1, .ok pair.2))
    {entry : ToolId × Result Digest} :
    entry ∈ tools.entries ↔ ∃ pair ∈ pairs, entry = (pair.1, .ok pair.2) := by
  rw [hpairs, List.mem_map]
  constructor
  · rintro ⟨pair, hmem, rfl⟩
    exact ⟨pair, hmem, rfl⟩
  · rintro ⟨pair, hmem, rfl⟩
    exact ⟨pair, hmem, rfl⟩

/-- Registries with one root digest hold the same tools. -/
theorem sameTools_of_rootDigest (hcollision : CollisionFree) (htext : JsonTextInjective)
    (hhex : HexInjective) {tools tools' : ToolRegistry} {root : Digest}
    (h : tools.rootDigest = .ok root) (h' : tools'.rootDigest = .ok root) :
    SameTools tools tools' := by
  obtain ⟨pairs, hpairs, hroot⟩ := rootDigest_eq_ok.mp h
  obtain ⟨pairs', hpairs', hroot'⟩ := rootDigest_eq_ok.mp h'
  have hsame := (sameValue_of_canonicalDigest hcollision htext hroot hroot').list
  -- a member of one list agrees with a member of the other, and that makes them equal
  have heq {x y : Json} {p q : ToolId × Digest} (hx : x = rootEntry p) (hy : y = rootEntry q)
      (hxy : SameValue (toValue x) (toValue y)) : p = q := by
    subst hx hy
    obtain ⟨v, w, hv, hw, hcanonical⟩ := hxy
    cases hv
    cases hw
    exact rootEntry_injective hhex hcanonical
  intro entry
  rw [mem_entries hpairs, mem_entries hpairs']
  constructor
  · rintro ⟨pair, hmem, rfl⟩
    obtain ⟨y, hy, hxy⟩ := hsame.exists_of_left (mem_sortByKey.mpr (List.mem_map_of_mem hmem))
    obtain ⟨pair', hmem', rfl⟩ := List.mem_map.mp (mem_sortByKey.mp hy)
    rw [heq rfl rfl hxy]
    exact ⟨pair', hmem', rfl⟩
  · rintro ⟨pair', hmem', rfl⟩
    obtain ⟨x, hx, hxy⟩ := hsame.exists_of_right (mem_sortByKey.mpr (List.mem_map_of_mem hmem'))
    obtain ⟨pair, hmem, rfl⟩ := List.mem_map.mp (mem_sortByKey.mp hx)
    rw [← heq rfl rfl hxy]
    exact ⟨pair, hmem, rfl⟩

theorem find_eq_some {tools : ToolRegistry} {toolId : ToolId} {tool : RegisteredTool}
    (h : tools.find toolId = some tool) : tool ∈ tools ∧ tool.manifest.toolId = toolId :=
  ⟨List.mem_of_find?_eq_some h, by simpa using List.find?_some h⟩

/-- No identifier is registered twice. -/
def Distinct (tools : ToolRegistry) : Prop :=
  (tools.map fun tool => tool.manifest.toolId).Nodup

theorem Distinct.entries_nodup {tools : ToolRegistry} (h : Distinct tools) :
    tools.entries.Nodup := by
  refine List.Nodup.of_map Prod.fst ?_
  rw [entries, List.map_map]
  exact h

/-- With distinct identifiers, an entry has one digest. -/
theorem Distinct.digest_unique {tools : ToolRegistry} (h : Distinct tools) {toolId : ToolId}
    {d d' : Result Digest} (hd : (toolId, d) ∈ tools.entries) (hd' : (toolId, d') ∈ tools.entries) :
    d = d' := by
  obtain ⟨tool, hmem, heq⟩ := List.mem_map.mp hd
  obtain ⟨tool', hmem', heq'⟩ := List.mem_map.mp hd'
  have hsame : tool = tool' := by
    refine List.inj_on_of_nodup_map h hmem hmem' ?_
    rw [(Prod.mk.inj heq).1, (Prod.mk.inj heq').1]
  rw [← (Prod.mk.inj heq).2, ← (Prod.mk.inj heq').2, hsame]

namespace SameTools

variable {tools tools' : ToolRegistry}

/-- Registries with the same tools have one root digest. -/
theorem rootDigest (htext : JsonTextInjective) (hdistinct : Distinct tools)
    (hdistinct' : Distinct tools') (h : SameTools tools tools') {root : Digest}
    (hroot : tools.rootDigest = .ok root) : tools'.rootDigest = .ok root := by
  obtain ⟨pairs, hpairs, hdigest⟩ := rootDigest_eq_ok.mp hroot
  have hperm : tools'.entries.Perm (pairs.map fun pair => (pair.1, .ok pair.2)) := by
    rw [← hpairs]
    exact (List.perm_ext_iff_of_nodup hdistinct'.entries_nodup hdistinct.entries_nodup).mpr
      fun entry => (h entry).symm
  have hcomp := congrFun (congrFun (List.eq_map_comp_perm
    fun pair : ToolId × Digest => (pair.1, (.ok pair.2 : Result Digest))) tools'.entries) pairs
  obtain ⟨pairs', hpairs', hperm'⟩ := hcomp.mpr hperm
  refine rootDigest_eq_ok.mpr ⟨pairs', hpairs', ?_⟩
  have hsorted : sortByKey Externals.jsonText (pairs'.map rootEntry)
      = sortByKey Externals.jsonText (pairs.map rootEntry) :=
    sortByKey_eq_of_perm (hperm'.map rootEntry) fun _ _ _ _ heq => htext heq
  rw [hsorted]
  exact hdigest

/-- Registries with the same tools answer look-ups with the same digests. -/
theorem find (hdistinct : Distinct tools) (h : SameTools tools tools') {toolId : ToolId}
    {tool : RegisteredTool} (hfind : tools.find toolId = some tool) :
    ∃ tool', tools'.find toolId = some tool' ∧ tool'.manifestDigest = tool.manifestDigest := by
  obtain ⟨hmem, hid⟩ := find_eq_some hfind
  have hentry : (toolId, tool.manifestDigest) ∈ tools.entries :=
    List.mem_map.mpr ⟨tool, hmem, by rw [hid]⟩
  obtain ⟨found, hfound, hid'⟩ := List.mem_map.mp ((h _).mp hentry)
  cases hfind' : tools'.find toolId with
  | none =>
      have hnone := List.find?_eq_none.mp hfind' found hfound
      rw [(Prod.mk.inj hid').1] at hnone
      simp at hnone
  | some tool' =>
      obtain ⟨hmem', hid''⟩ := find_eq_some hfind'
      have hentry' : (toolId, tool'.manifestDigest) ∈ tools'.entries :=
        List.mem_map.mpr ⟨tool', hmem', by rw [hid'']⟩
      exact ⟨tool', rfl, hdistinct.digest_unique ((h _).mpr hentry') hentry⟩

end SameTools

-- ============================================================================
-- Capability manifests
-- ============================================================================

/-- The bindings and the root digest of a manifest are those of a registry. -/
structure Binds (tools : ToolRegistry) (manifest : CapabilityManifest) : Prop where
  root : tools.rootDigest = .ok manifest.toolRegistryRootDigest
  bound : ∀ bound ∈ manifest.approvedTools, ∃ tool,
    tools.find bound.toolId = some tool ∧ tool.manifestDigest = .ok bound.toolManifestDigest

/-- The tools of a list of bindings resolve to just these bindings. -/
theorem resolve_bound {tools : ToolRegistry} {bounds : List BoundTool}
    (h : ∀ bound ∈ bounds, ∃ tool, tools.find bound.toolId = some tool ∧
      tool.manifestDigest = .ok bound.toolManifestDigest) :
    ∃ resolved : List RegisteredTool,
      ((bounds.map BoundTool.toolId).mapM fun toolId =>
        (orReject .unknownTool "tool is not registered" (tools.find toolId) : Result _))
        = .ok resolved ∧
      (resolved.mapM fun tool => do
        return BoundTool.mk tool.manifest.toolId (← tool.manifestDigest)) = .ok bounds := by
  simp only [Except.mapM_eq_ok, orReject_eq_ok, Except.bind_eq_ok, Except.pure_eq_ok]
  induction bounds with
  | nil => exact ⟨[], .nil, .nil⟩
  | cons bound bounds ih =>
      obtain ⟨tool, hfind, hdigest⟩ := h bound List.mem_cons_self
      obtain ⟨resolved, hresolved, hbounds⟩ := ih fun b hb => h b (List.mem_cons_of_mem _ hb)
      refine ⟨tool :: resolved, .cons hfind hresolved, .cons ⟨_, hdigest, ?_⟩ hbounds⟩
      rw [(find_eq_some hfind).2]

/-- A manifest that binds a registry refreshes to itself. -/
theorem Binds.refresh {tools : ToolRegistry} {manifest : CapabilityManifest}
    (h : tools.Binds manifest) : tools.refreshCapabilityManifest manifest = .ok manifest := by
  obtain ⟨resolved, hresolved, hbounds⟩ := resolve_bound h.bound
  have hsnapshot : tools.snapshot (manifest.approvedTools.map BoundTool.toolId)
      = .ok ⟨resolved, manifest.approvedTools, manifest.toolRegistryRootDigest⟩ := by
    simp only [snapshot, Except.bind_eq_ok, Except.pure_eq_ok]
    exact ⟨resolved, hresolved, _, hbounds, _, h.root, rfl⟩
  rw [refreshCapabilityManifest, hsnapshot]

/-- A snapshot carries the root digest of the registry. -/
theorem snapshot_rootDigest {tools : ToolRegistry} {toolIds : List ToolId} {snapshot : Snapshot}
    (h : tools.snapshot toolIds = .ok snapshot) : tools.rootDigest = .ok snapshot.rootDigest := by
  simp only [ToolRegistry.snapshot, Except.bind_eq_ok, Except.pure_eq_ok] at h
  obtain ⟨_, -, _, -, root, hroot, rfl⟩ := h
  exact hroot

/-- What is refreshed carries the root digest of the registry. -/
theorem refresh_root {tools : ToolRegistry} {template manifest : CapabilityManifest}
    (h : tools.refreshCapabilityManifest template = .ok manifest) :
    tools.rootDigest = .ok manifest.toolRegistryRootDigest := by
  unfold refreshCapabilityManifest at h
  split at h
  · rename_i snapshot hsnapshot
    cases h
    exact snapshot_rootDigest hsnapshot
  · cases h

/-- What is refreshed binds the registry it was refreshed from. -/
theorem binds_of_refresh {tools : ToolRegistry} {template manifest : CapabilityManifest}
    (h : tools.refreshCapabilityManifest template = .ok manifest) : tools.Binds manifest := by
  refine ⟨refresh_root h, ?_⟩
  unfold refreshCapabilityManifest at h
  split at h
  case h_2 => cases h
  rename_i snapshot hsnapshot
  cases h
  intro bound hbound
  simp only [ToolRegistry.snapshot, Except.bind_eq_ok, Except.pure_eq_ok, Except.mapM_eq_ok,
    orReject_eq_ok] at hsnapshot
  obtain ⟨resolved, hresolved, bounds, hbounds, _, -, rfl⟩ := hsnapshot
  obtain ⟨tool, htool, digest, hdigest, rfl⟩ := hbounds.exists_of_right hbound
  obtain ⟨toolId, -, hfind⟩ := hresolved.exists_of_right htool
  refine ⟨tool, ?_, hdigest⟩
  rw [(find_eq_some hfind).2]
  exact hfind

end ToolRegistry

/-- Manifests with one digest carry one root digest. -/
theorem rootDigest_of_canonicalDigest (hcollision : CollisionFree) (htext : JsonTextInjective)
    (hhex : HexInjective) {a b : CapabilityManifest} {digest : Digest}
    (ha : a.canonicalDigest = .ok digest) (hb : b.canonicalDigest = .ok digest) :
    a.toolRegistryRootDigest = b.toolRegistryRootDigest := by
  simp only [CapabilityManifest.canonicalDigest, Except.bind_eq_ok] at ha hb
  obtain ⟨_, -, _, -, ha⟩ := ha
  obtain ⟨_, -, _, -, hb⟩ := hb
  have hfields := SameValue.fields (sameValue_of_canonicalDigest hcollision htext ha hb) rfl
    (by simp)
  simp only [List.forall₂_cons] at hfields
  obtain ⟨-, -, -, -, -, hroot, -⟩ := hfields
  exact distinguishes_digest hhex _ _ hroot

namespace ToolRegistry

/-- A manifest taken from one registry refreshes to the same digest in another exactly where
    the two hold the same tools. -/
theorem refresh_same_iff (hcollision : CollisionFree) (htext : JsonTextInjective)
    (hhex : HexInjective) {tools tools' : ToolRegistry} (hdistinct : Distinct tools)
    (hdistinct' : Distinct tools') {manifest : CapabilityManifest} (hbinds : tools.Binds manifest)
    {digest : Digest} (hdigest : manifest.canonicalDigest = .ok digest) :
    (∃ refreshed, tools'.refreshCapabilityManifest manifest = .ok refreshed ∧
      refreshed.canonicalDigest = .ok digest) ↔ SameTools tools tools' := by
  constructor
  · rintro ⟨refreshed, hrefreshed, hsame⟩
    have hroot := refresh_root hrefreshed
    rw [← rootDigest_of_canonicalDigest hcollision htext hhex hdigest hsame] at hroot
    exact sameTools_of_rootDigest hcollision htext hhex hbinds.root hroot
  · intro hsame
    have hbinds' : tools'.Binds manifest :=
      { root := hsame.rootDigest htext hdistinct hdistinct' hbinds.root
        bound := by
          intro bound hbound
          obtain ⟨tool, hfind, htool⟩ := hbinds.bound bound hbound
          obtain ⟨tool', hfind', htool'⟩ := hsame.find hdistinct hfind
          exact ⟨tool', hfind', htool'.trans htool⟩ }
    exact ⟨manifest, hbinds'.refresh, hdigest⟩

end ToolRegistry

end

end GenesisRuntime
