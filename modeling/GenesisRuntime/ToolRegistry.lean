/-
  GenesisRuntime.ToolRegistry

  `tool_registry.rs`: tools with their manifests and input schemas, and the
  registry that presents a coherent view of them.

  A `RegisteredTool` can only be obtained from `RegisteredTool::new`, so the type
  carries what `new` established: its manifest is one `ToolManifest::new` makes of
  its own schema and code.
-/

import GenesisRuntime.Agent

namespace GenesisRuntime

-- ============================================================================
-- Schemas
-- ============================================================================

/-- The keywords of the supported schema language. -/
def supportedKeywords : List String := ["type", "required", "properties", "additionalProperties"]

/-- The types a schema can name. -/
def supportedTypes : List String :=
  ["object", "array", "string", "number", "integer", "boolean", "null"]

/-- `validate_schema_definition`. -/
def validateSchemaDefinition (schema : Json) : Result Unit :=
  match schema with
  | .object entries => do
      if let some entry := entries.find? fun entry => entry.1 ∉ supportedKeywords then
        throw ⟨.invalidInput, s!"unsupported schema keyword: {entry.1}"⟩
      if let some schemaType := Json.lookup "type" entries then
        rejectIf (¬ schemaType.asString?.any (· ∈ supportedTypes)) .invalidInput
          "schema type must name a supported primitive type"
      rejectIf (((Json.lookup "required" entries).isSome
            ∨ (Json.lookup "properties" entries).isSome)
          ∧ (Json.lookup "type" entries).bind Json.asString? ≠ some "object")
        .invalidInput "schema required and properties are only supported for type object"
      if let some required := Json.lookup "required" entries then
        let required ← orReject .invalidInput "schema required must be an array"
          required.asArray?
        rejectIf (∃ name ∈ required, name.asString?.isNone) .invalidInput
          "schema required entries must be strings"
      match _hproperties : Json.lookup "properties" entries with
      | none => pure ()
      | some (.object properties) =>
          forM properties.attach fun property => validateSchemaDefinition property.1.2
      | some _ => throw ⟨.invalidInput, "schema properties must be an object"⟩
      rejectIf ((Json.lookup "additionalProperties" entries).any fun value => ¬ value.isBool)
        .invalidInput "schema additionalProperties must be a boolean"
  | _ => throw ⟨.invalidInput, "tool schema must be a JSON object"⟩
termination_by sizeOf schema
decreasing_by
  exact Json.sizeOf_snd_lt_of_mem_object (Json.mem_of_lookup _hproperties) property.2

/-- The `matches` of `validate_instance`. -/
def matchesType (expectedType : String) (value : Json) : Bool :=
  match expectedType, value with
  | "object", .object _ => true
  | "array", .array _ => true
  | "string", .string _ => true
  | "number", .number _ => true
  | "integer", .number (.posInt _) => true
  | "integer", .number (.negInt _) => true
  | "boolean", .bool _ => true
  | "null", .null => true
  | _, _ => false

/-- `validate_instance`. -/
def validateInstance (schema value : Json) (path : String) : Result Unit := do
  if let some expectedType := (schema.get? "type").bind Json.asString? then
    rejectIf (¬ matchesType expectedType value) .invalidInput
      s!"{path} does not match schema type {expectedType}"
  match schema, value with
  | .object schemaObject, .object object => do
      if let some required := (Json.lookup "required" schemaObject).bind Json.asArray? then
        forM (required.filterMap Json.asString?) fun name =>
          rejectIf ((Json.lookup name object).isNone) .invalidInput s!"{path}.{name} is required"
      let properties := (Json.lookup "properties" schemaObject).bind Json.asObject?
      if (Json.lookup "additionalProperties" schemaObject).any Json.isFalse then
        forM (object.map Prod.fst) fun name =>
          rejectIf (¬ properties.any fun known => (Json.lookup name known).isSome) .invalidInput
            s!"{path}.{name} is not allowed"
      match _hproperties : Json.lookup "properties" schemaObject with
      | some (.object properties) =>
          forM properties.attach fun property => do
            if let some value := Json.lookup property.1.1 object then
              validateInstance property.1.2 value s!"{path}.{property.1.1}"
      | _ => pure ()
  | _, _ => pure ()
termination_by sizeOf schema
decreasing_by
  exact Json.sizeOf_snd_lt_of_mem_object (Json.mem_of_lookup _hproperties) property.2

section
variable [Externals]

-- ============================================================================
-- Manifests
-- ============================================================================

/-- `sort_capabilities`. -/
def sortCapabilities (capabilities : List Capability) : Result (List Capability) := do
  let serialized ← capabilities.mapM fun capability =>
    match Externals.capabilityToString capability with
    | .ok text => pure text
    | .error error => throw ⟨.invalidInput, s!"capability serialization failed: {error}"⟩
  let sorted ← (sortByKey id serialized).mapM fun text =>
    match Externals.capabilityFromStr text with
    | .ok capability => pure capability
    | .error error => throw ⟨.invalidInput, s!"capability deserialization failed: {error}"⟩
  return sorted.destutter (· ≠ ·)

/-- `ToolManifest`. -/
structure ToolManifest where
  version : UInt64
  toolId : ToolId
  wasmSha256 : String
  entryPoint : String
  inputSchemaDigest : Digest
  requiredCapabilities : List Capability
  effectClass : EffectClass
  outputSchemaDigest : Option Digest
deriving DecidableEq

namespace ToolManifest

instance : Serialize ToolManifest :=
  ⟨fun manifest => structValue
    [("version", toValue manifest.version),
     ("tool_id", toValue manifest.toolId),
     ("wasm_sha256", toValue manifest.wasmSha256),
     ("entry_point", toValue manifest.entryPoint),
     ("input_schema_digest", toValue manifest.inputSchemaDigest),
     ("required_capabilities", toValue manifest.requiredCapabilities),
     ("effect_class", toValue manifest.effectClass),
     ("output_schema_digest", toValue manifest.outputSchemaDigest)]⟩

/-- `ToolManifest::new`. -/
def new (version : UInt64) (toolId : ToolId) (wasmBytes : List UInt8) (entryPoint : String)
    (inputSchema : Json) (requiredCapabilities : List Capability) (effectClass : EffectClass)
    (outputSchema : Option Json) : Result ToolManifest := do
  rejectIf (version = 0 ∨ wasmBytes.isEmpty ∨ trimIsEmpty entryPoint) .invalidInput
    "tool manifest version, WASM, and entry point must be present"
  validateSchemaDefinition inputSchema
  outputSchema.forM validateSchemaDefinition
  let requiredCapabilities ← sortCapabilities requiredCapabilities
  let inputSchemaDigest ← GenesisRuntime.canonicalDigest "aeon-tool-input-schema-v1" inputSchema
  let outputSchemaDigest ← outputSchema.mapM fun schema =>
    GenesisRuntime.canonicalDigest "aeon-tool-output-schema-v1" schema
  return {
    version := version
    toolId := toolId
    wasmSha256 := Externals.toHex (Externals.sha256 wasmBytes)
    entryPoint := entryPoint
    inputSchemaDigest := inputSchemaDigest
    requiredCapabilities := requiredCapabilities
    effectClass := effectClass
    outputSchemaDigest := outputSchemaDigest }

/-- `ToolManifest::canonical_digest`. -/
def canonicalDigest (manifest : ToolManifest) : Result Digest := do
  let requiredCapabilities ← sortCapabilities manifest.requiredCapabilities
  GenesisRuntime.canonicalDigest "aeon-tool-manifest-v1"
    { manifest with requiredCapabilities := requiredCapabilities }

/-- What `new` has put together. -/
theorem new_eq_ok {version : UInt64} {toolId : ToolId} {wasmBytes : List UInt8}
    {entryPoint : String} {inputSchema : Json} {requiredCapabilities : List Capability}
    {effectClass : EffectClass} {outputSchema : Option Json} {manifest : ToolManifest}
    (h : new version toolId wasmBytes entryPoint inputSchema requiredCapabilities effectClass
      outputSchema = .ok manifest) :
    manifest.toolId = toolId ∧ validateSchemaDefinition inputSchema = .ok () ∧
      sortCapabilities requiredCapabilities = .ok manifest.requiredCapabilities ∧
      GenesisRuntime.canonicalDigest "aeon-tool-input-schema-v1" inputSchema
        = .ok manifest.inputSchemaDigest := by
  simp only [new, Except.bind_eq_ok, Except.pure_eq_ok] at h
  obtain ⟨_, -, _, hschema, _, -, capabilities, hcapabilities, digest, hdigest, _, -, rfl⟩ := h
  exact ⟨rfl, hschema, hcapabilities, hdigest⟩

end ToolManifest

-- ============================================================================
-- Registered tools
-- ============================================================================

/-- What Nexus executes (`nexus::ToolDefinition`), as far as it is set here. -/
structure ToolDefinition where
  name : String
  wasmBytes : List UInt8
  entryPoint : String
  capabilities : List Capability
  inputSchema : Json

/-- `RegisteredTool`. -/
structure RegisteredTool where
  manifest : ToolManifest
  wasmBytes : List UInt8
  inputSchema : Json
  outputSchema : Option Json
  made : ∃ entryPoint requiredCapabilities effectClass,
    ToolManifest.new 1 manifest.toolId wasmBytes entryPoint inputSchema requiredCapabilities
      effectClass outputSchema = .ok manifest

namespace RegisteredTool

/-- `RegisteredTool::new`. -/
def new (toolId : ToolId) (wasmBytes : List UInt8) (entryPoint : String) (inputSchema : Json)
    (requiredCapabilities : List Capability) (effectClass : EffectClass)
    (outputSchema : Option Json) : Result RegisteredTool :=
  match h : ToolManifest.new 1 toolId wasmBytes entryPoint inputSchema requiredCapabilities
      effectClass outputSchema with
  | .ok manifest =>
      .ok ⟨manifest, wasmBytes, inputSchema, outputSchema, entryPoint, requiredCapabilities,
        effectClass, by rw [(ToolManifest.new_eq_ok h).1]; exact h⟩
  | .error e => .error e

/-- `manifest_digest`. -/
def manifestDigest (tool : RegisteredTool) : Result Digest := tool.manifest.canonicalDigest

/-- `validate_input`. -/
def validateInput (tool : RegisteredTool) (input : Json) : Result Unit :=
  validateInstance tool.inputSchema input "$"

/-- `tool_definition`. -/
def toolDefinition (tool : RegisteredTool) : ToolDefinition where
  name := tool.manifest.toolId.value
  wasmBytes := tool.wasmBytes
  entryPoint := tool.manifest.entryPoint
  capabilities := tool.manifest.requiredCapabilities
  inputSchema := tool.inputSchema

end RegisteredTool

-- ============================================================================
-- The registry
-- ============================================================================

/-- The tools a `ToolRegistry` holds under its lock. -/
abbrev ToolRegistry := List RegisteredTool

namespace ToolRegistry

/-- The look-up by id that all of the registry shares. -/
def find (tools : ToolRegistry) (toolId : ToolId) : Option RegisteredTool :=
  tools.find? fun tool => tool.manifest.toolId = toolId

/-- `from_tools`. -/
def fromTools (tools : List RegisteredTool) : Result ToolRegistry := do
  rejectIf (¬ (tools.map fun tool => tool.manifest.toolId).Nodup) .duplicateTool
    "duplicate tool id in trusted registry"
  return tools

/-- `replace`. -/
def replace (replacement : RegisteredTool) (tools : ToolRegistry) : Result ToolRegistry := do
  let position ← orReject .unknownTool "tool is not registered"
    (tools.findIdx? fun tool => tool.manifest.toolId = replacement.manifest.toolId)
  return tools.set position replacement

/-- `root_digest_for_tools`. The members of an entry are in the order of their names. -/
def rootDigest (tools : ToolRegistry) : Result Digest := do
  let entries ← tools.mapM fun tool => do
    let manifestDigest ← tool.manifestDigest
    return Json.object
      [("manifest_digest", .string (Externals.toHex manifestDigest)),
       ("tool_id", .string tool.manifest.toolId.value)]
  GenesisRuntime.canonicalDigest "aeon-tool-registry-root-v1"
    (sortByKey Externals.jsonText entries)

/-- `RegistrySnapshot`. -/
structure Snapshot where
  resolvedTools : List RegisteredTool
  boundTools : List BoundTool
  rootDigest : Digest

/-- `snapshot_for_tools`. -/
def snapshot (tools : ToolRegistry) (toolIds : List ToolId) : Result Snapshot := do
  let resolvedTools ← toolIds.mapM fun toolId =>
    orReject .unknownTool "tool is not registered" (tools.find toolId)
  let boundTools ← resolvedTools.mapM fun tool => do
    return BoundTool.mk tool.manifest.toolId (← tool.manifestDigest)
  return {
    resolvedTools := resolvedTools
    boundTools := boundTools
    rootDigest := ← tools.rootDigest }

/-- `refresh_capability_manifest_for_tools`. -/
def refreshCapabilityManifest (tools : ToolRegistry) (template : CapabilityManifest) :
    Result CapabilityManifest :=
  match tools.snapshot (template.approvedTools.map BoundTool.toolId) with
  | .ok snapshot => .ok
      { template with
        approvedTools := snapshot.boundTools
        toolRegistryRootDigest := snapshot.rootDigest }
  | .error error =>
      .error (if error.code = .unknownTool
        then ⟨.unknownTool, "manifest-bound tool is not registered"⟩ else error)

/-- `resolve_with_capability_manifest`. -/
def resolveWithCapabilityManifest (tools : ToolRegistry) (toolId : ToolId)
    (template : CapabilityManifest) : Result (RegisteredTool × CapabilityManifest) := do
  let selected ← orReject .unknownTool "tool is not registered" (tools.find toolId)
  let manifest ← tools.refreshCapabilityManifest template
  return (selected, manifest)

end ToolRegistry

end

end GenesisRuntime
