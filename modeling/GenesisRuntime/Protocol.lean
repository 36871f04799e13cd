/-
  GenesisRuntime.Protocol

  `protocol.rs`: the closed wire protocol between a model and the runtime.  One
  schema drives the digest the semantic context is bound to and the decoder.

  The text of a decoding error is the one raised here; the position in the input
  that the JSON parser adds to it is left out.
-/

import GenesisRuntime.Digest
import GenesisRuntime.Ids

namespace GenesisRuntime

-- ============================================================================
-- The schema
-- ============================================================================

/-- `DEFAULT_MAX_OUTPUT_BYTES`. -/
def defaultMaxOutputBytes : Nat := 64 * 1024

/-- `ProtocolFieldShape`. -/
inductive ProtocolFieldShape where
  | toolId
  | object
  | string
deriving DecidableEq

namespace ProtocolFieldShape

/-- The `Debug` text of a shape. -/
def debug : ProtocolFieldShape → String
  | .toolId => "ToolId"
  | .object => "Object"
  | .string => "String"

/-- `accepts`. -/
def accepts : ProtocolFieldShape → Json → Bool
  | .toolId, .string _ => true
  | .string, .string _ => true
  | .object, .object _ => true
  | _, _ => false

instance : Serialize ProtocolFieldShape :=
  ⟨fun
    | .toolId => toValue "tool_id"
    | .object => toValue "object"
    | .string => toValue "string"⟩

end ProtocolFieldShape

/-- `ProtocolFieldSchema`. -/
structure ProtocolFieldSchema where
  name : String
  shape : ProtocolFieldShape

instance : Serialize ProtocolFieldSchema :=
  ⟨fun field => structValue [("name", toValue field.name), ("shape", toValue field.shape)]⟩

/-- `ProtocolVariantSchema`. -/
structure ProtocolVariantSchema where
  name : String
  fields : List ProtocolFieldSchema

instance : Serialize ProtocolVariantSchema :=
  ⟨fun variant =>
    structValue [("name", toValue variant.name), ("fields", toValue variant.fields)]⟩

/-- `ProtocolSchema`. -/
structure ProtocolSchema where
  tag : String
  variants : List ProtocolVariantSchema

instance : Serialize ProtocolSchema :=
  ⟨fun schema =>
    structValue [("tag", toValue schema.tag), ("variants", toValue schema.variants)]⟩

def toolIdField : ProtocolFieldSchema := ⟨"tool_id", .toolId⟩
def argumentsField : ProtocolFieldSchema := ⟨"arguments", .object⟩
def resultField : ProtocolFieldSchema := ⟨"result", .string⟩

/-- `TOOL_CALL_SCHEMA`. -/
def toolCallSchema : ProtocolVariantSchema := ⟨"tool_call", [toolIdField, argumentsField]⟩

/-- `FINAL_SCHEMA`. -/
def finalSchema : ProtocolVariantSchema := ⟨"final", [resultField]⟩

/-- `PROTOCOL_SCHEMA`. -/
def protocolSchema : ProtocolSchema := ⟨"kind", [toolCallSchema, finalSchema]⟩

-- ============================================================================
-- Messages
-- ============================================================================

/-- `ToolCallProposal`. -/
structure ToolCallProposal where
  toolId : ToolId
  arguments : Json

/-- `FinalResult`. -/
structure FinalResult where
  result : String
deriving DecidableEq

/-- `AgentMessage`. -/
inductive AgentMessage where
  | toolCall (proposal : ToolCallProposal)
  | final (result : FinalResult)

/-- The entries of `Serialize for AgentMessage`, in the order in which they are written. -/
def AgentMessage.encode : AgentMessage → Except String (List (String × Json))
  | .toolCall ⟨toolId, arguments⟩ => do
      if ¬ argumentsField.shape.accepts arguments then
        throw s!"{argumentsField.name} must have {argumentsField.shape.debug} shape"
      return [(protocolSchema.tag, .string toolCallSchema.name),
        (toolIdField.name, .string toolId.value), (argumentsField.name, arguments)]
  | .final ⟨result⟩ =>
      return [(protocolSchema.tag, .string finalSchema.name), (resultField.name, .string result)]

/-- `take_field`, up to the conversion of the value: the value, and the fields
    that are left. -/
def takeField (values : List (String × Json)) (schema : ProtocolFieldSchema) :
    Except String (Json × List (String × Json)) :=
  match Json.lookup schema.name values with
  | none => .error s!"missing protocol field: {schema.name}"
  | some value =>
      if schema.shape.accepts value then
        .ok (value, values.filter fun entry => entry.1 ≠ schema.name)
      else .error s!"protocol field {schema.name} must have {schema.shape.debug} shape"

/-- The text of a value whose shape is a text. -/
def takeText (values : List (String × Json)) (schema : ProtocolFieldSchema) :
    Except String (String × List (String × Json)) := do
  let (value, rest) ← takeField values schema
  match value.asString? with
  | some text => return (text, rest)
  | none => throw s!"invalid protocol field {schema.name}: expected a string"

/-- The loop over the entries of the message: the name it fails on, if one is
    repeated. -/
def repeatedField (seen : List String) : List (String × Json) → Option String
  | [] => none
  | (name, _) :: rest => if name ∈ seen then some name else repeatedField (name :: seen) rest

/-- `visit_map`, on the entries in the order in which they appear. -/
def AgentMessage.decode (entries : List (String × Json)) : Except String AgentMessage := do
  if let some name := repeatedField [] entries then
    throw s!"duplicate protocol field: {name}"
  let (kind, values) ← takeText entries ⟨protocolSchema.tag, .string⟩
  match protocolSchema.variants.find? fun variant => variant.name = kind with
  | none => throw s!"unknown protocol variant in {protocolSchema.tag}: {kind}"
  | some schema =>
      let known := schema.fields.map ProtocolFieldSchema.name
      -- the map of values is ordered, so the least unknown name is reported
      if let unknown :: _ := sortByKey id ((values.map Prod.fst).filter (· ∉ known)) then
        throw s!"unknown field for {schema.name}: {unknown}"
      if schema.name = toolCallSchema.name then
        let (text, values) ← takeText values toolIdField
        match Identifier.new "tool id" text with
        | .error error => throw s!"invalid protocol field {toolIdField.name}: {error.display}"
        | .ok toolId =>
            let (arguments, _) ← takeField values argumentsField
            return .toolCall ⟨toolId, arguments⟩
      else
        let (result, _) ← takeText values resultField
        return .final ⟨result⟩

section
variable [Externals]

/-- `AgentMessage::schema_digest`. -/
def AgentMessage.schemaDigest : Result Digest :=
  canonicalDigest "aeon-agent-protocol-schema-v1" protocolSchema

/-- `ProtocolGate`. -/
structure ProtocolGate where
  maxOutputBytes : Nat

/-- `ProtocolGate::default`. -/
def ProtocolGate.default : ProtocolGate := ⟨defaultMaxOutputBytes⟩

/-- `ProtocolGate::parse`. -/
def ProtocolGate.parse (gate : ProtocolGate) (raw : String) : Result AgentMessage := do
  rejectIf (raw.utf8ByteSize > gate.maxOutputBytes) .outputTooLarge
    "model output exceeds the protocol size limit"
  match Externals.parseEntries raw >>= AgentMessage.decode with
  | .ok message => return message
  | .error error =>
      throw ⟨.malformedProtocol, s!"invalid closed agent protocol: {error}"⟩

end

end GenesisRuntime
