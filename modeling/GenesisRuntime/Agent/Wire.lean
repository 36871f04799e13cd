/-
  GenesisRuntime.Agent.Wire

  The wire form of an agent specification: the derived decoders of `agent.rs` and of
  what a specification contains, and the check that every decoded specification has
  passed.
-/

import GenesisRuntime.Agent
import GenesisRuntime.Lib.Decode
import GenesisRuntime.Runtime.Reference

namespace GenesisRuntime

-- ============================================================================
-- Validated texts
-- ============================================================================

/-- `serde::de::Error::custom` of an error of the runtime. -/
def decodeChecked {α : Type} (result : Result α) : Except DecodeError α :=
  result.mapError fun error => .custom error.display

@[simp] theorem decodeChecked_eq_ok {α : Type} {result : Result α} {a : α} :
    decodeChecked result = .ok a ↔ result = .ok a := by
  cases result <;> simp [decodeChecked, Except.mapError]

/-- The `deserialize` of the `string_id!` family. -/
def Identifier.deserialize (kind : String) (value : Json) :
    Except DecodeError (Identifier kind) := do
  let text ← fromValue value
  decodeChecked (Identifier.new kind text)

/-- The `deserialize` of the `declarative_text!` family. -/
def DeclarativeText.deserialize (kind : String) (value : Json) :
    Except DecodeError (DeclarativeText kind) := do
  let text ← fromValue value
  decodeChecked (DeclarativeText.new kind text)

instance {kind : String} : Deserialize (Identifier kind) where
  fromValue := Identifier.deserialize kind

instance {kind : String} : Deserialize (DeclarativeText kind) where
  fromValue := DeclarativeText.deserialize kind

theorem DeclarativeText.new_value {kind : String} (text : DeclarativeText kind) :
    DeclarativeText.new kind text.value = .ok text := by
  unfold DeclarativeText.new
  split
  · rfl
  · rename_i e h
    rw [text.valid] at h
    cases h

section
variable {kind : String}

instance : NeverNull (Identifier kind) where
  ne_null h := by
    cases h
    exact Json.noConfusion

instance : LawfulDeserialize (Identifier kind) where
  fromValue_of_toValue {id} json h := by
    cases h
    exact decodeChecked_eq_ok.mpr id.new_value

instance : LawfulDeserialize (DeclarativeText kind) where
  fromValue_of_toValue {text} json h := by
    cases h
    exact decodeChecked_eq_ok.mpr text.new_value

end

-- ============================================================================
-- Structs
-- ============================================================================

/-- What a struct is written as, by the values of its fields. -/
theorem exists_values {fields : List (String × Except String Json)} {value : Json}
    (h : structValue fields = .ok value) : ∃ values,
      value = .object ((fields.map Prod.fst).zip values) ∧
        List.Forall₂ (fun field value => field.2 = .ok value) fields values := by
  obtain ⟨entries, rfl, hentries⟩ := structValue_eq_ok.mp h
  have hnames : entries.map Prod.fst = fields.map Prod.fst :=
    (names_of_forall₂ hentries).symm
  refine ⟨entries.map Prod.snd, congrArg _ (List.zip_of_prod hnames rfl), ?_⟩
  exact List.forall₂_map_right_iff.mpr (hentries.imp fun field entry h => h.2)

theorem StructField.of_check {α : Type} [Deserialize α] {name : String} {value : Json} {a : α}
    (h : fromValue value = .ok a) : (StructField.of α name).check value = .ok () := by
  show (fun _ => ()) <$> fromValue (α := α) value = .ok ()
  rw [h]
  rfl

/-- A struct of one field is read back as it was written. -/
theorem deserializeStruct_of_single {α β : Type} [Serialize α] [Deserialize α]
    [LawfulDeserialize α] (mk : α → β) {name field : String} {a : α} {json : Json}
    (h : structValue [(field, toValue a)] = .ok json) :
    deserializeStruct name [.of α field] (fun source => return mk (← source.read field)) json
      = .ok (mk a) := by
  obtain ⟨values, rfl, hvalues⟩ := exists_values h
  cases hvalues with
  | cons hwritten hnil =>
      cases hnil
      have hread := fromValue_of_toValue hwritten
      refine deserializeStruct_of_presents (by simp) (.cons (StructField.of_check hread) .nil)
        (fun source hlookup => ?_) (.inr ⟨_, rfl, .refl _⟩)
      cases hlookup with
      | cons hlookup _ =>
          have hfield : source.read field = .ok a := FieldSource.read_of_lookup hlookup hread
          rw [hfield]
          rfl

section
variable [Externals] [Deserialize Capability]

-- ============================================================================
-- The parts of a specification
-- ============================================================================

instance : Serialize AuthorityRequest :=
  ⟨fun request => structValue [("capabilities", toValue request.capabilities)]⟩

instance : Deserialize AuthorityRequest where
  fromValue := deserializeStruct "AuthorityRequest" [.of (List Capability) "capabilities"]
    fun source => return ⟨← source.read "capabilities"⟩

instance : Serialize ResourceRequest :=
  ⟨fun request => structValue [("max_steps", toValue request.maxSteps)]⟩

instance : Deserialize ResourceRequest where
  fromValue := deserializeStruct "ResourceRequest" [.of UInt64 "max_steps"]
    fun source => return ⟨← source.read "max_steps"⟩

instance : Serialize SemanticRequirements :=
  ⟨fun requirements => structValue
    [("requested_memory", toValue requirements.requestedMemory),
     ("requested_retrieval_index", toValue requirements.requestedRetrievalIndex),
     ("requested_instruction_profile", toValue requirements.requestedInstructionProfile)]⟩

instance : Deserialize SemanticRequirements where
  fromValue := deserializeStruct "SemanticRequirements"
    [.of (Option MemoryRef) "requested_memory",
     .of (Option RetrievalIndexRef) "requested_retrieval_index",
     .of (Option InstructionProfileRef) "requested_instruction_profile"]
    fun source => do
      let requestedMemory ← source.read "requested_memory"
      let requestedRetrievalIndex ← source.read "requested_retrieval_index"
      let requestedInstructionProfile ← source.read "requested_instruction_profile"
      return { requestedMemory, requestedRetrievalIndex, requestedInstructionProfile }

-- ============================================================================
-- Specifications
-- ============================================================================

instance : Serialize AgentSpec :=
  ⟨fun spec => structValue
    [("role", toValue spec.role),
     ("objective", toValue spec.objective),
     ("requested_model", toValue spec.requestedModel),
     ("requested_tools", toValue spec.requestedTools),
     ("requested_authority", toValue spec.requestedAuthority),
     ("output_contract", toValue spec.outputContract),
     ("resource_budget", toValue spec.resourceBudget),
     ("semantic_requirements", toValue spec.semanticRequirements)]⟩

/-- The fields of `AgentSpecWire`. -/
def agentSpecWireFields : List StructField :=
  [.of Role "role",
   .of Objective "objective",
   .of ModelRef "requested_model",
   .of (List ToolId) "requested_tools",
   .of AuthorityRequest "requested_authority",
   .of Contract "output_contract",
   .of ResourceRequest "resource_budget",
   .of SemanticRequirements "semantic_requirements"]

/-- The derived decoder of `AgentSpecWire`. -/
def deserializeAgentSpecWire : Json → Except DecodeError AgentSpec :=
  deserializeStruct "AgentSpecWire" agentSpecWireFields fun source => do
    let role ← source.read "role"
    let objective ← source.read "objective"
    let requestedModel ← source.read "requested_model"
    let requestedTools ← source.read "requested_tools"
    let requestedAuthority ← source.read "requested_authority"
    let outputContract ← source.read "output_contract"
    let resourceBudget ← source.read "resource_budget"
    let semanticRequirements ← source.read "semantic_requirements"
    return { role, objective, requestedModel, requestedTools, requestedAuthority, outputContract,
             resourceBudget, semanticRequirements }

/-- `AgentSpec::deserialize`. -/
def AgentSpec.deserialize (value : Json) : Except DecodeError AgentSpec := do
  let spec ← deserializeAgentSpecWire value
  decodeChecked spec.validate
  return spec

instance : Deserialize AgentSpec where
  fromValue := AgentSpec.deserialize

-- ============================================================================
-- Reading back
-- ============================================================================

instance [LawfulDeserialize Capability] : LawfulDeserialize AuthorityRequest where
  fromValue_of_toValue h := deserializeStruct_of_single AuthorityRequest.mk h

instance : LawfulDeserialize ResourceRequest where
  fromValue_of_toValue h := deserializeStruct_of_single ResourceRequest.mk h

instance : LawfulDeserialize SemanticRequirements where
  fromValue_of_toValue {requirements} json h := by
    obtain ⟨values, rfl, hvalues⟩ := exists_values h
    simp only [List.forall₂_cons_left_iff, List.forall₂_nil_left_iff] at hvalues
    obtain ⟨memory, _, hmemory, ⟨index, _, hindex, ⟨profile, _, hprofile, rfl, rfl⟩, rfl⟩, rfl⟩ :=
      hvalues
    have hmemory := fromValue_of_toValue hmemory
    have hindex := fromValue_of_toValue hindex
    have hprofile := fromValue_of_toValue hprofile
    refine deserializeStruct_of_presents (by simp [StructField.of])
      (.cons (StructField.of_check hmemory) (.cons (StructField.of_check hindex)
        (.cons (StructField.of_check hprofile) .nil)))
      (fun source hlookup => ?_) (.inr ⟨_, rfl, .refl _⟩)
    simp only [StructField.of, List.map_cons, List.map_nil, List.forall₂_cons, List.Forall₂.nil,
      and_true] at hlookup
    obtain ⟨hmemory', hindex', hprofile'⟩ := hlookup
    rw [FieldSource.read_of_lookup hmemory' hmemory, FieldSource.read_of_lookup hindex' hindex,
      FieldSource.read_of_lookup hprofile' hprofile]
    rfl

-- ============================================================================
-- The wire form
-- ============================================================================

/-- What it takes of a value to decode to a field of a specification, field by field. -/
def AgentSpec.reads (spec : AgentSpec) : List (Json → Prop) :=
  [(fromValue · = .ok spec.role),
   (fromValue · = .ok spec.objective),
   (fromValue · = .ok spec.requestedModel),
   (fromValue · = .ok spec.requestedTools),
   (fromValue · = .ok spec.requestedAuthority),
   (fromValue · = .ok spec.outputContract),
   (fromValue · = .ok spec.resourceBudget),
   (fromValue · = .ok spec.semanticRequirements)]

/-- The values decode to the fields of the specification, in their order. -/
def AgentSpec.ReadFrom (spec : AgentSpec) (values : List Json) : Prop :=
  List.Forall₂ (fun reads value => reads value) spec.reads values

/-- The derived decoder accepts the presentations of values that decode, and nothing else. -/
theorem deserializeAgentSpecWire_eq_ok {value : Json} {spec : AgentSpec} :
    deserializeAgentSpecWire value = .ok spec ↔ ∃ values, spec.ReadFrom values ∧
      Presents (agentSpecWireFields.map StructField.name) values value := by
  refine deserializeStruct_eq_ok (by simp [agentSpecWireFields, StructField.of])
    (fun source spec => ?_) (fun spec => ?_)
  · simp only [AgentSpec.reads, agentSpecWireFields, StructField.of, Except.bind_eq_ok,
      Except.pure_eq_ok, List.map_cons, List.map_nil, List.forall₂_cons, List.Forall₂.nil, and_true]
    constructor
    · rintro ⟨role, hrole, objective, hobjective, model, hmodel, tools, htools, authority,
        hauthority, contract, hcontract, budget, hbudget, requirements, hrequirements, rfl⟩
      exact ⟨(FieldSource.read_eq_ok rfl).mp hrole, (FieldSource.read_eq_ok rfl).mp hobjective,
        (FieldSource.read_eq_ok rfl).mp hmodel, (FieldSource.read_eq_ok rfl).mp htools,
        (FieldSource.read_eq_ok rfl).mp hauthority, (FieldSource.read_eq_ok rfl).mp hcontract,
        (FieldSource.read_eq_ok rfl).mp hbudget, (FieldSource.read_eq_ok rfl).mp hrequirements⟩
    · rintro ⟨hrole, hobjective, hmodel, htools, hauthority, hcontract, hbudget, hrequirements⟩
      exact ⟨_, (FieldSource.read_eq_ok rfl).mpr hrole,
        _, (FieldSource.read_eq_ok rfl).mpr hobjective, _, (FieldSource.read_eq_ok rfl).mpr hmodel,
        _, (FieldSource.read_eq_ok rfl).mpr htools, _, (FieldSource.read_eq_ok rfl).mpr hauthority,
        _, (FieldSource.read_eq_ok rfl).mpr hcontract, _, (FieldSource.read_eq_ok rfl).mpr hbudget,
        _, (FieldSource.read_eq_ok rfl).mpr hrequirements, rfl⟩
  · simp only [AgentSpec.reads, agentSpecWireFields, List.forall₂_cons, List.Forall₂.nil, and_true]
    exact ⟨fun _ => StructField.of_check, fun _ => StructField.of_check,
      fun _ => StructField.of_check, fun _ => StructField.of_check,
      fun _ => StructField.of_check, fun _ => StructField.of_check,
      fun _ => StructField.of_check, fun _ => StructField.of_check⟩

/-- What is written of a specification decodes to its fields. -/
theorem deserializeAgentSpecWire_of_toValue [LawfulDeserialize Capability] {spec : AgentSpec}
    {value : Json} (h : toValue spec = .ok value) :
    deserializeAgentSpecWire value = .ok spec := by
  obtain ⟨values, rfl, hvalues⟩ := exists_values h
  refine deserializeAgentSpecWire_eq_ok.mpr ⟨values, ?_, .inr ⟨_, rfl, .refl _⟩⟩
  refine forall₂_carry ?_ hvalues
  simp only [AgentSpec.reads, List.forall₂_cons, List.Forall₂.nil, and_true]
  exact ⟨fun _ => fromValue_of_toValue, fun _ => fromValue_of_toValue,
    fun _ => fromValue_of_toValue, fun _ => fromValue_of_toValue,
    fun _ => fromValue_of_toValue, fun _ => fromValue_of_toValue,
    fun _ => fromValue_of_toValue, fun _ => fromValue_of_toValue⟩

/-- The wire form of specifications is exact.  A value decodes to a specification if and only
    if the specification is valid and the value presents its fields, as an object in some order
    or as an array in theirs.  Every specification that is written is read back as it was, or
    refused with the error of its own check. -/
theorem agent_spec_wire_is_exact [LawfulDeserialize Capability] :
    (∀ (value : Json) (spec : AgentSpec), fromValue value = .ok spec ↔
      spec.validate = .ok () ∧ ∃ values, spec.ReadFrom values ∧
        Presents (agentSpecWireFields.map StructField.name) values value) ∧
    ∀ (spec : AgentSpec) (value : Json), toValue spec = .ok value →
      (spec.validate = .ok () → fromValue value = .ok spec) ∧
      ∀ e, spec.validate = .error e → fromValue (α := AgentSpec) value
        = .error (.custom e.display) := by
  have hvalue (value : Json) : fromValue value = (deserializeAgentSpecWire value >>= fun spec =>
      decodeChecked spec.validate >>= fun _ => .ok spec) := rfl
  refine ⟨fun value spec => ?_, fun spec value hwritten => ?_⟩
  · rw [← deserializeAgentSpecWire_eq_ok, hvalue]
    simp only [Except.bind_eq_ok, Except.exists_unit, decodeChecked_eq_ok, Except.ok.injEq]
    constructor
    · rintro ⟨spec, hspec, hvalid, rfl⟩
      exact ⟨hvalid, hspec⟩
    · rintro ⟨hvalid, hspec⟩
      exact ⟨spec, hspec, hvalid, rfl⟩
  · rw [hvalue, deserializeAgentSpecWire_of_toValue hwritten]
    refine ⟨fun hvalid => ?_, fun e hinvalid => ?_⟩
    · show (decodeChecked spec.validate >>= fun _ => Except.ok spec) = .ok spec
      rw [hvalid]
      rfl
    · show (decodeChecked spec.validate >>= fun _ => Except.ok spec) = .error (.custom e.display)
      rw [hinvalid]
      rfl

end

/-- The capabilities of the reference, by their names. -/
def Reference.capabilityFromValue : Json → Except DecodeError Reference.Capability
  | .string text =>
      if text = Capability.all.name then .ok .all
      else if text = Capability.fileRead.name then .ok .fileRead
      else if text = Capability.network.name then .ok .network
      else .error (.custom "unknown variant")
  | found => .error (.invalidType found "variant identifier")

/-- The specification of the reference, written and read back. -/
theorem agent_spec_wire_is_exact_reference : letI := Reference.externals
    letI : Deserialize Capability := ⟨Reference.capabilityFromValue, none⟩
    ∃ value, toValue Reference.spec = .ok value ∧ fromValue value = .ok Reference.spec := by
  let := Reference.externals
  let : Deserialize Capability := ⟨Reference.capabilityFromValue, none⟩
  have : LawfulDeserialize Capability := ⟨fun {capability} json h => by
    cases h
    cases capability <;> rfl⟩
  obtain ⟨value, hvalue⟩ : ∃ value, toValue Reference.spec = .ok value := ⟨_, rfl⟩
  have hvalid : Reference.spec.validate = .ok () := by decide +kernel
  exact ⟨value, hvalue, (agent_spec_wire_is_exact.2 Reference.spec value hvalue).1 hvalid⟩

end GenesisRuntime
