/-
  GenesisRuntime.Protocol.Wire

  The wire language of the protocol.  Three artifacts describe a message: the
  decoder, the encoder and the schema descriptor whose digest the semantic context
  carries.  Everything goes through one equation: an object decodes to a message
  exactly when it is, up to order, what the message encodes to.
-/

import GenesisRuntime.Context

namespace GenesisRuntime

-- ============================================================================
-- The language of a schema
-- ============================================================================

/-- The values a field of this shape stands for. -/
def ProtocolFieldShape.Describes : ProtocolFieldShape → Json → Prop
  | .toolId, value => ∃ text, value = .string text ∧ validateIdentifier "tool id" text = .ok ()
  | .object, value => ∃ entries, value = .object entries
  | .string, value => ∃ text, value = .string text

/-- The objects of a variant: the tag and the fields, each once and with a value of
    its shape. -/
def ProtocolVariantSchema.Describes (variant : ProtocolVariantSchema) (tag : String)
    (entries : List (String × Json)) : Prop :=
  (entries.map Prod.fst).Perm (tag :: variant.fields.map ProtocolFieldSchema.name) ∧
    Json.lookup tag entries = some (.string variant.name) ∧
    ∀ field ∈ variant.fields, ∃ value,
      Json.lookup field.name entries = some value ∧ field.shape.Describes value

/-- The objects of a schema. -/
def ProtocolSchema.Describes (schema : ProtocolSchema) (entries : List (String × Json)) : Prop :=
  ∃ variant ∈ schema.variants, variant.Describes schema.tag entries

-- ============================================================================
-- The parts of the decoder
-- ============================================================================

theorem repeatedField_eq_none {entries : List (String × Json)} {seen : List String} :
    repeatedField seen entries = none ↔
      (entries.map Prod.fst).Nodup ∧ ∀ name ∈ entries.map Prod.fst, name ∉ seen := by
  induction entries generalizing seen with
  | nil => simp [repeatedField]
  | cons entry rest ih =>
      obtain ⟨name, value⟩ := entry
      rw [repeatedField]
      by_cases h : name ∈ seen
      · rw [if_pos h]
        simp [h]
      · rw [if_neg h, ih]
        simp only [List.map_cons, List.nodup_cons, List.mem_cons, forall_eq_or_imp, not_or]
        constructor
        · rintro ⟨hnd, hrest⟩
          exact ⟨⟨fun hmem => (hrest name hmem).1 rfl, hnd⟩, h, fun a ha => (hrest a ha).2⟩
        · rintro ⟨⟨hname, hnd⟩, -, hrest⟩
          refine ⟨hnd, fun a ha => ⟨?_, hrest a ha⟩⟩
          rintro rfl
          exact hname ha

theorem takeField_eq_ok {values rest : List (String × Json)} {schema : ProtocolFieldSchema}
    {value : Json} :
    takeField values schema = .ok (value, rest) ↔
      Json.lookup schema.name values = some value ∧ schema.shape.accepts value = true ∧
        rest = values.filter fun entry => entry.1 ≠ schema.name := by
  unfold takeField
  split
  · rename_i hlookup
    simp [hlookup]
  · rename_i found hlookup
    split
    · rename_i haccepts
      simp only [Except.ok.injEq, Prod.mk.injEq, hlookup, Option.some.injEq]
      constructor
      · rintro ⟨rfl, rfl⟩
        exact ⟨rfl, haccepts, rfl⟩
      · rintro ⟨rfl, -, rfl⟩
        exact ⟨rfl, rfl⟩
    · rename_i haccepts
      simp only [reduceCtorEq, hlookup, Option.some.injEq, false_iff, not_and]
      rintro rfl hshape
      exact absurd hshape haccepts

/-- The shapes whose value is taken as a text. -/
theorem takeText_eq_ok {values rest : List (String × Json)} {schema : ProtocolFieldSchema}
    {text : String} (hshape : schema.shape ≠ .object) :
    takeText values schema = .ok (text, rest) ↔
      Json.lookup schema.name values = some (.string text) ∧
        rest = values.filter fun entry => entry.1 ≠ schema.name := by
  have haccepts : ∀ value, schema.shape.accepts value = true ↔ ∃ t, value = .string t := by
    intro value
    cases hs : schema.shape with
    | object => exact absurd hs hshape
    | toolId => cases value <;> simp [ProtocolFieldShape.accepts]
    | string => cases value <;> simp [ProtocolFieldShape.accepts]
  simp only [takeText, Except.bind_eq_ok, Prod.exists, takeField_eq_ok, haccepts]
  constructor
  · rintro ⟨value, left, ⟨hlookup, ⟨t, rfl⟩, rfl⟩, h⟩
    cases h
    exact ⟨hlookup, rfl⟩
  · rintro ⟨hlookup, rfl⟩
    exact ⟨_, _, ⟨hlookup, ⟨text, rfl⟩, rfl⟩, rfl⟩

/-- The last step of the decoder: the fields of the variant that was found. -/
def readFields (schema : ProtocolVariantSchema) (values : List (String × Json)) :
    Except String AgentMessage :=
  if schema.name = toolCallSchema.name then do
    let (text, values) ← takeText values toolIdField
    match Identifier.new "tool id" text with
    | .error error => throw s!"invalid protocol field {toolIdField.name}: {error.display}"
    | .ok toolId =>
        let (arguments, _) ← takeField values argumentsField
        return .toolCall ⟨toolId, arguments⟩
  else do
    let (result, _) ← takeText values resultField
    return .final ⟨result⟩

/-- No name is unknown exactly when the loop that looks for one finds nothing. -/
theorem unknown_eq_nil {names known : List String} :
    sortByKey id (names.filter (· ∉ known)) = [] ↔ ∀ name ∈ names, name ∈ known := by
  have hnil : sortByKey id (names.filter (· ∉ known)) = [] ↔ names.filter (· ∉ known) = [] := by
    rw [← List.length_eq_zero_iff, (sortByKey_perm id _).length_eq, List.length_eq_zero_iff]
  rw [hnil, List.filter_eq_nil_iff]
  simp

theorem eq_nil_of_ne_cons {α : Type} {xs : List α}
    (h : ∀ (x : α) (rest : List α), xs = x :: rest → False) : xs = [] := by
  cases xs with
  | nil => rfl
  | cons x rest => exact absurd rfl (h x rest)

/-- A variant is found by its name. -/
theorem find_variant {variant : ProtocolVariantSchema} (h : variant ∈ protocolSchema.variants) :
    protocolSchema.variants.find? (fun v => v.name = variant.name) = some variant := by
  rcases List.mem_cons.mp h with rfl | h
  · rfl
  · rcases List.mem_singleton.mp h with rfl
    rfl

/-- The decoder, as the checks it makes. -/
theorem decode_eq_ok {entries : List (String × Json)} {message : AgentMessage} :
    AgentMessage.decode entries = .ok message ↔
      (entries.map Prod.fst).Nodup ∧ ∃ variant ∈ protocolSchema.variants,
        Json.lookup "kind" entries = some (.string variant.name) ∧
        (∀ name ∈ entries.map Prod.fst,
          name = "kind" ∨ name ∈ variant.fields.map ProtocolFieldSchema.name) ∧
        readFields variant (entries.filter fun entry => entry.1 ≠ "kind") = .ok message := by
  have hrest : ∀ known : List String,
      (∀ name ∈ (entries.filter fun entry => entry.1 ≠ "kind").map Prod.fst, name ∈ known) ↔
        ∀ name ∈ entries.map Prod.fst, name = "kind" ∨ name ∈ known := by
    intro known
    simp only [List.mem_map, List.mem_filter, decide_eq_true_eq]
    grind
  unfold AgentMessage.decode
  split
  · rename_i name hrepeated
    have hnd : ¬ (entries.map Prod.fst).Nodup := by
      intro hnd
      rw [repeatedField_eq_none.mpr ⟨hnd, by simp⟩] at hrepeated
      cases hrepeated
    constructor
    · intro h
      cases h
    · rintro ⟨h, -⟩
      exact absurd h hnd
  · rename_i hrepeated
    have hnone : repeatedField [] entries = none := Option.eq_none_iff_forall_ne_some.mpr hrepeated
    have hnd := (repeatedField_eq_none.mp hnone).1
    have htag : (⟨protocolSchema.tag, .string⟩ : ProtocolFieldSchema).shape ≠ .object := by
      intro h
      cases h
    simp only [Except.bind_eq_ok, Prod.exists, takeText_eq_ok htag]
    constructor
    · rintro ⟨kind, values, ⟨hkind, rfl⟩, h⟩
      split at h
      · cases h
      · rename_i variant hfind
        have hname : variant.name = kind := by simpa using List.find?_some hfind
        refine ⟨hnd, variant, List.mem_of_find?_eq_some hfind, hname ▸ hkind, ?_⟩
        split at h
        · cases h
        · rename_i hunknown
          have hnil := eq_nil_of_ne_cons hunknown
          exact ⟨(hrest _).mp (unknown_eq_nil.mp hnil), h⟩
    · rintro ⟨-, variant, hmem, hkind, hnames, h⟩
      have hfind : protocolSchema.variants.find? (fun v => v.name = variant.name)
          = some variant := find_variant hmem
      have hnil := unknown_eq_nil.mpr ((hrest _).mpr hnames)
      refine ⟨variant.name, _, ⟨hkind, rfl⟩, ?_⟩
      rw [hfind]
      dsimp only
      rw [show protocolSchema.tag = "kind" from rfl, hnil]
      exact h

/-- The fields of a tool call. -/
theorem readFields_toolCall {values : List (String × Json)} {message : AgentMessage} :
    readFields toolCallSchema values = .ok message ↔
      ∃ (toolId : ToolId) (members : List (String × Json)),
        message = .toolCall ⟨toolId, .object members⟩ ∧
        Json.lookup "tool_id" values = some (.string toolId.value) ∧
        Json.lookup "arguments" values = some (.object members) := by
  have hshape : toolIdField.shape ≠ .object := by
    intro h
    cases h
  have hother : "arguments" ≠ toolIdField.name := by decide
  rw [readFields, if_pos rfl]
  simp only [Except.bind_eq_ok, Prod.exists, takeText_eq_ok hshape]
  constructor
  · rintro ⟨text, rest, ⟨hid, rfl⟩, h⟩
    split at h
    · cases h
    · rename_i toolId hnew
      simp only [Except.bind_eq_ok, Prod.exists, takeField_eq_ok, Except.pure_eq_ok] at h
      obtain ⟨arguments, _, ⟨harguments, haccepts, -⟩, rfl⟩ := h
      obtain ⟨members, rfl⟩ : ∃ members, arguments = .object members := by
        cases arguments with
        | object members => exact ⟨members, rfl⟩
        | _ => cases haccepts
      refine ⟨toolId, members, rfl, ?_, ?_⟩
      · rw [Identifier.new_eq_ok hnew]
        exact hid
      · rw [← Json.lookup_filter_ne hother]
        exact harguments
  · rintro ⟨toolId, members, rfl, hid, harguments⟩
    refine ⟨toolId.value, _, ⟨hid, rfl⟩, ?_⟩
    rw [Identifier.new_value]
    simp only [Except.bind_eq_ok, Prod.exists, takeField_eq_ok, Except.pure_eq_ok]
    refine ⟨.object members, _, ⟨?_, rfl, rfl⟩, rfl⟩
    rw [← Json.lookup_filter_ne hother] at harguments
    exact harguments

/-- The fields of a final message. -/
theorem readFields_final {values : List (String × Json)} {message : AgentMessage} :
    readFields finalSchema values = .ok message ↔
      ∃ result, message = .final ⟨result⟩ ∧
        Json.lookup "result" values = some (.string result) := by
  have hshape : resultField.shape ≠ .object := by
    intro h
    cases h
  have hname : finalSchema.name ≠ toolCallSchema.name := by decide
  rw [readFields, if_neg hname]
  simp only [Except.bind_eq_ok, Prod.exists, takeText_eq_ok hshape, Except.pure_eq_ok]
  constructor
  · rintro ⟨result, _, ⟨hresult, rfl⟩, rfl⟩
    exact ⟨result, rfl, hresult⟩
  · rintro ⟨result, rfl, hresult⟩
    exact ⟨result, _, ⟨hresult, rfl⟩, rfl⟩

-- ============================================================================
-- Messages and objects
-- ============================================================================

/-- The entries of a tool call with object arguments, as they are written. -/
def toolCallEntries (toolId : ToolId) (members : List (String × Json)) : List (String × Json) :=
  [("kind", .string "tool_call"), ("tool_id", .string toolId.value),
   ("arguments", .object members)]

/-- The entries of a final message, as they are written. -/
def finalEntries (result : String) : List (String × Json) :=
  [("kind", .string "final"), ("result", .string result)]

/-- What encodes, and to what. -/
theorem encode_eq_ok {message : AgentMessage} {encoded : List (String × Json)} :
    message.encode = .ok encoded ↔
      (∃ toolId members, message = .toolCall ⟨toolId, .object members⟩ ∧
        encoded = toolCallEntries toolId members) ∨
      ∃ result, message = .final ⟨result⟩ ∧ encoded = finalEntries result := by
  cases message with
  | final proposal =>
      obtain ⟨result⟩ := proposal
      constructor
      · intro h
        cases h
        exact .inr ⟨result, rfl, rfl⟩
      · rintro (⟨_, _, h, -⟩ | ⟨_, h, rfl⟩)
        · cases h
        · cases h
          rfl
  | toolCall proposal =>
      obtain ⟨toolId, arguments⟩ := proposal
      constructor
      · intro h
        cases arguments with
        | object members =>
            cases h
            exact .inl ⟨toolId, members, rfl, rfl⟩
        | _ => cases h
      · rintro (⟨_, _, h, rfl⟩ | ⟨_, h, -⟩)
        · cases h
          rfl
        · cases h

/-- The presentations of a tool call. -/
theorem perm_toolCallEntries {entries : List (String × Json)} {toolId : ToolId}
    {members : List (String × Json)} :
    (toolCallEntries toolId members).Perm entries ↔
      (entries.map Prod.fst).Nodup ∧
        (∀ name ∈ entries.map Prod.fst,
          name = "kind" ∨ name = "tool_id" ∨ name = "arguments") ∧
        Json.lookup "kind" entries = some (.string "tool_call") ∧
        Json.lookup "tool_id" entries = some (.string toolId.value) ∧
        Json.lookup "arguments" entries = some (.object members) := by
  have hnd : ((toolCallEntries toolId members).map Prod.fst).Nodup := by
    simp [toolCallEntries]
  rw [Json.perm_iff_lookup hnd]
  simp [toolCallEntries]

/-- The presentations of a final message. -/
theorem perm_finalEntries {entries : List (String × Json)} {result : String} :
    (finalEntries result).Perm entries ↔
      (entries.map Prod.fst).Nodup ∧
        (∀ name ∈ entries.map Prod.fst, name = "kind" ∨ name = "result") ∧
        Json.lookup "kind" entries = some (.string "final") ∧
        Json.lookup "result" entries = some (.string result) := by
  have hnd : ((finalEntries result).map Prod.fst).Nodup := by
    simp [finalEntries]
  rw [Json.perm_iff_lookup hnd]
  simp [finalEntries]

/-- An object decodes to a message exactly when it is, up to order, what the message
    encodes to. -/
theorem decode_eq_ok_iff_encode {entries : List (String × Json)} {message : AgentMessage} :
    AgentMessage.decode entries = .ok message ↔
      ∃ encoded, message.encode = .ok encoded ∧ encoded.Perm entries := by
  have hlookup : ∀ name, name ≠ "kind" →
      Json.lookup name (entries.filter fun entry => entry.1 ≠ "kind") = Json.lookup name entries :=
    fun name hne => Json.lookup_filter_ne hne entries
  have hread : ∀ variant ∈ protocolSchema.variants,
      variant = toolCallSchema ∨ variant = finalSchema := by
    intro variant h
    simpa [protocolSchema] using h
  rw [decode_eq_ok]
  constructor
  · rintro ⟨hnd, variant, hmem, hkind, hnames, h⟩
    rcases hread variant hmem with rfl | rfl
    · obtain ⟨toolId, members, rfl, hid, harguments⟩ := readFields_toolCall.mp h
      rw [hlookup _ (by decide)] at hid harguments
      refine ⟨_, encode_eq_ok.mpr (.inl ⟨toolId, members, rfl, rfl⟩),
        perm_toolCallEntries.mpr ⟨hnd, ?_, hkind, hid, harguments⟩⟩
      simpa [toolCallSchema, toolIdField, argumentsField] using hnames
    · obtain ⟨result, rfl, hresult⟩ := readFields_final.mp h
      rw [hlookup _ (by decide)] at hresult
      refine ⟨_, encode_eq_ok.mpr (.inr ⟨result, rfl, rfl⟩),
        perm_finalEntries.mpr ⟨hnd, ?_, hkind, hresult⟩⟩
      simpa [finalSchema, resultField] using hnames
  · rintro ⟨encoded, hencode, hperm⟩
    rcases encode_eq_ok.mp hencode with ⟨toolId, members, rfl, rfl⟩ | ⟨result, rfl, rfl⟩
    · obtain ⟨hnd, hnames, hkind, hid, harguments⟩ := perm_toolCallEntries.mp hperm
      refine ⟨hnd, toolCallSchema, by simp [protocolSchema], hkind, ?_,
        readFields_toolCall.mpr ⟨toolId, members, rfl, ?_, ?_⟩⟩
      · simpa [toolCallSchema, toolIdField, argumentsField] using hnames
      · rw [hlookup _ (by decide)]
        exact hid
      · rw [hlookup _ (by decide)]
        exact harguments
    · obtain ⟨hnd, hnames, hkind, hresult⟩ := perm_finalEntries.mp hperm
      refine ⟨hnd, finalSchema, by simp [protocolSchema], hkind, ?_,
        readFields_final.mpr ⟨result, rfl, ?_⟩⟩
      · simpa [finalSchema, resultField] using hnames
      · rw [hlookup _ (by decide)]
        exact hresult

/-- What the decoder accepts, field by field. -/
theorem decode_accepts_iff {entries : List (String × Json)} :
    (∃ message, AgentMessage.decode entries = .ok message) ↔
      (∃ (toolId : ToolId) (members : List (String × Json)),
        (toolCallEntries toolId members).Perm entries) ∨
      ∃ result, (finalEntries result).Perm entries := by
  simp only [decode_eq_ok_iff_encode, encode_eq_ok]
  constructor
  · rintro ⟨message, encoded, ⟨toolId, members, rfl, rfl⟩ | ⟨result, rfl, rfl⟩, hperm⟩
    · exact .inl ⟨toolId, members, hperm⟩
    · exact .inr ⟨result, hperm⟩
  · rintro (⟨toolId, members, hperm⟩ | ⟨result, hperm⟩)
    · exact ⟨_, _, .inl ⟨toolId, members, rfl, rfl⟩, hperm⟩
    · exact ⟨_, _, .inr ⟨result, rfl, rfl⟩, hperm⟩

/-- A list holds exactly these names when they are found and nothing else occurs. -/
theorem names_eq_of_lookup {entries : List (String × Json)} {names : List String}
    (hknown : ∀ name ∈ entries.map Prod.fst, name ∈ names)
    (hfound : ∀ name ∈ names, ∃ value, Json.lookup name entries = some value) (name : String) :
    name ∈ entries.map Prod.fst ↔ name ∈ names := by
  constructor
  · exact hknown name
  · intro hname
    obtain ⟨value, hvalue⟩ := hfound name hname
    exact List.mem_map.mpr ⟨_, Json.mem_of_lookup hvalue, rfl⟩

/-- What the decoder accepts, in terms of names and shapes. -/
theorem decode_accepts_iff_fields {entries : List (String × Json)} :
    (∃ message, AgentMessage.decode entries = .ok message) ↔
      (entries.map Prod.fst).Nodup ∧
        ((∀ name, name ∈ entries.map Prod.fst ↔ name ∈ ["kind", "tool_id", "arguments"]) ∧
            Json.lookup "kind" entries = some (.string "tool_call") ∧
            (∃ text, Json.lookup "tool_id" entries = some (.string text) ∧
              validateIdentifier "tool id" text = .ok ()) ∧
            (∃ members, Json.lookup "arguments" entries = some (.object members)) ∨
          (∀ name, name ∈ entries.map Prod.fst ↔ name ∈ ["kind", "result"]) ∧
            Json.lookup "kind" entries = some (.string "final") ∧
            ∃ text, Json.lookup "result" entries = some (.string text)) := by
  rw [decode_accepts_iff]
  simp only [perm_toolCallEntries, perm_finalEntries]
  constructor
  · rintro (⟨toolId, members, hnd, hnames, hkind, hid, harguments⟩
      | ⟨result, hnd, hnames, hkind, hresult⟩)
    · refine ⟨hnd, .inl ⟨names_eq_of_lookup (by simpa using hnames) (by simp [*]), hkind,
        ⟨toolId.value, hid, toolId.valid⟩, members, harguments⟩⟩
    · exact ⟨hnd, .inr ⟨names_eq_of_lookup (by simpa using hnames) (by simp [*]), hkind,
        result, hresult⟩⟩
  · rintro ⟨hnd, ⟨hnames, hkind, ⟨text, hid, hvalid⟩, members, harguments⟩
      | ⟨hnames, hkind, result, hresult⟩⟩
    · refine .inl ⟨⟨text, hvalid⟩, members, hnd, ?_, hkind, hid, harguments⟩
      intro name hname
      simpa using (hnames name).mp hname
    · refine .inr ⟨result, hnd, ?_, hkind, hresult⟩
      intro name hname
      simpa using (hnames name).mp hname

theorem encode_eq_error {message : AgentMessage} :
    (∃ error, message.encode = .error error) ↔
      ∃ toolId arguments, message = .toolCall ⟨toolId, arguments⟩ ∧
        ∀ members, arguments ≠ .object members := by
  cases message with
  | final proposal =>
      constructor
      · rintro ⟨error, h⟩
        cases h
      · rintro ⟨_, _, h, -⟩
        cases h
  | toolCall proposal =>
      obtain ⟨toolId, arguments⟩ := proposal
      constructor
      · rintro ⟨error, h⟩
        refine ⟨toolId, arguments, rfl, ?_⟩
        rintro members rfl
        cases h
      · rintro ⟨_, _, h, hmembers⟩
        cases h
        cases arguments with
        | object members => exact absurd rfl (hmembers members)
        | _ => exact ⟨_, rfl⟩

-- ============================================================================
-- The schema
-- ============================================================================

/-- The objects of the tool-call variant. -/
theorem describes_toolCall {entries : List (String × Json)} :
    toolCallSchema.Describes protocolSchema.tag entries ↔
      ∃ (toolId : ToolId) (members : List (String × Json)),
        (toolCallEntries toolId members).Perm entries := by
  simp only [ProtocolVariantSchema.Describes, toolCallSchema, List.forall_mem_cons,
    toolIdField, argumentsField, ProtocolFieldShape.Describes, protocolSchema]
  constructor
  · rintro ⟨hperm, hkind, ⟨_, hid, text, rfl, hvalid⟩, ⟨_, harguments, members, rfl⟩, -⟩
    refine ⟨⟨text, hvalid⟩, members, perm_toolCallEntries.mpr ⟨?_, ?_, hkind, hid, harguments⟩⟩
    · rw [hperm.nodup_iff]
      decide
    · intro name hname
      simpa using hperm.mem_iff.mp hname
  · rintro ⟨toolId, members, hperm⟩
    obtain ⟨-, -, hkind, hid, harguments⟩ := perm_toolCallEntries.mp hperm
    refine ⟨(hperm.map Prod.fst).symm, hkind, ⟨_, hid, toolId.value, rfl, toolId.valid⟩,
      ⟨_, harguments, members, rfl⟩, ?_⟩
    simp

/-- The objects of the final variant. -/
theorem describes_final {entries : List (String × Json)} :
    finalSchema.Describes protocolSchema.tag entries ↔
      ∃ result, (finalEntries result).Perm entries := by
  simp only [ProtocolVariantSchema.Describes, finalSchema, List.forall_mem_cons,
    resultField, ProtocolFieldShape.Describes, protocolSchema]
  constructor
  · rintro ⟨hperm, hkind, ⟨_, hresult, result, rfl⟩, -⟩
    refine ⟨result, perm_finalEntries.mpr ⟨?_, ?_, hkind, hresult⟩⟩
    · rw [hperm.nodup_iff]
      decide
    · intro name hname
      simpa using hperm.mem_iff.mp hname
  · rintro ⟨result, hperm⟩
    obtain ⟨-, -, hkind, hresult⟩ := perm_finalEntries.mp hperm
    refine ⟨(hperm.map Prod.fst).symm, hkind, ⟨_, hresult, result, rfl⟩, ?_⟩
    simp

/-- The decoder accepts the language of the schema. -/
theorem decode_accepts_iff_describes {entries : List (String × Json)} :
    (∃ message, AgentMessage.decode entries = .ok message) ↔ protocolSchema.Describes entries := by
  rw [decode_accepts_iff, ← describes_toolCall, ← describes_final]
  constructor
  · rintro (h | h)
    · exact ⟨toolCallSchema, by simp [protocolSchema], h⟩
    · exact ⟨finalSchema, by simp [protocolSchema], h⟩
  · rintro ⟨variant, hmem, h⟩
    have hvariant : variant = toolCallSchema ∨ variant = finalSchema := by
      simpa [protocolSchema] using hmem
    rcases hvariant with rfl | rfl
    · exact .inl h
    · exact .inr h

section
variable [Externals]

/-- The schema always has a digest. -/
theorem exists_schemaDigest : ∃ digest, AgentMessage.schemaDigest = .ok digest := by
  obtain ⟨json, hjson⟩ : ∃ json, toValue protocolSchema = .ok json := ⟨_, rfl⟩
  exact ⟨_, canonicalDigest_eq_ok.mpr ⟨⟨by decide, by decide⟩, json, hjson, rfl⟩⟩

/-- A resolved context carries the digest of the schema. -/
theorem resolve_protocolSchemaDigest {modelManifestDigest : Digest} {policyEpoch version : UInt64}
    {resolver : ContextResolver} {spec : AgentSpec} {snapshot : ToolRegistry.Snapshot}
    {context : SemanticContext}
    (hresolver : ContextResolver.forR1 modelManifestDigest policyEpoch version = .ok resolver)
    (hcontext : resolver.resolve spec snapshot = .ok context) :
    AgentMessage.schemaDigest = .ok context.protocolSchemaDigest := by
  simp only [ContextResolver.forR1, ContextResolver.resolve, Except.bind_eq_ok,
    Except.pure_eq_ok] at hresolver hcontext
  obtain ⟨digest, hdigest, rfl⟩ := hresolver
  obtain ⟨_, -, _, -, _, -, rfl⟩ := hcontext
  exact hdigest

/-- The wire language is closed: acceptance is a matter of distinct known fields of the
    right shape, decoding and encoding undo each other, and the language is the one of
    the schema whose digest a resolved context carries. -/
theorem closed_wire_language :
    (∀ entries : List (String × Json), (∃ message, AgentMessage.decode entries = .ok message) ↔
      (entries.map Prod.fst).Nodup ∧
        ((∀ name, name ∈ entries.map Prod.fst ↔ name ∈ ["kind", "tool_id", "arguments"]) ∧
            Json.lookup "kind" entries = some (.string "tool_call") ∧
            (∃ text, Json.lookup "tool_id" entries = some (.string text) ∧
              validateIdentifier "tool id" text = .ok ()) ∧
            (∃ members, Json.lookup "arguments" entries = some (.object members)) ∨
          (∀ name, name ∈ entries.map Prod.fst ↔ name ∈ ["kind", "result"]) ∧
            Json.lookup "kind" entries = some (.string "final") ∧
            ∃ text, Json.lookup "result" entries = some (.string text))) ∧
      (∀ (message : AgentMessage) encoded, message.encode = .ok encoded →
        AgentMessage.decode encoded = .ok message) ∧
      (∀ message : AgentMessage, (∃ error, message.encode = .error error) ↔
        ∃ toolId arguments, message = .toolCall ⟨toolId, arguments⟩ ∧
          ∀ members, arguments ≠ .object members) ∧
      (∀ entries message, AgentMessage.decode entries = .ok message →
        ∃ encoded, message.encode = .ok encoded ∧ encoded.Perm entries) ∧
      (∀ entries, (∃ message, AgentMessage.decode entries = .ok message) ↔
        protocolSchema.Describes entries) ∧
      ∀ modelManifestDigest policyEpoch version resolver spec snapshot context,
        ContextResolver.forR1 modelManifestDigest policyEpoch version = .ok resolver →
        resolver.resolve spec snapshot = .ok context →
        canonicalDigest "aeon-agent-protocol-schema-v1" protocolSchema
          = .ok context.protocolSchemaDigest := by
  refine ⟨fun entries => decode_accepts_iff_fields, fun message encoded h => ?_,
    fun message => encode_eq_error, fun entries message h => decode_eq_ok_iff_encode.mp h,
    fun entries => decode_accepts_iff_describes, ?_⟩
  · exact decode_eq_ok_iff_encode.mpr ⟨encoded, h, .refl _⟩
  · intro _ _ _ _ _ _ _ hresolver hcontext
    exact resolve_protocolSchemaDigest hresolver hcontext

end

end GenesisRuntime
