/-
  GenesisRuntime.ToolRegistry.Conformance

  What a tool schema says, and that the two functions over schemas agree on it.
  `validate_instance` passes over what it does not understand; `validate_schema_definition`
  accepts exactly the schemas in which there is nothing of the kind, at any depth, so that
  for an accepted schema every constraint that is written down is checked.
-/

import GenesisRuntime.Digest.Reordering
import GenesisRuntime.Reference
import GenesisRuntime.ToolRegistry.Generation

namespace GenesisRuntime

open Json (Reordered)

-- ============================================================================
-- What the definition check establishes
-- ============================================================================

/-- One level of a schema that `validate_schema_definition` accepts. -/
structure Defined (valid : Json → Prop) (entries : List (String × Json)) : Prop where
  known : ∀ entry ∈ entries, entry.1 ∈ supportedKeywords
  type : ∀ part, Json.lookup "type" entries = some part →
    ∃ name ∈ supportedTypes, part = .string name
  forObjects : (Json.lookup "required" entries).isSome = true ∨
      (Json.lookup "properties" entries).isSome = true →
    Json.lookup "type" entries = some (.string "object")
  required : ∀ part, Json.lookup "required" entries = some part →
    ∃ names, part = .array names ∧ ∀ name ∈ names, ∃ key, name = .string key
  properties : ∀ part, Json.lookup "properties" entries = some part →
    ∃ properties, part = .object properties ∧ ∀ property ∈ properties, valid property.2
  additionalProperties : ∀ part, Json.lookup "additionalProperties" entries = some part →
    ∃ allowed, part = .bool allowed

theorem eq_string_of_asString? {value : Json} {s : String} (h : value.asString? = some s) :
    value = .string s := by
  cases value with
  | string => exact congrArg Json.string (Option.some.inj h)
  | _ => cases h

theorem eq_array_of_asArray? {value : Json} {values : List Json}
    (h : value.asArray? = some values) : value = .array values := by
  cases value with
  | array => exact congrArg Json.array (Option.some.inj h)
  | _ => cases h

section
variable {rest : Result Unit} {found : Option (String × Json)} {part : Option Json}

theorem checkKeywords_eq_ok :
    (do
        if let some entry := found then
          throw ⟨.invalidInput, s!"unsupported schema keyword: {entry.1}"⟩
        rest : Result Unit) = .ok () ↔ found = none ∧ rest = .ok () := by
  cases found with
  | none => simp
  | some entry => simp [Except.bind_eq_ok, Except.throw_eq_ok]

theorem checkTypeName_eq_ok :
    (do
        if let some schemaType := part then
          rejectIf (¬ schemaType.asString?.any (· ∈ supportedTypes)) .invalidInput
            "schema type must name a supported primitive type"
        rest : Result Unit) = .ok () ↔
      (∀ value, part = some value → ∃ name ∈ supportedTypes, value = .string name) ∧
        rest = .ok () := by
  cases part with
  | none => simp
  | some value =>
      simp only [Except.bind_eq_ok, rejectIf_eq_ok, not_not, Except.exists_unit, Option.some.injEq,
        forall_eq']
      refine and_congr_left fun _ => ?_
      simp only [Option.any_eq_true, decide_eq_true_eq]
      constructor
      · rintro ⟨name, hname, hmem⟩
        exact ⟨name, hmem, eq_string_of_asString? hname⟩
      · rintro ⟨name, hmem, rfl⟩
        exact ⟨name, rfl, hmem⟩

theorem checkRequiredNames_eq_ok :
    (do
        if let some required := part then
          let required ← orReject .invalidInput "schema required must be an array"
            required.asArray?
          rejectIf (∃ name ∈ required, name.asString?.isNone) .invalidInput
            "schema required entries must be strings"
        rest : Result Unit) = .ok () ↔
      (∀ value, part = some value → ∃ names, value = .array names ∧
        ∀ name ∈ names, ∃ key, name = .string key) ∧ rest = .ok () := by
  cases part with
  | none => simp
  | some value =>
      simp only [Except.bind_eq_ok, orReject_eq_ok, rejectIf_eq_ok, Except.exists_unit,
        Option.some.injEq, forall_eq']
      constructor
      · rintro ⟨names, hnames, hstrings, hrest⟩
        refine ⟨⟨names, eq_array_of_asArray? hnames, fun name hname => ?_⟩, hrest⟩
        cases hkey : name.asString? with
        | none => exact absurd ⟨name, hname, by rw [hkey]; rfl⟩ hstrings
        | some key => exact ⟨key, eq_string_of_asString? hkey⟩
      · rintro ⟨⟨names, rfl, hstrings⟩, hrest⟩
        refine ⟨names, rfl, ?_, hrest⟩
        rintro ⟨name, hname, hnone⟩
        obtain ⟨key, rfl⟩ := hstrings name hname
        cases hnone

theorem checkProperties_eq_ok :
    (do
        match _hproperties : part with
        | none => pure ()
        | some (.object properties) =>
            forM properties.attach fun property => validateSchemaDefinition property.1.2
        | some _ => throw ⟨.invalidInput, "schema properties must be an object"⟩
        rest : Result Unit) = .ok () ↔
      (∀ value, part = some value → ∃ properties, value = .object properties ∧
        ∀ property ∈ properties, validateSchemaDefinition property.2 = .ok ()) ∧
        rest = .ok () := by
  cases part with
  | none => simp
  | some value =>
      cases value with
      | object properties =>
          simp [Except.bind_eq_ok, Except.forM_eq_ok]
      | _ => simp [Except.bind_eq_ok, Except.throw_eq_ok]

theorem checkAdditional_eq_ok :
    (rejectIf (part.any fun value => ¬ value.isBool) .invalidInput
      "schema additionalProperties must be a boolean" : Result Unit) = .ok () ↔
      ∀ value, part = some value → ∃ allowed, value = .bool allowed := by
  rw [rejectIf_eq_ok]
  cases part with
  | none => simp
  | some value => cases value <;> simp [Json.isBool]

end

theorem validateSchemaDefinition_eq_ok {entries : List (String × Json)} :
    validateSchemaDefinition (.object entries) = .ok () ↔
      Defined (fun schema => validateSchemaDefinition schema = .ok ()) entries := by
  rw [validateSchemaDefinition.eq_def]
  constructor
  · intro h
    obtain ⟨hfound, h⟩ := checkKeywords_eq_ok.mp h
    obtain ⟨htype, h⟩ := checkTypeName_eq_ok.mp h
    obtain ⟨_, hobjects, h⟩ := Except.bind_eq_ok.mp h
    obtain ⟨hrequired, h⟩ := checkRequiredNames_eq_ok.mp h
    obtain ⟨hproperties, hadditional⟩ := checkProperties_eq_ok.mp h
    exact {
      known := fun entry hentry => by simpa using List.find?_eq_none.mp hfound entry hentry
      type := htype
      forObjects := fun hpresent => by
        have hnamed := not_not.mp (not_and.mp (rejectIf_eq_ok.mp hobjects) hpresent)
        obtain ⟨part, hpart, hname⟩ := Option.bind_eq_some_iff.mp hnamed
        rw [hpart, eq_string_of_asString? hname]
      required := hrequired
      properties := hproperties
      additionalProperties := checkAdditional_eq_ok.mp hadditional }
  · intro h
    refine checkKeywords_eq_ok.mpr ⟨?_, checkTypeName_eq_ok.mpr ⟨h.type, Except.bind_eq_ok.mpr
      ⟨(), ?_, checkRequiredNames_eq_ok.mpr ⟨h.required, checkProperties_eq_ok.mpr
        ⟨h.properties, checkAdditional_eq_ok.mpr h.additionalProperties⟩⟩⟩⟩⟩
    · exact List.find?_eq_none.mpr fun entry hentry => by simpa using h.known entry hentry
    · refine rejectIf_eq_ok.mpr ?_
      rintro ⟨hpresent, hname⟩
      rw [h.forObjects hpresent] at hname
      exact hname rfl

/-- Only objects are accepted as schemas. -/
theorem eq_object_of_validateSchemaDefinition {schema : Json}
    (h : validateSchemaDefinition schema = .ok ()) : ∃ entries, schema = .object entries := by
  cases schema with
  | object entries => exact ⟨entries, rfl⟩
  | _ =>
      rw [validateSchemaDefinition.eq_def] at h
      cases h

-- ============================================================================
-- What a schema says
-- ============================================================================

def u64Max : Nat := 18446744073709551615

def i64Min : Int := -9223372036854775808

/-- The value is of the type that a name stands for; an integer is one in the range of `i64`
    or of `u64`. -/
def HasType (name : String) (value : Json) : Prop :=
  match name, value with
  | "object", .object _ => True
  | "array", .array _ => True
  | "string", .string _ => True
  | "number", .number _ => True
  | "integer", .number (.posInt n) => n ≤ u64Max
  | "integer", .number (.negInt n) => i64Min ≤ n ∧ n < 0
  | "boolean", .bool _ => True
  | "null", .null => True
  | _, _ => False

/-- The value meets every constraint written in the schema, one for each of its entries. An
    entry with an unknown keyword, or with a part that the keyword does not go with, is a
    constraint that no value meets. -/
inductive Satisfies : Json → Json → Prop where
  | object (entries : List (String × Json)) (value : Json)
      (known : ∀ entry ∈ entries,
        entry.1 ∈ ["type", "required", "properties", "additionalProperties"])
      (type : ∀ part, ("type", part) ∈ entries → ∃ name, part = .string name ∧ HasType name value)
      (required : ∀ part, ("required", part) ∈ entries →
        ∃ names members, part = .array names ∧ value = .object members ∧
          ∀ name ∈ names, ∃ key, name = .string key ∧ key ∈ members.map Prod.fst)
      (described : ∀ part, ("properties", part) ∈ entries → ∃ properties, part = .object properties)
      (properties : ∀ properties, ("properties", .object properties) ∈ entries →
        ∀ members, value = .object members → ∀ property ∈ properties, ∀ member ∈ members,
          member.1 = property.1 → Satisfies property.2 member.2)
      (decided : ∀ part, ("additionalProperties", part) ∈ entries → ∃ allowed, part = .bool allowed)
      (additional : ("additionalProperties", .bool false) ∈ entries →
        ∀ members, value = .object members → ∀ member ∈ members,
          ∃ properties, ("properties", .object properties) ∈ entries ∧
            member.1 ∈ properties.map Prod.fst) :
      Satisfies (.object entries) value

/-- The integers of a JSON value are those that `serde_json` represents. -/
inductive IntegersFit : Json → Prop where
  | null : IntegersFit .null
  | bool (b : Bool) : IntegersFit (.bool b)
  | posInt (n : Nat) (h : n ≤ u64Max) : IntegersFit (.number (.posInt n))
  | negInt (n : Int) (h : i64Min ≤ n ∧ n < 0) : IntegersFit (.number (.negInt n))
  | float (bits : UInt64) : IntegersFit (.number (.float bits))
  | string (s : String) : IntegersFit (.string s)
  | array (values : List Json) (hvalues : ∀ value ∈ values, IntegersFit value) :
      IntegersFit (.array values)
  | object (entries : List (String × Json)) (hentries : ∀ entry ∈ entries, IntegersFit entry.2) :
      IntegersFit (.object entries)

theorem matchesType_iff {name : String} {value : Json} (hfit : IntegersFit value) :
    matchesType name value = true ↔ HasType name value := by
  unfold matchesType HasType
  split
  · simp
  · simp
  · simp
  · simp
  · cases hfit with
    | posInt n h => simpa using h
  · cases hfit with
    | negInt n h => simpa using h
  · simp
  · simp
  · simp

-- ============================================================================
-- The check is exact
-- ============================================================================

theorem lookup_eq_some_iff {name : String} {part : Json} {entries : List (String × Json)}
    (hnodup : (entries.map Prod.fst).Nodup) :
    Json.lookup name entries = some part ↔ (name, part) ∈ entries :=
  ⟨Json.mem_of_lookup, Json.lookup_of_mem hnodup⟩

theorem eq_object_of_hasType {value : Json} (h : HasType "object" value) :
    ∃ members, value = .object members := by
  cases value with
  | object members => exact ⟨members, rfl⟩
  | _ => exact h.elim

theorem typeMatches_iff {entries : List (String × Json)} {value : Json}
    (hnodup : (entries.map Prod.fst).Nodup)
    (hnamed : ∀ part, ("type", part) ∈ entries → ∃ name, part = .string name)
    (hfit : IntegersFit value) :
    TypeMatches (.object entries) value ↔
      ∀ part, ("type", part) ∈ entries → ∃ name, part = .string name ∧ HasType name value := by
  constructor
  · intro h part hpart
    obtain ⟨name, rfl⟩ := hnamed part hpart
    refine ⟨name, rfl, (matchesType_iff hfit).mp (h name ?_)⟩
    rw [Json.get?, Json.lookup_of_mem hnodup hpart]
    rfl
  · intro h name hname
    obtain ⟨part, hpart, hstring⟩ := Option.bind_eq_some_iff.mp hname
    obtain ⟨name', rfl, htype⟩ := h part (Json.mem_of_lookup hpart)
    cases hstring
    exact (matchesType_iff hfit).mpr htype

theorem mem_filterMap_asString? {key : String} {names : List Json} :
    key ∈ names.filterMap Json.asString? ↔ Json.string key ∈ names := by
  rw [List.mem_filterMap]
  constructor
  · rintro ⟨name, hmem, hname⟩
    rw [← eq_string_of_asString? hname]
    exact hmem
  · intro hmem
    exact ⟨_, hmem, rfl⟩

theorem bind_asArray?_eq_some {part : Option Json} {values : List Json} :
    part.bind Json.asArray? = some values ↔ part = some (.array values) := by
  rw [Option.bind_eq_some_iff]
  constructor
  · rintro ⟨value, rfl, hvalue⟩
    rw [eq_array_of_asArray? hvalue]
  · rintro rfl
    exact ⟨_, rfl, rfl⟩

theorem any_isFalse_iff {part : Option Json} :
    part.any Json.isFalse = true ↔ part = some (.bool false) := by
  rw [Option.any_eq_true]
  constructor
  · rintro ⟨value, rfl, hvalue⟩
    cases value with
    | bool b => cases b <;> first | rfl | cases hvalue
    | _ => cases hvalue
  · rintro rfl
    exact ⟨_, rfl, rfl⟩

theorem any_known_iff {part : Option Json} {name : String} :
    (part.bind Json.asObject?).any (fun known => (Json.lookup name known).isSome) = true ↔
      ∃ known, part = some (.object known) ∧ name ∈ known.map Prod.fst := by
  have hpresent (known : List (String × Json)) :
      (Json.lookup name known).isSome = true ↔ name ∈ known.map Prod.fst := by
    rw [Option.isSome_iff_ne_none, ne_eq, Json.lookup_eq_none_iff, not_not]
  simp only [Option.any_eq_true, Option.bind_eq_some_iff, hpresent]
  constructor
  · rintro ⟨known, ⟨value, rfl, hknown⟩, hmem⟩
    cases value with
    | object => cases hknown; exact ⟨known, rfl, hmem⟩
    | _ => cases hknown
  · rintro ⟨known, rfl, hmem⟩
    exact ⟨known, ⟨_, rfl, rfl⟩, hmem⟩

/-- Among objects with distinct names, the look-ups of the check read the entries of the schema
    and the members of the value. -/
theorem membersMatch_iff_entries {valid : String → Json → Json → Prop}
    {entries members : List (String × Json)} (hnodup : (entries.map Prod.fst).Nodup)
    (hnodup' : (members.map Prod.fst).Nodup) :
    MembersMatch valid entries members ↔
      (∀ names, ("required", .array names) ∈ entries →
        ∀ key, Json.string key ∈ names → key ∈ members.map Prod.fst) ∧
      (("additionalProperties", .bool false) ∈ entries → ∀ member ∈ members,
        ∃ properties, ("properties", .object properties) ∈ entries ∧
          member.1 ∈ properties.map Prod.fst) ∧
      (∀ properties, ("properties", .object properties) ∈ entries →
        ∀ property ∈ properties, ∀ member ∈ members, member.1 = property.1 →
          valid property.1 property.2 member.2) := by
  have hpresent (name : String) :
      (Json.lookup name members).isSome = true ↔ name ∈ members.map Prod.fst := by
    rw [Option.isSome_iff_ne_none, ne_eq, Json.lookup_eq_none_iff, not_not]
  rw [membersMatch_iff]
  simp only [bind_asArray?_eq_some, any_isFalse_iff, any_known_iff, lookup_eq_some_iff hnodup,
    mem_filterMap_asString?, hpresent]
  refine and_congr Iff.rfl (and_congr ?_ ?_)
  · exact forall_congr' fun _ => List.forall_mem_map
  · refine forall₂_congr fun properties _ => forall₂_congr fun property _ => ?_
    simp only [lookup_eq_some_iff hnodup']
    constructor
    · rintro h ⟨name, member⟩ hmember rfl
      exact h member hmember
    · intro h member hmember
      exact h _ hmember rfl

/-- For an accepted schema, `validate_instance` accepts the values that meet every constraint
    written in it. -/
theorem validateInstance_iff_satisfies {schema value : Json} {path : String}
    (hschema : validateSchemaDefinition schema = .ok ()) (hdistinct : schema.DistinctNames)
    (hdistinct' : value.DistinctNames) (hfit : IntegersFit value) :
    validateInstance schema value path = .ok () ↔ Satisfies schema value := by
  induction hsize : sizeOf schema using Nat.strong_induction_on generalizing schema value path
    with
  | _ n ih =>
  subst hsize
  obtain ⟨entries, rfl⟩ := eq_object_of_validateSchemaDefinition hschema
  have hdef := validateSchemaDefinition_eq_ok.mp hschema
  cases hdistinct with
  | object _ hnodup hentries =>
  have hpart {name : String} {part : Json} (h : (name, part) ∈ entries) :
      Json.lookup name entries = some part := Json.lookup_of_mem hnodup h
  have hnamed : ∀ part, ("type", part) ∈ entries → ∃ name, part = .string name := by
    intro part h
    obtain ⟨name, -, rfl⟩ := hdef.type part (hpart h)
    exact ⟨name, rfl⟩
  -- the schemas of the properties are smaller, and accepted as well
  have hproperty : ∀ properties, ("properties", .object properties) ∈ entries →
      ∀ property ∈ properties, ∀ members, value = .object members → ∀ member ∈ members,
      ∀ path, (validateInstance property.2 member.2 path = .ok () ↔
        Satisfies property.2 member.2) := by
    rintro properties hproperties property hproperty members rfl member hmember path
    obtain ⟨_, ⟨⟩, haccepted⟩ := hdef.properties _ (hpart hproperties)
    have hvalue := hentries _ hproperties
    cases hvalue with
    | object _ _ hvalues =>
    cases hdistinct' with
    | object _ _ hmembers =>
    cases hfit with
    | object _ hfits =>
    refine ih (sizeOf property.2) ?_ (haccepted property hproperty) (hvalues property hproperty)
      (hmembers member hmember) (hfits member hmember) rfl
    exact Json.sizeOf_snd_lt_of_mem_object hproperties hproperty
  have hnodup' : ∀ members, value = .object members → (members.map Prod.fst).Nodup := by
    rintro members rfl
    cases hdistinct' with
    | object _ hnames _ => exact hnames
  rw [validateInstance_eq_ok, typeMatches_iff hnodup hnamed hfit]
  constructor
  · rintro ⟨htype, hvalue⟩
    have hmatch (members : List (String × Json)) (h : value = .object members) :=
      (membersMatch_iff_entries hnodup (hnodup' members h)).mp (hvalue entries members rfl h)
    refine .object entries value hdef.known htype ?_ ?_ ?_ ?_ ?_
    · intro part h
      obtain ⟨names, rfl, hstrings⟩ := hdef.required part (hpart h)
      -- a schema with required names is of type object, and so is the value
      have hobject := hdef.forObjects (.inl (by rw [hpart h]; rfl))
      obtain ⟨_, ⟨⟩, htyped⟩ := htype _ (Json.mem_of_lookup hobject)
      obtain ⟨members, rfl⟩ := eq_object_of_hasType htyped
      refine ⟨names, members, rfl, rfl, fun name hname => ?_⟩
      obtain ⟨key, rfl⟩ := hstrings name hname
      exact ⟨key, rfl, (hmatch members rfl).1 names h key hname⟩
    · intro part h
      obtain ⟨properties, rfl, -⟩ := hdef.properties part (hpart h)
      exact ⟨properties, rfl⟩
    · intro properties h members hobject property hmem member hmember hname
      exact (hproperty properties h property hmem members hobject member hmember _).mp
        ((hmatch members hobject).2.2 properties h property hmem member hmember hname)
    · intro part h
      exact hdef.additionalProperties part (hpart h)
    · intro h members hobject
      exact (hmatch members hobject).2.1 h
  · intro h
    cases h with
    | object _ _ known type required described properties decided additional =>
    refine ⟨type, ?_⟩
    rintro _ members ⟨⟩ rfl
    refine (membersMatch_iff_entries hnodup (hnodup' members rfl)).mpr ⟨?_, ?_, ?_⟩
    · intro names h key hkey
      obtain ⟨_, _, ⟨⟩, ⟨⟩, hall⟩ := required _ h
      obtain ⟨_, ⟨⟩, hmem⟩ := hall _ hkey
      exact hmem
    · intro h
      exact additional h members rfl
    · intro parts h property hmem member hmember hname
      exact (hproperty parts h property hmem members rfl member hmember _).mpr
        (properties parts h members rfl property hmem member hmember hname)

-- ============================================================================
-- Values in another order
-- ============================================================================

theorem matchesType_array (name : String) (values : List Json) :
    matchesType name (.array values) = decide (name = "array") := by
  unfold matchesType
  split <;> simp_all

theorem matchesType_object (name : String) (members : List (String × Json)) :
    matchesType name (.object members) = decide (name = "object") := by
  unfold matchesType
  split <;> simp_all

theorem matchesType_canonicalizeJson (name : String) (value : Json) :
    matchesType name (canonicalizeJson value) = matchesType name value := by
  cases value <;> simp [matchesType_array, matchesType_object]

theorem mem_names_canonicalEntries {name : String} {members : List (String × Json)} :
    name ∈ (canonicalEntries members).map Prod.fst ↔ name ∈ members.map Prod.fst := by
  have hnames : (canonicalEntries members).map Prod.fst = (sortEntries members).map Prod.fst := by
    simp [canonicalEntries]
  rw [hnames]
  exact ((sortEntries_perm members).map Prod.fst).mem_iff

theorem membersMatch_canonicalMembers {valid valid' : String → Json → Json → Prop}
    {schemaObject members : List (String × Json)}
    (hvalid : ∀ properties, Json.lookup "properties" schemaObject = some (.object properties) →
      ∀ property ∈ properties, ∀ member,
        (valid' property.1 property.2 (canonicalizeJson member) ↔
          valid property.1 property.2 member)) :
    MembersMatch valid' schemaObject (canonicalEntries members) ↔
      MembersMatch valid schemaObject members := by
  rw [membersMatch_iff, membersMatch_iff]
  refine and_congr ?_ (and_congr ?_ ?_)
  · simp only [lookup_canonicalEntries, Option.isSome_map]
  · simp only [mem_names_canonicalEntries]
  · refine forall₂_congr fun properties hproperties => forall₂_congr fun property hproperty => ?_
    simp only [lookup_canonicalEntries, Option.map_eq_some_iff, forall_exists_index, and_imp,
      forall_apply_eq_imp_iff₂, hvalid properties hproperties property hproperty]

/-- Whether a value is accepted does not depend on the order of its members. -/
theorem validateInstance_canonicalValue {schema value : Json} {path other : String} :
    validateInstance schema (canonicalizeJson value) other = .ok () ↔
      validateInstance schema value path = .ok () := by
  induction hsize : sizeOf schema using Nat.strong_induction_on generalizing schema value path other
    with
  | _ n ih =>
  subst hsize
  rw [validateInstance_eq_ok, validateInstance_eq_ok]
  refine and_congr (by simp only [TypeMatches, matchesType_canonicalizeJson]) ?_
  -- the schemas of the properties are smaller
  have hmembers : ∀ schemaObject members, schema = .object schemaObject →
      (MembersMatch (fun name property member =>
          validateInstance property member s!"{other}.{name}" = .ok ())
        schemaObject (canonicalEntries members) ↔
      MembersMatch (fun name property member =>
          validateInstance property member s!"{path}.{name}" = .ok ()) schemaObject members) := by
    rintro schemaObject members rfl
    refine membersMatch_canonicalMembers fun properties hproperties property hproperty member => ?_
    refine ih (sizeOf property.2) ?_ rfl
    exact Json.sizeOf_snd_lt_of_mem_object (Json.mem_of_lookup hproperties) hproperty
  constructor
  · rintro h schemaObject members hschema rfl
    exact (hmembers schemaObject members hschema).mp
      (h schemaObject _ hschema (canonicalizeJson_object members))
  · rintro h schemaObject entries hschema hentries
    obtain ⟨members, rfl, rfl⟩ := canonicalizeJson_eq_object.mp hentries
    exact (hmembers schemaObject members hschema).mpr (h schemaObject members hschema rfl)

/-- Schemas and values in another order have the same verdict. -/
theorem validateInstance_reordered {schema schema' value value' : Json} {path other : String}
    (hdistinct : schema.DistinctNames) (hdistinct' : value.DistinctNames)
    (hschema : Reordered schema schema') (hvalue : Reordered value value') :
    validateInstance schema value path = .ok () ↔
      validateInstance schema' value' other = .ok () := by
  have hverdict (v : Json) : validateInstance schema (canonicalizeJson v) path = .ok () ↔
      validateInstance schema v path = .ok () := validateInstance_canonicalValue
  rw [← hverdict, canonical_of_reordered hdistinct' hvalue, hverdict]
  exact validateInstance_congr (canonical_of_reordered hdistinct hschema)

section
variable [Externals]

/-- Tools with one input schema digest accept the same inputs. -/
theorem validateInput_of_digest (hcollision : CollisionFree) (htext : JsonTextInjective)
    {tool tool' : RegisteredTool}
    (h : tool.manifest.inputSchemaDigest = tool'.manifest.inputSchemaDigest) (input : Json) :
    tool.validateInput input = .ok () ↔ tool'.validateInput input = .ok () := by
  obtain ⟨_, _, _, hmade⟩ := tool.made
  obtain ⟨_, _, _, hmade'⟩ := tool'.made
  obtain ⟨-, -, -, hdigest⟩ := ToolManifest.new_eq_ok hmade
  obtain ⟨-, -, -, hdigest'⟩ := ToolManifest.new_eq_ok hmade'
  rw [← h] at hdigest'
  exact validateInstance_congr (schema_of_digest hcollision htext hdigest hdigest')

/-- The check of an input against an accepted schema is exact, at every depth; it does not
    depend on the order of members; and the digest of the schema determines its verdicts. -/
theorem schema_checks_are_exact :
    (∀ (schema value : Json) (path : String), validateSchemaDefinition schema = .ok () →
      schema.DistinctNames → value.DistinctNames → IntegersFit value →
      (validateInstance schema value path = .ok () ↔ Satisfies schema value)) ∧
    (∀ (schema schema' value value' : Json) (path path' : String), schema.DistinctNames →
      value.DistinctNames → Reordered schema schema' → Reordered value value' →
      (validateInstance schema value path = .ok () ↔
        validateInstance schema' value' path' = .ok ())) ∧
    (CollisionFree → JsonTextInjective → ∀ tool tool' : RegisteredTool,
      tool.manifest.inputSchemaDigest = tool'.manifest.inputSchemaDigest →
      ∀ input, tool.validateInput input = .ok () ↔ tool'.validateInput input = .ok ()) :=
  ⟨fun _ _ _ => validateInstance_iff_satisfies, fun _ _ _ _ _ _ => validateInstance_reordered,
    fun hcollision htext _ _ h input => validateInput_of_digest hcollision htext h input⟩

end

-- ============================================================================
-- A nested schema
-- ============================================================================

namespace Reference

/-- The schema of an object with a `path` and no other member. -/
def fileSchema : Json :=
  .object [("type", .string "object"),
    ("properties", .object [("path", .object [("type", .string "string")])]),
    ("additionalProperties", .bool false)]

/-- The schema of an object with such a `file`. -/
def inputSchema : Json :=
  .object [("type", .string "object"), ("required", .array [.string "file"]),
    ("properties", .object [("file", fileSchema)])]

theorem inputSchema_accepted : validateSchemaDefinition inputSchema = .ok () := by
  simp [inputSchema, fileSchema, validateSchemaDefinition, supportedKeywords, supportedTypes,
    Json.lookup, Json.asString?, Json.asArray?, Json.isBool, rejectIf, orReject]
  rfl

theorem inputSchema_distinctNames : inputSchema.DistinctNames := by
  have hpath : (Json.object [("type", .string "string")]).DistinctNames :=
    .object _ (by decide) (List.forall_mem_singleton.mpr (.string _))
  have hpaths : (Json.object [("path", .object [("type", .string "string")])]).DistinctNames :=
    .object _ (by decide) (List.forall_mem_singleton.mpr hpath)
  have hfile : fileSchema.DistinctNames := by
    refine .object _ (by decide) ?_
    simp only [List.forall_mem_cons]
    exact ⟨.string _, hpaths, .bool _, by simp⟩
  refine .object _ (by decide) ?_
  simp only [List.forall_mem_cons]
  exact ⟨.string _, .array _ (List.forall_mem_singleton.mpr (.string _)),
    .object _ (by decide) (List.forall_mem_singleton.mpr hfile), by simp⟩

end Reference

/-- A member that the inner schema does not describe is rejected. -/
theorem schema_checks_are_exact_reference : letI := Reference.externals
    validateInstance Reference.inputSchema
      (.object [("file", .object [("path", .string "a"), ("mode", .null)])]) "$" ≠ .ok () := by
  let := Reference.externals
  let file : List (String × Json) := [("path", .string "a"), ("mode", .null)]
  have hdistinct : (Json.object [("file", .object file)]).DistinctNames := by
    refine .object _ (by decide) (List.forall_mem_singleton.mpr (.object _ (by decide) ?_))
    simp only [file, List.forall_mem_cons]
    exact ⟨.string _, .null, by simp⟩
  have hfit : IntegersFit (.object [("file", .object file)]) := by
    refine .object _ (List.forall_mem_singleton.mpr (.object _ ?_))
    simp only [file, List.forall_mem_cons]
    exact ⟨.string _, .null, by simp⟩
  intro h
  have hsatisfies := (schema_checks_are_exact.1 Reference.inputSchema _ "$"
    Reference.inputSchema_accepted Reference.inputSchema_distinctNames hdistinct hfit).mp h
  cases hsatisfies with
  | object _ _ _ _ _ _ properties _ _ =>
  have hfile := properties [("file", Reference.fileSchema)] (by simp) [("file", .object file)] rfl
    ("file", Reference.fileSchema) (by simp) ("file", .object file) (by simp) rfl
  cases hfile with
  | object _ _ _ _ _ _ _ _ additional =>
  obtain ⟨known, hknown, hmode⟩ := additional (by simp) file rfl ("mode", .null) (by simp [file])
  simp at hknown
  subst hknown
  simp at hmode

end GenesisRuntime
