/-
  GenesisRuntime.ToolRegistry.Schema

  What `validate_instance` checks, one level of a schema at a time.  It looks members
  up by name and goes through all of them, so which values a schema accepts does not
  depend on the order in which its members stand.
-/

import GenesisRuntime.Digest.Canonical
import GenesisRuntime.ToolRegistry
import Mathlib.Tactic.MkIffOfInductiveProp

namespace GenesisRuntime

-- ============================================================================
-- One level of a schema
-- ============================================================================

/-- The value has the type that the schema names, if it names one. -/
def TypeMatches (schema value : Json) : Prop :=
  ∀ expectedType, (schema.get? "type").bind Json.asString? = some expectedType →
    matchesType expectedType value = true

/-- The members of an object are those that the schema asks for and allows, and those it
    describes are valid. -/
@[mk_iff]
structure MembersMatch (valid : String → Json → Json → Prop)
    (schemaObject object : List (String × Json)) : Prop where
  required : ∀ names, (Json.lookup "required" schemaObject).bind Json.asArray? = some names →
    ∀ name ∈ names.filterMap Json.asString?, (Json.lookup name object).isSome = true
  allowed : (Json.lookup "additionalProperties" schemaObject).any Json.isFalse = true →
    ∀ name ∈ object.map Prod.fst,
      ((Json.lookup "properties" schemaObject).bind Json.asObject?).any fun known =>
        (Json.lookup name known).isSome
  described : ∀ properties, Json.lookup "properties" schemaObject = some (.object properties) →
    ∀ property ∈ properties, ∀ member, Json.lookup property.1 object = some member →
      valid property.1 property.2 member

section
variable {object : List (String × Json)} {path : String} {rest : Result Unit}

theorem checkType_eq_ok {named : Option String} {value : Json} :
    (do
        if let some expectedType := named then
          rejectIf (¬ matchesType expectedType value) .invalidInput
            s!"{path} does not match schema type {expectedType}"
        rest : Result Unit) = .ok () ↔
      (∀ expectedType, named = some expectedType → matchesType expectedType value = true) ∧
        rest = .ok () := by
  cases named <;> simp [Except.bind_eq_ok]

theorem checkRequired_eq_ok {listed : Option (List Json)} :
    (do
        if let some required := listed then
          forM (required.filterMap Json.asString?) fun name =>
            rejectIf ((Json.lookup name object).isNone) .invalidInput s!"{path}.{name} is required"
        rest : Result Unit) = .ok () ↔
      (∀ names, listed = some names → ∀ name ∈ names.filterMap Json.asString?,
        (Json.lookup name object).isSome = true) ∧ rest = .ok () := by
  cases listed <;>
    simp [Except.bind_eq_ok, Except.forM_eq_ok, Option.isSome_iff_ne_none]

theorem checkAllowed_eq_ok {closed : Prop} [Decidable closed]
    {properties : Option (List (String × Json))} :
    (do
        if closed then
          forM (object.map Prod.fst) fun name =>
            rejectIf (¬ properties.any fun known => (Json.lookup name known).isSome) .invalidInput
              s!"{path}.{name} is not allowed"
        rest : Result Unit) = .ok () ↔
      (closed → ∀ name ∈ object.map Prod.fst,
        properties.any fun known => (Json.lookup name known).isSome) ∧ rest = .ok () := by
  by_cases hclosed : closed
  · simp [hclosed, Except.bind_eq_ok, Except.forM_eq_ok]
  · simp [hclosed]

theorem checkDescribed_eq_ok {properties : List (String × Json)} :
    (forM properties.attach fun property => do
        if let some value := Json.lookup property.1.1 object then
          validateInstance property.1.2 value s!"{path}.{property.1.1}" : Result Unit) = .ok () ↔
      ∀ property ∈ properties, ∀ member, Json.lookup property.1 object = some member →
        validateInstance property.2 member s!"{path}.{property.1}" = .ok () := by
  rw [Except.forM_eq_ok]
  constructor
  · intro h property hproperty member hmember
    have hcheck := h ⟨property, hproperty⟩ (List.mem_attach _ _)
    rw [hmember] at hcheck
    exact hcheck
  · rintro h ⟨property, hproperty⟩ -
    cases hmember : Json.lookup property.1 object with
    | none => rfl
    | some member => exact h property hproperty member hmember

end

theorem validateInstance_eq_ok {schema value : Json} {path : String} :
    validateInstance schema value path = .ok () ↔ TypeMatches schema value ∧
      ∀ schemaObject object, schema = .object schemaObject → value = .object object →
        MembersMatch (fun name property member =>
          validateInstance property member s!"{path}.{name}" = .ok ()) schemaObject object := by
  rw [validateInstance.eq_def]
  refine checkType_eq_ok.trans (and_congr Iff.rfl ?_)
  split
  · rename_i schemaObject object
    refine checkRequired_eq_ok.trans ?_
    refine Iff.trans (and_congr_right fun _ => checkAllowed_eq_ok) ?_
    constructor
    · rintro ⟨hrequired, hallowed, hdescribed⟩ _ _ ⟨⟩ ⟨⟩
      refine ⟨hrequired, hallowed, fun properties hproperties => ?_⟩
      split at hdescribed
      · rename_i properties' hproperties'
        rw [hproperties] at hproperties'
        cases hproperties'
        exact checkDescribed_eq_ok.mp hdescribed
      · rename_i hnone
        exact absurd hproperties (hnone properties)
    · intro h
      obtain ⟨hrequired, hallowed, hdescribed⟩ := h _ _ rfl rfl
      refine ⟨hrequired, hallowed, ?_⟩
      split
      · rename_i properties hproperties
        exact checkDescribed_eq_ok.mpr (hdescribed properties hproperties)
      · rfl
  · rename_i hnone
    exact ⟨fun _ schemaObject object hschema hvalue => (hnone _ _ hschema hvalue).elim,
      fun _ => rfl⟩

-- ============================================================================
-- Schemas in another order
-- ============================================================================

section
variable (value : Json)

@[simp] theorem asString?_canonicalizeJson :
    (canonicalizeJson value).asString? = value.asString? := by
  cases value <;> simp [Json.asString?]

@[simp] theorem isFalse_canonicalizeJson : (canonicalizeJson value).isFalse = value.isFalse := by
  cases value <;> simp [Json.isFalse]

theorem asArray?_canonicalizeJson :
    (canonicalizeJson value).asArray? = value.asArray?.map (List.map canonicalizeJson) := by
  cases value <;> simp [Json.asArray?]

/-- The entries of an object in canonical form. -/
def canonicalEntries (entries : List (String × Json)) : List (String × Json) :=
  (sortEntries entries).map fun entry => (entry.1, canonicalizeJson entry.2)

theorem lookup_canonicalEntries (name : String) (entries : List (String × Json)) :
    Json.lookup name (canonicalEntries entries)
      = (Json.lookup name entries).map canonicalizeJson := by
  rw [canonicalEntries, Json.lookup_map_snd, lookup_sortEntries]

theorem mem_canonicalEntries {entry : String × Json} {entries : List (String × Json)} :
    entry ∈ canonicalEntries entries ↔
      ∃ property ∈ entries, entry = (property.1, canonicalizeJson property.2) := by
  simp only [canonicalEntries, List.mem_map, mem_sortEntries]
  exact exists_congr fun _ => and_congr_right fun _ => eq_comm

theorem canonicalizeJson_eq_object {schema : Json} {entries : List (String × Json)} :
    canonicalizeJson schema = .object entries ↔
      ∃ source, schema = .object source ∧ entries = canonicalEntries source := by
  cases schema with
  | object source =>
      rw [canonicalizeJson_object, Json.object.injEq]
      constructor
      · rintro rfl
        exact ⟨source, rfl, rfl⟩
      · rintro ⟨_, ⟨⟩, rfl⟩
        rfl
  | _ => simp

theorem asObject?_canonicalizeJson :
    (canonicalizeJson value).asObject? = value.asObject?.map canonicalEntries := by
  cases value <;> simp [Json.asObject?, canonicalEntries]

end

theorem typeMatches_canonicalizeJson {schema value : Json} :
    TypeMatches (canonicalizeJson schema) value ↔ TypeMatches schema value := by
  have hget :
      (canonicalizeJson schema).get? "type" = (schema.get? "type").map canonicalizeJson := by
    cases schema with
    | object entries =>
        rw [canonicalizeJson_object]
        exact lookup_canonicalEntries "type" entries
    | _ => simp [Json.get?]
  simp only [TypeMatches, hget, Option.bind_map, Function.comp_def, asString?_canonicalizeJson]

theorem membersMatch_canonicalEntries {valid valid' : String → Json → Json → Prop}
    {schemaObject object : List (String × Json)}
    (hvalid : ∀ properties, Json.lookup "properties" schemaObject = some (.object properties) →
      ∀ property ∈ properties, ∀ member,
        (valid' property.1 (canonicalizeJson property.2) member ↔
          valid property.1 property.2 member)) :
    MembersMatch valid' (canonicalEntries schemaObject) object ↔
      MembersMatch valid schemaObject object := by
  have hlisted : ∀ part : Option Json, (part.map canonicalizeJson).bind Json.asArray?
      = (part.bind Json.asArray?).map (List.map canonicalizeJson) := by
    intro part
    cases part <;> simp [asArray?_canonicalizeJson]
  have hnames : ∀ names : List Json, (names.map canonicalizeJson).filterMap Json.asString?
      = names.filterMap Json.asString? := by
    intro names
    simp [List.filterMap_map]
  have hknown : ∀ (part : Option Json) (name : String),
      ((part.map canonicalizeJson).bind Json.asObject?).any
          (fun known => (Json.lookup name known).isSome)
        = (part.bind Json.asObject?).any fun known => (Json.lookup name known).isSome := by
    intro part name
    cases part <;> simp [asObject?_canonicalizeJson, Option.any_map, lookup_canonicalEntries]
  have hclosed : ∀ part : Option Json,
      (part.map canonicalizeJson).any Json.isFalse = part.any Json.isFalse := by
    intro part
    cases part <;> simp
  rw [membersMatch_iff, membersMatch_iff]
  simp only [lookup_canonicalEntries, hlisted, hclosed, hknown]
  refine and_congr ?_ (and_congr Iff.rfl ?_)
  · simp only [Option.map_eq_some_iff, forall_exists_index, and_imp, forall_apply_eq_imp_iff₂,
      hnames]
  · constructor
    · intro h properties hproperties property hproperty member hmember
      have hcanonical : canonicalizeJson (.object properties)
          = .object (canonicalEntries properties) := canonicalizeJson_object properties
      refine (hvalid properties hproperties property hproperty member).mp ?_
      refine h (canonicalEntries properties) ?_ _
        (mem_canonicalEntries.mpr ⟨property, hproperty, rfl⟩) member hmember
      rw [hproperties, Option.map_some, hcanonical]
    · intro h entries hentries entry hentry member hmember
      obtain ⟨schema, hschema, hcanonical⟩ := Option.map_eq_some_iff.mp hentries
      obtain ⟨properties, rfl, rfl⟩ := canonicalizeJson_eq_object.mp hcanonical
      obtain ⟨property, hproperty, rfl⟩ := mem_canonicalEntries.mp hentry
      exact (hvalid properties hschema property hproperty member).mpr
        (h properties hschema property hproperty member hmember)

/-- Which values a schema accepts does not depend on the order of its members, and the path
    does not matter. -/
theorem validateInstance_canonicalizeJson {schema value : Json} {path other : String} :
    validateInstance (canonicalizeJson schema) value other = .ok () ↔
      validateInstance schema value path = .ok () := by
  induction hsize : sizeOf schema using Nat.strong_induction_on generalizing schema value path other
    with
  | _ n ih =>
  subst hsize
  rw [validateInstance_eq_ok, validateInstance_eq_ok, typeMatches_canonicalizeJson]
  refine and_congr_right fun _ => ?_
  -- the schemas of the properties are smaller
  have hmembers : ∀ schemaObject object, schema = .object schemaObject →
      (MembersMatch (fun name property member =>
          validateInstance property member s!"{other}.{name}" = .ok ())
        (canonicalEntries schemaObject) object ↔
      MembersMatch (fun name property member =>
          validateInstance property member s!"{path}.{name}" = .ok ()) schemaObject object) := by
    rintro schemaObject object rfl
    refine membersMatch_canonicalEntries fun properties hproperties property hproperty member => ?_
    refine ih (sizeOf property.2) ?_ rfl
    exact Json.sizeOf_snd_lt_of_mem_object (Json.mem_of_lookup hproperties) hproperty
  constructor
  · rintro h schemaObject object rfl rfl
    have hcanonical : canonicalizeJson (.object schemaObject)
        = .object (canonicalEntries schemaObject) := canonicalizeJson_object schemaObject
    exact (hmembers schemaObject object rfl).mp (h _ object hcanonical rfl)
  · rintro h entries object hentries rfl
    obtain ⟨schemaObject, rfl, rfl⟩ := canonicalizeJson_eq_object.mp hentries
    exact (hmembers schemaObject object rfl).mpr (h schemaObject object rfl rfl)

/-- Schemas that agree up to the order of members accept the same values. -/
theorem validateInstance_congr {schema schema' value : Json} {path other : String}
    (h : canonicalizeJson schema = canonicalizeJson schema') :
    validateInstance schema value path = .ok () ↔
      validateInstance schema' value other = .ok () := by
  have hcanonical : validateInstance (canonicalizeJson schema) value path = .ok () ↔
      validateInstance schema value path = .ok () := validateInstance_canonicalizeJson
  rw [← hcanonical, h, validateInstance_canonicalizeJson]

end GenesisRuntime
