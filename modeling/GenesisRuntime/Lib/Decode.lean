/-
  GenesisRuntime.Lib.Decode

  Decoding JSON values as derived `Deserialize` implementations do.  A struct that
  denies unknown fields is read from an object, by name and in any order, or from an
  array, by position.  `Deserialize` is the counterpart of `Serialize`, and lawful
  where it reads back what that has written.
-/

import GenesisRuntime.Lib.Except
import GenesisRuntime.Lib.Json

/-- What a decoder can report: the constructors of `serde::de::Error`. -/
inductive DecodeError where
  | custom (message : String)
  | invalidType (found : Json) (expected : String)
  | invalidValue (found : Json) (expected : String)
  | invalidLength (length : Nat) (expected : String)
  | unknownField (field : String) (expected : List String)
  | missingField (field : String)
  | duplicateField (field : String)

/-- A type that is decoded from a JSON value. -/
class Deserialize (α : Type) where
  fromValue : Json → Except DecodeError α
  /-- What the absence of a field of this type stands for. -/
  absent : Option α := none

export Deserialize (fromValue)

instance : Deserialize String where
  fromValue
    | .string text => .ok text
    | found => .error (.invalidType found "a string")

instance : Deserialize UInt64 where
  fromValue
    | .number (.posInt n) =>
        if n < UInt64.size then .ok (.ofNat n)
        else .error (.invalidValue (.number (.posInt n)) "u64")
    | .number (.negInt n) => .error (.invalidValue (.number (.negInt n)) "u64")
    | found => .error (.invalidType found "u64")

instance {α : Type} [Deserialize α] : Deserialize (Option α) where
  fromValue
    | .null => .ok none
    | found => some <$> fromValue found
  absent := some none

instance {α : Type} [Deserialize α] : Deserialize (List α) where
  fromValue
    | .array values => values.mapM fromValue
    | found => .error (.invalidType found "a sequence")

-- ============================================================================
-- Structs
-- ============================================================================

/-- A field of a struct, with the check that a value of it decodes. -/
structure StructField where
  name : String
  check : Json → Except DecodeError Unit

/-- A field of this type. -/
def StructField.of (α : Type) [Deserialize α] (name : String) : StructField :=
  ⟨name, fun value => (fun _ => ()) <$> fromValue (α := α) value⟩

/-- The loop over the entries of an object. -/
def visitEntries (fields : List StructField) :
    List String → List (String × Json) → Except DecodeError Unit
  | _, [] => .ok ()
  | seen, (key, value) :: rest =>
      match fields.find? (·.name = key) with
      | none => .error (.unknownField key (fields.map StructField.name))
      | some field =>
          if key ∈ seen then .error (.duplicateField key)
          else do
            field.check value
            visitEntries fields (key :: seen) rest

/-- What a struct is read from: its entries, which are those of an object or the elements of an
    array under the names of the fields. -/
structure FieldSource where
  entries : List (String × Json)
  /-- What the source should have been, if it is an array. -/
  positional : Option String

/-- Read one field. -/
def FieldSource.read {α : Type} [Deserialize α] (source : FieldSource) (name : String) :
    Except DecodeError α :=
  match Json.lookup name source.entries with
  | some value => fromValue value
  | none =>
      match source.positional, Deserialize.absent (α := α) with
      | some expected, _ => .error (.invalidLength source.entries.length expected)
      | none, some a => .ok a
      | none, none => .error (.missingField name)

/-- The derived decoder of a struct that denies unknown fields. -/
def deserializeStruct {α : Type} (name : String) (fields : List StructField)
    (read : FieldSource → Except DecodeError α) : Json → Except DecodeError α
  | .object entries => do
      visitEntries fields [] entries
      read ⟨entries, none⟩
  | .array values => do
      let a ← read ⟨(fields.map StructField.name).zip values,
        some s!"struct {name} with {fields.length} elements"⟩
      if values.length > fields.length then
        .error (.invalidLength values.length "fewer elements in array")
      else .ok a
  | found => .error (.invalidType found s!"struct {name}")

section
variable {α : Type} {fields : List StructField}

theorem visitEntries_eq_ok (hfields : (fields.map StructField.name).Nodup) {seen : List String}
    {entries : List (String × Json)} :
    visitEntries fields seen entries = .ok () ↔ (entries.map Prod.fst).Nodup ∧
      (∀ entry ∈ entries, entry.1 ∉ seen) ∧
      ∀ entry ∈ entries, ∃ field ∈ fields, field.name = entry.1 ∧ field.check entry.2 = .ok () := by
  induction entries generalizing seen with
  | nil => simp [visitEntries]
  | cons entry rest ih =>
      obtain ⟨key, value⟩ := entry
      rw [visitEntries]
      cases hfind : fields.find? (·.name = key) with
      | none =>
          have hnone : ∀ field ∈ fields, field.name ≠ key := by simpa using hfind
          simp only [reduceCtorEq, false_iff, not_and]
          intro _ _ hall
          obtain ⟨field, hmem, hname, -⟩ := hall _ List.mem_cons_self
          exact hnone field hmem hname
      | some field =>
          have hmem : field ∈ fields := List.mem_of_find?_eq_some hfind
          have hname : field.name = key := by simpa using List.find?_some hfind
          have honly : ∀ other ∈ fields, other.name = key → other = field := fun other hother h =>
            List.inj_on_of_nodup_map hfields hother hmem (h.trans hname.symm)
          dsimp only
          by_cases hseen : key ∈ seen
          · simp [hseen]
          rw [if_neg hseen]
          simp only [Except.bind_eq_ok, Except.exists_unit, ih, List.map_cons, List.nodup_cons,
            List.forall_mem_cons]
          constructor
          · rintro ⟨hcheck, hnodup, hnew, hall⟩
            refine ⟨⟨fun hkey => ?_, hnodup⟩,
              ⟨hseen, fun e he hmem => hnew e he (List.mem_cons_of_mem _ hmem)⟩,
              ⟨field, hmem, hname, hcheck⟩, hall⟩
            obtain ⟨e, he, rfl⟩ := List.mem_map.mp hkey
            exact hnew e he List.mem_cons_self
          · rintro ⟨⟨hkey, hnodup⟩, ⟨-, hnew⟩, ⟨other, hother, hothername, hcheck⟩, hall⟩
            rw [honly other hother hothername] at hcheck
            refine ⟨hcheck, hnodup, fun e he hmem => ?_, hall⟩
            rcases List.mem_cons.mp hmem with rfl | hmem
            · exact hkey (List.mem_map.mpr ⟨e, he, rfl⟩)
            · exact hnew e he hmem

/-- Entries with distinct names, all of them looked up. -/
theorem perm_zip_of_lookup {names : List String} {values : List Json}
    {entries : List (String × Json)} (hnames : names.Nodup)
    (hnodup : (entries.map Prod.fst).Nodup) (hsub : ∀ entry ∈ entries, entry.1 ∈ names)
    (hlookup : List.Forall₂ (fun name value => Json.lookup name entries = some value)
      names values) :
    entries.Perm (names.zip values) := by
  have hfst : (names.zip values).map Prod.fst = names :=
    List.map_fst_zip (Nat.le_of_eq hlookup.length_eq)
  refine (List.perm_ext_iff_of_nodup (List.Nodup.of_map _ hnodup)
    (List.Nodup.of_map Prod.fst (hfst.symm ▸ hnames))).mpr fun entry => ?_
  constructor
  · intro hmem
    obtain ⟨i, hi, hname⟩ := List.getElem_of_mem (hsub entry hmem)
    have hi' : i < values.length := hlookup.length_eq ▸ hi
    have hvalue : Json.lookup names[i] entries = some values[i] :=
      (List.forall₂_iff_get.mp hlookup).2 i hi hi'
    have hfound : Json.lookup entry.1 entries = some entry.2 := Json.lookup_of_mem hnodup hmem
    rw [hname, hfound] at hvalue
    have hentry : entry = (names[i], values[i]) := Prod.ext hname.symm (Option.some.inj hvalue)
    rw [hentry]
    exact List.mem_iff_getElem.mpr ⟨i, by rw [List.length_zip]; omega, by simp⟩
  · intro hmem
    obtain ⟨i, hi, hentry⟩ := List.getElem_of_mem hmem
    rw [List.length_zip] at hi
    have hvalue : Json.lookup names[i] entries = some values[i] :=
      (List.forall₂_iff_get.mp hlookup).2 i (by omega) (by omega)
    rw [← hentry, List.getElem_zip]
    exact Json.mem_of_lookup hvalue

/-- Each of the names is looked up among the elements it stands over. -/
theorem lookup_zip {names : List String} {values : List Json} (hnames : names.Nodup)
    (hlength : names.length = values.length) :
    List.Forall₂ (fun name value => Json.lookup name (names.zip values) = some value)
      names values := by
  have hfst : (names.zip values).map Prod.fst = names := List.map_fst_zip (Nat.le_of_eq hlength)
  refine List.forall₂_iff_get.mpr ⟨hlength, fun i hi hi' => ?_⟩
  refine Json.lookup_of_mem (hfst.symm ▸ hnames)
    (List.mem_iff_getElem.mpr ⟨i, ?_, List.getElem_zip⟩)
  rw [List.length_zip]
  omega

theorem eq_of_lookup_zip {names : List String} {values elements : List Json}
    (hnames : names.Nodup) (hle : elements.length ≤ names.length)
    (hlookup : List.Forall₂ (fun name value =>
      Json.lookup name (names.zip elements) = some value) names values) : elements = values := by
  obtain ⟨hlength, hget⟩ := List.forall₂_iff_get.mp hlookup
  have hsame : ∀ i (hi : i < names.length) (hi' : i < values.length),
      ∃ h : i < elements.length, elements[i] = values[i] := by
    intro i hi hi'
    obtain ⟨j, hj, hentry⟩ := List.getElem_of_mem (Json.mem_of_lookup (hget i hi hi'))
    rw [List.length_zip] at hj
    rw [List.getElem_zip, Prod.mk.injEq] at hentry
    obtain rfl := (List.Nodup.getElem_inj_iff hnames).mp hentry.1
    exact ⟨by omega, hentry.2⟩
  refine List.ext_getElem (Nat.le_antisymm (hlength ▸ hle) ?_) fun i hi hi' => ?_
  · by_contra hlt
    obtain ⟨h, -⟩ := hsame elements.length (by omega) (by omega)
    exact Nat.lt_irrefl _ h
  · obtain ⟨_, h⟩ := hsame i (by omega) hi'
    exact h

theorem FieldSource.read_of_lookup [Deserialize α] {source : FieldSource} {name : String}
    {value : Json} {a : α} (hlookup : Json.lookup name source.entries = some value)
    (hvalue : fromValue value = .ok a) : source.read name = .ok a := by
  rw [FieldSource.read, hlookup]
  exact hvalue

/-- Where a field is required it is there. -/
theorem FieldSource.read_eq_ok [Deserialize α] (habsent : Deserialize.absent (α := α) = none)
    {source : FieldSource} {name : String} {a : α} :
    source.read name = .ok a ↔
      ∃ value, Json.lookup name source.entries = some value ∧ fromValue value = .ok a := by
  rw [FieldSource.read]
  cases Json.lookup name source.entries with
  | some value => simp
  | none => cases source.positional <;> simp [habsent]

/-- The presentations of a struct by the values of its fields. -/
def Presents (names : List String) (values : List Json) (value : Json) : Prop :=
  value = .array values ∨ ∃ entries, value = .object entries ∧ entries.Perm (names.zip values)

/-- Each presentation of values that decode is read, from a source in which they are found. -/
theorem deserializeStruct_of_presents {name : String} {read : FieldSource → Except DecodeError α}
    (hnames : (fields.map StructField.name).Nodup) {values : List Json} {value : Json} {a : α}
    (hcheck : List.Forall₂ (fun field value => field.check value = .ok ()) fields values)
    (hread : ∀ source : FieldSource,
      List.Forall₂ (fun name value => Json.lookup name source.entries = some value)
        (fields.map StructField.name) values → read source = .ok a)
    (hvalue : Presents (fields.map StructField.name) values value) :
    deserializeStruct name fields read value = .ok a := by
  have hlength : (fields.map StructField.name).length = values.length := by
    rw [List.length_map, hcheck.length_eq]
  rcases hvalue with rfl | ⟨entries, rfl, hperm⟩
  · refine Except.bind_eq_ok.mpr ⟨a, hread _ (lookup_zip hnames hlength), ?_⟩
    rw [if_neg (by rw [← hcheck.length_eq]; exact Nat.lt_irrefl _)]
  · have hfst : ((fields.map StructField.name).zip values).map Prod.fst
        = fields.map StructField.name := List.map_fst_zip (Nat.le_of_eq hlength)
    have hnodup : (entries.map Prod.fst).Nodup :=
      (hperm.map Prod.fst).nodup_iff.mpr (hfst.symm ▸ hnames)
    have hvisit : visitEntries fields [] entries = .ok () := by
      refine (visitEntries_eq_ok hnames).mpr ⟨hnodup, by simp, fun entry hmem => ?_⟩
      obtain ⟨i, hi, hentry⟩ := List.getElem_of_mem (hperm.mem_iff.mp hmem)
      rw [List.length_zip, List.length_map] at hi
      have hfield := (List.forall₂_iff_get.mp hcheck).2 i (by omega) (by omega)
      rw [← hentry, List.getElem_zip, List.getElem_map]
      exact ⟨fields[i], List.getElem_mem _, rfl, hfield⟩
    refine Except.bind_eq_ok.mpr ⟨(), hvisit, hread _ ?_⟩
    refine (lookup_zip hnames hlength).imp fun name value hlookup => ?_
    rw [← hlookup]
    exact Json.lookup_perm hnodup hperm

/-- What relates two lists carries what relates the one to a third over to the other. -/
theorem forall₂_carry {α β γ : Type} {R : α → γ → Prop} {S : β → γ → Prop} {xs : List α}
    {ys : List β} {zs : List γ} (h : List.Forall₂ (fun x y => ∀ z, R x z → S y z) xs ys)
    (hxs : List.Forall₂ R xs zs) : List.Forall₂ S ys zs := by
  induction h generalizing zs with
  | nil =>
      cases hxs
      exact .nil
  | cons hxy _ ih =>
      cases hxs with
      | cons hz hzs => exact .cons (hxy _ hz) (ih hzs)

/-- A relation to what has a property, list by list. -/
theorem exists_forall₂_iff {R : String → Json → Prop} {names : List String}
    {reads : List (Json → Prop)} :
    (∃ values, List.Forall₂ R names values ∧
        List.Forall₂ (fun (p : Json → Prop) value => p value) reads values) ↔
      List.Forall₂ (fun name p => ∃ value, R name value ∧ p value) names reads := by
  induction names generalizing reads with
  | nil => cases reads <;> simp
  | cons name names ih =>
      cases reads with
      | nil => simp [List.forall₂_nil_left_iff]
      | cons p reads =>
          rw [List.forall₂_cons, ← ih]
          constructor
          · rintro ⟨values, hnames, hreads⟩
            cases hnames with
            | cons hname hnames =>
                cases hreads with
                | cons hp hreads => exact ⟨⟨_, hname, hp⟩, _, hnames, hreads⟩
          · rintro ⟨⟨value, hname, hp⟩, values, hnames, hreads⟩
            exact ⟨value :: values, .cons hname hnames, .cons hp hreads⟩

/-- A struct whose fields are all required is read from the presentations of values that decode
    to its fields, and from nothing else. -/
theorem deserializeStruct_eq_ok {name : String} {read : FieldSource → Except DecodeError α}
    {reads : α → List (Json → Prop)} (hnames : (fields.map StructField.name).Nodup)
    (hread : ∀ source a, read source = .ok a ↔
      List.Forall₂ (fun name p => ∃ value, Json.lookup name source.entries = some value ∧ p value)
        (fields.map StructField.name) (reads a))
    (hcheck : ∀ a, List.Forall₂
      (fun p (field : StructField) => ∀ value, p value → field.check value = .ok ())
      (reads a) fields)
    {value : Json} {a : α} :
    deserializeStruct name fields read value = .ok a ↔ ∃ values,
      List.Forall₂ (fun (p : Json → Prop) value => p value) (reads a) values ∧
        Presents (fields.map StructField.name) values value := by
  constructor
  · intro h
    cases value with
    | object entries =>
        obtain ⟨u, hvisit, h⟩ := Except.bind_eq_ok.mp h
        obtain ⟨hnodup, -, hall⟩ := (visitEntries_eq_ok hnames).mp hvisit
        obtain ⟨values, hlookup, hreads⟩ := exists_forall₂_iff.mpr ((hread _ _).mp h)
        refine ⟨values, hreads, .inr ⟨entries, rfl, ?_⟩⟩
        refine perm_zip_of_lookup hnames hnodup (fun entry hmem => ?_) hlookup
        obtain ⟨field, hfield, hname, -⟩ := hall entry hmem
        exact List.mem_map.mpr ⟨field, hfield, hname⟩
    | array elements =>
        obtain ⟨b, h, hlength⟩ := Except.bind_eq_ok.mp h
        obtain ⟨values, hlookup, hreads⟩ := exists_forall₂_iff.mpr ((hread _ _).mp h)
        split at hlength
        · cases hlength
        · rename_i hle
          cases hlength
          rw [eq_of_lookup_zip hnames (by simpa using hle) hlookup]
          exact ⟨values, hreads, .inl rfl⟩
    | _ => cases h
  · rintro ⟨values, hreads, hvalue⟩
    exact deserializeStruct_of_presents hnames (forall₂_carry (hcheck a) hreads)
      (fun source hlookup => (hread source a).mpr (exists_forall₂_iff.mp ⟨values, hlookup, hreads⟩))
      hvalue

end

-- ============================================================================
-- Reading back what was written
-- ============================================================================

/-- What is written of a value is read back as that value. -/
class LawfulDeserialize (α : Type) [Serialize α] [Deserialize α] : Prop where
  fromValue_of_toValue : ∀ {a : α} {json : Json}, toValue a = .ok json → fromValue json = .ok a

/-- And it is not the `null` that stands for the lack of one. -/
class NeverNull (α : Type) [Serialize α] : Prop where
  ne_null : ∀ {a : α} {json : Json}, toValue a = .ok json → json ≠ .null

export LawfulDeserialize (fromValue_of_toValue)

instance : LawfulDeserialize UInt64 where
  fromValue_of_toValue {a} json h := by
    cases h
    show (if a.toNat < UInt64.size then _ else _) = _
    rw [if_pos a.toNat_lt_size, UInt64.ofNat_toNat]

section
variable {α : Type} [Serialize α] [Deserialize α] [LawfulDeserialize α]

instance [NeverNull α] : LawfulDeserialize (Option α) where
  fromValue_of_toValue {a} json h := by
    cases a with
    | none =>
        cases h
        rfl
    | some a =>
        have hjson : toValue a = .ok json := h
        have hsome : fromValue (α := Option α) json = some <$> fromValue json := by
          cases json with
          | null => exact absurd rfl (NeverNull.ne_null hjson)
          | _ => rfl
        rw [hsome, fromValue_of_toValue hjson]
        rfl

instance : LawfulDeserialize (List α) where
  fromValue_of_toValue {as} json h := by
    obtain ⟨values, hvalues, h⟩ := Except.bind_eq_ok.mp h
    cases h
    refine Except.mapM_eq_ok.mpr ?_
    exact ((Except.mapM_eq_ok.mp hvalues).imp fun a value h => fromValue_of_toValue h).flip

end
