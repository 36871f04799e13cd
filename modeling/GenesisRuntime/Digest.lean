/-
  GenesisRuntime.Digest

  `digest.rs`: canonical JSON, and the length-prefixed, domain-separated framing
  under which every signature payload and every digest is computed.
-/

import GenesisRuntime.Externals
import GenesisRuntime.Lib.Sort

namespace GenesisRuntime

-- ============================================================================
-- Canonical JSON
-- ============================================================================

/-- `entries.sort_by(|left, right| left.0.cmp(&right.0))`. -/
def sortEntries (entries : List (String × Json)) : List (String × Json) :=
  sortByKey Prod.fst entries

theorem sortEntries_perm (entries : List (String × Json)) :
    (sortEntries entries).Perm entries :=
  sortByKey_perm Prod.fst entries

theorem mem_sortEntries {entry : String × Json} {entries : List (String × Json)} :
    entry ∈ sortEntries entries ↔ entry ∈ entries :=
  (sortEntries_perm entries).mem_iff

/-- Sorting is stable, so lookups do not see it. -/
theorem lookup_sortEntries (name : String) (entries : List (String × Json)) :
    Json.lookup name (sortEntries entries) = Json.lookup name entries := by
  have hsame : (sortEntries entries).filter (fun entry => entry.1 = name)
      = entries.filter fun entry => entry.1 = name := filter_sortByKey Prod.fst name entries
  rw [← Json.lookup_filter_eq, hsame, Json.lookup_filter_eq]

/-- `canonicalize_json`: sort the entries of every object by name. -/
def canonicalizeJson : Json → Json
  | .array values => .array (values.attach.map fun value => canonicalizeJson value.1)
  | .object entries =>
      .object ((sortEntries entries).attach.map fun entry =>
        (entry.1.1, canonicalizeJson entry.1.2))
  | primitive => primitive
termination_by value => sizeOf value
decreasing_by
  · have := List.sizeOf_lt_of_mem value.2
    simp only [Json.array.sizeOf_spec]
    omega
  · have hmem := Json.sizeOf_snd_lt_of_mem (mem_sortEntries.mp entry.2)
    simp only [Json.object.sizeOf_spec]
    omega

@[simp] theorem canonicalizeJson_array (values : List Json) :
    canonicalizeJson (.array values) = .array (values.map canonicalizeJson) := by
  rw [canonicalizeJson, List.map_subtype (g := canonicalizeJson) fun _ _ => rfl,
    List.unattach_attach]

@[simp] theorem canonicalizeJson_object (entries : List (String × Json)) :
    canonicalizeJson (.object entries)
      = .object ((sortEntries entries).map fun e => (e.1, canonicalizeJson e.2)) := by
  rw [canonicalizeJson,
    List.map_subtype (g := fun e => (e.1, canonicalizeJson e.2)) fun _ _ => rfl,
    List.unattach_attach]

@[simp] theorem canonicalizeJson_string (s : String) :
    canonicalizeJson (.string s) = .string s := by
  rw [canonicalizeJson] <;> simp

@[simp] theorem canonicalizeJson_number (n : JsonNumber) :
    canonicalizeJson (.number n) = .number n := by
  rw [canonicalizeJson] <;> simp

@[simp] theorem canonicalizeJson_null : canonicalizeJson .null = .null := by
  rw [canonicalizeJson] <;> simp

@[simp] theorem canonicalizeJson_bool (b : Bool) :
    canonicalizeJson (.bool b) = .bool b := by
  rw [canonicalizeJson] <;> simp

/-- `CanonicalJson`: a value together with the fact that it came out of
    `CanonicalJson::new`. -/
structure CanonicalJson where
  value : Json
  canonical : ∃ source, value = canonicalizeJson source

namespace CanonicalJson

/-- `CanonicalJson::new`. -/
def new (value : Json) : CanonicalJson := ⟨canonicalizeJson value, value, rfl⟩

instance : Serialize CanonicalJson := ⟨fun json => .ok json.value⟩

end CanonicalJson

-- ============================================================================
-- Framing
-- ============================================================================

def u32Max : Nat := 4294967295

/-- The bytes of a text (`as_bytes`, UTF-8). -/
def textBytes (s : String) : List UInt8 := s.toUTF8.data.toList

theorem length_textBytes (s : String) : (textBytes s).length = s.utf8ByteSize := by
  rw [textBytes, Array.length_toList]
  exact String.size_toByteArray

/-- `width` big-endian bytes of `n` (`to_be_bytes`). -/
def beBytes : Nat → Nat → List UInt8
  | 0, _ => []
  | width + 1, n => beBytes width (n / 256) ++ [UInt8.ofNat (n % 256)]

/-- Bytes that do not fit are cut off. -/
theorem beBytes_mod (width n : Nat) : beBytes width (n % 256 ^ width) = beBytes width n := by
  induction width generalizing n with
  | zero => rfl
  | succ width ih =>
      rw [beBytes, beBytes, Nat.pow_succ', Nat.mod_mul_right_div_self, ih,
        Nat.mod_mod_of_dvd n (Nat.dvd_mul_right 256 _)]

/-- `len(domain) ‖ domain ‖ len(encoded) ‖ encoded`, as `canonical_bytes` puts it together. -/
def frame (domain : String) (encoded : List UInt8) : List UInt8 :=
  beBytes 4 domain.utf8ByteSize ++ textBytes domain ++ beBytes 8 encoded.length ++ encoded

/-- What `canonical_digest` feeds to its hasher, update by update; the lengths are cast. -/
def hasherUpdates (domain : String) (encoded : List UInt8) : List (List UInt8) :=
  [beBytes 4 (domain.utf8ByteSize % 2 ^ 32), textBytes domain,
    beBytes 8 (encoded.length % 2 ^ 64), encoded]

/-- The two framings are the same bytes. -/
theorem flatten_hasherUpdates (domain : String) (encoded : List UInt8) :
    (hasherUpdates domain encoded).flatten = frame domain encoded := by
  have hdomain : beBytes 4 (domain.utf8ByteSize % 2 ^ 32) = beBytes 4 domain.utf8ByteSize :=
    beBytes_mod 4 _
  have hencoded : beBytes 8 (encoded.length % 2 ^ 64) = beBytes 8 encoded.length :=
    beBytes_mod 8 _
  rw [hasherUpdates, hdomain, hencoded]
  simp [frame]

/-- `canonical_error`. -/
def canonicalError {α : Type} : Except String α → Result α
  | .ok a => .ok a
  | .error message => .error ⟨.canonicalSerialization, message⟩

theorem canonicalError_eq_ok {α : Type} {x : Except String α} {a : α} :
    canonicalError x = .ok a ↔ x = .ok a := by
  cases x <;> simp [canonicalError]

section
variable [Externals] {α : Type} [Serialize α]

/-- `serde_json::to_vec`. -/
def toVec (value : Json) : List UInt8 := textBytes (Externals.jsonText value)

/-- The canonical encoding both framings hash or sign. -/
def canonicalEncoding (value : α) : Result (List UInt8) := do
  let value ← canonicalError (toValue value)
  return toVec (canonicalizeJson value)

/-- `canonical_digest`. -/
def canonicalDigest (domain : String) (value : α) : Result Digest := do
  rejectIf (domain.isEmpty ∨ domain.utf8ByteSize > u32Max) .invalidInput
    "digest domain must contain 1 to u32::MAX bytes"
  let encoded ← canonicalEncoding value
  return Externals.sha256 (hasherUpdates domain encoded).flatten

theorem canonicalDigest_eq_ok {domain : String} {value : α} {digest : Digest} :
    canonicalDigest domain value = .ok digest ↔
      (domain.isEmpty = false ∧ domain.utf8ByteSize ≤ u32Max) ∧
      ∃ json, toValue value = .ok json ∧
        digest = Externals.sha256 (frame domain (toVec (canonicalizeJson json))) := by
  simp only [canonicalDigest, canonicalEncoding, Except.bind_eq_ok, Except.pure_eq_ok,
    flatten_hasherUpdates, rejectIf_eq_ok, not_or, not_lt, Bool.not_eq_true, gt_iff_lt,
    Except.exists_unit, canonicalError_eq_ok]
  constructor
  · rintro ⟨hdomain, _, ⟨json, hjson, rfl⟩, rfl⟩
    exact ⟨hdomain, json, hjson, rfl⟩
  · rintro ⟨hdomain, json, hjson, rfl⟩
    exact ⟨hdomain, _, ⟨json, hjson, rfl⟩, rfl⟩

/-- `canonical_bytes`. -/
def canonicalBytes (domain : String) (value : α) : Result (List UInt8) := do
  rejectIf domain.isEmpty .invalidInput "digest domain must contain at least one byte"
  let encoded ← canonicalEncoding value
  rejectIf (domain.utf8ByteSize > u32Max) .invalidInput "digest domain is too large"
  return frame domain encoded

theorem canonicalBytes_eq_ok {domain : String} {value : α} {bytes : List UInt8} :
    canonicalBytes domain value = .ok bytes ↔
      (domain.isEmpty = false ∧ domain.utf8ByteSize ≤ u32Max) ∧
      ∃ json, toValue value = .ok json ∧
        bytes = frame domain (toVec (canonicalizeJson json)) := by
  simp only [canonicalBytes, canonicalEncoding, Except.bind_eq_ok, Except.pure_eq_ok,
    rejectIf_eq_ok, not_lt, Bool.not_eq_true, gt_iff_lt, Except.exists_unit, canonicalError_eq_ok]
  constructor
  · rintro ⟨hempty, _, ⟨json, hjson, rfl⟩, hsize, rfl⟩
    exact ⟨⟨hempty, hsize⟩, json, hjson, rfl⟩
  · rintro ⟨⟨hempty, hsize⟩, json, hjson, rfl⟩
    exact ⟨hempty, _, ⟨json, hjson, rfl⟩, hsize, rfl⟩

/-- `canonical_value_bytes`. -/
def canonicalValueBytes (value : Json) : List UInt8 := toVec (canonicalizeJson value)

/-- Different capabilities serialize to values that differ in canonical form. -/
def CapabilitySerializationInjective : Prop :=
  ∀ (a b : Capability) (x y : Json), toValue a = .ok x → toValue b = .ok y →
    canonicalizeJson x = canonicalizeJson y → a = b

omit [Externals] in
theorem textBytes_injective : Function.Injective textBytes := by
  intro a b h
  have hdata : a.toUTF8.data = b.toUTF8.data := Array.toList_inj.mp h
  have hbytes : a.toUTF8 = b.toUTF8 := ByteArray.ext hdata
  exact String.toByteArray_inj.mp hbytes

theorem toVec_injective (h : JsonTextInjective) : Function.Injective toVec :=
  fun _ _ heq => h (textBytes_injective heq)

end

end GenesisRuntime
