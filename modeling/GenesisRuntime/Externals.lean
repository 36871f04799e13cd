/-
  GenesisRuntime.Externals

  What the crate calls but does not define: the Nexus capability type and its
  order, SHA-256, Ed25519, the JSON text encoding and the timestamp format.
  They are parameters of the whole development, bundled in one class.

  A digest is a value of an abstract type.  The sources only compare, sort and
  print digests, and an abstract type is the one over which "no two inputs
  collide" is a satisfiable assumption.  Facts the development relies on beyond
  that are the named propositions at the end; a theorem that needs one takes it
  as a hypothesis.
-/

import GenesisRuntime.Ids
import Mathlib.Order.Defs.LinearOrder

namespace GenesisRuntime

/-- A UTC timestamp (`chrono::DateTime<Utc>`), in nanoseconds. -/
structure DateTime where
  nanos : Int
deriving DecidableEq

/-- A signed span of time (`chrono::Duration`), in nanoseconds. -/
structure Duration where
  nanos : Int
deriving DecidableEq

namespace DateTime

theorem nanos_injective : Function.Injective nanos := by
  rintro ⟨a⟩ ⟨b⟩ h
  cases h
  rfl

instance : LinearOrder DateTime := LinearOrder.lift' nanos nanos_injective

theorem le_def {a b : DateTime} : a ≤ b ↔ a.nanos ≤ b.nanos := Iff.rfl

theorem lt_def {a b : DateTime} : a < b ↔ a.nanos < b.nanos := Iff.rfl

instance : HAdd DateTime Duration DateTime := ⟨fun t d => ⟨t.nanos + d.nanos⟩⟩
instance : HSub DateTime DateTime Duration := ⟨fun a b => ⟨a.nanos - b.nanos⟩⟩

@[simp] theorem add_nanos (t : DateTime) (d : Duration) :
    (t + d).nanos = t.nanos + d.nanos := rfl

@[simp] theorem sub_nanos (a b : DateTime) : (a - b).nanos = a.nanos - b.nanos := rfl

end DateTime

namespace Duration

theorem nanos_injective : Function.Injective nanos := by
  rintro ⟨a⟩ ⟨b⟩ h
  cases h
  rfl

instance : LinearOrder Duration := LinearOrder.lift' nanos nanos_injective

theorem le_def {a b : Duration} : a ≤ b ↔ a.nanos ≤ b.nanos := Iff.rfl

@[simp] theorem min_nanos (a b : Duration) : (min a b).nanos = min a.nanos b.nanos := by
  rcases le_total a b with h | h
  · rw [min_eq_left h, min_eq_left (le_def.mp h)]
  · rw [min_eq_right h, min_eq_right (le_def.mp h)]

/-- `Duration::seconds`. -/
def seconds (n : Int) : Duration := ⟨n * 1000000000⟩

/-- `Duration::minutes`. -/
def minutes (n : Int) : Duration := seconds (n * 60)

end Duration

/-- The components the crate takes from outside the repository. -/
class Externals where
  /-- `nexus::Capability`. -/
  Capability : Type
  [capabilityDecidableEq : DecidableEq Capability]
  /-- `Capability::All`. -/
  capabilityAll : Capability
  /-- `Capability::is_subset_of`. -/
  isSubsetOf : Capability → Capability → Bool
  /-- `serde_json::to_value` of a capability. -/
  capabilityToValue : Capability → Except String Json
  /-- `serde_json::to_string` of a capability. -/
  capabilityToString : Capability → Except String String
  /-- `serde_json::from_str` at the capability type. -/
  capabilityFromStr : String → Except String Capability
  /-- The output of SHA-256. -/
  Digest : Type
  [digestLinearOrder : LinearOrder Digest]
  sha256 : List UInt8 → Digest
  /-- The lowercase hexadecimal text of a digest. -/
  toHex : Digest → String
  /-- `serde_json::to_string` of a JSON value. -/
  jsonText : Json → String
  /-- The entries of the single top-level JSON object of a text, in order of
      appearance and with repetitions, as a map visitor receives them. -/
  parseEntries : String → Except String (List (String × Json))
  /-- The RFC 3339 text of a timestamp. -/
  timestampText : DateTime → String
  /-- `ed25519_dalek::VerifyingKey`. -/
  VerifyingKey : Type
  verifyingKeyToBytes : VerifyingKey → Vector UInt8 32
  verifyingKeyFromBytes : Vector UInt8 32 → Option VerifyingKey
  /-- `VerifyingKey::verify` of a payload and a 64-byte signature. -/
  verifies : VerifyingKey → List UInt8 → List UInt8 → Bool

export Externals (Capability Digest VerifyingKey capabilityAll isSubsetOf)

section
variable [Externals]

instance : DecidableEq Capability := Externals.capabilityDecidableEq
instance : LawfulBEq Capability := inferInstance
instance : LinearOrder Digest := Externals.digestLinearOrder

instance : Serialize Capability := ⟨Externals.capabilityToValue⟩
instance : Serialize Digest := ⟨fun digest => .ok (.string (Externals.toHex digest))⟩
instance : Serialize DateTime := ⟨fun time => .ok (.string (Externals.timestampText time))⟩

-- ============================================================================
-- Named assumptions
-- ============================================================================

/-- `Capability::is_subset_of` is reflexive and transitive. -/
structure SubsetPreorder : Prop where
  refl : ∀ a : Capability, isSubsetOf a a = true
  trans : ∀ a b c : Capability,
    isSubsetOf a b = true → isSubsetOf b c = true → isSubsetOf a c = true

/-- `Capability::is_subset_of` is transitive. -/
def SubsetTransitive : Prop :=
  ∀ a b c : Capability, isSubsetOf a b = true → isSubsetOf b c = true → isSubsetOf a c = true

theorem SubsetPreorder.transitive (h : SubsetPreorder) : SubsetTransitive := h.trans

/-- No two byte strings have the same SHA-256 digest. -/
def CollisionFree : Prop := Function.Injective Externals.sha256

/-- Different JSON values have different texts. -/
def JsonTextInjective : Prop := Function.Injective Externals.jsonText

/-- Different digests print differently. -/
def HexInjective : Prop := Function.Injective Externals.toHex

/-- Different times print differently. -/
def TimestampInjective : Prop := Function.Injective Externals.timestampText

/-- A public key survives the round trip through its bytes. -/
def VerifyingKeyRoundTrip : Prop :=
  ∀ key : VerifyingKey,
    Externals.verifyingKeyFromBytes (Externals.verifyingKeyToBytes key) = some key

end

end GenesisRuntime
