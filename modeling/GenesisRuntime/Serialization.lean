/-
  GenesisRuntime.Serialization

  Which values serialize.  A capability may fail to; everything else fails only where a
  capability in it does, and the capabilities of an authority set have been serialized
  when the set was made.
-/

import GenesisRuntime.Action
import GenesisRuntime.Digest.Canonical
import GenesisRuntime.Identity

namespace GenesisRuntime

/-- Every value of the type serializes. -/
class Serializes (α : Type) [Serialize α] : Prop where
  exists_toValue : ∀ a : α, ∃ json, toValue a = .ok json

section
variable {α β : Type} [Serialize α] [Serialize β] [hα : Serializes α] [hβ : Serializes β]

instance : Serializes String := ⟨fun _ => ⟨_, rfl⟩⟩
instance : Serializes UInt8 := ⟨fun _ => ⟨_, rfl⟩⟩
instance : Serializes UInt32 := ⟨fun _ => ⟨_, rfl⟩⟩
instance : Serializes UInt64 := ⟨fun _ => ⟨_, rfl⟩⟩
instance : Serializes Json := ⟨fun _ => ⟨_, rfl⟩⟩
instance {kind : String} : Serializes (Identifier kind) := ⟨fun _ => ⟨_, rfl⟩⟩
instance : Serializes CanonicalJson := ⟨fun _ => ⟨_, rfl⟩⟩
instance : Serializes ActionTarget := ⟨fun _ => ⟨_, rfl⟩⟩
instance : Serializes EffectClass := ⟨fun effect => by cases effect <;> exact ⟨_, rfl⟩⟩
instance : Serializes SemanticScope := ⟨fun scope => by cases scope <;> exact ⟨_, rfl⟩⟩

instance : Serializes (Option α) where
  exists_toValue
    | none => ⟨.null, rfl⟩
    | some a => hα.exists_toValue a

instance : Serializes (List α) where
  exists_toValue xs := exists_toValue_list xs fun x _ => hα.exists_toValue x

instance : Serializes (α × β) where
  exists_toValue pair := by
    obtain ⟨a, ha⟩ := hα.exists_toValue pair.1
    obtain ⟨b, hb⟩ := hβ.exists_toValue pair.2
    exact ⟨.array [a, b], Except.bind_eq_ok.mpr ⟨a, ha, Except.bind_eq_ok.mpr ⟨b, hb, rfl⟩⟩⟩

instance : Serializes SignatureBytes :=
  ⟨fun signature => Serializes.exists_toValue signature.bytes⟩

end

section
variable [Externals]

instance : Serializes DateTime := ⟨fun _ => ⟨_, rfl⟩⟩
instance : Serializes Digest := ⟨fun _ => ⟨_, rfl⟩⟩
instance : Serializes ActionRef := ⟨fun _ => ⟨_, rfl⟩⟩

instance : Serializes BoundTool where
  exists_toValue tool := exists_structValue (by simp [Serializes.exists_toValue])

instance : Serializes LeaseRef where
  exists_toValue ref := exists_structValue (by simp [Serializes.exists_toValue])

instance : Serializes CanonicalAction where
  exists_toValue action := exists_structValue (by simp [Serializes.exists_toValue])

/-- The capabilities of a canonical list have serialized. -/
theorem exists_toValue_of_canonical {cs out : List Capability}
    (h : canonicalCapabilities cs = .ok out) : ∀ c ∈ cs, ∃ json, toValue c = .ok json := by
  intro c hc
  obtain ⟨_, -, -, -, hall⟩ := canonicalCapabilities_spec h
  obtain ⟨key, _, hkeyed, -⟩ := hall c hc
  simp only [keyedCapability, Except.bind_eq_ok, canonicalError_eq_ok] at hkeyed
  obtain ⟨json, hjson, -⟩ := hkeyed
  exact ⟨json, hjson⟩

instance : Serializes AuthoritySet where
  exists_toValue set := by
    obtain ⟨json, hjson⟩ :=
      exists_toValue_list set.capabilities (exists_toValue_of_canonical set.canonical)
    exact exists_structValue (by simp [hjson])

-- ============================================================================
-- Certificates
-- ============================================================================

theorem AgentIdentityCertificate.exists_payload (cert : AgentIdentityCertificate) :
    ∃ json, structValue cert.payloadFields = .ok json :=
  exists_structValue (by simp [payloadFields, Serializes.exists_toValue])

theorem AuthorityLeaseCertificate.exists_payload (cert : AuthorityLeaseCertificate) :
    ∃ json, structValue cert.payloadFields = .ok json :=
  exists_structValue (by simp [payloadFields, Serializes.exists_toValue])

theorem ActionCertificate.exists_payload (cert : ActionCertificate) :
    ∃ json, structValue cert.payloadFields = .ok json :=
  exists_structValue (by simp [payloadFields, Serializes.exists_toValue])

instance : Serializes AgentIdentityCertificate where
  exists_toValue cert := exists_structValue
    (by simp [AgentIdentityCertificate.payloadFields, Serializes.exists_toValue])

instance : Serializes AuthorityLeaseCertificate where
  exists_toValue cert := exists_structValue
    (by simp [AuthorityLeaseCertificate.payloadFields, Serializes.exists_toValue])

-- ============================================================================
-- Digests and payloads
-- ============================================================================

/-- The digest of a value under a domain of the sources. -/
theorem exists_canonicalDigest {α : Type} [Serialize α] [hα : Serializes α] {domain : String}
    (hdomain : domain.isEmpty = false ∧ domain.utf8ByteSize ≤ u32Max) (a : α) :
    ∃ digest, canonicalDigest domain a = .ok digest := by
  obtain ⟨json, hjson⟩ := hα.exists_toValue a
  exact ⟨_, canonicalDigest_eq_ok.mpr ⟨hdomain, json, hjson, rfl⟩⟩

/-- And the payload that is signed for fields that serialize. -/
theorem exists_canonicalBytes {domain : String} {fields : List (String × Except String Json)}
    (hdomain : domain.isEmpty = false ∧ domain.utf8ByteSize ≤ u32Max)
    (hfields : ∃ json, structValue fields = .ok json) :
    ∃ bytes, canonicalBytes domain (Fields.mk fields) = .ok bytes := by
  obtain ⟨json, hjson⟩ := hfields
  exact ⟨_, canonicalBytes_eq_ok.mpr ⟨hdomain, json, hjson, rfl⟩⟩

end

end GenesisRuntime
