/-
  GenesisRuntime.Authority

  `authority.rs`: authority sets in canonical form, capability manifests, lease
  certificates and their mutable records.

  An `AuthoritySet` can only be obtained from `AuthoritySet::new` (its field is
  private and deserialization goes through `new`), so the type carries what `new`
  established.  Lease generations are `u64` counters advanced by one per state
  change; they are natural numbers here, since no run reaches 2^64 changes of one
  lease.
-/

import GenesisRuntime.Digest
import Mathlib.Data.List.Lex
import Mathlib.Data.Prod.Lex

namespace GenesisRuntime

/-- The fields of a `#[derive(Serialize)]` struct declared inside a function. -/
structure Fields where
  fields : List (String × Except String Json)

instance : Serialize Fields := ⟨fun s => structValue s.fields⟩

/-- `SignatureBytes`. -/
structure SignatureBytes where
  bytes : List UInt8
deriving DecidableEq

instance : Serialize SignatureBytes := ⟨fun s => toValue s.bytes⟩

/-- The comparison key of a byte string: bytewise lexicographic order. -/
def byteKey (bytes : List UInt8) : List Nat := bytes.map UInt8.toNat

section
variable [Externals]

-- ============================================================================
-- Canonical capability lists
-- ============================================================================

/-- A capability under the bytes of its canonical JSON. -/
def keyedCapability (capability : Capability) : Result (List UInt8 × Capability) := do
  let value ← canonicalError (toValue capability)
  return (canonicalValueBytes value, capability)

/-- `canonical_capabilities`. -/
def canonicalCapabilities (capabilities : List Capability) : Result (List Capability) := do
  let keyed ← capabilities.mapM keyedCapability
  let keyed := sortByKey (fun entry => byteKey entry.1) keyed
  let keyed := dedupByKey (fun entry => byteKey entry.1) keyed
  return keyed.map Prod.snd

theorem keyedCapability_snd {c : Capability} {entry : List UInt8 × Capability}
    (h : keyedCapability c = .ok entry) : entry.2 = c := by
  simp only [keyedCapability, Except.bind_eq_ok, Except.pure_eq_ok] at h
  obtain ⟨value, -, rfl⟩ := h
  rfl

/-- Keyed entries are determined by their capability. -/
theorem forall₂_keyed_map {cs : List Capability} {keyed : List (List UInt8 × Capability)}
    (h : ∀ entry ∈ keyed, keyedCapability entry.2 = .ok entry)
    (hcs : keyed.map Prod.snd = cs) : cs.mapM keyedCapability = .ok keyed := by
  subst hcs
  rw [Except.mapM_eq_ok, List.forall₂_map_left_iff]
  exact List.forall₂_same.mpr h

/-- What a successful canonicalization returns. -/
theorem canonicalCapabilities_spec {cs out : List Capability}
    (h : canonicalCapabilities cs = .ok out) :
    ∃ keyed : List (List UInt8 × Capability),
      out = keyed.map Prod.snd ∧
      (∀ entry ∈ keyed, keyedCapability entry.2 = .ok entry ∧ entry.2 ∈ cs) ∧
      keyed.Pairwise (fun a b => byteKey a.1 < byteKey b.1) ∧
      (∀ c ∈ cs, ∃ k entry, keyedCapability c = .ok (k, c) ∧
        entry ∈ keyed ∧ byteKey entry.1 = byteKey k) := by
  simp only [canonicalCapabilities, Except.bind_eq_ok, Except.pure_eq_ok] at h
  obtain ⟨raw, hraw, rfl⟩ := h
  rw [Except.mapM_eq_ok] at hraw
  have hmem : ∀ entry ∈ raw, keyedCapability entry.2 = .ok entry ∧ entry.2 ∈ cs := by
    intro entry he
    obtain ⟨i, hi, rfl⟩ := List.getElem_of_mem he
    have hlen := hraw.length_eq
    have hk := (List.forall₂_iff_get.mp hraw).2 i (by omega) hi
    simp only [List.get_eq_getElem] at hk
    have hsnd := keyedCapability_snd hk
    rw [hsnd]
    exact ⟨hk, List.getElem_mem _⟩
  have hsub := dedupByKey_sublist (fun e : List UInt8 × Capability => byteKey e.1)
    (sortByKey (fun e => byteKey e.1) raw)
  refine ⟨_, rfl, ?_, dedupByKey_pairwise_lt (sortByKey_pairwise _ _), ?_⟩
  · intro entry he
    exact hmem entry (mem_sortByKey.mp (hsub.subset he))
  · intro c hc
    obtain ⟨i, hi, rfl⟩ := List.getElem_of_mem hc
    have hlen := hraw.length_eq
    have hk := (List.forall₂_iff_get.mp hraw).2 i hi (by omega)
    simp only [List.get_eq_getElem] at hk
    have hsnd := keyedCapability_snd hk
    have hin : raw[i] ∈ sortByKey (fun e : List UInt8 × Capability => byteKey e.1) raw :=
      mem_sortByKey.mpr (List.getElem_mem _)
    obtain ⟨entry, hentry, hkey⟩ := exists_mem_dedupByKey (fun e => byteKey e.1) hin
    refine ⟨raw[i].1, entry, ?_, hentry, hkey⟩
    rw [hk, ← hsnd]

theorem canonicalCapabilities_subset {cs out : List Capability}
    (h : canonicalCapabilities cs = .ok out) : out ⊆ cs := by
  obtain ⟨keyed, rfl, hmem, -, -⟩ := canonicalCapabilities_spec h
  intro c hc
  obtain ⟨entry, he, rfl⟩ := List.mem_map.mp hc
  exact (hmem entry he).2

/-- A canonical list is its own canonical form. -/
theorem canonicalCapabilities_idem {cs out : List Capability}
    (h : canonicalCapabilities cs = .ok out) : canonicalCapabilities out = .ok out := by
  obtain ⟨keyed, rfl, hmem, hlt, -⟩ := canonicalCapabilities_spec h
  have hraw := forall₂_keyed_map (fun e he => (hmem e he).1) rfl
  have hsort : sortByKey (fun e : List UInt8 × Capability => byteKey e.1) keyed = keyed :=
    sortByKey_of_pairwise (hlt.imp le_of_lt)
  have hdedup : dedupByKey (fun e : List UInt8 × Capability => byteKey e.1) keyed = keyed :=
    dedupByKey_of_pairwise_lt hlt
  simp only [canonicalCapabilities, Except.bind_eq_ok, Except.pure_eq_ok]
  exact ⟨keyed, hraw, by rw [hsort, hdedup]⟩

omit [Externals] in
theorem byteKey_injective : Function.Injective byteKey :=
  List.map_injective_iff.mpr fun _ _ h => UInt8.toNat_inj.mp h

/-- Equal keys are keys of equal capabilities. -/
theorem keyedCapability_injective (hcap : CapabilitySerializationInjective)
    (htext : JsonTextInjective) {a b : Capability} {x y : List UInt8 × Capability}
    (hx : keyedCapability a = .ok x) (hy : keyedCapability b = .ok y)
    (hkey : byteKey x.1 = byteKey y.1) : a = b := by
  simp only [keyedCapability, Except.bind_eq_ok, Except.pure_eq_ok, canonicalError_eq_ok]
    at hx hy
  obtain ⟨v, hv, rfl⟩ := hx
  obtain ⟨w, hw, rfl⟩ := hy
  exact hcap a b v w hv hw (toVec_injective htext (byteKey_injective hkey))

/-- Where the encoding tells capabilities apart, no capability is lost. -/
theorem mem_canonicalCapabilities (hcap : CapabilitySerializationInjective)
    (htext : JsonTextInjective) {cs out : List Capability}
    (h : canonicalCapabilities cs = .ok out) {c : Capability} : c ∈ out ↔ c ∈ cs := by
  refine ⟨fun hc => canonicalCapabilities_subset h hc, fun hc => ?_⟩
  obtain ⟨keyed, rfl, hmem, -, hall⟩ := canonicalCapabilities_spec h
  obtain ⟨k, entry, hk, hentry, hkey⟩ := hall c hc
  have heq := keyedCapability_injective hcap htext (hmem entry hentry).1 hk hkey
  rw [← heq]
  exact List.mem_map_of_mem hentry

-- ============================================================================
-- Authority sets
-- ============================================================================

/-- `AuthorityRequest`. -/
structure AuthorityRequest where
  capabilities : List Capability
deriving DecidableEq

/-- `AuthoritySet`: capabilities in canonical form, none of them
    `Capability::All`. -/
structure AuthoritySet where
  capabilities : List Capability
  noAll : capabilityAll ∉ capabilities
  canonical : canonicalCapabilities capabilities = .ok capabilities
deriving DecidableEq

/-- `SerializedAuthoritySet`. -/
structure SerializedAuthoritySet where
  capabilities : List Capability

namespace SerializedAuthoritySet

/-- `Vec::<Capability>::deserialize`; `fromValue` is the deserializer of a capability. -/
def listFromValue (fromValue : Json → Except String Capability) :
    Json → Except String (List Capability)
  | .array values => values.mapM fromValue
  | _ => .error "invalid type: expected a sequence"

/-- The derived `visit_map`: the entries in their order, with what has been read so far. -/
def visitMap (fromValue : Json → Except String Capability) :
    List (String × Json) → Option (List Capability) → Except String SerializedAuthoritySet
  | [], none => .error "missing field `capabilities`"
  | [], some capabilities => .ok ⟨capabilities⟩
  | (name, value) :: rest, read => do
      if name ≠ "capabilities" then
        throw s!"unknown field `{name}`, expected `capabilities`"
      if read.isSome then
        throw "duplicate field `capabilities`"
      visitMap fromValue rest (some (← listFromValue fromValue value))

/-- The derived `visit_seq`, and the check that nothing is left over. -/
def visitSeq (fromValue : Json → Except String Capability) :
    List Json → Except String SerializedAuthoritySet
  | [] => .error "invalid length 0, expected struct SerializedAuthoritySet with 1 element"
  | value :: rest => do
      let capabilities ← listFromValue fromValue value
      if ¬ rest.isEmpty then
        throw s!"invalid length {rest.length + 1}, expected fewer elements in array"
      return ⟨capabilities⟩

/-- The derived `Deserialize`, with `deny_unknown_fields`. -/
def deserialize (fromValue : Json → Except String Capability) :
    Json → Except String SerializedAuthoritySet
  | .object entries => visitMap fromValue entries none
  | .array values => visitSeq fromValue values
  | _ => .error "invalid type: expected struct SerializedAuthoritySet"

end SerializedAuthoritySet

namespace AuthoritySet

/-- `AuthoritySet::new`. -/
def new (capabilities : List Capability) : Result AuthoritySet :=
  if hall : capabilityAll ∈ capabilities then
    .error ⟨.capabilityAllForbidden, "Capability::All is forbidden in agent authority"⟩
  else
    match h : canonicalCapabilities capabilities with
    | .ok canonical =>
        .ok ⟨canonical, fun hc => hall (canonicalCapabilities_subset h hc),
          canonicalCapabilities_idem h⟩
    | .error e => .error e

/-- `Deserialize for AuthoritySet`. -/
def deserialize (fromValue : Json → Except String Capability) (value : Json) :
    Except String AuthoritySet := do
  let serialized ← SerializedAuthoritySet.deserialize fromValue value
  match new serialized.capabilities with
  | .ok set => return set
  | .error e => throw e.display

/-- `covers`. -/
def covers (set : AuthoritySet) (required : Capability) : Bool :=
  set.capabilities.any fun granted => isSubsetOf required granted

/-- `is_subset_of`. -/
def isSubsetOf (set parent : AuthoritySet) : Bool :=
  set.capabilities.all fun capability => parent.covers capability

instance : Serialize AuthoritySet :=
  ⟨fun set => structValue [("capabilities", toValue set.capabilities)]⟩

theorem new_eq_ok {cs : List Capability} {set : AuthoritySet} (h : new cs = .ok set) :
    capabilityAll ∉ cs ∧ canonicalCapabilities cs = .ok set.capabilities := by
  unfold new at h
  split at h
  · cases h
  · rename_i hall
    split at h
    · rename_i out hout
      cases h
      exact ⟨hall, hout⟩
    · cases h

theorem new_capabilities (set : AuthoritySet) : new set.capabilities = .ok set := by
  unfold new
  rw [dif_neg set.noAll]
  split
  · rename_i out hout
    rw [set.canonical] at hout
    cases hout
    rfl
  · rename_i e he
    rw [set.canonical] at he
    cases he

end AuthoritySet

-- ============================================================================
-- Capability manifests
-- ============================================================================

/-- `PermissionSet`. -/
structure PermissionSet where
  capabilities : List Capability
deriving DecidableEq

instance : Serialize PermissionSet :=
  ⟨fun set => structValue [("capabilities", toValue set.capabilities)]⟩

/-- `BoundTool`. -/
structure BoundTool where
  toolId : ToolId
  toolManifestDigest : Digest
deriving DecidableEq

instance : Serialize BoundTool :=
  ⟨fun tool => structValue
    [("tool_id", toValue tool.toolId),
     ("tool_manifest_digest", toValue tool.toolManifestDigest)]⟩

/-- The derived order of `BoundTool`: by identifier, then by digest. -/
def BoundTool.key (tool : BoundTool) : Lex (ToolId × Digest) :=
  toLex (tool.toolId, tool.toolManifestDigest)

/-- `CapabilityManifest`. -/
structure CapabilityManifest where
  version : UInt8
  modelManifestDigest : Digest
  approvedTools : List BoundTool
  permissions : PermissionSet
  runtimeConfigDigest : Digest
  toolRegistryRootDigest : Digest
deriving DecidableEq

/-- `CapabilityManifest::canonical_digest`. -/
def CapabilityManifest.canonicalDigest (manifest : CapabilityManifest) : Result Digest := do
  rejectIf (¬ (manifest.approvedTools.map BoundTool.toolId).Nodup)
    .capabilityManifestMismatch "capability manifest contains duplicate tool identifiers"
  let approvedTools := sortByKey BoundTool.key manifest.approvedTools
  let capabilities ← canonicalCapabilities manifest.permissions.capabilities
  GenesisRuntime.canonicalDigest "aeon-capability-manifest-v1" <| Fields.mk
    [("version", toValue manifest.version),
     ("model_manifest_digest", toValue manifest.modelManifestDigest),
     ("approved_tools", toValue approvedTools),
     ("permissions", toValue (PermissionSet.mk capabilities)),
     ("runtime_config_digest", toValue manifest.runtimeConfigDigest),
     ("tool_registry_root_digest", toValue manifest.toolRegistryRootDigest)]

-- ============================================================================
-- Lease certificates and records
-- ============================================================================

/-- `LeaseRef`: a lease named together with the digest of its certificate. -/
structure LeaseRef where
  leaseId : LeaseId
  certificateDigest : Digest
deriving DecidableEq

instance : Serialize LeaseRef :=
  ⟨fun ref => structValue
    [("lease_id", toValue ref.leaseId),
     ("certificate_digest", toValue ref.certificateDigest)]⟩

/-- `AuthorityLeaseCertificate`. -/
structure AuthorityLeaseCertificate where
  leaseId : LeaseId
  missionId : MissionId
  agentId : AgentId
  parentAgentId : Option AgentId
  agentIdentityDigest : Digest
  issuerIdentityDigest : Digest
  issuerKeyId : KeyId
  parentLease : Option LeaseRef
  renewedFrom : Option LeaseRef
  organizationVersion : UInt64
  policyEpoch : UInt64
  grantedAuthority : AuthoritySet
  delegableAuthority : AuthoritySet
  capabilityManifestDigest : Digest
  semanticContextDigest : Digest
  issuedAt : DateTime
  expiresAt : DateTime
  signature : SignatureBytes
deriving DecidableEq

namespace AuthorityLeaseCertificate

/-- The fields the signature covers: all but the signature itself. -/
def payloadFields (cert : AuthorityLeaseCertificate) : List (String × Except String Json) :=
  [("lease_id", toValue cert.leaseId),
   ("mission_id", toValue cert.missionId),
   ("agent_id", toValue cert.agentId),
   ("parent_agent_id", toValue cert.parentAgentId),
   ("agent_identity_digest", toValue cert.agentIdentityDigest),
   ("issuer_identity_digest", toValue cert.issuerIdentityDigest),
   ("issuer_key_id", toValue cert.issuerKeyId),
   ("parent_lease", toValue cert.parentLease),
   ("renewed_from", toValue cert.renewedFrom),
   ("organization_version", toValue cert.organizationVersion),
   ("policy_epoch", toValue cert.policyEpoch),
   ("granted_authority", toValue cert.grantedAuthority),
   ("delegable_authority", toValue cert.delegableAuthority),
   ("capability_manifest_digest", toValue cert.capabilityManifestDigest),
   ("semantic_context_digest", toValue cert.semanticContextDigest),
   ("issued_at", toValue cert.issuedAt),
   ("expires_at", toValue cert.expiresAt)]

instance : Serialize AuthorityLeaseCertificate :=
  ⟨fun cert => structValue (cert.payloadFields ++ [("signature", toValue cert.signature)])⟩

/-- `signing_payload`. -/
def signingPayload (cert : AuthorityLeaseCertificate) : Result (List UInt8) :=
  canonicalBytes "aeon-authority-lease-certificate-v2" (Fields.mk cert.payloadFields)

/-- `verify_signature`. -/
def verifySignature (cert : AuthorityLeaseCertificate) (key : VerifyingKey) : Result Unit := do
  rejectIf (cert.signature.bytes.length ≠ 64) .authorizationInvalid
    "lease certificate signature must contain exactly 64 bytes"
  let payload ← cert.signingPayload
  rejectIf (¬ Externals.verifies key payload cert.signature.bytes) .authorizationInvalid
    "lease certificate signature verification failed"

end AuthorityLeaseCertificate

/-- `LeaseState`. -/
inductive LeaseState where
  | active
  | paused
  | revoked
  | expired
  | retired
deriving DecidableEq, Repr

/-- `matches!(state, LeaseState::Active | LeaseState::Paused)`. -/
def LeaseState.isLive : LeaseState → Bool
  | .active | .paused => true
  | .revoked | .expired | .retired => false

/-- `LeaseRecord`. -/
structure LeaseRecord where
  leaseId : LeaseId
  state : LeaseState
  generation : Nat
  revokedAt : Option DateTime
  revocationReason : Option String
  renewedBy : Option LeaseId
deriving DecidableEq

/-- `LeaseRecord::active`. -/
def LeaseRecord.active (leaseId : LeaseId) : LeaseRecord where
  leaseId := leaseId
  state := .active
  generation := 0
  revokedAt := none
  revocationReason := none
  renewedBy := none

end

end GenesisRuntime
