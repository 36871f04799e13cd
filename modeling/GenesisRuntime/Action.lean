/-
  GenesisRuntime.Action

  `action.rs`: canonical actions, authorization records, and the signed action
  certificates that bind an execution request to them.
-/

import GenesisRuntime.Authority

namespace GenesisRuntime

-- ============================================================================
-- Texts
-- ============================================================================

/-- `char::is_whitespace`: the characters with the property `White_Space`. -/
def isWhitespace (c : Char) : Bool :=
  (0x09 ≤ c.val && c.val ≤ 0x0D) || c.val = 0x20 || c.val = 0x85 || c.val = 0xA0
    || c.val = 0x1680 || (0x2000 ≤ c.val && c.val ≤ 0x200A) || c.val = 0x2028
    || c.val = 0x2029 || c.val = 0x202F || c.val = 0x205F || c.val = 0x3000

/-- `char::is_control`: the general category `Cc`. -/
def isControl (c : Char) : Bool :=
  c.val ≤ 0x1F || (0x7F ≤ c.val && c.val ≤ 0x9F)

/-- `value.trim().is_empty()`. -/
def trimIsEmpty (value : String) : Bool := value.toList.all isWhitespace

/-- The check `ActionTarget::new` and `validate_declarative_text` share. -/
def validateText (kind : String) (maxBytes : Nat) (value : String) : Result Unit := do
  rejectIf (trimIsEmpty value ∨ value.utf8ByteSize > maxBytes) .invalidInput
    s!"{kind} must contain 1 to {maxBytes} bytes"
  rejectIf (value.toList.any isControl) .invalidInput
    s!"{kind} must not contain control characters"

/-- `MAX_ACTION_TARGET_BYTES`. -/
def maxActionTargetBytes : Nat := 128

/-- `ActionTarget`. -/
structure ActionTarget where
  value : String
  valid : validateText "action target" maxActionTargetBytes value = .ok ()
deriving DecidableEq

/-- `ActionTarget::new`. -/
def ActionTarget.new (value : String) : Result ActionTarget :=
  match h : validateText "action target" maxActionTargetBytes value with
  | .ok () => .ok ⟨value, h⟩
  | .error e => .error e

theorem ActionTarget.new_value (target : ActionTarget) :
    ActionTarget.new target.value = .ok target := by
  unfold ActionTarget.new
  split
  · rfl
  · rename_i e h
    rw [target.valid] at h
    cases h

instance : Serialize ActionTarget := ⟨fun target => toValue target.value⟩

/-- `EffectClass`. -/
inductive EffectClass where
  | readOnly
  | idempotent
  | nonIdempotent
deriving DecidableEq, Repr

instance : Serialize EffectClass :=
  ⟨fun
    | .readOnly => toValue "read_only"
    | .idempotent => toValue "idempotent"
    | .nonIdempotent => toValue "non_idempotent"⟩

/-- `SemanticScope`. -/
inductive SemanticScope where
  | mission
  | agent
  | global
deriving DecidableEq, Repr

instance : Serialize SemanticScope :=
  ⟨fun
    | .mission => toValue "mission"
    | .agent => toValue "agent"
    | .global => toValue "global"⟩

section
variable [Externals]

-- ============================================================================
-- Actions
-- ============================================================================

/-- `CanonicalAction`. -/
structure CanonicalAction where
  missionId : MissionId
  effectKind : EffectClass
  target : ActionTarget
  normalizedParameters : CanonicalJson
  semanticScope : SemanticScope

instance : Serialize CanonicalAction :=
  ⟨fun action => structValue
    [("mission_id", toValue action.missionId),
     ("effect_kind", toValue action.effectKind),
     ("target", toValue action.target),
     ("normalized_parameters", toValue action.normalizedParameters),
     ("semantic_scope", toValue action.semanticScope)]⟩

/-- `ActionRef`. -/
structure ActionRef where
  digest : Digest
deriving DecidableEq

instance : Serialize ActionRef := ⟨fun ref => toValue ref.digest⟩

/-- `action_ref`. -/
def CanonicalAction.actionRef (action : CanonicalAction) : Result ActionRef := do
  let digest ← canonicalDigest "aeon-canonical-action-v1" action
  return ⟨digest⟩

-- ============================================================================
-- Authorization records
-- ============================================================================

/-- `AuthorizationState`. -/
inductive AuthorizationState where
  | issued
  | prepared
  | consumed
  | aborted
  | revoked
  | expired
deriving DecidableEq, Repr

/-- `Budget`. -/
structure Budget where
  actions : UInt64
deriving DecidableEq

/-- `AuthorizationRecord`. -/
structure AuthorizationRecord where
  recordId : AuthorizationId
  actionRef : ActionRef
  authorityChain : List LeaseRef
  totalBudget : Budget
  remainingBudget : Budget
  state : AuthorizationState
  stableIdempotencyKey : String
  effectClass : EffectClass
  generation : UInt64
deriving DecidableEq

/-- What a consumption makes of a record. -/
def AuthorizationRecord.consume (record : AuthorizationRecord) : AuthorizationRecord :=
  { record with
    remainingBudget := ⟨record.remainingBudget.actions - 1⟩
    state := .consumed
    generation := record.generation + 1 }

-- ============================================================================
-- Action certificates
-- ============================================================================

/-- `ActionCertificate`. -/
structure ActionCertificate where
  certificateId : CertificateId
  missionId : MissionId
  agentIdentityDigest : Digest
  authorityLeaseId : LeaseId
  organizationVersion : UInt64
  policyEpoch : UInt64
  semanticContextDigest : Digest
  actionRef : ActionRef
  toolId : ToolId
  toolManifestDigest : Digest
  concreteInputDigest : Digest
  authorizationRecordId : AuthorizationId
  grantedUses : UInt32
  authorizationGeneration : UInt64
  issuedAt : DateTime
  expiresAt : DateTime
  signature : SignatureBytes
deriving DecidableEq

namespace ActionCertificate

/-- The fields the signature covers: all but the signature itself. -/
def payloadFields (cert : ActionCertificate) : List (String × Except String Json) :=
  [("certificate_id", toValue cert.certificateId),
   ("mission_id", toValue cert.missionId),
   ("agent_identity_digest", toValue cert.agentIdentityDigest),
   ("authority_lease_id", toValue cert.authorityLeaseId),
   ("organization_version", toValue cert.organizationVersion),
   ("policy_epoch", toValue cert.policyEpoch),
   ("semantic_context_digest", toValue cert.semanticContextDigest),
   ("action_ref", toValue cert.actionRef),
   ("tool_id", toValue cert.toolId),
   ("tool_manifest_digest", toValue cert.toolManifestDigest),
   ("concrete_input_digest", toValue cert.concreteInputDigest),
   ("authorization_record_id", toValue cert.authorizationRecordId),
   ("granted_uses", toValue cert.grantedUses),
   ("authorization_generation", toValue cert.authorizationGeneration),
   ("issued_at", toValue cert.issuedAt),
   ("expires_at", toValue cert.expiresAt)]

/-- `signing_payload`. -/
def signingPayload (cert : ActionCertificate) : Result (List UInt8) :=
  canonicalBytes "aeon-action-certificate-v1" (Fields.mk cert.payloadFields)

end ActionCertificate

end

end GenesisRuntime
