/-
  GenesisRuntime.Identity

  `identity.rs`: key custody and the issuer-signed certificates that bind an
  agent to its public key.

  A custody object is a value here: its key id and its key are the same at every
  call.  What it signs is up to it.
-/

import GenesisRuntime.Authority

namespace GenesisRuntime

section
variable [Externals]

/-- `KeyCustody`: a public key, its id, and a way to sign. -/
structure KeyCustody where
  keyId : KeyId
  verifyingKey : VerifyingKey
  sign : List UInt8 → Result SignatureBytes

/-- `AgentIdentityCertificate`. -/
structure AgentIdentityCertificate where
  agentId : AgentId
  keyId : KeyId
  verifyingKeyBytes : Vector UInt8 32
  issuerAgentId : Option AgentId
  issuerKeyId : KeyId
  issuedAt : DateTime
  signature : SignatureBytes
deriving DecidableEq

namespace AgentIdentityCertificate

/-- `unsigned`. -/
def unsigned (agentId : AgentId) (keyId : KeyId) (key : VerifyingKey)
    (issuerAgentId : Option AgentId) (issuerKeyId : KeyId) (issuedAt : DateTime) :
    AgentIdentityCertificate where
  agentId := agentId
  keyId := keyId
  verifyingKeyBytes := Externals.verifyingKeyToBytes key
  issuerAgentId := issuerAgentId
  issuerKeyId := issuerKeyId
  issuedAt := issuedAt
  signature := ⟨[]⟩

/-- The fields the signature covers: all but the signature itself. -/
def payloadFields (cert : AgentIdentityCertificate) : List (String × Except String Json) :=
  [("agent_id", toValue cert.agentId),
   ("key_id", toValue cert.keyId),
   ("verifying_key_bytes", toValue cert.verifyingKeyBytes.toList),
   ("issuer_agent_id", toValue cert.issuerAgentId),
   ("issuer_key_id", toValue cert.issuerKeyId),
   ("issued_at", toValue cert.issuedAt)]

instance : Serialize AgentIdentityCertificate :=
  ⟨fun cert => structValue (cert.payloadFields ++ [("signature", toValue cert.signature)])⟩

/-- `signing_payload`. -/
def signingPayload (cert : AgentIdentityCertificate) : Result (List UInt8) :=
  canonicalBytes "aeon-agent-identity-certificate-v1" (Fields.mk cert.payloadFields)

/-- `canonical_digest`. -/
def canonicalDigest (cert : AgentIdentityCertificate) : Result Digest :=
  GenesisRuntime.canonicalDigest "aeon-agent-identity-certificate-v1" cert

/-- `verifying_key`. -/
def verifyingKey (cert : AgentIdentityCertificate) : Result VerifyingKey :=
  orReject .identityInvalid "identity certificate contains an invalid Ed25519 public key"
    (Externals.verifyingKeyFromBytes cert.verifyingKeyBytes)

/-- `verify_signature`. -/
def verifySignature (cert : AgentIdentityCertificate) (issuerKey : VerifyingKey) :
    Result Unit := do
  let _ ← cert.verifyingKey
  rejectIf (cert.signature.bytes.length ≠ 64) .identityInvalid
    "identity certificate signature must contain exactly 64 bytes"
  let payload ← cert.signingPayload
  rejectIf (¬ Externals.verifies issuerKey payload cert.signature.bytes) .identityInvalid
    "identity certificate signature verification failed"

end AgentIdentityCertificate

end

end GenesisRuntime
