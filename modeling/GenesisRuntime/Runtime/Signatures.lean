/-
  GenesisRuntime.Runtime.Signatures

  What a signature is for.  One key signs the identities, the leases and the actions of
  its agent, each kind of certificate under a domain of its own.  A payload determines
  the kind of the certificate and every field but the signature.
-/

import GenesisRuntime.Authority.Canonical
import GenesisRuntime.Digest.Framing
import GenesisRuntime.Runtime.Mediation

namespace GenesisRuntime

theorem Reference.timestampInjective : @TimestampInjective Reference.externals :=
  fun _ _ h => DateTime.nanos_injective
    (JsonNumber.negInt.inj (Json.number.inj (Json.compact_injective h)))

section
variable [Externals]

-- ============================================================================
-- What the fields serialize to
-- ============================================================================

/-- A missing lease does not serialize like a present one. -/
theorem toValue_leaseRef_ne_null (ref : LeaseRef) (value : Json) (h : toValue ref = .ok value) :
    canonicalizeJson value ≠ .null := by
  obtain ⟨entries, rfl, -⟩ := structValue_eq_ok.mp h
  simp

theorem distinguishes_actionRef (hhex : HexInjective) : Distinguishes ActionRef := by
  rintro ⟨digest⟩ ⟨digest'⟩ hsame
  exact congrArg ActionRef.mk (distinguishes_digest hhex _ _ hsame)

theorem distinguishes_leaseRef (hhex : HexInjective) : Distinguishes LeaseRef := by
  rintro ⟨leaseId, digest⟩ ⟨leaseId', digest'⟩ hsame
  have hfields := hsame.fields rfl (by simp)
  simp only [List.forall₂_cons] at hfields
  obtain ⟨hid, hdigest, -⟩ := hfields
  rw [LeaseRef.mk.injEq]
  exact ⟨distinguishes_identifier _ _ _ hid, distinguishes_digest hhex _ _ hdigest⟩

theorem distinguishes_authoritySet (hcap : CapabilitySerializationInjective) :
    Distinguishes AuthoritySet := by
  intro set set' hsame
  have hfields := hsame.fields rfl (by simp)
  simp only [List.forall₂_cons] at hfields
  exact AuthoritySet.capabilities_injective (hcap.distinguishes.list _ _ hfields.1)

-- ============================================================================
-- The payloads of one kind
-- ============================================================================

/-- Identity certificates with one payload differ in the signature only. -/
theorem AgentIdentityCertificate.eq_of_sameValue (htime : TimestampInjective)
    {a b : AgentIdentityCertificate}
    (h : SameValue (structValue a.payloadFields) (structValue b.payloadFields)) :
    { a with signature := b.signature } = b := by
  have hfields := h.fields rfl (by simp [payloadFields])
  simp only [payloadFields, List.forall₂_cons] at hfields
  obtain ⟨hagent, hkey, hbytes, hissuer, hissuerKey, hissued, -⟩ := hfields
  cases a
  cases b
  rw [AgentIdentityCertificate.mk.injEq]
  exact ⟨distinguishes_identifier _ _ _ hagent, distinguishes_identifier _ _ _ hkey,
    Vector.toList_inj.mp (distinguishes_uint8.list _ _ hbytes),
    (distinguishes_identifier _).option toValue_identifier_ne_null _ _ hissuer,
    distinguishes_identifier _ _ _ hissuerKey, distinguishes_dateTime htime _ _ hissued, rfl⟩

/-- So do lease certificates, whose authority counts as a set. -/
theorem AuthorityLeaseCertificate.eq_of_sameValue (hhex : HexInjective)
    (hcap : CapabilitySerializationInjective) (htime : TimestampInjective)
    {a b : AuthorityLeaseCertificate}
    (h : SameValue (structValue a.payloadFields) (structValue b.payloadFields)) :
    { a with signature := b.signature } = b := by
  have hfields := h.fields rfl (by simp [payloadFields])
  simp only [payloadFields, List.forall₂_cons] at hfields
  obtain ⟨hlease, hmission, hagent, hparentAgent, hidentity, hissuerIdentity, hissuerKey,
    hparent, hrenewed, hversion, hepoch, hgranted, hdelegable, hmanifest, hcontext, hissued,
    hexpires, -⟩ := hfields
  have hdigest := distinguishes_digest hhex
  have href := (distinguishes_leaseRef hhex).option toValue_leaseRef_ne_null
  have hset := distinguishes_authoritySet hcap
  have hdate := distinguishes_dateTime htime
  cases a
  cases b
  rw [AuthorityLeaseCertificate.mk.injEq]
  exact ⟨distinguishes_identifier _ _ _ hlease, distinguishes_identifier _ _ _ hmission,
    distinguishes_identifier _ _ _ hagent,
    (distinguishes_identifier _).option toValue_identifier_ne_null _ _ hparentAgent,
    hdigest _ _ hidentity, hdigest _ _ hissuerIdentity,
    distinguishes_identifier _ _ _ hissuerKey, href _ _ hparent, href _ _ hrenewed,
    distinguishes_uint64 _ _ hversion, distinguishes_uint64 _ _ hepoch, hset _ _ hgranted,
    hset _ _ hdelegable, hdigest _ _ hmanifest, hdigest _ _ hcontext, hdate _ _ hissued,
    hdate _ _ hexpires, rfl⟩

/-- And action certificates. -/
theorem ActionCertificate.eq_of_sameValue (hhex : HexInjective) (htime : TimestampInjective)
    {a b : ActionCertificate}
    (h : SameValue (structValue a.payloadFields) (structValue b.payloadFields)) :
    { a with signature := b.signature } = b := by
  have hfields := h.fields rfl (by simp [payloadFields])
  simp only [payloadFields, List.forall₂_cons] at hfields
  obtain ⟨hcertificate, hmission, hidentity, hlease, hversion, hepoch, hcontext, haction, htool,
    hmanifest, hinput, hrecord, huses, hgeneration, hissued, hexpires, -⟩ := hfields
  have hdigest := distinguishes_digest hhex
  have hdate := distinguishes_dateTime htime
  cases a
  cases b
  rw [ActionCertificate.mk.injEq]
  exact ⟨distinguishes_identifier _ _ _ hcertificate, distinguishes_identifier _ _ _ hmission,
    hdigest _ _ hidentity, distinguishes_identifier _ _ _ hlease,
    distinguishes_uint64 _ _ hversion, distinguishes_uint64 _ _ hepoch, hdigest _ _ hcontext,
    distinguishes_actionRef hhex _ _ haction, distinguishes_identifier _ _ _ htool,
    hdigest _ _ hmanifest, hdigest _ _ hinput, distinguishes_identifier _ _ _ hrecord,
    distinguishes_uint32 _ _ huses, distinguishes_uint64 _ _ hgeneration, hdate _ _ hissued,
    hdate _ _ hexpires, rfl⟩

-- ============================================================================
-- Certificates of every kind
-- ============================================================================

/-- What an agent's key signs. -/
inductive CertificateKind where
  | identity
  | lease
  | action
deriving DecidableEq

/-- The domain a kind is signed under. -/
def CertificateKind.domain : CertificateKind → String
  | .identity => "aeon-agent-identity-certificate-v1"
  | .lease => "aeon-authority-lease-certificate-v2"
  | .action => "aeon-action-certificate-v1"

omit [Externals] in
theorem CertificateKind.domain_injective : Function.Injective CertificateKind.domain := by
  intro a b h
  cases a <;> cases b <;> first | rfl | exact absurd h (by decide)

/-- A certificate of one of the kinds. -/
inductive Certificate where
  | identity (certificate : AgentIdentityCertificate)
  | lease (certificate : AuthorityLeaseCertificate)
  | action (certificate : ActionCertificate)

namespace Certificate

variable {c d : Certificate} {key : VerifyingKey}

def kind : Certificate → CertificateKind
  | .identity _ => .identity
  | .lease _ => .lease
  | .action _ => .action

def signature : Certificate → SignatureBytes
  | .identity certificate => certificate.signature
  | .lease certificate => certificate.signature
  | .action certificate => certificate.signature

def withSignature (signature : SignatureBytes) : Certificate → Certificate
  | .identity certificate => .identity { certificate with signature := signature }
  | .lease certificate => .lease { certificate with signature := signature }
  | .action certificate => .action { certificate with signature := signature }

def payloadFields : Certificate → List (String × Except String Json)
  | .identity certificate => certificate.payloadFields
  | .lease certificate => certificate.payloadFields
  | .action certificate => certificate.payloadFields

/-- The `signing_payload` of the kind. -/
def signingPayload : Certificate → Result (List UInt8)
  | .identity certificate => certificate.signingPayload
  | .lease certificate => certificate.signingPayload
  | .action certificate => certificate.signingPayload

/-- The check the sources make of the signature of a certificate of the kind. -/
def Accepted (key : VerifyingKey) : Certificate → Prop
  | .identity certificate => certificate.verifySignature key = .ok ()
  | .lease certificate => certificate.verifySignature key = .ok ()
  | .action certificate => ∃ (authorized : AuthorizedExecution) (custody : KeyCustody)
      (now : DateTime), custody.verifyingKey = key ∧
        validateActionCertificate certificate authorized custody now = .ok ()

theorem signingPayload_eq (c : Certificate) :
    c.signingPayload = canonicalBytes c.kind.domain (Fields.mk c.payloadFields) := by
  cases c <;> rfl

theorem exists_signingPayload (c : Certificate) : ∃ payload, c.signingPayload = .ok payload := by
  cases c with
  | identity certificate =>
      exact exists_canonicalBytes ⟨by decide, by decide⟩ certificate.exists_payload
  | lease certificate =>
      exact exists_canonicalBytes ⟨by decide, by decide⟩ certificate.exists_payload
  | action certificate =>
      exact exists_canonicalBytes ⟨by decide, by decide⟩ certificate.exists_payload

@[simp] theorem withSignature_signature (c : Certificate) : c.withSignature c.signature = c := by
  cases c <;> rfl

/-- The signature is not part of what is signed. -/
@[simp] theorem signingPayload_withSignature (c : Certificate) (signature : SignatureBytes) :
    (c.withSignature signature).signingPayload = c.signingPayload := by
  cases c <;> rfl

/-- One payload is the payload of one kind. -/
theorem kind_of_signingPayload (htext : JsonTextInjective)
    (h : c.signingPayload = d.signingPayload) :
    c.kind = d.kind ∧ SameValue (structValue c.payloadFields) (structValue d.payloadFields) := by
  obtain ⟨payload, hc⟩ := c.exists_signingPayload
  have hd : d.signingPayload = .ok payload := by rw [← h, hc]
  rw [signingPayload_eq] at hc hd
  obtain ⟨hdomain, hsame⟩ := sameValue_of_canonicalBytes htext hc hd
  exact ⟨CertificateKind.domain_injective hdomain, hsame⟩

/-- The payloads of two certificates are equal where all but the signatures is. -/
theorem signingPayload_eq_iff (htext : JsonTextInjective) (hhex : HexInjective)
    (hcap : CapabilitySerializationInjective) (htime : TimestampInjective) :
    c.signingPayload = d.signingPayload ↔ c.withSignature d.signature = d := by
  constructor
  · intro h
    obtain ⟨hkind, hsame⟩ := kind_of_signingPayload htext h
    cases c <;> cases d <;> cases hkind
    case mp.identity.identity.refl a b =>
      exact congrArg identity (AgentIdentityCertificate.eq_of_sameValue htime hsame)
    case mp.lease.lease.refl a b =>
      exact congrArg lease (AuthorityLeaseCertificate.eq_of_sameValue hhex hcap htime hsame)
    case mp.action.action.refl a b =>
      exact congrArg action (ActionCertificate.eq_of_sameValue hhex htime hsame)
  · intro h
    rw [← h, signingPayload_withSignature]

/-- What is accepted carries a signature of its payload. -/
theorem Accepted.verifies (h : c.Accepted key) : ∃ payload, c.signingPayload = .ok payload ∧
    Externals.verifies key payload c.signature.bytes = true := by
  cases c with
  | identity certificate =>
      simp only [Accepted, AgentIdentityCertificate.verifySignature, Except.bind_eq_ok,
        rejectIf_eq_ok, Except.exists_unit, not_not] at h
      obtain ⟨_, -, -, payload, hpayload, hverifies⟩ := h
      exact ⟨payload, hpayload, hverifies⟩
  | lease certificate =>
      simp only [Accepted, AuthorityLeaseCertificate.verifySignature, Except.bind_eq_ok,
        rejectIf_eq_ok, Except.exists_unit, not_not] at h
      obtain ⟨-, payload, hpayload, hverifies⟩ := h
      exact ⟨payload, hpayload, hverifies⟩
  | action certificate =>
      obtain ⟨authorized, custody, now, rfl, h⟩ := h
      obtain ⟨-, -, -, -, -, payload, hpayload, hverifies⟩ := validateActionCertificate_eq_ok.mp h
      exact ⟨payload, hpayload, hverifies⟩

end Certificate

/-- A signature that verifies, under the key, for one payload at most. -/
def SignsOnce (key : VerifyingKey) (signature : SignatureBytes) : Prop :=
  ∀ payload payload', Externals.verifies key payload signature.bytes = true →
    Externals.verifies key payload' signature.bytes = true → payload = payload'

/-- No signature can be carried over to another certificate. -/
theorem Certificate.Accepted.eq_of_signature (htext : JsonTextInjective) (hhex : HexInjective)
    (hcap : CapabilitySerializationInjective) (htime : TimestampInjective) {key : VerifyingKey}
    {c d : Certificate} (hc : c.Accepted key) (hd : d.Accepted key)
    (hsignature : c.signature = d.signature) (honce : SignsOnce key c.signature) : c = d := by
  obtain ⟨payload, hpayload, hverifies⟩ := hc.verifies
  obtain ⟨payload', hpayload', hverifies'⟩ := hd.verifies
  rw [← hsignature] at hverifies'
  obtain rfl := honce payload payload' hverifies hverifies'
  have hterms : c.withSignature d.signature = d :=
    (signingPayload_eq_iff htext hhex hcap htime).mp (hpayload.trans hpayload'.symm)
  rw [← hterms, ← hsignature, withSignature_signature]

-- ============================================================================
-- Signatures bind
-- ============================================================================

/-- Every certificate has a payload; those of different kinds have different ones, and those
    of one kind the same where all fields but the signature are equal. So a signature that
    verifies for one payload only is accepted on one certificate only. -/
theorem signing_payloads_bind (htext : JsonTextInjective) (hhex : HexInjective)
    (hcap : CapabilitySerializationInjective) (htime : TimestampInjective) :
    (∀ c : Certificate, ∃ payload, c.signingPayload = .ok payload) ∧
    (∀ c d : Certificate, c.kind ≠ d.kind → c.signingPayload ≠ d.signingPayload) ∧
    (∀ a b : AgentIdentityCertificate, a.signingPayload = b.signingPayload ↔
      { a with signature := b.signature } = b) ∧
    (∀ a b : AuthorityLeaseCertificate, a.signingPayload = b.signingPayload ↔
      { a with signature := b.signature } = b) ∧
    (∀ a b : ActionCertificate, a.signingPayload = b.signingPayload ↔
      { a with signature := b.signature } = b) ∧
    ∀ (key : VerifyingKey) (c d : Certificate), c.Accepted key → d.Accepted key →
      c.signature = d.signature → SignsOnce key c.signature → c = d := by
  have hpayload (c d : Certificate) :
      c.signingPayload = d.signingPayload ↔ c.withSignature d.signature = d :=
    Certificate.signingPayload_eq_iff htext hhex hcap htime
  refine ⟨Certificate.exists_signingPayload, ?_, ?_, ?_, ?_, ?_⟩
  · intro c d hkind h
    exact hkind (Certificate.kind_of_signingPayload htext h).1
  · intro a b
    exact (hpayload (.identity a) (.identity b)).trans (iff_of_eq (Certificate.identity.injEq _ _))
  · intro a b
    exact (hpayload (.lease a) (.lease b)).trans (iff_of_eq (Certificate.lease.injEq _ _))
  · intro a b
    exact (hpayload (.action a) (.action b)).trans (iff_of_eq (Certificate.action.injEq _ _))
  · intro key c d hc hd hsignature honce
    exact hc.eq_of_signature htext hhex hcap htime hd hsignature honce

omit [Externals] in
/-- An identity and the one that names an issuer besides, over the reference components. -/
theorem signing_payloads_bind_reference : letI := Reference.externals
    ∃ (root : AgentIdentityCertificate) (payload payload' : List UInt8),
      root.issuerAgentId = none ∧ root.signingPayload = .ok payload ∧
      { root with issuerAgentId := some Reference.agentId }.signingPayload = .ok payload' ∧
      payload ≠ payload' := by
  let := Reference.externals
  obtain ⟨hpayload, -, hidentity, -⟩ := signing_payloads_bind Reference.jsonTextInjective
    Reference.hexInjective Reference.capabilitySerializationInjective Reference.timestampInjective
  let root : AgentIdentityCertificate := .unsigned Reference.agentId Reference.keyId
    (Vector.replicate 32 1) none Reference.keyId Reference.start
  let child : AgentIdentityCertificate := { root with issuerAgentId := some Reference.agentId }
  obtain ⟨payload, hroot⟩ := hpayload (.identity root)
  obtain ⟨payload', hchild⟩ := hpayload (.identity child)
  refine ⟨root, payload, payload', rfl, hroot, hchild, ?_⟩
  rintro rfl
  have hsame := (hidentity root child).mp (hroot.trans hchild.symm)
  exact absurd (congrArg AgentIdentityCertificate.issuerAgentId hsame) (by decide)

end

end GenesisRuntime
