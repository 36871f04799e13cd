/-
  GenesisRuntime.Reference

  One set of external components for which all the named assumptions hold
  together, and a kernel and requests over it.

  A digest is the bytes that were hashed, a signature is a checksum under the key,
  and JSON values are written as compact text.  Of what a model can write, one tool
  call and one final message are read.
-/

import GenesisRuntime.Kernel.Checks
import GenesisRuntime.Lib.JsonText

namespace GenesisRuntime

namespace Reference

-- ============================================================================
-- Components
-- ============================================================================

/-- A few capabilities under `all`. -/
inductive Capability where
  | all
  | fileRead
  | network
deriving DecidableEq

def Capability.name : Capability → String
  | .all => "All"
  | .fileRead => "FileRead"
  | .network => "Network"

def Capability.ofText (text : String) : Except String Capability :=
  if text = "\"All\"" then .ok .all
  else if text = "\"FileRead\"" then .ok .fileRead
  else if text = "\"Network\"" then .ok .network
  else .error "unknown variant"

def hexText (digest : List UInt8) : String :=
  String.ofList <| digest.flatMap fun byte =>
    [Nat.digitChar (byte.toNat / 16), Nat.digitChar (byte.toNat % 16)]

def checksum (key : Vector UInt8 32) (payload : List UInt8) : List UInt8 :=
  (key.toList ++ payload ++ List.replicate 64 0).take 64

/-- What a model writes to call a tool, and to end with a result. -/
def callText : String :=
  "\x7b\"kind\":\"tool_call\",\"tool_id\":\"reader\",\"arguments\":\x7b\x7d\x7d"

def finalText : String := "\x7b\"kind\":\"final\",\"result\":\"done\"\x7d"

def parseEntries (raw : String) : Except String (List (String × Json)) :=
  if raw = callText then
    .ok [("kind", .string "tool_call"), ("tool_id", .string "reader"), ("arguments", .object [])]
  else if raw = finalText then .ok [("kind", .string "final"), ("result", .string "done")]
  else .error "expected value"

local instance externals : Externals where
  Capability := Capability
  capabilityAll := .all
  isSubsetOf a b := a = b ∨ b = .all
  capabilityToValue c := .ok (.string c.name)
  capabilityToString c := .ok (Json.compact (.string c.name))
  capabilityFromStr := Capability.ofText
  Digest := List UInt8
  digestLinearOrder := LinearOrder.lift' byteKey byteKey_injective
  sha256 bytes := bytes
  toHex := hexText
  jsonText := Json.compact
  parseEntries := parseEntries
  timestampText time := Json.compact (.number (.negInt time.nanos))
  VerifyingKey := Vector UInt8 32
  verifyingKeyToBytes key := key
  verifyingKeyFromBytes := some
  verifies key payload signature := signature = checksum key payload

-- ============================================================================
-- The assumptions hold together
-- ============================================================================

theorem subsetPreorder : SubsetPreorder where
  refl a := by simp [isSubsetOf]
  trans a b c hab hbc := by
    simp only [isSubsetOf, decide_eq_true_eq] at hab hbc ⊢
    rcases hbc with rfl | hall
    · exact hab
    · exact .inr hall

theorem collisionFree : CollisionFree := fun _ _ h => h

theorem jsonTextInjective : JsonTextInjective := Json.compact_injective

theorem hexInjective : HexInjective := by
  intro a b h
  have hchars := String.ofList_injective h
  clear h
  induction a generalizing b with
  | nil =>
      cases b with
      | nil => rfl
      | cons byte b => cases hchars
  | cons x a ih =>
      cases b with
      | nil => cases hchars
      | cons y b =>
          simp only [List.flatMap_cons, List.cons_append, List.nil_append, List.cons.injEq]
            at hchars
          obtain ⟨hhigh, hlow, hrest⟩ := hchars
          have hx := x.toNat_lt
          have hy := y.toNat_lt
          have hdiv := Json.digitChar_injective _ (by omega) _ (by omega) hhigh
          have hmod := Json.digitChar_injective _ (by omega) _ (by omega) hlow
          have hbyte : x = y := UInt8.toNat_inj.mp (by omega)
          rw [hbyte, ih hrest]

theorem verifyingKeyRoundTrip : VerifyingKeyRoundTrip := fun _ => rfl

theorem Capability.name_injective : ∀ a b : Capability, a.name = b.name → a = b := by
  intro a b h
  cases a <;> cases b <;> first | rfl | exact absurd h (by decide)

theorem capabilitySerializationInjective : CapabilitySerializationInjective := by
  intro a b x y hx hy h
  cases hx
  cases hy
  rw [canonicalizeJson_string, canonicalizeJson_string] at h
  exact Capability.name_injective a b (Json.string.inj h)

-- ============================================================================
-- Serialization
-- ============================================================================

instance : Serializes GenesisRuntime.Capability := ⟨fun _ => ⟨_, rfl⟩⟩

instance : Serializes PermissionSet where
  exists_toValue set := exists_structValue (by simp [Serializes.exists_toValue])

-- ============================================================================
-- Signing
-- ============================================================================

/-- The keys of the reference agents. -/
def custody (keyId : KeyId) (key : Vector UInt8 32) : KeyCustody where
  keyId := keyId
  verifyingKey := key
  sign payload := .ok ⟨checksum key payload⟩

theorem length_checksum (key : Vector UInt8 32) (payload : List UInt8) :
    (checksum key payload).length = 64 := by
  simp only [checksum, List.length_take, List.length_append, List.length_replicate]
  omega

theorem exists_signedIdentity (agentId : AgentId) (subject issuer : KeyId)
    (subjectKey issuerKey : Vector UInt8 32) (issuerAgentId : Option AgentId) (now : DateTime) :
    ∃ identity, signedIdentity agentId (custody subject subjectKey) issuerAgentId
      (custody issuer issuerKey) now = .ok identity := by
  let unsigned := AgentIdentityCertificate.unsigned agentId subject subjectKey issuerAgentId
    issuer now
  obtain ⟨payload, hpayload⟩ : ∃ payload, unsigned.signingPayload = .ok payload :=
    exists_canonicalBytes ⟨by decide, by decide⟩ unsigned.exists_payload
  refine ⟨{ unsigned with signature := ⟨checksum issuerKey payload⟩ }, ?_⟩
  simp only [signedIdentity, Except.bind_eq_ok, Except.pure_eq_ok,
    AgentIdentityCertificate.verifySignature, rejectIf_eq_ok, Except.exists_unit]
  refine ⟨payload, hpayload, ⟨checksum issuerKey payload⟩, rfl, ⟨subjectKey, rfl, ?_, payload,
    hpayload, ?_⟩, rfl⟩
  · simp [length_checksum]
  · simp [custody, Externals.verifies]

theorem exists_signedLease (draft : LeaseDraft) (digest : Digest) (issuer : KeyId)
    (issuerKey : Vector UInt8 32) :
    ∃ certificate, signedLease draft digest (custody issuer issuerKey) = .ok certificate := by
  let unsigned := draft.certificate digest issuer
  obtain ⟨payload, hpayload⟩ : ∃ payload, unsigned.signingPayload = .ok payload :=
    exists_canonicalBytes ⟨by decide, by decide⟩ unsigned.exists_payload
  refine ⟨{ unsigned with signature := ⟨checksum issuerKey payload⟩ }, ?_⟩
  simp only [signedLease, Except.bind_eq_ok, Except.pure_eq_ok,
    AuthorityLeaseCertificate.verifySignature, rejectIf_eq_ok, Except.exists_unit]
  refine ⟨payload, hpayload, ⟨checksum issuerKey payload⟩, rfl, ⟨?_, payload, hpayload, ?_⟩, rfl⟩
  · simp [length_checksum]
  · simp [custody, Externals.verifies]

-- ============================================================================
-- A kernel
-- ============================================================================

def missionId : MissionId := ⟨"mission-1", by decide⟩
def agentId : AgentId := ⟨"agent-1", by decide⟩
def keyId : KeyId := ⟨"key-1", by decide⟩
def leaseId : LeaseId := ⟨"lease-1", by decide⟩
def toolId : ToolId := ⟨"reader", by decide⟩

/-- The start of the mission. -/
def start : DateTime := ⟨0⟩

def mission : MissionEnvelope where
  missionId := missionId
  allowedTools := [toolId]
  allowedCapabilities := [Capability.fileRead]
  policyEpoch := 1
  organizationVersion := 1
  active := true
  expiresAt := start + Duration.minutes 60
  maxActions := 3

theorem canonicalCapabilities_fileRead :
    canonicalCapabilities [Capability.fileRead] = .ok [Capability.fileRead] := by
  simp only [canonicalCapabilities, Except.bind_eq_ok, Except.pure_eq_ok]
  refine ⟨[(canonicalValueBytes (.string "FileRead"), Capability.fileRead)],
    Except.mapM_eq_ok.mpr (.cons rfl .nil), ?_⟩
  rw [sortByKey_of_pairwise (List.pairwise_singleton _ _),
    dedupByKey_of_pairwise_lt (List.pairwise_singleton _ _)]
  rfl

def authority : AuthoritySet where
  capabilities := [Capability.fileRead]
  noAll := by decide
  canonical := canonicalCapabilities_fileRead

def manifest : CapabilityManifest where
  version := 1
  modelManifestDigest := [0]
  approvedTools := [⟨toolId, [1]⟩]
  permissions := ⟨[Capability.fileRead]⟩
  runtimeConfigDigest := [2]
  toolRegistryRootDigest := [3]

def rootRequest : RootLeaseRequest where
  mission := mission
  agentId := agentId
  grantedAuthority := authority
  delegableAuthority := authority
  capabilityManifest := manifest
  semanticContextDigest := [4]
  expiresAt := start + Duration.minutes 5

def rootCustody : KeyCustody := custody keyId (Vector.replicate 32 1)

theorem newLeaseId_eq : newLeaseId "1" = .ok leaseId := Identifier.new_value leaseId

/-- The manifest digest of a manifest with the permissions of the reference. -/
theorem exists_manifestDigest {manifest : CapabilityManifest}
    (htools : (manifest.approvedTools.map BoundTool.toolId).Nodup)
    (hpermissions : manifest.permissions.capabilities = [Capability.fileRead]) :
    ∃ digest, manifest.canonicalDigest = .ok digest := by
  obtain ⟨json, hjson⟩ : ∃ json, structValue
      [("version", toValue manifest.version),
       ("model_manifest_digest", toValue manifest.modelManifestDigest),
       ("approved_tools", toValue (sortByKey BoundTool.key manifest.approvedTools)),
       ("permissions", toValue (PermissionSet.mk [Capability.fileRead])),
       ("runtime_config_digest", toValue manifest.runtimeConfigDigest),
       ("tool_registry_root_digest", toValue manifest.toolRegistryRootDigest)] = .ok json :=
    exists_structValue (by simp [Serializes.exists_toValue])
  refine ⟨_, Except.bind_eq_ok.mpr ⟨(), rejectIf_eq_ok.mpr (not_not.mpr htools),
    Except.bind_eq_ok.mpr ⟨[Capability.fileRead], ?_, canonicalDigest_eq_ok.mpr
      ⟨⟨by decide, by decide⟩, json, hjson, rfl⟩⟩⟩⟩
  rw [hpermissions]
  exact canonicalCapabilities_fileRead

/-- A kernel can be bootstrapped from any request that passes the checks. -/
theorem exists_bootstrap {request : RootLeaseRequest} {now : DateTime} {uuid : String}
    {leaseId : LeaseId} (hid : newLeaseId uuid = .ok leaseId)
    (hrequest : validateRootRequest request now = .ok ())
    (hmanifest : ∃ digest, request.capabilityManifest.canonicalDigest = .ok digest) :
    ∃ s, bootstrap request rootCustody now uuid = .ok s := by
  obtain ⟨identity, hidentity⟩ := exists_signedIdentity request.agentId keyId keyId
    (Vector.replicate 32 1) (Vector.replicate 32 1) none now
  obtain ⟨identityDigest, hidentityDigest⟩ : ∃ digest, identity.canonicalDigest = .ok digest :=
    exists_canonicalDigest ⟨by decide, by decide⟩ identity
  obtain ⟨manifestDigest, hmanifestDigest⟩ := hmanifest
  obtain ⟨certificate, hcertificate⟩ := exists_signedLease
    (request.draft now leaseId identityDigest manifestDigest) identityDigest keyId
    (Vector.replicate 32 1)
  let run : Bootstrap request rootCustody now uuid :=
    ⟨identity, identityDigest, leaseId, manifestDigest, certificate, hrequest, hidentity,
      hidentityDigest, hid, hmanifestDigest, hcertificate⟩
  refine ⟨run.post, ?_⟩
  simp only [bootstrap, Except.bind_eq_ok, Except.pure_eq_ok]
  exact ⟨(), hrequest, identity, hidentity, identityDigest, hidentityDigest, leaseId,
    hid, manifestDigest, hmanifestDigest, certificate, hcertificate, rfl⟩

theorem validateRootRequest_eq : validateRootRequest rootRequest start = .ok () := by
  decide +kernel

/-- The kernel of the reference can be bootstrapped. -/
theorem exists_kernel : ∃ s, bootstrap rootRequest rootCustody start "1" = .ok s :=
  exists_bootstrap newLeaseId_eq validateRootRequest_eq (exists_manifestDigest (by decide) rfl)

-- ============================================================================
-- A second lease
-- ============================================================================

def childAgentId : AgentId := ⟨"agent-2", by decide⟩
def childId : LeaseId := ⟨"lease-2", by decide⟩

def childCustody : KeyCustody := custody ⟨"key-2", by decide⟩ (Vector.replicate 32 2)

def childRequest (parent : LeaseId) : DelegationRequest where
  parentLeaseId := parent
  expectedParentGeneration := 0
  childAgentId := childAgentId
  grantedAuthority := authority
  delegableAuthority := authority
  capabilityManifest := manifest
  semanticContextDigest := [4]
  expiresAt := start + Duration.minutes 5

theorem newLeaseId_child : newLeaseId "2" = .ok childId := Identifier.new_value childId

/-- A second lease id is fresh after the bootstrap. -/
theorem freshUuid_second {request : RootLeaseRequest}
    (boot : Bootstrap request rootCustody start "1") : FreshUuid boot.post "2" := by
  intro id hid
  obtain rfl := Except.ok.inj (hid.symm.trans newLeaseId_child)
  rw [← AList.lookup_isSome, boot.lookup_post,
    Except.ok.inj (boot.leaseId_eq.symm.trans newLeaseId_eq), if_neg (by decide)]
  simp

/-- A delegation from the root lease of the reference kernel. -/
theorem exists_delegation {uuid uuid' : String} {child : LeaseId}
    (boot : Bootstrap rootRequest rootCustody start uuid) (hchild : newLeaseId uuid' = .ok child) :
    ∃ run : Delegation boot.post (childRequest boot.leaseId) childCustody start uuid',
      run.childLeaseId = child ∧ run.parent = boot.entry := by
  obtain ⟨signature, hcert⟩ := signedLease_fields boot.certificate_eq
  obtain ⟨⟨signature', hidentity₀⟩, -⟩ := signedIdentity_eq_ok boot.identity_eq
  have hdelegable : boot.entry.certificate.delegableAuthority = authority := by
    simp only [Bootstrap.entry, hcert]
    rfl
  obtain ⟨v, hv, hlength⟩ := boot.exists_validated verifyingKeyRoundTrip start (by decide) (some 0)
    (by simp)
  obtain ⟨identity, hidentity⟩ := exists_signedIdentity childAgentId childCustody.keyId keyId
    (Vector.replicate 32 2) (Vector.replicate 32 1) (some agentId) start
  obtain ⟨identityDigest, hidentityDigest⟩ : ∃ digest, identity.canonicalDigest = .ok digest :=
    exists_canonicalDigest ⟨by decide, by decide⟩ identity
  obtain ⟨ref, href⟩ := exists_leaseRef boot.entry.certificate
  obtain ⟨certificate, hcertificate⟩ := exists_signedLease
    ((childRequest boot.leaseId).draft start boot.entry child identityDigest ref
      boot.capabilityManifestDigest) boot.identityDigest keyId (Vector.replicate 32 1)
  have hrequest : validateDelegationRequest boot.post boot.entry (childRequest boot.leaseId) start
      = .ok () := by
    refine validateDelegationRequest_eq_ok.mpr ⟨⟨?_, ?_, ?_⟩, ?_, ?_, ?_, ?_⟩
    · exact show start < start + Duration.minutes 5 by decide
    · exact boot.entry_expiresAt.symm.le
    · exact show start + Duration.minutes 5 ≤ start + Duration.minutes 60 by decide
    · exact show validateAuthoritySets authority authority = .ok () by decide +kernel
    · rw [hdelegable]
      exact show authorityIsSubsetOf authority authority = true by decide +kernel
    · exact show validateManifest manifest authority = .ok () by decide +kernel
    · exact show validateManifestAttenuation manifest manifest = .ok () by decide +kernel
  let run : Delegation boot.post (childRequest boot.leaseId) childCustody start uuid' :=
    { parent := boot.entry
      validatedParent := v
      parentCustody := rootCustody
      childIdentity := identity
      childIdentityDigest := identityDigest
      parentIdentity := boot.identity
      parentReference := ref
      childLeaseId := child
      capabilityManifestDigest := boot.capabilityManifestDigest
      parentIdentityDigest := boot.identityDigest
      certificate := certificate
      parent_eq := boot.lookup_root
      active := validateActiveRecord_eq_ok.mpr ⟨by simp [childRequest]; rfl, rfl, by
        rw [boot.entry_expiresAt]
        decide⟩
      validatedParent_eq := hv
      depth := by rw [hlength]; decide
      request_ok := hrequest
      agent_new := by
        have hagentNew : (childRequest boot.leaseId).childAgentId ≠ rootRequest.agentId :=
          show childAgentId ≠ agentId by decide
        rw [← AList.lookup_isSome, boot.lookup_identity, if_neg hagentNew]
        simp
      key_new := by
        intro stored hstored
        obtain rfl := List.mem_singleton.mp hstored
        rw [hidentity₀]
        exact show keyId ≠ childCustody.keyId by decide
      parentCustody_eq := by
        rw [boot.entry_agentId, boot.lookup_custody]
        exact if_pos rfl
      childIdentity_eq := by rw [boot.entry_agentId]; exact hidentity
      childIdentityDigest_eq := hidentityDigest
      parentIdentity_eq := by rw [boot.entry_agentId]; exact boot.lookup_agent
      parentReference_eq := href
      childLeaseId_eq := hchild
      manifestDigest_eq := boot.manifestDigest_eq
      parentIdentityDigest_eq := boot.identityDigest_eq
      certificate_eq := hcertificate }
  exact ⟨run, rfl, rfl⟩

/-- A kernel with two leases, both fresh and with the same lifetime, one below the other. -/
structure TwoLeases (root child : LeaseId) (s : AuthorityState)
    (rootEntry childEntry : LeaseEntry) : Prop where
  booted : ∃ uuid s₀, bootstrap rootRequest rootCustody start uuid = .ok s₀ ∧ KernelRun s₀ s
  ne : child ≠ root
  lookup : ∀ id, s.leases.lookup id
    = if id = child then some childEntry else if id = root then some rootEntry else none
  rootId : s.rootLeaseId = root
  root_parent : rootEntry.parentId = none
  child_parent : childEntry.parentId = some root
  root_agent : rootEntry.certificate.agentId = agentId
  child_agent : childEntry.certificate.agentId = childAgentId
  root_record : rootEntry.record = .active root
  child_record : childEntry.record = .active child
  root_expires : rootEntry.certificate.expiresAt = start + Duration.minutes 5
  child_expires : childEntry.certificate.expiresAt = start + Duration.minutes 5
  root_manifest : rootEntry.manifest = manifest
  child_manifest : childEntry.manifest = manifest

theorem exists_two_leases {uuid uuid' : String} {root child : LeaseId}
    (hroot : newLeaseId uuid = .ok root) (hchild : newLeaseId uuid' = .ok child)
    (hne : child ≠ root) :
    ∃ s rootEntry childEntry, TwoLeases root child s rootEntry childEntry := by
  obtain ⟨s, hs⟩ := exists_bootstrap hroot validateRootRequest_eq
    (exists_manifestDigest (by decide) rfl)
  obtain ⟨boot, rfl⟩ := bootstrap_eq_ok hs
  obtain rfl : boot.leaseId = root := Except.ok.inj (boot.leaseId_eq.symm.trans hroot)
  obtain ⟨run, rfl, hparent⟩ := exists_delegation boot hchild
  obtain ⟨⟨signature, hcert⟩, -⟩ := signedLease_eq_ok boot.certificate_eq
  have hexpires : run.entry.certificate.expiresAt = start + Duration.minutes 5 := by
    obtain ⟨signature', hcert'⟩ := signedLease_fields run.certificate_eq
    simp only [Delegation.entry, hcert']
    rfl
  have hfresh : FreshUuid boot.post uuid' := by
    intro id hid
    obtain rfl := Except.ok.inj (hid.symm.trans run.childLeaseId_eq)
    rw [← AList.lookup_isSome, boot.lookup_post, if_neg hne]
    simp
  have hexec : (KernelOp.delegate (childRequest boot.leaseId) childCustody start).exec uuid'
      boot.post = .ok (.lease run.childLeaseId) run.post := map_eq_ok.mpr ⟨_, run.succeeds, rfl⟩
  refine ⟨run.post, boot.entry, run.entry, ?_⟩
  exact {
    booted := ⟨uuid, boot.post, hs, KernelRun.refl.succeed _ hfresh hexec⟩
    ne := hne
    lookup := fun id => by rw [run.lookup_post, boot.lookup_post]
    rootId := rfl
    root_parent := boot.entry_parentId
    child_parent := by
      rw [run.entry_parentId, hparent]
      simp only [Bootstrap.entry, hcert]
      rfl
    root_agent := boot.entry_agentId
    child_agent := run.entry_agentId
    root_record := rfl
    child_record := rfl
    root_expires := boot.entry_expiresAt
    child_expires := hexpires
    root_manifest := rfl
    child_manifest := rfl }

namespace TwoLeases

variable {root child : LeaseId} {s : AuthorityState} {rootEntry childEntry : LeaseEntry}
  (h : TwoLeases root child s rootEntry childEntry)

include h

theorem reachable : Reachable s := by
  obtain ⟨uuid, s₀, hboot, hrun⟩ := h.booted
  exact ⟨_, _, _, _, s₀, hboot, hrun⟩

theorem lookup_child : s.leases.lookup child = some childEntry := by
  rw [h.lookup, if_pos rfl]

theorem lookup_root : s.leases.lookup root = some rootEntry := by
  rw [h.lookup, if_neg h.ne.symm, if_pos rfl]

theorem below : LeaseBelow s root child := .single ⟨childEntry, h.lookup_child, h.child_parent⟩

theorem below_root_iff {id : LeaseId} : LeaseBelow s root id ↔ id = root ∨ id = child := by
  constructor
  · intro hbelow
    rcases Relation.ReflTransGen.cases_tail hbelow with hroot | ⟨mid, -, entry, hentry, -⟩
    · exact .inl hroot
    · have hstored := (h.lookup id).symm.trans hentry
      split at hstored
      · exact .inr ‹_›
      · split at hstored
        · exact .inl ‹_›
        · cases hstored
  · rintro (rfl | rfl)
    · exact .refl
    · exact h.below

theorem below_iff_root {id : LeaseId} : LeaseBelow s id root ↔ id = root := by
  constructor
  · intro hbelow
    rcases Relation.ReflTransGen.cases_tail hbelow with hroot | ⟨mid, -, entry, hentry, hparent⟩
    · exact hroot.symm
    · obtain rfl := Option.some.inj (h.lookup_root.symm.trans hentry)
      rw [h.root_parent] at hparent
      cases hparent
  · rintro rfl
    exact .refl

theorem root_path : LeasePath s root [(root, rootEntry)] :=
  .root h.lookup_root h.root_parent

theorem path : LeasePath s child [(child, childEntry), (root, rootEntry)] :=
  .step h.lookup_child h.child_parent (.root h.lookup_root h.root_parent)

theorem root_generation : rootEntry.record.generation = 0 := by
  rw [h.root_record]
  rfl

theorem child_generation : childEntry.record.generation = 0 := by
  rw [h.child_record]
  rfl

theorem root_live : rootEntry.record.state.isLive = true := by
  rw [h.root_record]
  rfl

theorem child_live : childEntry.record.state.isLive = true := by
  rw [h.child_record]
  rfl

/-- Both leases are active until they expire. -/
theorem activeAt {now : DateTime} (hnow : now < start + Duration.minutes 5) :
    ∀ node ∈ [(child, childEntry), (root, rootEntry)], node.2.ActiveAt now := by
  simp only [List.mem_cons, List.not_mem_nil, or_false, forall_eq_or_imp, forall_eq]
  refine ⟨⟨by rw [h.child_record]; rfl, by rw [h.child_expires]; exact hnow⟩,
    ⟨by rw [h.root_record]; rfl, by rw [h.root_expires]; exact hnow⟩⟩

end TwoLeases

/-- The reference kernel after a delegation from its root lease. -/
theorem exists_delegated :
    ∃ s rootEntry childEntry, TwoLeases leaseId childId s rootEntry childEntry :=
  exists_two_leases newLeaseId_eq newLeaseId_child (by decide)

-- ============================================================================
-- A renewed lease
-- ============================================================================

def renewalRequest (root : LeaseId) : RenewalRequest where
  leaseId := root
  expectedGeneration := 0
  grantedAuthority := authority
  delegableAuthority := authority
  capabilityManifest := manifest
  semanticContextDigest := [4]
  expiresAt := start + Duration.minutes 4

/-- A renewal of the root lease of the reference kernel. -/
theorem exists_renewed :
    ∃ (boot : Bootstrap rootRequest rootCustody start "1") (s : AuthorityState),
      bootstrap rootRequest rootCustody start "1" = .ok boot.post ∧
      renew (renewalRequest boot.leaseId) start "2" boot.post = .ok childId s ∧
      KernelRun boot.post s := by
  obtain ⟨s, hs⟩ := exists_kernel
  obtain ⟨boot, rfl⟩ := bootstrap_eq_ok hs
  obtain ⟨signature, hcert⟩ := signedLease_fields boot.certificate_eq
  have hgranted : boot.entry.certificate.grantedAuthority = authority ∧
      boot.entry.certificate.delegableAuthority = authority := by
    simp only [Bootstrap.entry, hcert]
    exact ⟨rfl, rfl⟩
  obtain ⟨v, hv, -⟩ := boot.exists_validated verifyingKeyRoundTrip start (by decide) (some 0)
    (by simp)
  obtain ⟨ref, href⟩ := exists_leaseRef boot.entry.certificate
  obtain ⟨certificate, hcertificate⟩ := exists_signedLease
    ((renewalRequest boot.leaseId).draft start boot.entry childId ref boot.capabilityManifestDigest)
    boot.identityDigest keyId (Vector.replicate 32 1)
  have hsubset : authorityIsSubsetOf authority authority = true := by decide +kernel
  have hrequest : validateRenewalRequest boot.post boot.entry (renewalRequest boot.leaseId) start
      = .ok () := by
    refine validateRenewalRequest_eq_ok.mpr ⟨⟨?_, ?_⟩, ?_, ?_, ⟨?_, ?_⟩, ?_, ?_, ?_⟩
    · exact show start < start + Duration.minutes 4 by decide
    · exact show start + Duration.minutes 4 ≤ start + Duration.minutes 60 by decide
    · simp only [Bootstrap.entry, hcert]
      rfl
    · exact show validateAuthoritySets authority authority = .ok () by decide +kernel
    · rw [hgranted.1]
      exact hsubset
    · rw [hgranted.2]
      exact hsubset
    · exact show validateManifest manifest authority = .ok () by decide +kernel
    · exact show validateManifestAttenuation manifest manifest = .ok () by decide +kernel
    · intro id hid
      rw [boot.entry_parentId] at hid
      cases hid
  have hactive : validateActiveRecord boot.entry (some 0) start = .ok () := by
    refine validateActiveRecord_eq_ok.mpr ⟨by simp; rfl, rfl, ?_⟩
    rw [boot.entry_expiresAt]
    decide
  obtain ⟨s', hrenew⟩ := exists_renew (renewalRequest boot.leaseId) boot.lookup_root
    hactive hv hrequest (by rw [boot.entry_issuer]; exact boot.lookup_agent)
    (by rw [boot.entry_issuer, boot.lookup_custody]; exact if_pos rfl) newLeaseId_child href
    boot.manifestDigest_eq boot.identityDigest_eq hcertificate
  exact ⟨boot, s', hs, hrenew, KernelRun.refl.succeed
    (.renew (renewalRequest boot.leaseId) start) (freshUuid_second boot)
    (map_eq_ok.mpr ⟨_, hrenew, rfl⟩)⟩

end Reference

end GenesisRuntime
