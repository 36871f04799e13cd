/-
  GenesisRuntime.Authority.Canonical

  The canonical forms of authority.  Capability lists are sorted and their repetitions
  dropped; the tools of a manifest are sorted, and repeated identifiers rejected.  What
  comes out depends on the members only, and determines them.
-/

import GenesisRuntime.Digest.Canonical
import GenesisRuntime.Reference

namespace GenesisRuntime

section
variable [Externals]

-- ============================================================================
-- Capability lists
-- ============================================================================

theorem keyedCapability_eq_ok {c : Capability} {entry : List UInt8 × Capability} :
    keyedCapability c = .ok entry ↔
      ∃ value, toValue c = .ok value ∧ entry = (canonicalValueBytes value, c) := by
  simp only [keyedCapability, Except.bind_eq_ok, Except.pure_eq_ok, canonicalError_eq_ok]
  exact exists_congr fun _ => and_congr_right fun _ => eq_comm

/-- The only thing that can fail is the serialization of a capability. -/
theorem exists_canonicalCapabilities_iff {cs : List Capability} :
    (∃ out, canonicalCapabilities cs = .ok out) ↔ ∀ c ∈ cs, ∃ value, toValue c = .ok value := by
  constructor
  · rintro ⟨out, hout⟩ c hc
    obtain ⟨_, -, -, -, hall⟩ := canonicalCapabilities_spec hout
    obtain ⟨_, _, hkeyed, -, -⟩ := hall c hc
    obtain ⟨value, hvalue, -⟩ := keyedCapability_eq_ok.mp hkeyed
    exact ⟨value, hvalue⟩
  · intro h
    have hkeyed : ∀ c ∈ cs, ∃ entry, keyedCapability c = .ok entry := by
      intro c hc
      obtain ⟨value, hvalue⟩ := h c hc
      exact ⟨_, keyedCapability_eq_ok.mpr ⟨value, hvalue, rfl⟩⟩
    obtain ⟨keyed, hmap⟩ := Except.exists_mapM_eq_ok hkeyed
    exact ⟨_, Except.bind_eq_ok.mpr ⟨keyed, hmap, rfl⟩⟩

/-- The canonical list depends on the members only. -/
theorem canonicalCapabilities_congr (hcap : CapabilitySerializationInjective)
    (htext : JsonTextInjective) {cs cs' out out' : List Capability}
    (h : canonicalCapabilities cs = .ok out) (h' : canonicalCapabilities cs' = .ok out')
    (hsame : ∀ c, c ∈ cs ↔ c ∈ cs') : out = out' := by
  have hmembers : ∀ c, c ∈ out ↔ c ∈ out' := fun c => by
    rw [mem_canonicalCapabilities hcap htext h, mem_canonicalCapabilities hcap htext h', hsame]
  obtain ⟨keyed, rfl, hkeyed, hlt, -⟩ := canonicalCapabilities_spec h
  obtain ⟨keyed', rfl, hkeyed', hlt', -⟩ := canonicalCapabilities_spec h'
  -- a keyed entry is determined by its capability
  have hentries : ∀ entry, entry ∈ keyed ↔ entry ∈ keyed' := by
    intro entry
    constructor
    · intro hentry
      obtain ⟨entry', hentry', heq⟩ :=
        List.mem_map.mp ((hmembers entry.2).mp (List.mem_map_of_mem hentry))
      have hkey := (hkeyed' entry' hentry').1
      rw [heq, (hkeyed entry hentry).1] at hkey
      rw [Except.ok.inj hkey]
      exact hentry'
    · intro hentry'
      obtain ⟨entry', hentry, heq⟩ :=
        List.mem_map.mp ((hmembers entry.2).mpr (List.mem_map_of_mem hentry'))
      have hkey := (hkeyed entry' hentry).1
      rw [heq, (hkeyed' entry hentry').1] at hkey
      rw [Except.ok.inj hkey]
      exact hentry
  rw [eq_of_pairwise_lt hlt hlt' hentries]

/-- One canonical list for the lists with the same members, and no others. -/
theorem canonicalCapabilities_eq_iff (hcap : CapabilitySerializationInjective)
    (htext : JsonTextInjective) {cs cs' out out' : List Capability}
    (h : canonicalCapabilities cs = .ok out) (h' : canonicalCapabilities cs' = .ok out') :
    out = out' ↔ ∀ c, c ∈ cs ↔ c ∈ cs' := by
  refine ⟨?_, canonicalCapabilities_congr hcap htext h h'⟩
  rintro rfl c
  rw [← mem_canonicalCapabilities hcap htext h, mem_canonicalCapabilities hcap htext h']

-- ============================================================================
-- Authority sets
-- ============================================================================

namespace AuthoritySet

theorem capabilities_injective : Function.Injective AuthoritySet.capabilities := by
  rintro ⟨cs, _, _⟩ ⟨_, _, _⟩ rfl
  rfl

theorem new_eq_ok_iff {cs : List Capability} {set : AuthoritySet} :
    new cs = .ok set ↔
      capabilityAll ∉ cs ∧ canonicalCapabilities cs = .ok set.capabilities := by
  refine ⟨new_eq_ok, ?_⟩
  rintro ⟨hall, hcanonical⟩
  unfold new
  rw [dif_neg hall]
  split
  · rename_i out hout
    rw [hcanonical] at hout
    exact congrArg Except.ok (capabilities_injective (Except.ok.inj hout).symm)
  · rename_i e he
    rw [hcanonical] at he
    cases he

theorem eq_iff (hcap : CapabilitySerializationInjective) (htext : JsonTextInjective)
    {cs cs' : List Capability} {set set' : AuthoritySet} (h : new cs = .ok set)
    (h' : new cs' = .ok set') : set = set' ↔ ∀ c, c ∈ cs ↔ c ∈ cs' := by
  rw [← capabilities_injective.eq_iff]
  exact canonicalCapabilities_eq_iff hcap htext (new_eq_ok h).2 (new_eq_ok h').2

/-- A list with the members of one that is accepted is accepted, with the same outcome. -/
theorem new_congr (hcap : CapabilitySerializationInjective) (htext : JsonTextInjective)
    {cs cs' : List Capability} {set : AuthoritySet} (hsame : ∀ c, c ∈ cs ↔ c ∈ cs')
    (h : new cs = .ok set) : new cs' = .ok set := by
  obtain ⟨hall, hcanonical⟩ := new_eq_ok h
  obtain ⟨out, hout⟩ : ∃ out, canonicalCapabilities cs' = .ok out := by
    refine exists_canonicalCapabilities_iff.mpr fun c hc => ?_
    exact exists_canonicalCapabilities_iff.mp ⟨_, hcanonical⟩ c ((hsame c).mpr hc)
  refine new_eq_ok_iff.mpr ⟨fun hmem => hall ((hsame _).mpr hmem), ?_⟩
  rw [hout, canonicalCapabilities_congr hcap htext hcanonical hout hsame]

-- ============================================================================
-- Deserialization
-- ============================================================================

variable {fromValue : Json → Except String Capability}

/-- What is deserialized has gone through `new`. -/
theorem deserialize_eq_ok {value : Json} {set : AuthoritySet} :
    deserialize fromValue value = .ok set ↔ ∃ serialized,
      SerializedAuthoritySet.deserialize fromValue value = .ok serialized ∧
      new serialized.capabilities = .ok set := by
  rw [deserialize, Except.bind_eq_ok]
  refine exists_congr fun serialized => and_congr_right fun _ => ?_
  cases new serialized.capabilities with
  | ok set' => simp [Except.pure_eq_ok]
  | error e => simp [Except.throw_eq_ok]

/-- A set survives the round trip through its value, if capabilities do. -/
theorem deserialize_toValue
    (hround : ∀ c value, toValue c = .ok value → fromValue value = .ok c) {set : AuthoritySet}
    {value : Json} (h : toValue set = .ok value) : deserialize fromValue value = .ok set := by
  obtain ⟨entries, rfl, hentries⟩ := structValue_eq_ok.mp h
  cases hentries with
  | @cons _ entry _ _ hentry hrest =>
  cases hrest
  obtain ⟨name, members⟩ := entry
  obtain ⟨rfl, hmembers⟩ := hentry
  obtain ⟨values, hvalues, rfl⟩ : ∃ values, set.capabilities.mapM toValue = .ok values ∧
      Json.array values = members := by
    simpa only [toValue, Except.bind_eq_ok, Except.pure_eq_ok] using hmembers
  have hlist : values.mapM fromValue = .ok set.capabilities := by
    rw [Except.mapM_eq_ok] at hvalues ⊢
    exact (hvalues.imp fun c value hvalue => hround c value hvalue).flip
  refine deserialize_eq_ok.mpr ⟨⟨set.capabilities⟩, ?_, new_capabilities set⟩
  simp [SerializedAuthoritySet.deserialize, SerializedAuthoritySet.visitMap,
    SerializedAuthoritySet.listFromValue, hlist]
  rfl

end AuthoritySet

-- ============================================================================
-- Capability manifests
-- ============================================================================

theorem BoundTool.key_injective : Function.Injective BoundTool.key := by
  rintro ⟨_, _⟩ ⟨_, _⟩ ⟨⟩
  rfl

theorem distinguishes_boundTool (hhex : HexInjective) : Distinguishes BoundTool := by
  rintro ⟨toolId, digest⟩ ⟨toolId', digest'⟩ hsame
  have hfields := hsame.fields rfl (by simp)
  simp only [List.forall₂_cons] at hfields
  obtain ⟨hid, hdigest, -⟩ := hfields
  rw [BoundTool.mk.injEq]
  exact ⟨distinguishes_identifier _ _ _ hid, distinguishes_digest hhex _ _ hdigest⟩

theorem distinguishes_permissionSet (hcap : CapabilitySerializationInjective) :
    Distinguishes PermissionSet := by
  rintro ⟨cs⟩ ⟨cs'⟩ hsame
  have hfields := hsame.fields rfl (by simp)
  simp only [List.forall₂_cons] at hfields
  rw [PermissionSet.mk.injEq]
  exact hcap.distinguishes.list _ _ hfields.1

namespace CapabilityManifest

variable {manifest manifest' : CapabilityManifest} {digest digest' : Digest}

/-- What `canonical_digest` hashes, given the canonical permissions. -/
def canonicalFields (manifest : CapabilityManifest) (capabilities : List Capability) : Fields :=
  ⟨[("version", toValue manifest.version),
    ("model_manifest_digest", toValue manifest.modelManifestDigest),
    ("approved_tools", toValue (sortByKey BoundTool.key manifest.approvedTools)),
    ("permissions", toValue (PermissionSet.mk capabilities)),
    ("runtime_config_digest", toValue manifest.runtimeConfigDigest),
    ("tool_registry_root_digest", toValue manifest.toolRegistryRootDigest)]⟩

theorem canonicalDigest_eq_ok :
    manifest.canonicalDigest = .ok digest ↔
      (manifest.approvedTools.map BoundTool.toolId).Nodup ∧ ∃ capabilities,
        canonicalCapabilities manifest.permissions.capabilities = .ok capabilities ∧
        GenesisRuntime.canonicalDigest "aeon-capability-manifest-v1"
          (manifest.canonicalFields capabilities) = .ok digest := by
  simp only [canonicalDigest, Except.bind_eq_ok, rejectIf_eq_ok, not_not, Except.exists_unit]
  rfl

theorem exists_canonicalDigest_iff :
    (∃ digest, manifest.canonicalDigest = .ok digest) ↔
      (manifest.approvedTools.map BoundTool.toolId).Nodup ∧
        ∀ c ∈ manifest.permissions.capabilities, ∃ value, toValue c = .ok value := by
  constructor
  · rintro ⟨digest, h⟩
    obtain ⟨hnodup, cs, hcs, -⟩ := canonicalDigest_eq_ok.mp h
    exact ⟨hnodup, exists_canonicalCapabilities_iff.mp ⟨cs, hcs⟩⟩
  · rintro ⟨hnodup, hserialize⟩
    obtain ⟨cs, hcs⟩ := exists_canonicalCapabilities_iff.mpr hserialize
    obtain ⟨tools, htools⟩ :=
      exists_toValue_list (sortByKey BoundTool.key manifest.approvedTools) fun _ _ => ⟨_, rfl⟩
    obtain ⟨members, hmembers⟩ := exists_toValue_list cs fun c hc =>
      hserialize c (canonicalCapabilities_subset hcs hc)
    obtain ⟨permissions, hpermissions⟩ : ∃ value, toValue (PermissionSet.mk cs) = .ok value :=
      exists_structValue (by simp [hmembers])
    obtain ⟨json, hjson⟩ : ∃ json, toValue (manifest.canonicalFields cs) = .ok json := by
      refine exists_structValue fun field hfield => ?_
      simp only [canonicalFields, List.mem_cons, List.not_mem_nil, or_false] at hfield
      rcases hfield with rfl | rfl | rfl | rfl | rfl | rfl
      · exact ⟨_, rfl⟩
      · exact ⟨_, rfl⟩
      · exact ⟨tools, htools⟩
      · exact ⟨permissions, hpermissions⟩
      · exact ⟨_, rfl⟩
      · exact ⟨_, rfl⟩
    exact ⟨_, canonicalDigest_eq_ok.mpr ⟨hnodup, cs, hcs, GenesisRuntime.canonicalDigest_eq_ok.mpr
      ⟨⟨by decide, by decide⟩, json, hjson, rfl⟩⟩⟩

/-- The digest of a manifest fails where a tool is named twice or a capability cannot be
    serialized, and only there. -/
theorem canonicalDigest_fails_iff :
    (∃ e, manifest.canonicalDigest = .error e) ↔
      ¬ (manifest.approvedTools.map BoundTool.toolId).Nodup ∨
        ∃ c ∈ manifest.permissions.capabilities, ∃ e, toValue c = .error e := by
  have hfails : (∃ c ∈ manifest.permissions.capabilities, ∃ e, toValue c = .error e) ↔
      ¬ ∀ c ∈ manifest.permissions.capabilities, ∃ value, toValue c = .ok value := by
    simp only [Except.exists_error_iff, not_forall, exists_prop]
  rw [Except.exists_error_iff, exists_canonicalDigest_iff, hfails, not_and_or]

/-- The members of a manifest that count: repetitions and order do not. -/
structure Same (manifest manifest' : CapabilityManifest) : Prop where
  version : manifest.version = manifest'.version
  modelManifestDigest : manifest.modelManifestDigest = manifest'.modelManifestDigest
  runtimeConfigDigest : manifest.runtimeConfigDigest = manifest'.runtimeConfigDigest
  toolRegistryRootDigest : manifest.toolRegistryRootDigest = manifest'.toolRegistryRootDigest
  approvedTools : ∀ tool, tool ∈ manifest.approvedTools ↔ tool ∈ manifest'.approvedTools
  permissions : ∀ c,
    c ∈ manifest.permissions.capabilities ↔ c ∈ manifest'.permissions.capabilities

theorem canonicalDigest_eq_iff (hcollision : CollisionFree) (htext : JsonTextInjective)
    (hhex : HexInjective) (hcap : CapabilitySerializationInjective)
    (h : manifest.canonicalDigest = .ok digest) (h' : manifest'.canonicalDigest = .ok digest') :
    digest = digest' ↔ Same manifest manifest' := by
  obtain ⟨hnodup, cs, hcs, hdigest⟩ := canonicalDigest_eq_ok.mp h
  obtain ⟨hnodup', cs', hcs', hdigest'⟩ := canonicalDigest_eq_ok.mp h'
  constructor
  · rintro rfl
    have hvalues : SameValue (structValue (manifest.canonicalFields cs).fields)
        (structValue (manifest'.canonicalFields cs').fields) :=
      sameValue_of_canonicalDigest hcollision htext hdigest hdigest'
    have hfields := hvalues.fields rfl (by simp [canonicalFields])
    simp only [canonicalFields, List.forall₂_cons] at hfields
    obtain ⟨hversion, hmodel, htools, hpermissions, hconfig, hroot, -⟩ := hfields
    have hsorted := (distinguishes_boundTool hhex).list _ _ htools
    have hcanonical := distinguishes_permissionSet hcap _ _ hpermissions
    exact {
      version := distinguishes_uint8 _ _ hversion
      modelManifestDigest := distinguishes_digest hhex _ _ hmodel
      runtimeConfigDigest := distinguishes_digest hhex _ _ hconfig
      toolRegistryRootDigest := distinguishes_digest hhex _ _ hroot
      approvedTools := fun tool => by
        have hmem (m : CapabilityManifest) : tool ∈ sortByKey BoundTool.key m.approvedTools ↔
            tool ∈ m.approvedTools := mem_sortByKey
        rw [← hmem manifest, hsorted, hmem]
      permissions := (canonicalCapabilities_eq_iff hcap htext hcs hcs').mp
        (PermissionSet.mk.inj hcanonical) }
  · intro hsame
    have hperm : manifest.approvedTools.Perm manifest'.approvedTools :=
      (List.perm_ext_iff_of_nodup hnodup.of_map hnodup'.of_map).mpr hsame.approvedTools
    have hsorted : sortByKey BoundTool.key manifest.approvedTools
        = sortByKey BoundTool.key manifest'.approvedTools :=
      sortByKey_eq_of_perm hperm fun _ _ _ _ heq => BoundTool.key_injective heq
    have hcanonical := canonicalCapabilities_congr hcap htext hcs hcs' hsame.permissions
    have hfields : manifest.canonicalFields cs = manifest'.canonicalFields cs' := by
      rw [canonicalFields, canonicalFields, hsame.version, hsame.modelManifestDigest, hsorted,
        hcanonical, hsame.runtimeConfigDigest, hsame.toolRegistryRootDigest]
    rw [hfields, hdigest'] at hdigest
    exact (Except.ok.inj hdigest).symm

end CapabilityManifest

-- ============================================================================
-- Canonical authority
-- ============================================================================

/-- The digest of a capability manifest and the set that `AuthoritySet::new` makes of a list
    are canonical forms: they fail on no more than they must, and two of them are equal
    exactly where the manifests or the lists have the same members. A set that is
    deserialized is one that `new` made of the deserialized list. -/
theorem authority_is_canonical (hcollision : CollisionFree) (htext : JsonTextInjective)
    (hhex : HexInjective) (hcap : CapabilitySerializationInjective) :
    (∀ manifest : CapabilityManifest, (∃ e, manifest.canonicalDigest = .error e) ↔
      ¬ (manifest.approvedTools.map BoundTool.toolId).Nodup ∨
        ∃ c ∈ manifest.permissions.capabilities, ∃ e, toValue c = .error e) ∧
    (∀ (manifest manifest' : CapabilityManifest) (digest digest' : Digest),
      manifest.canonicalDigest = .ok digest → manifest'.canonicalDigest = .ok digest' →
      (digest = digest' ↔ CapabilityManifest.Same manifest manifest')) ∧
    (∀ (cs : List Capability) (set : AuthoritySet), AuthoritySet.new cs = .ok set →
      AuthoritySet.new set.capabilities = .ok set) ∧
    (∀ (cs cs' : List Capability) (set : AuthoritySet), (∀ c, c ∈ cs ↔ c ∈ cs') →
      AuthoritySet.new cs = .ok set → AuthoritySet.new cs' = .ok set) ∧
    (∀ (cs cs' : List Capability) (set set' : AuthoritySet), AuthoritySet.new cs = .ok set →
      AuthoritySet.new cs' = .ok set' → (set = set' ↔ ∀ c, c ∈ cs ↔ c ∈ cs')) ∧
    (∀ fromValue : Json → Except String Capability,
      (∀ value set, AuthoritySet.deserialize fromValue value = .ok set ↔ ∃ serialized,
        SerializedAuthoritySet.deserialize fromValue value = .ok serialized ∧
        AuthoritySet.new serialized.capabilities = .ok set) ∧
      ((∀ c value, toValue c = .ok value → fromValue value = .ok c) → ∀ set value,
        toValue set = .ok value → AuthoritySet.deserialize fromValue value = .ok set) ∧
      ∀ value value' serialized serialized' set set',
        SerializedAuthoritySet.deserialize fromValue value = .ok serialized →
        SerializedAuthoritySet.deserialize fromValue value' = .ok serialized' →
        AuthoritySet.deserialize fromValue value = .ok set →
        AuthoritySet.deserialize fromValue value' = .ok set' →
        (set = set' ↔ ∀ c, c ∈ serialized.capabilities ↔ c ∈ serialized'.capabilities)) := by
  refine ⟨fun _ => CapabilityManifest.canonicalDigest_fails_iff,
    fun _ _ _ _ => CapabilityManifest.canonicalDigest_eq_iff hcollision htext hhex hcap,
    fun _ set _ => set.new_capabilities, fun _ _ _ => AuthoritySet.new_congr hcap htext,
    fun _ _ _ _ => AuthoritySet.eq_iff hcap htext, fun fromValue =>
    ⟨fun _ _ => AuthoritySet.deserialize_eq_ok,
      fun hround _ _ => AuthoritySet.deserialize_toValue hround, ?_⟩⟩
  intro value value' serialized serialized' set set' hserialized hserialized' hset hset'
  obtain ⟨_, hread, hnew⟩ := AuthoritySet.deserialize_eq_ok.mp hset
  obtain ⟨_, hread', hnew'⟩ := AuthoritySet.deserialize_eq_ok.mp hset'
  rw [hserialized] at hread
  rw [hserialized'] at hread'
  cases hread
  cases hread'
  exact AuthoritySet.eq_iff hcap htext hnew hnew'

omit [Externals] in
/-- Manifests whose tools stand in another order, over the reference components. -/
theorem authority_is_canonical_reference : letI := Reference.externals
    ∃ manifest manifest' : CapabilityManifest, manifest ≠ manifest' ∧
      ∃ digest, manifest.canonicalDigest = .ok digest ∧
        manifest'.canonicalDigest = .ok digest := by
  let := Reference.externals
  let reader : BoundTool := ⟨Reference.toolId, [1]⟩
  let writer : BoundTool := ⟨⟨"writer", by decide⟩, [2]⟩
  let manifest : CapabilityManifest :=
    { Reference.manifest with approvedTools := [reader, writer] }
  let manifest' : CapabilityManifest :=
    { Reference.manifest with approvedTools := [writer, reader] }
  obtain ⟨digest, hdigest⟩ : ∃ digest, manifest.canonicalDigest = .ok digest :=
    Reference.exists_manifestDigest (by decide) rfl
  obtain ⟨digest', hdigest'⟩ : ∃ digest, manifest'.canonicalDigest = .ok digest :=
    Reference.exists_manifestDigest (by decide) rfl
  have hsame : CapabilityManifest.Same manifest manifest' :=
    ⟨rfl, rfl, rfl, rfl, fun tool => by simp [manifest, manifest', or_comm], fun _ => Iff.rfl⟩
  have hcanonical := (authority_is_canonical Reference.collisionFree Reference.jsonTextInjective
    Reference.hexInjective Reference.capabilitySerializationInjective).2.1 manifest manifest' digest
    digest' hdigest hdigest'
  refine ⟨manifest, manifest', fun heq => ?_, digest, hdigest, ?_⟩
  · have htools := congrArg CapabilityManifest.approvedTools heq
    exact absurd (List.cons.inj htools).1 (by decide)
  · rw [hcanonical.mpr hsame]
    exact hdigest'

end

end GenesisRuntime
