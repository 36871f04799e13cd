/-
  GenesisRuntime.Digest.Framing

  The framing under everything that is hashed or signed: a domain and an encoding, each
  behind its length, four and eight bytes wide.  Both parts are length-prefixed codes, so
  the whole is prefix-free.
-/

import GenesisRuntime.Digest.Canonical
import GenesisRuntime.Lib.PrefixCode
import GenesisRuntime.Reference

namespace GenesisRuntime

-- ============================================================================
-- Lengths
-- ============================================================================

theorem beBytes_injOn (width : Nat) : Set.InjOn (beBytes width) {n | n < 256 ^ width} := by
  induction width with
  | zero =>
      intro n hn m hm _
      simp only [Set.mem_ofPred_eq, Nat.pow_zero, Nat.lt_one_iff] at hn hm
      rw [hn, hm]
  | succ width ih =>
      intro n hn m hm h
      rw [Set.mem_ofPred_eq, Nat.pow_succ] at hn hm
      obtain ⟨hhigh, hlow⟩ := List.append_inj' h rfl
      have hdiv : n / 256 = m / 256 :=
        ih (Nat.div_lt_of_lt_mul (by omega)) (Nat.div_lt_of_lt_mul (by omega)) hhigh
      have hmod : n % 256 = m % 256 := by
        have hbyte := congrArg UInt8.toNat (List.singleton_inj.mp hlow)
        simpa using hbyte
      omega

/-- The bytes of a number, most significant first, are a code of one width. -/
theorem prefixFreeOn_beBytes (width : Nat) :
    PrefixFreeOn {n | n < 256 ^ width} (beBytes width) :=
  .of_length (beBytes_length width) (beBytes_injOn width)

-- ============================================================================
-- Frames
-- ============================================================================

/-- Domains whose length is written out in full. -/
def ShortDomain : Set String := {domain | domain.utf8ByteSize < 2 ^ 32}

/-- A domain behind its length. -/
theorem prefixFreeOn_domain :
    PrefixFreeOn ShortDomain fun domain => beBytes 4 domain.utf8ByteSize ++ textBytes domain := by
  have hcode := ((prefixFreeOn_beBytes 4).lengthPrefixed).comp textBytes_injective
  simp only [length_textBytes] at hcode
  refine hcode.mono fun domain hdomain => ?_
  rw [Set.mem_preimage, Set.mem_ofPred_eq, length_textBytes]
  exact hdomain

/-- Frames tell their domains apart, and then their contents. -/
theorem eq_of_frame_eq {domain domain' : String} {xs ys : List UInt8}
    (hdomain : domain ∈ ShortDomain) (hdomain' : domain' ∈ ShortDomain)
    (h : frame domain xs = frame domain' ys) : domain = domain' ∧ xs = ys := by
  have hsplit : (beBytes 4 domain.utf8ByteSize ++ textBytes domain)
        ++ (beBytes 8 xs.length ++ xs)
      = (beBytes 4 domain'.utf8ByteSize ++ textBytes domain')
        ++ (beBytes 8 ys.length ++ ys) := by
    simpa only [frame, List.append_assoc] using h
  obtain ⟨rfl, -⟩ := prefixFreeOn_domain domain hdomain domain' hdomain' _ _ hsplit
  exact ⟨rfl, frame_injective domain h⟩

theorem length_le_length_frame (domain : String) (encoded : List UInt8) :
    encoded.length ≤ (frame domain encoded).length := by
  simp only [frame, List.length_append]
  omega

/-- Where the length of the contents is written out in full too, no frame is the beginning of
    another. -/
theorem eq_of_frame_prefix {domain domain' : String} {xs ys : List UInt8}
    (hdomain : domain ∈ ShortDomain) (hdomain' : domain' ∈ ShortDomain)
    (hfits : (frame domain' ys).length < 2 ^ 64)
    (h : frame domain xs <+: frame domain' ys) : domain = domain' ∧ xs = ys := by
  have hxs : xs.length < 2 ^ 64 :=
    ((length_le_length_frame domain xs).trans h.length_le).trans_lt hfits
  have hys : ys.length < 2 ^ 64 := (length_le_length_frame domain' ys).trans_lt hfits
  have hcode := prefixFreeOn_domain.append (prefixFreeOn_beBytes 8).lengthPrefixed
  have hfront : (domain, xs) = (domain', ys) := by
    refine hcode.eq_of_prefix ⟨hdomain, hxs⟩ ⟨hdomain', hys⟩ ?_
    simpa only [frame, List.append_assoc] using h
  exact Prod.mk.inj hfront

theorem mem_shortDomain {domain : String} (h : domain.utf8ByteSize ≤ u32Max) :
    domain ∈ ShortDomain := by
  rw [ShortDomain, Set.mem_ofPred_eq]
  unfold u32Max at h
  omega

section
variable [Externals] {α : Type} [Serialize α] {domain : String} {a : α}

theorem canonicalDigest_of_canonicalBytes {bytes : List UInt8}
    (h : canonicalBytes domain a = .ok bytes) :
    canonicalDigest domain a = .ok (Externals.sha256 bytes) := by
  obtain ⟨hdomain, json, hjson, rfl⟩ := canonicalBytes_eq_ok.mp h
  exact canonicalDigest_eq_ok.mpr ⟨hdomain, json, hjson, rfl⟩

/-- What one payload of two values says. -/
theorem sameValue_of_canonicalBytes (htext : JsonTextInjective) {β : Type} [Serialize β]
    {domain' : String} {b : β} {bytes : List UInt8} (h : canonicalBytes domain a = .ok bytes)
    (h' : canonicalBytes domain' b = .ok bytes) :
    domain = domain' ∧ SameValue (toValue a) (toValue b) := by
  obtain ⟨hdomain, v, hv, rfl⟩ := canonicalBytes_eq_ok.mp h
  obtain ⟨hdomain', w, hw, heq⟩ := canonicalBytes_eq_ok.mp h'
  obtain ⟨hdomains, hencoded⟩ :=
    eq_of_frame_eq (mem_shortDomain hdomain.2) (mem_shortDomain hdomain'.2) heq
  exact ⟨hdomains, v, w, hv, hw, toVec_injective htext hencoded⟩

/-- The two functions check the domain in a different order, but reject the same inputs. -/
theorem exists_canonicalDigest_iff :
    (∃ digest, canonicalDigest domain a = .ok digest) ↔
      ∃ bytes, canonicalBytes domain a = .ok bytes := by
  simp only [canonicalDigest_eq_ok, canonicalBytes_eq_ok]
  constructor
  · rintro ⟨_, hdomain, json, hjson, -⟩
    exact ⟨_, hdomain, json, hjson, rfl⟩
  · rintro ⟨_, hdomain, json, hjson, -⟩
    exact ⟨_, hdomain, json, hjson, rfl⟩

/-- `canonical_digest` hashes what `canonical_bytes` returns and fails where it fails, and what
    `canonical_bytes` returns is not, nor begins, what it returns for another domain or for a
    value with another canonical form.  (A `Vec` has fewer than 2^64 bytes.) -/
theorem framing_is_unambiguous (htext : JsonTextInjective) {β : Type} [Serialize β]
    (domain domain' : String) (a : α) (b : β) :
    ((∃ e, canonicalDigest domain a = .error e) ↔ ∃ e, canonicalBytes domain a = .error e) ∧
    (∀ bytes, canonicalBytes domain a = .ok bytes →
      canonicalDigest domain a = .ok (Externals.sha256 bytes)) ∧
    (∀ bytes bytes', canonicalBytes domain a = .ok bytes → canonicalBytes domain' b = .ok bytes' →
      (bytes = bytes' ∨ (bytes <+: bytes' ∧ bytes'.length < 2 ^ 64) ∨
        (bytes' <+: bytes ∧ bytes.length < 2 ^ 64)) →
      domain = domain' ∧ SameValue (toValue a) (toValue b)) := by
  refine ⟨?_, fun bytes h => canonicalDigest_of_canonicalBytes h, ?_⟩
  · rw [Except.exists_error_iff, Except.exists_error_iff, exists_canonicalDigest_iff]
  intro bytes bytes' h h' hbytes
  obtain ⟨hdomain, v, hv, rfl⟩ := canonicalBytes_eq_ok.mp h
  obtain ⟨hdomain', w, hw, rfl⟩ := canonicalBytes_eq_ok.mp h'
  have hshort := mem_shortDomain hdomain.2
  have hshort' := mem_shortDomain hdomain'.2
  have hsame : domain = domain' ∧ toVec (canonicalizeJson v) = toVec (canonicalizeJson w) := by
    rcases hbytes with heq | ⟨hfront, hfits⟩ | ⟨hfront, hfits⟩
    · exact eq_of_frame_eq hshort hshort' heq
    · exact eq_of_frame_prefix hshort hshort' hfits hfront
    · obtain ⟨hdomains, hencoded⟩ := eq_of_frame_prefix hshort' hshort hfits hfront
      exact ⟨hdomains.symm, hencoded.symm⟩
  exact ⟨hsame.1, v, w, hv, hw, toVec_injective htext hsame.2⟩

omit [Externals] in
/-- A domain that begins with another, over the reference components. -/
theorem framing_is_unambiguous_reference : letI := Reference.externals
    ∃ bytes bytes', canonicalBytes "a" Json.null = .ok bytes ∧
      canonicalBytes "ab" Json.null = .ok bytes' ∧
      canonicalDigest "a" Json.null = .ok (Externals.sha256 bytes) ∧ bytes ≠ bytes' := by
  let := Reference.externals
  obtain ⟨-, hdigest, hbytes⟩ :=
    framing_is_unambiguous Reference.jsonTextInjective "a" "ab" Json.null Json.null
  have h : canonicalBytes "a" Json.null = .ok _ :=
    canonicalBytes_eq_ok.mpr ⟨⟨by decide, by decide⟩, _, rfl, rfl⟩
  have h' : canonicalBytes "ab" Json.null = .ok _ :=
    canonicalBytes_eq_ok.mpr ⟨⟨by decide, by decide⟩, _, rfl, rfl⟩
  refine ⟨_, _, h, h', hdigest _ h, fun heq => ?_⟩
  exact absurd (hbytes _ _ h h' (.inl heq)).1 (by decide)

end

end GenesisRuntime
