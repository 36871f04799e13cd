/-
  GenesisRuntime.Digest.Hex

  `Digest` as it is stored and printed: 32 bytes, and their 64 lowercase hexadecimal
  digits.  The rest of the development takes a digest as a value of an abstract type;
  here it is shown that the text tells digests apart, keeps their order, and is the
  only one that is read back.
-/

import GenesisRuntime.Digest
import GenesisRuntime.Lib.Hex

namespace GenesisRuntime

/-- `DIGEST_BYTES`. -/
def digestBytes : Nat := 32

/-- `Digest`: the bytes of one. -/
structure DigestBytes where
  bytes : Vector UInt8 digestBytes
deriving DecidableEq

/-- `decode_hex`. -/
def decodeHex (byte : UInt8) : Option UInt8 :=
  if 48 ≤ byte ∧ byte ≤ 57 then some (byte - 48)
  else if 97 ≤ byte ∧ byte ≤ 102 then some (byte - 97 + 10)
  else none

/-- `{byte:02x}`. -/
def lowerHex (byte : UInt8) : String :=
  String.ofList [Nat.digitChar (byte.toNat / 16), Nat.digitChar (byte.toNat % 16)]

namespace DigestBytes

/-- `from_slice`. -/
def fromSlice (bytes : List UInt8) : Result DigestBytes :=
  if h : bytes.length = digestBytes then
    .ok ⟨⟨bytes.toArray, by simpa using h⟩⟩
  else
    .error ⟨.invalidInput, s!"digest must contain exactly {digestBytes} bytes"⟩

/-- `to_hex`. -/
def toHex (digest : DigestBytes) : String :=
  digest.bytes.toList.foldl (fun encoded byte => encoded ++ lowerHex byte) ""

/-- The loop of `from_hex`, from the byte at `index` on. -/
def fromHexLoop : Nat → List UInt8 → Vector UInt8 digestBytes → Result (Vector UInt8 digestBytes)
  | index, high :: low :: rest, bytes => do
      let high ← orReject .invalidInput "digest contains non-hex data" (decodeHex high)
      let low ← orReject .invalidInput "digest contains non-hex data" (decodeHex low)
      fromHexLoop (index + 1) rest (bytes.setIfInBounds index ((high <<< 4) ||| low))
  | _, _, bytes => return bytes

/-- `from_hex`. -/
def fromHex (value : String) : Result DigestBytes := do
  rejectIf (value.utf8ByteSize ≠ digestBytes * 2 ∨ ¬ (textBytes value).all (· < 128))
    .invalidInput "digest must be 64 lowercase hexadecimal characters"
  let bytes ← fromHexLoop 0 (textBytes value) (Vector.replicate digestBytes 0)
  return ⟨bytes⟩

end DigestBytes

-- ============================================================================
-- Texts as bytes
-- ============================================================================

theorem textBytes_append (a b : String) : textBytes (a ++ b) = textBytes a ++ textBytes b := by
  simp [textBytes]

theorem utf8EncodeChar_digitChar :
    ∀ n < 16, String.utf8EncodeChar (Nat.digitChar n) = [Hex.digit n] := by
  decide

theorem textBytes_lowerHex (byte : UInt8) : textBytes (lowerHex byte) = Hex.pair byte := by
  have hbytes : textBytes (lowerHex byte)
      = String.utf8EncodeChar (Nat.digitChar (byte.toNat / 16))
        ++ String.utf8EncodeChar (Nat.digitChar (byte.toNat % 16)) := by
    simp [textBytes, lowerHex, List.utf8Encode_singleton]
  rw [hbytes, utf8EncodeChar_digitChar _ (Hex.high_lt byte),
    utf8EncodeChar_digitChar _ (Hex.low_lt byte)]
  rfl

theorem textBytes_toHex (digest : DigestBytes) :
    textBytes digest.toHex = Hex.encode digest.bytes.toList := by
  have hfold : ∀ (bytes : List UInt8) (text : String),
      textBytes (bytes.foldl (fun encoded byte => encoded ++ lowerHex byte) text)
        = textBytes text ++ Hex.encode bytes := by
    intro bytes
    induction bytes with
    | nil => simp [Hex.encode]
    | cons byte bytes ih =>
        intro text
        rw [List.foldl_cons, ih, textBytes_append, textBytes_lowerHex, List.append_assoc]
        rfl
  exact hfold _ ""

-- ============================================================================
-- Reading a text
-- ============================================================================

theorem decodeHex_eq (byte : UInt8) : decodeHex byte = (Hex.value byte).map UInt8.ofNat := by
  simp only [decodeHex, Hex.value, UInt8.le_iff_toNat_le, UInt8.reduceToNat]
  by_cases hdecimal : 48 ≤ byte.toNat ∧ byte.toNat ≤ 57
  · rw [if_pos hdecimal, if_pos hdecimal, Option.map_some, UInt8.ofNat_sub hdecimal.1,
      UInt8.ofNat_toNat]
    rfl
  rw [if_neg hdecimal, if_neg hdecimal]
  by_cases hletter : 97 ≤ byte.toNat ∧ byte.toNat ≤ 102
  · rw [if_pos hletter, if_pos hletter, Option.map_some]
    have hsum : byte.toNat - 87 = byte.toNat - 97 + 10 := by omega
    rw [hsum, UInt8.ofNat_add, UInt8.ofNat_sub hletter.1, UInt8.ofNat_toNat]
    rfl
  · rw [if_neg hletter, if_neg hletter, Option.map_none]

theorem nibbles_eq : ∀ m < 16, ∀ n < 16,
    (UInt8.ofNat m <<< 4) ||| UInt8.ofNat n = UInt8.ofNat (m * 16 + n) := by
  decide

namespace DigestBytes

/-- The loop fills the bytes from `index` on with what the text is read as. -/
theorem fromHexLoop_spec (text : List UInt8) (index : Nat) (bytes : Vector UInt8 digestBytes)
    (hlength : text.length + index * 2 = digestBytes * 2) :
    (∀ decoded, Hex.decode text = some decoded →
        ∃ filled, fromHexLoop index text bytes = .ok filled ∧
      filled.toList = bytes.toList.take index ++ decoded) ∧
    (Hex.decode text = none → fromHexLoop index text bytes
      = .error ⟨.invalidInput, "digest contains non-hex data"⟩) := by
  induction text using Hex.decode.induct generalizing index bytes with
  | case1 =>
      have hindex : index = digestBytes := by
        rw [List.length_nil] at hlength
        omega
      refine ⟨fun decoded hdecoded => ⟨bytes, rfl, ?_⟩, fun hnone => by cases hnone⟩
      cases hdecoded
      rw [hindex, List.append_nil, List.take_of_length_le (by simp)]
  | case2 digit =>
      rw [List.length_singleton] at hlength
      omega
  | case3 high low rest ih =>
      rw [List.length_cons, List.length_cons] at hlength
      rw [fromHexLoop, decodeHex_eq, decodeHex_eq, Hex.decode]
      cases hhigh : Hex.value high with
      | none => exact ⟨fun _ h => (by cases h), fun _ => rfl⟩
      | some m =>
      cases hlow : Hex.value low with
      | none => exact ⟨fun _ h => (by cases h), fun _ => rfl⟩
      | some n =>
      obtain ⟨hm, -⟩ := Hex.value_eq_some.mp hhigh
      obtain ⟨hn, -⟩ := Hex.value_eq_some.mp hlow
      have hindex : index < bytes.toList.length := by
        rw [Vector.length_toList]
        omega
      obtain ⟨hfilled, hfailed⟩ := ih (index + 1)
        (bytes.setIfInBounds index (UInt8.ofNat (m * 16 + n))) (by omega)
      have htake : (bytes.setIfInBounds index (UInt8.ofNat (m * 16 + n))).toList.take (index + 1)
          = bytes.toList.take index ++ [UInt8.ofNat (m * 16 + n)] := by
        rw [Vector.toList_setIfInBounds, List.take_succ_eq_append_getElem
          (by rwa [List.length_set]), List.take_set_of_le le_rfl, List.getElem_set_self]
      simp only [Option.map_some, orReject, Option.bind_eq_bind, Option.bind_some, pure_bind,
        nibbles_eq m hm n hn]
      cases hrest : Hex.decode rest with
      | none => exact ⟨fun _ h => (by cases h), fun _ => hfailed hrest⟩
      | some decoded =>
          refine ⟨fun _ h => ?_, fun h => by cases h⟩
          cases h
          obtain ⟨filled, hrun, htoList⟩ := hfilled decoded hrest
          refine ⟨filled, hrun, ?_⟩
          rw [htoList, htake, List.append_assoc]
          rfl

/-- A text is read where it has the length of one and its characters are digits; the length is
    looked at first. -/
theorem fromHex_spec (value : String) :
    (value.utf8ByteSize = digestBytes * 2 →
      (∀ byte ∈ textBytes value, (Hex.value byte).isSome = true) →
      ∃ digest : DigestBytes, fromHex value = .ok digest ∧
        textBytes value = Hex.encode digest.bytes.toList) ∧
    ((value.utf8ByteSize = digestBytes * 2 ∧ (textBytes value).all (· < 128) = true) →
      ¬ (∀ byte ∈ textBytes value, (Hex.value byte).isSome = true) →
      fromHex value = .error ⟨.invalidInput, "digest contains non-hex data"⟩) ∧
    (¬ (value.utf8ByteSize = digestBytes * 2 ∧ (textBytes value).all (· < 128) = true) →
      fromHex value
        = .error ⟨.invalidInput, "digest must be 64 lowercase hexadecimal characters"⟩) := by
  have hloop (hsize : value.utf8ByteSize = digestBytes * 2) :=
    fromHexLoop_spec (textBytes value) 0 (Vector.replicate digestBytes 0)
      (by rw [length_textBytes, hsize]; rfl)
  have heven (hsize : value.utf8ByteSize = digestBytes * 2) : (textBytes value).length % 2 = 0 := by
    rw [length_textBytes, hsize]
    rfl
  refine ⟨fun hsize hdigits => ?_, fun hgood hnot => ?_, fun hbad => ?_⟩
  · have hascii : (textBytes value).all (· < 128) = true := by
      rw [List.all_eq_true]
      intro byte hbyte
      obtain ⟨n, hn⟩ := Option.isSome_iff_exists.mp (hdigits byte hbyte)
      obtain ⟨hlt, rfl⟩ := Hex.value_eq_some.mp hn
      exact decide_eq_true (Hex.digit_lt_128 hlt)
    obtain ⟨decoded, hdecoded⟩ :=
      Option.isSome_iff_exists.mp ((Hex.isSome_decode (heven hsize)).mpr hdigits)
    obtain ⟨filled, hrun, htoList⟩ := (hloop hsize).1 decoded hdecoded
    refine ⟨⟨filled⟩, ?_, ?_⟩
    · rw [fromHex, rejectIf, if_neg (by simp [hsize, hascii]), hrun]
      rfl
    · rw [htoList, List.take_zero, List.nil_append]
      exact Hex.decode_eq_some.mp hdecoded
  · have hnone : Hex.decode (textBytes value) = none := by
      rw [← Option.not_isSome_iff_eq_none, Hex.isSome_decode (heven hgood.1)]
      exact hnot
    rw [fromHex, rejectIf, if_neg (by simp [hgood.1, hgood.2]), (hloop hgood.1).2 hnone]
    rfl
  · rw [fromHex, rejectIf, if_pos (by rwa [← not_and_or])]
    rfl

theorem toHex_size (digest : DigestBytes) : digest.toHex.utf8ByteSize = digestBytes * 2 := by
  rw [← length_textBytes, textBytes_toHex, Hex.length_encode, Vector.length_toList]

theorem toHex_digits (digest : DigestBytes) :
    ∀ byte ∈ textBytes digest.toHex, (Hex.value byte).isSome = true := by
  have heven : (textBytes digest.toHex).length % 2 = 0 := by
    rw [length_textBytes, toHex_size]
    rfl
  rw [← Hex.isSome_decode heven, textBytes_toHex, Hex.decode_eq_some.mpr rfl]
  rfl

/-- The text of a digest is the only one it is read from. -/
theorem fromHex_eq_ok {value : String} {digest : DigestBytes} :
    fromHex value = .ok digest ↔ value = digest.toHex := by
  constructor
  · intro h
    obtain ⟨hread, hdigits, hlength⟩ := fromHex_spec value
    by_cases hgood : value.utf8ByteSize = digestBytes * 2 ∧ (textBytes value).all (· < 128) = true
    swap
    · cases h.symm.trans (hlength hgood)
    by_cases hall : ∀ byte ∈ textBytes value, (Hex.value byte).isSome = true
    swap
    · cases h.symm.trans (hdigits hgood hall)
    obtain ⟨digest', hrun, htext⟩ := hread hgood.1 hall
    obtain rfl := Except.ok.inj (h.symm.trans hrun)
    exact textBytes_injective (htext.trans (textBytes_toHex digest).symm)
  · rintro rfl
    obtain ⟨digest', hrun, htext⟩ := (fromHex_spec digest.toHex).1 digest.toHex_size
      digest.toHex_digits
    rw [textBytes_toHex] at htext
    obtain ⟨bytes⟩ := digest
    obtain ⟨bytes'⟩ := digest'
    obtain rfl : bytes = bytes' := Vector.toList_inj.mp (Hex.encode_injective htext)
    exact hrun

/-- Digests are told apart by their texts. -/
theorem toHex_injective : Function.Injective toHex := by
  intro a b h
  exact Except.ok.inj ((fromHex_eq_ok.mpr rfl).symm.trans (fromHex_eq_ok.mpr h))

/-- A slice is a digest where it has the length of one. -/
theorem fromSlice_eq_ok {bytes : List UInt8} {digest : DigestBytes} :
    fromSlice bytes = .ok digest ↔ digest.bytes.toList = bytes := by
  obtain ⟨stored⟩ := digest
  rw [fromSlice]
  split_ifs with hlength
  · constructor
    · intro h
      cases h
      rfl
    · rintro rfl
      rfl
  · refine ⟨nofun, fun h => absurd ?_ hlength⟩
    rw [← h, Vector.length_toList]

/-- The texts that are read as digests are those of 64 lowercase hexadecimal digits, each as
    the one digest whose text it is, so that texts tell digests apart; what is wrong with
    another text is said exactly; the texts compare as the digests do; and a digest is read
    from its bytes and from no others. -/
theorem digest_text_is_canonical :
    (∀ value digest, fromHex value = .ok digest ↔ value = digest.toHex) ∧
    (∀ value : String, (∃ digest, fromHex value = .ok digest) ↔
      value.utf8ByteSize = digestBytes * 2 ∧
        ∀ byte ∈ textBytes value, (decodeHex byte).isSome = true) ∧
    (∀ value e, fromHex value = .error e → e.code = .invalidInput ∧ e.message =
      if value.utf8ByteSize = digestBytes * 2 ∧ (textBytes value).all (· < 128) = true
      then "digest contains non-hex data"
      else "digest must be 64 lowercase hexadecimal characters") ∧
    (∀ a b : DigestBytes, textBytes a.toHex < textBytes b.toHex ↔
      a.bytes.toList < b.bytes.toList) ∧
    Function.Injective toHex ∧
    (∀ bytes digest, fromSlice bytes = .ok digest ↔ digest.bytes.toList = bytes) := by
  refine ⟨fun value digest => fromHex_eq_ok, fun value => ?_, fun value e h => ?_, fun a b => ?_,
    toHex_injective, fun bytes digest => fromSlice_eq_ok⟩
  · simp only [decodeHex_eq, Option.isSome_map]
    constructor
    · rintro ⟨digest, h⟩
      obtain rfl := fromHex_eq_ok.mp h
      exact ⟨digest.toHex_size, digest.toHex_digits⟩
    · rintro ⟨hsize, hdigits⟩
      obtain ⟨digest, h, -⟩ := (fromHex_spec value).1 hsize hdigits
      exact ⟨digest, h⟩
  · obtain ⟨hread, hdigits, hlength⟩ := fromHex_spec value
    split_ifs with hgood
    · by_cases hall : ∀ byte ∈ textBytes value, (Hex.value byte).isSome = true
      · obtain ⟨digest, hrun, -⟩ := hread hgood.1 hall
        cases h.symm.trans hrun
      · cases h.symm.trans (hdigits hgood hall)
        exact ⟨rfl, rfl⟩
    · cases h.symm.trans (hlength hgood)
      exact ⟨rfl, rfl⟩
  · rw [textBytes_toHex, textBytes_toHex]
    exact Hex.encode_lt_iff

end DigestBytes

end GenesisRuntime
