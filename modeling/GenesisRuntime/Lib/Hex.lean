/-
  GenesisRuntime.Lib.Hex

  Block codes that keep the order, and the lowercase hexadecimal text of bytes as
  one: two ASCII digits for each byte, so that the text determines the bytes and
  texts compare as the bytes do.
-/

import Mathlib.Data.List.Basic
import Mathlib.Order.Basic

-- ============================================================================
-- Block codes
-- ============================================================================

section
variable {α β : Type} [LT α] [LT β]

/-- Where the fronts have one length, they decide before what follows them. -/
theorem List.append_lt_append_iff {xs ys xs' ys' : List β} [Std.Irrefl (α := β) (· < ·)]
    (hlength : xs.length = ys.length) :
    xs ++ xs' < ys ++ ys' ↔ xs < ys ∨ (xs = ys ∧ xs' < ys') := by
  induction xs generalizing ys with
  | nil =>
      obtain rfl := List.length_eq_zero_iff.mp hlength.symm
      simp
  | cons x xs ih =>
      cases ys with
      | nil => simp at hlength
      | cons y ys =>
          simp only [List.cons_append, List.cons_lt_cons_iff, ih (Nat.succ.inj hlength),
            List.cons.injEq]
          tauto

omit [LT α] [LT β] in
/-- Blocks of one width. -/
theorem length_flatMap_block {code : α → List β} {width : Nat}
    (hwidth : ∀ a, (code a).length = width) (xs : List α) :
    (xs.flatMap code).length = xs.length * width := by
  induction xs with
  | nil => simp
  | cons x xs ih => rw [List.flatMap_cons, List.length_append, ih, hwidth, List.length_cons,
      Nat.succ_mul, Nat.add_comm]

/-- Blocks of one width that compare as what they stand for are put together to codes that
    do. -/
theorem flatMap_lt_iff {code : α → List β} {width : Nat} [Std.Irrefl (α := β) (· < ·)]
    (hpos : 0 < width) (hwidth : ∀ a, (code a).length = width)
    (hinj : ∀ a b, code a = code b → a = b) (hlt : ∀ a b, code a < code b ↔ a < b)
    {xs ys : List α} : xs.flatMap code < ys.flatMap code ↔ xs < ys := by
  induction xs generalizing ys with
  | nil =>
      cases ys with
      | nil => simp
      | cons y ys =>
          have hne : code y ≠ [] := fun h => by
            have := hwidth y
            rw [h, List.length_nil] at this
            omega
          obtain ⟨b, rest, hb⟩ := List.exists_cons_of_ne_nil hne
          simp [hb]
  | cons x xs ih =>
      cases ys with
      | nil => simp
      | cons y ys =>
          rw [List.flatMap_cons, List.flatMap_cons,
            List.append_lt_append_iff (by rw [hwidth, hwidth]), ih, hlt, List.cons_lt_cons_iff]
          exact or_congr_right (and_congr_left fun _ => ⟨hinj x y, congrArg code⟩)

end

-- ============================================================================
-- Hexadecimal digits
-- ============================================================================

namespace Hex

/-- The lowercase digit of a value below sixteen, in ASCII. -/
def digit (n : Nat) : UInt8 := if n < 10 then UInt8.ofNat (48 + n) else UInt8.ofNat (87 + n)

/-- The value of a digit. -/
def value (digit : UInt8) : Option Nat :=
  if 48 ≤ digit.toNat ∧ digit.toNat ≤ 57 then some (digit.toNat - 48)
  else if 97 ≤ digit.toNat ∧ digit.toNat ≤ 102 then some (digit.toNat - 87)
  else none

theorem toNat_digit {n : Nat} (hn : n < 16) :
    (digit n).toNat = if n < 10 then 48 + n else 87 + n := by
  unfold digit
  split <;> rw [UInt8.toNat_ofNat'] <;> omega

/-- A digit stands for one value, and a value has one digit. -/
theorem value_eq_some {d : UInt8} {n : Nat} : value d = some n ↔ n < 16 ∧ d = digit n := by
  constructor
  · intro h
    have hn : n < 16 ∧ d.toNat = if n < 10 then 48 + n else 87 + n := by
      unfold value at h
      split_ifs at h with hdecimal hletter
      · obtain rfl := Option.some.inj h
        rw [if_pos (by omega)]
        omega
      · obtain rfl := Option.some.inj h
        rw [if_neg (by omega)]
        omega
    exact ⟨hn.1, UInt8.toNat_inj.mp (hn.2.trans (toNat_digit hn.1).symm)⟩
  · rintro ⟨hn, rfl⟩
    unfold value
    rw [toNat_digit hn]
    by_cases hdecimal : n < 10
    · rw [if_pos hdecimal, if_pos (by omega), Nat.add_sub_cancel_left]
    · rw [if_neg hdecimal, if_neg (by omega), if_pos (by omega), Nat.add_sub_cancel_left]

theorem digit_lt_iff {m n : Nat} (hm : m < 16) (hn : n < 16) : digit m < digit n ↔ m < n := by
  rw [UInt8.lt_iff_toNat_lt, toNat_digit hm, toNat_digit hn]
  split_ifs <;> omega

theorem digit_inj {m n : Nat} (hm : m < 16) (hn : n < 16) : digit m = digit n ↔ m = n := by
  rw [← UInt8.toNat_inj, toNat_digit hm, toNat_digit hn]
  split_ifs <;> omega

/-- Digits are ASCII. -/
theorem digit_lt_128 {n : Nat} (hn : n < 16) : digit n < 128 := by
  have hlimit : (128 : UInt8).toNat = 128 := rfl
  rw [UInt8.lt_iff_toNat_lt, toNat_digit hn, hlimit]
  split_ifs <;> omega

-- ============================================================================
-- Bytes
-- ============================================================================

/-- The two digits of a byte. -/
def pair (byte : UInt8) : List UInt8 := [digit (byte.toNat / 16), digit (byte.toNat % 16)]

/-- The text of some bytes. -/
def encode (bytes : List UInt8) : List UInt8 := bytes.flatMap pair

theorem high_lt (byte : UInt8) : byte.toNat / 16 < 16 := by
  have := byte.toNat_lt
  omega

theorem low_lt (byte : UInt8) : byte.toNat % 16 < 16 := Nat.mod_lt _ (by omega)

theorem pair_inj {a b : UInt8} (h : pair a = pair b) : a = b := by
  simp only [pair, List.cons.injEq, and_true, digit_inj (high_lt a) (high_lt b),
    digit_inj (low_lt a) (low_lt b)] at h
  exact UInt8.toNat_inj.mp (by omega)

theorem pair_lt_iff (a b : UInt8) : pair a < pair b ↔ a < b := by
  simp only [pair, List.cons_lt_cons_iff, List.not_lt_nil, and_false, or_false,
    digit_lt_iff (high_lt a) (high_lt b), digit_lt_iff (low_lt a) (low_lt b),
    digit_inj (high_lt a) (high_lt b), UInt8.lt_iff_toNat_lt]
  omega

theorem length_encode (bytes : List UInt8) : (encode bytes).length = bytes.length * 2 :=
  length_flatMap_block (show ∀ a, (pair a).length = 2 from fun _ => rfl) bytes

/-- Texts compare as the bytes do. -/
theorem encode_lt_iff {xs ys : List UInt8} : encode xs < encode ys ↔ xs < ys :=
  flatMap_lt_iff (Nat.succ_pos 1) (fun _ => rfl) (fun _ _ => pair_inj) pair_lt_iff

theorem encode_cons (byte : UInt8) (bytes : List UInt8) :
    encode (byte :: bytes) = pair byte ++ encode bytes := rfl

/-- The bytes of a text, two digits at a time. -/
def decode : List UInt8 → Option (List UInt8)
  | [] => some []
  | [_] => none
  | high :: low :: rest => do
      let m ← value high
      let n ← value low
      let bytes ← decode rest
      return UInt8.ofNat (m * 16 + n) :: bytes

theorem pair_ofNat {m n : Nat} (hm : m < 16) (hn : n < 16) :
    pair (UInt8.ofNat (m * 16 + n)) = [digit m, digit n] := by
  have hbyte : (UInt8.ofNat (m * 16 + n)).toNat = m * 16 + n := by
    rw [UInt8.toNat_ofNat']
    omega
  rw [pair, hbyte, show (m * 16 + n) / 16 = m by omega, show (m * 16 + n) % 16 = n by omega]

theorem ofNat_halves (byte : UInt8) :
    UInt8.ofNat (byte.toNat / 16 * 16 + byte.toNat % 16) = byte := by
  rw [Nat.div_add_mod', UInt8.ofNat_toNat]

/-- A text is read as the bytes whose text it is, and as no others. -/
theorem decode_eq_some {text bytes : List UInt8} :
    decode text = some bytes ↔ text = encode bytes := by
  induction text using decode.induct generalizing bytes with
  | case1 =>
      cases bytes with
      | nil => simp [decode, encode]
      | cons => simp [decode, encode_cons, pair]
  | case2 digit =>
      cases bytes with
      | nil => simp [decode, encode]
      | cons => simp [decode, encode_cons, pair]
  | case3 high low rest ih =>
      simp only [decode, Option.bind_eq_bind, Option.bind_eq_some_iff, Option.pure_def,
        Option.some.injEq]
      constructor
      · rintro ⟨m, hm, n, hn, bytes, hrest, rfl⟩
        obtain ⟨hhigh, rfl⟩ := value_eq_some.mp hm
        obtain ⟨hlow, rfl⟩ := value_eq_some.mp hn
        rw [encode_cons, pair_ofNat hhigh hlow, ih.mp hrest]
        rfl
      · intro h
        cases bytes with
        | nil => cases h
        | cons byte bytes =>
            simp only [encode_cons, pair, List.cons_append, List.nil_append, List.cons.injEq] at h
            obtain ⟨rfl, rfl, hrest⟩ := h
            exact ⟨_, value_eq_some.mpr ⟨high_lt byte, rfl⟩, _,
              value_eq_some.mpr ⟨low_lt byte, rfl⟩, bytes, ih.mpr hrest,
              congrArg (· :: bytes) (ofNat_halves byte)⟩

/-- Bytes are told apart by their texts. -/
theorem encode_injective : Function.Injective encode := by
  intro xs ys h
  exact Option.some.inj ((decode_eq_some.mpr rfl).symm.trans (decode_eq_some.mpr h))

/-- A text of even length is read, unless one of its characters is no digit. -/
theorem isSome_decode {text : List UInt8} (hlength : text.length % 2 = 0) :
    (decode text).isSome = true ↔ ∀ d ∈ text, (value d).isSome = true := by
  induction text using decode.induct with
  | case1 => simp [decode]
  | case2 digit => simp at hlength
  | case3 high low rest ih =>
      have hrest := ih (by rw [List.length_cons, List.length_cons] at hlength; omega)
      simp only [decode, List.forall_mem_cons, ← hrest]
      cases value high <;> cases value low <;> cases decode rest <;> simp

end Hex
