/-
  GenesisRuntime.Lib.JsonText

  The compact text of a JSON value, and the proof that different values have
  different texts.

  Each piece of the grammar is shown to be readable off the front of any longer
  text: what was written, and what follows it, are both determined.  A number is
  only so where no further digit follows, as is the case everywhere inside a value.
  The decimal text of a float is left out; its bits stand for it, behind a mark.
-/

import GenesisRuntime.Lib.Json
import Mathlib.Data.Char

namespace Json

-- ============================================================================
-- The writer
-- ============================================================================

/-- The escapes that have a letter of their own. -/
def letterEscapes : List (Char × Char) :=
  [('"', '"'), ('\\', '\\'), ('\x08', 'b'), ('\x0c', 'f'), ('\n', 'n'), ('\r', 'r'), ('\t', 't')]

/-- A character inside a string. -/
def writeChar (c : Char) : List Char :=
  match letterEscapes.lookup c with
  | some letter => ['\\', letter]
  | none =>
      if c.toNat < 32 then
        ['\\', 'u', '0', '0', Nat.digitChar (c.toNat / 16), Nat.digitChar (c.toNat % 16)]
      else [c]

def writeString (s : String) : List Char := '"' :: (s.toList.flatMap writeChar ++ ['"'])

def writeNumber : JsonNumber → List Char
  | .posInt n => Nat.toDigits 10 n
  | .negInt (.ofNat n) => '+' :: Nat.toDigits 10 n
  | .negInt (.negSucc n) => '-' :: Nat.toDigits 10 (n + 1)
  | .float bits => '#' :: Nat.toDigits 10 bits.toNat

mutual

/-- The compact text of a value. -/
def write : Json → List Char
  | .null => ['n', 'u', 'l', 'l']
  | .bool true => ['t', 'r', 'u', 'e']
  | .bool false => ['f', 'a', 'l', 's', 'e']
  | .number n => writeNumber n
  | .string s => writeString s
  | .array values => '[' :: writeValues [] values
  | .object entries => '{' :: writeEntries [] entries

/-- The values of an array up to the closing bracket, the first one behind `sep`
    and the others behind a comma. -/
def writeValues (sep : List Char) : List Json → List Char
  | [] => [']']
  | value :: values => sep ++ (write value ++ writeValues [','] values)

/-- The entries of an object, likewise. -/
def writeEntries (sep : List Char) : List (String × Json) → List Char
  | [] => ['}']
  | (name, value) :: entries =>
      sep ++ (writeString name ++ ':' :: (write value ++ writeEntries [','] entries))

end

/-- The compact text of a value, as a string. -/
def compact (value : Json) : String := String.ofList (write value)

-- ============================================================================
-- Strings
-- ============================================================================

theorem digitChar_injective : ∀ m < 16, ∀ n < 16, Nat.digitChar m = Nat.digitChar n → m = n := by
  decide

/-- A letter stands for one character, and for none that is written in digits. -/
theorem letterEscapes_injective : ∀ p ∈ letterEscapes, ∀ q ∈ letterEscapes, p.2 = q.2 → p = q := by
  decide

theorem letter_ne_u : ∀ p ∈ letterEscapes, p.2 ≠ 'u' := by
  decide

theorem mem_letterEscapes {c letter : Char} (h : letterEscapes.lookup c = some letter) :
    (c, letter) ∈ letterEscapes := by
  obtain ⟨l₁, l₂, hsplit, -⟩ := List.lookup_eq_some_iff.mp h
  rw [hsplit]
  exact List.mem_append_right _ List.mem_cons_self

/-- The three ways a character is written. -/
inductive Written (c : Char) : List Char → Prop where
  | letter (letter : Char) (h : (c, letter) ∈ letterEscapes) : Written c ['\\', letter]
  | digits (h : c.toNat < 32) :
      Written c
        ['\\', 'u', '0', '0', Nat.digitChar (c.toNat / 16), Nat.digitChar (c.toNat % 16)]
  | plain (hquote : c ≠ '"') (hslash : c ≠ '\\') : Written c [c]

theorem writeChar_written (c : Char) : Written c (writeChar c) := by
  unfold writeChar
  split
  · rename_i letter h
    exact .letter letter (mem_letterEscapes h)
  · rename_i h
    split
    · rename_i hsmall
      exact .digits hsmall
    · have hne : ∀ p ∈ letterEscapes, c ≠ p.1 := by
        intro p hp hcp
        rw [List.lookup_eq_none_iff] at h
        simpa [hcp] using h p hp
      exact .plain (hne ('"', '"') (by decide)) (hne ('\\', '\\') (by decide))

/-- A character can be read off the front of a text. -/
theorem Written.append {c d : Char} {x y s t : List Char} (hx : Written c x) (hy : Written d y)
    (h : x ++ s = y ++ t) : c = d ∧ s = t := by
  cases hx with
  | letter a ha =>
      cases hy with
      | letter b hb =>
          simp only [List.cons_append, List.nil_append, List.cons.injEq, true_and] at h
          have hpair := letterEscapes_injective _ ha _ hb h.1
          exact ⟨congrArg Prod.fst hpair, h.2⟩
      | digits hd =>
          simp only [List.cons_append, List.nil_append, List.cons.injEq, true_and] at h
          exact absurd h.1 (letter_ne_u _ ha)
      | plain _ hslash => exact absurd (List.cons.inj h).1.symm hslash
  | digits hc =>
      cases hy with
      | letter b hb =>
          simp only [List.cons_append, List.nil_append, List.cons.injEq, true_and] at h
          exact absurd h.1.symm (letter_ne_u _ hb)
      | digits hd =>
          simp only [List.cons_append, List.nil_append, List.cons.injEq, true_and] at h
          have hdiv := digitChar_injective _ (by omega) _ (by omega) h.1
          have hmod := digitChar_injective _ (by omega) _ (by omega) h.2.1
          have hcd : c.toNat = d.toNat := by omega
          exact ⟨Char.toNat_inj.mp hcd, h.2.2⟩
      | plain _ hslash => exact absurd (List.cons.inj h).1.symm hslash
  | plain _ hslash =>
      cases hy with
      | letter b hb => exact absurd (List.cons.inj h).1 hslash
      | digits hd => exact absurd (List.cons.inj h).1 hslash
      | plain => exact ⟨(List.cons.inj h).1, (List.cons.inj h).2⟩

theorem writeChar_append {c d : Char} {s t : List Char}
    (h : writeChar c ++ s = writeChar d ++ t) : c = d ∧ s = t :=
  (writeChar_written c).append (writeChar_written d) h

theorem writeChar_ne_quote {c : Char} {s t : List Char} : writeChar c ++ s ≠ '"' :: t := by
  intro h
  have hwritten := writeChar_written c
  generalize writeChar c = x at h hwritten
  cases hwritten with
  | letter => exact absurd (List.cons.inj h).1 (by decide)
  | digits => exact absurd (List.cons.inj h).1 (by decide)
  | plain hquote => exact hquote (List.cons.inj h).1

theorem writeChars_append {cs ds s t : List Char}
    (h : cs.flatMap writeChar ++ '"' :: s = ds.flatMap writeChar ++ '"' :: t) :
    cs = ds ∧ s = t := by
  induction cs generalizing ds with
  | nil =>
      cases ds with
      | nil => exact ⟨rfl, (List.cons.inj h).2⟩
      | cons d ds =>
          rw [List.flatMap_cons, List.append_assoc] at h
          exact absurd h.symm writeChar_ne_quote
  | cons c cs ih =>
      cases ds with
      | nil =>
          rw [List.flatMap_cons, List.append_assoc] at h
          exact absurd h writeChar_ne_quote
      | cons d ds =>
          rw [List.flatMap_cons, List.flatMap_cons, List.append_assoc, List.append_assoc] at h
          obtain ⟨rfl, hrest⟩ := writeChar_append h
          obtain ⟨rfl, rfl⟩ := ih hrest
          exact ⟨rfl, rfl⟩

theorem writeString_append {a b : String} {s t : List Char}
    (h : writeString a ++ s = writeString b ++ t) : a = b ∧ s = t := by
  simp only [writeString, List.cons_append, List.append_assoc, List.cons.injEq, true_and,
    List.nil_append] at h
  obtain ⟨hchars, rfl⟩ := writeChars_append h
  exact ⟨String.toList_inj.mp hchars, rfl⟩

-- ============================================================================
-- Numbers
-- ============================================================================

/-- No digit follows. -/
def Delimited (s : List Char) : Prop := ∀ c ∈ s.head?, c.isDigit = false

theorem digits_append {a b s t : List Char} (ha : ∀ c ∈ a, c.isDigit = true)
    (hb : ∀ c ∈ b, c.isDigit = true) (hs : Delimited s) (ht : Delimited t)
    (h : a ++ s = b ++ t) : a = b ∧ s = t := by
  have htake (a s : List Char) (ha : ∀ c ∈ a, c.isDigit = true) (hs : Delimited s) :
      (a ++ s).takeWhile Char.isDigit = a := by
    rw [List.takeWhile_append_of_pos ha]
    cases s with
    | nil => simp
    | cons c s => simp [hs c rfl]
  have hab : a = b := by
    rw [← htake a s ha hs, h, htake b t hb ht]
  subst hab
  exact ⟨rfl, List.append_cancel_left h⟩

theorem toDigits_append {m n : Nat} {s t : List Char} (hs : Delimited s) (ht : Delimited t)
    (h : Nat.toDigits 10 m ++ s = Nat.toDigits 10 n ++ t) : m = n ∧ s = t := by
  have hdigits (k : Nat) : ∀ c ∈ Nat.toDigits 10 k, c.isDigit = true :=
    fun c hc => Nat.isDigit_of_mem_toDigits (by decide) (by decide) hc
  obtain ⟨heq, rfl⟩ := digits_append (hdigits m) (hdigits n) hs ht h
  have hvalue := congrArg (Nat.ofDigitChars 10 · 0) heq
  simp only [Nat.ofDigitChars_toDigits (b := 10) (by decide) (by decide)] at hvalue
  exact ⟨hvalue, rfl⟩

theorem head_toDigits (n : Nat) : ∃ c, (Nat.toDigits 10 n).head? = some c ∧ c.isDigit = true := by
  cases h : Nat.toDigits 10 n with
  | nil => exact absurd h (Nat.toDigits_ne_nil)
  | cons c cs =>
      refine ⟨c, rfl, Nat.isDigit_of_mem_toDigits (b := 10) (n := n) (by decide) (by decide) ?_⟩
      rw [h]
      exact List.mem_cons_self

theorem writeNumber_append {m n : JsonNumber} {s t : List Char} (hs : Delimited s)
    (ht : Delimited t) (h : writeNumber m ++ s = writeNumber n ++ t) : m = n ∧ s = t := by
  have hmark (mark : Char) (hdigit : mark.isDigit = false) (n : Nat) (s t : List Char) :
      Nat.toDigits 10 n ++ s ≠ mark :: t := by
    intro h
    obtain ⟨c, hc, hcdigit⟩ := head_toDigits n
    have hhead := congrArg List.head? h
    rw [List.head?_append, hc] at hhead
    obtain rfl : c = mark := Option.some.inj hhead
    rw [hcdigit] at hdigit
    cases hdigit
  rcases m with m | (m | m) | m <;> rcases n with n | (n | n) | n <;>
    simp only [writeNumber, List.cons_append, List.cons.injEq, true_and] at h
  case posInt.posInt =>
    obtain ⟨rfl, rfl⟩ := toDigits_append hs ht h
    exact ⟨rfl, rfl⟩
  case negInt.ofNat.negInt.ofNat =>
    obtain ⟨rfl, rfl⟩ := toDigits_append hs ht h
    exact ⟨rfl, rfl⟩
  case negInt.negSucc.negInt.negSucc =>
    obtain ⟨heq, rfl⟩ := toDigits_append hs ht h
    obtain rfl : m = n := by omega
    exact ⟨rfl, rfl⟩
  case float.float =>
    obtain ⟨heq, rfl⟩ := toDigits_append hs ht h
    obtain rfl : m = n := UInt64.toNat_inj.mp heq
    exact ⟨rfl, rfl⟩
  case posInt.negInt.ofNat => exact absurd h (hmark '+' (by decide) _ _ _)
  case posInt.negInt.negSucc => exact absurd h (hmark '-' (by decide) _ _ _)
  case posInt.float => exact absurd h (hmark '#' (by decide) _ _ _)
  case negInt.ofNat.posInt => exact absurd h.symm (hmark '+' (by decide) _ _ _)
  case negInt.negSucc.posInt => exact absurd h.symm (hmark '-' (by decide) _ _ _)
  case float.posInt => exact absurd h.symm (hmark '#' (by decide) _ _ _)
  all_goals exact absurd h.1 (by decide)

-- ============================================================================
-- Values
-- ============================================================================

/-- What the first character of a text says about the value. -/
def leadOf (c : Char) : Char :=
  if c.isDigit ∨ c = '+' ∨ c = '-' ∨ c = '#' then '0' else c

def lead : Json → Char
  | .null => 'n'
  | .bool true => 't'
  | .bool false => 'f'
  | .number _ => '0'
  | .string _ => '"'
  | .array _ => '['
  | .object _ => '{'

theorem head_write (v : Json) : ∃ c, (write v).head? = some c ∧ leadOf c = lead v := by
  cases v with
  | null => exact ⟨'n', by rw [write]; rfl, by decide⟩
  | bool b =>
      cases b with
      | true => exact ⟨'t', by rw [write]; rfl, by decide⟩
      | false => exact ⟨'f', by rw [write]; rfl, by decide⟩
  | number n =>
      rw [write]
      rcases n with n | (n | n) | n
      · obtain ⟨c, hc, hdigit⟩ := head_toDigits n
        exact ⟨c, hc, if_pos (.inl hdigit)⟩
      · exact ⟨'+', rfl, rfl⟩
      · exact ⟨'-', rfl, rfl⟩
      · exact ⟨'#', rfl, rfl⟩
  | string s => exact ⟨'"', by rw [write]; rfl, rfl⟩
  | array values => exact ⟨'[', by rw [write]; rfl, rfl⟩
  | object entries => exact ⟨'{', by rw [write]; rfl, rfl⟩

theorem lead_eq {v w : Json} {s t : List Char} (h : write v ++ s = write w ++ t) :
    lead v = lead w := by
  obtain ⟨c, hc, hv⟩ := head_write v
  obtain ⟨d, hd, hw⟩ := head_write w
  have hhead := congrArg List.head? h
  rw [List.head?_append, List.head?_append, hc, hd] at hhead
  obtain rfl : c = d := Option.some.inj hhead
  rw [← hv, hw]

/-- No value begins with a closing bracket. -/
theorem write_ne_close {v : Json} {close : Char} {s t : List Char}
    (hclose : close = ']' ∨ close = '}') : write v ++ s ≠ close :: t := by
  intro h
  obtain ⟨c, hc, hlead⟩ := head_write v
  have hhead := congrArg List.head? h
  rw [List.head?_append, hc] at hhead
  obtain rfl : c = close := Option.some.inj hhead
  rcases hclose with rfl | rfl
  · have hne : lead v ≠ leadOf ']' := by
      rcases v with _ | (_ | _) | _ | _ | _ | _ <;> exact of_decide_eq_false rfl
    exact hne hlead.symm
  · have hne : lead v ≠ leadOf '}' := by
      rcases v with _ | (_ | _) | _ | _ | _ | _ <;> exact of_decide_eq_false rfl
    exact hne hlead.symm

/-- Between two values of an array or two entries of an object. -/
def IsSeparator (sep : List Char) : Prop := sep = [] ∨ sep = [',']

theorem delimited_writeValues (values : List Json) (s : List Char) :
    Delimited (writeValues [','] values ++ s) := by
  intro c hc
  cases values with
  | nil =>
      rw [writeValues] at hc
      cases hc
      decide
  | cons value values =>
      rw [writeValues] at hc
      cases hc
      decide

theorem delimited_writeEntries (entries : List (String × Json)) (s : List Char) :
    Delimited (writeEntries [','] entries ++ s) := by
  intro c hc
  cases entries with
  | nil =>
      rw [writeEntries] at hc
      cases hc
      decide
  | cons entry entries =>
      rw [writeEntries] at hc
      cases hc
      decide

mutual

/-- A value can be read off the front of a text. -/
theorem write_append (v w : Json) {s t : List Char} (hs : Delimited s) (ht : Delimited t)
    (h : write v ++ s = write w ++ t) : v = w ∧ s = t := by
  have hlead := lead_eq h
  match v, w, hlead with
  | .null, .null, _ => exact ⟨rfl, List.append_cancel_left h⟩
  | .bool true, .bool true, _ => exact ⟨rfl, List.append_cancel_left h⟩
  | .bool false, .bool false, _ => exact ⟨rfl, List.append_cancel_left h⟩
  | .number m, .number n, _ =>
      rw [write, write] at h
      obtain ⟨rfl, rfl⟩ := writeNumber_append hs ht h
      exact ⟨rfl, rfl⟩
  | .string a, .string b, _ =>
      rw [write, write] at h
      obtain ⟨rfl, rfl⟩ := writeString_append h
      exact ⟨rfl, rfl⟩
  | .array vs, .array ws, _ =>
      rw [write, write] at h
      obtain ⟨rfl, rfl⟩ := writeValues_append (.inl rfl) vs ws (List.cons.inj h).2
      exact ⟨rfl, rfl⟩
  | .object es, .object fs, _ =>
      rw [write, write] at h
      obtain ⟨rfl, rfl⟩ := writeEntries_append (.inl rfl) es fs (List.cons.inj h).2
      exact ⟨rfl, rfl⟩
termination_by sizeOf v

theorem writeValues_append {sep : List Char} (hsep : IsSeparator sep) (vs ws : List Json)
    {s t : List Char} (h : writeValues sep vs ++ s = writeValues sep ws ++ t) :
    vs = ws ∧ s = t := by
  have hclose (w : Json) (rest s t : List Char) :
      sep ++ (write w ++ rest) ++ t ≠ ']' :: s := by
    rcases hsep with rfl | rfl
    · rw [List.nil_append, List.append_assoc]
      exact write_ne_close (.inl rfl)
    · intro h
      exact absurd (List.cons.inj h).1 (by decide)
  match vs, ws with
  | [], [] =>
      rw [writeValues] at h
      exact ⟨rfl, (List.cons.inj h).2⟩
  | [], w :: ws =>
      rw [writeValues, writeValues] at h
      exact absurd h.symm (hclose w _ _ _)
  | v :: vs, [] =>
      rw [writeValues, writeValues] at h
      exact absurd h (hclose v _ _ _)
  | v :: vs, w :: ws =>
      rw [writeValues, writeValues] at h
      simp only [List.append_assoc, List.append_cancel_left_eq] at h
      obtain ⟨rfl, hrest⟩ := write_append v w (delimited_writeValues _ _)
        (delimited_writeValues _ _) h
      obtain ⟨rfl, rfl⟩ := writeValues_append (.inr rfl) vs ws hrest
      exact ⟨rfl, rfl⟩
termination_by sizeOf vs

theorem writeEntries_append {sep : List Char} (hsep : IsSeparator sep)
    (es fs : List (String × Json)) {s t : List Char}
    (h : writeEntries sep es ++ s = writeEntries sep fs ++ t) : es = fs ∧ s = t := by
  have hclose (name : String) (rest s t : List Char) :
      sep ++ (writeString name ++ rest) ++ t ≠ '}' :: s := by
    rcases hsep with rfl | rfl <;>
      · intro h
        exact absurd (List.cons.inj h).1 (by decide)
  match es, fs with
  | [], [] =>
      rw [writeEntries] at h
      exact ⟨rfl, (List.cons.inj h).2⟩
  | [], (name, w) :: fs =>
      rw [writeEntries, writeEntries] at h
      exact absurd h.symm (hclose name _ _ _)
  | (name, v) :: es, [] =>
      rw [writeEntries, writeEntries] at h
      exact absurd h (hclose name _ _ _)
  | (name, v) :: es, (name', w) :: fs =>
      rw [writeEntries, writeEntries] at h
      simp only [List.append_assoc, List.append_cancel_left_eq, List.cons_append] at h
      obtain ⟨rfl, hvalue⟩ := writeString_append h
      obtain ⟨rfl, hrest⟩ := write_append v w (delimited_writeEntries _ _)
        (delimited_writeEntries _ _) (List.cons.inj hvalue).2
      obtain ⟨rfl, rfl⟩ := writeEntries_append (.inr rfl) es fs hrest
      exact ⟨rfl, rfl⟩
termination_by sizeOf es

end

/-- Different values have different texts. -/
theorem compact_injective : Function.Injective compact := by
  intro v w h
  have hwrite : write v = write w := String.ofList_injective h
  have hnil : Delimited [] := by
    intro c hc
    cases hc
  have happend : write v ++ [] = write w ++ [] := by
    rw [hwrite]
  exact (write_append v w hnil hnil happend).1

end Json
