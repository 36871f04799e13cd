/-
  GenesisRuntime.Lib.PrefixCode

  Prefix-free codes: encodings that can be told off the front of any longer list, so
  that no code is the beginning of another.  Codes of one width are prefix-free; one
  after the other they stay so, and a list becomes prefix-free behind a code of its
  length.
-/

import Mathlib.Data.List.Basic
import Mathlib.Data.Set.Function

section
variable {α α' β : Type}

/-- The codes of the values in `s` determine their values and where they end. -/
def PrefixFreeOn (s : Set α) (code : α → List β) : Prop :=
  ∀ a ∈ s, ∀ b ∈ s, ∀ xs ys, code a ++ xs = code b ++ ys → a = b ∧ xs = ys

namespace PrefixFreeOn

variable {s : Set α} {t : Set α'} {code : α → List β} {code' : α' → List β}

/-- A code that begins with another is the same code, of the same value. -/
theorem eq_of_prefix (h : PrefixFreeOn s code) {a b : α} (ha : a ∈ s) (hb : b ∈ s)
    (hfront : code a <+: code b) : a = b := by
  obtain ⟨rest, hrest⟩ := hfront
  exact (h a ha b hb rest [] (by rw [hrest, List.append_nil])).1

theorem mono {s' : Set α} (h : PrefixFreeOn s code) (hsub : s' ⊆ s) : PrefixFreeOn s' code :=
  fun a ha b hb => h a (hsub ha) b (hsub hb)

/-- Codes of one width. -/
theorem of_length {width : Nat} (hlength : ∀ a, (code a).length = width) (hinj : s.InjOn code) :
    PrefixFreeOn s code := by
  intro a ha b hb xs ys h
  obtain ⟨hcode, hrest⟩ := List.append_inj h (by rw [hlength, hlength])
  exact ⟨hinj ha hb hcode, hrest⟩

/-- One code after the other. -/
theorem append (h : PrefixFreeOn s code) (h' : PrefixFreeOn t code') :
    PrefixFreeOn (s ×ˢ t) fun pair => code pair.1 ++ code' pair.2 := by
  rintro ⟨a, a'⟩ ⟨ha, ha'⟩ ⟨b, b'⟩ ⟨hb, hb'⟩ xs ys heq
  simp only [List.append_assoc] at heq
  obtain ⟨rfl, hrest⟩ := h a ha b hb _ _ heq
  obtain ⟨rfl, hrest'⟩ := h' a' ha' b' hb' xs ys hrest
  exact ⟨rfl, hrest'⟩

/-- A list behind a code of its length. -/
theorem lengthPrefixed {lengths : Set Nat} {header : Nat → List β}
    (h : PrefixFreeOn lengths header) :
    PrefixFreeOn {items : List β | items.length ∈ lengths}
      fun items => header items.length ++ items := by
  intro items hitems items' hitems' xs ys heq
  rw [List.append_assoc, List.append_assoc] at heq
  obtain ⟨hlength, hrest⟩ := h _ hitems _ hitems' _ _ heq
  exact List.append_inj hrest hlength

/-- Values that are told apart by what is encoded of them. -/
theorem comp {f : α' → α} (h : PrefixFreeOn s code) (hf : Function.Injective f) :
    PrefixFreeOn (Set.preimage f s) fun a => code (f a) := by
  intro a ha b hb xs ys heq
  obtain ⟨hvalue, hrest⟩ := h _ ha _ hb xs ys heq
  exact ⟨hf hvalue, hrest⟩

end PrefixFreeOn

end
