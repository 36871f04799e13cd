/-
  GenesisRuntime.Lib.Json

  JSON values as data: the tree `serde_json::Value` is made of, with the number
  classes it distinguishes.  An object is a list of entries, so that one type
  serves both a parsed map and a presentation of it in some order; lookups take
  the first entry of a name.

  `Serialize` is the one operation the development needs of a serializer: the
  value a Rust type is turned into.
-/

import Mathlib.Data.List.Basic
import Mathlib.Data.List.Forall2
import Mathlib.Data.List.Nodup

/-- The number classes of `serde_json::Number`. A float is kept as its bits. -/
inductive JsonNumber where
  | posInt (n : Nat)
  | negInt (n : Int)
  | float (bits : UInt64)
deriving DecidableEq

/-- A JSON value. -/
inductive Json where
  | null
  | bool (b : Bool)
  | number (n : JsonNumber)
  | string (s : String)
  | array (values : List Json)
  | object (entries : List (String × Json))

namespace Json

/-- The value of the first entry named `name`. -/
def lookup (name : String) : List (String × Json) → Option Json
  | [] => none
  | (key, value) :: rest => if key = name then some value else lookup name rest

@[simp] theorem lookup_nil (name : String) : lookup name [] = none := rfl

theorem lookup_cons (name key : String) (value : Json) (rest : List (String × Json)) :
    lookup name ((key, value) :: rest)
      = if key = name then some value else lookup name rest := rfl

theorem lookup_eq_none_iff {name : String} {entries : List (String × Json)} :
    lookup name entries = none ↔ name ∉ entries.map Prod.fst := by
  induction entries with
  | nil => simp
  | cons entry rest ih =>
      obtain ⟨key, value⟩ := entry
      by_cases h : key = name
      · simp [lookup_cons, h]
      · simp [lookup_cons, h, ih, Ne.symm h]

theorem mem_of_lookup {name : String} {value : Json} {entries : List (String × Json)}
    (h : lookup name entries = some value) : (name, value) ∈ entries := by
  induction entries with
  | nil => simp at h
  | cons entry rest ih =>
      obtain ⟨key, v⟩ := entry
      rw [lookup_cons] at h
      split at h
      · rename_i hk
        cases h
        simp [hk]
      · exact List.mem_cons_of_mem _ (ih h)

/-- With distinct names, every entry is the one its name finds. -/
theorem lookup_of_mem {name : String} {value : Json} {entries : List (String × Json)}
    (hnd : (entries.map Prod.fst).Nodup) (h : (name, value) ∈ entries) :
    lookup name entries = some value := by
  induction entries with
  | nil => simp at h
  | cons entry rest ih =>
      obtain ⟨key, v⟩ := entry
      simp only [List.map_cons, List.nodup_cons] at hnd
      rw [lookup_cons]
      rcases List.mem_cons.mp h with heq | hmem
      · cases heq
        simp
      · have hne : key ≠ name := by
          rintro rfl
          exact hnd.1 (List.mem_map.mpr ⟨_, hmem, rfl⟩)
        rw [if_neg hne]
        exact ih hnd.2 hmem

/-- Lookups do not see the order of entries with distinct names. -/
theorem lookup_perm {name : String} {es es' : List (String × Json)}
    (hnd : (es.map Prod.fst).Nodup) (hp : es.Perm es') :
    lookup name es = lookup name es' := by
  have hnd' : (es'.map Prod.fst).Nodup := (hp.map Prod.fst).nodup_iff.mp hnd
  cases h : lookup name es with
  | none =>
      rw [lookup_eq_none_iff] at h
      refine (lookup_eq_none_iff.mpr ?_).symm
      exact fun hm => h ((hp.map Prod.fst).mem_iff.mpr hm)
  | some v => exact (lookup_of_mem hnd' (hp.mem_iff.mp (mem_of_lookup h))).symm

theorem lookup_map_snd (f : Json → Json) (name : String) (es : List (String × Json)) :
    lookup name (es.map fun e => (e.1, f e.2)) = (lookup name es).map f := by
  induction es with
  | nil => rfl
  | cons entry rest ih =>
      obtain ⟨key, v⟩ := entry
      simp only [List.map_cons, lookup_cons, ih]
      split <;> rfl

/-- Dropping the entries of another name does not touch a lookup. -/
theorem lookup_filter_ne {name other : String} (h : name ≠ other) (es : List (String × Json)) :
    lookup name (es.filter fun entry => entry.1 ≠ other) = lookup name es := by
  induction es with
  | nil => rfl
  | cons entry rest ih =>
      obtain ⟨key, v⟩ := entry
      by_cases hkey : key = other
      · have hne : key ≠ name := fun heq => h (heq.symm.trans hkey)
        rw [List.filter_cons_of_neg (by simpa using hkey), ih, lookup_cons, if_neg hne]
      · rw [List.filter_cons_of_pos (by simpa using hkey), lookup_cons, lookup_cons, ih]

/-- A lookup sees the entries of its name only, in their order. -/
theorem lookup_filter_eq (name : String) (es : List (String × Json)) :
    lookup name (es.filter fun entry => entry.1 = name) = lookup name es := by
  induction es with
  | nil => rfl
  | cons entry rest ih =>
      obtain ⟨key, v⟩ := entry
      by_cases hkey : key = name
      · rw [List.filter_cons_of_pos (by simpa using hkey), lookup_cons, lookup_cons, if_pos hkey,
          if_pos hkey]
      · rw [List.filter_cons_of_neg (by simpa using hkey), ih, lookup_cons, if_neg hkey]

/-- The presentations of an object with distinct names, by the lookups they answer. -/
theorem perm_iff_lookup {es es' : List (String × Json)} (hnd : (es.map Prod.fst).Nodup) :
    es.Perm es' ↔ (es'.map Prod.fst).Nodup ∧
      (∀ name ∈ es'.map Prod.fst, name ∈ es.map Prod.fst) ∧
      ∀ entry ∈ es, lookup entry.1 es' = some entry.2 := by
  constructor
  · intro hperm
    have hnames := hperm.map Prod.fst
    have hnd' := hnames.nodup_iff.mp hnd
    exact ⟨hnd', fun name hmem => hnames.mem_iff.mpr hmem,
      fun entry hmem => lookup_of_mem hnd' (hperm.mem_iff.mp hmem)⟩
  · rintro ⟨hnd', hnames, hlookup⟩
    refine (List.perm_ext_iff_of_nodup (List.Nodup.of_map _ hnd) (List.Nodup.of_map _ hnd')).mpr ?_
    rintro ⟨name, value⟩
    constructor
    · intro hmem
      exact mem_of_lookup (hlookup _ hmem)
    · intro hmem
      obtain ⟨⟨name', value'⟩, hmem', rfl⟩ :=
        List.mem_map.mp (hnames name (List.mem_map.mpr ⟨_, hmem, rfl⟩))
      have hvalue : some value = some value' := by
        rw [← lookup_of_mem hnd' hmem]
        exact hlookup _ hmem'
      rw [Option.some.inj hvalue]
      exact hmem'

/-- The member `name` of an object; other values have no members. -/
def get? (name : String) : Json → Option Json
  | object entries => lookup name entries
  | _ => none

def asString? : Json → Option String
  | string s => some s
  | _ => none

def asArray? : Json → Option (List Json)
  | array values => some values
  | _ => none

def asObject? : Json → Option (List (String × Json))
  | object entries => some entries
  | _ => none

def isBool : Json → Bool
  | bool _ => true
  | _ => false

def isFalse : Json → Bool
  | bool false => true
  | _ => false

/-- The values in an object are smaller than the object. -/
theorem sizeOf_snd_lt_of_mem {entry : String × Json} {entries : List (String × Json)}
    (h : entry ∈ entries) : sizeOf entry.2 < sizeOf entries := by
  rcases entry with ⟨name, value⟩
  have hmem := List.sizeOf_lt_of_mem h
  rw [Prod.mk.sizeOf_spec] at hmem
  dsimp only
  omega

/-- And so are the values in an object that is one of its values. -/
theorem sizeOf_snd_lt_of_mem_object {name : String} {members entries : List (String × Json)}
    {member : String × Json} (h : (name, object members) ∈ entries) (hmember : member ∈ members) :
    sizeOf member.2 < sizeOf (object entries) := by
  have houter := sizeOf_snd_lt_of_mem h
  have hinner := sizeOf_snd_lt_of_mem hmember
  simp only [object.sizeOf_spec] at houter ⊢
  omega

end Json

/-- The JSON value a type serializes to (`serde_json::to_value`). -/
class Serialize (α : Type) where
  toValue : α → Except String Json

export Serialize (toValue)

/-- A struct: its fields in declaration order, failing with the first field
    that fails. -/
def structValue (fields : List (String × Except String Json)) : Except String Json := do
  let entries ← fields.mapM fun field => return (field.1, ← field.2)
  return .object entries

instance : Serialize String := ⟨fun s => .ok (.string s)⟩
instance : Serialize UInt8 := ⟨fun n => .ok (.number (.posInt n.toNat))⟩
instance : Serialize UInt32 := ⟨fun n => .ok (.number (.posInt n.toNat))⟩
instance : Serialize UInt64 := ⟨fun n => .ok (.number (.posInt n.toNat))⟩
instance : Serialize Json := ⟨.ok⟩
instance {α : Type} [Serialize α] : Serialize (Option α) :=
  ⟨fun | none => .ok .null | some a => toValue a⟩
instance {α : Type} [Serialize α] : Serialize (List α) :=
  ⟨fun xs => return .array (← xs.mapM toValue)⟩
instance {α β : Type} [Serialize α] [Serialize β] : Serialize (α × β) :=
  ⟨fun p => return .array [← toValue p.1, ← toValue p.2]⟩
