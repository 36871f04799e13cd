/-
  GenesisRuntime.Lib.JsonOrder

  JSON values up to the order of object members.  A parsed object has its members in
  some order, without repeated names; `Reordered` is the equality under which that
  order does not count, at any depth, while the order in an array does.
-/

import GenesisRuntime.Lib.Json
import Mathlib.Data.List.Perm.Basic

namespace Json

/-- Induction on the values that an array or an object is made of. -/
@[induction_eliminator]
theorem inductionOn {motive : Json → Prop} (value : Json) (null : motive .null)
    (bool : ∀ b, motive (.bool b)) (number : ∀ n, motive (.number n))
    (string : ∀ s, motive (.string s))
    (array : ∀ values, (∀ value ∈ values, motive value) → motive (.array values))
    (object : ∀ entries, (∀ entry ∈ entries, motive entry.2) → motive (.object entries)) :
    motive value := by
  induction hsize : sizeOf value using Nat.strongRecOn generalizing value with
  | _ n ih =>
  subst hsize
  cases value with
  | null => exact null
  | bool b => exact bool b
  | number n => exact number n
  | string s => exact string s
  | array values =>
      refine array values fun value hvalue => ih _ ?_ value rfl
      have hlt := List.sizeOf_lt_of_mem hvalue
      simp only [Json.array.sizeOf_spec]
      omega
  | object entries =>
      refine object entries fun entry hentry => ih _ ?_ entry.2 rfl
      have hlt := sizeOf_snd_lt_of_mem hentry
      simp only [Json.object.sizeOf_spec]
      omega

/-- No object in the value has two members of one name. -/
inductive DistinctNames : Json → Prop where
  | null : DistinctNames .null
  | bool (b : Bool) : DistinctNames (.bool b)
  | number (n : JsonNumber) : DistinctNames (.number n)
  | string (s : String) : DistinctNames (.string s)
  | array (values : List Json) (hvalues : ∀ value ∈ values, DistinctNames value) :
      DistinctNames (.array values)
  | object (entries : List (String × Json)) (hnodup : (entries.map Prod.fst).Nodup)
      (hentries : ∀ entry ∈ entries, DistinctNames entry.2) : DistinctNames (.object entries)

/-- Equal up to the order of object members: the members of two objects can be brought into
    orders in which they agree, name by name and value by value. -/
inductive Reordered : Json → Json → Prop where
  | null : Reordered .null .null
  | bool (b : Bool) : Reordered (.bool b) (.bool b)
  | number (n : JsonNumber) : Reordered (.number n) (.number n)
  | string (s : String) : Reordered (.string s) (.string s)
  | array {values values' : List Json} (hlength : values.length = values'.length)
      (hvalues : ∀ i (hi : i < values.length) (hi' : i < values'.length),
        Reordered values[i] values'[i]) :
      Reordered (.array values) (.array values')
  | object {entries entries' ordered ordered' : List (String × Json)}
      (hperm : entries.Perm ordered) (hperm' : entries'.Perm ordered')
      (hnames : ordered.map Prod.fst = ordered'.map Prod.fst)
      (hvalues : ∀ i (hi : i < ordered.length) (hi' : i < ordered'.length),
        Reordered ordered[i].2 ordered'[i].2) :
      Reordered (.object entries) (.object entries')

end Json
