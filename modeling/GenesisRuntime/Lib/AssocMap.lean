/-
  GenesisRuntime.Lib.AssocMap

  Look-ups in finite maps whose values do not depend on the key, with the key in
  question left to a case distinction.
-/

import Mathlib.Data.List.AList

namespace AList

variable {κ ν : Type} [DecidableEq κ]

theorem lookup_insert_ite (key : κ) (value : ν) (map : AList fun _ : κ => ν) (k : κ) :
    (map.insert key value).lookup k = if k = key then some value else map.lookup k := by
  split
  · rename_i h
    subst h
    exact lookup_insert _
  · rename_i h
    exact lookup_insert_ne h

theorem lookup_singleton_ite (key : κ) (value : ν) (k : κ) :
    (singleton key value : AList fun _ : κ => ν).lookup k
      = if k = key then some value else none := by
  rw [← insert_empty, lookup_insert_ite, lookup_empty]

theorem mem_iff_lookup {map : AList fun _ : κ => ν} {k : κ} :
    k ∈ map ↔ ∃ value, map.lookup k = some value := by
  rw [← lookup_isSome, Option.isSome_iff_exists]

theorem mem_of_lookup {map : AList fun _ : κ => ν} {k : κ} {value : ν}
    (h : map.lookup k = some value) : k ∈ map :=
  mem_iff_lookup.mpr ⟨value, h⟩

/-- Change every value in place. -/
def mapValues (f : ν → ν) (map : AList fun _ : κ => ν) : AList fun _ : κ => ν where
  entries := map.entries.map fun entry => ⟨entry.1, f entry.2⟩
  nodupKeys := by
    have hkeys : (map.entries.map fun entry => (⟨entry.1, f entry.2⟩ : Sigma fun _ : κ => ν)).keys
        = map.entries.keys := by simp [List.keys]
    rw [List.NodupKeys, hkeys]
    exact map.nodupKeys

theorem lookup_mapValues (f : ν → ν) (map : AList fun _ : κ => ν) (k : κ) :
    (map.mapValues f).lookup k = (map.lookup k).map f := by
  have hentries (entries : List (Sigma fun _ : κ => ν)) :
      (entries.map fun entry => (⟨entry.1, f entry.2⟩ : Sigma fun _ : κ => ν)).dlookup k
        = (entries.dlookup k).map f := by
    induction entries with
    | nil => rfl
    | cons entry entries ih =>
        obtain ⟨key, value⟩ := entry
        by_cases h : k = key
        · subst h
          simp
        · rw [List.map_cons, List.dlookup_cons_ne _ _ h, List.dlookup_cons_ne _ _ h, ih]
  exact hentries map.entries

end AList
