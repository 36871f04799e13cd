/-
  GenesisRuntime.Digest.Reordering

  `canonicalize_json` is a canonical form: it is idempotent, and it identifies two
  values exactly when they are equal up to the order of object members.
-/

import GenesisRuntime.Digest.Canonical
import GenesisRuntime.Lib.JsonOrder

namespace GenesisRuntime

open Json (DistinctNames Reordered)

-- ============================================================================
-- Idempotence
-- ============================================================================

/-- Sorting looks at the names, which rewritten members keep. -/
theorem sortEntries_map (f : Json → Json) (entries : List (String × Json)) :
    sortEntries (entries.map fun e => (e.1, f e.2))
      = (sortEntries entries).map fun e => (e.1, f e.2) :=
  (map_sortByKey (fun _ => rfl) entries).symm

theorem canonicalizeJson_idem (value : Json) :
    canonicalizeJson (canonicalizeJson value) = canonicalizeJson value := by
  induction value with
  | null | bool b | number n | string s => simp
  | array values ih =>
      rw [canonicalizeJson_array, canonicalizeJson_array, List.map_map]
      exact congrArg Json.array (List.map_congr_left ih)
  | object entries ih =>
      rw [canonicalizeJson_object, canonicalizeJson_object]
      have hsorted : sortEntries (sortEntries entries) = sortEntries entries :=
        sortByKey_idem Prod.fst entries
      rw [sortEntries_map, hsorted, List.map_map]
      refine congrArg Json.object (List.map_congr_left fun entry hentry => ?_)
      exact congrArg (Prod.mk entry.1) (ih entry (mem_sortEntries.mp hentry))

-- ============================================================================
-- Values with one canonical form
-- ============================================================================

theorem reordered_of_canonical {a b : Json} (h : canonicalizeJson a = canonicalizeJson b) :
    Reordered a b := by
  induction a generalizing b with
  | null =>
      cases b with
      | null => exact .null
      | _ => simp at h
  | bool p =>
      cases b with
      | bool q =>
          obtain rfl : p = q := by simpa using h
          exact .bool p
      | _ => simp at h
  | number n =>
      cases b with
      | number m =>
          obtain rfl : n = m := by simpa using h
          exact .number n
      | _ => simp at h
  | string s =>
      cases b with
      | string t =>
          obtain rfl : s = t := by simpa using h
          exact .string s
      | _ => simp at h
  | array values ih =>
      cases b with
      | array values' =>
          rw [canonicalizeJson_array, canonicalizeJson_array, Json.array.injEq] at h
          have hlength : values.length = values'.length := by simpa using congrArg List.length h
          refine .array hlength fun i hi hi' => ih _ (List.getElem_mem hi) ?_
          have hget := congrArg (fun rest => rest[i]?) h
          simpa [hi, hi'] using hget
      | _ => simp at h
  | object entries ih =>
      cases b with
      | object entries' =>
          rw [canonicalizeJson_object, canonicalizeJson_object, Json.object.injEq] at h
          -- sorted by name, the members agree one by one
          have hget : ∀ i (hi : i < (sortEntries entries).length)
              (hi' : i < (sortEntries entries').length),
              (sortEntries entries)[i].1 = (sortEntries entries')[i].1 ∧
              canonicalizeJson (sortEntries entries)[i].2
                = canonicalizeJson (sortEntries entries')[i].2 := by
            intro i hi hi'
            have hget := congrArg (fun rest => rest[i]?) h
            simpa [hi, hi'] using hget
          have hlength : (sortEntries entries).length = (sortEntries entries').length := by
            simpa using congrArg List.length h
          refine .object (sortEntries_perm entries).symm (sortEntries_perm entries').symm ?_ ?_
          · refine List.ext_getElem (by simpa using hlength) fun i hi hi' => ?_
            rw [List.length_map] at hi hi'
            simpa using (hget i hi hi').1
          · intro i hi hi'
            exact ih _ (mem_sortEntries.mp (List.getElem_mem hi)) (hget i hi hi').2
      | _ => simp at h

/-- Sorted entries with distinct names depend on the entries only. -/
theorem sortEntries_eq_of_perm {entries ordered : List (String × Json)}
    (hnodup : (entries.map Prod.fst).Nodup) (hperm : entries.Perm ordered) :
    sortEntries entries = sortEntries ordered :=
  sortByKey_eq_of_perm hperm fun _ ha _ hb => List.inj_on_of_nodup_map hnodup ha hb

theorem canonical_of_reordered {a b : Json} (ha : a.DistinctNames) (h : Reordered a b) :
    canonicalizeJson a = canonicalizeJson b := by
  induction h with
  | null | bool | number | string => rfl
  | array hlength _ ih =>
      cases ha with
      | array _ hvalues =>
      rw [canonicalizeJson_array, canonicalizeJson_array]
      refine congrArg Json.array (List.ext_getElem (by simpa using hlength) fun i hi hi' => ?_)
      rw [List.length_map] at hi hi'
      rw [List.getElem_map, List.getElem_map]
      exact ih i hi hi' (hvalues _ (List.getElem_mem hi))
  | @object entries entries' ordered ordered' hperm hperm' hnames _ ih =>
      cases ha with
      | object _ hnodup hentries =>
      have hnodup' : (entries'.map Prod.fst).Nodup := by
        rw [(hperm'.map Prod.fst).nodup_iff, ← hnames, ← (hperm.map Prod.fst).nodup_iff]
        exact hnodup
      have hlength : ordered.length = ordered'.length := by
        simpa using congrArg List.length hnames
      have hcanonical : ordered.map (fun e => (e.1, canonicalizeJson e.2))
          = ordered'.map fun e => (e.1, canonicalizeJson e.2) := by
        refine List.ext_getElem (by simpa using hlength) fun i hi hi' => ?_
        rw [List.length_map] at hi hi'
        have hname : ordered[i].1 = ordered'[i].1 := by
          have hget := congrArg (fun names => names[i]?) hnames
          simpa [hi, hi'] using hget
        have hmem : ordered[i] ∈ entries := hperm.mem_iff.mpr (List.getElem_mem hi)
        rw [List.getElem_map, List.getElem_map, hname, ih i hi hi' (hentries _ hmem)]
      rw [canonicalizeJson_object, canonicalizeJson_object,
        sortEntries_eq_of_perm hnodup hperm, sortEntries_eq_of_perm hnodup' hperm']
      rw [← sortEntries_map, hcanonical, sortEntries_map]

theorem canonicalizeJson_eq_iff {a b : Json} (ha : a.DistinctNames) :
    canonicalizeJson a = canonicalizeJson b ↔ Reordered a b :=
  ⟨reordered_of_canonical, canonical_of_reordered ha⟩

end GenesisRuntime
