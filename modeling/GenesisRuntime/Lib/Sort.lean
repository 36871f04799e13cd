/-
  GenesisRuntime.Lib.Sort

  Sorting by a key and dropping consecutive repetitions of a key: the two passes
  by which lists are brought to a canonical form.  `sortByKey` is stable, and on
  lists whose keys are distinct it depends on the members only.
-/

import Mathlib.Data.List.Sort
import Mathlib.Data.List.Destutter
import Mathlib.Data.List.Perm.Basic
import Mathlib.Order.Basic

section
variable {α κ : Type} [DecidableEq κ]

private theorem exists_mem_destutter' (key : α → κ) :
    ∀ (xs : List α) (first a : α), a ∈ first :: xs →
      ∃ b ∈ xs.destutter' (fun a b => key a ≠ key b) first, key b = key a := by
  intro xs
  induction xs with
  | nil =>
      intro first a ha
      simp only [List.mem_singleton] at ha
      exact ⟨first, by simp [ha]⟩
  | cons x xs ih =>
      intro first a ha
      rw [List.destutter'_cons]
      by_cases hne : key first ≠ key x
      · rw [if_pos hne]
        rcases List.mem_cons.mp ha with rfl | ha
        · exact ⟨a, by simp⟩
        · obtain ⟨b, hb, hkey⟩ := ih x a ha
          exact ⟨b, List.mem_cons_of_mem _ hb, hkey⟩
      · rw [if_neg hne]
        push Not at hne
        rcases List.mem_cons.mp ha with rfl | ha
        · exact ih a a (by simp)
        · rcases List.mem_cons.mp ha with rfl | ha
          · obtain ⟨b, hb, hkey⟩ := ih first first (by simp)
            exact ⟨b, hb, hkey.trans hne⟩
          · exact ih first a (List.mem_cons_of_mem _ ha)

/-- Dropping consecutive repetitions loses no member. -/
theorem mem_destutter_ne {α : Type} [DecidableEq α] {xs : List α} {a : α} :
    a ∈ xs.destutter (· ≠ ·) ↔ a ∈ xs := by
  refine ⟨fun h => (List.destutter_sublist _ xs).subset h, fun h => ?_⟩
  cases xs with
  | nil => cases h
  | cons x xs =>
      obtain ⟨b, hb, rfl⟩ := exists_mem_destutter' id xs x a h
      exact hb

end

/-- Lists with the same keys in the same order are equal, where the keys determine the
    members. -/
theorem eq_of_map_eq {α κ : Type} {key : α → κ} {all xs ys : List α}
    (hinj : ∀ x ∈ all, ∀ y ∈ all, key x = key y → x = y) (hxs : xs ⊆ all) (hys : ys ⊆ all)
    (h : xs.map key = ys.map key) : xs = ys := by
  induction xs generalizing ys with
  | nil =>
      cases ys with
      | nil => rfl
      | cons => cases h
  | cons x xs ih =>
      cases ys with
      | nil => cases h
      | cons y ys =>
          rw [List.map_cons, List.map_cons, List.cons.injEq] at h
          rw [List.cons_subset] at hxs hys
          rw [hinj x hxs.1 y hys.1 h.1, ih hxs.2 hys.2 h.2]

section
variable {α κ : Type} [LinearOrder κ]

/-- Stable sort by a key (`sort_by`, `sort_by_key`). -/
def sortByKey (key : α → κ) (xs : List α) : List α :=
  xs.mergeSort fun a b => decide (key a ≤ key b)

/-- Keep the first of every run of equal keys (`dedup_by`). -/
def dedupByKey (key : α → κ) (xs : List α) : List α :=
  xs.destutter fun a b => key a ≠ key b

variable {key : α → κ} {xs ys : List α}

theorem sortByKey_perm (key : α → κ) (xs : List α) : (sortByKey key xs).Perm xs :=
  List.mergeSort_perm xs _

@[simp] theorem mem_sortByKey {a : α} : a ∈ sortByKey key xs ↔ a ∈ xs :=
  (sortByKey_perm key xs).mem_iff

private theorem keyLe_trans (key : α → κ) (a b c : α) (hab : decide (key a ≤ key b) = true)
    (hbc : decide (key b ≤ key c) = true) : decide (key a ≤ key c) = true := by
  rw [decide_eq_true_eq] at *
  exact le_trans hab hbc

private theorem keyLe_total (key : α → κ) (a b : α) :
    (decide (key a ≤ key b) || decide (key b ≤ key a)) = true := by
  rw [Bool.or_eq_true, decide_eq_true_eq, decide_eq_true_eq]
  exact le_total _ _

theorem sortByKey_pairwise (key : α → κ) (xs : List α) :
    (sortByKey key xs).Pairwise fun a b => key a ≤ key b :=
  (List.pairwise_mergeSort (keyLe_trans key) (keyLe_total key) xs).imp (by simp)

/-- The members with one key stay in the order they had. -/
theorem filter_sortByKey (key : α → κ) (k : κ) (xs : List α) :
    (sortByKey key xs).filter (fun a => key a = k) = xs.filter fun a => key a = k := by
  have hsorted :
      (xs.filter fun a => key a = k).Pairwise fun a b => decide (key a ≤ key b) = true := by
    refine List.pairwise_of_forall_mem_list fun a ha b hb => ?_
    have hka : key a = k := by simpa using (List.mem_filter.mp ha).2
    have hkb : key b = k := by simpa using (List.mem_filter.mp hb).2
    rw [decide_eq_true_eq, hka, hkb]
  have hsublist : (xs.filter fun a => key a = k).Sublist (sortByKey key xs) :=
    List.sublist_mergeSort (keyLe_trans key) (keyLe_total key) hsorted List.filter_sublist
  have hfiltered := hsublist.filter fun a => decide (key a = k)
  rw [List.filter_filter] at hfiltered
  simp only [Bool.and_self] at hfiltered
  have hlength := ((sortByKey_perm key xs).filter fun a => decide (key a = k)).length_eq
  exact (hfiltered.eq_of_length hlength.symm).symm

/-- A sorted list is left alone. -/
theorem sortByKey_of_pairwise (h : xs.Pairwise fun a b => key a ≤ key b) :
    sortByKey key xs = xs :=
  List.mergeSort_of_pairwise (h.imp (by simp))

theorem sortByKey_idem (key : α → κ) (xs : List α) :
    sortByKey key (sortByKey key xs) = sortByKey key xs :=
  sortByKey_of_pairwise (sortByKey_pairwise key xs)

/-- Sorting does not look beyond the keys. -/
theorem map_sortByKey {β : Type} {key' : β → κ} {f : α → β} (hf : ∀ a, key' (f a) = key a)
    (xs : List α) : (sortByKey key xs).map f = sortByKey key' (xs.map f) :=
  List.map_mergeSort fun a _ b _ => by rw [hf, hf]

/-- With distinct keys, the sorted list depends on the members only. -/
theorem sortByKey_eq_of_perm (hp : xs.Perm ys)
    (hinj : ∀ a ∈ xs, ∀ b ∈ xs, key a = key b → a = b) :
    sortByKey key xs = sortByKey key ys := by
  refine List.Perm.eq_of_pairwise ?_ (sortByKey_pairwise key xs) (sortByKey_pairwise key ys)
    ((sortByKey_perm key xs).trans (hp.trans (sortByKey_perm key ys).symm))
  intro a b ha hb hab hba
  exact hinj a (mem_sortByKey.mp ha) b (hp.mem_iff.mpr (mem_sortByKey.mp hb))
    (le_antisymm hab hba)

-- ============================================================================
-- Dropping repeated keys
-- ============================================================================

theorem dedupByKey_sublist (key : α → κ) (xs : List α) :
    (dedupByKey key xs).Sublist xs :=
  List.destutter_sublist _ xs

/-- On a sorted list the keys that remain are strictly increasing. -/
theorem dedupByKey_pairwise_lt (h : xs.Pairwise fun a b => key a ≤ key b) :
    (dedupByKey key xs).Pairwise fun a b => key a < key b := by
  have hle := h.sublist (dedupByKey_sublist key xs)
  have hne : (dedupByKey key xs).IsChain fun a b => key a ≠ key b :=
    List.isChain_destutter _ xs
  have hlt : (dedupByKey key xs).IsChain fun a b => key a < key b := by
    rw [List.isChain_iff_forall_rel_of_append_cons_cons] at hne ⊢
    intro a b l₁ l₂ heq
    have hchain := List.isChain_iff_forall_rel_of_append_cons_cons.mp hle.isChain
    exact lt_of_le_of_ne (hchain heq) (hne heq)
  have : Std.Irrefl fun a b : α => key a < key b := ⟨fun a => lt_irrefl _⟩
  have : IsTrans α fun a b => key a < key b := ⟨fun a b c hab hbc => lt_trans hab hbc⟩
  exact List.isChain_iff_pairwise.mp hlt

/-- Lists with strictly increasing keys and the same members are the same. -/
theorem eq_of_pairwise_lt (h : xs.Pairwise fun a b => key a < key b)
    (h' : ys.Pairwise fun a b => key a < key b) (hmem : ∀ a, a ∈ xs ↔ a ∈ ys) : xs = ys := by
  have hnodup {zs : List α} (hzs : zs.Pairwise fun a b => key a < key b) : zs.Nodup := by
    refine List.Pairwise.imp ?_ hzs
    rintro a b hab rfl
    exact lt_irrefl _ hab
  have hperm : xs.Perm ys := (List.perm_ext_iff_of_nodup (hnodup h) (hnodup h')).mpr hmem
  exact List.Perm.eq_of_pairwise (fun a b _ _ hab hba => absurd hba (lt_asymm hab)) h h' hperm

/-- A list with strictly increasing keys is left alone. -/
theorem dedupByKey_of_pairwise_lt (h : xs.Pairwise fun a b => key a < key b) :
    dedupByKey key xs = xs :=
  List.destutter_of_isChain _ _ (h.imp fun hab => ne_of_lt hab).isChain

/-- No key is lost. -/
theorem exists_mem_dedupByKey (key : α → κ) {a : α} (h : a ∈ xs) :
    ∃ b ∈ dedupByKey key xs, key b = key a := by
  cases xs with
  | nil => simp at h
  | cons x xs => exact exists_mem_destutter' key xs x a h

end
