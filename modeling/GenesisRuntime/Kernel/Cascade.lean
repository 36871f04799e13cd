/-
  GenesisRuntime.Kernel.Cascade

  What the cascades do: they end leases and change nothing else, they reach every
  lease below the one they start from, and they never fail on a stored lease.
-/

import GenesisRuntime.Kernel.Operations

namespace GenesisRuntime

-- ============================================================================
-- Records
-- ============================================================================

/-- How a record changes over a stretch of a run in which its lease may end. -/
inductive Ends : LeaseRecord → LeaseRecord → Prop where
  | same (r : LeaseRecord) : Ends r r
  | revoke {r : LeaseRecord} (reason : String) (now : DateTime) (h : r.state.isLive) :
      Ends r (r.revoke reason now)
  | expire {r : LeaseRecord} (h : r.state.isLive) : Ends r (r.advance .expired)
  | retire {r : LeaseRecord} (renewedBy : LeaseId) (h : r.state.isLive) :
      Ends r (r.retire renewedBy)

namespace Ends

variable {r r' r'' : LeaseRecord}

/-- A lease that is over stays as it is. -/
theorem eq_of_dead (h : Ends r r') (hdead : r.state.isLive = false) : r' = r := by
  cases h with
  | same => rfl
  | revoke _ _ h => simp [h] at hdead
  | expire h => simp [h] at hdead
  | retire _ h => simp [h] at hdead

/-- Either nothing happened, or the lease is over and its generation has moved on. -/
theorem eq_or_dead (h : Ends r r') :
    r' = r ∨ (r.state.isLive = true ∧ r'.state.isLive = false
      ∧ r'.generation = r.generation + 1) := by
  cases h with
  | same => exact .inl rfl
  | revoke _ _ h => exact .inr ⟨h, rfl, rfl⟩
  | expire h => exact .inr ⟨h, rfl, rfl⟩
  | retire _ h => exact .inr ⟨h, rfl, rfl⟩

theorem trans (h : Ends r r') (h' : Ends r' r'') : Ends r r'' := by
  rcases h.eq_or_dead with heq | ⟨-, hdead, -⟩
  · rw [← heq]
    exact h'
  · rw [h'.eq_of_dead hdead]
    exact h

end Ends

/-- What a cascade makes of the record of a lease it reaches. -/
def LeaseRecord.cascade (reason : String) (now : DateTime) (record : LeaseRecord) :
    LeaseRecord :=
  if record.state.isLive then record.revoke reason now else record

namespace LeaseRecord

variable (reason : String) (now : DateTime) (record : LeaseRecord)

theorem cascade_dead : (record.cascade reason now).state.isLive = false := by
  unfold cascade
  split
  · rfl
  · simp_all

theorem cascade_cascade :
    (record.cascade reason now).cascade reason now = record.cascade reason now := by
  rw [cascade, cascade_dead]
  rfl

end LeaseRecord

section
variable [Externals]

/-- The entry of a lease with another record. -/
abbrev LeaseEntry.withRecord (entry : LeaseEntry) (record : LeaseRecord) : LeaseEntry :=
  { entry with record := record }

-- ============================================================================
-- States
-- ============================================================================

/-- Between the two states some leases have ended, and nothing else has changed
    but the event log, which has grown. -/
structure Cascade (s s' : AuthorityState) : Prop where
  mission : s'.mission = s.mission
  rootLeaseId : s'.rootLeaseId = s.rootLeaseId
  identities : s'.identities = s.identities
  custodians : s'.custodians = s.custodians
  events : s.events <+: s'.events
  absent : ∀ id, s.leases.lookup id = none → s'.leases.lookup id = none
  present : ∀ id entry, s.leases.lookup id = some entry →
    ∃ record, s'.leases.lookup id = some (entry.withRecord record) ∧ Ends entry.record record

namespace Cascade

variable {s s' s'' : AuthorityState}

theorem refl (s : AuthorityState) : Cascade s s where
  mission := rfl
  rootLeaseId := rfl
  identities := rfl
  custodians := rfl
  events := List.prefix_rfl
  absent := fun _ h => h
  present := fun _ entry h => ⟨entry.record, h, .same _⟩

theorem trans (h : Cascade s s') (h' : Cascade s' s'') : Cascade s s'' where
  mission := h'.mission.trans h.mission
  rootLeaseId := h'.rootLeaseId.trans h.rootLeaseId
  identities := h'.identities.trans h.identities
  custodians := h'.custodians.trans h.custodians
  events := h.events.trans h'.events
  absent := fun id hid => h'.absent id (h.absent id hid)
  present := by
    intro id entry hid
    obtain ⟨r, hr, hends⟩ := h.present id entry hid
    obtain ⟨r', hr', hends'⟩ := h'.present id _ hr
    exact ⟨r', hr', hends.trans hends'⟩

theorem mem_iff (h : Cascade s s') {id : LeaseId} : id ∈ s'.leases ↔ id ∈ s.leases := by
  rw [← AList.lookup_isSome, ← AList.lookup_isSome]
  cases hid : s.leases.lookup id with
  | none => simp [h.absent id hid]
  | some entry =>
      obtain ⟨r, hr, -⟩ := h.present id entry hid
      simp [hr]

/-- A lease after a cascade, seen from the state before. -/
theorem before (h : Cascade s s') {id : LeaseId} {entry' : LeaseEntry}
    (hid : s'.leases.lookup id = some entry') :
    ∃ entry, s.leases.lookup id = some entry ∧ entry' = entry.withRecord entry'.record
      ∧ Ends entry.record entry'.record := by
  cases hs : s.leases.lookup id with
  | none =>
      rw [h.absent id hs] at hid
      cases hid
  | some entry =>
      obtain ⟨r, hr, hends⟩ := h.present id entry hs
      rw [hr] at hid
      cases hid
      exact ⟨entry, rfl, rfl, hends⟩

theorem pushEvent (leaseId : LeaseId) (related : Option LeaseId) (kind : AuthorityEventKind)
    (now : DateTime) (s : AuthorityState) : Cascade s (s.pushEvent leaseId related kind now) :=
  { refl s with events := List.prefix_append _ _ }

/-- Ending one lease. -/
theorem putLease {id : LeaseId} {entry : LeaseEntry} {record : LeaseRecord}
    (hid : s.leases.lookup id = some entry) (hends : Ends entry.record record) :
    Cascade s (s.putLease id (entry.withRecord record)) :=
  { refl s with
    absent := by
      intro id' h
      rw [AuthorityState.lookup_putLease]
      split
      · rename_i heq
        rw [heq, hid] at h
        cases h
      · exact h
    present := by
      intro id' entry' h
      rw [AuthorityState.lookup_putLease]
      split
      · rename_i heq
        rw [heq, hid] at h
        cases h
        exact ⟨record, rfl, hends⟩
      · exact ⟨entry'.record, h, .same _⟩ }

end Cascade

-- ============================================================================
-- Children and descendants
-- ============================================================================

/-- The second lease is the first, or has it among its transitive parents. -/
abbrev LeaseBelow (s : AuthorityState) : LeaseId → LeaseId → Prop :=
  Below s.leases.lookup LeaseEntry.parentId

theorem mem_childrenOf {s : AuthorityState} {parent child : LeaseId} :
    child ∈ childrenOf s parent ↔
      ∃ entry, s.leases.lookup child = some entry ∧ entry.parentId = some parent := by
  simp only [childrenOf, mem_sortByKey, List.mem_map, List.mem_filter, decide_eq_true_eq,
    Sigma.exists]
  constructor
  · rintro ⟨id, entry, ⟨hmem, hparent⟩, rfl⟩
    exact ⟨entry, AList.mem_lookup_iff.mpr hmem, hparent⟩
  · rintro ⟨entry, hlookup, hparent⟩
    exact ⟨child, entry, ⟨AList.mem_lookup_iff.mp hlookup, hparent⟩, rfl⟩

theorem childrenOf_subset (s : AuthorityState) :
    ∀ id ∈ s.leases.keys, childrenOf s id ⊆ s.leases.keys := by
  intro id _ child hchild
  obtain ⟨entry, hlookup, -⟩ := mem_childrenOf.mp hchild
  exact AList.mem_of_lookup hlookup

section
variable {s : AuthorityState} {root : LeaseId}

theorem descendantsIncluding_eq (h : root ∈ s.leases) :
    descendantsIncluding s root = .ok (descendants s root) := by
  simp only [descendantsIncluding, Except.bind_eq_ok, Except.pure_eq_ok, rejectIf_eq_ok]
  exact ⟨(), not_not.mpr h, trivial⟩

theorem root_mem_descendants (h : root ∈ s.leases) : root ∈ descendants s root :=
  root_mem_bfs (childrenOf s) h le_rfl

/-- The traversal does not stop short: children of a lease it returns are returned. -/
theorem children_mem_descendants (h : root ∈ s.leases) {id child : LeaseId}
    (hid : id ∈ descendants s root) (hchild : child ∈ childrenOf s id) :
    child ∈ descendants s root :=
  children_mem_bfs (childrenOf_subset s) h le_rfl hid hchild

theorem mem_leases_of_mem_descendants (h : root ∈ s.leases) {id : LeaseId}
    (hid : id ∈ descendants s root) : id ∈ s.leases :=
  bfs_subset_nodes (childrenOf_subset s) h le_rfl hid

/-- It does not go too far either: it returns only leases below the root. -/
theorem below_of_mem_descendants {id : LeaseId} (hid : id ∈ descendants s root) :
    LeaseBelow s root id := by
  obtain ⟨root', hroot, hbelow⟩ := bfs_sound hid
  obtain rfl := List.mem_singleton.mp hroot
  exact Relation.ReflTransGen.mono (fun _ _ h => mem_childrenOf.mp h) _ _ hbelow

theorem nodup_descendants (h : root ∈ s.leases) : (descendants s root).Nodup := by
  have hinv := (bfs_inv (childrenOf_subset s) h le_rfl).nodup
  rwa [List.append_nil] at hinv

/-- The root comes first, so `skip(1)` leaves exactly the other descendants. -/
theorem descendants_eq_cons (h : root ∈ s.leases) :
    descendants s root = root :: (descendants s root).drop 1 := by
  have hpos : 0 < s.leases.keys.length := List.length_pos_of_mem h
  obtain ⟨rest, hrest⟩ := bfs_head (childrenOf s) root hpos [root]
  rw [descendants, hrest]
  rfl

theorem mem_drop_descendants (h : root ∈ s.leases) {id : LeaseId} :
    id ∈ (descendants s root).drop 1 ↔ id ∈ descendants s root ∧ id ≠ root := by
  have hnd := nodup_descendants h
  have hcons := descendants_eq_cons h
  rw [hcons] at hnd
  have hroot := (List.nodup_cons.mp hnd).1
  constructor
  · intro hid
    refine ⟨List.mem_of_mem_drop hid, ?_⟩
    rintro rfl
    exact hroot hid
  · rintro ⟨hid, hne⟩
    rw [hcons] at hid
    exact (List.mem_cons.mp hid).resolve_left hne

end

-- ============================================================================
-- The loops
-- ============================================================================

/-- What a cascade over `ids` makes of the entry of one lease. -/
def cascadeEntry (reason : String) (now : DateTime) (ids : List LeaseId) (id : LeaseId)
    (entry : LeaseEntry) : LeaseEntry :=
  if id ∈ ids then entry.withRecord (entry.record.cascade reason now) else entry

section
variable {s : AuthorityState} (reason : String) (now : DateTime)

theorem revokeIfLive_spec (related : Option LeaseId) {id : LeaseId} (h : id ∈ s.leases) :
    ∃ s', revokeIfLive reason now related id s = .ok () s' ∧ Cascade s s' ∧
      ∀ id', s'.leases.lookup id'
        = (s.leases.lookup id').map (cascadeEntry reason now [id] id') := by
  obtain ⟨entry, hentry⟩ := AList.mem_iff_lookup.mp h
  by_cases hlive : entry.record.state.isLive
  · refine ⟨(s.putLease id (entry.withRecord (entry.record.revoke reason now))).pushEvent id
      related .leaseRevoked now, ?_, ?_, ?_⟩
    · simp [revokeIfLive, EStateM.bind_eq_ok, EStateM.get_eq_ok, EStateM.modify_eq_ok,
        orReject_eq_ofResult, ofResult_eq_ok, hentry, hlive]
    · exact (Cascade.putLease hentry (.revoke reason now hlive)).trans
        (Cascade.pushEvent _ _ _ _ _)
    · intro id'
      rw [AuthorityState.pushEvent_leases, AuthorityState.lookup_putLease]
      by_cases hid : id' = id
      · subst hid
        simp [hentry, cascadeEntry, LeaseRecord.cascade, hlive]
      · cases s.leases.lookup id' <;> simp [cascadeEntry, hid]
  · refine ⟨s, ?_, Cascade.refl s, ?_⟩
    · simp [revokeIfLive, EStateM.bind_eq_ok, EStateM.get_eq_ok, EStateM.pure_eq_ok,
        orReject_eq_ofResult, ofResult_eq_ok, hentry, hlive]
    · intro id'
      by_cases hid : id' = id
      · subst hid
        simp [hentry, cascadeEntry, LeaseRecord.cascade, hlive]
      · cases s.leases.lookup id' <;> simp [cascadeEntry, hid]

/-- The loop over a list of stored leases ends each of them that is live. -/
theorem forM_revokeIfLive_spec (related : LeaseId → Option LeaseId) {ids : List LeaseId}
    (h : ∀ id ∈ ids, id ∈ s.leases) :
    ∃ s', (forM ids fun id => revokeIfLive reason now (related id) id) s = .ok () s' ∧
      Cascade s s' ∧ ∀ id', s'.leases.lookup id'
        = (s.leases.lookup id').map (cascadeEntry reason now ids id') := by
  induction ids generalizing s with
  | nil =>
      refine ⟨s, rfl, Cascade.refl s, ?_⟩
      intro id'
      cases s.leases.lookup id' <;> simp [cascadeEntry]
  | cons id ids ih =>
      obtain ⟨s₁, hrun₁, hcas₁, hlook₁⟩ :=
        revokeIfLive_spec reason now (related id) (h id (by simp))
      have hids : ∀ id' ∈ ids, id' ∈ s₁.leases :=
        fun id' hid' => hcas₁.mem_iff.mpr (h id' (by simp [hid']))
      obtain ⟨s₂, hrun₂, hcas₂, hlook₂⟩ := ih hids
      refine ⟨s₂, ?_, hcas₁.trans hcas₂, ?_⟩
      · rw [List.forM_cons, EStateM.bind_apply, hrun₁]
        exact hrun₂
      · intro id'
        rw [hlook₂, hlook₁, Option.map_map]
        congr 1
        funext entry
        by_cases hid : id' = id <;> by_cases hids : id' ∈ ids <;>
          simp [cascadeEntry, hid, hids, LeaseRecord.cascade_cascade]

theorem revokeDescendants_spec {root : LeaseId} (h : root ∈ s.leases) :
    ∃ s', revokeDescendants root reason now s = .ok () s' ∧ Cascade s s' ∧
      ∀ id', s'.leases.lookup id'
        = (s.leases.lookup id').map
            (cascadeEntry reason now ((descendants s root).drop 1) id') := by
  have hids : ∀ id ∈ (descendants s root).drop 1, id ∈ s.leases :=
    fun id hid => mem_leases_of_mem_descendants h (List.mem_of_mem_drop hid)
  obtain ⟨s', hrun, hcas, hlook⟩ :=
    forM_revokeIfLive_spec reason now (fun _ => some root) hids
  refine ⟨s', ?_, hcas, hlook⟩
  simp only [revokeDescendants, EStateM.bind_eq_ok, EStateM.get_eq_ok, ofResult_eq_ok]
  exact ⟨s, s, ⟨rfl, rfl⟩, _, s, ⟨descendantsIncluding_eq h, rfl⟩, hrun⟩

end

end

end GenesisRuntime
