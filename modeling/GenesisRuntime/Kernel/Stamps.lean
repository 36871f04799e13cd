/-
  GenesisRuntime.Kernel.Stamps

  The generation of a lease as a version stamp of its record.

  One call changes a record at most once, and every change moves the generation on
  by one; so a generation stands for one record, and the difference between two
  generations counts the changes between them.
-/

import GenesisRuntime.Kernel.Lifecycle

namespace GenesisRuntime

-- ============================================================================
-- Records
-- ============================================================================

/-- What one call makes of a record. -/
inductive RecordStep : LeaseRecord → LeaseRecord → Prop where
  | pause {r : LeaseRecord} (h : r.state = .active) : RecordStep r (r.advance .paused)
  | resume {r : LeaseRecord} (h : r.state = .paused) : RecordStep r (r.advance .active)
  | ends {r r' : LeaseRecord} (h : Ends r r') : RecordStep r r'

/-- What the fields of a record say of each other. -/
structure LeaseRecord.Consistent (r : LeaseRecord) : Prop where
  revokedAt : r.revokedAt.isSome = true ↔ r.state = .revoked
  revocationReason : r.revocationReason.isSome = true ↔ r.state = .revoked
  renewedBy : r.renewedBy.isSome = true ↔ r.state = .retired
  active : r.state = .active → r.generation % 2 = 0
  paused : r.state = .paused → r.generation % 2 = 1

namespace RecordStep

variable {r r' : LeaseRecord}

/-- A record that changes is in another state, one generation later. -/
theorem eq_or_advanced (h : RecordStep r r') :
    r' = r ∨ (r'.state ≠ r.state ∧ r'.generation = r.generation + 1) := by
  cases h with
  | pause h => exact .inr ⟨by rw [h]; nofun, rfl⟩
  | resume h => exact .inr ⟨by rw [h]; nofun, rfl⟩
  | ends h =>
      rcases h.eq_or_dead with heq | ⟨hlive, hdead, hgeneration⟩
      · exact .inl heq
      · refine .inr ⟨fun hstate => ?_, hgeneration⟩
        rw [hstate, hlive] at hdead
        cases hdead

/-- The record of a lease that is over does not change. -/
theorem eq_of_dead (h : RecordStep r r') (hdead : r.state.isLive = false) : r' = r := by
  cases h with
  | pause h => simp [h, LeaseState.isLive] at hdead
  | resume h => simp [h, LeaseState.isLive] at hdead
  | ends h => exact h.eq_of_dead hdead

theorem leaseId (h : RecordStep r r') : r'.leaseId = r.leaseId := by
  cases h with
  | pause => rfl
  | resume => rfl
  | ends h => cases h <;> rfl

theorem consistent (h : RecordStep r r') (hr : r.Consistent) : r'.Consistent := by
  have hunset : r.state.isLive = true →
      r.revokedAt = none ∧ r.revocationReason = none ∧ r.renewedBy = none := by
    intro hlive
    have hrevoked : r.state ≠ .revoked := by
      intro hstate
      rw [hstate] at hlive
      cases hlive
    have hretired : r.state ≠ .retired := by
      intro hstate
      rw [hstate] at hlive
      cases hlive
    refine ⟨?_, ?_, ?_⟩
    · simpa using mt hr.revokedAt.mp hrevoked
    · simpa using mt hr.revocationReason.mp hrevoked
    · simpa using mt hr.renewedBy.mp hretired
  cases h with
  | pause h =>
      obtain ⟨hat, hreason, hby⟩ := hunset (by rw [h]; rfl)
      have heven := hr.active h
      constructor <;> simp [LeaseRecord.advance, hat, hreason, hby]
      omega
  | resume h =>
      obtain ⟨hat, hreason, hby⟩ := hunset (by rw [h]; rfl)
      have hodd := hr.paused h
      constructor <;> simp [LeaseRecord.advance, hat, hreason, hby]
      omega
  | ends h =>
      cases h with
      | same => exact hr
      | revoke reason now hlive =>
          obtain ⟨-, -, hby⟩ := hunset hlive
          constructor <;> simp [LeaseRecord.revoke, LeaseRecord.advance, hby]
      | expire hlive =>
          obtain ⟨hat, hreason, hby⟩ := hunset hlive
          constructor <;> simp [LeaseRecord.advance, hat, hreason, hby]
      | retire renewedBy hlive =>
          obtain ⟨hat, hreason, -⟩ := hunset hlive
          constructor <;> simp [LeaseRecord.retire, LeaseRecord.advance, hat, hreason]

end RecordStep

theorem LeaseRecord.active_consistent (leaseId : LeaseId) :
    (LeaseRecord.active leaseId).Consistent := by
  constructor <;> simp [LeaseRecord.active]

section
variable [Externals] {s s' : AuthorityState}

-- ============================================================================
-- Calls
-- ============================================================================

/-- What a call makes of a lease that is stored. -/
theorem KernelStep.record_step (h : KernelStep s s') {id : LeaseId} {entry : LeaseEntry}
    (hid : s.leases.lookup id = some entry) :
    ∃ record, s'.leases.lookup id = some (entry.withRecord record) ∧
      RecordStep entry.record record := by
  cases h with
  | unchanged => exact ⟨entry.record, hid, .ends (.same _)⟩
  | toggled id' entry' next kind now hentry hstate hnow =>
      rw [AuthorityState.pushEvent_leases, AuthorityState.lookup_putLease]
      by_cases heq : id = id'
      · subst heq
        rw [hentry] at hid
        cases hid
        refine ⟨_, if_pos rfl, ?_⟩
        rcases hstate with ⟨hactive, rfl⟩ | ⟨hpaused, rfl⟩
        · exact .pause hactive
        · exact .resume hpaused
      · rw [if_neg heq]
        exact ⟨entry.record, hid, .ends (.same _)⟩
  | ended ended hends =>
      obtain ⟨record, hrecord, hends⟩ := hends.cascade.present id entry hid
      exact ⟨record, hrecord, .ends hends⟩
  | delegated run fresh =>
      rw [run.lookup_other (run.ne_child fresh hid)]
      exact ⟨entry.record, hid, .ends (.same _)⟩
  | renewed run fresh =>
      rw [run.lookup_other (run.ne_renewed fresh hid)]
      obtain ⟨record, hrecord, hends⟩ := run.endsBelow.cascade.present id entry hid
      exact ⟨record, hrecord, .ends hends⟩

/-- The state of a stored lease. -/
def stateOf (s : AuthorityState) (id : LeaseId) : Option LeaseState :=
  (s.leases.lookup id).map fun entry => entry.record.state

/-- A run, with the number of calls in it that change the state of one lease. -/
inductive StateChanges (id : LeaseId) (s : AuthorityState) : AuthorityState → Nat → Prop where
  | refl : StateChanges id s s 0
  | call {t : AuthorityState} {n : Nat} (changes : StateChanges id s t n) (op : KernelOp)
      (uuid : String) (fresh : FreshUuid t uuid) :
      StateChanges id s (op.after uuid t)
        (if stateOf (op.after uuid t) id = stateOf t id then n else n + 1)

theorem KernelRun.exists_stateChanges (h : KernelRun s s') (id : LeaseId) :
    ∃ n, StateChanges id s s' n := by
  induction h with
  | refl => exact ⟨0, .refl⟩
  | call _ op uuid fresh ih =>
      obtain ⟨n, hn⟩ := ih
      exact ⟨_, hn.call op uuid fresh⟩

/-- The generation counts the changes. -/
theorem StateChanges.generation {id : LeaseId} {n : Nat} (h : StateChanges id s s' n)
    {entry : LeaseEntry} (hid : s.leases.lookup id = some entry) :
    ∃ record, s'.leases.lookup id = some (entry.withRecord record) ∧
      record.generation = entry.record.generation + n := by
  induction h with
  | refl => exact ⟨entry.record, hid, rfl⟩
  | @call t n _ op uuid fresh ih =>
      obtain ⟨record, hrecord, hgeneration⟩ := ih
      obtain ⟨record', hrecord', hstep⟩ := (op.step_after fresh).record_step hrecord
      refine ⟨record', hrecord', ?_⟩
      have hstates :
          stateOf (op.after uuid t) id = stateOf t id ↔ record'.state = record.state := by
        simp [stateOf, hrecord, hrecord']
      rcases hstep.eq_or_advanced with heq | ⟨hstate, hadvanced⟩
      · have heq : record' = record := heq
        rw [if_pos (hstates.mpr (by rw [heq])), heq]
        exact hgeneration
      · rw [if_neg (mt hstates.mp hstate), hadvanced]
        exact congrArg (· + 1) hgeneration

theorem consistent_of_reachable (hs : Reachable s) :
    ∀ id entry, s.leases.lookup id = some entry → entry.record.Consistent := by
  refine hs.invariant
    (P := fun t => ∀ id entry, t.leases.lookup id = some entry → entry.record.Consistent) ?_ ?_
  · intro request custody now uuid s₀ hboot id entry hid
    obtain ⟨run, rfl⟩ := bootstrap_eq_ok hboot
    obtain ⟨-, rfl⟩ := run.eq_entry hid
    exact LeaseRecord.active_consistent _
  · intro t t' ht hstep id entry' hid
    rcases hstep.origin hid with ⟨entry, hentry, -⟩ | hissued
    · obtain ⟨record, hrecord, hrecordStep⟩ := hstep.record_step hentry
      rw [hid] at hrecord
      cases hrecord
      exact hrecordStep.consistent (ht id entry hentry)
    · cases hissued with
      | delegated => exact LeaseRecord.active_consistent _
      | renewed => exact LeaseRecord.active_consistent _

/-- Between two states of a run, a lease stays stored under its certificate and
    manifest, its generation counts its changes of state, and one generation is one
    record, which nothing in between has touched; and in each state of the run the
    fields of every record agree. -/
theorem generations_are_version_stamps (hs : Reachable s) (run : KernelRun s s') :
    (∀ id entry, s.leases.lookup id = some entry →
      ∃ record, s'.leases.lookup id = some (entry.withRecord record) ∧
        entry.record.generation ≤ record.generation ∧
        (∀ n, StateChanges id s s' n →
          record.generation = entry.record.generation + n) ∧
        (∃ n, StateChanges id s s' n) ∧
        (record.generation = entry.record.generation → record = entry.record ∧
          ∀ t, KernelRun s t → KernelRun t s' → t.leases.lookup id = some entry)) ∧
    (∀ (op : KernelOp) (uuid : String), FreshUuid s uuid →
      ∀ id entry, s.leases.lookup id = some entry →
        ∃ record, (op.after uuid s).leases.lookup id = some (entry.withRecord record) ∧
          (record = entry.record ∨ (record.state ≠ entry.record.state ∧
            record.generation = entry.record.generation + 1))) ∧
    ∀ id entry, s.leases.lookup id = some entry → entry.record.Consistent := by
  refine ⟨?_, ?_, consistent_of_reachable hs⟩
  · intro id entry hid
    obtain ⟨record, hrecord, hlater⟩ := run.keepsLeases id entry hid
    refine ⟨record, hrecord, hlater.generation_le, ?_, run.exists_stateChanges id, ?_⟩
    · intro n hn
      obtain ⟨record', hrecord', hgeneration⟩ := hn.generation hid
      rw [hrecord] at hrecord'
      cases hrecord'
      exact hgeneration
    · intro hgeneration
      refine ⟨hlater.eq_of_generation hgeneration, fun t hst hts' => ?_⟩
      obtain ⟨mid, hmid, hbefore⟩ := hst.keepsLeases id entry hid
      obtain ⟨last, hlast, hafter⟩ := hts'.keepsLeases id _ hmid
      rw [hrecord] at hlast
      cases hlast
      have hle := hbefore.generation_le
      have hle' : mid.generation ≤ record.generation := hafter.generation_le
      rw [hmid, hbefore.eq_of_generation (by omega)]
  · intro op uuid fresh id entry hid
    obtain ⟨record, hrecord, hstep⟩ := (op.step_after fresh).record_step hid
    exact ⟨record, hrecord, hstep.eq_or_advanced⟩

omit [Externals] in
/-- The root lease of the reference kernel is paused and resumed: its generation moves from 0
    to 2, one for each change, while the lease below it stays as it is throughout. -/
theorem generations_are_version_stamps_reference : letI := Reference.externals
    ∃ (s s' : AuthorityState) (root child : LeaseId) (entry childEntry : LeaseEntry)
      (record : LeaseRecord), Reachable s ∧ KernelRun s s' ∧
      s.leases.lookup root = some entry ∧ entry.record.generation = 0 ∧
      s'.leases.lookup root = some (entry.withRecord record) ∧ record.generation = 2 ∧
      StateChanges root s s' 2 ∧ entry.record.Consistent ∧
      s.leases.lookup child = some childEntry ∧
      ∀ t, KernelRun s t → KernelRun t s' → t.leases.lookup child = some childEntry := by
  let := Reference.externals
  obtain ⟨s, rootEntry, childEntry, h⟩ := Reference.exists_delegated
  have hrecord := h.root_record
  have hnow : Reference.start < rootEntry.certificate.expiresAt := by
    rw [h.root_expires]
    decide
  obtain ⟨s₁, hpause, hlookup₁⟩ := exists_pause h.lookup_root (by rw [hrecord]; rfl) hnow
  obtain ⟨s', hresume, hlookup⟩ := exists_resume ((hlookup₁ _).trans (if_pos rfl)) rfl hnow
  have hrun : KernelRun s s' := (KernelRun.refl.succeed
    (.pause Reference.leaseId _ Reference.start) (freshUuid_unsupported s)
    (map_eq_ok.mpr ⟨_, hpause, rfl⟩)).succeed (.resume Reference.leaseId _ Reference.start)
    (freshUuid_unsupported s₁) (map_eq_ok.mpr ⟨_, hresume, rfl⟩)
  obtain ⟨hstamps, -, hconsistent⟩ := generations_are_version_stamps h.reachable hrun
  obtain ⟨record, hrecord', -, hcount, ⟨n, hchanges⟩, -⟩ := hstamps _ _ h.lookup_root
  have htwo : record.generation = 2 := by
    have hresumed := (hlookup Reference.leaseId).symm.trans hrecord'
    rw [if_pos rfl, hrecord] at hresumed
    have hsame : _ = record := congrArg LeaseEntry.record (Option.some.inj hresumed)
    exact hsame ▸ rfl
  obtain rfl : n = 2 := by
    have hmoved := hcount n hchanges
    rw [htwo, hrecord] at hmoved
    exact (hmoved.trans (Nat.zero_add n)).symm
  obtain ⟨record', hsame, -, -, -, hunchanged⟩ := hstamps _ _ h.lookup_child
  have hchild : record' = childEntry.record := by
    rw [hlookup, if_neg h.ne, hlookup₁, if_neg h.ne, h.lookup_child] at hsame
    exact (congrArg LeaseEntry.record (Option.some.inj hsame)).symm
  exact ⟨s, s', _, _, rootEntry, childEntry, record, h.reachable, hrun, h.lookup_root,
    by rw [hrecord]; rfl, hrecord', htwo, hchanges, hconsistent _ _ h.lookup_root,
    h.lookup_child, (hunchanged (by rw [hchild])).2⟩

end

end GenesisRuntime
