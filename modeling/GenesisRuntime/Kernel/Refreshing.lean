/-
  GenesisRuntime.Kernel.Refreshing

  What `refresh_expirations` means for authority: nothing.  The leases it ends are
  those that no validation accepts any longer at that clock.
-/

import GenesisRuntime.Kernel.Frames

namespace GenesisRuntime

section
variable [Externals] {s s' s'' : AuthorityState}

-- ============================================================================
-- Leases that have ended
-- ============================================================================

/-- The lease has been revoked, or has expired. -/
def LeaseRecord.IsOver (record : LeaseRecord) : Prop :=
  record.state = .revoked ∨ record.state = .expired

omit [Externals] in
theorem LeaseRecord.IsOver.not_live {record : LeaseRecord} (h : record.IsOver) :
    record.state.isLive = false := by
  rcases h with hstate | hstate <;> rw [hstate] <;> rfl

/-- The record of a lease that was live is over, by one change. -/
structure LeaseRecord.OverOnce (record ended : LeaseRecord) : Prop where
  leaseId : ended.leaseId = record.leaseId
  generation : ended.generation = record.generation + 1
  renewedBy : ended.renewedBy = record.renewedBy
  isOver : ended.IsOver

/-- The live leases of a set have ended, with one change of their records each, and no
    others. -/
structure EndsJust (ending : LeaseId → Prop) (s s' : AuthorityState) : Prop where
  cascade : Cascade s s'
  ended : ∀ id entry, s.leases.lookup id = some entry → entry.record.state.isLive = true →
    ending id → ∃ record, s'.leases.lookup id = some (entry.withRecord record) ∧
      entry.record.OverOnce record
  spared : ∀ id, (∀ entry, s.leases.lookup id = some entry → entry.record.state.isLive = true →
    ¬ ending id) → s'.leases.lookup id = s.leases.lookup id

namespace EndsJust

variable {p q : LeaseId → Prop}

theorem refl (s : AuthorityState) : EndsJust (fun _ => False) s s where
  cascade := .refl s
  ended := fun _ _ _ _ hending => hending.elim
  spared := fun _ _ => rfl

/-- What has ended stays as it is. -/
theorem trans (h : EndsJust p s s') (h' : EndsJust q s' s'') :
    EndsJust (fun id => p id ∨ q id) s s'' where
  cascade := h.cascade.trans h'.cascade
  ended := by
    intro id entry hentry hlive hending
    by_cases hp : p id
    · obtain ⟨record, hrecord, hended⟩ := h.ended id entry hentry hlive hp
      refine ⟨record, (h'.spared id ?_).trans hrecord, hended⟩
      intro entry' hentry' hlive'
      rw [hrecord] at hentry'
      cases hentry'
      rw [LeaseEntry.withRecord, hended.isOver.not_live] at hlive'
      cases hlive'
    · have hsame : s'.leases.lookup id = some entry := by
        rw [h.spared id fun _ _ _ => hp, hentry]
      exact h'.ended id entry hsame hlive (hending.resolve_left hp)
  spared := by
    intro id hnot
    have hsame := h.spared id fun entry hentry hlive hp => hnot entry hentry hlive (.inl hp)
    rw [← hsame] at hnot
    exact (h'.spared id fun entry hentry hlive hq => hnot entry hentry hlive (.inr hq)).trans hsame

/-- It only matters which of the live leases are in the set. -/
theorem congr (h : EndsJust p s s') (hpq : ∀ id entry, s.leases.lookup id = some entry →
    entry.record.state.isLive = true → (p id ↔ q id)) : EndsJust q s s' where
  cascade := h.cascade
  ended := fun id entry hentry hlive hq =>
    h.ended id entry hentry hlive ((hpq id entry hentry hlive).mpr hq)
  spared := fun id hnot => h.spared id fun entry hentry hlive hp =>
    hnot entry hentry hlive ((hpq id entry hentry hlive).mp hp)

theorem lookup_eq (h : EndsJust p s s') {id : LeaseId} (hnot : ¬ p id) :
    s'.leases.lookup id = s.leases.lookup id :=
  h.spared id fun _ _ _ => hnot

/-- No lease of the set is live. -/
theorem not_live (h : EndsJust p s s') {id : LeaseId} {entry : LeaseEntry} (hending : p id)
    (hentry : s'.leases.lookup id = some entry) : entry.record.state.isLive = false := by
  obtain ⟨before, hbefore, -, -⟩ := h.cascade.before hentry
  by_cases hlive : before.record.state.isLive = true
  · obtain ⟨record, hrecord, hended⟩ := h.ended id before hbefore hlive hending
    rw [hrecord] at hentry
    cases hentry
    exact hended.isOver.not_live
  · have hsame : s'.leases.lookup id = some before := by
      rw [h.spared id, hbefore]
      intro other hother hother'
      rw [Option.some.inj (hother.symm.trans hbefore)] at hother'
      exact absurd hother' hlive
    rw [Option.some.inj (hentry.symm.trans hsame)]
    simpa using hlive

end EndsJust

/-- The lease is stored, and its expiry satisfies `passed`. -/
def Passed (s : AuthorityState) (passed : DateTime → Prop) (id : LeaseId) : Prop :=
  ∃ entry, s.leases.lookup id = some entry ∧ passed entry.certificate.expiresAt

theorem Cascade.passed_iff (h : Cascade s s') {passed : DateTime → Prop} {id : LeaseId} :
    Passed s' passed id ↔ Passed s passed id := by
  constructor
  · rintro ⟨entry', hentry', hpassed⟩
    obtain ⟨entry, hentry, heq, -⟩ := h.before hentry'
    rw [heq] at hpassed
    exact ⟨entry, hentry, hpassed⟩
  · rintro ⟨entry, hentry, hpassed⟩
    obtain ⟨record, hrecord, -⟩ := h.present id entry hentry
    exact ⟨_, hrecord, hpassed⟩

-- ============================================================================
-- Refreshing
-- ============================================================================

theorem refreshExpirations_endsJust (hs : Reachable s) {now : DateTime}
    {expired : List LeaseId} (h : refreshExpirations now s = .ok expired s') :
    EndsJust (Passed s (· ≤ now)) s s' := by
  have htimely := Timely.of_reachable hs
  obtain ⟨expired', t, notes, hrun, hswept⟩ := refreshExpirations_swept htimely now
  cases h.symm.trans hrun
  refine ⟨hswept.cascade, ?_, ?_⟩
  · rintro id entry hentry hlive ⟨entry', hentry', hpassed⟩
    obtain rfl := Option.some.inj (hentry.symm.trans hentry')
    have hid : id ∈ dueLeases s now := mem_dueLeases.mpr ⟨entry, hentry, hlive, hpassed⟩
    rcases hswept.due hid hentry with ⟨-, -, hlookup⟩ | ⟨-, -, hlookup⟩
    · exact ⟨_, hlookup, rfl, rfl, rfl, .inr rfl⟩
    · exact ⟨_, hlookup, rfl, rfl, rfl, .inl rfl⟩
  · intro id hnot
    refine hswept.spared id fun hended => ?_
    obtain ⟨entry, hentry, hlive, hpassed⟩ :=
      mem_dueLeases.mp ((endedBy_dueLeases htimely).mp hended)
    exact hnot entry hentry hlive ⟨entry, hentry, hpassed⟩

/-- A refresh creates no lease, so no UUID has to be fresh for it. -/
theorem KernelRun.refresh (run : KernelRun s s') {now : DateTime} {expired : List LeaseId}
    (h : refreshExpirations now s' = .ok expired s'') : KernelRun s s'' := by
  have hrun := run.call (.refreshExpirations now) "!" (freshUuid_unsupported s')
  have hafter : (KernelOp.refreshExpirations now).after "!" s' = s'' := by
    rw [KernelOp.after, KernelOp.exec, map_eq_ok.mpr ⟨_, h, rfl⟩]
  rwa [hafter] at hrun

/-- Refresh with one clock value after the other. -/
def refreshAll : List DateTime → KernelM Unit
  | [] => pure ()
  | now :: times => do
      let _ ← refreshExpirations now
      refreshAll times

theorem refreshAll_endsJust (hs : Reachable s) {times : List DateTime}
    (h : refreshAll times s = .ok () s') :
    KernelRun s s' ∧ EndsJust (Passed s fun x => ∃ now ∈ times, x ≤ now) s s' := by
  induction times generalizing s with
  | nil =>
      obtain ⟨-, rfl⟩ := EStateM.pure_eq_ok.mp h
      exact ⟨.refl, (EndsJust.refl _).congr fun _ _ _ _ => by simp [Passed]⟩
  | cons now times ih =>
      obtain ⟨expired, t, hhead, htail⟩ := EStateM.bind_eq_ok.mp h
      have hrun : KernelRun s t := KernelRun.refl.refresh hhead
      obtain ⟨hrest, hends⟩ := ih (hs.run hrun) htail
      have hfirst := refreshExpirations_endsJust hs hhead
      refine ⟨hrun.trans hrest, (hfirst.trans hends).congr fun id entry hentry _ => ?_⟩
      rw [hfirst.cascade.passed_iff]
      simp [Passed, hentry]

theorem exists_refreshAll (s : AuthorityState) (times : List DateTime) :
    ∃ s', refreshAll times s = .ok () s' := by
  induction times generalizing s with
  | nil => exact ⟨s, rfl⟩
  | cons now times ih =>
      obtain ⟨expired, t, -, hhead, -⟩ := refreshExpirations_spec s now
      obtain ⟨s', hs'⟩ := ih t
      exact ⟨s', EStateM.bind_eq_ok.mpr ⟨expired, t, hhead, hs'⟩⟩

-- ============================================================================
-- Validation afterwards
-- ============================================================================

/-- What has not passed is validated as before, what has passed no longer. -/
theorem EndsJust.validateChain_iff (hs : Reachable s) (run : KernelRun s s')
    {passed : DateTime → Prop} (hmono : ∀ x y, x ≤ y → passed y → passed x)
    (h : EndsJust (Passed s passed) s s') {leaf : LeaseId} {expected : Option Nat}
    {manifest : CapabilityManifest} {clock : DateTime} {v : ValidatedAuthority} :
    validateChain s' leaf expected manifest clock = .ok v ↔
      validateChain s leaf expected manifest clock = .ok v ∧ ¬ passed v.leafExpiresAt := by
  have hsame {id : LeaseId} {entry : LeaseEntry} (hentry : s.leases.lookup id = some entry)
      (hnot : ¬ passed entry.certificate.expiresAt) : s'.leases.lookup id = some entry := by
    rw [h.lookup_eq, hentry]
    rintro ⟨entry', hentry', hpassed⟩
    rw [Option.some.inj (hentry'.symm.trans hentry)] at hpassed
    exact hnot hpassed
  -- a leaf that has not passed, and so no lease above it
  have hchain {entry : LeaseEntry} (hentry : s.leases.lookup leaf = some entry)
      (hnot : ¬ passed entry.certificate.expiresAt) :
      validateChain s' leaf expected manifest clock
        = validateChain s leaf expected manifest clock := by
    refine (agrees_of_generations hs run fun id hbelow above habove => ?_).validateChain_eq
      ⟨AList.mem_of_lookup hentry, .refl⟩ expected manifest clock
    obtain ⟨above', habove', hle⟩ := (Timely.of_reachable hs).expiresAt_le hbelow hentry
    obtain rfl := Option.some.inj (habove.symm.trans habove')
    exact ⟨above, hsame habove fun hpassed => hnot (hmono _ _ hle hpassed), rfl⟩
  constructor
  · intro hvalid
    obtain ⟨entry', path, hvalidated⟩ := validateChain_sound hvalid
    have hactive := (hvalidated.active hvalidated.leaf_mem).1
    obtain ⟨entry, hentry, -, -⟩ := h.cascade.before hvalidated.entry_eq
    by_cases hpassed : passed entry.certificate.expiresAt
    · have hdead := h.not_live ⟨entry, hentry, hpassed⟩ hvalidated.entry_eq
      rw [hactive] at hdead
      cases hdead
    · have hleaf := hvalidated.leafExpiresAt_eq
      rw [← Option.some.inj ((hsame hentry hpassed).symm.trans hvalidated.entry_eq)] at hleaf
      rw [hchain hentry hpassed] at hvalid
      rw [hleaf]
      exact ⟨hvalid, hpassed⟩
  · rintro ⟨hvalid, hnot⟩
    obtain ⟨entry, path, hvalidated⟩ := validateChain_sound hvalid
    rw [hvalidated.leafExpiresAt_eq] at hnot
    rw [hchain hvalidated.entry_eq hnot]
    exact hvalid

/-- Refreshing, with whatever clock values, grants nothing and denies nothing: what is
    validated afterwards is what was validated before and has not expired at one of them, and
    at a later clock value what is validated, and with which result, is the same. -/
theorem refreshing_is_transparent (hs : Reachable s) (times : List DateTime) :
    ∃ s', refreshAll times s = .ok () s' ∧
      ∀ (leaf : LeaseId) (expected : Option Nat) (manifest : CapabilityManifest)
        (clock : DateTime) (v : ValidatedAuthority),
        (validateChain s' leaf expected manifest clock = .ok v ↔
          validateChain s leaf expected manifest clock = .ok v ∧
            ∀ now ∈ times, now < v.leafExpiresAt) ∧
        ((∀ now ∈ times, now ≤ clock) →
          (validateChain s' leaf expected manifest clock = .ok v ↔
            validateChain s leaf expected manifest clock = .ok v)) := by
  obtain ⟨s', hs'⟩ := exists_refreshAll s times
  obtain ⟨run, hends⟩ := refreshAll_endsJust hs hs'
  refine ⟨s', hs', fun leaf expected manifest clock v => ?_⟩
  have hiff : validateChain s' leaf expected manifest clock = .ok v ↔
      validateChain s leaf expected manifest clock = .ok v ∧
        ∀ now ∈ times, now < v.leafExpiresAt := by
    rw [hends.validateChain_iff hs run fun x y hle ⟨now, hmem, hpassed⟩ =>
      ⟨now, hmem, hle.trans hpassed⟩]
    simp only [not_exists, not_and, not_le]
  refine ⟨hiff, fun hclock => hiff.trans ⟨And.left, fun hvalid => ⟨hvalid, ?_⟩⟩⟩
  obtain ⟨entry, path, hchain⟩ := validateChain_sound hvalid
  rw [hchain.leafExpiresAt_eq]
  exact fun now hmem => (hclock now hmem).trans_lt (hchain.active hchain.leaf_mem).2

omit [Externals] in
/-- The second lease of the reference kernel, refreshed before it expires, and again when it
    has expired: it validates as before the one refresh, and not at all after the other. -/
theorem refreshing_is_transparent_reference : letI := Reference.externals
    ∃ (s s' s'' : AuthorityState) (child : LeaseId) (v v' : ValidatedAuthority), Reachable s ∧
      child ≠ s.rootLeaseId ∧
      validateChain s child (some 0) Reference.manifest Reference.start = .ok v ∧
      refreshAll [Reference.start + Duration.minutes 1, Reference.start] s = .ok () s' ∧
      validateChain s' child (some 0) Reference.manifest Reference.start = .ok v ∧
      validateChain s child (some 0) Reference.manifest
        (Reference.start + Duration.minutes 2) = .ok v' ∧
      validateChain s' child (some 0) Reference.manifest
        (Reference.start + Duration.minutes 2) = .ok v' ∧
      refreshAll [Reference.start + Duration.minutes 5, Reference.start] s = .ok () s'' ∧
      ∀ v, validateChain s'' child (some 0) Reference.manifest Reference.start ≠ .ok v := by
  let := Reference.externals
  obtain ⟨s, rootEntry, childEntry, h⟩ := Reference.exists_delegated
  obtain ⟨v, hv⟩ := h.exists_validated Reference.start (by decide)
  obtain ⟨v', hv'⟩ := h.exists_validated (Reference.start + Duration.minutes 2) (by decide)
  have hexpires {now : DateTime} {v : ValidatedAuthority}
      (hv : validateChain s Reference.childId (some 0) Reference.manifest now = .ok v) :
      v.leafExpiresAt = Reference.start + Duration.minutes 5 := by
    obtain ⟨entry, path, hchain⟩ := validateChain_sound hv
    rw [hchain.leafExpiresAt_eq,
      ← Option.some.inj (h.lookup_child.symm.trans hchain.entry_eq), h.child_expires]
  obtain ⟨s', hs', hbefore⟩ := refreshing_is_transparent h.reachable
    [Reference.start + Duration.minutes 1, Reference.start]
  obtain ⟨s'', hs'', hafter⟩ := refreshing_is_transparent h.reachable
    [Reference.start + Duration.minutes 5, Reference.start]
  refine ⟨s, s', s'', Reference.childId, v, v', h.reachable, h.rootId ▸ h.ne, hv, hs', ?_, hv', ?_,
    hs'', fun v hvalid => ?_⟩
  · refine (hbefore _ _ _ _ _).1.mpr ⟨hv, ?_⟩
    rw [hexpires hv]
    decide
  · exact ((hbefore _ _ _ _ _).2 (by decide)).mpr hv'
  · obtain ⟨hv, hpassed⟩ := (hafter _ _ _ _ _).1.mp hvalid
    have hlater := hpassed (Reference.start + Duration.minutes 5) (by simp)
    rw [hexpires hv] at hlater
    exact lt_irrefl _ hlater

end

end GenesisRuntime
