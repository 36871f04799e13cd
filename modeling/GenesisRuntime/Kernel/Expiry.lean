/-
  GenesisRuntime.Kernel.Expiry

  What `refresh_expirations` does, lease by lease.

  The loop goes through the leases that are due in ascending order, and every lease
  that expires takes the live leases below it along.  No lease outlives the lease
  above it, so these are due themselves; which of the two ways a due lease ends
  depends on whether a due lease above it has a smaller id.
-/

import GenesisRuntime.Kernel.Completeness
import GenesisRuntime.Kernel.Effects

namespace GenesisRuntime

section
variable [Externals] {s s' : AuthorityState}

-- ============================================================================
-- Lifetimes along the chains
-- ============================================================================

/-- No lease outlives the mission, or the lease above it. -/
structure Timely (s : AuthorityState) : Prop where
  mission : ∀ id entry, s.leases.lookup id = some entry →
    entry.certificate.expiresAt ≤ s.mission.expiresAt
  parent : ∀ id entry, s.leases.lookup id = some entry → ∀ parent, entry.parentId = some parent →
    ∃ above, s.leases.lookup parent = some above ∧
      entry.certificate.expiresAt ≤ above.certificate.expiresAt

namespace Timely

theorem bootstrapped {request : RootLeaseRequest} {custody : KeyCustody} {now : DateTime}
    {uuid : String} (run : Bootstrap request custody now uuid) : Timely run.post := by
  constructor
  · intro id entry hid
    obtain ⟨-, rfl⟩ := run.eq_entry hid
    exact run.withinMission.expiresAt
  · intro id entry hid parent hparent
    obtain ⟨-, rfl⟩ := run.eq_entry hid
    rw [run.entry_parentId] at hparent
    cases hparent

/-- A renewal is bound by the mission and by the parent as it is now, not by the lease it
    replaces: a renewed lease may well outlive that one. -/
theorem step (hlife : Lifecycle s) (h : Timely s) (hstep : KernelStep s s') : Timely s' := by
  constructor
  · refine hstep.forall_leases
      (P := fun t _ entry => entry.certificate.expiresAt ≤ t.mission.expiresAt) h.mission ?_ ?_
    · intro id entry record _ hwithin
      rw [hstep.mission_eq]
      exact hwithin
    · intro id entry hissued
      rw [hstep.mission_eq]
      cases hissued with
      | delegated run fresh =>
          obtain ⟨signature, hcert⟩ := signedLease_fields run.certificate_eq
          simp only [Delegation.entry, hcert]
          exact (validateDelegationRequest_eq_ok.mp run.request_ok).1.2.2
      | renewed run fresh =>
          obtain ⟨signature, hcert⟩ := signedLease_fields run.certificate_eq
          simp only [Renewal.entry, hcert]
          exact (validateRenewalRequest_eq_ok.mp run.request_ok).1.2
  · refine hstep.forall_parents hlife
      (Q := fun above entry => entry.certificate.expiresAt ≤ above.certificate.expiresAt)
      h.parent ?_ ?_ ?_
    · exact fun _ _ _ _ hle => hle
    · exact fun run => run.withinLease.expiresAt
    · intro request now uuid run parent above hparent habove _
      obtain ⟨above', habove', -, hle⟩ :=
        (validateRenewalRequest_eq_ok.mp run.request_ok).2.2.2.2.2.2 parent hparent
      rw [habove] at habove'
      cases habove'
      obtain ⟨signature, hcert⟩ := signedLease_fields run.certificate_eq
      simp only [Renewal.entry, hcert]
      exact hle

theorem of_reachable (h : Reachable s) : Timely s := by
  have hboth : Lifecycle s ∧ Timely s := by
    refine h.invariant (P := fun t => Lifecycle t ∧ Timely t) ?_ ?_
    · intro request custody now uuid s₀ hboot
      obtain ⟨run, rfl⟩ := bootstrap_eq_ok hboot
      exact ⟨Lifecycle.bootstrapped run, bootstrapped run⟩
    · intro t t' ⟨hlife, htimely⟩ hstep
      exact ⟨hlife.step hstep, htimely.step hlife hstep⟩
  exact hboth.2

/-- A stored lease expires no later than any lease above it. -/
theorem expiresAt_le (h : Timely s) {above id : LeaseId} (hbelow : LeaseBelow s above id)
    {entry : LeaseEntry} (hentry : s.leases.lookup id = some entry) :
    ∃ aboveEntry, s.leases.lookup above = some aboveEntry ∧
      entry.certificate.expiresAt ≤ aboveEntry.certificate.expiresAt := by
  induction hbelow generalizing entry with
  | refl => exact ⟨entry, hentry, le_rfl⟩
  | tail _ hlink ih =>
      obtain ⟨entry', hentry', hparent⟩ := hlink
      obtain rfl : entry = entry' := Option.some.inj (hentry.symm.trans hentry')
      obtain ⟨parentEntry, hparentEntry, hle⟩ := h.parent _ entry hentry _ hparent
      obtain ⟨aboveEntry, habove, hle'⟩ := ih hparentEntry
      exact ⟨aboveEntry, habove, hle.trans hle'⟩

end Timely

-- ============================================================================
-- The leases that are due
-- ============================================================================

theorem pairwise_dueLeases (s : AuthorityState) (now : DateTime) :
    (dueLeases s now).Pairwise (· < ·) := by
  have hsorted : (dueLeases s now).Pairwise (· ≤ ·) := sortByKey_pairwise id _
  have hnodup : (dueLeases s now).Nodup := by
    refine (sortByKey_perm id _).nodup_iff.mpr ?_
    exact (AList.keys_nodup s.leases).sublist (List.filter_sublist.map Sigma.fst)
  exact hsorted.imp₂ (fun _ _ hle hne => lt_of_le_of_ne hle hne) hnodup

/-- The live leases below a lease that is due are due. -/
theorem Timely.mem_dueLeases_of_below (h : Timely s) {now : DateTime} {above id : LeaseId}
    (habove : above ∈ dueLeases s now) (hbelow : LeaseBelow s above id)
    (hlive : s.isLive id = true) : id ∈ dueLeases s now := by
  obtain ⟨entry, hentry, hlive⟩ := isLive_eq_true.mp hlive
  obtain ⟨aboveEntry, haboveEntry, hle⟩ := h.expiresAt_le hbelow hentry
  obtain ⟨aboveEntry', haboveEntry', -, hdue⟩ := mem_dueLeases.mp habove
  rw [haboveEntry] at haboveEntry'
  cases haboveEntry'
  exact mem_dueLeases.mpr ⟨entry, hentry, hlive, hle.trans hdue⟩

-- ============================================================================
-- One turn of the loop
-- ============================================================================

/-- A lease that is live at its turn expires, and the live leases below it are revoked. -/
structure Expires (s s' : AuthorityState) (now : DateTime) (id : LeaseId) (entry : LeaseEntry)
    (revoked : List LeaseId) : Prop where
  cascade : Cascade s s'
  self : s'.leases.lookup id = some (entry.withRecord (entry.record.advance .expired))
  below : ∀ id' entry', id' ≠ id → LeaseBelow s id id' → s.leases.lookup id' = some entry' →
    s'.leases.lookup id'
      = some (entry'.withRecord (entry'.record.cascade "ancestor lease expired" now))
  elsewhere : ∀ id', ¬ LeaseBelow s id id' → s'.leases.lookup id' = s.leases.lookup id'
  nodup : revoked.Nodup
  mem_revoked : ∀ id', id' ∈ revoked ↔ id' ≠ id ∧ LeaseBelow s id id' ∧ s.isLive id' = true
  appends : Appends s s' now
    (⟨id, none, .leaseExpired⟩ :: revoked.map fun id' => ⟨id', some id, .leaseRevoked⟩)

theorem expireIfLive_dead {now : DateTime} {expired : List LeaseId} {id : LeaseId}
    {entry : LeaseEntry} (hentry : s.leases.lookup id = some entry)
    (hdead : entry.record.state.isLive = false) :
    expireIfLive now expired id s = .ok expired s := by
  simp only [expireIfLive, EStateM.get_bind_eq_ok, orReject_eq_ofResult, ofResult_bind_eq_ok,
    orReject_eq_ok]
  refine ⟨entry, hentry, ?_⟩
  rw [if_neg (by rw [hdead]; exact Bool.false_ne_true)]
  rfl

theorem expireIfLive_live (now : DateTime) (expired : List LeaseId) {id : LeaseId}
    {entry : LeaseEntry} (hentry : s.leases.lookup id = some entry)
    (hlive : entry.record.state.isLive = true) :
    ∃ s' revoked, expireIfLive now expired id s = .ok (expired ++ [id]) s' ∧
      Expires s s' now id entry revoked := by
  let s₁ := (s.putLease id (entry.withRecord (entry.record.advance .expired))).pushEvent id none
    .leaseExpired now
  have hlook₁ : ∀ id', s₁.leases.lookup id' = if id' = id then
      some (entry.withRecord (entry.record.advance .expired)) else s.leases.lookup id' :=
    fun id' => AuthorityState.lookup_putLease s id'
  have hcas₁ : Cascade s s₁ :=
    (Cascade.putLease hentry (.expire hlive)).trans (Cascade.pushEvent id none .leaseExpired now _)
  have hself₁ : s₁.leases.lookup id
      = some (entry.withRecord (entry.record.advance .expired)) := by
    rw [hlook₁, if_pos rfl]
  have hmem : id ∈ s₁.leases := AList.mem_of_lookup hself₁
  obtain ⟨s', hrun, hcas, hlook⟩ := revokeDescendants_spec "ancestor lease expired" now hmem
  have hdrop : ∀ id', id' ∈ (descendants s₁ id).drop 1 ↔ LeaseBelow s id id' ∧ id' ≠ id := by
    intro id'
    rw [mem_drop_descendants hmem, mem_descendants hmem, hcas₁.below_iff]
  refine ⟨s', ((descendants s₁ id).drop 1).filter s₁.isLive, ?_, hcas₁.trans hcas, ?_, ?_, ?_, ?_,
    ?_, ?_⟩
  · simp only [expireIfLive, EStateM.get_bind_eq_ok, orReject_eq_ofResult, ofResult_bind_eq_ok,
      orReject_eq_ok]
    refine ⟨entry, hentry, ?_⟩
    rw [if_pos hlive]
    simp only [EStateM.modify_bind_eq_ok]
    exact EStateM.bind_eq_ok.mpr ⟨(), s', hrun, rfl⟩
  · rw [hlook, hself₁, Option.map_some, cascadeEntry, if_neg fun h => ((hdrop id).mp h).2 rfl]
  · intro id' entry' hne hbelow hid'
    rw [hlook, hlook₁, if_neg hne, hid', Option.map_some, cascadeEntry,
      if_pos ((hdrop id').mpr ⟨hbelow, hne⟩)]
  · intro id' hbelow
    have hne : id' ≠ id := by
      rintro rfl
      exact hbelow .refl
    rw [hlook, hlook₁, if_neg hne]
    cases s.leases.lookup id' with
    | none => rfl
    | some entry' =>
        rw [Option.map_some, cascadeEntry, if_neg fun h => hbelow ((hdrop id').mp h).1]
  · exact (nodup_descendants hmem).drop.filter _
  · intro id'
    rw [List.mem_filter, hdrop, and_assoc, and_left_comm]
    refine and_congr_right fun hne => and_congr_right fun _ => ?_
    rw [AuthorityState.isLive, hlook₁, if_neg hne]
    rfl
  · have hexpired : Appends s s₁ now [⟨id, none, .leaseExpired⟩] :=
      .pushEvent id none .leaseExpired rfl
    exact hexpired.trans (revokeDescendants_appends hmem hrun)

namespace Expires

variable {now : DateTime} {id : LeaseId} {entry : LeaseEntry} {revoked : List LeaseId}

/-- Leases that are over already stay as they are. -/
theorem dead (h : Expires s s' now id entry revoked) {id' : LeaseId} {entry' : LeaseEntry}
    (hne : id' ≠ id) (hid' : s.leases.lookup id' = some entry')
    (hdead : entry'.record.state.isLive = false) : s'.leases.lookup id' = some entry' := by
  by_cases hbelow : LeaseBelow s id id'
  · rw [h.below id' entry' hne hbelow hid', LeaseRecord.cascade,
      if_neg (by rw [hdead]; exact Bool.false_ne_true)]
  · rw [h.elsewhere id' hbelow, hid']

end Expires

-- ============================================================================
-- The loop
-- ============================================================================

/-- Among the leases the loop has gone through there is one above this lease, with a
    smaller id. -/
def Overtaken (s : AuthorityState) (done : List LeaseId) (id : LeaseId) : Prop :=
  ∃ above ∈ done, above < id ∧ LeaseBelow s above id

theorem overtaken_append {done : List LeaseId} {last id : LeaseId} :
    Overtaken s (done ++ [last]) id ↔
      Overtaken s done id ∨ (last < id ∧ LeaseBelow s last id) := by
  simp [Overtaken, or_and_right, exists_or]

/-- The leases that have ended once the loop has gone through `done`. -/
def EndedBy (s : AuthorityState) (done : List LeaseId) (id : LeaseId) : Prop :=
  s.isLive id = true ∧ (id ∈ done ∨ Overtaken s done id)

/-- What the log says of a lease that has ended: either it expired, or it was revoked
    because a lease above it expired. -/
inductive EndNote (s : AuthorityState) (expired : List LeaseId) : Note → Prop where
  | expired {id : LeaseId} (h : id ∈ expired) : EndNote s expired ⟨id, none, .leaseExpired⟩
  | revoked {id above : LeaseId} (h : id ∉ expired) (habove : above ∈ expired)
      (hbelow : LeaseBelow s above id) : EndNote s expired ⟨id, some above, .leaseRevoked⟩

theorem EndNote.append {expired : List LeaseId} {note : Note} {id : LeaseId}
    (h : EndNote s expired note) (hne : note.leaseId ≠ id) : EndNote s (expired ++ [id]) note := by
  cases h with
  | expired h => exact .expired (List.mem_append_left [id] h)
  | revoked h habove hbelow =>
      refine .revoked ?_ (List.mem_append_left [id] habove) hbelow
      rw [List.mem_append, List.mem_singleton, not_or]
      exact ⟨h, hne⟩

/-- The state of the loop after the leases in `done`, seen from the state `s` before it. -/
structure Swept (s s' : AuthorityState) (now : DateTime) (done expired : List LeaseId)
    (notes : List Note) : Prop where
  cascade : Cascade s s'
  overtaken : ∀ id entry, s.leases.lookup id = some entry → entry.record.state.isLive = true →
    Overtaken s done id →
    s'.leases.lookup id
      = some (entry.withRecord (entry.record.revoke "ancestor lease expired" now))
  reached : ∀ id entry, s.leases.lookup id = some entry → entry.record.state.isLive = true →
    id ∈ done → ¬ Overtaken s done id →
    s'.leases.lookup id = some (entry.withRecord (entry.record.advance .expired))
  spared : ∀ id, ¬ EndedBy s done id → s'.leases.lookup id = s.leases.lookup id
  sublist : expired.Sublist done
  mem_expired : ∀ id, id ∈ expired ↔ id ∈ done ∧ ¬ Overtaken s done id
  appends : Appends s s' now notes
  nodup : (notes.map Note.leaseId).Nodup
  mem_notes : ∀ id, id ∈ notes.map Note.leaseId ↔ EndedBy s done id
  notes_eq : ∀ note ∈ notes, EndNote s expired note

namespace Swept

variable {now : DateTime} {done expired : List LeaseId} {notes : List Note}

theorem init (s : AuthorityState) (now : DateTime) : Swept s s now [] [] [] where
  cascade := Cascade.refl s
  overtaken := by simp [Overtaken]
  reached := by simp
  spared := fun _ _ => rfl
  sublist := List.Sublist.slnil
  mem_expired := by simp
  appends := .refl s now
  nodup := List.nodup_nil
  mem_notes := by simp [EndedBy, Overtaken]
  notes_eq := by simp

/-- A lease that has ended is over. -/
theorem dead (h : Swept s s' now done expired notes) {id : LeaseId}
    (hended : EndedBy s done id) :
    ∃ entry', s'.leases.lookup id = some entry' ∧ entry'.record.state.isLive = false := by
  obtain ⟨hlive, hended⟩ := hended
  obtain ⟨entry, hentry, hlive⟩ := isLive_eq_true.mp hlive
  by_cases hover : Overtaken s done id
  · exact ⟨_, h.overtaken id entry hentry hlive hover, rfl⟩
  · exact ⟨_, h.reached id entry hentry hlive (hended.resolve_right hover) hover, rfl⟩

/-- The leases that are still live are those that were live and have not ended. -/
theorem isLive_iff (h : Swept s s' now done expired notes) {id : LeaseId} :
    s'.isLive id = true ↔ s.isLive id = true ∧ ¬ EndedBy s done id := by
  by_cases hended : EndedBy s done id
  · obtain ⟨entry', hentry', hdead⟩ := h.dead hended
    rw [isLive_of_lookup hentry', hdead]
    simp [hended]
  · rw [AuthorityState.isLive, h.spared id hended]
    simp [hended, AuthorityState.isLive]

/-- A turn on a lease that a lease above it has taken along. -/
theorem skip (h : Swept s s' now done expired notes) {id : LeaseId}
    (hover : Overtaken s done id) : Swept s s' now (done ++ [id]) expired notes := by
  have hsame : ∀ id', Overtaken s (done ++ [id]) id' ↔ Overtaken s done id' := by
    intro id'
    rw [overtaken_append, or_iff_left_iff_imp]
    rintro ⟨hlt, hbelow⟩
    obtain ⟨above, habove, hlt', hbelow'⟩ := hover
    exact ⟨above, habove, hlt'.trans hlt, hbelow'.trans hbelow⟩
  have hended : ∀ id', EndedBy s (done ++ [id]) id' ↔ EndedBy s done id' := by
    intro id'
    rw [EndedBy, EndedBy, hsame, List.mem_append, List.mem_singleton]
    refine and_congr_right fun _ => ⟨?_, fun h => h.imp_left .inl⟩
    rintro ((hdone | rfl) | hover')
    · exact .inl hdone
    · exact .inr hover
    · exact .inr hover'
  have hmem : ∀ id', ¬ Overtaken s done id' → (id' ∈ done ++ [id] ↔ id' ∈ done) := by
    intro id' hnot
    rw [List.mem_append, List.mem_singleton, or_iff_left_iff_imp]
    rintro rfl
    exact absurd hover hnot
  refine ⟨h.cascade, ?_, ?_, ?_, h.sublist.trans (List.sublist_append_left _ _), ?_, h.appends,
    h.nodup, ?_, h.notes_eq⟩
  · intro id' entry hentry hlive hover'
    exact h.overtaken id' entry hentry hlive ((hsame id').mp hover')
  · intro id' entry hentry hlive hdone hnot
    rw [hsame] at hnot
    exact h.reached id' entry hentry hlive ((hmem id' hnot).mp hdone) hnot
  · intro id' hnot
    exact h.spared id' (mt (hended id').mpr hnot)
  · intro id'
    rw [h.mem_expired, hsame]
    exact and_congr_left fun hnot => (hmem id' hnot).symm
  · intro id'
    rw [h.mem_notes, hended]

section
variable {t : AuthorityState} {id : LeaseId} {rest : List LeaseId}
  (hdue : dueLeases s now = done ++ id :: rest)
include hdue

/-- The leases gone through before have smaller ids. -/
theorem lt_of_mem_done {id' : LeaseId} (hdone : id' ∈ done) : id' < id := by
  have hsorted := pairwise_dueLeases s now
  rw [hdue, List.pairwise_append] at hsorted
  exact hsorted.2.2 id' hdone id List.mem_cons_self

/-- A live lease below the one whose turn it is has had its turn, or will have it. -/
theorem mem_done_or_lt (htimely : Timely s) {id' : LeaseId} (hlive : s.isLive id' = true)
    (hbelow : LeaseBelow s id id') (hne : id' ≠ id) : id' ∈ done ∨ id < id' := by
  have hsorted := pairwise_dueLeases s now
  have hmem : id' ∈ dueLeases s now :=
    htimely.mem_dueLeases_of_below (by rw [hdue]; simp) hbelow hlive
  rw [hdue] at hmem hsorted
  rcases List.mem_append.mp hmem with hdone | hmem
  · exact .inl hdone
  · have hrest := (List.mem_cons.mp hmem).resolve_left hne
    exact .inr ((List.pairwise_cons.mp (List.pairwise_append.mp hsorted).2.1).1 id' hrest)

/-- What a turn on a live lease adds to the leases that have ended. -/
theorem endedBy_append (htimely : Timely s) (h : Swept s s' now done expired notes)
    {entry : LeaseEntry} {revoked : List LeaseId} (hturn : Expires s' t now id entry revoked)
    (id' : LeaseId) :
    EndedBy s (done ++ [id]) id' ↔ EndedBy s done id' ∨ id' = id ∨ id' ∈ revoked := by
  have hlive : s.isLive id = true := by
    obtain ⟨entry, hentry, hlive, -⟩ :=
      mem_dueLeases.mp (show id ∈ dueLeases s now by rw [hdue]; simp)
    exact isLive_eq_true.mpr ⟨entry, hentry, hlive⟩
  have hrevoked := hturn.mem_revoked id'
  rw [h.cascade.below_iff, h.isLive_iff] at hrevoked
  constructor
  · rintro ⟨hlive', hended⟩
    rw [List.mem_append, List.mem_singleton, overtaken_append] at hended
    by_cases hbefore : EndedBy s done id'
    · exact .inl hbefore
    · right
      rcases hended with (hdone | heq) | hover | ⟨hlt, hbelow⟩
      · exact absurd ⟨hlive', .inl hdone⟩ hbefore
      · exact .inl heq
      · exact absurd ⟨hlive', .inr hover⟩ hbefore
      · exact .inr (hrevoked.mpr ⟨ne_of_gt hlt, hbelow, hlive', hbefore⟩)
  · rintro (⟨hlive', hended⟩ | rfl | hmem)
    · exact ⟨hlive', hended.imp (List.mem_append_left _)
        fun hover => overtaken_append.mpr (.inl hover)⟩
    · exact ⟨hlive, .inl (by simp)⟩
    · obtain ⟨hne, hbelow, hlive', hbefore⟩ := hrevoked.mp hmem
      have hahead := mem_done_or_lt hdue htimely hlive' hbelow hne
      have hlt := hahead.resolve_left fun hdone => hbefore ⟨hlive', .inl hdone⟩
      exact ⟨hlive', .inr (overtaken_append.mpr (.inr ⟨hlt, hbelow⟩))⟩

/-- No lease that has had its turn is affected by the turn of a later one. -/
theorem overtaken_append_iff {id' : LeaseId} (hid' : id' ∈ done ++ [id]) :
    Overtaken s (done ++ [id]) id' ↔ Overtaken s done id' := by
  rw [overtaken_append, or_iff_left_iff_imp]
  rintro ⟨hlt, -⟩
  rcases List.mem_append.mp hid' with hdone | hid'
  · exact absurd (lt_of_mem_done hdue hdone) hlt.asymm
  · exact absurd hlt (by rw [List.mem_singleton.mp hid']; exact lt_irrefl id)

/-- The lease whose turn it is has not ended yet, unless a lease above it took it along. -/
theorem not_endedBy (hnot : ¬ Overtaken s done id) : ¬ EndedBy s done id := by
  rintro ⟨-, hdone | hover⟩
  · exact lt_irrefl id (lt_of_mem_done hdue hdone)
  · exact hnot hover

/-- The leases that have expired by a turn on a lease that is still live. -/
theorem mem_expired_append (h : Swept s s' now done expired notes)
    (hnot : ¬ Overtaken s done id) (id' : LeaseId) :
    id' ∈ expired ++ [id] ↔ id' ∈ done ++ [id] ∧ ¬ Overtaken s (done ++ [id]) id' := by
  by_cases hid' : id' ∈ done ++ [id]
  · rw [overtaken_append_iff hdue hid', List.mem_append, List.mem_append, h.mem_expired,
      or_and_right]
    refine or_congr_right ?_
    rw [List.mem_singleton, iff_self_and]
    rintro rfl
    exact hnot
  · rw [List.mem_append, not_or] at hid'
    simp [h.mem_expired, hid'.1, List.mem_singleton.not.mp hid'.2]

/-- A turn on a lease that is still live. -/
theorem expire (htimely : Timely s) (h : Swept s s' now done expired notes)
    (hnot : ¬ Overtaken s done id) {entry : LeaseEntry} {revoked : List LeaseId}
    (hentry : s.leases.lookup id = some entry) (hturn : Expires s' t now id entry revoked) :
    Swept s t now (done ++ [id]) (expired ++ [id])
      (notes ++ ⟨id, none, .leaseExpired⟩ ::
        revoked.map fun id' => ⟨id', some id, .leaseRevoked⟩) := by
  have hended := endedBy_append hdue htimely h hturn
  have hfirst := not_endedBy hdue hnot
  have hkept : ∀ id', EndedBy s done id' → t.leases.lookup id' = s'.leases.lookup id' := by
    intro id' hbefore
    obtain ⟨entry', hentry', hdead⟩ := h.dead hbefore
    rw [hentry']
    exact hturn.dead (fun heq => hfirst (heq ▸ hbefore)) hentry' hdead
  have hrevoked : ∀ id' ∈ revoked,
      ¬ EndedBy s done id' ∧ id' ∉ done ∧ id' ≠ id ∧ LeaseBelow s id id' := by
    intro id' hid'
    obtain ⟨hne, hbelow, hlive⟩ := (hturn.mem_revoked id').mp hid'
    rw [h.cascade.below_iff] at hbelow
    obtain ⟨hlive, hbefore⟩ := h.isLive_iff.mp hlive
    exact ⟨hbefore, fun hdone => hbefore ⟨hlive, .inl hdone⟩, hne, hbelow⟩
  refine ⟨h.cascade.trans hturn.cascade, ?_, ?_, ?_, h.sublist.append (List.Sublist.refl _),
    mem_expired_append hdue h hnot, h.appends.trans hturn.appends, ?_, ?_, ?_⟩
  · intro id' entry' hentry' hlive hover'
    by_cases hbefore : Overtaken s done id'
    · rw [hkept id' ⟨isLive_eq_true.mpr ⟨entry', hentry', hlive⟩, .inr hbefore⟩]
      exact h.overtaken id' entry' hentry' hlive hbefore
    · obtain ⟨hlt, hbelow⟩ := (overtaken_append.mp hover').resolve_left hbefore
      have hspared : s'.leases.lookup id' = some entry' := by
        rw [← hentry']
        apply h.spared
        rintro ⟨-, hdone | hover⟩
        · exact hlt.asymm (lt_of_mem_done hdue hdone)
        · exact hbefore hover
      rw [hturn.below id' entry' (ne_of_gt hlt) (h.cascade.below_iff.mpr hbelow) hspared,
        LeaseRecord.cascade, if_pos hlive]
  · intro id' entry' hentry' hlive hid' hnot'
    rw [overtaken_append_iff hdue hid'] at hnot'
    rcases List.mem_append.mp hid' with hdone | hid'
    · rw [hkept id' ⟨isLive_eq_true.mpr ⟨entry', hentry', hlive⟩, .inl hdone⟩]
      exact h.reached id' entry' hentry' hlive hdone hnot'
    · obtain rfl := List.mem_singleton.mp hid'
      obtain rfl : entry = entry' := Option.some.inj (hentry.symm.trans hentry')
      exact hturn.self
  · intro id' hnot'
    rw [hended, not_or, not_or] at hnot'
    obtain ⟨hbefore, hne, hnotRevoked⟩ := hnot'
    rw [← h.spared id' hbefore]
    by_cases hbelow : LeaseBelow s' id id'
    · have hdead : s'.isLive id' ≠ true := fun hlive =>
        hnotRevoked ((hturn.mem_revoked id').mpr ⟨hne, hbelow, hlive⟩)
      cases hid' : s'.leases.lookup id' with
      | none => exact hturn.cascade.absent id' hid'
      | some entry' =>
          rw [isLive_of_lookup hid'] at hdead
          exact hturn.dead hne hid' (Bool.eq_false_iff.mpr hdead)
    · exact hturn.elsewhere id' hbelow
  · simp only [List.map_append, List.map_cons, List.map_map, Function.comp_def, List.map_id']
    refine h.nodup.append (List.nodup_cons.mpr ⟨fun hid => (hrevoked id hid).2.2.1 rfl,
      hturn.nodup⟩) ?_
    intro id' hid' hnew
    rw [h.mem_notes] at hid'
    rcases List.mem_cons.mp hnew with rfl | hnew
    · exact hfirst hid'
    · exact (hrevoked id' hnew).1 hid'
  · intro id'
    simp only [List.map_append, List.map_cons, List.map_map, Function.comp_def, List.map_id',
      List.mem_append, List.mem_cons, h.mem_notes, hended]
  · intro note hnote
    rcases List.mem_append.mp hnote with hold | hnew
    · refine (h.notes_eq note hold).append fun heq => hfirst ?_
      rw [← h.mem_notes, ← heq]
      exact List.mem_map_of_mem hold
    · rcases List.mem_cons.mp hnew with rfl | hnew
      · exact .expired (by simp)
      · obtain ⟨id', hid', rfl⟩ := List.mem_map.mp hnew
        obtain ⟨-, hdone, hne, hbelow⟩ := hrevoked id' hid'
        refine .revoked ?_ (by simp) hbelow
        rw [List.mem_append, List.mem_singleton, not_or]
        exact ⟨fun hexpired => hdone ((h.mem_expired id').mp hexpired).1, hne⟩

end

/-- The rest of the loop. -/
theorem run (htimely : Timely s) {rest : List LeaseId} (hdue : dueLeases s now = done ++ rest)
    (h : Swept s s' now done expired notes) :
    ∃ expired' t notes', rest.foldlM (expireIfLive now) expired s' = .ok expired' t ∧
      Swept s t now (dueLeases s now) expired' notes' := by
  induction rest generalizing s' done expired notes with
  | nil =>
      rw [hdue, List.append_nil]
      exact ⟨expired, s', notes, rfl, h⟩
  | cons id rest ih =>
      obtain ⟨entry, hentry, hlive, -⟩ :=
        mem_dueLeases.mp (show id ∈ dueLeases s now by rw [hdue]; simp)
      have hdue' : dueLeases s now = (done ++ [id]) ++ rest := by
        rw [hdue, List.append_assoc, List.singleton_append]
      rw [List.foldlM_cons, EStateM.bind_apply]
      by_cases hover : Overtaken s done id
      · obtain ⟨entry', hentry', hdead⟩ :=
          h.dead ⟨isLive_eq_true.mpr ⟨entry, hentry, hlive⟩, .inr hover⟩
        rw [expireIfLive_dead hentry' hdead]
        exact ih hdue' (h.skip hover)
      · have hentry' : s'.leases.lookup id = some entry := by
          rw [← hentry]
          apply h.spared
          rintro ⟨-, hdone | hover'⟩
          · exact lt_irrefl id (lt_of_mem_done hdue hdone)
          · exact hover hover'
        obtain ⟨t, revoked, hrun, hturn⟩ := expireIfLive_live now expired hentry' hlive
        rw [hrun]
        exact ih hdue' (expire hdue htimely h hover hentry hturn)

end Swept

/-- `refresh_expirations`, described lease by lease. -/
theorem refreshExpirations_swept (htimely : Timely s) (now : DateTime) :
    ∃ expired s' notes, refreshExpirations now s = .ok expired s' ∧
      Swept s s' now (dueLeases s now) expired notes := by
  obtain ⟨expired, s', notes, hrun, h⟩ := (Swept.init s now).run htimely (List.nil_append _).symm
  exact ⟨expired, s', notes, EStateM.get_bind_eq_ok.mpr hrun, h⟩

/-- A cascade never takes a lease along that is not due. -/
theorem endedBy_dueLeases (htimely : Timely s) {now : DateTime} {id : LeaseId} :
    EndedBy s (dueLeases s now) id ↔ id ∈ dueLeases s now := by
  constructor
  · rintro ⟨hlive, hdue | ⟨above, habove, -, hbelow⟩⟩
    · exact hdue
    · exact htimely.mem_dueLeases_of_below habove hbelow hlive
  · intro hdue
    obtain ⟨entry, hentry, hlive, -⟩ := mem_dueLeases.mp hdue
    exact ⟨isLive_eq_true.mpr ⟨entry, hentry, hlive⟩, .inl hdue⟩

namespace Swept

variable {now : DateTime} {expired : List LeaseId} {notes : List Note}

/-- What becomes of a lease that is due. -/
theorem due (h : Swept s s' now (dueLeases s now) expired notes) {id : LeaseId}
    {entry : LeaseEntry} (hid : id ∈ dueLeases s now) (hentry : s.leases.lookup id = some entry) :
    (id ∈ expired ∧ ¬ Overtaken s (dueLeases s now) id ∧
      s'.leases.lookup id = some (entry.withRecord (entry.record.advance .expired))) ∨
    (id ∉ expired ∧ Overtaken s (dueLeases s now) id ∧ s'.leases.lookup id
      = some (entry.withRecord (entry.record.revoke "ancestor lease expired" now))) := by
  obtain ⟨entry', hentry', hlive, -⟩ := mem_dueLeases.mp hid
  obtain rfl : entry = entry' := Option.some.inj (hentry.symm.trans hentry')
  rw [h.mem_expired]
  by_cases hover : Overtaken s (dueLeases s now) id
  · exact .inr ⟨fun hexpired => hexpired.2 hover, hover, h.overtaken id entry hentry hlive hover⟩
  · exact .inl ⟨⟨hid, hover⟩, hover, h.reached id entry hentry hlive hid hover⟩

/-- The records that change are those of the leases that are due. -/
theorem changed_iff (htimely : Timely s) (h : Swept s s' now (dueLeases s now) expired notes)
    {id : LeaseId} :
    s'.leases.lookup id ≠ s.leases.lookup id ↔ id ∈ dueLeases s now := by
  constructor
  · intro hne
    by_contra hnot
    exact hne (h.spared id (mt (endedBy_dueLeases htimely).mp hnot))
  · intro hid heq
    obtain ⟨entry', hentry', hdead⟩ := h.dead ((endedBy_dueLeases htimely).mpr hid)
    obtain ⟨entry, hentry, hlive, -⟩ := mem_dueLeases.mp hid
    rw [hentry', hentry] at heq
    cases heq
    rw [hdead] at hlive
    cases hlive

/-- Afterwards no lease is due. -/
theorem dueLeases_eq_nil (htimely : Timely s)
    (h : Swept s s' now (dueLeases s now) expired notes) : dueLeases s' now = [] := by
  rw [List.eq_nil_iff_forall_not_mem]
  intro id hid
  obtain ⟨entry, hentry, hlive, hexpires⟩ := mem_dueLeases.mp hid
  obtain ⟨-, hnot⟩ := h.isLive_iff.mp (isLive_eq_true.mpr ⟨entry, hentry, hlive⟩)
  rw [h.spared id hnot] at hentry
  exact hnot ((endedBy_dueLeases htimely).mpr (mem_dueLeases.mpr ⟨entry, hentry, hlive, hexpires⟩))

end Swept

/-- In every reachable state, `refresh_expirations` ends exactly the live leases that are
    due, each with one change of its record and one event, and changes nothing else. It
    returns those that ended as expired, in ascending order; called again with the same
    clock value it does nothing. -/
theorem refreshExpirations_ends_exactly_due (hs : Reachable s) (now : DateTime) :
    ∃ expired s', refreshExpirations now s = .ok expired s' ∧
      (∀ id, s'.leases.lookup id ≠ s.leases.lookup id ↔
        ∃ entry, s.leases.lookup id = some entry ∧ entry.record.state.isLive = true ∧
          entry.certificate.expiresAt ≤ now) ∧
      (∀ id entry, s.leases.lookup id = some entry →
        s'.leases.lookup id ≠ s.leases.lookup id →
        ∃ record, s'.leases.lookup id = some { entry with record := record } ∧
          (record.state = .expired ∨ record.state = .revoked) ∧
          record.generation = entry.record.generation + 1) ∧
      (s'.mission = s.mission ∧ s'.rootLeaseId = s.rootLeaseId ∧
        s'.identities = s.identities ∧ s'.custodians = s.custodians) ∧
      (∃ notes, Appends s s' now notes ∧ (notes.map Note.leaseId).Nodup ∧
        (∀ id, id ∈ notes.map Note.leaseId ↔ s'.leases.lookup id ≠ s.leases.lookup id) ∧
        ∀ note ∈ notes, EndNote s expired note) ∧
      (expired.Pairwise (· < ·) ∧
        ∀ id, id ∈ expired ↔ s'.leases.lookup id ≠ s.leases.lookup id ∧
          ∃ entry', s'.leases.lookup id = some entry' ∧ entry'.record.state = .expired) ∧
      refreshExpirations now s' = .ok [] s' := by
  have htimely := Timely.of_reachable hs
  obtain ⟨expired, s', notes, hrun, h⟩ := refreshExpirations_swept htimely now
  have hchanged : ∀ id, s'.leases.lookup id ≠ s.leases.lookup id ↔ id ∈ dueLeases s now :=
    fun id => h.changed_iff htimely
  refine ⟨expired, s', hrun, fun id => (hchanged id).trans mem_dueLeases, ?_,
    ⟨h.cascade.mission, h.cascade.rootLeaseId, h.cascade.identities, h.cascade.custodians⟩,
    ⟨notes, h.appends, h.nodup, ?_, h.notes_eq⟩,
    ⟨(pairwise_dueLeases s now).sublist h.sublist, ?_⟩, ?_⟩
  · intro id entry hentry hne
    rcases h.due ((hchanged id).mp hne) hentry with ⟨-, -, hid⟩ | ⟨-, -, hid⟩
    · exact ⟨_, hid, .inl rfl, rfl⟩
    · exact ⟨_, hid, .inr rfl, rfl⟩
  · intro id
    rw [h.mem_notes, endedBy_dueLeases htimely, hchanged]
  · intro id
    rw [hchanged]
    constructor
    · intro hid
      have hdue := h.sublist.subset hid
      obtain ⟨entry, hentry, -⟩ := mem_dueLeases.mp hdue
      rcases h.due hdue hentry with ⟨-, -, hlookup⟩ | ⟨hnot, -⟩
      · exact ⟨hdue, _, hlookup, rfl⟩
      · exact absurd hid hnot
    · rintro ⟨hdue, entry', hentry', hstate⟩
      obtain ⟨entry, hentry, -⟩ := mem_dueLeases.mp hdue
      rcases h.due hdue hentry with ⟨hid, -⟩ | ⟨-, -, hlookup⟩
      · exact hid
      · rw [hlookup] at hentry'
        cases hentry'
        cases hstate
  · refine EStateM.get_bind_eq_ok.mpr ?_
    rw [h.dueLeases_eq_nil htimely]
    rfl

omit [Externals] in
/-- When both leases of the reference kernel are due, and the loop comes to the one above first,
    it ends as expired and the one below is revoked with it. -/
theorem Reference.TwoLeases.exists_expired {root child : LeaseId} (hlt : root < child) :
    letI := Reference.externals
    ∀ {s : AuthorityState} {rootEntry childEntry : LeaseEntry},
      Reference.TwoLeases root child s rootEntry childEntry →
      ∃ s', refreshExpirations (Reference.start + Duration.minutes 5) s = .ok [root] s' ∧
        s'.leases.lookup root = some (rootEntry.withRecord (rootEntry.record.advance .expired)) ∧
        s'.leases.lookup child = some (childEntry.withRecord
          (childEntry.record.revoke "ancestor lease expired"
            (Reference.start + Duration.minutes 5))) := by
  let := Reference.externals
  intro s rootEntry childEntry h
  obtain ⟨expired, s', notes, hrun, hswept⟩ := refreshExpirations_swept
    (Timely.of_reachable h.reachable) (Reference.start + Duration.minutes 5)
  have hrootDue : root ∈ dueLeases s (Reference.start + Duration.minutes 5) :=
    mem_dueLeases.mpr ⟨rootEntry, h.lookup_root, h.root_live, h.root_expires.le⟩
  have hchildDue : child ∈ dueLeases s (Reference.start + Duration.minutes 5) :=
    mem_dueLeases.mpr ⟨childEntry, h.lookup_child, h.child_live, h.child_expires.le⟩
  have hover : Overtaken s (dueLeases s (Reference.start + Duration.minutes 5)) child :=
    ⟨root, hrootDue, hlt, h.below⟩
  have hnot : ¬ Overtaken s (dueLeases s (Reference.start + Duration.minutes 5)) root := by
    rintro ⟨above, -, habove, hbelow⟩
    exact habove.ne (h.below_iff_root.mp hbelow)
  -- nothing else is due, so the list returned is that of the root lease
  obtain rfl : expired = [root] := by
    refine List.perm_singleton.mp ((List.perm_ext_iff_of_nodup
      (((pairwise_dueLeases s _).sublist hswept.sublist).imp fun hlt => hlt.ne)
      (List.nodup_singleton _)).mpr fun id => ?_)
    rw [hswept.mem_expired, List.mem_singleton]
    constructor
    · rintro ⟨hdue, hreached⟩
      obtain ⟨entry, hentry, -⟩ := mem_dueLeases.mp hdue
      rw [h.lookup] at hentry
      split at hentry
      · rename_i hid
        exact absurd (hid ▸ hover) hreached
      · split at hentry
        · rename_i hid
          exact hid
        · cases hentry
    · rintro rfl
      exact ⟨hrootDue, hnot⟩
  exact ⟨s', hrun, hswept.reached _ _ h.lookup_root h.root_live hrootDue hnot,
    hswept.overtaken _ _ h.lookup_child h.child_live hover⟩

omit [Externals] in
/-- Two leases of the reference kernel, one below the other, are due at the same time: the one
    above ends as expired, the one below is revoked with it, and then no lease is due. -/
theorem refreshExpirations_ends_exactly_due_reference : letI := Reference.externals
    ∃ (s s' : AuthorityState) (root child : LeaseId) (rootEntry childEntry : LeaseEntry),
      Reachable s ∧ childEntry.parentId = some root ∧
      s.leases.lookup root = some rootEntry ∧ s.leases.lookup child = some childEntry ∧
      refreshExpirations (Reference.start + Duration.minutes 5) s = .ok [root] s' ∧
      (∃ record, s'.leases.lookup root = some (rootEntry.withRecord record) ∧
        record.state = .expired ∧ record.generation = rootEntry.record.generation + 1) ∧
      (∃ record, s'.leases.lookup child = some (childEntry.withRecord record) ∧
        record.state = .revoked ∧ record.generation = childEntry.record.generation + 1) ∧
      s'.identities = s.identities ∧ s'.events.length = s.events.length + 2 ∧
      refreshExpirations (Reference.start + Duration.minutes 5) s' = .ok [] s' := by
  let := Reference.externals
  obtain ⟨s, rootEntry, childEntry, h⟩ := Reference.exists_delegated
  obtain ⟨expired, s', hrun, hchanged, hrecords, ⟨-, -, hidentities, -⟩,
    ⟨notes, happends, hnodup, hnotes, -⟩, -, hagain⟩ :=
    refreshExpirations_ends_exactly_due h.reachable (Reference.start + Duration.minutes 5)
  obtain ⟨s'', hrun', hroot, hchild⟩ := h.exists_expired (by decide)
  rw [hrun] at hrun'
  obtain ⟨rfl, rfl⟩ := EStateM.Result.ok.inj hrun'
  have hrootChanged := (hchanged Reference.leaseId).mpr
    ⟨rootEntry, h.lookup_root, h.root_live, h.root_expires.le⟩
  have hchildChanged := (hchanged Reference.childId).mpr
    ⟨childEntry, h.lookup_child, h.child_live, h.child_expires.le⟩
  obtain ⟨record, hrecord, -, hgeneration⟩ := hrecords _ _ h.lookup_root hrootChanged
  obtain ⟨record', hrecord', -, hgeneration'⟩ := hrecords _ _ h.lookup_child hchildChanged
  obtain rfl : record = _ := congrArg LeaseEntry.record (Option.some.inj (hrecord.symm.trans hroot))
  obtain rfl : record' = _ :=
    congrArg LeaseEntry.record (Option.some.inj (hrecord'.symm.trans hchild))
  -- one event for each of the two
  have hperm : (notes.map Note.leaseId).Perm [Reference.leaseId, Reference.childId] :=
    (List.perm_ext_iff_of_nodup hnodup (by simp [h.ne.symm])).mpr fun id => by
      rw [hnotes, hchanged, h.lookup, List.mem_pair]
      split
      · rename_i hid
        simp [hid, h.child_live, h.child_expires]
      · split
        · rename_i hid hid'
          simp [hid', h.root_live, h.root_expires]
        · rename_i hid hid'
          simp [hid, hid']
  have hlength : notes.length = 2 := by
    rw [← List.length_map Note.leaseId, hperm.length_eq]
    rfl
  refine ⟨s, s', _, _, rootEntry, childEntry, h.reachable, h.child_parent, h.lookup_root,
    h.lookup_child, hrun, ⟨_, hrecord, rfl, hgeneration⟩, ⟨_, hrecord', rfl, hgeneration'⟩,
    hidentities, ?_, hagain⟩
  rw [happends, List.length_append, numberedEvents, List.length_mapIdx, hlength]

end

end GenesisRuntime
