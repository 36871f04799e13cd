/-
  GenesisRuntime.Kernel.Runs

  Runs of the kernel: any sequence of calls with any arguments and any clock
  values, each of which may succeed or fail.

  A call that fails leaves the state as it was, so a run is a sequence of the
  steps of `KernelStep`.  The one thing a run assumes is that a UUID is new: the
  lease id drawn by a call is not the id of a stored lease.
-/

import GenesisRuntime.Kernel.Steps

namespace GenesisRuntime

section
variable [Externals]

-- ============================================================================
-- Failing calls
-- ============================================================================

theorem transition_failsClean (id : LeaseId) (generation : Nat) (expected next : LeaseState)
    (kind : AuthorityEventKind) (now : DateTime) (s : AuthorityState) :
    EStateM.FailsClean (transition id generation expected next kind now) s := by
  refine EStateM.reads_get.failsClean_bind fun _ _ => ?_
  refine (orReject_reads _ _ _).failsClean_bind fun _ _ => ?_
  refine (ofResult_reads _).failsClean_bind fun _ _ => ?_
  refine (rejectIf_reads _ _ _).failsClean_bind fun _ _ => ?_
  exact EStateM.failsClean_of_ok ⟨_, _, rfl⟩

theorem delegate_failsClean (request : DelegationRequest) (custody : KeyCustody)
    (now : DateTime) (uuid : String) (s : AuthorityState) :
    EStateM.FailsClean (delegate request custody now uuid) s := by
  refine EStateM.reads_get.failsClean_bind fun _ _ => ?_
  refine (orReject_reads _ _ _).failsClean_bind fun _ _ => ?_
  refine (ofResult_reads _).failsClean_bind fun _ _ => ?_
  refine (ofResult_reads _).failsClean_bind fun _ _ => ?_
  refine (rejectIf_reads _ _ _).failsClean_bind fun _ _ => ?_
  refine (ofResult_reads _).failsClean_bind fun _ _ => ?_
  refine (rejectIf_reads _ _ _).failsClean_bind fun _ _ => ?_
  refine (rejectIf_reads _ _ _).failsClean_bind fun _ _ => ?_
  refine (orReject_reads _ _ _).failsClean_bind fun _ _ => ?_
  refine (ofResult_reads _).failsClean_bind fun _ _ => ?_
  refine (ofResult_reads _).failsClean_bind fun _ _ => ?_
  refine (orReject_reads _ _ _).failsClean_bind fun _ _ => ?_
  refine (ofResult_reads _).failsClean_bind fun _ _ => ?_
  refine (ofResult_reads _).failsClean_bind fun _ _ => ?_
  refine (ofResult_reads _).failsClean_bind fun _ _ => ?_
  refine (ofResult_reads _).failsClean_bind fun _ _ => ?_
  refine (ofResult_reads _).failsClean_bind fun _ _ => ?_
  exact EStateM.failsClean_of_ok ⟨_, _, rfl⟩

theorem revoke_failsClean (id : LeaseId) (generation : Nat) (reason : String)
    (now : DateTime) (s : AuthorityState) :
    EStateM.FailsClean (revoke id generation reason now) s := by
  refine EStateM.reads_get.failsClean_bind fun _ _ => ?_
  refine (orReject_reads _ _ _).failsClean_bind fun _ _ => ?_
  refine (ofResult_reads _).failsClean_bind fun _ _ => ?_
  refine (rejectIf_reads _ _ _).failsClean_bind fun _ _ => ?_
  refine EStateM.reads_get.failsClean_bind fun t ht => ?_
  obtain ⟨rfl, -⟩ := EStateM.get_eq_ok.mp ht
  refine (ofResult_reads _).failsClean_bind fun affected haffected => ?_
  -- past this point every lease the loop looks up is stored
  have hok := (ofResult_eq_ok.mp haffected).1
  simp only [descendantsIncluding, Except.bind_eq_ok, Except.pure_eq_ok, rejectIf_eq_ok,
    not_not] at hok
  obtain ⟨_, hmem, rfl⟩ := hok
  obtain ⟨s', hrun, -, -⟩ := forM_revokeIfLive_spec reason now
    (fun id' => if id' ≠ id then some id else none)
    fun id' hid' => mem_leases_of_mem_descendants hmem hid'
  exact EStateM.failsClean_of_ok ⟨_, s', EStateM.bind_eq_ok.mpr ⟨(), s', hrun, rfl⟩⟩

theorem renew_failsClean (request : RenewalRequest) (now : DateTime) (uuid : String)
    (s : AuthorityState) : EStateM.FailsClean (renew request now uuid) s := by
  refine EStateM.reads_get.failsClean_bind fun t ht => ?_
  obtain ⟨rfl, -⟩ := EStateM.get_eq_ok.mp ht
  refine (orReject_reads _ _ _).failsClean_bind fun old hold => ?_
  refine (ofResult_reads _).failsClean_bind fun _ hactive => ?_
  refine (ofResult_reads _).failsClean_bind fun _ _ => ?_
  refine (ofResult_reads _).failsClean_bind fun _ _ => ?_
  refine (orReject_reads _ _ _).failsClean_bind fun _ _ => ?_
  refine (orReject_reads _ _ _).failsClean_bind fun _ _ => ?_
  refine (ofResult_reads _).failsClean_bind fun renewedId _ => ?_
  refine (ofResult_reads _).failsClean_bind fun _ _ => ?_
  refine (ofResult_reads _).failsClean_bind fun _ _ => ?_
  refine (ofResult_reads _).failsClean_bind fun _ _ => ?_
  refine (ofResult_reads _).failsClean_bind fun cert _ => ?_
  refine EStateM.reads_get.failsClean_bind fun t ht => ?_
  obtain ⟨rfl, -⟩ := EStateM.get_eq_ok.mp ht
  refine (orReject_reads _ _ _).failsClean_bind fun oldEntry holdEntry => ?_
  -- the lease that is retired is stored, so the cascade below it cannot fail
  rw [orReject_eq_ofResult, ofResult_eq_ok, orReject_eq_ok] at hold holdEntry
  rw [ofResult_eq_ok] at hactive
  obtain rfl : old = oldEntry := by
    rw [hold.1] at holdEntry
    exact Option.some.inj holdEntry.1
  have hlive : old.record.state.isLive = true := by
    rw [(validateActiveRecord_eq_ok.mp hactive.1).2.1]
    rfl
  obtain ⟨s', -, hrun, -⟩ := endThenRevokeDescendants_spec
    "ancestor lease retired during renewal" now request.leaseId old rfl
    (Cascade.putLease hold.1 (.retire renewedId hlive))
    fun id' => AuthorityState.lookup_putLease s id'
  refine EStateM.failsClean_of_ok ?_
  simp only [EStateM.bind_eq_ok, EStateM.modify_eq_ok, EStateM.pure_eq_ok]
  exact ⟨renewedId, _, (), _, rfl, (), s', hrun, (), _, rfl, (), _, rfl, (), _, rfl, rfl, rfl⟩

theorem map_failsClean {α β : Type} {x : KernelM α} {f : α → β} {s : AuthorityState}
    (h : EStateM.FailsClean x s) : EStateM.FailsClean (f <$> x) s := by
  intro e s' hx
  refine h e s' ?_
  simp only [Functor.map, EStateM.map] at hx
  split at hx
  · cases hx
  · rename_i heq
    cases hx
    exact heq

theorem map_eq_ok {α β : Type} {x : KernelM α} {f : α → β} {s s' : AuthorityState} {b : β} :
    (f <$> x) s = .ok b s' ↔ ∃ a, x s = .ok a s' ∧ f a = b := by
  simp only [Functor.map, EStateM.map]
  cases x s <;> simp [and_comm]

/-- A call that fails has changed nothing. -/
theorem KernelOp.exec_failsClean (op : KernelOp) (uuid : String) (s : AuthorityState) :
    EStateM.FailsClean (op.exec uuid) s := by
  cases op with
  | delegate request custody now =>
      exact map_failsClean (delegate_failsClean request custody now uuid s)
  | pause id generation now =>
      exact map_failsClean (transition_failsClean id generation _ _ _ now s)
  | resume id generation now =>
      exact map_failsClean (transition_failsClean id generation _ _ _ now s)
  | revoke id generation reason now =>
      exact map_failsClean (revoke_failsClean id generation reason now s)
  | refreshExpirations now =>
      obtain ⟨expired, s', -, hrun, -⟩ := refreshExpirations_spec s now
      exact map_failsClean (EStateM.failsClean_of_ok ⟨expired, s', hrun⟩)
  | renew request now => exact map_failsClean (renew_failsClean request now uuid s)

/-- A call that fails has changed nothing, whatever the state and the arguments. The
    errors that would come after a first change are never raised: from any state, the
    loops that change one lease after the other go through every lease they are given. -/
theorem failed_operations_change_nothing (s : AuthorityState) :
    (∀ (op : KernelOp) (uuid : String) (e : RuntimeError) (s' : AuthorityState),
      op.exec uuid s = .error e s' → s' = s) ∧
    (∀ (root : LeaseId) (reason : String) (now : DateTime), root ∈ s.leases →
      (∀ related : LeaseId → Option LeaseId, ∃ s',
        (forM (descendants s root) fun id => revokeIfLive reason now (related id) id) s
          = .ok () s') ∧
      ∃ s', revokeDescendants root reason now s = .ok () s') ∧
    (∀ now : DateTime, ∃ expired s', refreshExpirations now s = .ok expired s') ∧
    ∀ (now : DateTime) (expired : List LeaseId) (id : LeaseId), id ∈ s.leases →
      ∃ expired' s', expireIfLive now expired id s = .ok expired' s' := by
  refine ⟨fun op uuid => op.exec_failsClean uuid s, ?_, ?_, ?_⟩
  · intro root reason now hroot
    constructor
    · intro related
      obtain ⟨s', hrun, -⟩ := forM_revokeIfLive_spec reason now related
        fun id hid => mem_leases_of_mem_descendants hroot hid
      exact ⟨s', hrun⟩
    · obtain ⟨s', hrun, -⟩ := revokeDescendants_spec reason now hroot
      exact ⟨s', hrun⟩
  · intro now
    obtain ⟨expired, s', -, hrun, -⟩ := refreshExpirations_spec s now
    exact ⟨expired, s', hrun⟩
  · intro now expired id hid
    obtain ⟨expired', s', -, hrun, -⟩ := expireIfLive_spec now expired hid
    exact ⟨expired', s', hrun⟩

-- ============================================================================
-- Steps
-- ============================================================================

/-- What one call can do to the state. -/
inductive KernelStep (s : AuthorityState) : AuthorityState → Prop where
  | unchanged : KernelStep s s
  /-- `pause` or `resume`. -/
  | toggled (id : LeaseId) (entry : LeaseEntry) (next : LeaseState)
      (kind : AuthorityEventKind) (now : DateTime)
      (hentry : s.leases.lookup id = some entry)
      (hstate : (entry.record.state = .active ∧ next = .paused) ∨
        (entry.record.state = .paused ∧ next = .active))
      (hnow : now < entry.certificate.expiresAt) :
      KernelStep s ((s.putLease id (entry.withRecord (entry.record.advance next))).pushEvent
        id none kind now)
  /-- `revoke` or `refresh_expirations`. -/
  | ended {s' : AuthorityState} (ended : List LeaseId) (h : EndsBelow s s' ended) :
      KernelStep s s'
  | delegated {request : DelegationRequest} {custody : KeyCustody} {now : DateTime}
      {uuid : String} (run : Delegation s request custody now uuid)
      (fresh : run.childLeaseId ∉ s.leases) : KernelStep s run.post
  | renewed {request : RenewalRequest} {now : DateTime} {uuid : String}
      (run : Renewal s request now uuid) (fresh : run.renewedId ∉ s.leases) :
      KernelStep s run.post

/-- The lease id made of this UUID is not in use. -/
def FreshUuid (s : AuthorityState) (uuid : String) : Prop :=
  ∀ id, newLeaseId uuid = .ok id → id ∉ s.leases

/-- A UUID that makes no lease id. -/
theorem freshUuid_unsupported (s : AuthorityState) : FreshUuid s "!" := by
  have hnone : newLeaseId "!"
      = .error ⟨.invalidIdentifier, "lease id contains unsupported characters"⟩ := by
    decide +kernel
  intro id hid
  rw [hnone] at hid
  cases hid

variable {s s' : AuthorityState}

theorem KernelOp.step_of_ok {op : KernelOp} {uuid : String} {r : KernelReturn}
    (fresh : FreshUuid s uuid) (h : op.exec uuid s = .ok r s') : KernelStep s s' := by
  cases op with
  | delegate request custody now =>
      obtain ⟨id, hrun, -⟩ := map_eq_ok.mp h
      obtain ⟨run, -, rfl⟩ := delegate_eq_ok hrun
      exact .delegated run (fresh _ run.childLeaseId_eq)
  | pause id generation now =>
      obtain ⟨record, hrun, -⟩ := map_eq_ok.mp h
      obtain ⟨entry, hentry, -, hstate, hnow, rfl, rfl⟩ := transition_eq_ok hrun
      exact .toggled id entry .paused .leasePaused now hentry (.inl ⟨hstate, rfl⟩) hnow
  | resume id generation now =>
      obtain ⟨record, hrun, -⟩ := map_eq_ok.mp h
      obtain ⟨entry, hentry, -, hstate, hnow, rfl, rfl⟩ := transition_eq_ok hrun
      exact .toggled id entry .active .leaseResumed now hentry (.inr ⟨hstate, rfl⟩) hnow
  | revoke id generation reason now =>
      obtain ⟨affected, hrun, -⟩ := map_eq_ok.mp h
      exact .ended affected (revoke_endsBelow hrun).2
  | refreshExpirations now =>
      obtain ⟨expired, hrun, -⟩ := map_eq_ok.mp h
      obtain ⟨expired', t, ended, hrun', hbelow, -⟩ := refreshExpirations_spec s now
      rw [hrun'] at hrun
      cases hrun
      exact .ended ended hbelow
  | renew request now =>
      obtain ⟨id, hrun, -⟩ := map_eq_ok.mp h
      obtain ⟨run, -, rfl⟩ := renew_eq_ok hrun
      exact .renewed run (fresh _ run.renewedId_eq)

/-- The state after a call, whether it succeeds or fails. -/
def KernelOp.after (op : KernelOp) (uuid : String) (s : AuthorityState) : AuthorityState :=
  match op.exec uuid s with
  | .ok _ s' => s'
  | .error _ s' => s'

theorem KernelOp.step_after (op : KernelOp) {uuid : String} (fresh : FreshUuid s uuid) :
    KernelStep s (op.after uuid s) := by
  unfold KernelOp.after
  split
  · rename_i r s' h
    exact op.step_of_ok fresh h
  · rename_i e s' h
    rw [op.exec_failsClean uuid s e s' h]
    exact .unchanged

-- ============================================================================
-- Runs
-- ============================================================================

/-- Any number of calls, one after the other. -/
inductive KernelRun (s : AuthorityState) : AuthorityState → Prop where
  | refl : KernelRun s s
  | call {t : AuthorityState} (run : KernelRun s t) (op : KernelOp) (uuid : String)
      (fresh : FreshUuid t uuid) : KernelRun s (op.after uuid t)

/-- A state some run leads to from a successful `bootstrap`. -/
def Reachable (s : AuthorityState) : Prop :=
  ∃ request custody now uuid s₀,
    bootstrap request custody now uuid = .ok s₀ ∧ KernelRun s₀ s

theorem KernelOp.after_eq {op : KernelOp} {uuid : String} {r : KernelReturn}
    (h : op.exec uuid s = .ok r s') : op.after uuid s = s' := by
  rw [KernelOp.after, h]

/-- A run goes on with a call that succeeds. -/
theorem KernelRun.succeed {t : AuthorityState} (run : KernelRun s t) (op : KernelOp)
    {uuid : String} {r : KernelReturn} (fresh : FreshUuid t uuid) (h : op.exec uuid t = .ok r s') :
    KernelRun s s' := by
  rw [← KernelOp.after_eq h]
  exact run.call op uuid fresh

theorem KernelRun.trans {s'' : AuthorityState} (h : KernelRun s s') (h' : KernelRun s' s'') :
    KernelRun s s'' := by
  induction h' with
  | refl => exact h
  | call _ op uuid fresh ih => exact ih.call op uuid fresh

/-- What every step preserves holds at the end of a run. -/
theorem KernelRun.preserves {P : AuthorityState → Prop} (h : KernelRun s s') (hs : P s)
    (hstep : ∀ t t', P t → KernelStep t t' → P t') : P s' := by
  induction h with
  | refl => exact hs
  | call _ op uuid fresh ih => exact hstep _ _ ih (op.step_after fresh)

/-- What every step relates is related by a run. -/
theorem KernelRun.relates {R : AuthorityState → AuthorityState → Prop} (h : KernelRun s s')
    (hrefl : ∀ t, R t t) (htrans : ∀ t t' t'', R t t' → R t' t'' → R t t'')
    (hstep : ∀ t t', KernelStep t t' → R t t') : R s s' := by
  induction h with
  | refl => exact hrefl s
  | call _ op uuid fresh ih => exact htrans _ _ _ ih (hstep _ _ (op.step_after fresh))

theorem Reachable.run (hs : Reachable s) (h : KernelRun s s') : Reachable s' := by
  obtain ⟨request, custody, now, uuid, s₀, hboot, hrun⟩ := hs
  exact ⟨request, custody, now, uuid, s₀, hboot, hrun.trans h⟩

/-- The induction rule for invariants of the kernel. -/
theorem Reachable.invariant {P : AuthorityState → Prop} (h : Reachable s)
    (hinit : ∀ request custody now uuid s₀,
      bootstrap request custody now uuid = .ok s₀ → P s₀)
    (hstep : ∀ t t', P t → KernelStep t t' → P t') : P s := by
  obtain ⟨request, custody, now, uuid, s₀, hboot, hrun⟩ := h
  exact hrun.preserves (hinit request custody now uuid s₀ hboot) hstep

end

end GenesisRuntime
