/-
  GenesisRuntime.Kernel.Replay

  The event log of the kernel is a complete history: replaying it from nothing
  gives back the stored leases and the root.

  The replay is a statement of its own about what each kind of event means; it
  looks at no state of the kernel.
-/

import GenesisRuntime.Kernel.Runs
import GenesisRuntime.Reference

namespace GenesisRuntime

-- ============================================================================
-- Replaying a log
-- ============================================================================

/-- What a log tells about one lease. -/
structure LeaseSummary where
  state : LeaseState
  generation : Nat
  revokedAt : Option DateTime
  renewedBy : Option LeaseId
deriving DecidableEq

namespace LeaseSummary

/-- A lease that has just been issued. -/
def issued : LeaseSummary := ⟨.active, 0, none, none⟩

/-- A change of state. -/
def advance (next : LeaseState) (summary : LeaseSummary) : LeaseSummary :=
  { summary with state := next, generation := summary.generation + 1 }

def revoke (occurredAt : DateTime) (summary : LeaseSummary) : LeaseSummary :=
  { summary.advance .revoked with revokedAt := some occurredAt }

def retire (renewedBy : LeaseId) (summary : LeaseSummary) : LeaseSummary :=
  { summary.advance .retired with renewedBy := some renewedBy }

end LeaseSummary

/-- What a log tells about a kernel. -/
structure Replayed where
  leases : LeaseId → Option LeaseSummary
  rootLeaseId : Option LeaseId

namespace Replayed

/-- Before the first event. -/
def empty : Replayed := ⟨fun _ => none, none⟩

/-- A lease is created. -/
def create (id : LeaseId) (replayed : Replayed) : Replayed :=
  { replayed with leases := Function.update replayed.leases id (some .issued) }

/-- A lease that exists is changed. -/
def change (id : LeaseId) (f : LeaseSummary → LeaseSummary) (replayed : Replayed) : Replayed :=
  { replayed with leases := Function.update replayed.leases id ((replayed.leases id).map f) }

/-- One event. -/
def apply (replayed : Replayed) (event : AuthorityEvent) : Replayed :=
  match event.kind with
  | .identityRegistered => replayed
  | .leaseIssued => { replayed.create event.leaseId with rootLeaseId := some event.leaseId }
  | .leaseDelegated => replayed.create event.leaseId
  | .leasePaused => replayed.change event.leaseId (.advance .paused)
  | .leaseResumed => replayed.change event.leaseId (.advance .active)
  | .leaseRevoked => replayed.change event.leaseId (.revoke event.occurredAt)
  | .leaseExpired => replayed.change event.leaseId (.advance .expired)
  | .leaseRenewed =>
      match event.relatedLeaseId with
      | none => replayed.create event.leaseId
      | some old =>
          { (replayed.change old (.retire event.leaseId)).create event.leaseId with
            rootLeaseId :=
              if replayed.rootLeaseId = some old then some event.leaseId
              else replayed.rootLeaseId }

/-- The whole log, from its first event on. -/
def replay (events : List AuthorityEvent) : Replayed := events.foldl apply empty

theorem create_leases (id : LeaseId) (replayed : Replayed) (id' : LeaseId) :
    (replayed.create id).leases id' = if id' = id then some .issued else replayed.leases id' :=
  Function.update_apply _ _ _ _

theorem change_leases (id : LeaseId) (f : LeaseSummary → LeaseSummary) (replayed : Replayed)
    (id' : LeaseId) :
    (replayed.change id f).leases id'
      = if id' = id then (replayed.leases id).map f else replayed.leases id' :=
  Function.update_apply _ _ _ _

theorem ext_leases {r r' : Replayed} (hleases : ∀ id, r.leases id = r'.leases id)
    (hroot : r.rootLeaseId = r'.rootLeaseId) : r = r' := by
  have h : r.leases = r'.leases := funext hleases
  cases r
  cases r'
  simp only [mk.injEq]
  exact ⟨h, hroot⟩

/-- Changes of two leases commute. -/
theorem change_comm {id id' : LeaseId} (h : id ≠ id') (f f' : LeaseSummary → LeaseSummary)
    (replayed : Replayed) :
    (replayed.change id f).change id' f' = (replayed.change id' f').change id f := by
  apply ext_leases
  · intro k
    simp only [change_leases]
    rw [if_neg h, if_neg (Ne.symm h)]
    by_cases hk : k = id
    · subst hk
      rw [if_neg h, if_pos rfl, if_pos rfl]
    · rw [if_neg hk, if_neg hk]
  · rfl

/-- A cascade that spares a lease may as well come before the change of that lease. -/
theorem foldl_revocations_change {events : List AuthorityEvent} {id : LeaseId}
    (h : ∀ event ∈ events, event.kind = .leaseRevoked ∧ event.leaseId ≠ id)
    (f : LeaseSummary → LeaseSummary) (replayed : Replayed) :
    events.foldl apply (replayed.change id f) = (events.foldl apply replayed).change id f := by
  induction events generalizing replayed with
  | nil => rfl
  | cons event events ih =>
      obtain ⟨hkind, hne⟩ := h event List.mem_cons_self
      have hevent : ∀ r : Replayed,
          r.apply event = r.change event.leaseId (.revoke event.occurredAt) := by
        intro r
        rw [apply, hkind]
      rw [List.foldl_cons, List.foldl_cons, hevent, hevent, change_comm (Ne.symm hne)]
      exact ih (fun event' hevent' => h event' (List.mem_cons_of_mem event hevent')) _

/-- The lease that has taken the place of another one. -/
def successor (replayed : Replayed) (id : LeaseId) : Option LeaseId :=
  (replayed.leases id).bind LeaseSummary.renewedBy

theorem change_successor {id : LeaseId} {f : LeaseSummary → LeaseSummary}
    (hf : ∀ summary, (f summary).renewedBy = summary.renewedBy) (replayed : Replayed)
    (id' : LeaseId) : (replayed.change id f).successor id' = replayed.successor id' := by
  rw [successor, successor, change_leases]
  split
  · rename_i h
    subst h
    cases replayed.leases id' with
    | none => rfl
    | some summary => exact hf summary
  · rfl

/-- Events by which leases end, but are not replaced. -/
def EndsOnly (events : List AuthorityEvent) : Prop :=
  ∀ event ∈ events, event.kind = .leaseRevoked ∨ event.kind = .leaseExpired

theorem foldl_successor {events : List AuthorityEvent} (h : EndsOnly events)
    (replayed : Replayed) (id : LeaseId) :
    (events.foldl apply replayed).successor id = replayed.successor id := by
  induction events generalizing replayed with
  | nil => rfl
  | cons event events ih =>
      have hevent : (replayed.apply event).successor id = replayed.successor id := by
        rcases h event List.mem_cons_self with hkind | hkind
        · rw [apply, hkind]
          exact change_successor (f := .revoke event.occurredAt) (fun _ => rfl) replayed id
        · rw [apply, hkind]
          exact change_successor (f := .advance .expired) (fun _ => rfl) replayed id
      rw [List.foldl_cons, ih (fun event' hevent' => h event' (List.mem_cons_of_mem event hevent')),
        hevent]

end Replayed

/-- What the log is to tell about a record. -/
def LeaseRecord.summary (record : LeaseRecord) : LeaseSummary :=
  ⟨record.state, record.generation, record.revokedAt, record.renewedBy⟩

/-- Sequence numbers that go up by one from `start`. -/
def NumberedFrom (start : Nat) (events : List AuthorityEvent) : Prop :=
  events.map AuthorityEvent.sequence = List.range' start events.length

theorem NumberedFrom.append {start : Nat} {new new' : List AuthorityEvent}
    (h : NumberedFrom start new) (h' : NumberedFrom (start + new.length) new') :
    NumberedFrom start (new ++ new') := by
  have hstart : start + new.length = start + 1 * new.length := by omega
  rw [NumberedFrom, List.map_append, h, h', hstart, List.range'_append, List.length_append]

section
variable [Externals]

/-- What the log is to tell about a state. -/
def AuthorityState.view (s : AuthorityState) : Replayed where
  leases id := (s.leases.lookup id).map fun entry => entry.record.summary
  rootLeaseId := some s.rootLeaseId

variable {s s' s'' : AuthorityState}

theorem view_leases {id : LeaseId} {entry : LeaseEntry}
    (h : s.leases.lookup id = some entry) : s.view.leases id = some entry.record.summary := by
  simp only [AuthorityState.view, h, Option.map_some]

/-- Storing a new lease. -/
theorem view_putLease_active {id : LeaseId} {entry : LeaseEntry}
    (h : entry.record = .active id) : (s.putLease id entry).view = s.view.create id := by
  apply Replayed.ext_leases
  · intro id'
    rw [Replayed.create_leases]
    simp only [AuthorityState.view, AuthorityState.lookup_putLease]
    split
    · rw [Option.map_some, h]
      rfl
    · rfl
  · rfl

/-- Changing the record of a lease that is stored. -/
theorem view_putLease_record {id : LeaseId} {entry : LeaseEntry} {record : LeaseRecord}
    {f : LeaseSummary → LeaseSummary} (hid : s.leases.lookup id = some entry)
    (hf : record.summary = f entry.record.summary) :
    (s.putLease id (entry.withRecord record)).view = s.view.change id f := by
  apply Replayed.ext_leases
  · intro id'
    rw [Replayed.change_leases, view_leases hid]
    simp only [AuthorityState.view, AuthorityState.lookup_putLease]
    split
    · rw [Option.map_some, Option.map_some, hf]
    · rfl
  · rfl

theorem view_successor (s : AuthorityState) (id : LeaseId) :
    s.view.successor id = (s.leases.lookup id).bind fun entry => entry.record.renewedBy := by
  simp only [Replayed.successor, AuthorityState.view, Option.bind_map]
  rfl

-- ============================================================================
-- What an operation logs
-- ============================================================================

/-- The log has grown by these events, numbered on from the last one, and they tell
    everything that has changed. -/
structure Logs (s : AuthorityState) (new : List AuthorityEvent) (s' : AuthorityState) :
    Prop where
  events_eq : s'.events = s.events ++ new
  numbered : NumberedFrom (s.events.length + 1) new
  view_eq : new.foldl Replayed.apply s.view = s'.view

namespace Logs

variable {new new' : List AuthorityEvent}

theorem refl (s : AuthorityState) : Logs s [] s where
  events_eq := (List.append_nil _).symm
  numbered := rfl
  view_eq := rfl

theorem trans (h : Logs s new s') (h' : Logs s' new' s'') : Logs s (new ++ new') s'' where
  events_eq := by rw [h'.events_eq, h.events_eq, List.append_assoc]
  numbered := by
    have hlength : s'.events.length + 1 = s.events.length + 1 + new.length := by
      rw [h.events_eq, List.length_append]
      omega
    apply h.numbered.append
    rw [← hlength]
    exact h'.numbered
  view_eq := by rw [List.foldl_append, h.view_eq, h'.view_eq]

/-- A change followed by the event that tells it. -/
theorem pushEvent {t : AuthorityState} {id : LeaseId} {related : Option LeaseId}
    {kind : AuthorityEventKind} {now : DateTime} (hevents : t.events = s.events)
    (hview : s.view.apply ⟨s.events.length + 1, id, related, kind, now⟩ = t.view) :
    Logs s [⟨s.events.length + 1, id, related, kind, now⟩] (t.pushEvent id related kind now) where
  events_eq := by
    rw [AuthorityState.pushEvent, hevents]
  numbered := rfl
  view_eq := hview

end Logs

/-- Some events tell everything that has changed. -/
def Logged (s s' : AuthorityState) : Prop := ∃ new, Logs s new s'

theorem Logged.refl (s : AuthorityState) : Logged s s := ⟨[], .refl s⟩

theorem Logged.trans (h : Logged s s') (h' : Logged s' s'') : Logged s s'' := by
  obtain ⟨new, hnew⟩ := h
  obtain ⟨new', hnew'⟩ := h'
  exact ⟨new ++ new', hnew.trans hnew'⟩

theorem transition_logged {id : LeaseId} {generation : Nat} {expected next : LeaseState}
    {kind : AuthorityEventKind} {now : DateTime} {record : LeaseRecord}
    (hkind : ∀ (r : Replayed) sequence related,
      r.apply ⟨sequence, id, related, kind, now⟩ = r.change id (.advance next))
    (h : transition id generation expected next kind now s = .ok record s') : Logged s s' := by
  obtain ⟨entry, hentry, -, -, -, rfl, rfl⟩ := transition_eq_ok h
  refine ⟨_, .pushEvent rfl ?_⟩
  rw [hkind]
  exact (view_putLease_record hentry rfl).symm

theorem revokeIfLive_logs {reason : String} {now : DateTime} {related : Option LeaseId}
    {id : LeaseId} (h : revokeIfLive reason now related id s = .ok () s') :
    ∃ new, Logs s new s' ∧ ∀ event ∈ new, event.kind = .leaseRevoked ∧ event.leaseId = id := by
  simp only [revokeIfLive, EStateM.get_bind_eq_ok, orReject_eq_ofResult, ofResult_bind_eq_ok,
    orReject_eq_ok] at h
  obtain ⟨entry, hentry, h⟩ := h
  split at h
  · simp only [EStateM.modify_bind_eq_ok, EStateM.modify_eq_ok] at h
    subst h
    refine ⟨_, .pushEvent rfl (view_putLease_record hentry rfl).symm, ?_⟩
    simp
  · obtain ⟨-, rfl⟩ := EStateM.pure_eq_ok.mp h
    exact ⟨[], .refl s, by simp⟩

theorem forM_revokeIfLive_logs {reason : String} {now : DateTime}
    (related : LeaseId → Option LeaseId) {ids : List LeaseId}
    (h : (forM ids fun id => revokeIfLive reason now (related id) id) s = .ok () s') :
    ∃ new, Logs s new s' ∧
      ∀ event ∈ new, event.kind = .leaseRevoked ∧ event.leaseId ∈ ids := by
  induction ids generalizing s with
  | nil =>
      obtain ⟨-, rfl⟩ := EStateM.pure_eq_ok.mp h
      exact ⟨[], .refl s, by simp⟩
  | cons id ids ih =>
      rw [List.forM_cons] at h
      obtain ⟨_, t, hhead, htail⟩ := EStateM.bind_eq_ok.mp h
      obtain ⟨new, hnew, hkinds⟩ := revokeIfLive_logs hhead
      obtain ⟨new', hnew', hkinds'⟩ := ih htail
      refine ⟨new ++ new', hnew.trans hnew', ?_⟩
      intro event hevent
      rcases List.mem_append.mp hevent with hevent | hevent
      · obtain ⟨hkind, hid⟩ := hkinds event hevent
        exact ⟨hkind, by rw [hid]; exact List.mem_cons_self⟩
      · obtain ⟨hkind, hid⟩ := hkinds' event hevent
        exact ⟨hkind, List.mem_cons_of_mem id hid⟩

/-- A cascade spares the lease it starts from. -/
theorem revokeDescendants_logs {root : LeaseId} {reason : String} {now : DateTime}
    (h : revokeDescendants root reason now s = .ok () s') :
    ∃ new, Logs s new s' ∧
      ∀ event ∈ new, event.kind = .leaseRevoked ∧ event.leaseId ≠ root := by
  simp only [revokeDescendants, EStateM.get_bind_eq_ok, ofResult_bind_eq_ok,
    descendantsIncluding, Except.bind_eq_ok, Except.pure_eq_ok, rejectIf_eq_ok, not_not] at h
  obtain ⟨_, ⟨_, hmem, rfl⟩, h⟩ := h
  obtain ⟨new, hnew, hkinds⟩ := forM_revokeIfLive_logs (fun _ => some root) h
  refine ⟨new, hnew, ?_⟩
  intro event hevent
  obtain ⟨hkind, hid⟩ := hkinds event hevent
  exact ⟨hkind, ((mem_drop_descendants hmem).mp hid).2⟩

theorem revoke_logs {id : LeaseId} {generation : Nat} {reason : String} {now : DateTime}
    {affected : List LeaseId} (h : revoke id generation reason now s = .ok affected s') :
    ∃ new, Logs s new s' ∧ Replayed.EndsOnly new := by
  simp only [revoke, EStateM.get_bind_eq_ok, orReject_eq_ofResult, rejectIf_eq_ofResult,
    ofResult_bind_eq_ok] at h
  obtain ⟨_, -, _, -, _, -, ids, -, h⟩ := h
  obtain ⟨_, t, hrun, hret⟩ := EStateM.bind_eq_ok.mp h
  obtain ⟨-, rfl⟩ := EStateM.pure_eq_ok.mp hret
  obtain ⟨new, hnew, hkinds⟩ := forM_revokeIfLive_logs
    (fun id' => if id' ≠ id then some id else none) hrun
  exact ⟨new, hnew, fun event hevent => .inl (hkinds event hevent).1⟩

theorem expireIfLive_logs {now : DateTime} {expired expired' : List LeaseId} {id : LeaseId}
    (h : expireIfLive now expired id s = .ok expired' s') :
    ∃ new, Logs s new s' ∧ Replayed.EndsOnly new := by
  simp only [expireIfLive, EStateM.get_bind_eq_ok, orReject_eq_ofResult, ofResult_bind_eq_ok,
    orReject_eq_ok] at h
  obtain ⟨entry, hentry, h⟩ := h
  split at h
  · simp only [EStateM.modify_bind_eq_ok] at h
    obtain ⟨_, t, hrun, hret⟩ := EStateM.bind_eq_ok.mp h
    obtain ⟨-, rfl⟩ := EStateM.pure_eq_ok.mp hret
    obtain ⟨new, hnew, hkinds⟩ := revokeDescendants_logs hrun
    have hexpired : Logs s [⟨s.events.length + 1, id, none, .leaseExpired, now⟩]
        ((s.putLease id (entry.withRecord (entry.record.advance .expired))).pushEvent id none
          .leaseExpired now) :=
      .pushEvent rfl (view_putLease_record hentry rfl).symm
    refine ⟨_, hexpired.trans hnew, ?_⟩
    intro event hevent
    rcases List.mem_append.mp hevent with hevent | hevent
    · obtain rfl := List.mem_singleton.mp hevent
      exact .inr rfl
    · exact .inl (hkinds event hevent).1
  · obtain ⟨-, rfl⟩ := EStateM.pure_eq_ok.mp h
    exact ⟨[], .refl s, by simp [Replayed.EndsOnly]⟩

theorem foldlM_expireIfLive_logs {now : DateTime} {ids expired expired' : List LeaseId}
    (h : ids.foldlM (expireIfLive now) expired s = .ok expired' s') :
    ∃ new, Logs s new s' ∧ Replayed.EndsOnly new := by
  induction ids generalizing s expired with
  | nil =>
      obtain ⟨-, rfl⟩ := EStateM.pure_eq_ok.mp h
      exact ⟨[], .refl s, by simp [Replayed.EndsOnly]⟩
  | cons id ids ih =>
      rw [List.foldlM_cons] at h
      obtain ⟨expired₁, t, hhead, htail⟩ := EStateM.bind_eq_ok.mp h
      obtain ⟨new, hnew, hkinds⟩ := expireIfLive_logs hhead
      obtain ⟨new', hnew', hkinds'⟩ := ih htail
      refine ⟨new ++ new', hnew.trans hnew', ?_⟩
      intro event hevent
      rcases List.mem_append.mp hevent with hevent | hevent
      · exact hkinds event hevent
      · exact hkinds' event hevent

theorem refreshExpirations_logs {now : DateTime} {expired : List LeaseId}
    (h : refreshExpirations now s = .ok expired s') :
    ∃ new, Logs s new s' ∧ Replayed.EndsOnly new :=
  foldlM_expireIfLive_logs (EStateM.get_bind_eq_ok.mp h)

theorem delegate_logged {request : DelegationRequest} {custody : KeyCustody} {now : DateTime}
    {uuid : String} {id : LeaseId} (h : delegate request custody now uuid s = .ok id s') :
    Logged s s' := by
  obtain ⟨run, -, rfl⟩ := delegate_eq_ok h
  have hregistered : Logs s [⟨s.events.length + 1, run.childLeaseId, some request.parentLeaseId,
      .identityRegistered, now⟩]
      (s.pushEvent run.childLeaseId (some request.parentLeaseId) .identityRegistered now) :=
    .pushEvent rfl rfl
  refine .trans ⟨_, hregistered⟩ ⟨_, .pushEvent rfl ?_⟩
  exact (view_putLease_active rfl).symm

/-- What the cascade of a renewal logs. It spares the renewed lease, so its events may be
    replayed before that lease is retired. -/
theorem Renewal.cascade_logs {request : RenewalRequest} {now : DateTime} {uuid : String}
    (run : Renewal s request now uuid)
    (h : revokeDescendants request.leaseId "ancestor lease retired during renewal" now
      (s.putLease request.leaseId (run.old.withRecord (run.old.record.retire run.renewedId)))
        = .ok () run.retired) :
    ∃ new, run.retired.events = s.events ++ new ∧ NumberedFrom (s.events.length + 1) new ∧
      Replayed.EndsOnly new ∧
      (new.foldl Replayed.apply s.view).change request.leaseId (.retire run.renewedId)
        = run.retired.view := by
  obtain ⟨new, hnew, hkinds⟩ := revokeDescendants_logs h
  refine ⟨new, hnew.events_eq, hnew.numbered, fun event hevent => .inl (hkinds event hevent).1, ?_⟩
  have hretire : (s.putLease request.leaseId
      (run.old.withRecord (run.old.record.retire run.renewedId))).view
        = s.view.change request.leaseId (.retire run.renewedId) :=
    view_putLease_record run.old_eq rfl
  rw [← Replayed.foldl_revocations_change hkinds, ← hnew.view_eq, hretire]

/-- A renewal tells of the lease it has retired only after the cascade. -/
theorem renew_logged {request : RenewalRequest} {now : DateTime} {uuid : String} {id : LeaseId}
    (h : renew request now uuid s = .ok id s') : Logged s s' := by
  obtain ⟨run, -, rfl, hretired⟩ := renew_eq_ok_retired h
  obtain ⟨new, hevents, hnumbered, -, hcascade⟩ := run.cascade_logs hretired
  have hroot : (new.foldl Replayed.apply s.view).rootLeaseId = some s.rootLeaseId := by
    have hroot := congrArg Replayed.rootLeaseId hcascade
    rw [← run.endsBelow.cascade.rootLeaseId]
    exact hroot
  refine ⟨new ++ [⟨run.retired.events.length + 1, run.renewedId, some request.leaseId,
    .leaseRenewed, now⟩], ?_, ?_, ?_⟩
  · rw [← List.append_assoc, ← hevents]
    unfold Renewal.post AuthorityState.pushEvent
    dsimp only
    split <;> rfl
  · have hlength : run.retired.events.length + 1 = s.events.length + 1 + new.length := by
      rw [hevents, List.length_append]
      omega
    apply NumberedFrom.append hnumbered
    rw [← hlength]
    rfl
  · rw [List.foldl_append, List.foldl_cons, List.foldl_nil]
    apply Replayed.ext_leases
    · intro id'
      simp only [Replayed.apply, hcascade, Replayed.create_leases]
      simp only [AuthorityState.view, run.lookup_post]
      split <;> rfl
    · simp only [Replayed.apply, hroot, Option.some.injEq]
      rw [AuthorityState.view, run.post_rootLeaseId]
      split <;> rfl

/-- The state after a list of calls, each with the text of its UUID. -/
def runCalls (s : AuthorityState) (calls : List (KernelOp × String)) : AuthorityState :=
  calls.foldl (fun s call => call.1.after call.2 s) s

theorem KernelOp.logged (op : KernelOp) (uuid : String) (s : AuthorityState) :
    Logged s (op.after uuid s) := by
  unfold KernelOp.after
  split
  · rename_i r s' h
    cases op with
    | delegate request custody now =>
        obtain ⟨id, hrun, -⟩ := map_eq_ok.mp h
        exact delegate_logged hrun
    | pause id generation now =>
        obtain ⟨record, hrun, -⟩ := map_eq_ok.mp h
        exact transition_logged (fun _ _ _ => rfl) hrun
    | resume id generation now =>
        obtain ⟨record, hrun, -⟩ := map_eq_ok.mp h
        exact transition_logged (fun _ _ _ => rfl) hrun
    | revoke id generation reason now =>
        obtain ⟨affected, hrun, -⟩ := map_eq_ok.mp h
        obtain ⟨new, hnew, -⟩ := revoke_logs hrun
        exact ⟨new, hnew⟩
    | refreshExpirations now =>
        obtain ⟨expired, hrun, -⟩ := map_eq_ok.mp h
        obtain ⟨new, hnew, -⟩ := refreshExpirations_logs hrun
        exact ⟨new, hnew⟩
    | renew request now =>
        obtain ⟨id, hrun, -⟩ := map_eq_ok.mp h
        exact renew_logged hrun
  · rename_i e s' h
    rw [op.exec_failsClean uuid s e s' h]
    exact .refl s

theorem runCalls_logged (s : AuthorityState) (calls : List (KernelOp × String)) :
    Logged s (runCalls s calls) := by
  induction calls generalizing s with
  | nil => exact .refl s
  | cons call calls ih => exact (call.1.logged call.2 s).trans (ih _)

/-- The log of a state is complete: numbered from 1 on without a gap, and telling
    everything about the stored leases and the root. -/
structure CompleteHistory (s : AuthorityState) : Prop where
  numbered : NumberedFrom 1 s.events
  replay_eq : Replayed.replay s.events = s.view

theorem CompleteHistory.logged (h : CompleteHistory s) (hlogged : Logged s s') :
    CompleteHistory s' := by
  obtain ⟨new, hnew⟩ := hlogged
  constructor
  · rw [hnew.events_eq]
    apply h.numbered.append
    rw [Nat.add_comm]
    exact hnew.numbered
  · rw [Replayed.replay, hnew.events_eq, List.foldl_append, ← hnew.view_eq, ← h.replay_eq]
    rfl

theorem Bootstrap.completeHistory {request : RootLeaseRequest} {custody : KeyCustody}
    {now : DateTime} {uuid : String} (run : Bootstrap request custody now uuid) :
    CompleteHistory run.post := by
  constructor
  · rfl
  · apply Replayed.ext_leases
    · intro id
      have hreplay : (Replayed.replay run.post.events).leases id
          = if id = run.leaseId then some .issued else none := Replayed.create_leases _ _ id
      rw [hreplay]
      simp only [AuthorityState.view, run.lookup_post]
      split <;> rfl
    · rfl

/-- In every state a kernel can reach, whatever the calls, their arguments and the lease
    ids they draw, the log numbers its events from 1 on, later calls only append to it, and
    its replay gives back the stored leases (each with its state, generation, time of
    revocation and successor) and the root. -/
theorem event_log_is_complete_history {request : RootLeaseRequest} {custody : KeyCustody}
    {now : DateTime} {uuid : String} {s₀ : AuthorityState}
    (hboot : bootstrap request custody now uuid = .ok s₀)
    (calls more : List (KernelOp × String)) :
    let s := runCalls s₀ calls
    s.events.map AuthorityEvent.sequence = List.range' 1 s.events.length ∧
      s.events <+: (runCalls s₀ (calls ++ more)).events ∧
      (∀ id, (Replayed.replay s.events).leases id
        = (s.leases.lookup id).map fun entry => entry.record.summary) ∧
      (Replayed.replay s.events).rootLeaseId = some s.rootLeaseId := by
  intro s
  obtain ⟨run, rfl⟩ := bootstrap_eq_ok hboot
  have hs : CompleteHistory s := run.completeHistory.logged (runCalls_logged _ calls)
  obtain ⟨new, hnew⟩ := runCalls_logged s more
  refine ⟨hs.numbered, ?_, ?_, ?_⟩
  · refine ⟨new, ?_⟩
    have hmore : runCalls run.post (calls ++ more) = runCalls s more := List.foldl_append
    rw [← hnew.events_eq, hmore]
  · intro id
    rw [hs.replay_eq]
    rfl
  · rw [hs.replay_eq]
    rfl

omit [Externals] in
/-- The reference kernel, after its root lease was paused and revoked. -/
theorem event_log_is_complete_history_reference : letI := Reference.externals
    ∃ (s : AuthorityState) (calls : List (KernelOp × String)), calls.length = 2 ∧
      (Replayed.replay (runCalls s calls).events).rootLeaseId
        = some (runCalls s calls).rootLeaseId := by
  let := Reference.externals
  obtain ⟨s, hs⟩ := Reference.exists_kernel
  obtain ⟨-, -, -, hroot⟩ := event_log_is_complete_history hs
    [(.pause Reference.leaseId 0 Reference.start, "2"),
      (.revoke Reference.leaseId 1 "done" Reference.start, "3")] []
  exact ⟨s, _, rfl, hroot⟩

end

end GenesisRuntime
