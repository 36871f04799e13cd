/-
  GenesisRuntime.Kernel.Endings

  Histories of the operations that end authority, `revoke` and `refresh_expirations`.
  Which leases have ended after one depends on what it asks for, and neither on the
  order of its calls nor on how often they are made; and nothing that can be asked of
  the kernel afterwards depends on more.
-/

import GenesisRuntime.Kernel.Equivalence

namespace GenesisRuntime

open EStateM (Related RelatedAt)

section
variable [Externals] {s s' s'' : AuthorityState}

/-- Where the same leases have ended, the states are alike. -/
theorem EndsJust.alike {ending : LeaseId → Prop} (h : EndsJust ending s s')
    (h' : EndsJust ending s s'') : Alike s' s'' where
  mission := h'.cascade.mission.trans h.cascade.mission.symm
  rootLeaseId := h'.cascade.rootLeaseId.trans h.cascade.rootLeaseId.symm
  identities := h'.cascade.identities.trans h.cascade.identities.symm
  custodians := h'.cascade.custodians.trans h.cascade.custodians.symm
  leases := by
    intro id
    by_cases hended : ∃ entry, s.leases.lookup id = some entry ∧
        entry.record.state.isLive = true ∧ ending id
    · obtain ⟨entry, hentry, hlive, hending⟩ := hended
      obtain ⟨record, hrecord, hover⟩ := h.ended id entry hentry hlive hending
      obtain ⟨record', hrecord', hover'⟩ := h'.ended id entry hentry hlive hending
      rw [hrecord, hrecord']
      exact .some ⟨rfl, rfl, .inr ⟨hover.isOver, hover'.isOver,
        hover'.leaseId.trans hover.leaseId.symm, hover'.generation.trans hover.generation.symm,
        hover'.renewedBy.trans hover.renewedBy.symm⟩⟩
    · have hnot : ∀ entry, s.leases.lookup id = some entry → entry.record.state.isLive = true →
          ¬ ending id :=
        fun entry hentry hlive hending => hended ⟨entry, hentry, hlive, hending⟩
      rw [h.spared id hnot, h'.spared id hnot]
      exact (Alike.refl s).leases id

-- ============================================================================
-- One call
-- ============================================================================

/-- The operations that end leases, and do nothing else. -/
def KernelOp.IsEnding : KernelOp → Prop
  | .revoke _ _ _ _ => True
  | .refreshExpirations _ => True
  | _ => False

/-- The lease is one of those that the call ends, if it is live. -/
def KernelOp.Ends (s : AuthorityState) (op : KernelOp) (id : LeaseId) : Prop :=
  match op with
  | .revoke top generation _ _ => ∃ entry, s.leases.lookup top = some entry ∧
      entry.record.state.isLive = true ∧ entry.record.generation = generation ∧
      LeaseBelow s top id
  | .refreshExpirations now => Passed s (· ≤ now) id
  | _ => False

/-- With a lease all those below it end. -/
theorem KernelOp.Ends.below (hs : Reachable s) {op : KernelOp} {id below : LeaseId}
    (h : op.Ends s id) (hbelow : LeaseBelow s id below) (hstored : below ∈ s.leases) :
    op.Ends s below := by
  cases op with
  | revoke top generation reason now =>
      obtain ⟨entry, hentry, hlive, hgeneration, habove⟩ := h
      exact ⟨entry, hentry, hlive, hgeneration, habove.trans hbelow⟩
  | refreshExpirations now =>
      obtain ⟨entry, hentry, hpassed⟩ := h
      obtain ⟨entry', hentry'⟩ := AList.mem_iff_lookup.mp hstored
      obtain ⟨above, habove, hle⟩ := (Timely.of_reachable hs).expiresAt_le hbelow hentry'
      obtain rfl := Option.some.inj (hentry.symm.trans habove)
      exact ⟨entry', hentry', hle.trans hpassed⟩
  | _ => exact h.elim

theorem revoke_endsJust {top : LeaseId} {generation : Nat} {reason : String} {now : DateTime}
    {affected : List LeaseId} (h : revoke top generation reason now s = .ok affected s') :
    EndsJust ((KernelOp.revoke top generation reason now).Ends s) s s' := by
  obtain ⟨root, hroot, hgeneration, hrootLive, rfl, hcascade, hlookup⟩ := revoke_eq_ok h
  have hmem (id : LeaseId) : id ∈ descendants s top ↔ LeaseBelow s top id :=
    mem_descendants (AList.mem_of_lookup hroot)
  refine ⟨hcascade, ?_, ?_⟩
  · rintro id entry hentry hlive ⟨-, -, -, -, hbelow⟩
    refine ⟨entry.record.revoke reason now, ?_, rfl, rfl, rfl, .inl rfl⟩
    rw [hlookup, hentry, Option.map_some, cascadeEntry, if_pos ((hmem id).mpr hbelow),
      LeaseRecord.cascade, if_pos hlive]
  · intro id hnot
    rw [hlookup]
    cases hentry : s.leases.lookup id with
    | none => rfl
    | some entry =>
        rw [Option.map_some, cascadeEntry]
        split
        · rename_i hbelow
          rw [LeaseRecord.cascade, if_neg]
          intro hlive
          exact hnot entry hentry hlive ⟨root, hroot, hrootLive, hgeneration, (hmem id).mp hbelow⟩
        · rfl

/-- What such a call does, whether it succeeds or fails. -/
theorem KernelOp.IsEnding.after (hs : Reachable s) {op : KernelOp} (hop : op.IsEnding)
    (uuid : String) : Reachable (op.after uuid s) ∧ EndsJust (op.Ends s) s (op.after uuid s) := by
  -- the UUID is not used, so it may be one that makes no lease id
  have huuid : op.after uuid s = op.after "!" s := by
    cases op with
    | revoke => rfl
    | refreshExpirations => rfl
    | _ => exact hop.elim
  rw [huuid]
  refine ⟨hs.run (KernelRun.refl.call op "!" (freshUuid_unsupported s)), ?_⟩
  cases op with
  | revoke top generation reason now =>
      rw [KernelOp.after, KernelOp.exec]
      cases hexec : GenesisRuntime.revoke top generation reason now s with
      | ok affected s' =>
          rw [map_eq_ok.mpr ⟨affected, hexec, rfl⟩]
          exact revoke_endsJust hexec
      | error e s' =>
          obtain rfl := revoke_failsClean top generation reason now s e s' hexec
          have herror : (KernelReturn.leases <$> GenesisRuntime.revoke top generation reason now) s'
              = .error e s' := by
            rw [map_eq_pure_bind, EStateM.bind_apply, hexec]
          rw [herror]
          refine (EndsJust.refl s').congr fun id entry _ _ => ⟨False.elim, ?_⟩
          rintro ⟨root, hroot, hlive, rfl, -⟩
          obtain ⟨affected, t, hok⟩ := exists_revoke hroot hlive reason now
          cases hexec.symm.trans hok
  | refreshExpirations now =>
      obtain ⟨expired, s', -, hexec, -⟩ := refreshExpirations_spec s now
      rw [KernelOp.after, KernelOp.exec, map_eq_ok.mpr ⟨expired, hexec, rfl⟩]
      exact refreshExpirations_endsJust hs hexec
  | _ => exact hop.elim

/-- What a call ends when another one has been made before it: together they end what they
    would end each from the first state. -/
theorem EndsJust.ends_or_iff {ending : LeaseId → Prop} (h : EndsJust ending s s')
    (hclosed : ∀ id below, ending id → LeaseBelow s id below → below ∈ s.leases → ending below)
    (op : KernelOp) {id : LeaseId} (hid : id ∈ s.leases) :
    ending id ∨ op.Ends s' id ↔ ending id ∨ op.Ends s id := by
  refine or_congr_right' fun hnot => ?_
  cases op with
  | revoke top generation reason now =>
      constructor
      · rintro ⟨entry, hentry, hlive, hgeneration, hbelow⟩
        have htop : ¬ ending top := fun hending => by
          rw [h.not_live hending hentry] at hlive
          cases hlive
        rw [h.lookup_eq htop] at hentry
        exact ⟨entry, hentry, hlive, hgeneration, h.cascade.below_iff.mp hbelow⟩
      · rintro ⟨entry, hentry, hlive, hgeneration, hbelow⟩
        have htop : ¬ ending top := fun hending => hnot (hclosed top id hending hbelow hid)
        rw [← h.lookup_eq htop] at hentry
        exact ⟨entry, hentry, hlive, hgeneration, h.cascade.below_iff.mpr hbelow⟩
  | refreshExpirations now =>
      show Passed s' (· ≤ now) id ↔ Passed s (· ≤ now) id
      exact h.cascade.passed_iff
  | _ => rfl

-- ============================================================================
-- Histories
-- ============================================================================

/-- A history goes on from where its first call has led. -/
theorem callAll_cons_eq_ok {call : KernelOp × String} {calls : List (KernelOp × String)}
    {results : List (Result KernelReturn)} (h : callAll (call :: calls) s = .ok results s') :
    ∃ results', callAll calls (call.1.after call.2 s) = .ok results' s' := by
  rw [callAll, List.mapM_cons] at h
  obtain ⟨result, t, hhead, h⟩ := EStateM.bind_eq_ok.mp h
  obtain ⟨results', t', htail, h⟩ := EStateM.bind_eq_ok.mp h
  obtain ⟨-, rfl⟩ := EStateM.pure_eq_ok.mp h
  have hafter : call.1.after call.2 s = t := by
    rw [EStateM.attempt] at hhead
    rw [KernelOp.after]
    split at hhead <;> cases hhead <;> simp [*]
  exact ⟨results', hafter ▸ htail⟩

/-- A history ends what its calls would end each from the first state. -/
theorem callAll_endsJust (hs : Reachable s) {calls : List (KernelOp × String)}
    (hcalls : ∀ call ∈ calls, call.1.IsEnding) {results : List (Result KernelReturn)}
    (h : callAll calls s = .ok results s') :
    EndsJust (fun id => ∃ call ∈ calls, call.1.Ends s id) s s' := by
  induction calls generalizing s results with
  | nil =>
      obtain ⟨-, rfl⟩ := EStateM.pure_eq_ok.mp h
      exact (EndsJust.refl _).congr fun _ _ _ _ => by simp
  | cons call calls ih =>
      obtain ⟨results, htail⟩ := callAll_cons_eq_ok h
      obtain ⟨ht, hfirst⟩ := (hcalls call List.mem_cons_self).after hs call.2
      have hrest := ih ht (fun call' hmem => hcalls call' (List.mem_cons_of_mem _ hmem)) htail
      refine (hfirst.trans hrest).congr fun id entry hentry _ => ?_
      have hstored : id ∈ s.leases := AList.mem_of_lookup hentry
      have hiff (op : KernelOp) := hfirst.ends_or_iff
        (fun id below hends hbelow hmem => hends.below hs hbelow hmem) op hstored
      constructor
      · rintro (hends | ⟨call', hmem, hends⟩)
        · exact ⟨call, List.mem_cons_self, hends⟩
        · rcases (hiff call'.1).mp (.inr hends) with hends | hends
          · exact ⟨call, List.mem_cons_self, hends⟩
          · exact ⟨call', List.mem_cons_of_mem _ hmem, hends⟩
      · rintro ⟨call', hmem, hends⟩
        rcases List.mem_cons.mp hmem with rfl | hmem
        · exact .inl hends
        · rcases (hiff call'.1).mpr (.inr hends) with hends | hends
          · exact .inl hends
          · exact .inr ⟨call', hmem, hends⟩

/-- What the first call of a history has ended stays as the call has left it. -/
theorem callAll_keeps_dead (hs : Reachable s) {call : KernelOp × String}
    {calls : List (KernelOp × String)} (hcall : call.1.IsEnding)
    (hcalls : ∀ call ∈ calls, call.1.IsEnding) {results : List (Result KernelReturn)}
    (h : callAll (call :: calls) s = .ok results s') {id : LeaseId} {entry : LeaseEntry}
    (hentry : (call.1.after call.2 s).leases.lookup id = some entry)
    (hdead : entry.record.state.isLive = false) : s'.leases.lookup id = some entry := by
  obtain ⟨results', hrest⟩ := callAll_cons_eq_ok h
  rw [(callAll_endsJust (hcall.after hs call.2).1 hcalls hrest).spared, hentry]
  intro entry' hentry' hlive
  rw [← Option.some.inj (hentry.symm.trans hentry'), hdead] at hlive
  cases hlive

/-- The call asks for no more than the other one does.  For which reason and when a lease is
    revoked makes no difference. -/
inductive KernelOp.AskedBy : KernelOp → KernelOp → Prop
  | revoke (id : LeaseId) (generation : Nat) (reason reason' : String) (now now' : DateTime) :
      AskedBy (.revoke id generation reason now) (.revoke id generation reason' now')
  | refresh {now now' : DateTime} (hle : now ≤ now') :
      AskedBy (.refreshExpirations now) (.refreshExpirations now')

theorem KernelOp.AskedBy.isEnding {op op' : KernelOp} (h : op.AskedBy op') : op.IsEnding := by
  cases h <;> trivial

theorem KernelOp.AskedBy.ends {op op' : KernelOp} (h : op.AskedBy op') {id : LeaseId}
    (hends : op.Ends s id) : op'.Ends s id := by
  cases h with
  | revoke top generation reason reason' now now' => exact hends
  | refresh hle =>
      obtain ⟨entry, hentry, hpassed⟩ := hends
      exact ⟨entry, hentry, hpassed.trans hle⟩

/-- Histories of revocations and refreshes that ask for the same leave states that are alike. -/
theorem alike_of_askedBy (hs : Reachable s) {calls calls' : List (KernelOp × String)}
    (hle : ∀ call ∈ calls, ∃ call' ∈ calls', call.1.AskedBy call'.1)
    (hge : ∀ call' ∈ calls', ∃ call ∈ calls, call'.1.AskedBy call.1)
    {results results' : List (Result KernelReturn)} (h : callAll calls s = .ok results s')
    (h' : callAll calls' s = .ok results' s'') : Alike s' s'' := by
  have hends := callAll_endsJust hs (fun call hmem => by
    obtain ⟨call', -, hasked⟩ := hle call hmem
    exact hasked.isEnding) h
  have hends' := callAll_endsJust hs (fun call hmem => by
    obtain ⟨call', -, hasked⟩ := hge call hmem
    exact hasked.isEnding) h'
  refine hends.alike (hends'.congr fun id _ _ _ => ⟨?_, ?_⟩)
  · rintro ⟨call', hmem, hid⟩
    obtain ⟨call, hmem, hasked⟩ := hge call' hmem
    exact ⟨call, hmem, hasked.ends hid⟩
  · rintro ⟨call, hmem, hid⟩
    obtain ⟨call', hmem, hasked⟩ := hle call hmem
    exact ⟨call', hmem, hasked.ends hid⟩

/-- How authority has been ended is forgotten.  Two histories of revocations and refreshes that
    ask for the same, in whatever order, however often, with whatever reasons and clock values,
    cannot be told apart: any calls made afterwards return the same results, errors included,
    and after them the same authority is validated. -/
theorem ending_history_is_unobservable (hs : Reachable s) (calls calls' : List (KernelOp × String))
    (hle : ∀ call ∈ calls, ∃ call' ∈ calls', call.1.AskedBy call'.1)
    (hge : ∀ call' ∈ calls', ∃ call ∈ calls, call'.1.AskedBy call.1) :
    ∃ ended ended' s' s'', callAll calls s = .ok ended s' ∧ callAll calls' s = .ok ended' s'' ∧
      ∀ later : List (KernelOp × String), ∃ results t' t'',
        callAll later s' = .ok results t' ∧ callAll later s'' = .ok results t'' ∧
        ∀ (leaf : LeaseId) (expected : Option Nat) (manifest : CapabilityManifest)
          (clock : DateTime),
          validateChain t' leaf expected manifest clock
            = validateChain t'' leaf expected manifest clock := by
  obtain ⟨ended, s', hs'⟩ := exists_callAll calls s
  obtain ⟨ended', s'', hs''⟩ := exists_callAll calls' s
  refine ⟨ended, ended', s', s'', hs', hs'', fun later => ?_⟩
  have halike : Alike s' s'' := alike_of_askedBy hs hle hge hs' hs''
  have hends := related_callAll later s' s'' halike
  obtain ⟨results, t', hlater⟩ := exists_callAll later s'
  obtain ⟨results', t'', hlater'⟩ := exists_callAll later s''
  rw [RelatedAt, hlater, hlater'] at hends
  cases hends with
  | ok hresults hstates =>
      subst hresults
      exact ⟨results, t', t'', hlater, hlater', fun leaf expected manifest clock =>
        (hstates.validateChain_eq leaf expected manifest clock).symm⟩

omit [Externals] in
/-- Two leases of the reference kernel end, in the one history because they have expired, and in
    the other because the root lease is revoked before; there is a call too many in both. -/
theorem ending_history_is_unobservable_reference : letI := Reference.externals
    ∃ (s s' s'' : AuthorityState) (root : LeaseId) (entry entry' entry'' : LeaseEntry)
      (ended ended' : List (Result KernelReturn)), Reachable s ∧
      s.leases.lookup root = some entry ∧ entry.record.state = .active ∧
      callAll [(.refreshExpirations (Reference.start + Duration.minutes 5), "1"),
        (.revoke root 0 "done" Reference.start, "2")] s = .ok ended s' ∧
      s'.leases.lookup root = some entry' ∧ entry'.record.state = .expired ∧
      callAll [(.revoke root 0 "stop" (Reference.start + Duration.minutes 5), "3"),
        (.refreshExpirations (Reference.start + Duration.minutes 5), "4"),
        (.refreshExpirations Reference.start, "5")] s = .ok ended' s'' ∧
      s''.leases.lookup root = some entry'' ∧ entry''.record.state = .revoked ∧
      ∀ later : List (KernelOp × String), ∃ results t' t'',
        callAll later s' = .ok results t' ∧ callAll later s'' = .ok results t'' ∧
        ∀ (leaf : LeaseId) (expected : Option Nat) (manifest : CapabilityManifest)
          (clock : DateTime),
          validateChain t' leaf expected manifest clock
            = validateChain t'' leaf expected manifest clock := by
  let := Reference.externals
  obtain ⟨s, rootEntry, childEntry, h⟩ := Reference.exists_delegated
  have hrefresh {now now' : DateTime} (hle : now ≤ now') :
      (KernelOp.refreshExpirations now).AskedBy (.refreshExpirations now') := .refresh hle
  have hrevoke (reason reason' : String) (now now' : DateTime) :
      (KernelOp.revoke Reference.leaseId 0 reason now).AskedBy
        (.revoke Reference.leaseId 0 reason' now') := .revoke ..
  have hearlier : Reference.start ≤ Reference.start + Duration.minutes 5 := by decide
  obtain ⟨ended, ended', s', s'', hs', hs'', hsame⟩ := ending_history_is_unobservable h.reachable
    [(.refreshExpirations (Reference.start + Duration.minutes 5), "1"),
      (.revoke Reference.leaseId 0 "done" Reference.start, "2")]
    [(.revoke Reference.leaseId 0 "stop" (Reference.start + Duration.minutes 5), "3"),
      (.refreshExpirations (Reference.start + Duration.minutes 5), "4"),
      (.refreshExpirations Reference.start, "5")]
    (by simp [hrefresh le_rfl, hrevoke]) (by simp [hrefresh le_rfl, hrefresh hearlier, hrevoke])
  obtain ⟨t, hexpire, hexpired, -⟩ := h.exists_expired (by decide)
  have hafter : (KernelOp.refreshExpirations (Reference.start + Duration.minutes 5)).after "1" s
      = t := KernelOp.after_eq (map_eq_ok.mpr ⟨_, hexpire, rfl⟩)
  obtain ⟨affected, t', hend⟩ := exists_revoke h.lookup_root h.root_live "stop"
    (Reference.start + Duration.minutes 5)
  rw [h.root_generation] at hend
  have hafter' : (KernelOp.revoke Reference.leaseId 0 "stop"
      (Reference.start + Duration.minutes 5)).after "3" s = t' :=
    KernelOp.after_eq (map_eq_ok.mpr ⟨_, hend, rfl⟩)
  have hroot := callAll_keeps_dead h.reachable (by trivial) (by simp [KernelOp.IsEnding]) hs'
    (by rw [hafter]; exact hexpired) (by rfl)
  have hroot' := callAll_keeps_dead h.reachable (by trivial) (by simp [KernelOp.IsEnding]) hs''
    (by rw [hafter']; exact revoke_self hend h.lookup_root) (by rfl)
  exact ⟨s, s', s'', Reference.leaseId, rootEntry, _, _, ended, ended', h.reachable,
    h.lookup_root, by rw [h.root_record]; rfl, hs', hroot, rfl, hs'', hroot', rfl, hsame⟩

end

end GenesisRuntime
