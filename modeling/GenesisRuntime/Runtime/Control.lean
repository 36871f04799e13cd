/-
  GenesisRuntime.Runtime.Control

  The control plane as one object.  `pause`, `resume`, `revoke` and `renew` read the
  active lease under one lock and act on it under another; whatever happens in between,
  a call that succeeds has done in one step what it says to the lease that was then the
  root, and between its read and that step no other such call has succeeded.
-/

import GenesisRuntime.Kernel.Effects
import GenesisRuntime.Kernel.Lineage
import GenesisRuntime.Runtime.Drift
import GenesisRuntime.Runtime.Progress
import GenesisRuntime.Runtime.Reference.Runs

namespace GenesisRuntime

open Prog (Spec)

section
variable [Externals]

-- ============================================================================
-- Orders
-- ============================================================================

/-- A call of the control plane on the active lease, with all it reads but that lease. -/
inductive Order where
  | pause (now : DateTime)
  | resume (now : DateTime)
  | revoke (reason : String) (now : DateTime)
  | renew (manifest : CapabilityManifest) (contextDigest : Digest) (expiresAt now : DateTime)

namespace Order

/-- The call an order belongs to. -/
def call : Order → Call
  | .pause _ => .pause
  | .resume _ => .resume
  | .revoke reason _ => .revoke reason
  | .renew _ _ expiresAt _ => .renew expiresAt

/-- The operation on the kernel, for a lease as it was read. -/
def op (lease : LeaseEntry) : Order → KernelOp
  | .pause now => .pause lease.certificate.leaseId lease.record.generation now
  | .resume now => .resume lease.certificate.leaseId lease.record.generation now
  | .revoke reason now =>
      .revoke lease.certificate.leaseId lease.record.generation reason now
  | .renew manifest contextDigest expiresAt now =>
      .renew
        { leaseId := lease.certificate.leaseId
          expectedGeneration := lease.record.generation
          grantedAuthority := lease.certificate.grantedAuthority
          delegableAuthority := lease.certificate.delegableAuthority
          capabilityManifest := manifest
          semanticContextDigest := contextDigest
          expiresAt := expiresAt } now

end Order

/-- What a call of the control plane is for: an order carried out in one step on the
    lease that is the root. -/
def manage (order : Order) (uuid : String) : KernelM KernelReturn := do
  let state ← get
  let active ← orReject .leaseInactive "authority lease not found"
    (state.leases.lookup state.rootLeaseId)
  (order.op active).exec uuid

/-- The calls of the control plane on the active lease. -/
def Call.isManaged : Call → Bool
  | .pause | .resume | .revoke _ | .renew _ => true
  | _ => false

/-- The root lease, as it is stored. -/
def ActiveLease (s : AuthorityState) (lease : LeaseEntry) : Prop :=
  s.rootLeaseId = lease.certificate.leaseId ∧
    s.leases.lookup lease.certificate.leaseId = some lease

theorem ActiveLease.manage_eq {s : AuthorityState} {lease : LeaseEntry} (h : ActiveLease s lease)
    (order : Order) (uuid : String) : manage order uuid s = (order.op lease).exec uuid s := by
  have hlookup : s.leases.lookup s.rootLeaseId = some lease := by
    rw [h.1]
    exact h.2
  show (orReject (m := KernelM) _ _ (s.leases.lookup s.rootLeaseId) >>= _) s = _
  rw [hlookup]
  rfl

-- ============================================================================
-- What the calls perform
-- ============================================================================

/-- Before its operation, a call has read the root id and then the lease, and has not operated
    on the kernel. -/
def OrderedBy (call : Call) (h : History) (op : KernelOp) : Prop :=
  ∃ (rootId : LeaseId) (lease : LeaseEntry) (rest : History) (order : Order),
    h = ⟨.rootLeaseId, rootId⟩ :: ⟨.leaseSnapshot rootId, .ok lease⟩ :: rest ∧
      (∀ ev ∈ rest, ev.op.isQuiet = true) ∧ order.call = call ∧ op = order.op lease

/-- A call that returns a value has operated on the kernel. -/
def Operates (h : History) (outcome : Outcome) : Prop :=
  ∀ value, outcome = .controlled (.ok value) →
    ∃ op returned, (⟨.kernelOp op, .ok returned⟩ : Event) ∈ h

theorem managed_spec (rt : R1Runtime) {call : Call} (hcall : call.isManaged = true) :
    Spec (fun h o => ∀ op, o = .kernelOp op → OrderedBy call h op) Operates [] (rt.code call) := by
  have hquiet : ∀ (h : History) (o : Op), o.isQuiet = true →
      ∀ op, o = .kernelOp op → OrderedBy call h op := by
    intro h o ho op heq
    rw [heq] at ho
    cases ho
  -- the calls that perform their operation right after they have read the lease
  have hactive (order : DateTime → Order) (horder : ∀ now, (order now).call = call) :
      Spec (fun h o => ∀ op, o = .kernelOp op → OrderedBy call h op) Operates []
        (Outcome.controlled <$> (do
          let active ← R1Runtime.activeLeaseSnapshot
          R1Runtime.kernelOp ((order (← perform .utcNow)).op active) :
            RuntimeM R1Runtime.ControlReturn).run) := by
    refine Spec.map (activeLeaseSnapshot_bind_spec hquiet (fun rootId lease => ?_)
      fun _ _ _ heq => by cases heq)
    refine Spec.opE (hquiet _ _ rfl) fun now => ?_
    unfold R1Runtime.kernelOp
    refine Spec.opE ?_ fun r => Spec.ofResultE (fun returned hr => ?_) fun e _ _ heq => by cases heq
    · rintro _ ⟨⟩
      exact ⟨rootId, lease, [⟨.utcNow, now⟩], order now, rfl, by simp [Op.isQuiet], horder now, rfl⟩
    · subst hr
      exact Spec.pureE fun _ _ => ⟨(order now).op lease, returned, by simp⟩
  cases call with
  | pause => exact hactive .pause fun _ => rfl
  | resume => exact hactive .resume fun _ => rfl
  | revoke reason => exact hactive (.revoke reason) fun _ => rfl
  | renew expiresAt =>
      refine Spec.map ((renew_returns hquiet fun renewing => ?_).mono (fun _ _ h => h) ?_)
      · rintro _ ⟨⟩
        exact ⟨renewing.rootId, renewing.lease, _,
          .renew renewing.manifest renewing.contextDigest expiresAt renewing.now, rfl,
          by simp [Op.isQuiet, Renewing.refresh], rfl, rfl⟩
      · rintro h result hreturns value heq
        cases heq
        obtain ⟨renewing, returned, rest, rfl⟩ := hreturns value rfl
        exact ⟨renewing.op, returned, by simp⟩
  | _ => cases hcall

/-- Every call, by the order it carries out. -/
theorem ordered_spec (rt : R1Runtime) (call : Call) :
    Spec (fun h o => call.isManaged = true → ∀ op, o = .kernelOp op → OrderedBy call h op)
      (fun h outcome => call.isManaged = true → Operates h outcome) [] (rt.code call) := by
  by_cases hcall : call.isManaged = true
  · exact (managed_spec rt hcall).mono (fun _ _ h _ => h) fun _ _ h _ => h
  · exact (code_spec rt call).mono (fun _ _ _ h => absurd h hcall) fun _ _ _ h => absurd h hcall

-- ============================================================================
-- What an order does to the lease
-- ============================================================================

section
variable {s s' : AuthorityState} {lease : LeaseEntry} {order : Order} {uuid : String}
  {r : KernelReturn}

/-- An order only succeeds on a live lease whose generation is the one that was read, and
    it moves that generation on. -/
theorem Order.exec_eq_ok (fresh : FreshUuid s uuid) (h : (order.op lease).exec uuid s = .ok r s') :
    ∃ entry entry', s.leases.lookup lease.certificate.leaseId = some entry ∧
      entry.record.generation = lease.record.generation ∧
      entry.record.state.isLive = true ∧
      s'.leases.lookup lease.certificate.leaseId = some entry' ∧
      entry'.record.generation ≠ entry.record.generation := by
  cases order with
  | pause now =>
      obtain ⟨record, hrun, -⟩ := map_eq_ok.mp h
      obtain ⟨entry, hentry, hgen, hstate, -, rfl, rfl⟩ := transition_eq_ok hrun
      refine ⟨entry, _, hentry, hgen, by rw [hstate]; rfl,
        by rw [AuthorityState.pushEvent_leases, AuthorityState.lookup_putLease, if_pos rfl], ?_⟩
      exact Nat.succ_ne_self _
  | resume now =>
      obtain ⟨record, hrun, -⟩ := map_eq_ok.mp h
      obtain ⟨entry, hentry, hgen, hstate, -, rfl, rfl⟩ := transition_eq_ok hrun
      refine ⟨entry, _, hentry, hgen, by rw [hstate]; rfl,
        by rw [AuthorityState.pushEvent_leases, AuthorityState.lookup_putLease, if_pos rfl], ?_⟩
      exact Nat.succ_ne_self _
  | revoke reason now =>
      obtain ⟨affected, hrun, -⟩ := map_eq_ok.mp h
      obtain ⟨hself, -⟩ := revoke_endsBelow hrun
      obtain ⟨entry, hentry, hgen, hlive, -, -, hlookup⟩ := revoke_eq_ok hrun
      refine ⟨entry, _, hentry, hgen, hlive, by rw [hlookup, hentry]; rfl, ?_⟩
      rw [cascadeEntry, if_pos hself]
      simp [LeaseRecord.cascade, hlive, LeaseRecord.revoke, LeaseRecord.advance]
  | renew manifest contextDigest expiresAt now =>
      obtain ⟨leaseId, hrun, -⟩ := map_eq_ok.mp h
      obtain ⟨run, -, rfl⟩ := renew_eq_ok hrun
      obtain ⟨hgen, hstate, -⟩ := validateActiveRecord_eq_ok.mp run.active
      have hne : lease.certificate.leaseId ≠ run.renewedId := by
        intro heq
        exact fresh _ run.renewedId_eq (heq ▸ AList.mem_of_lookup run.old_eq)
      refine ⟨run.old, _, run.old_eq, hgen _ rfl, by rw [hstate]; rfl,
        by rw [run.lookup_post, if_neg hne]; exact run.old_retired, ?_⟩
      exact Nat.succ_ne_self _

/-- A lease that had no parent when it was the root and that is found live, with the
    generation that was read, has been the root in between. -/
theorem ActiveLease.between {s₀ u : AuthorityState} (hs₀ : Reachable s₀) (run₀ : KernelRun s₀ s)
    (run : KernelRun s u) (run' : KernelRun u s') {rootId : LeaseId} {entry : LeaseEntry}
    (hroot : s₀.rootLeaseId = rootId) (hlease : s.leases.lookup rootId = some lease)
    (hentry : s'.leases.lookup rootId = some entry)
    (hgen : entry.record.generation = lease.record.generation)
    (hlive : entry.record.state.isLive = true) : ActiveLease u lease := by
  have hs := hs₀.run run₀
  have hu := hs.run run
  -- the lease was the root once, so it has no parent
  obtain ⟨agent, hheld⟩ := (Lineages.of_reachable hs₀).root
  obtain ⟨entry₀, hentry₀, hagent, -⟩ := hheld.held
  rw [hroot] at hentry₀
  have hparentless : lease.parentId = none := by
    have heq := (run₀.keepsLeases.eq_withRecord hentry₀ hlease).1
    have hnone := (hheld.parentless _ _ hentry₀).mpr hagent
    rw [heq]
    exact hnone
  -- its record is the one that was read, from the read to the end
  obtain ⟨between, hbetween, hlater⟩ := run.keepsLeases _ _ hlease
  have hlater' := (run'.keepsLeases.eq_withRecord hbetween hentry).2
  have hrecord : between = lease.record := by
    refine hlater.eq_of_generation (Nat.le_antisymm ?_ hlater.generation_le)
    exact hlater'.generation_le.trans hgen.le
  subst hrecord
  have hkept : entry.record = lease.record := hlater'.eq_of_generation hgen
  rw [hkept] at hlive
  have hkeyed := (Lifecycle.of_reachable hs).keyed _ _ hlease
  rw [ActiveLease, hkeyed]
  exact ⟨((Lifecycle.of_reachable hu).root_only _ _ hbetween hlive hparentless).symm, hbetween⟩

end

-- ============================================================================
-- The control plane
-- ============================================================================

/-- The operation on the kernel of this call of this thread, which has succeeded. -/
def Succeeds (c : SystemState) (t k : Nat) (call : Call) (returned : KernelReturn) : Prop :=
  (∃ thread, c.threads[t]? = some thread ∧ thread.call = call) ∧
    ∃ e op, c.trace[k]? = some e ∧ e.tid = t ∧ e.event = ⟨.kernelOp op, .ok returned⟩

variable {rt : R1Runtime} {init : World} {c : SystemState}

/-- A call that has succeeded: what it has read, where, and what it has done. -/
structure Managed (c : SystemState) (t k : Nat) (order : Order) (uuid : String)
    (returned : KernelReturn) (lease : LeaseEntry) (m : Nat) : Prop where
  read_lt : m < k
  read : ∃ e rootId, c.trace[m]? = some e ∧ e.tid = t ∧
    e.event = ⟨.leaseSnapshot rootId, .ok lease⟩
  active : ∀ i, m ≤ i → i ≤ k → ActiveLease (c.worldAt i).kernel lease
  done : manage order uuid (c.worldAt k).kernel = .ok returned (c.worldAt (k + 1)).kernel
  moved : ¬ ActiveLease (c.worldAt (k + 1)).kernel lease

/-- A step that has run an operation of the kernel. -/
theorem kernelOp_step (run : AnyRun rt init c) {k : Nat} {e : Step} (he : c.trace[k]? = some e)
    {op : KernelOp} {returned : KernelReturn} (hev : e.event = ⟨.kernelOp op, .ok returned⟩) :
    FreshUuid (c.worldAt k).kernel e.input.uuid ∧
      op.exec e.input.uuid (c.worldAt k).kernel = .ok returned (c.worldAt (k + 1)).kernel := by
  obtain ⟨hpre, hpost⟩ := run.linked.2 k e he
  obtain ⟨s', hexec⟩ := kernelOp_eq_ok (resp_eq run he hev)
  have hop : e.op = .kernelOp op := congrArg Prog.Event.op hev
  have hafter : (Op.exec e.tid (.kernelOp op) e.input e.pre).2.kernel
      = op.after e.input.uuid e.pre.kernel := exec_kernelOp op
  rw [← hop, post_eq run he, hpost, hpre, KernelOp.after, hexec] at hafter
  have hadmitted := (run.stepped he).admitted op hop
  rw [hpre] at hadmitted
  exact ⟨hadmitted, by rw [hexec, hafter]⟩

/-- A successful call found the lease it had read still there. -/
theorem Succeeds.managed (boot : Bootstrapped rt init) (run : AnyRun rt init c) {t k : Nat}
    {call : Call} {returned : KernelReturn} (hcall : call.isManaged = true)
    (h : Succeeds c t k call returned) :
    ∃ order uuid lease m, order.call = call ∧ Managed c t k order uuid returned lease m := by
  obtain ⟨⟨thread, hthread, rfl⟩, e, op, he, rfl, hev⟩ := h
  obtain ⟨thread', hthread', hbefore⟩ := run.spec_before (ordered_spec rt) he
  rw [hthread] at hthread'
  cases hthread'
  obtain ⟨rootId, lease, rest, order, hhist, -, horder, rfl⟩ :=
    hbefore hcall op (congrArg Prog.Event.op hev)
  -- where the two reads stand
  have hsplit : historyOf (c.trace.take k) e.tid = [⟨.rootLeaseId, rootId⟩]
      ++ ⟨.leaseSnapshot rootId, .ok lease⟩ :: rest := hhist
  obtain ⟨m, em, hmk, hm, htid, hsnapshot, hbefore, -⟩ := exists_position hsplit
  have hsplit : historyOf (c.trace.take m) e.tid = [] ++ ⟨.rootLeaseId, rootId⟩ :: [] := hbefore
  obtain ⟨l, el, hlm, hl, -, hroot, -, -⟩ := exists_position hsplit
  have hroot : (c.worldAt l).kernel.rootLeaseId = rootId := resp_eq run hl hroot
  have hlease : (c.worldAt m).kernel.leases.lookup rootId = some lease :=
    orReject_eq_ok.mp (resp_eq run hm hsnapshot)
  have hk : k < c.trace.length := (List.getElem?_eq_some_iff.mp he).1
  have hfresh : ∀ w o input, FreshIds w o input → FreshIds w o input := fun _ _ _ h => h
  have hkeyed : lease.certificate.leaseId = rootId :=
    (Lifecycle.of_reachable (kernel_reachable run hfresh boot (by omega))).keyed _ _ hlease
  -- the operation
  obtain ⟨fresh, hexec⟩ := kernelOp_step run he hev
  obtain ⟨entry, entry', hentry, hgen, hlive, hentry', hmoved⟩ := Order.exec_eq_ok fresh hexec
  rw [hkeyed] at hentry hentry'
  have hactive (i : Nat) (hmi : m ≤ i) (hik : i ≤ k) : ActiveLease (c.worldAt i).kernel lease :=
    ActiveLease.between (kernel_reachable run hfresh boot (i := l) (by omega))
      (kernelRun_between run hfresh hlm.le (by omega))
      (kernelRun_between run hfresh hmi (by omega))
      (kernelRun_between run hfresh hik hk.le) hroot hlease hentry hgen hlive
  refine ⟨order, e.input.uuid, lease, m, horder, hmk, ⟨em, rootId, hm, htid, hsnapshot⟩, hactive,
    ?_, fun hactive' => ?_⟩
  · rw [(hactive k hmk.le le_rfl).manage_eq]
    exact hexec
  · have heq := hactive'.2
    rw [hkeyed, hentry'] at heq
    cases heq
    exact hmoved hgen.symm

/-- A call operates on the kernel at most once. -/
theorem Succeeds.unique (run : AnyRun rt init c) {t k k' : Nat} {call call' : Call}
    {returned returned' : KernelReturn} (hcall : call.isManaged = true)
    (h : Succeeds c t k call returned) (h' : Succeeds c t k' call' returned') : k' ≤ k := by
  obtain ⟨⟨thread, hthread, rfl⟩, e, op, he, rfl, hev⟩ := h
  obtain ⟨-, e', op', he', htid, hev'⟩ := h'
  obtain ⟨thread', hthread', hbefore⟩ := run.spec_before (ordered_spec rt) he'
  rw [htid, hthread] at hthread'
  cases hthread'
  obtain ⟨rootId, lease, rest, order, hhist, hquiet, -⟩ :=
    hbefore hcall op' (congrArg Prog.Event.op hev')
  by_contra hlt
  have hmem := mem_historyOf_of_lt he (not_le.mp hlt)
  rw [← htid, hhist, hev] at hmem
  rcases List.mem_cons.mp hmem with heq | hmem
  · cases congrArg Prog.Event.op heq
  rcases List.mem_cons.mp hmem with heq | hmem
  · cases congrArg Prog.Event.op heq
  · cases hquiet _ hmem

/-- The control plane as one object: a call that succeeds has carried out its order in one
    step, on the lease that was the root. It had read that lease before, and from the read to
    the step neither the root nor anything stored of it has changed; so no other call that has
    succeeded comes in between. And a call that has returned a value has succeeded in exactly
    one step. -/
theorem control_calls_are_atomic (boot : Bootstrapped rt init) (run : AnyRun rt init c) :
    (∀ t k call returned, call.isManaged = true → Succeeds c t k call returned →
      ∃ order uuid lease m, order.call = call ∧ Managed c t k order uuid returned lease m ∧
        ∀ t' k' call' returned', call'.isManaged = true → Succeeds c t' k' call' returned' →
          k' < k → k' < m) ∧
    ∀ t thread value, c.threads[t]? = some thread → thread.call.isManaged = true →
      thread.prog = .ret (.controlled (.ok value)) →
      ∃! k, ∃ returned, Succeeds c t k thread.call returned := by
  refine ⟨fun t k call returned hcall h => ?_, fun t thread value hthread hcall hprog => ?_⟩
  swap
  · have hreturned := run.spec_rest (ordered_spec rt) hthread
    rw [hprog] at hreturned
    obtain ⟨op, returned, hmem⟩ := hreturned hcall value rfl
    obtain ⟨k, e, -, he, htid, hev⟩ := exists_of_mem_historyOf hmem
    have h : Succeeds c t k thread.call returned := ⟨⟨thread, hthread, rfl⟩, e, op, he, htid, hev⟩
    exact ⟨k, ⟨returned, h⟩, fun k' ⟨returned', h'⟩ =>
      Nat.le_antisymm (h.unique run hcall h') (h'.unique run hcall h)⟩
  obtain ⟨order, uuid, lease, m, horder, managed⟩ := h.managed boot run hcall
  refine ⟨order, uuid, lease, m, horder, managed, fun t' k' call' returned' hcall' h' hlt => ?_⟩
  by_contra hle
  obtain ⟨order', uuid', lease', m', -, managed'⟩ := h'.managed boot run hcall'
  -- both have acted on the lease that was the root at the step of the earlier one
  have hactive := managed.active k' (by omega) hlt.le
  have hactive' := managed'.active k' managed'.read_lt.le le_rfl
  have hsame : lease' = lease := by
    have heq : lease'.certificate.leaseId = lease.certificate.leaseId :=
      hactive'.1.symm.trans hactive.1
    have hlookup := hactive'.2
    rw [heq, hactive.2] at hlookup
    exact (Option.some.inj hlookup).symm
  refine managed'.moved ?_
  rw [hsame]
  exact managed.active (k' + 1) (by omega) hlt

omit [Externals] in
/-- The root lease of the reference runtime is paused, and revoked by another call: the second
    call has read the lease only after the first has succeeded. -/
theorem control_calls_are_atomic_reference : letI := Reference.externals
    ∃ (rt : R1Runtime) (init : World) (c : SystemState) (k k' : Nat)
      (returned returned' : KernelReturn), Bootstrapped rt init ∧ AnyRun rt init c ∧
      Succeeds c 0 k .pause returned ∧ Succeeds c 1 k' (.revoke "done") returned' ∧
      ∃ order uuid lease m, Order.call order = .revoke "done" ∧
        Managed c 1 k' order uuid returned' lease m ∧ k < m := by
  let := Reference.externals
  obtain ⟨rt, w, tool, ⟨act⟩⟩ := Reference.exists_activated
  obtain ⟨c, value, value', b, run, hthreads, hearlier⟩ := act.exists_paused_revoked
  obtain ⟨hatomic, hreturns⟩ := control_calls_are_atomic act.bootstrapped run
  obtain ⟨k, ⟨returned, h⟩, -⟩ := hreturns 0 _ value (congrArg (·[0]?) hthreads) rfl rfl
  obtain ⟨k', ⟨returned', h'⟩, -⟩ := hreturns 1 _ value' (congrArg (·[1]?) hthreads) rfl rfl
  obtain ⟨order, uuid, lease, m, horder, managed, hafter⟩ := hatomic 1 k' _ returned' rfl h'
  refine ⟨rt, w, c, k, k', returned, returned', act.bootstrapped, run, h, h', order, uuid, lease, m,
    horder, managed, hafter 0 k _ returned rfl h ?_⟩
  obtain ⟨-, e, op, he, htid, -⟩ := h
  obtain ⟨-, e', op', he', htid', -⟩ := h'
  exact (hearlier k e he htid).trans_le
    ((run.lives (congrArg (·[1]?) hthreads)).after_born k' e' he' htid')

end

end GenesisRuntime
