/-
  GenesisRuntime.Runtime.Revocation

  The end of a mission.  Once the root lease is revoked or has expired, every lease is
  over for good.  Executions and acceptances hold the read guard from their validation
  to their effect, so what takes effect afterwards would have validated a lease that is
  over; only an execution whose consumption came before can still call Nexus.
-/

import GenesisRuntime.Kernel.Ended
import GenesisRuntime.Runtime.Drift
import GenesisRuntime.Runtime.Reference.Runs

namespace GenesisRuntime

open Prog (Spec)

section
variable [Externals]

-- ============================================================================
-- More about calls
-- ============================================================================

/-- Only turns record final results. -/
theorem code_finals (rt : R1Runtime) (call : Call) :
    Spec (fun _ o => ∀ attemptId, o = .appendForAttempt attemptId .finalProduced →
      call = .runOnce) (fun _ _ => True) [] (rt.code call) := by
  -- what is specified not to append anything appends no final result
  have hbefore
      (hP : ∀ h attemptId, ¬ Before rt call h (.appendForAttempt attemptId .finalProduced)) :
      Spec (fun _ o => ∀ attemptId, o = .appendForAttempt attemptId .finalProduced →
        call = .runOnce) (fun _ _ => True) [] (rt.code call) := by
    refine (code_spec rt call).mono (fun h o hb attemptId heq => ?_) fun _ _ _ => trivial
    rw [heq] at hb
    exact absurd hb (hP h attemptId)
  cases call with
  | runOnce => exact (Spec.trivial [] _).mono (fun _ _ _ _ _ => rfl) fun _ _ _ => trivial
  | execute authorized attemptId =>
      have hexecutable : Executable (fun _ o => o.isOrdinary = true) rt.keyCustody authorized
          attemptId [] :=
        { idle := fun _ _ ho => isOrdinary_of_idle ho
          consume := fun _ => rfl
          recorded := fun _ _ => rfl
          started := fun _ _ => rfl
          execute := fun _ _ => rfl }
      refine Spec.map ((execute_spec hexecutable).mono (fun _ o ho attemptId heq => ?_)
        fun _ _ _ => trivial)
      rw [heq] at ho
      cases ho
  | _ =>
      refine hbefore fun h attemptId hb => ?_
      cases hb

/-- A revocation that returns a value has changed the kernel. -/
theorem revoke_returns (rt : R1Runtime) (reason : String) :
    Spec (fun _ _ => True) (fun h outcome => ∀ value, outcome = .controlled (.ok value) →
      ∃ op returned, (⟨.kernelOp op, .ok returned⟩ : Event) ∈ h) [] (rt.code (.revoke reason)) := by
  refine Spec.map (p := (R1Runtime.revoke reason).run) (f := Outcome.controlled) ?_
  refine activeLeaseSnapshot_bind_spec (fun _ _ _ => trivial) (fun rootId lease => ?_)
    fun _ _ value heq => by cases heq
  refine Spec.opE trivial fun now => ?_
  unfold R1Runtime.kernelOp
  refine Spec.opE trivial fun r => Spec.ofResultE (fun returned hr => ?_)
    fun e _ value heq => by cases heq
  subst hr
  exact Spec.pureE fun value _ =>
    ⟨.revoke lease.certificate.leaseId lease.record.generation reason now, returned, by simp⟩

variable {rt : R1Runtime} {init : World} {admits : World → Op → Input → Prop}
  {maySpawn : SystemState → Call → Prop} {c : SystemState}

/-- A thread calls Nexus at most once. -/
theorem executeTool_once (run : Run rt.system init admits maySpawn c) {j k : Nat} {e e' : Step}
    (he : c.trace[j]? = some e) (he' : c.trace[k]? = some e') (htid : e.tid = e'.tid)
    (hop : e.op.isExecuteTool = true) (hop' : e'.op.isExecuteTool = true) : j = k := by
  obtain ⟨thread, _, commit, h, _, _, hthread, hstarts, hhist, -⟩ := executeTool_starts run he hop
  obtain ⟨thread', _, commit', h', _, _, hthread', hstarts', hhist', -⟩ :=
    executeTool_starts run he' hop'
  rw [← htid, hthread] at hthread'
  cases hthread'
  refine position_unique he he' htid ?_
  rw [hhist, hhist', List.length_append, List.length_append, hstarts.length_eq hstarts']
  rfl

-- ============================================================================
-- What ends the root lease
-- ============================================================================

/-- The step at position `k` ends the root lease: a `revoke` takes effect, or a
    `refresh_expirations` after which the root lease has expired. -/
inductive EndsRoot (c : SystemState) (k : Nat) : Prop where
  | revoked (e : Step) (thread : Thread Op Call Outcome Op.Resp) (reason : String) (op : KernelOp)
      (returned : KernelReturn) (he : c.trace[k]? = some e)
      (hthread : c.threads[e.tid]? = some thread) (hcall : thread.call = .revoke reason)
      (hev : e.event = ⟨.kernelOp op, .ok returned⟩) : EndsRoot c k
  | expired (e : Step) (now : DateTime) (root : LeaseEntry) (he : c.trace[k]? = some e)
      (hop : e.op = .kernelOp (.refreshExpirations now))
      (hroot : e.post.kernel.leases.lookup e.post.kernel.rootLeaseId = some root)
      (hexpired : root.record.state = .expired) : EndsRoot c k

theorem EndsRoot.kernelOp {k : Nat} (h : EndsRoot c k) :
    ∃ e op, c.trace[k]? = some e ∧ e.op = .kernelOp op := by
  cases h with
  | revoked e thread reason op returned he _ _ hev => exact ⟨e, op, he, congrArg Prog.Event.op hev⟩
  | expired e now root he hop _ _ => exact ⟨e, _, he, hop⟩

/-- Everything is over right after the step. -/
theorem EndsRoot.allEnded_succ (run : Run rt.system init admits maySpawn c)
    (hfresh : ∀ w o input, admits w o input → FreshIds w o input) (boot : Bootstrapped rt init)
    {k : Nat} (h : EndsRoot c k) : AllEnded (c.worldAt (k + 1)).kernel := by
  cases h with
  | expired e now root he hop hroot hexpired =>
      have hk := (List.getElem?_eq_some_iff.mp he).1
      have hs := kernel_reachable run hfresh boot (i := k + 1) (by omega)
      rw [(run.linked.2 k e he).2] at hroot
      have hended : RootEnded (c.worldAt (k + 1)).kernel := by
        intro entry hentry
        rw [hroot] at hentry
        cases hentry
        rw [hexpired]
        rfl
      exact hended.all (Lifecycle.of_reachable hs) (Trees.of_reachable hs)
  | revoked e thread reason op returned he hthread hcall hev =>
      have hk := (List.getElem?_eq_some_iff.mp he).1
      obtain ⟨thread', hthread', hbefore⟩ := run.spec_before (code_spec rt) he
      rw [hthread] at hthread'
      cases hthread'
      have hop : e.op = .kernelOp op := congrArg Prog.Event.op hev
      rw [hcall, hop] at hbefore
      obtain ⟨rootId, lease, now, hhist, rfl⟩ := hbefore
      have hsplit : historyOf (c.trace.take k) e.tid
          = [⟨.rootLeaseId, rootId⟩] ++ ⟨.leaseSnapshot rootId, .ok lease⟩ :: [⟨.utcNow, now⟩] :=
        hhist
      obtain ⟨l, el, hlk, hl, -, hsnapshot, hbefore, -⟩ := exists_position hsplit
      have hsplit : historyOf (c.trace.take l) e.tid = [] ++ ⟨.rootLeaseId, rootId⟩ :: [] := hbefore
      obtain ⟨r, er, hrl, hr, -, hroot, -, -⟩ := exists_position hsplit
      have hroot : (c.worldAt r).kernel.rootLeaseId = rootId := resp_eq run hr hroot
      have hlookup : (c.worldAt l).kernel.leases.lookup rootId = some lease :=
        orReject_eq_ok.mp (resp_eq run hl hsnapshot)
      -- the lease that was read is the root lease of before, so it has no parent
      obtain ⟨root, hrootEntry, hparent⟩ :=
        exists_root (kernel_reachable run hfresh boot (i := r) (by omega))
      rw [hroot] at hrootEntry
      have hkeyed := (Lifecycle.of_reachable (kernel_reachable run hfresh boot (i := l)
        (by omega))).keyed _ _ hlookup
      rw [hkeyed] at hev hop
      obtain ⟨s', hexec⟩ := kernelOp_eq_ok (resp_eq run he hev)
      obtain ⟨affected, hrevoke, -⟩ := map_eq_ok.mp hexec
      obtain ⟨entry, hentry, -⟩ := revoke_eq_ok hrevoke
      have hsame := (lease_fixed run hfresh (by omega) hk.le hrootEntry hentry).1
      have hended := allEnded_of_revoke (kernel_reachable run hfresh boot hk.le) hentry
        (by rw [LeaseEntry.parentId, hsame]; exact hparent) hrevoke
      -- and this is the state after the step
      have hpost : (c.worldAt (k + 1)).kernel = s' := by
        obtain ⟨hpre, hpost⟩ := run.linked.2 k e he
        rw [← hpost, ← post_eq run he, hop, exec_kernelOp, KernelOp.after, hpre, hexec]
      rw [hpost]
      exact hended

theorem EndsRoot.allEnded (run : Run rt.system init admits maySpawn c)
    (hfresh : ∀ w o input, admits w o input → FreshIds w o input) (boot : Bootstrapped rt init)
    {k : Nat} (h : EndsRoot c k) {i : Nat} (hki : k < i) (hi : i ≤ c.trace.length) :
    AllEnded (c.worldAt i).kernel :=
  (h.allEnded_succ run hfresh boot).run (kernelRun_between run hfresh hki hi)

-- ============================================================================
-- Afterwards
-- ============================================================================

/-- What there is no more after the step at position `k`. -/
structure Over (rt : R1Runtime) (c : SystemState) (k : Nat) : Prop where
  /-- Every lease is over. -/
  ended : ∀ i, k < i → i ≤ c.trace.length → AllEnded (c.worldAt i).kernel
  noConsume : ∀ (j : Nat) (e : Step), k < j → c.trace[j]? = some e → e.op.isConsume = false
  noToken : ∀ i, k ≤ i → i ≤ c.trace.length → (c.worldAt i).tokens = (c.worldAt k).tokens
  noFinal : ∀ (j : Nat) (e : Step) attemptId, k < j → c.trace[j]? = some e →
    e.op ≠ .appendForAttempt attemptId .finalProduced
  noRenewal : ∀ (j : Nat) (e : Step) request now returned, k < j → c.trace[j]? = some e →
    e.event ≠ ⟨.kernelOp (.renew request now), .ok returned⟩
  /-- A turn that is started now fails, and does not call the model. -/
  noTurn : ∀ t thread, c.threads[t]? = some thread → thread.call = .runOnce → k < thread.born →
    (∀ (j : Nat) (e : Step) request, c.trace[j]? = some e → e.tid = t →
      e.op ≠ .generate request) ∧
    ∀ outcome, thread.prog = .ret outcome → ∃ error, outcome = .ran (.error error)
  /-- Nexus is only called, once each, by executions that have consumed before. -/
  entries : ∀ (j : Nat) (e : Step), k < j → c.trace[j]? = some e → e.op.isExecuteTool = true →
    (∃ (i : Nat) (e' : Step) (authorized : AuthorizedExecution)
      (commit : Commit rt.keyCustody authorized) (tokens : List CapabilityToken), i < k ∧
      c.trace[i]? = some e' ∧ e'.tid = e.tid ∧ e'.event = ⟨commit.consume, .ok tokens⟩) ∧
    ∀ (j' : Nat) (e' : Step), c.trace[j']? = some e' → e'.tid = e.tid →
      e'.op.isExecuteTool = true → j' = j

section
variable {k : Nat} (hended : ∀ i, k < i → i ≤ c.trace.length → AllEnded (c.worldAt i).kernel)
include hended

theorem noConsume_of_ended (run : AnyRun rt init c) {j : Nat} {e : Step} (hkj : k < j)
    (he : c.trace[j]? = some e) : e.op.isConsume = false := by
  by_contra hop
  obtain ⟨authorized, commit, path, v, r, g, m, -, -, hcommits, -⟩ :=
    commitsAt_of_consume run he (by simpa using hop)
  obtain ⟨leaf, hleaf, -⟩ := hcommits.manifest
  have hj := (List.getElem?_eq_some_iff.mp he).1.le
  have hvj : v ≤ j := by
    have := hcommits.order
    omega
  exact (hended j hkj hj).not_active ((hcommits.chain j hvj le_rfl).find_of_mem hleaf)
    (hcommits.active _ hleaf)

theorem noFinal_of_ended (run : Run rt.system init admits maySpawn c)
    (hfresh : ∀ w o input, admits w o input → FreshIds w o input) {j attemptId : Nat} {e : Step}
    (hkj : k < j) (he : c.trace[j]? = some e) :
    e.op ≠ .appendForAttempt attemptId .finalProduced := by
  intro hop
  obtain ⟨thread, hthread, hfinal⟩ := run.spec_before (code_finals rt) he
  obtain ⟨thread', hthread', hbefore⟩ := run.spec_before (code_returns rt) he
  rw [hthread] at hthread'
  cases hthread'
  obtain ⟨turn, response, final, accept, -, hhist, -⟩ :=
    hbefore (hfinal attemptId hop) attemptId hop
  have hj := (List.getElem?_eq_some_iff.mp he).1.le
  obtain ⟨path, v, u, n, g, hat⟩ := finalAt_of_accepted run hfresh accept hj hhist
  obtain ⟨leaf, hleaf, -⟩ := hat.context
  have hvj : v ≤ j := by
    have := hat.order
    omega
  exact (hended j hkj hj).not_active ((hat.chain j hvj le_rfl).find_of_mem hleaf)
    (hat.active _ hleaf)

theorem noRenewal_of_ended (run : Run rt.system init admits maySpawn c) {j : Nat} {e : Step}
    {request : RenewalRequest} {now : DateTime} {returned : KernelReturn} (hkj : k < j)
    (he : c.trace[j]? = some e) :
    e.event ≠ ⟨.kernelOp (.renew request now), .ok returned⟩ := by
  intro hev
  obtain ⟨s', hexec⟩ := kernelOp_eq_ok (resp_eq run he hev)
  exact (hended j hkj (List.getElem?_eq_some_iff.mp he).1.le).renew_ne returned s' hexec

theorem noTurn_of_ended (run : Run rt.system init admits maySpawn c) {t : Nat}
    {thread : Thread Op Call Outcome Op.Resp} (hthread : c.threads[t]? = some thread)
    (hcall : thread.call = .runOnce) (hborn : k < thread.born) :
    (∀ (j : Nat) (e : Step) request, c.trace[j]? = some e → e.tid = t →
      e.op ≠ .generate request) ∧
    ∀ outcome, thread.prog = .ret outcome → ∃ error, outcome = .ran (.error error) := by
  have hnever : ∀ (j : Nat) (e : Step) request, c.trace[j]? = some e → e.tid = t →
      e.op ≠ .generate request := by
    rintro j e request he rfl hop
    obtain ⟨thread', hthread', hbefore⟩ := run.spec_before (code_spec rt) he
    rw [hthread] at hthread'
    cases hthread'
    rw [hcall, hop] at hbefore
    obtain ⟨turn, hhist, -⟩ := hbefore
    have hsplit : historyOf (c.trace.take j) e.tid = turn.observation.events.take 4
        ++ turn.observation.validation :: [⟨.reserve .steps (rt.limit .steps), true⟩,
          ⟨.beginAttempt, turn.attemptId⟩] := hhist
    obtain ⟨i, ei, -, hi, htid, hvalid, -, -⟩ := exists_position hsplit
    have hlate := (run.lives hthread).after_born i ei hi htid
    exact (hended i (by omega) (List.getElem?_eq_some_iff.mp hi).1.le).validateChain_ne _
      (resp_eq run hi hvalid)
  refine ⟨hnever, fun outcome hprog => ?_⟩
  have hafter := after_of_returned run hthread hprog
  rw [hcall] at hafter
  obtain ⟨result, rfl, hreturns⟩ := hafter
  rcases result with error | value
  · exact ⟨error, rfl⟩
  · obtain ⟨request, response, hmem⟩ := hreturns.generated value rfl
    obtain ⟨i, ei, -, hi, htid, hev⟩ := exists_of_mem_historyOf hmem
    exact absurd (congrArg Prog.Event.op hev) (hnever i ei request hi htid)

end

/-- Once a revocation has taken effect, or the root lease has expired, the mission is over:
    nothing is consumed, minted, accepted or renewed any more, and no turn gets to the model. -/
theorem revocation_is_final (run : AnyRun rt init c) (boot : Bootstrapped rt init) :
    (∀ t thread reason value, c.threads[t]? = some thread → thread.call = .revoke reason →
      thread.prog = .ret (.controlled (.ok value)) →
      ∃ k e, c.trace[k]? = some e ∧ e.tid = t ∧ EndsRoot c k) ∧
    ∀ k, EndsRoot c k → Over rt c k := by
  refine ⟨?_, fun k hends => ?_⟩
  · intro t thread reason value hthread hcall hprog
    have hspec : ∀ call, Prog.Spec (fun _ _ => True) (fun h outcome => call = .revoke reason →
        ∀ value, outcome = .controlled (.ok value) →
          ∃ op returned, (⟨.kernelOp op, .ok returned⟩ : Event) ∈ h) [] (rt.code call) := by
      intro call
      by_cases hrevoke : call = .revoke reason
      · subst hrevoke
        exact (revoke_returns rt reason).mono (fun _ _ h => h) fun _ _ h _ => h
      · exact (Spec.trivial [] _).mono (fun _ _ h => h) fun _ _ _ h => absurd h hrevoke
    have hafter := run.spec_rest hspec hthread
    rw [hprog] at hafter
    obtain ⟨op, returned, hmem⟩ := hafter hcall value rfl
    obtain ⟨k, e, -, he, rfl, hev⟩ := exists_of_mem_historyOf hmem
    exact ⟨k, e, he, rfl, .revoked e thread reason op returned he hthread hcall hev⟩
  · have hended : ∀ i, k < i → i ≤ c.trace.length → AllEnded (c.worldAt i).kernel :=
      fun i hki hi => hends.allEnded run (fun _ _ _ h => h) boot hki hi
    obtain ⟨ek, op, hek, hop⟩ := hends.kernelOp
    have hquiet : ∀ (j : Nat) (e : Step), k ≤ j → c.trace[j]? = some e →
        e.op.isConsume = false := by
      intro j e hkj he
      rcases Nat.eq_or_lt_of_le hkj with rfl | hlt
      · rw [hek] at he
        cases he
        rw [hop]
        rfl
      · exact noConsume_of_ended hended run hlt he
    exact
      { ended := hended
        noConsume := fun j e hkj he => hquiet j e hkj.le he
        noToken := fun i hki hi => by
          refine run.persists (I := fun w => w.tokens = (c.worldAt k).tokens) hki hi rfl ?_
          intro l e hkl _ he htokens
          rw [← post_eq run he, (exec_of_not_consume (hquiet l e hkl he)).1]
          exact htokens
        noFinal := fun j e _ hkj he => noFinal_of_ended hended run (fun _ _ _ h => h) hkj he
        noRenewal := fun j e _ _ _ hkj he => noRenewal_of_ended hended run hkj he
        noTurn := fun t thread hthread hcall hborn =>
          noTurn_of_ended hended run hthread hcall hborn
        entries := fun j e hkj he hexecute => by
          refine ⟨?_, fun j' e' he' htid hexecute' =>
            executeTool_once run he' he htid hexecute' hexecute⟩
          obtain ⟨thread, authorized, commit, h, attemptId, tokens, -, -, hhist, -⟩ :=
            executeTool_starts run he hexecute
          obtain ⟨i, e', -, he', htid, hev, -, -⟩ :=
            exists_position (hhist.trans (commit.append_entered _ _ _))
          refine ⟨i, e', authorized, commit, tokens, ?_, he', htid, hev⟩
          by_contra hki
          have hconsume := hquiet i e' (by omega) he'
          have hop' : e'.op = commit.consume := congrArg Prog.Event.op hev
          rw [hop'] at hconsume
          cases hconsume }

omit [Externals] in
/-- A turn of the reference runtime has authorized its action when the root lease is revoked:
    that action is not executed, and a turn that is started afterwards fails. -/
theorem revocation_is_final_reference : letI := Reference.externals
    ∃ (rt : R1Runtime) (init : World) (c : SystemState) (error error' : RuntimeError)
      (value : R1Runtime.ControlReturn) (b b' k : Nat), Bootstrapped rt init ∧ AnyRun rt init c ∧
      c.threads = [⟨.runOnce, 0, .ret (.ran (.error error))⟩,
        ⟨.revoke "done", b, .ret (.controlled (.ok value))⟩,
        ⟨.runOnce, b', .ret (.ran (.error error'))⟩] ∧
      (∃ attemptId record, (⟨.insertAuthorization attemptId record, .ok ()⟩ : Event)
        ∈ historyOf c.trace 0) ∧
      k < b' ∧ EndsRoot c k ∧ Over rt c k := by
  let := Reference.externals
  obtain ⟨rt, w, tool, ⟨act⟩⟩ := Reference.exists_activated
  obtain ⟨c, error, error', value, b, b', attemptId, run, hthreads, ⟨k, e, op, returned, hk, he,
    htid, hev⟩, hinserted, -⟩ :=
    act.exists_rejected MayStart act.allows_freshIds (fun _ => trivial) fun _ => trivial
  have hends : EndsRoot c k :=
    .revoked e ⟨.revoke "done", b, _⟩ "done" op returned he
      (by rw [htid]; exact congrArg (·[1]?) hthreads) rfl hev
  exact ⟨rt, w, c, error, error', value, b, b', k, act.bootstrapped, run, hthreads,
    ⟨attemptId, hinserted⟩, hk, hends, (revocation_is_final run act.bootstrapped).2 k hends⟩

end

end GenesisRuntime
