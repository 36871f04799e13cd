/-
  GenesisRuntime.Runtime.Refusals

  Why the final message of a model is refused.  An acceptance asks again for all
  that was observed before the model was called; it fails where the context was
  replaced, or a lease of the chain changed, or the leaf expired meanwhile.
-/

import GenesisRuntime.Runtime.Causes

namespace GenesisRuntime

section
variable [Externals] {rt : R1Runtime} {init : World} {c : SystemState}

/-- What can have happened to a turn, before position `k`, whose final message is refused. -/
inductive Undermined (c : SystemState) (t k : Nat) (turn : Turn rt) : Prop where
  /-- The context was replaced, after the turn had read it. -/
  | contextReplaced (l : Nat) (e : Step) (context : SemanticContext) (before : l < k)
      (since : Did c t (turn.events.take 1) l)
      (he : c.trace[l]? = some e) (hev : e.op = .writeContext context)
  /-- An operation of the kernel changed a lease of the chain, after it was observed. -/
  | leaseChanged (l : Nat) (e : Step) (op : KernelOp) (id : LeaseId) (before : l < k)
      (since : Did c t turn.observation.events l)
      (he : c.trace[l]? = some e) (hop : e.op = .kernelOp op)
      (below : LeaseBelow e.pre.kernel id turn.observation.lease.certificate.leaseId)
      (changed : e.post.kernel.leases.lookup id ≠ e.pre.kernel.leases.lookup id)
  /-- The leaf had expired when the clock was read. -/
  | expired (l : Nat) (e : Step) (now : DateTime) (before : l < k)
      (since : Did c t turn.events l) (he : c.trace[l]? = some e) (htid : e.tid = t)
      (hev : e.event = ⟨.utcNow, now⟩) (h : turn.observation.validated.leafExpiresAt ≤ now)

/-- The same authority is unchanged. -/
theorem checkUnchanged_self (observation : ModelAuthorityObservation) :
    observation.checkUnchanged observation.validated = .ok () := by
  simp [ModelAuthorityObservation.checkUnchanged, rejectIf]
  rfl

section
variable (run : PublicRun rt init FreshIds c) (boot : Bootstrapped rt init) {t k : Nat}
  {turn : Turn rt}
include run boot

/-- The chain that was observed is validated at every later time until its leaf expires, and
    the mission is usable until then. -/
theorem observed_of_not_undermined (hundermined : ¬ Undermined c t k turn) {j : Nat}
    (hj : j ≤ c.trace.length) (hjk : j ≤ k) (hdid : Did c t turn.events j) {now : DateTime}
    (hnow : now < turn.observation.validated.leafExpiresAt) :
    validateChain (c.worldAt j).kernel turn.observation.lease.certificate.leaseId
      (some turn.observation.lease.record.generation) turn.observation.lease.manifest now
      = .ok turn.observation.validated ∧
    rt.mission.isUsableAt now = true := by
  obtain ⟨v, hvj, hdone⟩ : ∃ v < j, DoneAt c t (turn.observation.events.take 4)
      turn.observation.validation v := hdid.exists_doneAt (turn.events.drop 5)
  obtain ⟨e, he, -, -, hresp⟩ := hdone.resp run
  have hvalid : validateChain (c.worldAt v).kernel turn.observation.lease.certificate.leaseId
      (some turn.observation.lease.record.generation) turn.observation.lease.manifest
      turn.observation.now = .ok turn.observation.validated := hresp
  constructor
  · rcases hdone.validates_or_changed run (fun _ _ _ h => h) boot hvj hj (fun _ _ _ => rfl) hvalid
      with hvalidates | ⟨l, e', op, id, hlj, hsince, he', hop, hbelow, hchange⟩
    · exact hvalidates now hnow
    · exact absurd (.leaseChanged l e' op id (by omega) hsince he' hop hbelow hchange) hundermined
  · obtain ⟨leaf, path, hchain⟩ := validateChain_sound hvalid
    have hreach := kernel_reachable run (fun _ _ _ h => h) boot hdone.lt_length.le
    have hmission := (hchain.leafExpiresAt_le (Timely.of_reachable hreach)).2
    rw [mission_eq run (fun _ _ _ h => h) boot hdone.lt_length.le] at hmission
    have husable := turn.observation.usable
    simp only [MissionEnvelope.isUsableAt, Bool.and_eq_true, decide_eq_true_eq] at husable ⊢
    exact ⟨husable.1, hnow.trans_le hmission⟩

/-- A refusal has a cause. -/
theorem undermined_of_refused {response : ModelResponse} {now : DateTime} {q q' : History}
    {e : RuntimeError} (hk : k ≤ c.trace.length)
    (hhist : historyOf (c.trace.take k) t = turn.accepted response ++ ⟨.utcNow, now⟩ :: (q ++ q'))
    (hrefused : Refused turn now q e) : Undermined c t k turn := by
  by_contra hundermined
  -- each event of the acceptance, after those of the turn
  have hposition (before : History) {after : History} {ev : Event}
      (hsplit : ⟨.utcNow, now⟩ :: (q ++ q') = before ++ ev :: after) :
      ∃ j < k, DoneAt c t (turn.accepted response ++ before) ev j ∧ Did c t turn.events j := by
    have hdid : Did c t ((turn.accepted response ++ before) ++ ev :: after) k := by
      rw [Did, hhist, hsplit, List.append_assoc]
    obtain ⟨j, hjk, hdone⟩ := hdid.exists_doneAt
    refine ⟨j, hjk, hdone, ?_⟩
    rw [Did, hdone.before, Turn.accepted, List.append_assoc]
    exact List.prefix_append _ _
  have hclock : now < turn.observation.validated.leafExpiresAt := by
    obtain ⟨j, hjk, hdone, hdid⟩ := hposition [] rfl
    obtain ⟨ej, he, htid, hev⟩ := hdone.step
    by_contra hle
    exact hundermined (.expired j ej now hjk hdid he htid hev (not_lt.mp hle))
  have hlock {r : Result ValidatedAuthority} {after : History}
      (hq : q ++ q' = ⟨turn.lock now, r⟩ :: after) : r = .ok turn.observation.validated := by
    obtain ⟨j, hjk, hdone, hdid⟩ := hposition [⟨.utcNow, now⟩] (congrArg (_ :: ·) hq)
    obtain ⟨ej, -, -, -, hresp⟩ := hdone.resp run
    have hvalid := (observed_of_not_undermined run boot hundermined (by omega) hjk.le hdid
      hclock).1
    have hlocked : (Op.exec ej.tid (turn.lock now) ej.input (c.worldAt j)).1
        = .ok turn.observation.validated := by
      simp only [Turn.lock, Op.exec, hvalid]
    exact hresp.symm.trans hlocked
  cases hrefused with
  | unusable message h =>
      obtain ⟨j, hjk, hdone, hdid⟩ := hposition [] rfl
      exact h (observed_of_not_undermined run boot hundermined (by omega) hjk.le hdid hclock).2
  | invalid => cases hlock rfl
  | changed validated e h =>
      obtain rfl := Except.ok.inj (hlock rfl)
      cases (checkUnchanged_self turn.observation.value).symm.trans h
  | drifted validated context e h =>
      obtain ⟨j, hjk, hdone, hdid⟩ := hposition
        [⟨.utcNow, now⟩, ⟨turn.lock now, .ok validated⟩] rfl
      obtain ⟨ej, -, -, -, hresp⟩ := hdone.resp run
      obtain ⟨i, hij, hread⟩ : ∃ i < j, DoneAt c t [] ⟨.readContext, turn.observation.context⟩ i :=
        hdid.exists_doneAt (turn.events.drop 1)
      obtain ⟨ei, -, -, -, hobserved⟩ := hread.resp run
      have hcontext : (c.worldAt j).semanticContext = context := hresp
      have hobserved : (c.worldAt i).semanticContext = turn.observation.context := hobserved
      rcases hread.context_or_replaced run hij (by omega) (fun _ _ _ => rfl) with
        hsame | ⟨l, e', context', hlj, hsince, he', hop⟩
      · rw [← hcontext, hsame, hobserved, turn.observation.continuation] at h
        cases h
      · exact hundermined (.contextReplaced l e' context' (by omega) hsince he' hop)

end

/-- A turn whose model answers with a final message returns it, unless something has
    undermined it meanwhile, or an event could not be recorded. -/
theorem refusals_have_a_cause (run : PublicRun rt init FreshIds c) (boot : Bootstrapped rt init)
    (t : Nat) (thread : Thread Op Call Outcome Op.Resp) (result : Result RunOutcome)
    (hthread : c.threads[t]? = some thread) (hprog : thread.prog = .ret (.ran result))
    (request : ModelRequest) (response : ModelResponse) (final : FinalResult)
    (hmem : (⟨.generate request, .ok response⟩ : Event) ∈ historyOf c.trace t)
    (hparsed : rt.protocolGate.parse response.rawOutput = .ok (.final final)) :
    result = .ok (.final final) ∨ ¬ AllAppended (historyOf c.trace t) ∨
    ∃ turn : Turn rt, Did c t (turn.accepted response) c.trace.length ∧
      Undermined c t c.trace.length turn := by
  rcases (finalAfter_of_ran run hthread hprog).answered request response final hmem hparsed
    with hfailed | ⟨turn, hreturn⟩
  · exact .inr (.inl hfailed)
  generalize hhist : historyOf c.trace t = h at hreturn
  cases hreturn with
  | produced accept => exact .inl rfl
  | unrecorded _ _ hfailed => exact .inr (.inl hfailed)
  | refused now q error hrefused =>
      have hsplit : historyOf (c.trace.take c.trace.length) t = turn.accepted response
          ++ ⟨.utcNow, now⟩ :: (q
            ++ [⟨.appendForAttempt turn.attemptId (.finalRejected error.code), .ok ()⟩]) := by
        rw [List.take_length, hhist, List.append_assoc, List.cons_append]
      refine .inr (.inr ⟨turn, ?_, undermined_of_refused run boot le_rfl hsplit hrefused⟩)
      rw [Did, hsplit]
      exact List.prefix_append _ _

omit [Externals] in
/-- The lease of a turn of the reference runtime is revoked after the model has answered with a
    final message; the turn is refused, since this has undermined it. -/
theorem refusals_have_a_cause_reference : letI := Reference.externals
    ∃ (rt : R1Runtime) (init : World) (c : SystemState) (error : RuntimeError)
      (request : ModelRequest) (response : ModelResponse) (final : FinalResult),
      Bootstrapped rt init ∧ PublicRun rt init FreshIds c ∧
      c.threads[0]? = some ⟨.runOnce, 0, .ret (.ran (.error error))⟩ ∧
      (⟨.generate request, .ok response⟩ : Event) ∈ historyOf c.trace 0 ∧
      rt.protocolGate.parse response.rawOutput = .ok (.final final) ∧
      ∃ turn : Turn rt, Did c 0 (turn.accepted response) c.trace.length ∧
        Undermined c 0 c.trace.length turn := by
  let := Reference.externals
  obtain ⟨rt, w, tool, ⟨act⟩⟩ := Reference.exists_activated
  obtain ⟨c, error, value, b, request, attemptId, run, hthreads, hmem, -⟩ :=
    act.exists_refused (fun _ call => call.isPublic = true) act.allows_undisturbed rfl
      fun _ => rfl
  have hthread : c.threads[0]? = some ⟨.runOnce, 0, .ret (.ran (.error error))⟩ :=
    congrArg (·[0]?) hthreads
  have hall := allAppended run (fun _ _ _ h => h.2) c.trace.length 0
  rw [List.take_length] at hall
  have run : PublicRun rt w FreshIds c := run.weaken fun _ _ _ h => h.1
  rcases refusals_have_a_cause run act.bootstrapped 0 _ _ hthread rfl request _ _ hmem
    act.parse_final with hfinal | hfailed | hundermined
  · cases hfinal
  · exact absurd hall hfailed
  · exact ⟨rt, w, c, error, request, _, _, act.bootstrapped, run, hthread, hmem, act.parse_final,
      hundermined⟩

end

end GenesisRuntime
