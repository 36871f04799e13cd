/-
  GenesisRuntime.Runtime.Validity

  How long the tokens of an execution are valid.  Under the read guard `execute`
  compares the clock with the leaf lease and with the certificate, and with
  nothing else; but no lease outlives a lease above it, and none the mission, so
  the tokens are over when any of these is.
-/

import GenesisRuntime.Kernel.Expiry
import GenesisRuntime.Runtime.Drift
import GenesisRuntime.Runtime.Evidence
import GenesisRuntime.Runtime.Mediation

namespace GenesisRuntime

open Prog (Spec)

-- ============================================================================
-- The time that is left
-- ============================================================================

/-- What `execute` fails with where no time is left. -/
def authorityExpired : RuntimeError :=
  ⟨.leaseInactive, "authority expired before Nexus token issuance"⟩

section
variable {leafExpiresAt certificateExpiresAt issueNow : DateTime}

/-- The time that is left is given, or this is the error. -/
theorem remainingValidity_eq_error {e : RuntimeError}
    (h : remainingValidity leafExpiresAt certificateExpiresAt issueNow = .error e) :
    e = authorityExpired := by
  simp only [remainingValidity, rejectIf] at h
  split at h
  · cases h
    rfl
  · split at h
    · cases h
      rfl
    · cases h

end

section
variable [Externals]

/-- The certificate, a lease of the chain or the mission has expired. -/
inductive AuthorityExpired (mission : MissionEnvelope) (certificate : ActionCertificate)
    (path : List (LeaseId × LeaseEntry)) (now : DateTime) : Prop where
  | certificate (h : certificate.expiresAt ≤ now)
  | lease (node : LeaseId × LeaseEntry) (hnode : node ∈ path)
      (h : node.2.certificate.expiresAt ≤ now)
  | mission (h : mission.expiresAt ≤ now)

-- ============================================================================
-- The leaf expires first
-- ============================================================================

section
variable {s : AuthorityState} {leafId : LeaseId} {expected : Option Nat}
  {manifest : CapabilityManifest} {now issueNow : DateTime} {validated : ValidatedAuthority}
  {leaf : LeaseEntry} {path : List (LeaseId × LeaseEntry)} {certificate : ActionCertificate}

/-- What a validation reports of the leaf bounds the chain above it, and the mission. -/
theorem ValidChain.leafExpiresAt_le (htimely : Timely s)
    (h : ValidChain s leafId expected manifest now validated leaf path) :
    (∀ node ∈ path, validated.leafExpiresAt ≤ node.2.certificate.expiresAt) ∧
      validated.leafExpiresAt ≤ s.mission.expiresAt := by
  rw [h.leafExpiresAt_eq]
  refine ⟨fun node hnode => ?_, htimely.mission leafId leaf h.entry_eq⟩
  have hbelow : LeaseBelow s node.1 leafId := h.isPath.below_of_mem hnode
  obtain ⟨above, habove, hle⟩ := htimely.expiresAt_le hbelow h.entry_eq
  obtain rfl : node.2 = above :=
    Option.some.inj ((h.isPath.find_of_mem hnode).symm.trans habove)
  exact hle

/-- No time is left once one of them has expired. -/
theorem ValidChain.left_of_expired (htimely : Timely s)
    (h : ValidChain s leafId expected manifest now validated leaf path)
    (hexpired : AuthorityExpired s.mission certificate path issueNow) :
    min validated.leafExpiresAt certificate.expiresAt ≤ issueNow := by
  obtain ⟨hchain, hmission⟩ := h.leafExpiresAt_le htimely
  cases hexpired with
  | certificate hle => exact (min_le_right _ _).trans hle
  | lease node hnode hle => exact (min_le_left _ _).trans ((hchain node hnode).trans hle)
  | mission hle => exact (min_le_left _ _).trans (hmission.trans hle)

end

-- ============================================================================
-- The mission of a runtime
-- ============================================================================

section
variable {rt : R1Runtime} {init : World} {admits : World → Op → Input → Prop}
  {maySpawn : SystemState → Call → Prop} {c : SystemState}

theorem Bootstrapped.mission_eq (boot : Bootstrapped rt init) :
    init.kernel.mission = rt.mission := by
  obtain ⟨mission, agentId, spec, registry, version, delegable, input, h⟩ := boot
  simp only [R1Runtime.bootstrapR2, Except.bind_eq_ok, Except.pure_eq_ok] at h
  obtain ⟨_, -, snapshot, -, modelDigest, -, resolver, -, context, -, contextDigest, -, config, -,
    keyId, -, custody, -, granted, -, kernel, hkernel, _, -, h⟩ := h
  cases h
  obtain ⟨run, rfl⟩ := bootstrap_eq_ok hkernel
  exact run.post_mission

/-- The kernel keeps the mission of the runtime. -/
theorem mission_eq (run : Run rt.system init admits maySpawn c)
    (hfresh : ∀ w o input, admits w o input → FreshIds w o input) (boot : Bootstrapped rt init)
    {i : Nat} (hi : i ≤ c.trace.length) : (c.worldAt i).kernel.mission = rt.mission := by
  have hrun := kernelRun_between run hfresh (Nat.zero_le i) hi
  rw [hrun.mission_eq, run.linked.1, boot.mission_eq]

end

-- ============================================================================
-- The read of the clock
-- ============================================================================

/-- What an execution has read by the time it reads the clock for its tokens. -/
structure Issuing where
  tool : RegisteredTool
  liveManifest : CapabilityManifest
  generation : Nat
  commitNow : DateTime
  validated : ValidatedAuthority
  context : SemanticContext

namespace Issuing

variable (issuing : Issuing) (authorized : AuthorizedExecution)

/-- The validation under the read guard. -/
def lock : Event :=
  ⟨.lockActiveChain authorized.certificate.authorityLeaseId (some issuing.generation)
    issuing.liveManifest issuing.commitNow, .ok issuing.validated⟩

/-- What is performed up to the read of the clock. -/
def events : History :=
  [⟨.resolve authorized.toolId authorized.capabilityManifest,
     .ok (issuing.tool, issuing.liveManifest)⟩,
   ⟨.utcNow, issuing.commitNow⟩,
   issuing.lock authorized,
   ⟨.readContext, issuing.context⟩]

end Issuing

/-- A commit has gone through the read of the clock. -/
def Commit.issuing {keyCustody : KeyCustody} {authorized : AuthorizedExecution}
    (commit : Commit keyCustody authorized) : Issuing where
  tool := commit.tool
  liveManifest := commit.liveManifest
  generation := commit.generation
  commitNow := commit.commitNow
  validated := commit.validated
  context := commit.context

theorem Commit.events_eq {keyCustody : KeyCustody} {authorized : AuthorizedExecution}
    (commit : Commit keyCustody authorized) : commit.events
      = commit.issuing.events authorized ++ [⟨.utcNow, commit.issueNow⟩] := rfl

/-- In the step at position `n`, under the read guard, an execution reads the clock for the
    tokens of its action. -/
structure IssuesAt (rt : R1Runtime) (c : SystemState) (t n : Nat)
    (authorized : AuthorizedExecution) (issuing : Issuing) (issueNow : DateTime) : Prop where
  starts : ∃ thread h, c.threads[t]? = some thread ∧ StartsExecute rt thread.call authorized h ∧
    historyOf (c.trace.take n) t = h ++ issuing.events authorized
  reads : ∃ e, c.trace[n]? = some e ∧ e.tid = t ∧ e.event = ⟨.utcNow, issueNow⟩

namespace IssuesAt

variable {rt : R1Runtime} {init : World} {c : SystemState} {t n : Nat}
  {authorized : AuthorizedExecution} {issuing : Issuing} {issueNow : DateTime}

theorem lt_length (h : IssuesAt rt c t n authorized issuing issueNow) : n < c.trace.length := by
  obtain ⟨e, he, -⟩ := h.reads
  exact (List.getElem?_eq_some_iff.mp he).1

/-- What the thread has done once it has read the clock. -/
theorem history (h : IssuesAt rt c t n authorized issuing issueNow) :
    ∃ thread h₀, c.threads[t]? = some thread ∧ StartsExecute rt thread.call authorized h₀ ∧
      historyOf (c.trace.take n) t = h₀ ++ issuing.events authorized ∧
      historyOf (c.trace.take (n + 1)) t
        = h₀ ++ (issuing.events authorized ++ [⟨.utcNow, issueNow⟩]) := by
  obtain ⟨thread, h₀, hthread, hstarts, hhist⟩ := h.starts
  obtain ⟨e, he, htid, hev⟩ := h.reads
  refine ⟨thread, h₀, hthread, hstarts, hhist, ?_⟩
  rw [historyOf_take_succ he, if_pos htid, hhist, hev, List.append_assoc]

/-- A thread that consumes has read this clock, after this validation. -/
theorem eq_of_consume (run : AnyRun rt init c)
    (h : IssuesAt rt c t n authorized issuing issueNow) {k : Nat} {e : Step}
    (he : c.trace[k]? = some e) (htid : e.tid = t) (hop : e.op.isConsume = true) :
    ∃ (authorized' : AuthorizedExecution) (commit : Commit rt.keyCustody authorized'),
      authorized.certificate = authorized'.certificate ∧
      commit.validated = issuing.validated ∧ commit.issueNow = issueNow := by
  obtain ⟨thread, h₀, hthread, hstarts, hbefore, hhist⟩ := h.history
  obtain ⟨thread', authorized', commit, h₁, hthread', hstarts', hhist', -⟩ :=
    consume_starts run he hop
  rw [htid] at hthread' hhist'
  obtain rfl : thread = thread' := Option.some.inj (hthread.symm.trans hthread')
  have hlength := hstarts.length_eq hstarts'
  have hnk : n < k := by
    by_contra hkn
    have hle : (historyOf (c.trace.take k) t).length ≤ (historyOf (c.trace.take n) t).length :=
      (historyOf_mono (by omega)).length_le
    rw [hhist', hbefore, List.length_append, List.length_append, hlength] at hle
    simp [Commit.events, Issuing.events] at hle
  obtain ⟨rest, hrest⟩ : historyOf (c.trace.take (n + 1)) t <+: historyOf (c.trace.take k) t :=
    historyOf_mono hnk
  rw [hhist, hhist', List.append_assoc] at hrest
  obtain ⟨-, hevents⟩ := List.append_inj hrest hlength
  refine ⟨authorized', commit, (hstarts.unique hstarts' hrest).2, ?_⟩
  rw [commit.events_eq] at hevents
  simp only [Issuing.events, Issuing.lock, Commit.issuing, List.cons_append, List.nil_append,
    List.cons.injEq, Prog.Event.mk.injEq] at hevents
  obtain ⟨-, -, ⟨-, hlock⟩, -, ⟨-, hclock⟩, -⟩ := hevents
  exact ⟨(Except.ok.inj (eq_of_heq hlock)).symm, (eq_of_heq hclock).symm⟩

/-- Where the authority has expired by then, nothing is consumed. -/
theorem noConsume (run : AnyRun rt init c) (boot : Bootstrapped rt init)
    (h : IssuesAt rt c t n authorized issuing issueNow) {leaf : LeaseEntry}
    {path : List (LeaseId × LeaseEntry)}
    (hchain : ValidChain (c.worldAt n).kernel authorized.certificate.authorityLeaseId
      (some issuing.generation) issuing.liveManifest issuing.commitNow issuing.validated leaf path)
    (hexpired : AuthorityExpired rt.mission authorized.certificate path issueNow) :
    min issuing.validated.leafExpiresAt authorized.certificate.expiresAt ≤ issueNow ∧
      ∀ (k : Nat) (e : Step), c.trace[k]? = some e → e.tid = t → e.op.isConsume = false := by
  have hn := h.lt_length.le
  have htimely := Timely.of_reachable (kernel_reachable run (fun _ _ _ h => h) boot hn)
  rw [← mission_eq run (fun _ _ _ h => h) boot hn] at hexpired
  have hleft := hchain.left_of_expired htimely hexpired
  refine ⟨hleft, fun k e he htid => ?_⟩
  by_contra hop
  obtain ⟨authorized', commit, hcertificate, hvalidated, hclock⟩ :=
    h.eq_of_consume run he htid (by simpa using hop)
  have hvalidity := commit.validity_eq
  rw [hvalidated, hclock, ← hcertificate] at hvalidity
  exact absurd (remainingValidity_eq_ok.mp hvalidity).1 (not_lt.mpr hleft)

end IssuesAt

-- ============================================================================
-- What comes after it
-- ============================================================================

/-- An execution that started with the history `h` has read the clock, and too late. -/
def PastExpiry (authorized : AuthorizedExecution) (h h' : History) : Prop :=
  ∃ (issuing : Issuing) (issueNow : DateTime),
    h ++ (issuing.events authorized ++ [⟨.utcNow, issueNow⟩]) <+: h' ∧
      min issuing.validated.leafExpiresAt authorized.certificate.expiresAt ≤ issueNow

section
variable {keyCustody : KeyCustody} {authorized : AuthorizedExecution} {h h' : History}

theorem not_pastExpiry (hlength : h'.length ≤ h.length + 4) : ¬ PastExpiry authorized h h' := by
  rintro ⟨issuing, issueNow, hfront, -⟩
  have hle := hfront.length_le
  rw [List.length_append] at hle
  simp only [Issuing.events, List.cons_append, List.nil_append, List.length_cons,
    List.length_nil] at hle
  omega

/-- Only a read of the clock can come too late. -/
theorem PastExpiry.of_snoc {ev : Event} (hpast : PastExpiry authorized h (h' ++ [ev]))
    (hev : ev.op ≠ .utcNow) : PastExpiry authorized h h' := by
  obtain ⟨issuing, issueNow, hfront, hleft⟩ := hpast
  rcases List.prefix_concat_iff.mp hfront with heq | hfront
  · rw [← List.append_assoc] at heq
    have hlast := (List.append_inj' heq rfl).2
    rw [List.singleton_inj] at hlast
    rw [← hlast] at hev
    exact absurd rfl hev
  · exact ⟨issuing, issueNow, hfront, hleft⟩

/-- A read of the clock that leaves time does not come too late. -/
theorem Issuing.not_pastExpiry {issuing : Issuing} {issueNow : DateTime}
    (hleft : issueNow < min issuing.validated.leafExpiresAt authorized.certificate.expiresAt) :
    ¬ PastExpiry authorized h (h ++ (issuing.events authorized ++ [⟨.utcNow, issueNow⟩])) := by
  rintro ⟨issuing', issueNow', hfront, hover⟩
  have hevents := hfront.eq_of_length (by simp [Issuing.events])
  rw [List.append_cancel_left_eq] at hevents
  simp only [Issuing.events, Issuing.lock, List.cons_append, List.nil_append,
    List.cons.injEq, Prog.Event.mk.injEq] at hevents
  obtain ⟨-, -, ⟨-, hlock⟩, -, ⟨-, hclock⟩, -⟩ := hevents
  rw [Except.ok.inj (eq_of_heq hlock), eq_of_heq hclock] at hover
  exact absurd hleft (not_lt.mpr hover)

/-- All that is performed after it is to release the guard. -/
def ExpiresBefore (authorized : AuthorizedExecution) (h h' : History) (o : Op) : Prop :=
  PastExpiry authorized h h' → h'.length = h.length + 5 ∧ o = .unlockKernel

theorem ExpiresBefore.of_not {o : Op} (hnot : ¬ PastExpiry authorized h h') :
    ExpiresBefore authorized h h' o := fun hpast => absurd hpast hnot

/-- Once the clock has been read in time, nothing is asked of what follows. -/
theorem expires_of_not {α : Type} {Q : History → α → Prop} {p : Prog Op Op.Resp α}
    (hQ : ∀ h'' a, ¬ PastExpiry authorized h h'' → Q h'' a)
    (hlength : h.length + 5 ≤ h'.length) (hnot : ¬ PastExpiry authorized h h') :
    Spec (ExpiresBefore authorized h) Q h' p := by
  have hlater {h'' : History} (hfront : h' <+: h'') : ¬ PastExpiry authorized h h'' := by
    rintro ⟨issuing, issueNow, hread, hleft⟩
    refine hnot ⟨issuing, issueNow, List.prefix_of_prefix_length_le hread hfront ?_, hleft⟩
    simp only [List.length_append, Issuing.events, List.length_cons, List.length_nil]
    omega
  exact (Spec.continues h' p).mono (fun _ _ hfront => .of_not (hlater hfront))
    fun _ a hfront => hQ _ a (hlater hfront)

/-- The closure of `execute` returns right after it, with the error. -/
theorem commit_expires (tool : RegisteredTool) (generation : Nat)
    {liveManifest : CapabilityManifest} {commitNow : DateTime} {validated : ValidatedAuthority}
    (hh' : h' = h ++ [⟨.resolve authorized.toolId authorized.capabilityManifest,
        .ok (tool, liveManifest)⟩, ⟨.utcNow, commitNow⟩,
      ⟨.lockActiveChain authorized.certificate.authorityLeaseId (some generation) liveManifest
        commitNow, .ok validated⟩]) :
    Spec (ExpiresBefore authorized h)
      (fun h'' r => PastExpiry authorized h h'' →
        h''.length = h.length + 5 ∧ r = .error authorityExpired) h'
      (authorized.commit keyCustody liveManifest commitNow validated).run := by
  have hearly {h'' : History} {p : Prop} (hlength : h''.length ≤ h.length + 4)
      (hpast : PastExpiry authorized h h'') : p := absurd hpast (not_pastExpiry hlength)
  subst hh'
  unfold AuthorizedExecution.commit
  refine Spec.ofResultE (fun _ _ => ?_) fun e _ => hearly (by simp)
  refine Spec.opE (hearly (by simp)) fun context => ?_
  refine Spec.ofResultE (fun contextDigest _ => ?_) fun e _ => hearly (by simp)
  refine Spec.rejectIfE (fun _ => ?_) fun e => hearly (by simp)
  refine Spec.ofResultE (fun _ _ => ?_) fun e _ => hearly (by simp)
  refine Spec.opE (hearly (by simp)) fun issueNow => ?_
  refine Spec.ofResultE (fun validity hvalidity => ?_) fun e he _ => ?_
  · let issuing : Issuing := ⟨tool, liveManifest, generation, commitNow, validated, context⟩
    have hnot : ¬ PastExpiry authorized h
        (h ++ (issuing.events authorized ++ [⟨.utcNow, issueNow⟩])) :=
      Issuing.not_pastExpiry (remainingValidity_eq_ok.mp hvalidity).1
    refine expires_of_not (fun _ _ hnot hpast => absurd hpast hnot) (by simp) ?_
    simpa [issuing, Issuing.events, Issuing.lock] using hnot
  · exact ⟨by simp, congrArg Except.error (remainingValidity_eq_error he)⟩

theorem prepare_expires (attemptId : Nat) :
    Spec (ExpiresBefore authorized h)
      (fun h' r => PastExpiry authorized h h' →
        h'.length = h.length + 6 ∧ r = .error authorityExpired) h
      (NexusExecutionPort.prepare keyCustody authorized attemptId).run := by
  have hearly {h'' : History} {p : Prop} (hlength : h''.length ≤ h.length + 4)
      (hpast : PastExpiry authorized h h'') : p := absurd hpast (not_pastExpiry hlength)
  unfold NexusExecutionPort.prepare
  refine Spec.opE (hearly (by simp)) fun r => ?_
  refine Spec.ofResultE (fun resolved hr => ?_) fun e _ => hearly (by simp)
  obtain ⟨tool, liveManifest⟩ := resolved
  refine Spec.ofResultE (fun _ _ => ?_) fun e _ => hearly (by simp)
  refine Spec.rejectIfE (fun _ => ?_) fun e => hearly (by simp)
  refine Spec.orRejectE (fun generation _ => ?_) fun e => hearly (by simp)
  refine Spec.opE (hearly (by simp)) fun commitNow => ?_
  unfold AuthorityKernel.commitActiveChain
  refine Spec.bindE (Spec.opE (hearly (by simp)) fun r' => ?_)
  refine Spec.ofResultE (fun validated hr' => ?_) fun e _ => hearly (by simp)
  subst hr hr'
  refine Spec.outcomeE ((commit_expires tool generation (by simp)).mono (fun _ _ h => h) ?_)
  rintro h' (e | tokens) hreturn
  · refine Spec.opE (fun hpast => ⟨(hreturn hpast).1, rfl⟩) fun _ => Spec.ofResult_lastE ?_
    intro hpast
    obtain ⟨hlength, heq⟩ := hreturn (hpast.of_snoc nofun)
    rw [List.length_append, hlength]
    exact ⟨rfl, congrArg Except.error (Except.error.inj heq)⟩
  · have hnot : ¬ PastExpiry authorized h h' := fun hpast => nomatch (hreturn hpast).2
    have hnot₁ : ¬ PastExpiry authorized h (h' ++ [⟨.unlockKernel, ()⟩]) :=
      fun hpast => hnot (hpast.of_snoc nofun)
    refine Spec.opE (.of_not hnot) fun _ => Spec.ofResult_lastE ?_
    refine Spec.callE (.of_not hnot₁) (fun r _ _ => ?_) fun r e _ hpast =>
      absurd (hpast.of_snoc nofun) hnot₁
    refine Spec.callE (.of_not fun hpast => hnot₁ (hpast.of_snoc nofun)) (fun r' _ _ => ?_)
      fun r' e _ hpast => absurd ((hpast.of_snoc nofun).of_snoc nofun) hnot₁
    exact Spec.pureE fun hpast => absurd ((hpast.of_snoc nofun).of_snoc nofun) hnot₁

/-- The execution returns right after it, with the error. -/
def ExpiresAfter (authorized : AuthorizedExecution) (h h' : History)
    (result : Except PositionedExecutionError ToolOutput) : Prop :=
  PastExpiry authorized h h' →
    h'.length = h.length + 6 ∧ result = .error ⟨authorityExpired, .beforeNexus⟩

theorem execute_expires (attemptId : Nat) :
    Spec (ExpiresBefore authorized h) (ExpiresAfter authorized h) h
      (NexusExecutionPort.execute keyCustody authorized attemptId).run := by
  unfold NexusExecutionPort.execute
  refine Spec.bindE (Spec.adaptE ((prepare_expires attemptId).mono (fun _ _ h => h) ?_))
  rintro h' (e | ⟨tool, tokens⟩) hreturn
  · intro hpast
    obtain ⟨hlength, heq⟩ := hreturn hpast
    cases heq
    exact ⟨hlength, rfl⟩
  · have hnot : ¬ PastExpiry authorized h h' := fun hpast => nomatch (hreturn hpast).2
    refine Spec.opE (.of_not hnot) fun output => ?_
    cases output with
    | some output => exact Spec.pureE fun hpast => absurd (hpast.of_snoc nofun) hnot
    | none => exact Spec.throwE fun hpast => absurd (hpast.of_snoc nofun) hnot

end

/-- The specification of `execute`, for the calls of a run: it says nothing of the others. -/
theorem code_expires (rt : R1Runtime) (call : Call) : Spec
    (fun h o => ∀ authorized attemptId, call = .execute authorized attemptId →
      ExpiresBefore authorized [] h o)
    (fun h outcome => ∀ authorized attemptId, call = .execute authorized attemptId →
      ∃ result, outcome = .executed result ∧ ExpiresAfter authorized [] h result)
    [] (rt.code call) := by
  by_cases hexecute : ∃ authorized attemptId, call = .execute authorized attemptId
  · obtain ⟨authorized, attemptId, rfl⟩ := hexecute
    refine Spec.map ((execute_expires attemptId).mono (fun h o hbefore => ?_)
      fun h result hafter => ?_)
    · rintro _ _ ⟨⟩
      exact hbefore
    · rintro _ _ ⟨⟩
      exact ⟨result, rfl, hafter⟩
  · refine (Spec.trivial [] _).mono (fun _ _ _ => ?_) fun _ _ _ => ?_ <;>
      exact fun authorized attemptId heq => absurd ⟨authorized, attemptId, heq⟩ hexecute

section
variable {rt : R1Runtime} {init : World} {c : SystemState}

/-- An `execute` that was called directly stands before the release of the guard then, or
    has returned the error. -/
theorem IssuesAt.returns (run : AnyRun rt init c) {t n : Nat} {authorized : AuthorizedExecution}
    {issuing : Issuing} {issueNow : DateTime}
    (h : IssuesAt rt c t n authorized issuing issueNow)
    (hleft : min issuing.validated.leafExpiresAt authorized.certificate.expiresAt ≤ issueNow)
    {thread : Thread Op Call Outcome Op.Resp} (hthread : c.threads[t]? = some thread)
    {attemptId : Nat} (hcall : thread.call = .execute authorized attemptId) :
    thread.prog = .op .unlockKernel
        (fun _ => .ret (.executed (.error ⟨authorityExpired, .beforeNexus⟩))) ∨
      thread.prog = .ret (.executed (.error ⟨authorityExpired, .beforeNexus⟩)) := by
  have hrest := run.spec_rest (code_expires rt) hthread
  obtain ⟨thread', h₀, hthread', hstarts, -, hhist⟩ := h.history
  obtain rfl : thread = thread' := Option.some.inj (hthread.symm.trans hthread')
  have hstart : h₀ = [] := by
    rcases hstarts with ⟨_, -, rfl⟩ | ⟨hcall', -⟩
    · rfl
    · rw [hcall] at hcall'
      cases hcall'
  have hfront : historyOf (c.trace.take (n + 1)) t <+: historyOf c.trace t :=
    historyOf_take_isPrefix (n + 1)
  rw [hhist, hstart] at hfront
  have hpast : PastExpiry authorized [] (historyOf c.trace t) :=
    ⟨issuing, issueNow, hfront, hleft⟩
  cases hprog : thread.prog with
  | ret outcome =>
      rw [hprog] at hrest
      obtain ⟨result, rfl, hafter⟩ := hrest authorized attemptId hcall
      rw [(hafter hpast).2]
      exact .inr rfl
  | op o k =>
      rw [hprog] at hrest
      obtain ⟨hbefore, hnext⟩ := hrest
      obtain ⟨hlength, rfl⟩ := hbefore authorized attemptId hcall hpast
      have hpast' : PastExpiry authorized [] (historyOf c.trace t ++ [⟨.unlockKernel, ()⟩]) :=
        ⟨issuing, issueNow, hfront.trans (List.prefix_append _ _), hleft⟩
      refine .inl (congrArg _ (funext fun r => ?_))
      have hnext := hnext ()
      cases hk : k () with
      | ret outcome =>
          rw [hk] at hnext
          obtain ⟨result, rfl, hafter⟩ := hnext authorized attemptId hcall
          rw [(hafter hpast').2]
      | op o k' =>
          rw [hk] at hnext
          have hagain := (hnext.1 authorized attemptId hcall hpast').1
          rw [List.length_append, hlength] at hagain
          cases hagain

-- ============================================================================
-- The record
-- ============================================================================

section
variable {admits : World → Op → Input → Prop} {maySpawn : SystemState → Call → Prop}
  {record : AuthorizationRecord} {i : Nat}

end

end

end

end GenesisRuntime
