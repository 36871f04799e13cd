/-
  GenesisRuntime.Runtime.Drift

  The registry a lease was issued for.  A lease carries the root digest of the
  registry its manifest was taken from, and every call on the lease reads the live
  registry before it does anything else with it.  If that registry holds other
  tools, the digests no longer agree, and the call fails.
-/

import GenesisRuntime.Kernel.Attenuation
import GenesisRuntime.Runtime.Acceptance
import GenesisRuntime.Runtime.Renewals
import GenesisRuntime.ToolRegistry.Generation

namespace GenesisRuntime

open Prog (Spec)
open ToolRegistry (SameTools)

section
variable [Externals]

variable {rt : R1Runtime} {init : World} {admits : World → Op → Input → Prop}
  {maySpawn : SystemState → Call → Prop} {c : SystemState}

-- ============================================================================
-- Leases over time
-- ============================================================================

/-- The certificate and the manifest of a lease are the same whenever it is stored. -/
theorem lease_fixed (run : Run rt.system init admits maySpawn c)
    (hfresh : ∀ w o input, admits w o input → FreshIds w o input) {i j : Nat}
    (hi : i ≤ c.trace.length) (hj : j ≤ c.trace.length) {leaseId : LeaseId}
    {entry entry' : LeaseEntry}
    (hentry : (c.worldAt i).kernel.leases.lookup leaseId = some entry)
    (hentry' : (c.worldAt j).kernel.leases.lookup leaseId = some entry') :
    entry'.certificate = entry.certificate ∧ entry'.manifest = entry.manifest := by
  rcases Nat.le_total i j with hij | hji
  · have hkeep := (kernelRun_between run hfresh hij hj).keepsLeases
    rw [(hkeep.eq_withRecord hentry hentry').1]
    exact ⟨rfl, rfl⟩
  · have hkeep := (kernelRun_between run hfresh hji hi).keepsLeases
    rw [(hkeep.eq_withRecord hentry' hentry).1]
    exact ⟨rfl, rfl⟩

/-- The manifest of a lease was taken from a registry: it carries its root digest. -/
def TakenFrom (c : SystemState) (tools : ToolRegistry) (leaseId : LeaseId) : Prop :=
  ∃ i ≤ c.trace.length, ∃ entry,
    (c.worldAt i).kernel.leases.lookup leaseId = some entry ∧
      tools.rootDigest = .ok entry.manifest.toolRegistryRootDigest

theorem TakenFrom.rootDigest {tools : ToolRegistry} {leaseId : LeaseId}
    (h : TakenFrom c tools leaseId) (run : Run rt.system init admits maySpawn c)
    (hfresh : ∀ w o input, admits w o input → FreshIds w o input) {j : Nat}
    (hj : j ≤ c.trace.length) {entry : LeaseEntry}
    (hentry : (c.worldAt j).kernel.leases.lookup leaseId = some entry) :
    tools.rootDigest = .ok entry.manifest.toolRegistryRootDigest := by
  obtain ⟨i, hi, entry₀, hentry₀, hroot⟩ := h
  rw [(lease_fixed run hfresh hi hj hentry₀ hentry).2]
  exact hroot

/-- A manifest with which the lease is validated was read from a registry with the same
    tools. -/
theorem TakenFrom.sameTools (hcollision : CollisionFree) (htext : JsonTextInjective)
    (hhex : HexInjective) {tools live : ToolRegistry} {leaseId : LeaseId}
    (h : TakenFrom c tools leaseId) (run : Run rt.system init admits maySpawn c)
    (hfresh : ∀ w o input, admits w o input → FreshIds w o input) {j : Nat}
    (hj : j ≤ c.trace.length) {template manifest : CapabilityManifest}
    (hmanifest : live.refreshCapabilityManifest template = .ok manifest)
    {expected : Option Nat} {now : DateTime} {validated : ValidatedAuthority}
    (hvalid : validateChain (c.worldAt j).kernel leaseId expected manifest now = .ok validated) :
    SameTools tools live := by
  obtain ⟨leaf, path, hchain⟩ := validateChain_sound hvalid
  obtain ⟨digest, hleaf, hlive⟩ := hchain.manifest_eq
  have hroot := h.rootDigest run hfresh hj hchain.entry_eq
  rw [rootDigest_of_canonicalDigest hcollision htext hhex hleaf hlive] at hroot
  exact ToolRegistry.sameTools_of_rootDigest hcollision htext hhex hroot
    (ToolRegistry.refresh_root hmanifest)

-- ============================================================================
-- Calls on a lease
-- ============================================================================

/-- The history with which a call starts to authorize a request. -/
def StartsAuthorize (rt : R1Runtime) (call : Call) (request : AuthorizeRequest) (h : History) :
    Prop :=
  (call = .authorize request ∧ h = []) ∨
    (call = .runOnce ∧ ∃ (turn : Turn rt) (response : ModelResponse) (proposal : ToolCallProposal)
      (leaseId : LeaseId) (now : DateTime),
      h = turn.accepted response ++ [⟨.appendForAttempt turn.attemptId .planAccepted, .ok ()⟩,
        ⟨.rootLeaseId, leaseId⟩, ⟨.utcNow, now⟩] ∧
      request = rt.authorizeRequest leaseId turn.observation.context proposal now)

/-- The history with which a call comes to the read of the registry that it makes on behalf
    of a lease. -/
inductive ReadsFor (rt : R1Runtime) (call : Call) (leaseId : LeaseId) (h : History) : Prop where
  | authorize (request : AuthorizeRequest) (h₀ : History) (snapshot : LeaseSnapshot)
      (starts : StartsAuthorize rt call request h₀) (lease : request.leaseId = leaseId)
      (hh : h = h₀ ++ [⟨.leaseSnapshot leaseId, .ok snapshot⟩])
  | execute (authorized : AuthorizedExecution) (starts : StartsExecute rt call authorized h)
      (lease : authorized.certificate.authorityLeaseId = leaseId)
  | renew (expiresAt : DateTime) (snapshot : LeaseSnapshot) (hcall : call = .renew expiresAt)
      (hh : h = [⟨.rootLeaseId, leaseId⟩, ⟨.leaseSnapshot leaseId, .ok snapshot⟩])

/-- In the step at position `r`, the thread reads the registry on behalf of a lease. -/
def ReadsRegistry (rt : R1Runtime) (c : SystemState) (t r : Nat) (leaseId : LeaseId) : Prop :=
  ∃ thread e, c.threads[t]? = some thread ∧ c.trace[r]? = some e ∧ e.tid = t ∧
    ReadsFor rt thread.call leaseId (historyOf (c.trace.take r) t)

/-- A call that has failed, before Nexus if it was an execution. -/
def Outcome.Fails : Outcome → Prop
  | .ran result => ∃ e, result = .error e
  | .controlled result => ∃ e, result = .error e
  | .authorized result => ∃ e, result = .error e
  | .executed result => ∃ e, result = .error ⟨e, .beforeNexus⟩

/-- The call of a thread fails: it consumes nothing, calls no tool and changes no lease, and
    if it returns, it returns a failure. -/
structure CallFails (c : SystemState) (t : Nat) : Prop where
  noConsume : ∀ (k : Nat) (e : Step), c.trace[k]? = some e → e.tid = t → e.op.isConsume = false
  noTool : ∀ (k : Nat) (e : Step), c.trace[k]? = some e → e.tid = t →
    e.op.isExecuteTool = false
  noChange : ∀ (k : Nat) (e : Step), c.trace[k]? = some e → e.tid = t →
    ∀ op returned, e.event ≠ ⟨.kernelOp op, .ok returned⟩
  returns : ∀ thread outcome, c.threads[t]? = some thread → thread.prog = .ret outcome →
    outcome.Fails

-- ============================================================================
-- What a successful call has read
-- ============================================================================

/-- Where a request has been authorized, the registry was read with the tools of the lease. -/
theorem sameTools_of_authorized (hcollision : CollisionFree) (htext : JsonTextInjective)
    (hhex : HexInjective) (run : Run rt.system init admits maySpawn c)
    (hfresh : ∀ w o input, admits w o input → FreshIds w o input) {tools : ToolRegistry}
    {leaseId : LeaseId} (htaken : TakenFrom c tools leaseId) {request : AuthorizeRequest}
    {authorization : Authorization request} {h h₀ rest : History} {snapshot : LeaseSnapshot}
    {n r : Nat} {e : Step}
    (hhist : historyOf (c.trace.take n) e.tid = h ++ authorization.events ++ rest)
    (he : c.trace[r]? = some e)
    (hr : historyOf (c.trace.take r) e.tid = h₀ ++ [⟨.leaseSnapshot leaseId, .ok snapshot⟩])
    (hlength : h₀.length = h.length) : SameTools tools (c.worldAt r).registry := by
  have hsplit : historyOf (c.trace.take n) e.tid = (h ++ authorization.events.take 1)
      ++ ⟨.resolve request.proposalToolId authorization.snapshot.manifest,
        .ok (authorization.tool, authorization.liveManifest)⟩
      :: (authorization.events.drop 2 ++ rest) := by
    rw [hhist]
    simp [Authorization.events]
  obtain ⟨r', e', -, he', htid, hresolve, hbefore, -⟩ := exists_position hsplit
  obtain rfl : r' = r := by
    refine position_unique he' he htid ?_
    rw [htid, hbefore, hr]
    simp [Authorization.events, hlength]
  have hlease : request.leaseId = leaseId := by
    rw [hr] at hbefore
    have hlast := (List.append_inj hbefore hlength).2
    simp only [Authorization.events, List.take_succ_cons, List.take_zero, List.cons.injEq,
      Prog.Event.mk.injEq] at hlast
    exact (Op.leaseSnapshot.inj hlast.1.1).symm
  have hsplit' : historyOf (c.trace.take n) e.tid = (h ++ authorization.events.take 2)
      ++ authorization.validation :: (authorization.events.drop 3 ++ rest) := by
    rw [hhist]
    simp [Authorization.events, Authorization.validation]
  obtain ⟨g, eg, -, hg, -, hvalid, -, -⟩ := exists_position hsplit'
  have hvalid := resp_eq run hg hvalid
  rw [hlease] at hvalid
  exact htaken.sameTools hcollision htext hhex run hfresh (List.getElem?_eq_some_iff.mp hg).1.le
    (resolve_eq_ok (resp_eq run he' hresolve)).2 hvalid

/-- Where an execution has come to its consumption, the registry was read with the tools of
    the lease. -/
theorem sameTools_of_consumed (hcollision : CollisionFree) (htext : JsonTextInjective)
    (hhex : HexInjective) (run : Run rt.system init admits maySpawn c)
    (hfresh : ∀ w o input, admits w o input → FreshIds w o input) {tools : ToolRegistry}
    {authorized : AuthorizedExecution}
    (htaken : TakenFrom c tools authorized.certificate.authorityLeaseId)
    (commit : Commit rt.keyCustody authorized) {h : History} {k r : Nat} {e : Step}
    (hk : k ≤ c.trace.length)
    (hhist : historyOf (c.trace.take k) e.tid = h ++ commit.events)
    (he : c.trace[r]? = some e) (hlength : (historyOf (c.trace.take r) e.tid).length = h.length) :
    SameTools tools (c.worldAt r).registry := by
  obtain ⟨r', g, m, hrg, hgm, hmk, hr', ⟨e', he', htid⟩, -, -, hsnapshot, hvalid, -⟩ :=
    commit_positions run commit hk hhist
  obtain rfl : r' = r := by
    refine position_unique he' he htid ?_
    rw [htid, hr', hlength]
  exact htaken.sameTools hcollision htext hhex run hfresh (by omega) (resolve_eq_ok hsnapshot).2
    hvalid

/-- An operation on the kernel that succeeded. -/
theorem kernelOp_eq_ok {t : Nat} {op : KernelOp} {input : Input} {w : World}
    {returned : KernelReturn} (h : (Op.exec t (.kernelOp op) input w).1 = .ok returned) :
    ∃ s', op.exec input.uuid w.kernel = .ok returned s' := by
  simp only [Op.exec] at h
  split at h
  · rename_i hexec
    cases h
    exact ⟨_, hexec⟩
  · cases h

/-- Where a lease has been renewed, the registry was read with the tools of the lease. -/
theorem sameTools_of_renewed (hcollision : CollisionFree) (htext : JsonTextInjective)
    (hhex : HexInjective) (run : Run rt.system init admits maySpawn c)
    (hfresh : ∀ w o input, admits w o input → FreshIds w o input) (boot : Bootstrapped rt init)
    {tools : ToolRegistry} {leaseId : LeaseId} (htaken : TakenFrom c tools leaseId)
    {expiresAt : DateTime} (renewing : Renewing expiresAt) {snapshot : LeaseSnapshot}
    {returned : KernelReturn} {k r : Nat} {e ek : Step} (hk : c.trace[k]? = some ek)
    (hev : ek.event = ⟨.kernelOp renewing.op, .ok returned⟩)
    (hhist : historyOf (c.trace.take k) e.tid = renewing.events) (he : c.trace[r]? = some e)
    (hr : historyOf (c.trace.take r) e.tid
      = [⟨.rootLeaseId, leaseId⟩, ⟨.leaseSnapshot leaseId, .ok snapshot⟩]) :
    SameTools tools (c.worldAt r).registry := by
  have hk' := (List.getElem?_eq_some_iff.mp hk).1.le
  obtain ⟨l, r', m, hlr, hrm, hmk, hlookup, ⟨e', he', htid⟩, hbefore, hrefresh, -⟩ :=
    renewing_positions run renewing hhist
  obtain rfl : r' = r := by
    refine position_unique he' he htid ?_
    rw [htid, hbefore, hr]
    rfl
  have hlease : renewing.rootId = leaseId := by
    rw [hr] at hbefore
    have hhead := congrArg (fun h : History => h[1]?) hbefore
    have hop := congrArg Prog.Event.op (Option.some.inj hhead)
    exact (Op.leaseSnapshot.inj hop).symm
  -- the lease that is renewed is the one that was read
  have hkeyed := (Lifecycle.of_reachable (kernel_reachable run hfresh boot (by omega))).keyed _ _
    hlookup
  obtain ⟨s', hexec⟩ := kernelOp_eq_ok (resp_eq run hk hev)
  obtain ⟨id, hrenew, -⟩ := map_eq_ok.mp hexec
  obtain ⟨renewal, -, -⟩ := renew_eq_ok hrenew
  obtain ⟨-, -, -, -, -, hattenuated, -⟩ := validateRenewalRequest_eq_ok.mp renewal.request_ok
  obtain ⟨-, -, -, hroot, -⟩ := validateManifestAttenuation_eq_ok.mp hattenuated
  have hold := renewal.old_eq
  rw [show renewing.request.leaseId = leaseId from hkeyed.trans hlease] at hold
  have hsame := htaken.rootDigest run hfresh hk' hold
  rw [← hroot] at hsame
  exact ToolRegistry.sameTools_of_rootDigest hcollision htext hhex hsame
    (ToolRegistry.refresh_root hrefresh)

-- ============================================================================
-- Calls on a lease of another registry
-- ============================================================================

/-- Only renewals of the calls on a lease operate on the kernel. -/
theorem no_kernelOp (run : Run rt.system init admits maySpawn c) {t : Nat}
    {thread : Thread Op Call Outcome Op.Resp} (hthread : c.threads[t]? = some thread)
    (hcall : ∀ h op, ¬ KernelOpOf thread.call h op) {k : Nat} {e : Step}
    (he : c.trace[k]? = some e) (htid : e.tid = t) (op : KernelOp) (returned : KernelReturn) :
    e.event ≠ ⟨.kernelOp op, .ok returned⟩ := by
  intro hev
  obtain ⟨thread', hthread', hbefore⟩ := run.spec_before (code_ops rt) he
  rw [htid, hthread] at hthread'
  cases hthread'
  exact hcall _ _ (hbefore op (congrArg Prog.Event.op hev))

/-- A turn that has accepted a plan does not return a final message. -/
theorem ran_fails (run : AnyRun rt init c) {t : Nat} (hfails : FailsBeforeNexus c t)
    {attemptId : Nat}
    (hplan : (⟨.appendForAttempt attemptId .planAccepted, .ok ()⟩ : Event) ∈ historyOf c.trace t)
    {thread : Thread Op Call Outcome Op.Resp} {result : Result RunOutcome}
    (hthread : c.threads[t]? = some thread) (hprog : thread.prog = .ret (.ran result)) :
    ∃ e, result = .error e := by
  rcases result with e | outcome
  · exact ⟨e, rfl⟩
  exfalso
  cases outcome with
  | executed output => exact hfails.ran thread _ hthread hprog output rfl
  | final final =>
      obtain ⟨turn, response, accept, -, hhist⟩ :=
        (finalAfter_of_ran run hthread hprog).produced final rfl
      rw [hhist] at hplan
      simp [Turn.accepted, Turn.events, Observation.events, Acceptance.recorded,
        Acceptance.events, Turn.lock] at hplan

/-- How the calls on a lease return that never get to Nexus. -/
theorem returns_of_failsBeforeNexus (run : AnyRun rt init c) {t : Nat}
    (hfails : FailsBeforeNexus c t) {thread : Thread Op Call Outcome Op.Resp}
    (hthread : c.threads[t]? = some thread)
    (hcontrolled : ∀ result, thread.prog = .ret (.controlled result) → ∃ e, result = .error e)
    (hauthorized : ∀ result, thread.prog = .ret (.authorized result) → ∃ e, result = .error e)
    (hplan : thread.call = .runOnce → ∃ attemptId,
      (⟨.appendForAttempt attemptId .planAccepted, .ok ()⟩ : Event) ∈ historyOf c.trace t) :
    ∀ thread' outcome, c.threads[t]? = some thread' → thread'.prog = .ret outcome →
      outcome.Fails := by
  intro thread' outcome hthread' hprog
  rw [hthread] at hthread'
  cases hthread'
  cases outcome with
  | ran result =>
      obtain ⟨attemptId, hmem⟩ := hplan (call_of_ran run hthread hprog)
      exact ran_fails run hfails hmem hthread hprog
  | controlled result => exact hcontrolled result hprog
  | authorized result => exact hauthorized result hprog
  | executed result => exact hfails.executed thread result hthread hprog

/-- A turn, an authorization or an execution that consumes nothing fails. -/
theorem callFails_of_noConsume (run : AnyRun rt init c) {t : Nat}
    {thread : Thread Op Call Outcome Op.Resp} (hthread : c.threads[t]? = some thread)
    (hcall : thread.call = .runOnce ∨ (∃ request, thread.call = .authorize request) ∨
      ∃ authorized attemptId, thread.call = .execute authorized attemptId)
    (hnoConsume : ∀ (k : Nat) (e : Step), c.trace[k]? = some e → e.tid = t →
      e.op.isConsume = false)
    (hauthorized : ∀ result, thread.prog = .ret (.authorized result) → ∃ e, result = .error e)
    (hplan : thread.call = .runOnce → ∃ attemptId,
      (⟨.appendForAttempt attemptId .planAccepted, .ok ()⟩ : Event) ∈ historyOf c.trace t) :
    CallFails c t := by
  have hfails := failsBeforeNexus_of_noConsume run hnoConsume
  have hnoOp : ∀ h op, ¬ KernelOpOf thread.call h op := by
    rcases hcall with hcall | ⟨_, hcall⟩ | ⟨_, _, hcall⟩ <;> rw [hcall] <;> exact fun _ _ h => h
  refine ⟨hfails.noConsume, hfails.noTool,
    fun k ek hk htid => no_kernelOp run hthread hnoOp hk htid,
    returns_of_failsBeforeNexus run hfails hthread (fun result hprog => ?_) hauthorized hplan⟩
  have hafter := after_of_returned run hthread hprog
  rcases hcall with hcall | ⟨_, hcall⟩ | ⟨_, _, hcall⟩ <;> rw [hcall] at hafter <;>
    obtain ⟨_, heq, -⟩ := hafter <;> cases heq

/-- An execution that consumes nothing fails, and the turn around it. -/
theorem callFails_of_starts (run : AnyRun rt init c) {t : Nat}
    {thread : Thread Op Call Outcome Op.Resp} (hthread : c.threads[t]? = some thread)
    {authorized : AuthorizedExecution} {h : History}
    (hstarts : StartsExecute rt thread.call authorized h) (hfront : h <+: historyOf c.trace t)
    (hnoConsume : ∀ (k : Nat) (e : Step), c.trace[k]? = some e → e.tid = t →
      e.op.isConsume = false) : CallFails c t := by
  have hcall : thread.call = .runOnce ∨ (∃ request, thread.call = .authorize request) ∨
      ∃ authorized attemptId, thread.call = .execute authorized attemptId := by
    rcases hstarts with ⟨_, hcall, -⟩ | ⟨hcall, -⟩
    · exact .inr (.inr ⟨_, _, hcall⟩)
    · exact .inl hcall
  refine callFails_of_noConsume run hthread hcall hnoConsume (fun result hprog => ?_)
    fun hcall => ?_
  · have hafter := after_of_returned run hthread hprog
    rcases hstarts with ⟨_, hcall, -⟩ | ⟨hcall, -⟩ <;> rw [hcall] at hafter <;>
      obtain ⟨_, heq, -⟩ := hafter <;> cases heq
  · rcases hstarts with ⟨_, hcall', -⟩ | ⟨-, call, rfl, -⟩
    · rw [hcall] at hcall'
      cases hcall'
    · refine ⟨call.attemptId, hfront.subset ?_⟩
      simp [ToolCall.inserted, ToolCall.issued, ToolCall.reserved, ToolCall.authorized,
        ToolCall.planned]

section
variable (hcollision : CollisionFree) (htext : JsonTextInjective) (hhex : HexInjective)
include hcollision htext hhex

theorem callFails_of_authorize (run : AnyRun rt init c) {tools : ToolRegistry}
    {leaseId : LeaseId} (htaken : TakenFrom c tools leaseId)
    {thread : Thread Op Call Outcome Op.Resp} {request : AuthorizeRequest} {h₀ : History}
    {snapshot : LeaseSnapshot} {r : Nat} {e : Step}
    (hthread : c.threads[e.tid]? = some thread) (he : c.trace[r]? = some e)
    (hstarts : StartsAuthorize rt thread.call request h₀)
    (hr : historyOf (c.trace.take r) e.tid = h₀ ++ [⟨.leaseSnapshot leaseId, .ok snapshot⟩])
    (hdrifted : ¬ SameTools tools (c.worldAt r).registry) : CallFails c e.tid := by
  -- no call has gone on from here to an authorization
  have hnever (n : Nat) {request : AuthorizeRequest} (authorization : Authorization request)
      (h rest : History) (hlength : h₀.length = h.length) :
      historyOf (c.trace.take n) e.tid ≠ h ++ authorization.events ++ rest := fun hhist =>
    hdrifted (sameTools_of_authorized hcollision htext hhex run (fun _ _ _ h => h) htaken hhist he
      hr hlength)
  have hnoConsume : ∀ (k : Nat) (ek : Step), c.trace[k]? = some ek → ek.tid = e.tid →
      ek.op.isConsume = false := by
    intro k ek hk htid
    by_contra hop
    obtain ⟨thread', authorized, commit, h, hthread', hexec, hhist, -⟩ :=
      consume_starts run hk (by simpa using hop)
    rw [htid, hthread] at hthread'
    cases hthread'
    rcases hstarts with ⟨hcall, -⟩ | ⟨hcall, turn, response, proposal, id, now, rfl, -⟩
    · rcases hexec with ⟨attemptId, hcall', -⟩ | ⟨hcall', -⟩ <;>
        rw [hcall] at hcall' <;> cases hcall'
    · rcases hexec with ⟨attemptId, hcall', -⟩ | ⟨-, call, rfl, -⟩
      · rw [hcall] at hcall'
        cases hcall'
      · refine hnever k call.authorization call.planned
          (call.inserted.drop call.authorized.length ++ commit.events) rfl ?_
        rw [← htid, hhist]
        simp [ToolCall.inserted, ToolCall.issued, ToolCall.reserved, ToolCall.authorized]
  have hcall : thread.call = .runOnce ∨ (∃ request, thread.call = .authorize request) ∨
      ∃ authorized attemptId, thread.call = .execute authorized attemptId := by
    rcases hstarts with ⟨hcall, -⟩ | ⟨hcall, -⟩
    · exact .inr (.inl ⟨_, hcall⟩)
    · exact .inl hcall
  refine callFails_of_noConsume run hthread hcall hnoConsume (fun result hprog => ?_)
    fun hcall => ?_
  · have hafter := after_of_returned run hthread hprog
    rcases hstarts with ⟨hcall, rfl⟩ | ⟨hcall, -⟩
    · rw [hcall] at hafter
      obtain ⟨result', heq, hreturns⟩ := hafter
      cases heq
      rcases result with error | ⟨authorized, artifact⟩
      · exact ⟨error, rfl⟩
      · obtain ⟨authorization, hhist, -⟩ := hreturns
        refine absurd ?_ (hnever c.trace.length authorization [] [] rfl)
        rw [List.take_length, hhist, List.append_nil]
    · rw [hcall] at hafter
      obtain ⟨_, heq, -⟩ := hafter
      cases heq
  · rcases hstarts with ⟨hcall', -⟩ | ⟨-, turn, response, proposal, id, now, rfl, -⟩
    · rw [hcall] at hcall'
      cases hcall'
    · refine ⟨turn.attemptId, ?_⟩
      have hfront : historyOf (c.trace.take r) e.tid <+: historyOf c.trace e.tid :=
        historyOf_take_isPrefix r
      rw [hr] at hfront
      exact hfront.subset (by simp)

theorem callFails_of_execute (run : AnyRun rt init c) {tools : ToolRegistry}
    {authorized : AuthorizedExecution}
    (htaken : TakenFrom c tools authorized.certificate.authorityLeaseId)
    {thread : Thread Op Call Outcome Op.Resp} {r : Nat} {e : Step}
    (hthread : c.threads[e.tid]? = some thread) (he : c.trace[r]? = some e)
    (hstarts : StartsExecute rt thread.call authorized (historyOf (c.trace.take r) e.tid))
    (hdrifted : ¬ SameTools tools (c.worldAt r).registry) : CallFails c e.tid := by
  have hnoConsume : ∀ (k : Nat) (ek : Step), c.trace[k]? = some ek → ek.tid = e.tid →
      ek.op.isConsume = false := by
    intro k ek hk htid
    by_contra hop
    obtain ⟨thread', authorized', commit, h, hthread', hexec, hhist, -⟩ :=
      consume_starts run hk (by simpa using hop)
    rw [htid, hthread] at hthread'
    cases hthread'
    rw [htid] at hhist
    have hk' := (List.getElem?_eq_some_iff.mp hk).1.le
    have hlength := hstarts.length_eq hexec
    have hrk : r ≤ k := by
      by_contra hkr
      have hlt : (historyOf (c.trace.take k) e.tid).length
          ≤ (historyOf (c.trace.take r) e.tid).length := (historyOf_mono (by omega)).length_le
      rw [hhist, hlength, List.length_append] at hlt
      simp [Commit.events] at hlt
    obtain ⟨rest, hrest⟩ : historyOf (c.trace.take r) e.tid
        <+: historyOf (c.trace.take k) e.tid := historyOf_mono hrk
    have hcertificate : authorized.certificate = authorized'.certificate :=
      (hstarts.unique hexec (hrest.trans hhist)).2
    rw [hcertificate] at htaken
    exact hdrifted (sameTools_of_consumed hcollision htext hhex run (fun _ _ _ h => h) htaken
      commit hk' hhist he hlength)
  exact callFails_of_starts run hthread hstarts (historyOf_take_isPrefix r) hnoConsume

theorem callFails_of_renew (run : AnyRun rt init c) (boot : Bootstrapped rt init)
    {tools : ToolRegistry} {leaseId : LeaseId} (htaken : TakenFrom c tools leaseId)
    {thread : Thread Op Call Outcome Op.Resp} {expiresAt : DateTime} {snapshot : LeaseSnapshot}
    {r : Nat} {e : Step} (hthread : c.threads[e.tid]? = some thread) (he : c.trace[r]? = some e)
    (hcall : thread.call = .renew expiresAt)
    (hr : historyOf (c.trace.take r) e.tid
      = [⟨.rootLeaseId, leaseId⟩, ⟨.leaseSnapshot leaseId, .ok snapshot⟩])
    (hdrifted : ¬ SameTools tools (c.worldAt r).registry) : CallFails c e.tid := by
  have hnoConsume : ∀ (k : Nat) (ek : Step), c.trace[k]? = some ek → ek.tid = e.tid →
      ek.op.isConsume = false := by
    intro k ek hk htid
    by_contra hop
    obtain ⟨thread', authorized, commit, h, hthread', hexec, -⟩ :=
      consume_starts run hk (by simpa using hop)
    rw [htid, hthread] at hthread'
    cases hthread'
    rcases hexec with ⟨_, hcall', -⟩ | ⟨hcall', -⟩ <;> rw [hcall] at hcall' <;> cases hcall'
  have hfails := failsBeforeNexus_of_noConsume run hnoConsume
  have hnoChange : ∀ (k : Nat) (ek : Step), c.trace[k]? = some ek → ek.tid = e.tid →
      ∀ op returned, ek.event ≠ ⟨.kernelOp op, .ok returned⟩ := by
    intro k ek hk htid op returned hev
    obtain ⟨thread', hthread', hbefore⟩ := run.spec_before (code_ops rt) hk
    rw [htid, hthread] at hthread'
    cases hthread'
    have hbefore := hbefore op (congrArg Prog.Event.op hev)
    rw [hcall] at hbefore
    obtain ⟨renewing, hhist, rfl⟩ := hbefore
    rw [htid] at hhist
    exact hdrifted (sameTools_of_renewed hcollision htext hhex run (fun _ _ _ h => h) boot htaken
      renewing hk hev hhist he hr)
  refine ⟨hfails.noConsume, hfails.noTool, hnoChange,
    returns_of_failsBeforeNexus run hfails hthread (fun result hprog => ?_)
      (fun result hprog => ?_) fun hcall' => ?_⟩
  · have hafter := run.spec_rest (code_ops rt) hthread
    rw [hprog] at hafter
    obtain ⟨result', heq, hreturns⟩ := hafter expiresAt hcall
    cases heq
    rcases result with error | value
    · exact ⟨error, rfl⟩
    · obtain ⟨renewing, returned, rest, hhist⟩ := hreturns value rfl
      have hmem : (⟨.kernelOp renewing.op, .ok returned⟩ : Event)
          ∈ historyOf c.trace e.tid := by
        rw [hhist]
        simp
      obtain ⟨k, ek, -, hk, htid, hev⟩ := exists_of_mem_historyOf hmem
      exact absurd hev (hnoChange k ek hk htid _ _)
  · have hafter := after_of_returned run hthread hprog
    rw [hcall] at hafter
    obtain ⟨_, heq, -⟩ := hafter
    cases heq
  · rw [hcall] at hcall'
    cases hcall'

/-- A call that reads a registry with other tools than those of the lease fails. -/
theorem callFails_of_drifted (run : AnyRun rt init c) (boot : Bootstrapped rt init)
    {tools : ToolRegistry} {leaseId : LeaseId} (htaken : TakenFrom c tools leaseId) {t r : Nat}
    (hreads : ReadsRegistry rt c t r leaseId)
    (hdrifted : ¬ SameTools tools (c.worldAt r).registry) : CallFails c t := by
  obtain ⟨thread, e, hthread, he, rfl, hreads⟩ := hreads
  cases hreads with
  | authorize request h₀ snapshot hstarts _ hr =>
      exact callFails_of_authorize hcollision htext hhex run htaken hthread he hstarts hr hdrifted
  | execute authorized hstarts hlease =>
      rw [← hlease] at htaken
      exact callFails_of_execute hcollision htext hhex run htaken hthread he hstarts hdrifted
  | renew expiresAt snapshot hcall hr =>
      exact callFails_of_renew hcollision htext hhex run boot htaken hthread he hcall hr hdrifted

/-- Refreshing a manifest of one registry in another keeps its digest exactly where the two
    hold the same tools; tools with one manifest digest are made of the same parts; so every
    call on a lease fails that reads another registry than the lease was issued for. -/
theorem registry_generations_are_exact (hcap : CapabilitySerializationInjective)
    (hround : CapabilityRoundTrip) :
    (∀ (tools tools' : ToolRegistry), tools.Distinct → tools'.Distinct →
      ∀ (manifest : CapabilityManifest) (digest : Digest), tools.Binds manifest →
        manifest.canonicalDigest = .ok digest →
        ((∃ refreshed, tools'.refreshCapabilityManifest manifest = .ok refreshed ∧
          refreshed.canonicalDigest = .ok digest) ↔ SameTools tools tools')) ∧
    (∀ (toolId toolId' : ToolId) (wasmBytes wasmBytes' : List UInt8)
      (entryPoint entryPoint' : String) (inputSchema inputSchema' : Json)
      (capabilities capabilities' : List Capability) (effectClass effectClass' : EffectClass)
      (outputSchema outputSchema' : Option Json) (tool tool' : RegisteredTool) (digest : Digest),
      RegisteredTool.new toolId wasmBytes entryPoint inputSchema capabilities effectClass
        outputSchema = .ok tool →
      RegisteredTool.new toolId' wasmBytes' entryPoint' inputSchema' capabilities' effectClass'
        outputSchema' = .ok tool' →
      tool.manifestDigest = .ok digest → tool'.manifestDigest = .ok digest →
      toolId = toolId' ∧ wasmBytes = wasmBytes' ∧ entryPoint = entryPoint' ∧
        effectClass = effectClass' ∧ (∀ c, c ∈ capabilities ↔ c ∈ capabilities') ∧
        canonicalizeJson inputSchema = canonicalizeJson inputSchema' ∧
        outputSchema.map canonicalizeJson = outputSchema'.map canonicalizeJson) ∧
    ∀ (rt : R1Runtime) (init : World) (c : SystemState), Bootstrapped rt init →
      AnyRun rt init c → ∀ (tools : ToolRegistry) (leaseId : LeaseId),
        TakenFrom c tools leaseId → ∀ t r, ReadsRegistry rt c t r leaseId →
          ¬ SameTools tools (c.worldAt r).registry → CallFails c t := by
  refine ⟨?_, ?_, ?_⟩
  · intro tools tools' hdistinct hdistinct' manifest digest hbinds hdigest
    exact ToolRegistry.refresh_same_iff hcollision htext hhex hdistinct hdistinct' hbinds hdigest
  · intro toolId toolId' wasm wasm' entry entry' input input' caps caps' effect effect' output
      output' tool tool' digest hnew hnew' hdigest hdigest'
    exact parts_of_manifestDigest hcollision htext hhex hcap hround hnew hnew' hdigest hdigest'
  · intro rt init c boot run tools leaseId htaken t r hreads hdrifted
    exact callFails_of_drifted hcollision htext hhex run boot htaken hreads hdrifted

end

omit [Externals] in
/-- A manifest taken from two tools is refreshed where they are held in the other order, but
    not where one of them has other code; and no request is authorized once the tool of the
    reference runtime has other code. -/
theorem registry_generations_are_exact_reference : letI := Reference.externals
    (∃ (tool tool' other : RegisteredTool) (manifest : CapabilityManifest) (digest : Digest),
      RegisteredTool.new Reference.toolId [0] "run" (.object []) [Reference.Capability.fileRead]
        .readOnly none
        = .ok tool ∧
      RegisteredTool.new Reference.toolId [1] "run" (.object []) [Reference.Capability.fileRead]
        .readOnly none
        = .ok tool' ∧ tool.manifestDigest ≠ tool'.manifestDigest ∧
      manifest.canonicalDigest = .ok digest ∧
      (∃ refreshed, ToolRegistry.refreshCapabilityManifest [other, tool] manifest = .ok refreshed ∧
        refreshed.canonicalDigest = .ok digest) ∧
      ¬ ∃ refreshed, ToolRegistry.refreshCapabilityManifest [tool', other] manifest
          = .ok refreshed ∧ refreshed.canonicalDigest = .ok digest) ∧
    ∃ (rt : R1Runtime) (init : World) (c : SystemState) (tools : ToolRegistry) (leaseId : LeaseId)
      (r : Nat), Bootstrapped rt init ∧ AnyRun rt init c ∧ TakenFrom c tools leaseId ∧
      ReadsRegistry rt c 1 r leaseId ∧ ¬ SameTools tools (c.worldAt r).registry ∧
      CallFails c 1 := by
  let := Reference.externals
  have main := registry_generations_are_exact Reference.collisionFree Reference.jsonTextInjective
    Reference.hexInjective Reference.capabilitySerializationInjective Reference.capabilityRoundTrip
  obtain ⟨tool', digest', isReader'⟩ := Reference.exists_tool Reference.toolId
    (show ([1] : List UInt8).isEmpty = false from rfl)
  obtain ⟨other, otherDigest, isOther⟩ := Reference.exists_tool ⟨"other", by decide⟩
    (show ([0] : List UInt8).isEmpty = false from rfl)
  obtain ⟨rt, init, tool, ⟨act⟩⟩ := Reference.exists_activated
  have hdigests : act.digest ≠ digest' := by
    intro heq
    obtain ⟨-, hwasm, -⟩ := main.2.1 _ _ _ _ _ _ _ _ _ _ _ _ _ _ tool tool' digest'
      act.isReader.made isReader'.made (heq ▸ act.isReader.digest_eq) isReader'.digest_eq
    cases hwasm
  refine ⟨⟨tool, tool', other, ?_⟩, ?_⟩
  · obtain ⟨root, hroot⟩ : ∃ root, ToolRegistry.rootDigest [tool, other] = .ok root :=
      Reference.exists_rootDigest (by
        simpa using ⟨⟨_, act.isReader.digest_eq⟩, ⟨_, isOther.digest_eq⟩⟩)
    let manifest : CapabilityManifest :=
      { Reference.manifest with
        approvedTools := [⟨Reference.toolId, act.digest⟩], toolRegistryRootDigest := root }
    obtain ⟨digest, hdigest⟩ : ∃ digest, manifest.canonicalDigest = .ok digest :=
      Reference.exists_manifestDigest (List.nodup_singleton _) rfl
    have hbinds : ToolRegistry.Binds [tool, other] manifest :=
      { root := hroot
        bound := fun bound hbound => by
          obtain rfl := List.mem_singleton.mp hbound
          exact ⟨tool, by simp [ToolRegistry.find, act.isReader.toolId_eq],
            act.isReader.digest_eq⟩ }
    have hne : Reference.toolId ≠ ⟨"other", by decide⟩ := by decide
    have hrefresh (tools : ToolRegistry) (hdistinct : tools.Distinct) :=
      main.1 [tool, other] tools (by
        simpa [ToolRegistry.Distinct, act.isReader.toolId_eq, isOther.toolId_eq] using hne)
        hdistinct manifest digest hbinds hdigest
    refine ⟨manifest, digest, act.isReader.made, isReader'.made, ?_, hdigest,
      (hrefresh [other, tool] ?_).mpr ?_, fun h => ?_⟩
    · rw [act.isReader.digest_eq, isReader'.digest_eq]
      exact fun heq => hdigests (Except.ok.inj heq)
    · simpa [ToolRegistry.Distinct, act.isReader.toolId_eq, isOther.toolId_eq] using hne.symm
    · intro entry
      simp [ToolRegistry.entries, or_comm]
    · have hsame := (hrefresh [tool', other] (by
        simpa [ToolRegistry.Distinct, isReader'.toolId_eq, isOther.toolId_eq] using hne)).mp h
      have hmem := (hsame (Reference.toolId, .ok act.digest)).mp (by
        simp [ToolRegistry.entries, act.isReader.toolId_eq, act.isReader.digest_eq])
      simp [ToolRegistry.entries, isReader'.toolId_eq, isReader'.digest_eq, isOther.toolId_eq,
        hne, hdigests] at hmem
  · obtain ⟨c, b, r, e, request, p, run, hthreads, hlease, he, htid, hhist, hregistry⟩ :=
      act.exists_drifted isReader'.toolId_eq
    have hthread : c.threads[1]? = some ⟨.authorize request, b, p⟩ := congrArg (·[1]?) hthreads
    have htaken : TakenFrom c [tool] request.leaseId := by
      refine ⟨0, Nat.zero_le _, act.ready.lease, ?_, act.binds.root⟩
      rw [run.linked.1, hlease]
      exact act.ready.lookup
    have hreads : ReadsRegistry rt c 1 r request.leaseId :=
      ⟨_, e, hthread, he, htid,
        .authorize request [] act.ready.lease (.inl ⟨rfl, rfl⟩) rfl hhist⟩
    have hdrifted : ¬ SameTools [tool] (c.worldAt r).registry := by
      rw [hregistry]
      intro hsame
      have hmem := (hsame (Reference.toolId, .ok act.digest)).mp (by
        simp [ToolRegistry.entries, act.isReader.toolId_eq, act.isReader.digest_eq])
      simp [ToolRegistry.entries, isReader'.toolId_eq, isReader'.digest_eq, hdigests] at hmem
    exact ⟨rt, init, c, [tool], request.leaseId, r, act.bootstrapped, run, htaken, hreads,
      hdrifted, main.2.2 rt init c act.bootstrapped run [tool] _ htaken 1 r hreads hdrifted⟩

end

end GenesisRuntime
