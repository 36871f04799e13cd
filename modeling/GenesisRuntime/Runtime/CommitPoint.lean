/-
  GenesisRuntime.Runtime.CommitPoint

  The commit of an execution.  Between the validation that `authorize` made and
  the consumption that `execute` makes, generations stand for "nothing happened":
  they only grow, so a chain with the generations of before is the chain of
  before, at every moment in between.
-/

import GenesisRuntime.Kernel.Chain
import GenesisRuntime.Runtime.Checks
import GenesisRuntime.Runtime.Reference.Runs
import GenesisRuntime.Runtime.Trace
import GenesisRuntime.Store.Ledger

namespace GenesisRuntime

open Prog (Spec)

section
variable [Externals]

-- ============================================================================
-- Generations
-- ============================================================================

section
variable {s s' s'' : AuthorityState}

/-- A lease with the generation of before has had the same record all along. -/
theorem KeepsLeases.squeeze (h : KeepsLeases s s') (h' : KeepsLeases s' s'') {id : LeaseId}
    {entry entry'' : LeaseEntry} (hs : s.leases.lookup id = some entry)
    (hs'' : s''.leases.lookup id = some entry'')
    (hgen : entry''.record.generation = entry.record.generation) :
    s'.leases.lookup id = some entry ∧ entry'' = entry := by
  obtain ⟨r, hr, hlater⟩ := h id entry hs
  obtain ⟨heq, hlater'⟩ := h'.eq_withRecord hr hs''
  have hle := hlater.generation_le
  have hle' := hlater'.generation_le
  have hle'' : r.generation ≤ entry''.record.generation := hle'
  obtain rfl : r = entry.record := hlater.eq_of_generation (by omega)
  have hsame : entry''.record = entry.record := hlater'.eq_of_generation hgen
  refine ⟨hr, ?_⟩
  rw [heq, hsame]

variable {leaf : LeaseId} {expected expected' : Option Nat}
  {manifest manifest' : CapabilityManifest} {now now' : DateTime} {v v' : ValidatedAuthority}
  {entry entry' : LeaseEntry} {path path' : List (LeaseId × LeaseEntry)}

/-- Two validations that observe the same generations have walked the same chain. -/
theorem ValidChain.path_eq (h : ValidChain s leaf expected manifest now v entry path)
    (h' : ValidChain s' leaf expected' manifest' now' v' entry' path') (hkeep : KeepsLeases s s')
    (hgen : v'.observedGenerations = v.observedGenerations) : path' = path := by
  have hmap : path'.map (fun node => (node.1, node.2.record.generation))
      = path.map fun node => (node.1, node.2.record.generation) := by
    have hrev := h'.generations_eq.symm.trans (hgen.trans h.generations_eq)
    simpa using congrArg List.reverse hrev
  have hfind : ∀ node ∈ path, s.leases.lookup node.1 = some node.2 :=
    fun node hnode => h.isPath.find_of_mem hnode
  have hfind' : ∀ node ∈ path', s'.leases.lookup node.1 = some node.2 :=
    fun node hnode => h'.isPath.find_of_mem hnode
  clear h h' hgen
  induction path' generalizing path with
  | nil =>
      cases path with
      | nil => rfl
      | cons => cases hmap
  | cons node' rest' ih =>
      cases path with
      | nil => cases hmap
      | cons node rest =>
          rw [List.map_cons, List.map_cons, List.cons.injEq, Prod.mk.injEq] at hmap
          obtain ⟨⟨hid, hgeneration⟩, hrest⟩ := hmap
          have hnode := hfind node List.mem_cons_self
          have hnode' := hfind' node' List.mem_cons_self
          rw [hid] at hnode'
          have hentry := ((KeepsLeases.refl s).squeeze hkeep hnode hnode' hgeneration).2
          rw [ih hrest (fun n hn => hfind n (List.mem_cons_of_mem _ hn))
            fun n hn => hfind' n (List.mem_cons_of_mem _ hn), Prod.ext hid hentry]

end

-- ============================================================================
-- Executions
-- ============================================================================

/-- The validation of a successful call of `authorize`. -/
def Authorization.validation {request : AuthorizeRequest} (run : Authorization request) : Event :=
  ⟨.validateActiveChain request.leaseId (some run.snapshot.record.generation)
    run.liveManifest request.now, .ok run.validated⟩

/-- A call of `authorize` has returned the action, having validated the chain behind it
    in the step at position `v`. -/
def AuthorizedAt (c : SystemState) (authorized : AuthorizedExecution) (v : Nat) : Prop :=
  ∃ (request : AuthorizeRequest) (run : Authorization request) (h : History) (n : Nat) (e : Step),
    authorized = run.execution ∧ historyOf (c.trace.take n) e.tid = h ++ run.events ∧
      historyOf (c.trace.take v) e.tid = h ++ run.events.take 2 ∧
      c.trace[v]? = some e ∧ e.event = run.validation

/-- The thread executes the action: `execute` was called with it, or `run_once` has come
    to the call of `execute`. -/
def Executes (rt : R1Runtime) (c : SystemState) (t : Nat) (authorized : AuthorizedExecution) :
    Prop :=
  ∃ thread, c.threads[t]? = some thread ∧
    ((∃ attemptId, thread.call = .execute authorized attemptId) ∨
      thread.call = .runOnce ∧ ∃ (call : ToolCall rt) (h : History),
        historyOf c.trace t = call.inserted ++ h ∧ authorized = call.authorization.execution)

/-- What makes the consumption at position `k` a commit under live authority. The action
    was authorized at `v`; its execution has read the registry at `r`, validated the chain
    under the read guard at `g` and read the context under it at `m`. -/
structure CommitsAt (rt : R1Runtime) (c : SystemState) (authorized : AuthorizedExecution)
    (commit : Commit rt.keyCustody authorized) (path : List (LeaseId × LeaseEntry))
    (v r g m k : Nat) : Prop where
  order : v < r ∧ r < g ∧ g < m ∧ m < k
  locked : ∃ e, c.trace[g]? = some e ∧ e.event = commit.lock
  /-- From `v` to `k` it is the same chain, in the same states and generations. -/
  chain : ∀ l, v ≤ l → l ≤ k →
    LeasePath (c.worldAt l).kernel authorized.certificate.authorityLeaseId path
  active : ∀ node ∈ path, node.2.ActiveAt commit.commitNow
  context : (c.worldAt m).semanticContext.canonicalDigest
    = .ok authorized.certificate.semanticContextDigest
  snapshot : (c.worldAt r).registry.resolveWithCapabilityManifest authorized.toolId
    authorized.capabilityManifest = .ok (commit.tool, commit.liveManifest)
  manifest : ∃ leaf, (authorized.certificate.authorityLeaseId, leaf) ∈ path ∧
    commit.liveManifest.canonicalDigest = .ok leaf.certificate.capabilityManifestDigest

-- ============================================================================
-- Where the steps of an execution stand
-- ============================================================================

variable {rt : R1Runtime} {init : World} {c : SystemState}

/-- The steps of a commit, by position. -/
theorem commit_positions {admits : World → Op → Input → Prop}
    {maySpawn : SystemState → Call → Prop} (run : Run rt.system init admits maySpawn c)
    {authorized : AuthorizedExecution} (commit : Commit rt.keyCustody authorized) {h : History}
    {t k : Nat} (hk : k ≤ c.trace.length)
    (hhist : historyOf (c.trace.take k) t = h ++ commit.events) :
    ∃ r g m : Nat, r < g ∧ g < m ∧ m < k ∧ historyOf (c.trace.take r) t = h ∧
      (∃ e, c.trace[r]? = some e ∧ e.tid = t) ∧
      (∃ e, c.trace[g]? = some e ∧ e.event = commit.lock) ∧
      (c.worldAt m).semanticContext = commit.context ∧
      (c.worldAt r).registry.resolveWithCapabilityManifest authorized.toolId
        authorized.capabilityManifest = .ok (commit.tool, commit.liveManifest) ∧
      validateChain (c.worldAt g).kernel authorized.certificate.authorityLeaseId
        (some commit.generation) commit.liveManifest commit.commitNow = .ok commit.validated ∧
      ∀ l, g ≤ l → l ≤ k → (c.worldAt l).kernel = (c.worldAt g).kernel := by
  have hsplit : historyOf (c.trace.take k) t = (h ++ commit.events.take 2)
      ++ commit.lock :: [⟨.readContext, commit.context⟩, ⟨.utcNow, commit.issueNow⟩] := by
    rw [hhist]
    simp [Commit.events]
  obtain ⟨g, hgk, ⟨eg, hg, -, hevg⟩, hbefore, hvalid, hguard⟩ :=
    exists_guarded run hk hsplit (by simp)
  have hsplit' : historyOf (c.trace.take k) t
      = (h ++ commit.events.take 3)
        ++ ⟨.readContext, commit.context⟩ :: [⟨.utcNow, commit.issueNow⟩] := by
    rw [hhist]
    simp [Commit.events]
  obtain ⟨m, em, hmk, hm, -, hevm, hbefore', -⟩ := exists_position hsplit'
  have hgm : g < m := by
    by_contra hmg
    have hle : (historyOf (c.trace.take m) t).length ≤ (historyOf (c.trace.take g) t).length :=
      (historyOf_mono (by omega)).length_le
    rw [hbefore, hbefore', List.length_append, List.length_append] at hle
    simp [Commit.events] at hle
  have hsplit'' : historyOf (c.trace.take g) t
      = h ++ ⟨.resolve authorized.toolId authorized.capabilityManifest,
          .ok (commit.tool, commit.liveManifest)⟩ :: [⟨.utcNow, commit.commitNow⟩] := by
    rw [hbefore]
    simp [Commit.events]
  obtain ⟨r, er, hrg, hr, htr, hevr, hbefore'', -⟩ := exists_position hsplit''
  exact ⟨r, g, m, hrg, hgm, hmk, hbefore'', ⟨er, hr, htr⟩, ⟨eg, hg, hevg⟩, resp_eq run hm hevm,
    resp_eq run hr hevr, hvalid, hguard⟩

/-- In a turn, the action was authorized by the turn itself. -/
theorem authorizedAt_of_turn {t r : Nat} (call : ToolCall rt)
    (hhist : historyOf (c.trace.take r) t = call.inserted) :
    ∃ v < r, AuthorizedAt c call.authorization.execution v := by
  have hsplit : historyOf (c.trace.take r) t
      = (call.planned ++ call.authorization.events.take 2) ++ call.authorization.validation ::
        (call.authorization.events.drop 3 ++ (call.inserted.drop call.authorized.length)) := by
    rw [hhist]
    simp [ToolCall.inserted, ToolCall.issued, ToolCall.reserved, ToolCall.authorized,
      Authorization.events, Authorization.validation]
  obtain ⟨v, e, hvr, hv, htid, hev, hbefore, -⟩ := exists_position hsplit
  have hsplit' : historyOf (c.trace.take r) t
      = (call.planned ++ call.authorization.events.take 4)
        ++ ⟨.newUuid, call.authorization.certificateUuid⟩ ::
          (call.inserted.drop call.authorized.length) := by
    rw [hhist]
    simp [ToolCall.inserted, ToolCall.issued, ToolCall.reserved, ToolCall.authorized,
      Authorization.events]
  obtain ⟨n, en, -, hn, htid', hevn, hbefore', -⟩ := exists_position hsplit'
  subst htid
  refine ⟨v, hvr, _, call.authorization, call.planned, n + 1, e, rfl, ?_, hbefore, hv, hev⟩
  rw [List.take_add_one, hn, Option.toList_some, historyOf_snoc, if_pos htid', hbefore', hevn,
    List.append_assoc]
  rfl

/-- An `execute` that was called directly got what a call of `authorize` had returned. -/
theorem authorizedAt_of_direct (run : AnyRun rt init c) {t attemptId : Nat}
    {thread : Thread Op Call Outcome Op.Resp} {authorized : AuthorizedExecution}
    (hthread : c.threads[t]? = some thread) (hcall : thread.call = .execute authorized attemptId) :
    ∃ v < thread.born, AuthorizedAt c authorized v := by
  obtain ⟨c₀, run₀, htrace, hmay⟩ := (run.lives hthread).may
  rw [hcall] at hmay
  obtain ⟨t₀, thread₀, artifact, hthread₀, hprog⟩ := hmay
  have hafter := after_of_returned run₀ hthread₀ hprog
  rw [htrace] at hafter
  -- only a call of `authorize` returns like this
  cases hcall₀ : thread₀.call with
  | authorize request =>
      rw [hcall₀] at hafter
      obtain ⟨result, heq, hreturn⟩ := hafter
      cases heq
      obtain ⟨authorization, hhist, rfl, -⟩ := hreturn
      have hsplit : historyOf (c.trace.take thread.born) t₀
          = authorization.events.take 2 ++ authorization.validation ::
            authorization.events.drop 3 := by
        rw [hhist]
        rfl
      obtain ⟨v, e, hvr, hv, htid, hev, hbefore, -⟩ := exists_position hsplit
      subst htid
      exact ⟨v, hvr, request, authorization, [], thread.born, e, rfl, hhist, hbefore, hv, hev⟩
  | _ =>
      rw [hcall₀] at hafter
      obtain ⟨result, heq, -⟩ := hafter
      cases heq

/-- The history with which a call starts to execute an action. -/
def StartsExecute (rt : R1Runtime) (call : Call) (authorized : AuthorizedExecution)
    (h : History) : Prop :=
  (∃ attemptId, call = .execute authorized attemptId ∧ h = []) ∨
    (call = .runOnce ∧ ∃ toolCall : ToolCall rt, h = toolCall.inserted ∧
      authorized = toolCall.authorization.execution)

/-- A call always starts to execute with a history of one length. -/
theorem StartsExecute.length_eq {call : Call} {authorized authorized' : AuthorizedExecution}
    {h h' : History} (hstarts : StartsExecute rt call authorized h)
    (hstarts' : StartsExecute rt call authorized' h') : h.length = h'.length := by
  rcases hstarts with ⟨_, rfl, rfl⟩ | ⟨rfl, toolCall, rfl, -⟩
  · rcases hstarts' with ⟨_, -, rfl⟩ | ⟨hcall, -⟩
    · rfl
    · cases hcall
  · rcases hstarts' with ⟨_, hcall, -⟩ | ⟨-, toolCall', rfl, -⟩
    · cases hcall
    · rw [toolCall.length_inserted, toolCall'.length_inserted]

/-- Before a consumption, the thread has gone through the steps of a commit. -/
theorem consume_starts {admits : World → Op → Input → Prop}
    {maySpawn : SystemState → Call → Prop} (run : Run rt.system init admits maySpawn c) {k : Nat}
    {e : Step} (he : c.trace[k]? = some e) (hop : e.op.isConsume = true) :
    ∃ (thread : Thread Op Call Outcome Op.Resp) (authorized : AuthorizedExecution)
      (commit : Commit rt.keyCustody authorized) (h : History),
      c.threads[e.tid]? = some thread ∧ StartsExecute rt thread.call authorized h ∧
      historyOf (c.trace.take k) e.tid = h ++ commit.events ∧ e.op = commit.consume := by
  obtain ⟨thread, hthread, hbefore⟩ := run.spec_before (code_spec rt) he
  obtain ⟨t, o, input, resp, pre, post⟩ := e
  cases o with
  | consume recordId generation capabilities validity =>
      cases hcall : thread.call with
      | runOnce =>
          rw [hcall] at hbefore
          obtain ⟨call, commit, hhist, hconsume⟩ := hbefore
          exact ⟨thread, _, commit, call.inserted, hthread, .inr ⟨hcall, call, rfl, rfl⟩, hhist,
            hconsume⟩
      | execute authorized attemptId =>
          rw [hcall] at hbefore
          obtain ⟨commit, hhist, hconsume⟩ := hbefore
          exact ⟨thread, authorized, commit, [], hthread, .inl ⟨attemptId, hcall, rfl⟩, hhist,
            hconsume⟩
      | authorize => rw [hcall] at hbefore; cases hbefore
      | _ => rw [hcall] at hbefore; cases hbefore
  | _ => cases hop

/-- Before Nexus is called, the thread has gone through the steps of a commit. -/
theorem executeTool_starts {admits : World → Op → Input → Prop}
    {maySpawn : SystemState → Call → Prop} (run : Run rt.system init admits maySpawn c) {k : Nat}
    {e : Step} (he : c.trace[k]? = some e) (hop : e.op.isExecuteTool = true) :
    ∃ (thread : Thread Op Call Outcome Op.Resp) (authorized : AuthorizedExecution)
      (commit : Commit rt.keyCustody authorized) (h : History) (attemptId : Nat)
      (tokens : List CapabilityToken), c.threads[e.tid]? = some thread ∧
      StartsExecute rt thread.call authorized h ∧
      historyOf (c.trace.take k) e.tid = h ++ commit.entered attemptId tokens ∧
      ∃ definition arguments, e.op = .executeTool definition arguments tokens := by
  obtain ⟨thread, hthread, hbefore⟩ := run.spec_before (code_spec rt) he
  obtain ⟨t, o, input, resp, pre, post⟩ := e
  cases o with
  | executeTool definition arguments tokens =>
      cases hcall : thread.call with
      | runOnce =>
          rw [hcall] at hbefore
          obtain ⟨call, commit, hhist, -⟩ := hbefore
          exact ⟨thread, _, commit, call.inserted, call.attemptId, tokens, hthread,
            .inr ⟨hcall, call, rfl, rfl⟩, hhist, definition, arguments, rfl⟩
      | execute authorized attemptId =>
          rw [hcall] at hbefore
          obtain ⟨commit, attemptId', hhist, -⟩ := hbefore
          exact ⟨thread, authorized, commit, [], attemptId', tokens, hthread,
            .inl ⟨attemptId, hcall, rfl⟩, hhist, definition, arguments, rfl⟩
      | authorize => rw [hcall] at hbefore; cases hbefore
      | _ => rw [hcall] at hbefore; cases hbefore
  | _ => cases hop

/-- A thread that calls Nexus has consumed before, for the tokens it calls it with. -/
theorem exists_consume {admits : World → Op → Input → Prop}
    {maySpawn : SystemState → Call → Prop} (run : Run rt.system init admits maySpawn c) {k : Nat}
    {e : Step} (he : c.trace[k]? = some e) {definition : ToolDefinition} {arguments : Json}
    {tokens : List CapabilityToken} (hop : e.op = .executeTool definition arguments tokens) :
    ∃ (j : Nat) (e' : Step) (authorized : AuthorizedExecution)
      (commit : Commit rt.keyCustody authorized), j < k ∧ c.trace[j]? = some e' ∧
      e'.tid = e.tid ∧ e'.event = ⟨commit.consume, .ok tokens⟩ := by
  obtain ⟨_, authorized, commit, h, attemptId, tokens', -, -, hhist, _, _, hop'⟩ :=
    executeTool_starts run he (by rw [hop]; rfl)
  obtain ⟨-, -, rfl⟩ := Op.executeTool.inj (hop.symm.trans hop')
  have hmem := commit.consume_mem_entered h attemptId tokens
  rw [← hhist] at hmem
  obtain ⟨j, e', hj, he', htid, hev⟩ := mem_historyOf hmem
  exact ⟨j, e', authorized, commit, hj, he', htid, hev⟩

/-- Before a consumption, the thread has come to it as the specification says. -/
theorem consume_reached (run : AnyRun rt init c) {k : Nat} {e : Step}
    (he : c.trace[k]? = some e) (hop : e.op.isConsume = true) :
    ∃ (authorized : AuthorizedExecution) (commit : Commit rt.keyCustody authorized) (h : History),
      Executes rt c e.tid authorized ∧
      historyOf (c.trace.take k) e.tid = h ++ commit.events ∧ e.op = commit.consume ∧
      ∀ r er, c.trace[r]? = some er → er.tid = e.tid → historyOf (c.trace.take r) e.tid = h →
        ∃ v < r, AuthorizedAt c authorized v := by
  obtain ⟨thread, authorized, commit, h, hthread, hstarts, hhist, hconsume⟩ :=
    consume_starts run he hop
  refine ⟨authorized, commit, h, ⟨thread, hthread, ?_⟩, hhist, hconsume, ?_⟩
  · rcases hstarts with ⟨attemptId, hcall, -⟩ | ⟨hcall, call, rfl, rfl⟩
    · exact .inl ⟨attemptId, hcall⟩
    · have hlast : historyOf c.trace e.tid = historyOf (c.trace.take k) e.tid
          ++ historyOf (c.trace.drop k) e.tid := by
        rw [← historyOf_append, List.take_append_drop]
      refine .inr ⟨hcall, call, commit.events ++ historyOf (c.trace.drop k) e.tid, ?_, rfl⟩
      rw [hlast, hhist, List.append_assoc]
  · intro r er hr htid hhr
    rcases hstarts with ⟨attemptId, hcall, -⟩ | ⟨-, call, rfl, rfl⟩
    · obtain ⟨v, hv, hat⟩ := authorizedAt_of_direct run hthread hcall
      exact ⟨v, hv.trans_le ((run.lives hthread).after_born r er hr htid), hat⟩
    · exact authorizedAt_of_turn call hhr

-- ============================================================================
-- The commit
-- ============================================================================

/-- The validation behind an authorized action. -/
theorem AuthorizedAt.validated {admits : World → Op → Input → Prop}
    {maySpawn : SystemState → Call → Prop} (run : Run rt.system init admits maySpawn c)
    {authorized : AuthorizedExecution} {v : Nat} (h : AuthorizedAt c authorized v) :
    v < c.trace.length ∧ ∃ generation manifest now validated,
      validateChain (c.worldAt v).kernel authorized.certificate.authorityLeaseId generation
        manifest now = .ok validated ∧
      validated.observedGenerations = authorized.observedGenerations := by
  obtain ⟨request, authorization, h, n, e, rfl, -, -, hv, hev⟩ := h
  exact ⟨(List.getElem?_eq_some_iff.mp hv).1, _, _, _, _, resp_eq run hv hev, rfl⟩

/-- Where two validations of a lease observe the same generations, the chain has been the
    same from the one to the other. -/
theorem chain_between {admits : World → Op → Input → Prop}
    {maySpawn : SystemState → Call → Prop} (run : Run rt.system init admits maySpawn c)
    (hfresh : ∀ w o input, admits w o input → FreshIds w o input) {leafId : LeaseId}
    {expected expected' : Option Nat} {manifest manifest' : CapabilityManifest}
    {now now' : DateTime} {validated validated' : ValidatedAuthority} {v g : Nat}
    (hvg : v ≤ g) (hg : g ≤ c.trace.length)
    (hvalid : validateChain (c.worldAt v).kernel leafId expected manifest now = .ok validated)
    (hvalid' : validateChain (c.worldAt g).kernel leafId expected' manifest' now'
      = .ok validated')
    (hgen : validated'.observedGenerations = validated.observedGenerations) :
    ∃ leaf path, ValidChain (c.worldAt v).kernel leafId expected manifest now validated leaf path ∧
      ValidChain (c.worldAt g).kernel leafId expected' manifest' now' validated' leaf path ∧
      ∀ l, v ≤ l → l ≤ g → LeasePath (c.worldAt l).kernel leafId path := by
  obtain ⟨leaf, path, h⟩ := validateChain_sound hvalid
  obtain ⟨leaf', path', h'⟩ := validateChain_sound hvalid'
  have hkeep {i j : Nat} (hij : i ≤ j) (hj : j ≤ g) :
      KeepsLeases (c.worldAt i).kernel (c.worldAt j).kernel :=
    (kernelRun_between run hfresh hij (hj.trans hg)).keepsLeases
  obtain rfl : path' = path := h.path_eq h' (hkeep hvg le_rfl) hgen
  have hleaf : leaf' = leaf := by
    have hfound := h.isPath.find_of_mem h'.leaf_mem
    rw [h.entry_eq] at hfound
    exact (Option.some.inj hfound).symm
  subst hleaf
  refine ⟨leaf', path', h, h', fun l hvl hlg => h.isPath.congr fun node hnode => ?_⟩
  exact ((hkeep hvl hlg).squeeze (hkeep hlg le_rfl) (h.isPath.find_of_mem hnode)
    (h'.isPath.find_of_mem hnode) rfl).1

/-- Whenever the consumption of an authorized action is attempted, and wherever the action
    was authorized, the chain behind it has been the same since. -/
theorem chain_since {admits : World → Op → Input → Prop}
    {maySpawn : SystemState → Call → Prop} (run : Run rt.system init admits maySpawn c)
    (hfresh : ∀ w o input, admits w o input → FreshIds w o input)
    {authorized : AuthorizedExecution} {generation : Nat} {manifest : CapabilityManifest}
    {now : DateTime} {validated : ValidatedAuthority} {v g : Nat}
    (hat : AuthorizedAt c authorized v) (hvg : v ≤ g) (hg : g ≤ c.trace.length)
    (hvalid : validateChain (c.worldAt g).kernel authorized.certificate.authorityLeaseId
      (some generation) manifest now = .ok validated)
    (hgen : validated.observedGenerations = authorized.observedGenerations) :
    ∃ leaf path, ValidChain (c.worldAt g).kernel authorized.certificate.authorityLeaseId
        (some generation) manifest now validated leaf path ∧
      ∀ l, v ≤ l → l ≤ g →
        LeasePath (c.worldAt l).kernel authorized.certificate.authorityLeaseId path := by
  obtain ⟨-, generation₀, manifest₀, now₀, validated₀, hvalid₀, hgen₀⟩ := hat.validated run
  obtain ⟨leaf, path, -, h, hsince⟩ := chain_between run hfresh hvg hg hvalid₀ hvalid
    (hgen.trans hgen₀.symm)
  exact ⟨leaf, path, h, hsince⟩

/-- An execution that has come to its consumption commits under live authority, wherever it
    has started with an authorized action. -/
theorem commitsAt_of_history {admits : World → Op → Input → Prop}
    {maySpawn : SystemState → Call → Prop} (run : Run rt.system init admits maySpawn c)
    (hfresh : ∀ w o input, admits w o input → FreshIds w o input)
    {authorized : AuthorizedExecution} (commit : Commit rt.keyCustody authorized) {h : History}
    {t k : Nat} (hk : k ≤ c.trace.length)
    (hhist : historyOf (c.trace.take k) t = h ++ commit.events)
    (hsource : ∀ r er, c.trace[r]? = some er → er.tid = t → historyOf (c.trace.take r) t = h →
      ∃ v < r, AuthorizedAt c authorized v) :
    ∃ path v r g m, AuthorizedAt c authorized v ∧
      CommitsAt rt c authorized commit path v r g m k := by
  obtain ⟨r, g, m, hrg, hgm, hmk, hr, ⟨er, her, htr⟩, hlocked, hcontext, hsnapshot, hvalid,
    hguard⟩ := commit_positions run commit hk hhist
  obtain ⟨v, hvr, hat⟩ := hsource r er her htr hr
  obtain ⟨hgen, -, hcontextDigest, hlive⟩ := checkAuthority_eq_ok.mp commit.authority_ok
  obtain ⟨leaf, path, hchain, hsince⟩ :=
    chain_since run hfresh hat (by omega) (by omega) hvalid hgen
  refine ⟨path, v, r, g, m, hat, ?_⟩
  exact
    { order := ⟨hvr, hrg, hgm, hmk⟩
      locked := hlocked
      chain := fun l hvl hlk => by
        rcases Nat.le_total l g with hlg | hgl
        · exact hsince l hvl hlg
        · rw [hguard l hgl hlk]
          exact hchain.isPath
      active := fun node hnode => hchain.active hnode
      context := by
        rw [hcontext, ← hcontextDigest]
        exact commit.context_eq
      snapshot := hsnapshot
      manifest := ⟨leaf, hchain.leaf_mem, by rw [← hchain.manifestDigest_eq]; exact hlive⟩ }

theorem commitsAt_of_consume (run : AnyRun rt init c) {k : Nat} {e : Step}
    (he : c.trace[k]? = some e) (hop : e.op.isConsume = true) :
    ∃ authorized commit path v r g m, Executes rt c e.tid authorized ∧
      AuthorizedAt c authorized v ∧ CommitsAt rt c authorized commit path v r g m k ∧
      e.op = commit.consume := by
  have hk := (List.getElem?_eq_some_iff.mp he).1.le
  obtain ⟨authorized, commit, h, hexecutes, hhist, hconsume, hsource⟩ :=
    consume_reached run he hop
  obtain ⟨path, v, r, g, m, hat, hcommits⟩ :=
    commitsAt_of_history run (fun _ _ _ h => h) commit hk hhist hsource
  exact ⟨authorized, commit, path, v, r, g, m, hexecutes, hat, hcommits, hconsume⟩

-- ============================================================================
-- Stale authority
-- ============================================================================

/-- A turn that has come to its execution has done so with one authorization. -/
theorem ToolCall.inserted_inj {call call' : ToolCall rt} {h h' : History}
    (heq : call.inserted ++ h = call'.inserted ++ h') :
    call.authorization.validated = call'.authorization.validated ∧
      call.authorization.certificate = call'.authorization.certificate := by
  constructor
  · have hindex : some call.authorization.validation = some call'.authorization.validation :=
      congrArg (fun h : History => h[14]?) heq
    have hev := Option.some.inj hindex
    simp only [Authorization.validation, Prog.Event.mk.injEq] at hev
    exact Except.ok.inj (eq_of_heq hev.2)
  · have hindex : some (⟨.pushCertificate call.authorization.certificate, ()⟩ : Event)
        = some ⟨.pushCertificate call'.authorization.certificate, ()⟩ :=
      congrArg (fun h : History => h[21]?) heq
    have hop := congrArg Prog.Event.op (Option.some.inj hindex)
    exact Op.pushCertificate.inj hop

/-- A call executes one action. -/
theorem StartsExecute.unique {call : Call} {authorized authorized' : AuthorizedExecution}
    {h h' rest rest' : History} (hstarts : StartsExecute rt call authorized h)
    (hstarts' : StartsExecute rt call authorized' h') (heq : h ++ rest = h' ++ rest') :
    authorized.observedGenerations = authorized'.observedGenerations ∧
      authorized.certificate = authorized'.certificate := by
  rcases hstarts with ⟨_, rfl, rfl⟩ | ⟨rfl, toolCall, rfl, rfl⟩
  · rcases hstarts' with ⟨_, hcall, -⟩ | ⟨hcall, -⟩
    · cases hcall
      exact ⟨rfl, rfl⟩
    · cases hcall
  · rcases hstarts' with ⟨_, hcall, -⟩ | ⟨-, toolCall', rfl, rfl⟩
    · cases hcall
    · obtain ⟨hvalidated, hcertificate⟩ := ToolCall.inserted_inj heq
      exact ⟨congrArg ValidatedAuthority.observedGenerations hvalidated, hcertificate⟩

/-- An execution has started with its action. -/
theorem Executes.starts {t : Nat} {authorized : AuthorizedExecution}
    (h : Executes rt c t authorized) : ∃ thread h₀ rest, c.threads[t]? = some thread ∧
      StartsExecute rt thread.call authorized h₀ ∧ historyOf c.trace t = h₀ ++ rest := by
  obtain ⟨thread, hthread, ⟨attemptId, hcall⟩ | ⟨hcall, call, rest, hhist, rfl⟩⟩ := h
  · exact ⟨thread, [], _, hthread, .inl ⟨attemptId, hcall, rfl⟩, rfl⟩
  · exact ⟨thread, _, rest, hthread, .inr ⟨hcall, call, rfl, rfl⟩, hhist⟩

/-- A thread executes one action. -/
theorem Executes.unique {t : Nat} {authorized authorized' : AuthorizedExecution}
    (h : Executes rt c t authorized) (h' : Executes rt c t authorized') :
    authorized.observedGenerations = authorized'.observedGenerations ∧
      authorized.certificate = authorized'.certificate := by
  obtain ⟨thread, _, _, hthread, hstarts, hhist⟩ := h.starts
  obtain ⟨thread', _, _, hthread', hstarts', hhist'⟩ := h'.starts
  obtain rfl : thread = thread' := Option.some.inj (hthread.symm.trans hthread')
  exact hstarts.unique hstarts' (hhist.symm.trans hhist')

/-- Until it consumes, an execution finds every lease of its chain as it was when the action
    was authorized. -/
theorem lookup_eq_of_consume (run : AnyRun rt init c) {k : Nat} {e : Step}
    (he : c.trace[k]? = some e) (hop : e.op.isConsume = true)
    {authorized : AuthorizedExecution} (hexecutes : Executes rt c e.tid authorized) {v : Nat}
    (hat : AuthorizedAt c authorized v) {path : List (LeaseId × LeaseEntry)}
    (hpath : LeasePath (c.worldAt v).kernel authorized.certificate.authorityLeaseId path)
    {l : Nat} (hvl : v ≤ l) (hlk : l ≤ k) {node : LeaseId × LeaseEntry} (hnode : node ∈ path) :
    (c.worldAt l).kernel.leases.lookup node.1 = some node.2 := by
  have hk := (List.getElem?_eq_some_iff.mp he).1
  obtain ⟨authorized', commit, h, hexecutes', hhist, -, -⟩ := consume_reached run he hop
  obtain ⟨r, g, m, hrg, hgm, hmk, -, -, -, -, -, hvalid, hguard⟩ :=
    commit_positions run commit hk.le hhist
  rcases Nat.le_total v g with hvg | hgv
  swap
  · rw [hguard l (by omega) hlk, ← hguard v hgv (by omega)]
    exact hpath.find_of_mem hnode
  obtain ⟨hgen, -⟩ := checkAuthority_eq_ok.mp commit.authority_ok
  obtain ⟨hgen', hcertificate⟩ := hexecutes'.unique hexecutes
  rw [hcertificate] at hvalid
  rw [hgen'] at hgen
  obtain ⟨leaf, path', hchain, hsince⟩ :=
    chain_since run (fun _ _ _ h => h) hat hvg (by omega) hvalid hgen
  obtain rfl : path = path' := hpath.unique (hsince v le_rfl hvg)
  rcases Nat.le_total l g with hlg | hgl
  · exact (hsince l hvl hlg).find_of_mem hnode
  · rw [hguard l hgl hlk]
    exact hchain.isPath.find_of_mem hnode

/-- The thread never gets to Nexus: it consumes nothing, calls no tool, changes no record,
    and reports, if it returns, a failure before Nexus. -/
structure FailsBeforeNexus (c : SystemState) (t : Nat) : Prop where
  noConsume : ∀ (k : Nat) (e : Step), c.trace[k]? = some e → e.tid = t → e.op.isConsume = false
  noTool : ∀ (k : Nat) (e : Step), c.trace[k]? = some e → e.tid = t →
    e.op.isExecuteTool = false
  executed : ∀ thread result, c.threads[t]? = some thread →
    thread.prog = .ret (.executed result) → ∃ e, result = .error ⟨e, .beforeNexus⟩
  ran : ∀ thread result, c.threads[t]? = some thread → thread.prog = .ret (.ran result) →
    ∀ output, result ≠ .ok (.executed output)

/-- A thread that consumes nothing fails before Nexus. -/
theorem failsBeforeNexus_of_noConsume (run : AnyRun rt init c) {t : Nat}
    (hnone : ∀ (k : Nat) (e : Step), c.trace[k]? = some e → e.tid = t →
      e.op.isConsume = false) : FailsBeforeNexus c t := by
  have hconsumed {authorized : AuthorizedExecution} {commit : Commit rt.keyCustody authorized}
      {tokens : List CapabilityToken} {attemptId : Nat} {h h' : History}
      (hhist : historyOf c.trace t = h ++ commit.entered attemptId tokens ++ h') : False := by
    have hmem : (⟨commit.consume, .ok tokens⟩ : Event) ∈ historyOf c.trace t := by
      rw [hhist]
      exact List.mem_append_left _ (commit.consume_mem_entered _ _ _)
    obtain ⟨i, e, -, he, htid, hev⟩ := exists_of_mem_historyOf hmem
    have hop : e.event.op.isConsume = false := hnone i e he htid
    rw [hev] at hop
    cases hop
  have htool : ∀ (k : Nat) (e : Step), c.trace[k]? = some e → e.tid = t →
      e.op.isExecuteTool = false := by
    rintro k e he rfl
    cases hop : e.op.isExecuteTool with
    | false => rfl
    | true =>
        obtain ⟨_, _, _, _, _, _, -, -, hhist, -⟩ := executeTool_starts run he hop
        obtain ⟨rest, hrest⟩ : historyOf (c.trace.take k) e.tid <+: historyOf c.trace e.tid :=
          historyOf_take_isPrefix k
        rw [hhist] at hrest
        exact (hconsumed hrest.symm).elim
  refine ⟨hnone, htool, fun thread result hthread hprog => ?_,
    fun thread result hthread hprog output heq => ?_⟩
  · have hafter := after_of_returned run hthread hprog
    cases hcall : thread.call with
    | execute authorized attemptId =>
        rw [hcall] at hafter
        obtain ⟨result', heq, hreturn⟩ := hafter
        cases heq
        rcases result with ⟨e, position⟩ | output
        · cases position with
          | beforeNexus => exact ⟨e, rfl⟩
          | started =>
              obtain ⟨commit, tokens, hhist⟩ := hreturn
              exact (hconsumed hhist).elim
        · obtain ⟨commit, tokens, hhist⟩ := hreturn
          exact (hconsumed hhist).elim
    | _ =>
        rw [hcall] at hafter
        obtain ⟨result', heq, -⟩ := hafter
        cases heq
  · have hafter := after_of_returned run hthread hprog
    cases hcall : thread.call with
    | runOnce =>
        rw [hcall] at hafter
        obtain ⟨result', hran, hreturn⟩ := hafter
        cases hran
        obtain ⟨definition, arguments, tokens, hmem⟩ := hreturn.executed output heq
        obtain ⟨i, e, -, he, htid, hev⟩ := exists_of_mem_historyOf hmem
        have hop : e.event.op.isExecuteTool = false := htool i e he htid
        rw [hev] at hop
        cases hop
    | _ =>
        rw [hcall] at hafter
        obtain ⟨result', heq, -⟩ := hafter
        cases heq

/-- Only a consumption mints tokens or changes a record there is. -/
theorem exec_of_not_consume {t : Nat} {o : Op} {input : Input} {w : World}
    (h : o.isConsume = false) :
    (Op.exec t o input w).2.tokens = w.tokens ∧
      w.store.authorizationRecords <+: (Op.exec t o input w).2.store.authorizationRecords := by
  cases o with
  | consume => cases h
  | lockActiveChain =>
      simp only [Op.exec]
      split <;> exact ⟨rfl, List.prefix_rfl⟩
  | kernelOp =>
      simp only [Op.exec]
      split <;> exact ⟨rfl, List.prefix_rfl⟩
  | replaceTool =>
      simp only [Op.exec]
      split <;> exact ⟨rfl, List.prefix_rfl⟩
  | reserve counter limit =>
      cases counter <;>
        · simp only [Op.exec, World.reserve]
          split <;> exact ⟨rfl, List.prefix_rfl⟩
  | appendForAttempt =>
      simp only [Op.exec]
      split <;> exact ⟨rfl, List.prefix_rfl⟩
  | insertAuthorization attemptId record =>
      simp only [Op.exec, World.onStore]
      split
      · rename_i hinsert
        obtain ⟨-, hinsert⟩ := InMemoryMissionStore.insertAuthorizationForAttempt_eq_ok.mp hinsert
        obtain ⟨-, rfl⟩ := InMemoryMissionStore.insertAuthorizationInner_eq_ok.mp hinsert
        exact ⟨rfl, List.prefix_append _ _⟩
      · rename_i hinsert
        have hclean := (LedgerCall.insertAuthorizationForAttempt attemptId record).exec_failsClean
          w.store _ _ hinsert
        exact ⟨rfl, by rw [hclean]⟩
  | _ => exact ⟨rfl, List.prefix_rfl⟩

/-- Whatever runs beside it, and whoever calls `execute` with an action that some call of
    `authorize` has returned: a consumption is a commit under live authority; nothing else
    mints tokens or changes a record; and an execution one of whose leases has changed since
    it was authorized fails before Nexus. -/
theorem execution_commits_under_live_authority (run : AnyRun rt init c) :
    (∀ (k : Nat) (e : Step), c.trace[k]? = some e → e.op.isConsume = true →
      ∃ authorized commit path v r g m, Executes rt c e.tid authorized ∧
        AuthorizedAt c authorized v ∧ CommitsAt rt c authorized commit path v r g m k ∧
        e.op = commit.consume) ∧
    (∀ (k : Nat) (e : Step), c.trace[k]? = some e → e.op.isConsume = false →
      e.post.tokens = e.pre.tokens ∧
        e.pre.store.authorizationRecords <+: e.post.store.authorizationRecords) ∧
    (∀ (t : Nat) (authorized : AuthorizedExecution) (v l : Nat)
      (path : List (LeaseId × LeaseEntry)) (node : LeaseId × LeaseEntry),
      Executes rt c t authorized → AuthorizedAt c authorized v →
      LeasePath (c.worldAt v).kernel authorized.certificate.authorityLeaseId path →
      node ∈ path → v ≤ l → l ≤ c.trace.length →
      (c.worldAt l).kernel.leases.lookup node.1 ≠ some node.2 →
      (∀ (k : Nat) (e : Step), k < l → c.trace[k]? = some e → e.tid = t →
        e.op.isConsume = false) →
      FailsBeforeNexus c t) := by
  refine ⟨fun k e he hop => commitsAt_of_consume run he hop, fun k e he hop => ?_, ?_⟩
  · have h : (Op.exec e.tid e.op e.input e.pre).2.tokens = e.pre.tokens ∧
        e.pre.store.authorizationRecords
          <+: (Op.exec e.tid e.op e.input e.pre).2.store.authorizationRecords :=
      exec_of_not_consume hop
    rw [post_eq run he] at h
    exact h
  · intro t authorized v l path node hexecutes hat hpath hnode hvl _ hchanged hbefore
    refine failsBeforeNexus_of_noConsume run fun k e he htid => ?_
    cases hop : e.op.isConsume with
    | false => rfl
    | true =>
        subst htid
        rcases Nat.lt_or_ge k l with hkl | hlk
        · rw [hbefore k e hkl he rfl] at hop
          cases hop
        · exact absurd (lookup_eq_of_consume run he hop hexecutes hat hpath hvl hlk hnode) hchanged

omit [Externals] in
/-- A turn of the reference runtime that calls its tool commits under live authority; an action
    whose lease is revoked before it is executed fails before Nexus. -/
theorem execution_commits_under_live_authority_reference : letI := Reference.externals
    ∃ (rt : R1Runtime) (init : World), Bootstrapped rt init ∧
      (∃ (c : SystemState) (k n : Nat) (e e' : Step), AnyRun rt init c ∧ c.trace[k]? = some e ∧
        e.op.isConsume = true ∧ k < n ∧ c.trace[n]? = some e' ∧ e'.tid = e.tid ∧
        e'.op.isExecuteTool = true ∧ ∃ authorized commit path v r g m,
          Executes rt c e.tid authorized ∧ AuthorizedAt c authorized v ∧
          CommitsAt rt c authorized commit path v r g m k ∧ e.op = commit.consume) ∧
      ∃ (c : SystemState) (authorized : AuthorizedExecution) (error : RuntimeError) (v l : Nat)
        (path : List (LeaseId × LeaseEntry)) (node : LeaseId × LeaseEntry), AnyRun rt init c ∧
        c.threads[2]? = some ⟨.execute authorized 1, l,
          .ret (.executed (.error ⟨error, .beforeNexus⟩))⟩ ∧
        AuthorizedAt c authorized v ∧ v ≤ l ∧ node ∈ path ∧
        LeasePath (c.worldAt v).kernel authorized.certificate.authorityLeaseId path ∧
        node.2.record.state = .active ∧
        (∃ entry, (c.worldAt l).kernel.leases.lookup node.1 = some entry ∧
          entry.record.state = .revoked) ∧ FailsBeforeNexus c 2 := by
  let := Reference.externals
  obtain ⟨rt, init, tool, ⟨act⟩⟩ := Reference.exists_activated
  refine ⟨rt, init, act.bootstrapped, ?_, ?_⟩
  · obtain ⟨c, run, -, k, e, _, _, _, he, hop, -⟩ :=
      act.exists_executed MayStart act.allows_freshIds trivial
    obtain ⟨j, e', _, commit, hjk, he', htid, hev⟩ := exists_consume run he hop
    have hconsume : e'.op.isConsume = true := by
      rw [show e'.op = commit.consume from congrArg Prog.Event.op hev]
      rfl
    exact ⟨c, j, k, e', e, run, he', hconsume, hjk, he, htid.symm, by rw [hop]; rfl,
      (execution_commits_under_live_authority run).1 j e' he' hconsume⟩
  · obtain ⟨c, request, run', artifact, value, b, l, error, run, hthreads, hl, hlease, revoked⟩ :=
      act.exists_blocked
    have hthread : c.threads[2]? = some ⟨.execute run'.execution 1, l,
        .ret (.executed (.error ⟨error, .beforeNexus⟩))⟩ := congrArg (·[2]?) hthreads
    obtain ⟨v, hvl, hat⟩ := authorizedAt_of_direct run hthread rfl
    obtain ⟨-, generation, manifest, now, validated, hvalid, -⟩ := hat.validated run
    obtain ⟨leaf, path, hchain⟩ := validateChain_sound hvalid
    have hactive : leaf.record.state = .active := (hchain.active hchain.leaf_mem).1
    have hrevoked : (c.worldAt l).kernel.leases.lookup run'.execution.certificate.authorityLeaseId
        = some (act.ready.lease.withRecord
          (act.ready.lease.record.revoke "done" Reference.start)) := by
      rw [show run'.execution.certificate.authorityLeaseId = _ from hlease]
      exact revoked.lookup
    refine ⟨c, run'.execution, error, v, l, path, _, run, hthread, hat, hvl.le, hchain.leaf_mem,
      hchain.isPath, hactive, ⟨_, hrevoked, rfl⟩, ?_⟩
    refine (execution_commits_under_live_authority run).2.2 2 _ v l path _
      ⟨_, hthread, .inl ⟨1, rfl⟩⟩ hat hchain.isPath hchain.leaf_mem hvl.le hl ?_ ?_
    · intro hlookup
      cases hrevoked.symm.trans hlookup
      cases hactive
    · intro k e hk he htid
      have hborn := (run.lives hthread).after_born k e he htid
      exact absurd hk hborn.not_gt

end

end GenesisRuntime
