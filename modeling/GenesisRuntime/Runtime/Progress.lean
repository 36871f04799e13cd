/-
  GenesisRuntime.Runtime.Progress

  Why no call of a runtime waits forever: the locks are asked for in one order, no guard
  is kept while the model or Nexus runs, and every call ends after so many operations.

  Inside one operation several locks can be taken, in the order listed here; between
  operations only the guards of the kernel and of the semantic context are kept.
-/

import GenesisRuntime.Lib.Locks
import GenesisRuntime.Runtime.Reference.Runs
import Mathlib.Data.Fintype.Order
import Mathlib.Order.Fin.Basic

namespace GenesisRuntime

open Prog (Spec outcomeOf)

-- ============================================================================
-- The locks
-- ============================================================================

/-- The locks of a runtime, in the order in which they are taken. -/
inductive RuntimeLock where
  /-- `AuthorityKernel::inner`. -/
  | kernel
  /-- `R1Runtime::semantic_context`. -/
  | semanticContext
  /-- `ToolRegistry::tools`. -/
  | tools
  /-- `R1Runtime::action_certificates`. -/
  | actionCertificates
  /-- `InMemoryMissionStore::authorization_records`. -/
  | authorizationRecords
  /-- `InMemoryMissionStore::events`. -/
  | events

namespace RuntimeLock

def rank : RuntimeLock → Fin 6
  | kernel => 0
  | semanticContext => 1
  | tools => 2
  | actionCertificates => 3
  | authorizationRecords => 4
  | events => 5

theorem rank_injective : Function.Injective rank := by
  intro a b h
  cases a <;> cases b <;> first | rfl | exact absurd h (by decide)

instance : LinearOrder RuntimeLock := LinearOrder.lift' rank rank_injective

instance : WellFoundedGT RuntimeLock := ⟨InvImage.wf rank (wellFounded_gt (α := Fin 6))⟩

theorem lt_def {a b : RuntimeLock} : a < b ↔ a.rank < b.rank := Iff.rfl

end RuntimeLock

section
variable [Externals]

/-- The lock an operation asks for, if it is of a kind that keeps no guard. -/
def Op.lock : Op → Option RuntimeLock
  | .rootLeaseId | .leaseSnapshot _ | .validateActiveChain _ _ _ _ | .lockActiveChain _ _ _ _
  | .kernelOp _ => some .kernel
  | .readContext | .lockContext | .writeContext _ => some .semanticContext
  | .resolve _ _ | .refreshManifest _ | .replaceTool _ => some .tools
  | .pushCertificate _ => some .actionCertificates
  | .insertAuthorization _ _ | .consume _ _ _ _ => some .authorizationRecords
  | .appendForAttempt _ _ => some .events
  | .utcNow | .newUuid | .reserve _ _ | .beginAttempt | .generate _ | .executeTool _ _ _
  | .unlockKernel | .unlockContext => none

/-- Whether an operation takes a guard or gives it up. -/
def Op.isGuard : Op → Bool
  | .lockActiveChain _ _ _ _ | .unlockKernel | .lockContext | .unlockContext => true
  | _ => false

/-- Whether a call is suspended at an operation (`.await`). -/
def Op.isAwait : Op → Bool
  | .generate _ | .executeTool _ _ _ => true
  | _ => false

/-- The guard a call keeps after an event. -/
def takenGuard : Event → Option RuntimeLock
  | ⟨.lockActiveChain _ _ _ _, .ok _⟩ => some .kernel
  | ⟨.lockContext, _⟩ => some .semanticContext
  | _ => none

/-- The guard a call gives up with an event. -/
def givenGuard : Event → Option RuntimeLock
  | ⟨.unlockKernel, _⟩ => some .kernel
  | ⟨.unlockContext, _⟩ => some .semanticContext
  | _ => none

/-- How the operations of a runtime use its locks. -/
def locking : Locking Op Op.Resp RuntimeLock where
  asks := Op.lock
  takes := takenGuard
  gives := givenGuard
  suspends := Op.isAwait

theorem keeps_of_isGuard {o : Op} (h : o.isGuard = false) (r : o.Resp) :
    locking.Keeps ⟨o, r⟩ := by
  cases o <;> first | exact ⟨rfl, rfl⟩ | cases h

-- ============================================================================
-- The rules for programs
-- ============================================================================

section
variable {α β ε : Type} {guards guards' : List RuntimeLock} {n : Nat}

theorem runs_ofResult (x : Result α) :
    locking.Runs guards guards 0 (ofResult x : RuntimeM α).run := by
  cases x <;> exact .ret _

/-- What is only computed asks for nothing. -/
theorem runs_ofResult_bind {x : Result α} {f : α → RuntimeM β}
    (hf : ∀ a, x = .ok a → locking.Runs guards guards n (f a).run) :
    locking.Runs guards guards n ((ofResult x : RuntimeM α) >>= f).run := by
  cases x with
  | ok a => exact hf a rfl
  | error e => exact (Locking.Runs.ret _).mono (Nat.zero_le n)

theorem runs_rejectIf {bad : Prop} [Decidable bad] {code : ErrorCode} {message : String} :
    locking.Runs guards guards 0 (rejectIf bad code message : RuntimeM Unit).run := by
  unfold rejectIf
  split <;> exact .ret _

theorem runs_rejectIf_bind {bad : Prop} [Decidable bad] {code : ErrorCode} {message : String}
    {f : Unit → RuntimeM β} (hf : locking.Runs guards guards n (f ()).run) :
    locking.Runs guards guards n ((rejectIf bad code message : RuntimeM Unit) >>= f).run := by
  unfold rejectIf
  split
  · exact (Locking.Runs.ret _).mono (Nat.zero_le n)
  · exact hf

theorem runs_orReject_bind {o : Option α} {code : ErrorCode} {message : String}
    {f : α → RuntimeM β} (hf : ∀ a, locking.Runs guards guards n (f a).run) :
    locking.Runs guards guards n ((orReject code message o : RuntimeM α) >>= f).run := by
  cases o with
  | some a => exact hf a
  | none => exact (Locking.Runs.ret _).mono (Nat.zero_le n)

/-- An operation that keeps no guard, below the lock it asks for. -/
theorem runs_perform_bind {o : Op} {f : o.Resp → ExceptT ε (Prog Op Op.Resp) β}
    (hbelow : ∀ l ∈ o.lock, ∀ g ∈ guards, g < l) (hguard : o.isGuard = false)
    (hawait : o.isAwait = false) (hf : ∀ r, locking.Runs guards guards' n (f r).run) :
    locking.Runs guards guards' (n + 1) (perform o >>= f).run := by
  refine .op hbelow (fun hs => absurd (hawait.symm.trans hs) (by decide)) fun r => ?_
  rw [locking.after_of_keeps (keeps_of_isGuard hguard r)]
  exact hf r

/-- An operation performed without any guard. -/
theorem runs_free_bind {o : Op} {f : o.Resp → ExceptT ε (Prog Op Op.Resp) β}
    (hguard : o.isGuard = false) (hf : ∀ r, locking.Runs [] [] n (f r).run) :
    locking.Runs [] [] (n + 1) (perform o >>= f).run := by
  refine .op (by simp) (fun _ => rfl) fun r => ?_
  rw [locking.after_of_keeps (keeps_of_isGuard hguard r)]
  exact hf r

/-- An operation performed without any guard, whose result is passed on. -/
theorem runs_call_bind {o : Op} {x : o.Resp → Result α} {f : α → RuntimeM β}
    (hguard : o.isGuard = false) (hf : ∀ a, locking.Runs [] [] n (f a).run) :
    locking.Runs [] [] (n + 1) ((do ofResult (x (← perform o)) : RuntimeM α) >>= f).run :=
  .bindE (runs_free_bind hguard fun _ => runs_ofResult _) hf

omit [Externals] in
theorem kernel_lt {l : RuntimeLock} (h : l ≠ .kernel) : ∀ g ∈ [RuntimeLock.kernel], g < l := by
  intro g hg
  rw [List.mem_singleton.mp hg, RuntimeLock.lt_def]
  cases l <;> first | decide | exact absurd rfl h

theorem runs_appendForAttempt {attemptId : Nat} {kind : MissionEventKind}
    (hbelow : ∀ g ∈ guards, g < RuntimeLock.events) :
    locking.Runs guards guards 1 (appendForAttempt attemptId kind).run := by
  refine runs_perform_bind ?_ rfl rfl fun _ => runs_ofResult _
  intro l hl
  cases hl
  exact hbelow

/-- Without any guard, an event is recorded. -/
theorem runs_append_bind {attemptId : Nat} {kind : MissionEventKind} {f : Unit → RuntimeM β}
    (hf : locking.Runs [] [] n (f ()).run) :
    locking.Runs [] [] (n + 1) (appendForAttempt attemptId kind >>= f).run :=
  .bindE (runs_appendForAttempt (by simp)) fun _ => hf

theorem runs_failWith {attemptId : Nat} {kind : ErrorCode → MissionEventKind}
    {error : RuntimeError} :
    locking.Runs [] [] (n + 1) (R1Runtime.failWith attemptId kind error : RuntimeM α).run :=
  runs_append_bind ((Locking.Runs.throwE _).mono (Nat.zero_le n))

/-- Under the read guard of the kernel, which is given up at the end. -/
theorem runs_commitActiveChain {leaseId : LeaseId} {generation : Option Nat}
    {manifest : CapabilityManifest} {now : DateTime} {commit : ValidatedAuthority → RuntimeM α}
    (hcommit : ∀ validated, locking.Runs [.kernel] [.kernel] n (commit validated).run) :
    locking.Runs [] [] (n + 2)
      (AuthorityKernel.commitActiveChain leaseId generation manifest now commit).run := by
  have hguarded (validated : ValidatedAuthority) : locking.Runs [.kernel] [] (1 + n) (do
      let committed ← outcomeOf (commit validated)
      perform .unlockKernel
      ofResult committed : RuntimeM α).run := by
    refine .outcomeE (hcommit validated) fun committed => ?_
    exact .op (n := 0) (by simp [locking, Op.lock]) (by simp [locking, Op.isAwait]) fun _ =>
      runs_ofResult committed
  refine (Locking.Runs.op (n := 1 + n) (by simp) (fun _ => rfl) ?_).mono (by omega)
  rintro (e | validated)
  · exact (Locking.Runs.ret _).mono (Nat.zero_le _)
  · exact hguarded validated

end

-- ============================================================================
-- The calls
-- ============================================================================

theorem runs_authorize (request : AuthorizeRequest) :
    locking.Runs [] [] 5 (ActionGate.authorize request).run := by
  unfold ActionGate.authorize
  refine runs_rejectIf_bind (runs_rejectIf_bind ?_)
  refine runs_call_bind rfl fun snapshot => ?_
  refine runs_free_bind rfl fun resolved => ?_
  refine runs_ofResult_bind fun (registeredTool, liveManifest) _ => ?_
  refine runs_ofResult_bind fun manifestDigest _ => runs_orReject_bind fun bound => ?_
  refine runs_rejectIf_bind (runs_call_bind rfl fun validated => ?_)
  refine runs_rejectIf_bind (runs_ofResult_bind fun contextDigest _ => ?_)
  refine runs_rejectIf_bind (runs_ofResult_bind fun checked _ => ?_)
  refine runs_ofResult_bind fun action _ => runs_ofResult_bind fun actionRef _ => ?_
  refine runs_ofResult_bind fun inputDigest _ => ?_
  refine runs_free_bind rfl fun uuid => runs_ofResult_bind fun authorizationId _ => ?_
  refine runs_free_bind rfl fun uuid' => runs_ofResult_bind fun certificateId _ => ?_
  refine runs_ofResult_bind fun payload _ => runs_ofResult_bind fun signature _ => ?_
  exact .pureE _

/-- Under the guard of the kernel the context is read and the authorization consumed. -/
theorem runs_commit (authorized : AuthorizedExecution) (keyCustody : KeyCustody)
    (liveManifest : CapabilityManifest) (now : DateTime) (validated : ValidatedAuthority) :
    locking.Runs [.kernel] [.kernel] 3
      (authorized.commit keyCustody liveManifest now validated).run := by
  unfold AuthorizedExecution.commit
  refine runs_ofResult_bind fun _ _ => ?_
  refine runs_perform_bind (by intro l hl; cases hl; exact kernel_lt (by decide)) rfl rfl
    fun context => ?_
  refine runs_ofResult_bind fun contextDigest _ => runs_rejectIf_bind ?_
  refine runs_ofResult_bind fun _ _ => ?_
  refine runs_perform_bind (by intro l hl; cases hl) rfl rfl fun issueNow => ?_
  refine runs_ofResult_bind fun validity _ => ?_
  refine runs_perform_bind (by intro l hl; cases hl; exact kernel_lt (by decide)) rfl rfl
    fun consumed => runs_ofResult consumed

theorem runs_prepare (keyCustody : KeyCustody) (authorized : AuthorizedExecution)
    (attemptId : Nat) :
    locking.Runs [] [] 9 (NexusExecutionPort.prepare keyCustody authorized attemptId).run := by
  unfold NexusExecutionPort.prepare
  refine runs_free_bind rfl fun resolved => ?_
  refine runs_ofResult_bind fun (registeredTool, liveManifest) _ => ?_
  refine runs_ofResult_bind fun manifestDigest _ => runs_rejectIf_bind ?_
  refine runs_orReject_bind fun generation => runs_free_bind rfl fun commitNow => ?_
  refine .bindE (n := 5) (runs_commitActiveChain (runs_commit _ _ _ _)) fun tokens => ?_
  exact runs_append_bind (runs_append_bind (.pureE _))

theorem runs_execute (keyCustody : KeyCustody) (authorized : AuthorizedExecution)
    (attemptId : Nat) :
    locking.Runs [] [] 10 (NexusExecutionPort.execute keyCustody authorized attemptId).run := by
  unfold NexusExecutionPort.execute
  refine .bindE (n := 9) (.adaptE (runs_prepare keyCustody authorized attemptId))
    fun (registeredTool, tokens) => ?_
  refine runs_free_bind rfl fun output => ?_
  cases output with
  | some output => exact .pureE _
  | none => exact .throwE _

theorem runs_reserveBudget {counter : BudgetCounter} {limit : UInt64} {budgetName : String} :
    locking.Runs [] [] 1 (reserveBudget counter limit budgetName).run :=
  runs_free_bind rfl fun _ => runs_rejectIf

namespace R1Runtime

variable (rt : R1Runtime)

theorem runs_activeLeaseSnapshot : locking.Runs [] [] 2 activeLeaseSnapshot.run :=
  runs_free_bind rfl fun _ => runs_free_bind rfl fun _ => runs_ofResult _

theorem runs_observeModelAuthority (context : SemanticContext) (now : DateTime) :
    locking.Runs [] [] 3 (rt.observeModelAuthority context now).run := by
  unfold observeModelAuthority
  refine runs_rejectIf_bind (.bindE (n := 2) runs_activeLeaseSnapshot fun active => ?_)
  refine runs_rejectIf_bind (runs_call_bind rfl fun validated => ?_)
  exact runs_ofResult_bind fun _ _ => .pureE _

/-- Under the guard of the kernel the guard of the context is taken, kept while the result is
    recorded, and given up. -/
theorem runs_commitFinal (observation : ModelAuthorityObservation) (attemptId : Nat)
    (validated : ValidatedAuthority) :
    locking.Runs [.kernel] [.kernel] 3 (commitFinal observation attemptId validated).run := by
  unfold commitFinal
  refine runs_ofResult_bind fun _ _ => ?_
  refine .op (by intro l hl; cases hl; exact kernel_lt (by decide))
    (by simp [locking, Op.isAwait]) fun context => ?_
  have hboth : ∀ g ∈ locking.after [.kernel] ⟨.lockContext, context⟩, g < RuntimeLock.events := by
    intro g hg
    have hrank : g = .semanticContext ∨ g = .kernel := by
      simpa [locking, Locking.after, takenGuard, givenGuard] using hg
    rcases hrank with rfl | rfl <;> exact RuntimeLock.lt_def.mpr (by decide)
  refine .outcomeE (n := 1) (runs_ofResult_bind fun _ _ => runs_appendForAttempt hboth)
    fun appended => ?_
  exact .op (n := 0) (by simp [locking, Op.lock]) (by simp [locking, Op.isAwait]) fun _ =>
    runs_ofResult appended

theorem runs_acceptModelFinal (observation : ModelAuthorityObservation) (attemptId : Nat)
    (now : DateTime) :
    locking.Runs [] [] 5 (rt.acceptModelFinal observation attemptId now).run := by
  unfold acceptModelFinal
  exact runs_rejectIf_bind (runs_commitActiveChain (runs_commitFinal observation attemptId))

theorem runs_executeAuthorized (attemptId : Nat) (authorized : AuthorizedExecution)
    (artifact : R1AuthorizationArtifact) :
    locking.Runs [] [] 15 (rt.executeAuthorized attemptId authorized artifact).run := by
  unfold executeAuthorized
  refine runs_append_bind (runs_append_bind (runs_free_bind rfl fun inserted => ?_))
  rcases inserted with error | ⟨⟩
  · exact runs_failWith
  refine runs_free_bind rfl fun _ => ?_
  refine .outcomeE (n := 10) (runs_execute _ _ _) fun executed => ?_
  rcases executed with ⟨error, position⟩ | output
  · cases position <;> exact runs_failWith
  · dsimp only
    split <;> exact runs_append_bind (.pureE _)

theorem runs_runToolCall (context : SemanticContext) (attemptId : Nat)
    (proposal : ToolCallProposal) :
    locking.Runs [] [] 24 (rt.runToolCall context attemptId proposal).run := by
  unfold runToolCall
  refine runs_append_bind (runs_free_bind rfl fun leaseId => runs_free_bind rfl fun now => ?_)
  refine .outcomeE (n := 5) (runs_authorize _) fun authorized => ?_
  rcases authorized with error | ⟨authorized, artifact⟩
  · exact runs_failWith
  refine .outcomeE (n := 1) runs_reserveBudget fun reserved => ?_
  rcases reserved with error | ⟨⟩
  · exact runs_failWith
  · exact rt.runs_executeAuthorized attemptId authorized artifact

theorem runs_runFinal (observation : ModelAuthorityObservation) (attemptId : Nat)
    (result : FinalResult) :
    locking.Runs [] [] 7 (rt.runFinal observation attemptId result).run := by
  unfold runFinal
  refine runs_free_bind rfl fun now => ?_
  refine .outcomeE (n := 5) (rt.runs_acceptModelFinal observation attemptId now) fun accepted => ?_
  rcases accepted with error | ⟨⟩
  · exact runs_failWith
  · exact (Locking.Runs.pureE _).mono (by omega)

theorem runs_handleResponse (context : SemanticContext) (observation : ModelAuthorityObservation)
    (attemptId : Nat) (response : ModelResponse) :
    locking.Runs [] [] 25 (rt.handleResponse context observation attemptId response).run := by
  unfold handleResponse
  split
  · exact runs_failWith
  refine runs_append_bind ?_
  split
  · exact (rt.runs_runFinal observation attemptId _).mono (by omega)
  · exact rt.runs_runToolCall context attemptId _

theorem runs_runOnce : locking.Runs [] [] 33 rt.runOnce.run := by
  unfold runOnce
  refine runs_free_bind rfl fun context => runs_free_bind rfl fun now => ?_
  refine .bindE (n := 3) (rt.runs_observeModelAuthority context now) fun observation => ?_
  refine .bindE (n := 1) runs_reserveBudget fun _ => runs_ofResult_bind fun instruction _ => ?_
  refine runs_free_bind rfl fun attemptId => runs_free_bind rfl fun response => ?_
  cases response with
  | error error => exact runs_failWith
  | ok response => exact rt.runs_handleResponse context observation attemptId response

-- the control plane

theorem runs_kernelOp {op : KernelOp} {n : Nat} : locking.Runs [] [] (n + 1) (kernelOp op).run :=
  runs_free_bind rfl fun _ => runs_ofResult_bind fun _ _ =>
    (Locking.Runs.pureE _).mono (Nat.zero_le n)

/-- The calls that read the active lease and perform one operation on it. -/
theorem runs_controlActive {n : Nat} (op : LeaseSnapshot → DateTime → KernelOp) :
    locking.Runs [] [] (n + 4) (do
      let active ← activeLeaseSnapshot
      kernelOp (op active (← perform .utcNow)) : RuntimeM ControlReturn).run :=
  .bindE (n := 2) runs_activeLeaseSnapshot fun _ => runs_free_bind rfl fun _ => runs_kernelOp

theorem runs_renew (expiresAt : DateTime) : locking.Runs [] [] 7 (renew expiresAt).run := by
  unfold renew
  refine .bindE (n := 2) runs_activeLeaseSnapshot fun active => ?_
  refine runs_free_bind rfl fun refreshed => runs_ofResult_bind fun liveManifest _ => ?_
  refine runs_free_bind rfl fun context => runs_ofResult_bind fun contextDigest _ => ?_
  refine runs_free_bind rfl fun now => .bindE (n := 1) runs_kernelOp fun returned => ?_
  split
  · exact runs_call_bind rfl fun _ => .pureE _
  · exact (Locking.Runs.pureE _).mono (by omega)

end R1Runtime

/-- Every call of a runtime is disciplined. -/
theorem disciplined (rt : R1Runtime) : locking.Disciplined rt.system 33 where
  runs call := by
    cases call with
    | runOnce => exact .map rt.runs_runOnce
    | pause => exact .map (R1Runtime.runs_controlActive _)
    | resume => exact .map (R1Runtime.runs_controlActive _)
    | revoke reason => exact .map (R1Runtime.runs_controlActive _)
    | renew expiresAt => exact .map ((R1Runtime.runs_renew expiresAt).mono (by omega))
    | refreshExpirations => exact .map (runs_free_bind rfl fun now => R1Runtime.runs_kernelOp)
    | kernelOp op => exact .map R1Runtime.runs_kernelOp
    | writeContext context =>
        exact .map (runs_free_bind rfl fun _ => (Locking.Runs.pureE _).mono (by omega))
    | replaceTool replacement =>
        exact .map (runs_free_bind rfl fun _ => runs_ofResult_bind fun _ _ =>
          (Locking.Runs.pureE _).mono (by omega))
    | authorize request => exact .map ((runs_authorize request).mono (by omega))
    | execute authorized attemptId =>
        exact .map ((runs_execute rt.keyCustody authorized attemptId).mono (by omega))

-- ============================================================================
-- Guards and readers
-- ============================================================================

/-- The threads that hold the guard of a lock in the world. -/
def World.readers (w : World) : RuntimeLock → List Nat
  | .kernel => w.kernelReaders
  | .semanticContext => w.contextReaders
  | _ => []

/-- What an operation does to the readers of a lock. -/
inductive ReadersStep (l : RuntimeLock) (t : Nat) (ev : Event) (readers : List Nat) :
    List Nat → Prop where
  | taken (takes : takenGuard ev = some l) (asks : ev.op.lock = some l) :
      ReadersStep l t ev readers (t :: readers)
  | given (gives : givenGuard ev = some l) : ReadersStep l t ev readers (readers.erase t)
  | kept (keeps : givenGuard ev ≠ some l) : ReadersStep l t ev readers readers

theorem exec_readers_eq (l : RuntimeLock) (t : Nat) {o : Op} (h : o.isGuard = false)
    (input : Input) (w : World) : (Op.exec t o input w).2.readers l = w.readers l := by
  cases o with
  | lockActiveChain | lockContext | unlockKernel | unlockContext => cases h
  | kernelOp op =>
      simp only [Op.exec]
      cases op.exec input.uuid w.kernel <;> cases l <;> rfl
  | replaceTool replacement =>
      simp only [Op.exec]
      cases w.registry.replace replacement <;> cases l <;> rfl
  | reserve counter limit =>
      cases counter <;>
        · simp only [Op.exec, World.reserve]
          split <;> cases l <;> rfl
  | appendForAttempt attemptId kind =>
      simp only [Op.exec]
      split <;> cases l <;> rfl
  | insertAuthorization attemptId record =>
      simp only [Op.exec, World.onStore]
      split <;> cases l <;> rfl
  | consume recordId generation capabilities validity =>
      simp only [Op.exec, World.consume, World.onStore]
      split <;> split <;> cases l <;> rfl
  | _ => cases l <;> rfl

theorem exec_readers (l : RuntimeLock) (t : Nat) (o : Op) (input : Input) (w : World) :
    ReadersStep l t ⟨o, (Op.exec t o input w).1⟩ (w.readers l)
      ((Op.exec t o input w).2.readers l) := by
  cases hguard : o.isGuard with
  | false =>
      rw [exec_readers_eq l t hguard]
      have hgives := (keeps_of_isGuard hguard (Op.exec t o input w).1).2
      exact .kept (by rw [show givenGuard _ = none from hgives]; simp)
  | true =>
      cases o with
      | lockActiveChain leaseId generation manifest now =>
          simp only [Op.exec]
          cases validateChain w.kernel leaseId generation manifest now with
          | error e => exact .kept (by simp [givenGuard])
          | ok validated =>
              cases l <;> first | exact .taken rfl rfl | exact .kept (by simp [givenGuard])
      | lockContext =>
          cases l <;> first | exact .taken rfl rfl | exact .kept (by simp [givenGuard])
      | unlockKernel => cases l <;> first | exact .given rfl | exact .kept (by simp [givenGuard])
      | unlockContext => cases l <;> first | exact .given rfl | exact .kept (by simp [givenGuard])
      | _ => cases hguard

variable {rt : R1Runtime} {init : World} {admits : World → Op → Input → Prop}
  {maySpawn : SystemState → Call → Prop} {c : SystemState}

theorem Bootstrapped.readers (boot : Bootstrapped rt init) (l : RuntimeLock) :
    init.readers l = [] := by
  obtain ⟨mission, agentId, spec, registry, version, delegable, input, h⟩ := boot
  simp only [R1Runtime.bootstrapR2, Except.bind_eq_ok, Except.pure_eq_ok] at h
  obtain ⟨_, -, snapshot, -, modelDigest, -, resolver, -, context, -, contextDigest, -, config, -,
    keyId, -, custody, -, granted, -, kernel, -, _, -, h⟩ := h
  cases h
  cases l <;> rfl

/-- The readers of a lock are threads that hold its guard, none of them twice. -/
theorem readers_hold (boot : Bootstrapped rt init) (run : Run rt.system init admits maySpawn c)
    (l : RuntimeLock) :
    (c.world.readers l).Nodup ∧
      ∀ t ∈ c.world.readers l, l ∈ locking.held (historyOf c.trace t) := by
  have htraced := run.traced (I := fun entries w => (w.readers l).Nodup ∧
    ∀ t ∈ w.readers l, l ∈ locking.held (historyOf entries t)) ?_ ?_ le_rfl
  · rwa [List.take_length, Run.worldAt_length] at htraced
  · rw [boot.readers l]
    exact ⟨List.nodup_nil, fun t ht => absurd ht List.not_mem_nil⟩
  · rintro i e he ⟨hnodup, hheld⟩
    have hordered := run.ordered (disciplined rt) he
    have hstep := exec_readers l e.tid e.op e.input e.pre
    rw [congrArg Prod.fst (exec_eq run he), post_eq run he] at hstep
    -- an event of another thread changes nothing for a thread
    have hsnoc : ∀ t, historyOf (c.trace.take i ++ [e]) t
        = historyOf (c.trace.take i) t ++ if e.tid = t then [e.event] else [] :=
      fun t => historyOf_snoc e
    generalize e.post.readers l = readers at hstep ⊢
    cases hstep with
    | taken takes asks =>
        have hnone : l ∉ locking.held (historyOf (c.trace.take i) e.tid) := fun hmem =>
          lt_irrefl l (hordered.below l asks l hmem)
        refine ⟨List.nodup_cons.mpr ⟨fun hmem => hnone (hheld _ hmem), hnodup⟩, fun t ht => ?_⟩
        rw [hsnoc t]
        split
        · rw [Locking.held_snoc, Locking.after]
          refine List.mem_append_left _ ?_
          rw [show locking.takes e.event = some l from takes]
          exact List.mem_singleton_self l
        · rename_i hne
          rw [List.append_nil]
          rcases List.mem_cons.mp ht with rfl | ht
          · exact absurd rfl hne
          · exact hheld t ht
    | given gives =>
        refine ⟨hnodup.erase _, fun t ht => ?_⟩
        obtain ⟨hne, ht⟩ := hnodup.mem_erase_iff.mp ht
        rw [hsnoc t, if_neg (Ne.symm hne), List.append_nil]
        exact hheld t ht
    | kept keeps =>
        refine ⟨hnodup, fun t ht => ?_⟩
        rw [hsnoc t]
        split
        · rename_i htid
          rw [Locking.held_snoc, Locking.after]
          refine List.mem_append_right _ (List.mem_filter.mpr ⟨hheld t ht, ?_⟩)
          rw [decide_eq_true_eq]
          exact keeps
        · rw [List.append_nil]
          exact hheld t ht

/-- An operation that asks for a lock nobody holds does not have to wait. -/
theorem enabled_of_free (boot : Bootstrapped rt init) (run : Run rt.system init admits maySpawn c)
    {t : Nat} {o : Op} (hfree : c.Free locking o) : Op.enabled t o c.world := by
  have hnone (l : RuntimeLock) (hl : l ∈ o.lock) : c.world.readers l = [] := by
    rw [List.eq_nil_iff_forall_not_mem]
    intro t' ht'
    exact hfree l hl t' ((readers_hold boot run l).2 t' ht')
  cases o with
  | kernelOp op => exact hnone .kernel rfl
  | writeContext context => exact hnone .semanticContext rfl
  | _ => trivial

-- ============================================================================
-- Every call returns
-- ============================================================================

/-- In every interleaving: a lock is asked for only above all those held, and no guard is
    kept while the model or Nexus runs; a call that has not returned never has to wait for
    ever, since some call can always go on, its lock being free; no call takes more than 33
    steps of its own, so no run has more than so many for each of its calls; and, where the
    environment always has an answer, every run can be continued until all its calls have
    returned. -/
theorem every_call_returns (boot : Bootstrapped rt init)
    (run : Run rt.system init admits maySpawn c) :
    (∀ i e, c.trace[i]? = some e → locking.Ordered (historyOf (c.trace.take i) e.tid) e.op) ∧
    ((∃ thread ∈ c.threads, ¬ thread.Returned) →
      ∃ (t : Nat) (thread : Thread Op Call Outcome Op.Resp) (o : Op)
        (k : o.Resp → Prog Op Op.Resp Outcome), c.threads[t]? = some thread ∧
        thread.prog = .op o k ∧ c.Free locking o ∧ Op.enabled t o c.world) ∧
    (∀ t thread, c.threads[t]? = some thread → (historyOf c.trace t).length ≤ 33) ∧
    c.trace.length ≤ c.threads.length * 33 ∧
    ((∀ w o, ∃ input, admits w o input) → ∃ c', c.GoesOn rt.system admits c' ∧
      ∀ thread ∈ c'.threads, thread.Returned) := by
  refine ⟨fun i e he => run.ordered (disciplined rt) he, ?_,
    fun t thread hthread => run.length_historyOf_le (disciplined rt) hthread,
    run.length_trace_le (disciplined rt), fun hadmits => ?_⟩
  · intro hpending
    obtain ⟨t, thread, o, k, hthread, hprog, hfree⟩ := run.exists_free (disciplined rt) hpending
    exact ⟨t, thread, o, k, hthread, hprog, hfree, enabled_of_free boot run hfree⟩
  · exact run.exists_completed (disciplined rt)
      (fun run' t _ hfree => enabled_of_free (t := t) boot run' hfree) hadmits

omit [Externals] in
/-- While a turn of the reference runtime accepts its final message, a revocation has to wait for
    it; the turn can go on, and both come to return. -/
theorem every_call_returns_reference : letI := Reference.externals
    ∃ (rt : R1Runtime) (init : World) (c c' : SystemState) (p : Prog Op Op.Resp Outcome) (b : Nat)
      (op : KernelOp) (k : Op.Resp (.kernelOp op) → Prog Op Op.Resp Outcome),
      Bootstrapped rt init ∧ Run rt.system init (fun _ _ _ => True) (fun _ _ => True) c ∧
      c.threads = [⟨.runOnce, 0, p⟩, ⟨.revoke "done", b, .op (.kernelOp op) k⟩] ∧
      ¬ Op.enabled 1 (.kernelOp op) c.world ∧
      (∃ o k, p = .op o k ∧ c.Free locking o ∧ Op.enabled 0 o c.world) ∧
      c.GoesOn rt.system (fun _ _ _ => True) c' ∧
      c'.threads.map Thread.call = [.runOnce, .revoke "done"] ∧
      (∀ thread ∈ c'.threads, thread.Returned) ∧
      ∀ t thread, c'.threads[t]? = some thread → (historyOf c'.trace t).length ≤ 33 := by
  let := Reference.externals
  obtain ⟨rt, w, tool, ⟨act⟩⟩ := Reference.exists_activated
  have allows : Reference.Allows (fun _ _ _ => True) w :=
    ⟨fun _ _ _ _ => trivial, fun _ _ _ _ => trivial⟩
  obtain ⟨c, p, b, op, k, run, hthreads, hreader⟩ :=
    act.exists_contended (fun _ _ => True) allows trivial fun _ => trivial
  have hwaits (t : Nat) : ¬ Op.enabled t (.kernelOp op) c.world := by
    intro hreaders
    rw [show c.world.kernelReaders = [] from hreaders] at hreader
    cases hreader
  obtain ⟨-, hfree, -, -, hcompletes⟩ := every_call_returns act.bootstrapped run
  -- the call that can go on is the turn
  have hgoes : ∃ o k, p = .op o k ∧ c.Free locking o ∧ Op.enabled 0 o c.world := by
    obtain ⟨t, thread, o, k', hthread, hprog, hfree, henabled⟩ :=
      hfree ⟨⟨.revoke "done", b, .op (.kernelOp op) k⟩, by simp [hthreads],
        by simp [Thread.Returned]⟩
    rw [hthreads] at hthread
    match t, hthread with
    | 0, h =>
        cases h
        exact ⟨o, k', hprog, hfree, henabled⟩
    | 1, h =>
        cases h
        cases hprog
        exact absurd henabled (hwaits 1)
  obtain ⟨c', goes, hreturned⟩ := hcompletes fun _ _ => ⟨Reference.input "", trivial⟩
  exact ⟨rt, w, c, c', p, b, op, k, act.bootstrapped, run, hthreads, hwaits 1, hgoes, goes,
    by rw [goes.calls_eq, hthreads]; rfl, hreturned,
    (every_call_returns act.bootstrapped (run.goesOn goes)).2.2.1⟩

end

end GenesisRuntime
