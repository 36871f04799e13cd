/-
  GenesisRuntime.Runtime.Feasible

  What a turn can come to.  Where the authority, the context and the budgets are in
  order and the environment refuses nothing, a turn gets to the answer of its model;
  a final message is accepted, and a tool call that passes the gate gets to Nexus.
  Where the chain does not validate any more, both are refused.
-/

import GenesisRuntime.Context.Continuation
import GenesisRuntime.Runtime.Checks
import GenesisRuntime.Runtime.Trace

namespace GenesisRuntime

open Prog (Can outcomeOf)

section
variable [Externals]

-- ============================================================================
-- Rules
-- ============================================================================

section
variable {α β : Type} {R : World → (o : Op) → o.Resp → World → Prop} {h : History}
  {w w' : World} {Q : History → World → Prog Op Op.Resp (Result β) → Prop}

theorem Can.ofResultE {x : Result α} {a : α} {f : α → RuntimeM β} (hx : x = .ok a)
    (after : Can R Q h w (f a).run) : Can R Q h w ((ofResult x : RuntimeM α) >>= f).run := by
  subst hx
  exact after

theorem Can.ofResult_lastE {x : Result β} (here : Can R Q h w (.ret x)) :
    Can R Q h w (ofResult x : RuntimeM β).run := by
  cases x with
  | ok b => exact here
  | error e => exact here

theorem Can.rejectIfE {bad : Prop} [Decidable bad] {code : ErrorCode} {message : String}
    {f : Unit → RuntimeM β} (hgood : ¬ bad) (after : Can R Q h w (f ()).run) :
    Can R Q h w ((rejectIf bad code message : RuntimeM Unit) >>= f).run := by
  rw [rejectIf, if_neg hgood]
  exact after

theorem Can.orRejectE {o : Option α} {a : α} {code : ErrorCode} {message : String}
    {f : α → RuntimeM β} (ho : o = some a) (after : Can R Q h w (f a).run) :
    Can R Q h w ((orReject code message o : RuntimeM α) >>= f).run := by
  subst ho
  exact after

/-- An operation whose failure is passed on succeeds. -/
theorem Can.callE {o : Op} {r : o.Resp} {x : o.Resp → Result α} {a : α} {f : α → RuntimeM β}
    (offered : R w o r w') (hx : x r = .ok a)
    (after : Can R Q (h ++ [⟨o, r⟩]) w' (f a).run) :
    Can R Q h w ((do ofResult (x (← perform o)) : RuntimeM α) >>= f).run :=
  .op offered (Can.ofResultE hx after)

end

-- ============================================================================
-- An environment that refuses nothing
-- ============================================================================

/-- Operations that wait for a write lock. -/
def Op.waits : Op → Bool
  | .kernelOp _ | .writeContext _ => true
  | _ => false

theorem Op.enabled_of_not_waits {t : Nat} {o : Op} {w : World} (h : o.waits = false) :
    o.enabled t w := by
  cases o with
  | kernelOp | writeContext => cases h
  | _ => trivial

section
variable {t : Nat} {input : Input} {w : World} {leaseId : LeaseId} {generation : Option Nat}
  {manifest : CapabilityManifest} {now : DateTime}

/-- A validation that succeeds takes the read guard. -/
theorem exec_lockActiveChain {validated : ValidatedAuthority}
    (h : validateChain w.kernel leaseId generation manifest now = .ok validated) :
    Op.exec t (.lockActiveChain leaseId generation manifest now) input w
      = (.ok validated, { w with kernelReaders := t :: w.kernelReaders }) := by
  simp only [Op.exec, h]

theorem exec_lockActiveChain_error {error : RuntimeError}
    (h : validateChain w.kernel leaseId generation manifest now = .error error) :
    Op.exec t (.lockActiveChain leaseId generation manifest now) input w = (.error error, w) := by
  simp only [Op.exec, h]

end

/-- A record that is new is inserted. -/
theorem exec_insertAuthorization (input : Input) {t : Nat} {w : World} {attemptId : Nat}
    {record : AuthorizationRecord} (hattempt : attemptId ≠ 0)
    (hnew : record.recordId ∉ w.store.authorizationRecords.map AuthorizationRecord.recordId) :
    ∃ store, Op.exec t (.insertAuthorization attemptId record) input w
        = (.ok (), { w with store := store }) ∧
      store.authorizationRecords = w.store.authorizationRecords ++ [record] := by
  obtain ⟨store, hinsert, hrecords⟩ : ∃ store,
      InMemoryMissionStore.insertAuthorizationForAttempt attemptId record w.store = .ok () store ∧
      store.authorizationRecords = w.store.authorizationRecords ++ [record] :=
    ⟨_, InMemoryMissionStore.insertAuthorizationForAttempt_eq_ok.mpr
      ⟨hattempt, InMemoryMissionStore.insertAuthorizationInner_eq_ok.mpr ⟨hnew, rfl⟩⟩, rfl⟩
  refine ⟨store, ?_, hrecords⟩
  simp only [Op.exec, World.onStore, hinsert]

theorem find_inserted {records : List AuthorizationRecord} {record : AuthorizationRecord}
    (hnew : record.recordId ∉ records.map AuthorizationRecord.recordId) :
    (records ++ [record]).find? (fun r => r.recordId = record.recordId) = some record := by
  have hnone : records.find? (fun r => r.recordId = record.recordId) = none := by
    refine List.find?_eq_none.mpr fun r hr hid => hnew ?_
    rw [← of_decide_eq_true hid]
    exact List.mem_map_of_mem hr
  rw [List.find?_append, hnone, Option.none_or, List.find?_cons_of_pos (by simp)]

/-- One input that can be fed into every operation that does not wait. -/
structure Favourable (admits : World → Op → Input → Prop) (input : Input) : Prop where
  admitted : ∀ w o, o.waits = false → admits w o input
  appends : input.appendError = none
  nexus : input.hypervisorFails = false
  tokens : ∀ i, input.tokenFails i = false

section
variable {rt : R1Runtime} {admits : World → Op → Input → Prop} {input : Input}
  (favours : Favourable admits input) {t : Nat} {h : History} {w w' : World}
include favours

theorem Favourable.offers {o : Op} {r : o.Resp} (hwaits : o.waits = false)
    (hexec : Op.exec t o input w = (r, w')) : rt.system.Offers admits t w o r w' :=
  ⟨Op.enabled_of_not_waits (t := t) hwaits, input, favours.admitted w o hwaits, hexec⟩

/-- An event is recorded. -/
theorem Favourable.can_append {Q : History → World → Prog Op Op.Resp (Result Unit) → Prop}
    {attemptId : Nat} {kind : MissionEventKind}
    (after : Can (rt.system.Offers admits t) Q (h ++ [⟨.appendForAttempt attemptId kind, .ok ()⟩])
      { w with store := w.store.appendForAttempt attemptId kind input.now } (.ret (.ok ()))) :
    Can (rt.system.Offers admits t) Q h w (appendForAttempt attemptId kind).run := by
  have hexec : Op.exec t (.appendForAttempt attemptId kind) input w
      = (.ok (), { w with store := w.store.appendForAttempt attemptId kind input.now }) := by
    simp only [Op.exec, favours.appends]
  exact Can.opE (favours.offers rfl hexec) after

theorem Favourable.appendE {β : Type} {Q : History → World → Prog Op Op.Resp (Result β) → Prop}
    {attemptId : Nat} {kind : MissionEventKind} {f : Unit → RuntimeM β}
    (after : Can (rt.system.Offers admits t) Q (h ++ [⟨.appendForAttempt attemptId kind, .ok ()⟩])
      { w with store := w.store.appendForAttempt attemptId kind input.now } (f ()).run) :
    Can (rt.system.Offers admits t) Q h w (appendForAttempt attemptId kind >>= f).run :=
  Can.bindE (favours.can_append (.stop ⟨(), rfl, after⟩))

/-- A reservation is granted. -/
theorem Favourable.can_reserve {Q : History → World → Prog Op Op.Resp (Result Unit) → Prop}
    {counter : BudgetCounter} {limit : UInt64} {budgetName : String}
    (hreserve : w.reserve counter limit = (true, w'))
    (after : Can (rt.system.Offers admits t) Q (h ++ [⟨.reserve counter limit, true⟩]) w'
      (.ret (.ok ()))) :
    Can (rt.system.Offers admits t) Q h w (reserveBudget counter limit budgetName).run :=
  Can.opE (favours.offers rfl hreserve) after

end

-- ============================================================================
-- The control plane
-- ============================================================================

section
variable {rt : R1Runtime} {admits : World → Op → Input → Prop} {input : Input} {t : Nat}
  {h : History} {w : World}

/-- Where no read guard is held, an operation of the kernel is performed. -/
theorem can_kernelOp {op : KernelOp} {returned : KernelReturn} {s' : AuthorityState}
    (admitted : admits w (.kernelOp op) input) (hreaders : w.kernelReaders = [])
    (hexec : op.exec input.uuid w.kernel = .ok returned s')
    {Q : History → World → Prog Op Op.Resp (Result R1Runtime.ControlReturn) → Prop}
    (after : Can (rt.system.Offers admits t) Q (h ++ [⟨.kernelOp op, .ok returned⟩])
      { w with kernel := s' } (.ret (.ok (.kernel returned)))) :
    Can (rt.system.Offers admits t) Q h w (R1Runtime.kernelOp op).run := by
  have hstep : Op.exec t (.kernelOp op) input w = (.ok returned, { w with kernel := s' }) := by
    simp only [Op.exec, hexec]
  exact Can.opE ⟨hreaders, input, admitted, hstep⟩ after

variable (favours : Favourable admits input) {lease : LeaseSnapshot}
  (hlookup : w.kernel.leases.lookup w.kernel.rootLeaseId = some lease)
include favours hlookup

/-- The active lease is read. -/
theorem Favourable.activeLeaseE {β : Type} {f : LeaseSnapshot → RuntimeM β}
    {Q : History → World → Prog Op Op.Resp (Result β) → Prop}
    (after : ∀ h', Can (rt.system.Offers admits t) Q h' w (f lease).run) :
    Can (rt.system.Offers admits t) Q h w (R1Runtime.activeLeaseSnapshot >>= f).run := by
  have hsnapshot : w.leaseSnapshot w.kernel.rootLeaseId = .ok lease := orReject_eq_ok.mpr hlookup
  refine Can.bindE (Can.opE (favours.offers rfl rfl) (Can.op (favours.offers rfl rfl)
    (Can.ofResult_lastE (.stop ⟨lease, congrArg Prog.ret hsnapshot, after _⟩))))

/-- A call of the control plane gets to its operation on the active lease. -/
theorem Favourable.can_manage (order : LeaseSnapshot → DateTime → KernelOp)
    {Q : History → World → Prog Op Op.Resp (Result R1Runtime.ControlReturn) → Prop}
    (after : ∀ h', Can (rt.system.Offers admits t) Q h' w
      (R1Runtime.kernelOp (order lease input.now)).run) :
    Can (rt.system.Offers admits t) Q h w (do
      let active ← R1Runtime.activeLeaseSnapshot
      R1Runtime.kernelOp (order active (← perform .utcNow)) :
        RuntimeM R1Runtime.ControlReturn).run :=
  favours.activeLeaseE hlookup fun _ => Can.opE (favours.offers rfl rfl) (after _)

end

/-- A lease that is not active does not validate. -/
theorem exists_error_of_state {s : AuthorityState} {leafId : LeaseId} {entry : LeaseEntry}
    (hlookup : s.leases.lookup leafId = some entry) (hstate : entry.record.state ≠ .active)
    (generation : Option Nat) (manifest : CapabilityManifest) (now : DateTime) :
    ∃ error, validateChain s leafId generation manifest now = .error error := by
  cases hvalid : validateChain s leafId generation manifest now with
  | error error => exact ⟨error, rfl⟩
  | ok validated =>
      obtain ⟨leaf, path, hchain⟩ := validateChain_sound hvalid
      obtain rfl := Option.some.inj (hchain.entry_eq.symm.trans hlookup)
      exact absurd (hchain.active hchain.leaf_mem).1 hstate

-- ============================================================================
-- Up to the answer of the model
-- ============================================================================

/-- What a turn finds in order when it starts. -/
structure Ready (rt : R1Runtime) (w : World) (now : DateTime) where
  lease : LeaseSnapshot
  validated : ValidatedAuthority
  instruction : String
  usable : rt.mission.isUsableAt now = true
  lookup : w.kernel.leases.lookup w.kernel.rootLeaseId = some lease
  isRoot : lease.certificate.leaseId = w.kernel.rootLeaseId
  isBound : boundTo lease.certificate rt.agentId rt.mission
  valid : validateChain w.kernel w.kernel.rootLeaseId (some lease.record.generation)
    lease.manifest now = .ok validated
  context : w.semanticContext.canonicalDigest = .ok validated.semanticContextDigest
  steps : w.stepsConsumed < rt.spec.resourceBudget.maxSteps
  instruction_eq : resolvedSystemInstruction rt.spec = .ok instruction

/-- What a turn leaves as it is on its way to its action. -/
structure Keeps (w w' : World) : Prop where
  kernel : w'.kernel = w.kernel
  readers : w'.kernelReaders = w.kernelReaders
  registry : w'.registry = w.registry
  semanticContext : w'.semanticContext = w.semanticContext
  records : w'.store.authorizationRecords = w.store.authorizationRecords

theorem Keeps.refl (w : World) : Keeps w w := ⟨rfl, rfl, rfl, rfl, rfl⟩

theorem Keeps.trans {w w' w'' : World} (h : Keeps w w') (h' : Keeps w' w'') : Keeps w w'' where
  kernel := h'.kernel.trans h.kernel
  readers := h'.readers.trans h.readers
  registry := h'.registry.trans h.registry
  semanticContext := h'.semanticContext.trans h.semanticContext
  records := h'.records.trans h.records

/-- A turn has begun its attempt, for which it has used a step. -/
structure Begun (w w' : World) : Prop extends Keeps w w' where
  nextAttemptId : w'.store.nextAttemptId = w.store.nextAttemptId + 1
  events : w'.store.events = w.store.events
  steps : w'.stepsConsumed = w.stepsConsumed + 1
  actions : w'.actionsConsumed = w.actionsConsumed

/-- One event of an attempt has been recorded. -/
def Adds (w w' : World) (attemptId : Nat) (kind : MissionEventKind) : Prop :=
  ∃ event, w'.store.events = w.store.events ++ [event] ∧ event.attemptId = some attemptId ∧
    event.kind = kind

theorem Adds.of_append {w w' : World} {store : InMemoryMissionStore} {attemptId : Nat}
    {kind : MissionEventKind} {now : DateTime} (hevents : store.events = w.store.events)
    (hstore : w'.store = store.appendForAttempt attemptId kind now) :
    Adds w w' attemptId kind := by
  rw [Adds, hstore, ← hevents]
  exact ⟨_, rfl, rfl, rfl⟩

namespace Ready

section
variable {rt : R1Runtime} {w : World} {now : DateTime} (ready : Ready rt w now)

/-- What the turn observes. -/
def observation : ModelAuthorityObservation := ⟨ready.lease, ready.validated⟩

theorem snapshot_eq : w.leaseSnapshot w.kernel.rootLeaseId = .ok ready.lease :=
  orReject_eq_ok.mpr ready.lookup

/-- All is still in order as long as there is a step left. -/
def of_keeps {w' : World} (keeps : Keeps w w')
    (steps : w'.stepsConsumed < rt.spec.resourceBudget.maxSteps) : Ready rt w' now where
  lease := ready.lease
  validated := ready.validated
  instruction := ready.instruction
  usable := ready.usable
  lookup := by rw [keeps.kernel]; exact ready.lookup
  isRoot := by rw [keeps.kernel]; exact ready.isRoot
  isBound := ready.isBound
  valid := by rw [keeps.kernel]; exact ready.valid
  context := by rw [keeps.semanticContext]; exact ready.context
  steps := steps
  instruction_eq := ready.instruction_eq

end

variable {rt : R1Runtime} {admits : World → Op → Input → Prop} {input : Input}
  (favours : Favourable admits input) {t : Nat} {h : History} {w : World}
  (ready : Ready rt w input.now)
include favours

theorem can_observe
    {Q : History → World → Prog Op Op.Resp (Result ModelAuthorityObservation) → Prop}
    (after : ∀ h', Can (rt.system.Offers admits t) Q h' w (.ret (.ok ready.observation))) :
    Can (rt.system.Offers admits t) Q h w
      (rt.observeModelAuthority w.semanticContext input.now).run := by
  unfold R1Runtime.observeModelAuthority
  refine Can.rejectIfE (not_not.mpr ready.usable) (favours.activeLeaseE ready.lookup fun h' => ?_)
  refine Can.rejectIfE (not_not.mpr ready.isBound) ?_
  refine Can.callE (favours.offers rfl rfl) (a := ready.validated) ?_ ?_
  · rw [ready.isRoot]
    exact ready.valid
  · exact Can.ofResultE (validateContextContinuation_eq_ok.mpr ready.context) (after _)

/-- A turn that finds all in order gets the answer of its model. -/
theorem can_respond {response : ModelResponse} (hmodel : input.model = .ok response)
    {Q : History → World → Prog Op Op.Resp (Result RunOutcome) → Prop}
    (after : ∀ request h' w', (⟨.generate request, .ok response⟩ : Event) ∈ h' → Begun w w' →
      Can (rt.system.Offers admits t) Q h' w' (rt.handleResponse w.semanticContext
        ready.observation (w.store.nextAttemptId + 1) response).run) :
    Can (rt.system.Offers admits t) Q h w rt.runOnce.run := by
  have hreserve : w.reserve .steps rt.spec.resourceBudget.maxSteps
      = (true, { w with stepsConsumed := w.stepsConsumed + 1 }) := by
    simp only [World.reserve, if_pos ready.steps]
  have hgenerate (request : ModelRequest) (w' : World) :
      Op.exec t (.generate request) input w' = (.ok response, w') := by
    simp only [Op.exec, hmodel]
  unfold R1Runtime.runOnce
  refine Can.opE (favours.offers rfl rfl) (Can.opE (favours.offers rfl rfl) ?_)
  refine Can.bindE (ready.can_observe favours fun h' => .stop ⟨_, rfl, ?_⟩)
  refine Can.bindE (favours.can_reserve hreserve (.stop ⟨_, rfl, ?_⟩))
  refine Can.ofResultE ready.instruction_eq ?_
  exact Can.opE (favours.offers rfl rfl) (Can.opE (favours.offers rfl (hgenerate _ _))
    (after _ _ _ (List.mem_append_right _ List.mem_cons_self)
      ⟨⟨rfl, rfl, rfl, rfl, rfl⟩, rfl, rfl, rfl, rfl⟩))

/-- A turn whose model ends with a final message gets to its acceptance. -/
theorem can_final {response : ModelResponse} {final : FinalResult}
    (hmodel : input.model = .ok response)
    (hparsed : rt.protocolGate.parse response.rawOutput = .ok (.final final))
    {Q : History → World → Prog Op Op.Resp (Result RunOutcome) → Prop}
    (after : ∀ request h' w', (⟨.generate request, .ok response⟩ : Event) ∈ h' → Keeps w w' →
      w'.store.nextAttemptId = w.store.nextAttemptId + 1 →
      Adds w w' (w.store.nextAttemptId + 1) .protocolAccepted →
      w'.stepsConsumed = w.stepsConsumed + 1 → Can (rt.system.Offers admits t) Q h' w'
        (rt.runFinal ready.observation (w.store.nextAttemptId + 1) final).run) :
    Can (rt.system.Offers admits t) Q h w rt.runOnce.run := by
  refine ready.can_respond favours hmodel fun request h' w' hmem begun => ?_
  unfold R1Runtime.handleResponse
  rw [hparsed]
  exact favours.appendE (after request _ _ (List.mem_append_left _ hmem)
    (begun.toKeeps.trans ⟨rfl, rfl, rfl, rfl, rfl⟩) begun.nextAttemptId
    (.of_append begun.events rfl) begun.steps)

end Ready

/-- A turn that finds the chain of its lease not valid fails. -/
theorem Favourable.can_turnAway {rt : R1Runtime} {admits : World → Op → Input → Prop}
    {input : Input} (favours : Favourable admits input) {t : Nat} {h : History} {w : World}
    {lease : LeaseSnapshot} {error : RuntimeError}
    (husable : rt.mission.isUsableAt input.now = true)
    (hlookup : w.kernel.leases.lookup w.kernel.rootLeaseId = some lease)
    (hbound : boundTo lease.certificate rt.agentId rt.mission)
    (hvalid : validateChain w.kernel lease.certificate.leaseId (some lease.record.generation)
      lease.manifest input.now = .error error)
    {Q : History → World → Prog Op Op.Resp (Result RunOutcome) → Prop}
    (after : ∀ h', Can (rt.system.Offers admits t) Q h' w (.ret (.error error))) :
    Can (rt.system.Offers admits t) Q h w rt.runOnce.run := by
  unfold R1Runtime.runOnce R1Runtime.observeModelAuthority
  refine Can.opE (favours.offers rfl rfl) (Can.opE (favours.offers rfl rfl) (Can.bind_errorE ?_))
  refine Can.rejectIfE (not_not.mpr husable) (favours.activeLeaseE hlookup fun h' => ?_)
  refine Can.rejectIfE (not_not.mpr hbound) ?_
  exact Can.opE (favours.offers rfl (congrArg (·, w) hvalid)) (.stop ⟨error, rfl, after _⟩)

-- ============================================================================
-- A final message
-- ============================================================================

section
variable {rt : R1Runtime} {admits : World → Op → Input → Prop} {input : Input}
  (favours : Favourable admits input) {t : Nat} {h : History} {w : World} {attemptId : Nat}
include favours

variable {observation : ModelAuthorityObservation} {final : FinalResult}
  (husable : rt.mission.isUsableAt input.now = true)
include husable

/-- It is accepted where the chain validates as it was observed. -/
theorem Favourable.can_accept (hvalid : validateChain w.kernel
      observation.lease.certificate.leaseId (some observation.lease.record.generation)
      observation.lease.manifest input.now = .ok observation.validated)
    (hcontext : w.semanticContext.canonicalDigest
      = .ok observation.validated.semanticContextDigest)
    {Q : History → World → Prog Op Op.Resp (Result RunOutcome) → Prop}
    (after : ∀ h' w', (⟨.appendForAttempt attemptId .finalProduced, .ok ()⟩ : Event) ∈ h' →
      Keeps w w' → Adds w w' attemptId .finalProduced →
      Can (rt.system.Offers admits t) Q h' w' (.ret (.ok (.final final)))) :
    Can (rt.system.Offers admits t) Q h w (rt.runFinal observation attemptId final).run := by
  have hunchanged : observation.checkUnchanged observation.validated = .ok () := by
    simp [ModelAuthorityObservation.checkUnchanged, Except.bind_eq_ok]
  unfold R1Runtime.runFinal
  refine Can.opE (favours.offers rfl rfl) (Can.outcomeE ?_)
  unfold R1Runtime.acceptModelFinal AuthorityKernel.commitActiveChain
  refine Can.rejectIfE (not_not.mpr husable) ?_
  refine Can.opE (favours.offers rfl (exec_lockActiveChain hvalid))
    (Can.ofResultE rfl (Can.outcomeE ?_))
  unfold R1Runtime.commitFinal
  refine Can.ofResultE hunchanged (Can.opE (favours.offers rfl rfl) (Can.outcomeE ?_))
  refine Can.ofResultE (validateContextContinuation_eq_ok.mpr hcontext) ?_
  refine favours.can_append (.stop ⟨_, rfl, ?_⟩)
  refine Can.opE (favours.offers rfl rfl) (.stop ⟨_, rfl, ?_⟩)
  exact Can.opE (favours.offers rfl rfl) (.stop ⟨_, rfl, after _ _ (by simp)
    ⟨rfl, List.erase_cons_head .., rfl, rfl, rfl⟩ (.of_append rfl rfl)⟩)

/-- It is refused where the chain does not validate any more. -/
theorem Favourable.can_refuse {error : RuntimeError} (hvalid : validateChain w.kernel
      observation.lease.certificate.leaseId (some observation.lease.record.generation)
      observation.lease.manifest input.now = .error error)
    {Q : History → World → Prog Op Op.Resp (Result RunOutcome) → Prop}
    (after : ∀ h' w',
      (⟨.appendForAttempt attemptId (.finalRejected error.code), .ok ()⟩ : Event) ∈ h' →
      Can (rt.system.Offers admits t) Q h' w' (.ret (.error error))) :
    Can (rt.system.Offers admits t) Q h w (rt.runFinal observation attemptId final).run := by
  unfold R1Runtime.runFinal
  refine Can.opE (favours.offers rfl rfl) (Can.outcomeE ?_)
  unfold R1Runtime.acceptModelFinal AuthorityKernel.commitActiveChain
  refine Can.rejectIfE (not_not.mpr husable) ?_
  refine Can.opE (favours.offers rfl (exec_lockActiveChain_error hvalid)) (.stop ⟨_, rfl, ?_⟩)
  exact favours.appendE (after _ _ (by simp))

/-- Before that, the read guard of the kernel is held. -/
theorem Favourable.can_hold {validated : ValidatedAuthority} (hvalid : validateChain w.kernel
      observation.lease.certificate.leaseId (some observation.lease.record.generation)
      observation.lease.manifest input.now = .ok validated) :
    Can (rt.system.Offers admits t) (fun _ w' _ => t ∈ w'.kernelReaders ∧ w'.kernel = w.kernel) h w
      (rt.runFinal observation attemptId final).run := by
  unfold R1Runtime.runFinal
  refine Can.opE (favours.offers rfl rfl) ?_
  unfold R1Runtime.acceptModelFinal AuthorityKernel.commitActiveChain
  refine Can.bind (Can.bind (Can.rejectIfE (not_not.mpr husable) ?_))
  exact Can.opE (favours.offers rfl (exec_lockActiveChain hvalid))
    (.stop (.stop (.stop ⟨List.mem_cons_self, rfl⟩)))

end

-- ============================================================================
-- The gate
-- ============================================================================

/-- What the action gate reads and finds where it authorizes a request. -/
structure Passes (request : AuthorizeRequest) where
  snapshot : LeaseSnapshot
  tool : RegisteredTool
  liveManifest : CapabilityManifest
  validated : ValidatedAuthority
  manifestDigest : Digest
  target : ActionTarget
  authorizationUuid : String
  authorizationId : AuthorizationId
  certificateUuid : String
  certificateId : CertificateId
  usable : request.mission.isUsableAt request.now = true
  toolAllowed : request.proposalToolId ∈ request.mission.allowedTools
  manifestDigest_eq : tool.manifestDigest = .ok manifestDigest
  bound : snapshot.manifest.approvedTools.find? (fun bound => bound.toolId = request.proposalToolId)
    = some ⟨request.proposalToolId, manifestDigest⟩
  isBound : boundTo snapshot.certificate request.agentId request.mission
  context_eq : request.currentContext.canonicalDigest = .ok validated.semanticContextDigest
  checked : request.checkTool snapshot tool = .ok ()
  target_eq : ActionTarget.new request.proposalToolId.value = .ok target
  authorizationId_eq : Identifier.new _ ("auth-" ++ authorizationUuid) = .ok authorizationId
  certificateId_eq : Identifier.new _ ("cert-" ++ certificateUuid) = .ok certificateId
  signs : request.keyCustody.Signs

theorem Passes.not_ended {request : AuthorizeRequest} (pass : Passes request) :
    ¬ (¬ request.mission.active = true ∨ request.mission.expiresAt ≤ request.now) := by
  have h := pass.usable
  simp only [MissionEnvelope.isUsableAt, Bool.and_eq_true, decide_eq_true_eq] at h
  exact fun hnot => hnot.elim (absurd h.1.1) h.2.not_ge

/-- The authorization that comes of it. -/
structure Passes.Authorizes {request : AuthorizeRequest} (pass : Passes request)
    (run : Authorization request) : Prop where
  snapshot : run.snapshot = pass.snapshot
  tool : run.tool = pass.tool
  liveManifest : run.liveManifest = pass.liveManifest
  validated : run.validated = pass.validated
  authorizationId : run.authorizationId = pass.authorizationId
  signed : SignedBy request.keyCustody run.certificate

/-- Where the responses are those, the request is authorized. -/
theorem Passes.can_authorize {request : AuthorizeRequest} (pass : Passes request)
    {R : World → (o : Op) → o.Resp → World → Prop} {h : History} {w : World}
    (hsnapshot : R w (.leaseSnapshot request.leaseId) (.ok pass.snapshot) w)
    (hresolve : R w (.resolve request.proposalToolId pass.snapshot.manifest)
      (.ok (pass.tool, pass.liveManifest)) w)
    (hvalidate : R w (.validateActiveChain request.leaseId
      (some pass.snapshot.record.generation) pass.liveManifest request.now)
      (.ok pass.validated) w)
    (hauthorization : R w .newUuid pass.authorizationUuid w)
    (hcertificate : R w .newUuid pass.certificateUuid w)
    {Q : History → World →
      Prog Op Op.Resp (Result (AuthorizedExecution × R1AuthorizationArtifact)) → Prop}
    (after : ∀ run h', pass.Authorizes run →
      Can R Q h' w (.ret (.ok (run.execution, ⟨run.certificate, run.record⟩)))) :
    Can R Q h w (ActionGate.authorize request).run := by
  let action : CanonicalAction :=
    { missionId := request.mission.missionId
      effectKind := pass.tool.manifest.effectClass
      target := pass.target
      normalizedParameters := CanonicalJson.new request.arguments
      semanticScope := .mission }
  have haction : request.canonicalAction pass.tool = .ok action := by
    simp only [AuthorizeRequest.canonicalAction, Except.bind_eq_ok, Except.pure_eq_ok]
    exact ⟨_, pass.target_eq, rfl⟩
  obtain ⟨actionRef, hactionRef⟩ : ∃ ref, action.actionRef = .ok ref := by
    obtain ⟨digest, hdigest⟩ : ∃ digest,
        canonicalDigest "aeon-canonical-action-v1" action = .ok digest :=
      exists_canonicalDigest ⟨by decide, by decide⟩ action
    exact ⟨⟨digest⟩, Except.bind_eq_ok.mpr ⟨digest, hdigest, rfl⟩⟩
  obtain ⟨inputDigest, hinputDigest⟩ : ∃ digest,
      canonicalDigest "aeon-concrete-input-v1" request.arguments = .ok digest :=
    exists_canonicalDigest ⟨by decide, by decide⟩ _
  let unsigned := request.unsigned pass.snapshot pass.validated pass.manifestDigest
    pass.validated.semanticContextDigest actionRef inputDigest pass.authorizationId
    pass.certificateId
  obtain ⟨payload, hpayload⟩ : ∃ payload, unsigned.signingPayload = .ok payload :=
    exists_canonicalBytes ⟨by decide, by decide⟩ unsigned.exists_payload
  obtain ⟨signature, hsignature, -⟩ := pass.signs payload
  let run : Authorization request :=
    { snapshot := pass.snapshot
      tool := pass.tool
      liveManifest := pass.liveManifest
      validated := pass.validated
      manifestDigest := pass.manifestDigest
      action := action
      actionRef := actionRef
      inputDigest := inputDigest
      authorizationUuid := pass.authorizationUuid
      authorizationId := pass.authorizationId
      certificateUuid := pass.certificateUuid
      certificateId := pass.certificateId
      signature := signature
      toolAllowed := pass.toolAllowed
      manifestDigest_eq := pass.manifestDigest_eq
      bound := List.mem_of_find?_eq_some pass.bound
      isBound := pass.isBound
      context_eq := pass.context_eq
      checked := pass.checked
      action_eq := haction
      actionRef_eq := hactionRef
      inputDigest_eq := hinputDigest }
  unfold ActionGate.authorize
  refine Can.rejectIfE pass.not_ended (Can.rejectIfE (not_not.mpr pass.toolAllowed) ?_)
  refine Can.callE hsnapshot rfl (Can.opE hresolve (Can.ofResultE rfl ?_))
  refine Can.ofResultE pass.manifestDigest_eq (Can.orRejectE pass.bound ?_)
  refine Can.rejectIfE (not_not.mpr rfl) (Can.callE hvalidate rfl ?_)
  refine Can.rejectIfE (not_not.mpr pass.isBound) (Can.ofResultE pass.context_eq ?_)
  refine Can.rejectIfE (not_not.mpr rfl) (Can.ofResultE pass.checked ?_)
  refine Can.ofResultE haction (Can.ofResultE hactionRef (Can.ofResultE hinputDigest ?_))
  refine Can.opE hauthorization (Can.ofResultE pass.authorizationId_eq ?_)
  refine Can.opE hcertificate (Can.ofResultE pass.certificateId_eq ?_)
  refine Can.ofResultE hpayload (Can.ofResultE hsignature ?_)
  exact after run _ ⟨rfl, rfl, rfl, rfl, rfl, payload, hpayload, hsignature⟩

/-- The world is as the gate reads it. -/
structure Passes.Found {request : AuthorizeRequest} (pass : Passes request) (w : World) : Prop where
  snapshot : w.leaseSnapshot request.leaseId = .ok pass.snapshot
  tool : w.registry.resolveWithCapabilityManifest request.proposalToolId pass.snapshot.manifest
    = .ok (pass.tool, pass.liveManifest)
  chain : validateChain w.kernel request.leaseId (some pass.snapshot.record.generation)
    pass.liveManifest request.now = .ok pass.validated

theorem Passes.Found.of_keeps {request : AuthorizeRequest} {pass : Passes request} {w w' : World}
    (found : pass.Found w) (keeps : Keeps w w') : pass.Found w' where
  snapshot := by rw [World.leaseSnapshot, keeps.kernel]; exact found.snapshot
  tool := by rw [keeps.registry]; exact found.tool
  chain := by rw [keeps.kernel]; exact found.chain

/-- The chain of the authorization validates when it is executed, and neither the lease nor
    the certificate has expired. -/
theorem Passes.Found.executable {request : AuthorizeRequest} {pass : Passes request} {w : World}
    (found : pass.Found w) {run : Authorization request} (hrun : pass.Authorizes run) :
    validateChain w.kernel request.leaseId (some run.snapshot.record.generation)
        run.liveManifest request.now = .ok run.validated ∧
      request.now < run.validated.leafExpiresAt ∧ request.now < run.certificate.expiresAt := by
  have hchain : validateChain w.kernel request.leaseId (some run.snapshot.record.generation)
      run.liveManifest request.now = .ok run.validated := by
    rw [hrun.snapshot, hrun.liveManifest, hrun.validated]
    exact found.chain
  obtain ⟨leaf, path, hvalid⟩ := validateChain_sound hchain
  have hleaf : leaf = run.snapshot := by
    have hlookup := hvalid.entry_eq.symm.trans (orReject_eq_ok.mp found.snapshot)
    rw [hrun.snapshot]
    exact Option.some.inj hlookup
  have hactive := (hvalid.active hvalid.leaf_mem).2
  refine ⟨hchain, by rw [hvalid.leafExpiresAt_eq]; exact hactive, lt_min ?_ ?_⟩
  · rw [DateTime.lt_def, DateTime.add_nanos]
    exact Int.lt_add_of_pos_right _ (by decide)
  · rw [← hleaf]
    exact hactive

-- ============================================================================
-- A tool call
-- ============================================================================

section
variable {rt : R1Runtime} {admits : World → Op → Input → Prop} {input : Input}
  (favours : Favourable admits input) {t : Nat} {h : History} {w : World} {attemptId : Nat}
include favours

/-- What passes the gate is authorized. -/
theorem Favourable.can_authorize {request : AuthorizeRequest} {pass : Passes request}
    (found : pass.Found w) (hauthorization : input.uuid = pass.authorizationUuid)
    (hcertificate : input.uuid = pass.certificateUuid)
    {Q : History → World →
      Prog Op Op.Resp (Result (AuthorizedExecution × R1AuthorizationArtifact)) → Prop}
    (after : ∀ run h', pass.Authorizes run → Can (rt.system.Offers admits t) Q h' w
      (.ret (.ok (run.execution, ⟨run.certificate, run.record⟩)))) :
    Can (rt.system.Offers admits t) Q h w (ActionGate.authorize request).run := by
  refine pass.can_authorize (favours.offers rfl ?_) (favours.offers rfl ?_)
    (favours.offers rfl ?_) (favours.offers rfl ?_) (favours.offers rfl ?_) after
  · exact congrArg (·, _) found.snapshot
  · exact congrArg (·, _) found.tool
  · exact congrArg (·, _) found.chain
  · exact congrArg (·, _) hauthorization
  · exact congrArg (·, _) hcertificate

/-- A tool call that passes the gate gets to its execution. -/
theorem Favourable.can_call {context : SemanticContext} {observation : ModelAuthorityObservation}
    {response : ModelResponse} {proposal : ToolCallProposal}
    (hparsed : rt.protocolGate.parse response.rawOutput = .ok (.toolCall proposal))
    {leaseId : LeaseId} (hroot : w.kernel.rootLeaseId = leaseId)
    (pass : Passes (rt.authorizeRequest leaseId context proposal input.now))
    (found : pass.Found w) (hauthorization : input.uuid = pass.authorizationUuid)
    (hcertificate : input.uuid = pass.certificateUuid)
    (hactions : w.actionsConsumed < rt.mission.maxActions)
    {Q : History → World → Prog Op Op.Resp (Result RunOutcome) → Prop}
    (after : ∀ run h' w', pass.Authorizes run → Keeps w w' →
      Can (rt.system.Offers admits t) Q h' w' (rt.executeAuthorized attemptId run.execution
        ⟨run.certificate, run.record⟩).run) :
    Can (rt.system.Offers admits t) Q h w
      (rt.handleResponse context observation attemptId response).run := by
  unfold R1Runtime.handleResponse
  rw [hparsed]
  refine favours.appendE ?_
  unfold R1Runtime.runToolCall
  refine favours.appendE (Can.opE (favours.offers rfl (congrArg (·, _) hroot)) ?_)
  refine Can.opE (favours.offers rfl rfl) ?_
  let w' : World := { w with store := (w.store.appendForAttempt attemptId .protocolAccepted
    input.now).appendForAttempt attemptId .planAccepted input.now }
  have found' : pass.Found w' := ⟨found.snapshot, found.tool, found.chain⟩
  have hreserve : World.reserve .actions rt.mission.maxActions w' = (true, _) := if_pos hactions
  refine Can.outcomeE (favours.can_authorize (w := w') found' hauthorization hcertificate
    fun run h' hrun => ?_)
  refine .stop ⟨_, rfl, Can.outcomeE (favours.can_reserve hreserve (.stop ⟨_, rfl, ?_⟩))⟩
  exact after run _ _ hrun ⟨rfl, rfl, rfl, rfl, rfl⟩

variable {request : AuthorizeRequest} {pass : Passes request} {run : Authorization request}

/-- The commit of an execution takes the tokens. -/
theorem Favourable.can_commit (hcustody : request.keyCustody = rt.keyCustody)
    (hrun : pass.Authorizes run) (hnow : request.now = input.now) (found : pass.Found w)
    (hcontext : w.semanticContext.canonicalDigest = .ok run.validated.semanticContextDigest)
    (havailable : ∃ record, w.store.authorizationRecords.find?
      (fun r => r.recordId = run.record.recordId) = some record ∧
        InMemoryMissionStore.Available record 0)
    {Q : History → World → Prog Op Op.Resp (Result (List CapabilityToken)) → Prop}
    (after : ∀ tokens h' w',
      tokens.map CapabilityToken.capability = run.tool.manifest.requiredCapabilities →
      Can (rt.system.Offers admits t) Q h' w' (.ret (.ok tokens))) :
    Can (rt.system.Offers admits t) Q h w (run.execution.commit rt.keyCustody run.liveManifest
      input.now run.validated).run := by
  obtain ⟨hchain, hleaf, hcertificate⟩ := found.executable hrun
  rw [hnow] at hchain hleaf hcertificate
  have hsigned := run.certificate_ok pass.signs hrun.signed hcertificate
  rw [hcustody] at hsigned
  have hleft := remainingValidity_eq_ok.mpr ⟨lt_min hleaf hcertificate, rfl⟩
  obtain ⟨tokens, htokens, hcapabilities⟩ : ∃ tokens, (w.consume run.record.recordId 0
      run.tool.manifest.requiredCapabilities (min tokenValidity
        (min run.validated.leafExpiresAt run.certificate.expiresAt - input.now)) input).1
      = .ok tokens ∧
      tokens.map CapabilityToken.capability = run.tool.manifest.requiredCapabilities :=
    consume_eq_ok _ havailable favours.nexus fun i _ => favours.tokens i
  unfold AuthorizedExecution.commit
  refine Can.ofResultE (run.checkAuthority_ok hchain) (Can.opE (favours.offers rfl rfl) ?_)
  refine Can.ofResultE hcontext (Can.rejectIfE (not_not.mpr rfl) ?_)
  refine Can.ofResultE hsigned (Can.opE (favours.offers rfl rfl) (Can.ofResultE hleft ?_))
  exact Can.opE (favours.offers rfl (Prod.ext htokens rfl))
    (Can.ofResult_lastE (after _ _ _ hcapabilities))

/-- What comes before Nexus is entered is done. -/
theorem Favourable.can_prepare (hcustody : request.keyCustody = rt.keyCustody)
    (hrun : pass.Authorizes run) (hnow : request.now = input.now) (found : pass.Found w)
    (hcontext : w.semanticContext.canonicalDigest = .ok run.validated.semanticContextDigest)
    (havailable : ∃ record, w.store.authorizationRecords.find?
      (fun r => r.recordId = run.record.recordId) = some record ∧
        InMemoryMissionStore.Available record 0)
    {Q : History → World → Prog Op Op.Resp (Result (RegisteredTool × List CapabilityToken)) → Prop}
    (after : ∀ tokens h' w',
      tokens.map CapabilityToken.capability = run.tool.manifest.requiredCapabilities →
      Can (rt.system.Offers admits t) Q h' w' (.ret (.ok (run.tool, tokens)))) :
    Can (rt.system.Offers admits t) Q h w
      (NexusExecutionPort.prepare rt.keyCustody run.execution attemptId).run := by
  obtain ⟨hchain, -, -⟩ := found.executable hrun
  have hgeneration := run.leafGeneration_eq hchain
  rw [hnow] at hchain
  have hresolve : w.registry.resolveWithCapabilityManifest request.proposalToolId
      run.liveManifest = .ok (run.tool, run.liveManifest) := by
    rw [hrun.liveManifest, hrun.tool]
    exact resolve_again found.tool
  unfold NexusExecutionPort.prepare
  refine Can.opE (favours.offers rfl (congrArg (·, w) hresolve)) (Can.ofResultE rfl ?_)
  refine Can.ofResultE run.manifestDigest_eq (Can.rejectIfE (not_not.mpr rfl) ?_)
  refine Can.orRejectE hgeneration (Can.opE (favours.offers rfl rfl) (Can.bindE ?_))
  unfold AuthorityKernel.commitActiveChain
  refine Can.opE (favours.offers rfl (exec_lockActiveChain hchain)) (Can.ofResultE rfl ?_)
  have found' : pass.Found { w with kernelReaders := t :: w.kernelReaders } :=
    ⟨found.snapshot, found.tool, found.chain⟩
  refine Can.outcomeE (favours.can_commit hcustody hrun hnow found' hcontext havailable
    fun tokens h' w' hcapabilities => .stop ⟨_, rfl, ?_⟩)
  refine Can.opE (favours.offers rfl rfl) (.stop ⟨_, rfl, ?_⟩)
  exact favours.appendE (favours.appendE (after _ _ _ hcapabilities))

/-- An execution gets the output of the tool. -/
theorem Favourable.can_execute (hcustody : request.keyCustody = rt.keyCustody)
    (hrun : pass.Authorizes run) (hnow : request.now = input.now) (found : pass.Found w)
    (hcontext : w.semanticContext.canonicalDigest = .ok run.validated.semanticContextDigest)
    (hattempt : attemptId ≠ 0)
    (hnew : run.record.recordId ∉ w.store.authorizationRecords.map AuthorizationRecord.recordId)
    {output : ToolOutput} (houtput : input.output = some output)
    {Q : History → World → Prog Op Op.Resp (Result RunOutcome) → Prop}
    (after : ∀ tokens h' w',
      tokens.map CapabilityToken.capability = run.tool.manifest.requiredCapabilities →
      (⟨.executeTool run.tool.toolDefinition request.arguments tokens, some output⟩ : Event) ∈ h' →
      Can (rt.system.Offers admits t) Q h' w' (.ret (.ok (.executed output)))) :
    Can (rt.system.Offers admits t) Q h w (rt.executeAuthorized attemptId run.execution
      ⟨run.certificate, run.record⟩).run := by
  have hone : (1 : UInt64) ≠ 0 := by decide
  obtain ⟨store, hinsert, hrecords⟩ := exec_insertAuthorization input (t := t)
    (w := { w with store := (w.store.appendForAttempt attemptId .actionAuthorized
      input.now).appendForAttempt attemptId .authorizationIssued input.now }) hattempt hnew
  have havailable : ∃ record, store.authorizationRecords.find?
      (fun r => r.recordId = run.record.recordId) = some record ∧
        InMemoryMissionStore.Available record 0 :=
    ⟨run.record, by rw [hrecords]; exact find_inserted hnew, rfl, rfl, hone⟩
  unfold R1Runtime.executeAuthorized
  refine favours.appendE (favours.appendE ?_)
  refine Can.opE (favours.offers rfl hinsert) (Can.opE (favours.offers rfl rfl) ?_)
  refine Can.outcomeE ?_
  unfold NexusExecutionPort.execute
  refine Can.bindE (Can.adaptE (favours.can_prepare (w := { w with
      store := store, actionCertificates := w.actionCertificates ++ [run.certificate] })
    hcustody hrun hnow ⟨found.snapshot, found.tool, found.chain⟩ hcontext havailable
    fun tokens h' w' hcapabilities => .stop ⟨_, rfl, .stop ⟨_, rfl, ?_⟩⟩))
  refine Can.opE (favours.offers rfl (congrArg (·, w') houtput)) (.stop ⟨_, rfl, ?_⟩)
  have hentered {h₀ rest : History} : (⟨.executeTool run.tool.toolDefinition request.arguments
      tokens, some output⟩ : Event) ∈ h₀ ++ [⟨.executeTool run.tool.toolDefinition
        request.arguments tokens, some output⟩] ++ rest :=
    List.mem_append_left _ (List.mem_append_right _ List.mem_cons_self)
  dsimp only
  split
  · exact favours.appendE (after tokens _ _ hcapabilities hentered)
  · exact favours.appendE (after tokens _ _ hcapabilities hentered)

/-- Where the chain does not validate any more, the port refuses before Nexus. -/
theorem Favourable.can_block {w₀ : World} (hrun : pass.Authorizes run) (found : pass.Found w₀)
    (hregistry : w.registry = w₀.registry) {error : RuntimeError}
    (hvalid : validateChain w.kernel request.leaseId (some pass.snapshot.record.generation)
      pass.liveManifest input.now = .error error)
    {Q : History → World → Prog Op Op.Resp (Except PositionedExecutionError ToolOutput) → Prop}
    (after : ∀ h', h <+: h' →
      Can (rt.system.Offers admits t) Q h' w (.ret (.error ⟨error, .beforeNexus⟩))) :
    Can (rt.system.Offers admits t) Q h w
      (NexusExecutionPort.execute rt.keyCustody run.execution attemptId).run := by
  have hgeneration := run.leafGeneration_eq (found.executable hrun).1
  have hresolve : w.registry.resolveWithCapabilityManifest request.proposalToolId
      run.liveManifest = .ok (run.tool, run.liveManifest) := by
    rw [hregistry, hrun.liveManifest, hrun.tool]
    exact resolve_again found.tool
  rw [← hrun.snapshot, ← hrun.liveManifest] at hvalid
  unfold NexusExecutionPort.execute
  refine Can.bind_errorE (Can.adaptE ?_)
  unfold NexusExecutionPort.prepare
  refine Can.opE (favours.offers rfl (congrArg (·, w) hresolve)) (Can.ofResultE rfl ?_)
  refine Can.ofResultE run.manifestDigest_eq (Can.rejectIfE (not_not.mpr rfl) ?_)
  refine Can.orRejectE hgeneration (Can.opE (favours.offers rfl rfl) (Can.bind_errorE ?_))
  unfold AuthorityKernel.commitActiveChain
  refine Can.opE (favours.offers rfl (exec_lockActiveChain_error hvalid)) ?_
  -- the error is raised by the lock, by the preparation and by the execution
  refine .stop ⟨error, rfl, .stop ⟨_, rfl, .stop ⟨_, rfl, after _ ?_⟩⟩⟩
  simp only [List.append_assoc]
  exact List.prefix_append _ _

/-- Where the chain does not validate any more, the execution is rejected before Nexus. -/
theorem Favourable.can_reject {w₀ : World} (hrun : pass.Authorizes run) (found : pass.Found w₀)
    (hregistry : w.registry = w₀.registry) (hattempt : attemptId ≠ 0)
    (hnew : run.record.recordId ∉ w.store.authorizationRecords.map AuthorizationRecord.recordId)
    {error : RuntimeError} (hvalid : validateChain w.kernel request.leaseId
      (some pass.snapshot.record.generation) pass.liveManifest input.now = .error error)
    {Q : History → World → Prog Op Op.Resp (Result RunOutcome) → Prop}
    (after : ∀ h' w', w'.kernel = w.kernel →
      (⟨.insertAuthorization attemptId run.record, .ok ()⟩ : Event) ∈ h' →
      (⟨.appendForAttempt attemptId (.executionRejectedBeforeNexus error.code), .ok ()⟩ : Event)
        ∈ h' → Can (rt.system.Offers admits t) Q h' w' (.ret (.error error))) :
    Can (rt.system.Offers admits t) Q h w (rt.executeAuthorized attemptId run.execution
      ⟨run.certificate, run.record⟩).run := by
  obtain ⟨store, hinsert, -⟩ := exec_insertAuthorization input (t := t)
    (w := { w with store := (w.store.appendForAttempt attemptId .actionAuthorized
      input.now).appendForAttempt attemptId .authorizationIssued input.now }) hattempt hnew
  unfold R1Runtime.executeAuthorized
  refine favours.appendE (favours.appendE ?_)
  refine Can.opE (favours.offers rfl hinsert) (Can.opE (favours.offers rfl rfl) ?_)
  refine Can.outcomeE (favours.can_block (w := { w with
      store := store, actionCertificates := w.actionCertificates ++ [run.certificate] })
    hrun found hregistry hvalid fun h' hbefore => .stop ⟨_, rfl, ?_⟩)
  have hinserted := hbefore.subset
    (List.mem_append_left _ (List.mem_append_right _ List.mem_cons_self))
  exact favours.appendE (after _ _ rfl (List.mem_append_left _ hinserted)
    (List.mem_append_right _ List.mem_cons_self))

end

end

end GenesisRuntime
