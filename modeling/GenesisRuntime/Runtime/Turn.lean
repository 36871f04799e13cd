/-
  GenesisRuntime.Runtime.Turn

  One turn of the agent: what `run_once` has done before each of its operations,
  and when it returns.

  The events an attempt records form a word.  `Continues` says which event can
  come next; a word that ends in a terminal event has no continuation, and is one
  of those `validate_attempt` accepts.
-/

import GenesisRuntime.Runtime.Specs
import GenesisRuntime.Store.Outcomes

namespace GenesisRuntime

open Prog (Spec outcomeOf)

-- ============================================================================
-- Words of events
-- ============================================================================

/-- The events that end an attempt. -/
def MissionEventKind.isTerminal : MissionEventKind → Bool
  | .modelFailed _ | .protocolRejected _ | .finalProduced | .finalRejected _
  | .actionRejected _ | .executionRejectedBeforeNexus _ | .executionFailed _
  | .executionCompleted => true
  | _ => false

/-- The events that can come next in an attempt none of whose appends fail. -/
inductive Continues : List MissionEventKind → MissionEventKind → Prop where
  | modelFailed (code : ErrorCode) : Continues [] (.modelFailed code)
  | protocolRejected (code : ErrorCode) : Continues [] (.protocolRejected code)
  | protocolAccepted : Continues [] .protocolAccepted
  | finalProduced : Continues [.protocolAccepted] .finalProduced
  | finalRejected (code : ErrorCode) : Continues [.protocolAccepted] (.finalRejected code)
  | planAccepted : Continues [.protocolAccepted] .planAccepted
  | actionRejected (code : ErrorCode) :
      Continues [.protocolAccepted, .planAccepted] (.actionRejected code)
  | actionAuthorized : Continues [.protocolAccepted, .planAccepted] .actionAuthorized
  | authorizationIssued :
      Continues [.protocolAccepted, .planAccepted, .actionAuthorized] .authorizationIssued
  | rejected (code : ErrorCode) : Continues issuedWord (.executionRejectedBeforeNexus code)
  | authorizationConsumed : Continues issuedWord .authorizationConsumed
  | executionStarted : Continues (issuedWord ++ [.authorizationConsumed]) .executionStarted
  | failed (code : ErrorCode) : Continues enteredWord (.executionFailed code)
  | completed : Continues enteredWord .executionCompleted

/-- The words an attempt can have recorded, none of its appends having failed. -/
inductive Word : List MissionEventKind → Prop where
  | nil : Word []
  | snoc {w : List MissionEventKind} {kind : MissionEventKind} (word : Word w)
      (next : Continues w kind) : Word (w ++ [kind])

/-- The word is empty, or ends in a terminal event. -/
def Finished (w : List MissionEventKind) : Prop :=
  ∀ kind ∈ w.getLast?, kind.isTerminal = true

theorem finished_snoc {w : List MissionEventKind} {kind : MissionEventKind} :
    Finished (w ++ [kind]) ↔ kind.isTerminal = true := by
  simp [Finished]

/-- A word is accepted exactly when it ends in a terminal event. -/
theorem Word.validateAttempt_eq_ok {w : List MissionEventKind} (word : Word w) (h : w ≠ []) :
    validateAttempt w = .ok () ↔ Finished w := by
  cases word with
  | nil => exact absurd rfl h
  | snoc word next =>
      rw [finished_snoc]
      cases next <;> simp [validateAttempt, issuedWord, enteredWord,
        MissionEventKind.isTerminal, pure, Except.pure, throw, throwThe, MonadExceptOf.throw]

theorem Continues.nonterminal {w : List MissionEventKind} {kind : MissionEventKind}
    (next : Continues w kind) : ∀ earlier ∈ w, earlier.isTerminal = false := by
  cases next <;> simp [issuedWord, enteredWord, MissionEventKind.isTerminal]

/-- A terminal event can only be the last one. -/
theorem Word.finished_of_mem {w : List MissionEventKind} (word : Word w)
    {kind : MissionEventKind} (hmem : kind ∈ w) (hterminal : kind.isTerminal = true) :
    Finished w := by
  cases word with
  | nil => cases hmem
  | snoc word next =>
      rw [finished_snoc]
      rcases List.mem_append.mp hmem with hmem | hmem
      · rw [next.nonterminal _ hmem] at hterminal
        cases hterminal
      · rw [← List.mem_singleton.mp hmem]
        exact hterminal

/-- What is accepted ends in a terminal event. -/
theorem exists_terminal_of_validateAttempt {w : List MissionEventKind}
    (h : validateAttempt w = .ok ()) : ∃ kind ∈ w, kind.isTerminal = true := by
  unfold validateAttempt at h
  split at h
  case h_11 => cases h
  all_goals simp [MissionEventKind.isTerminal]

section
variable [Externals]

-- ============================================================================
-- Reading a history
-- ============================================================================

/-- The kind an event has recorded. -/
def recordedKind : Event → Option MissionEventKind
  | ⟨.appendForAttempt _ kind, .ok ()⟩ => some kind
  | _ => none

/-- The word a history has recorded. -/
def wordOf (h : History) : List MissionEventKind := h.filterMap recordedKind

/-- An append that failed. -/
def appendFails : Event → Bool
  | ⟨.appendForAttempt _ _, .error _⟩ => true
  | _ => false

/-- No append has failed. -/
def AllAppended (h : History) : Prop := ∀ ev ∈ h, appendFails ev = false

/-- A consumption that succeeded. -/
def consumes : Event → Bool
  | ⟨.consume _ _ _ _, .ok _⟩ => true
  | _ => false

/-- Nothing has been consumed. -/
def Unconsumed (h : History) : Prop := ∀ ev ∈ h, consumes ev = false

/-- The attempt an event has begun. -/
def begunAttempt : Event → Option Nat
  | ⟨.beginAttempt, attemptId⟩ => some attemptId
  | _ => none

/-- The attempt of a history. -/
def attemptOf (h : History) : Option Nat := h.findSome? begunAttempt

section
variable {h h' : History} {ev : Event}

@[simp] theorem wordOf_nil : wordOf [] = [] := rfl

@[simp] theorem wordOf_append : wordOf (h ++ h') = wordOf h ++ wordOf h' :=
  List.filterMap_append

theorem wordOf_cons : wordOf (ev :: h) = (recordedKind ev).toList ++ wordOf h := by
  simp only [wordOf, List.filterMap_cons]
  cases recordedKind ev <;> rfl

@[simp] theorem allAppended_nil : AllAppended ([] : History) := by simp [AllAppended]

@[simp] theorem allAppended_append : AllAppended (h ++ h') ↔ AllAppended h ∧ AllAppended h' := by
  simp [AllAppended, or_imp, forall_and]

@[simp] theorem allAppended_cons :
    AllAppended (ev :: h) ↔ appendFails ev = false ∧ AllAppended h := by
  simp [AllAppended]

@[simp] theorem unconsumed_append : Unconsumed (h ++ h') ↔ Unconsumed h ∧ Unconsumed h' := by
  simp [Unconsumed, or_imp, forall_and]

theorem unconsumed_of_idle (h : ∀ ev ∈ h', idle ev = true) : Unconsumed h' := by
  intro ev hev
  obtain ⟨o, r⟩ := ev
  have hidle := h _ hev
  cases o with
  | consume =>
      cases r with
      | error => rfl
      | ok => cases hidle
  | _ => rfl

theorem recordedKind_of_idle (h : idle ev = true) : recordedKind ev = none := by
  obtain ⟨o, r⟩ := ev
  cases o <;> first | rfl | cases h

theorem wordOf_of_idle (h : ∀ ev ∈ h', idle ev = true) : wordOf h' = [] :=
  List.filterMap_eq_nil_iff.mpr fun ev hev => recordedKind_of_idle (h ev hev)

theorem Since.wordOf_eq (hs : Since idle h h') : wordOf h' = wordOf h := by
  obtain ⟨q, rfl, hq⟩ := hs
  rw [wordOf_append, wordOf_of_idle hq, List.append_nil]

theorem attemptOf_append {attemptId : Nat} (hh : attemptOf h = some attemptId) :
    attemptOf (h ++ h') = some attemptId := by
  rw [attemptOf] at hh ⊢
  rw [List.findSome?_append, hh]
  rfl

end

-- ============================================================================
-- The shapes of a turn
-- ============================================================================

/-- A successful `observe_model_authority`, with the reading of the context and of
    the clock before it. -/
structure Observation (rt : R1Runtime) where
  context : SemanticContext
  now : DateTime
  rootId : LeaseId
  lease : LeaseSnapshot
  validated : ValidatedAuthority
  usable : rt.mission.isUsableAt now = true
  isBound : boundTo lease.certificate rt.agentId rt.mission
  continuation : validateContextContinuation validated.semanticContextDigest context = .ok ()

namespace Observation

variable {rt : R1Runtime} (observation : Observation rt)

/-- What is returned. -/
def value : ModelAuthorityObservation := ⟨observation.lease, observation.validated⟩

/-- What is performed. -/
def events : History :=
  [⟨.readContext, observation.context⟩,
   ⟨.utcNow, observation.now⟩,
   ⟨.rootLeaseId, observation.rootId⟩,
   ⟨.leaseSnapshot observation.rootId, .ok observation.lease⟩,
   ⟨.validateActiveChain observation.lease.certificate.leaseId
     (some observation.lease.record.generation) observation.lease.manifest observation.now,
     .ok observation.validated⟩]

end Observation

/-- The limit of each budget. -/
def R1Runtime.limit (rt : R1Runtime) : BudgetCounter → UInt64
  | .steps => rt.spec.resourceBudget.maxSteps
  | .actions => rt.mission.maxActions

/-- A turn that calls the model. -/
structure Turn (rt : R1Runtime) where
  observation : Observation rt
  instruction : String
  attemptId : Nat

namespace Turn

variable {rt : R1Runtime} (turn : Turn rt)

/-- What is performed before the model is called. -/
def events : History :=
  turn.observation.events ++ [⟨.reserve .steps (rt.limit .steps), true⟩,
    ⟨.beginAttempt, turn.attemptId⟩]

/-- The request made of the model. -/
def request : ModelRequest where
  agentId := rt.agentId
  spec := rt.spec
  semanticContext := turn.observation.context
  resolvedSystemInstruction := turn.instruction

@[simp] theorem wordOf_events : wordOf turn.events = [] := by
  simp [events, Observation.events, wordOf, recordedKind]

theorem attemptOf_events : attemptOf turn.events = some turn.attemptId := rfl

end Turn

/-- A turn in which a tool call is authorized. -/
structure ToolCall (rt : R1Runtime) where
  turn : Turn rt
  response : ModelResponse
  proposal : ToolCallProposal
  leaseId : LeaseId
  now : DateTime
  authorization : Authorization
    (rt.authorizeRequest leaseId turn.observation.context proposal now)
  parsed : rt.protocolGate.parse response.rawOutput = .ok (.toolCall proposal)

namespace ToolCall

variable {rt : R1Runtime} (call : ToolCall rt)

/-- The attempt the call belongs to. -/
def attemptId : Nat := call.turn.attemptId

/-- What is performed before the gate is called. -/
def planned : History :=
  call.turn.events ++ [⟨.generate call.turn.request, .ok call.response⟩,
    ⟨.appendForAttempt call.attemptId .protocolAccepted, .ok ()⟩,
    ⟨.appendForAttempt call.attemptId .planAccepted, .ok ()⟩,
    ⟨.rootLeaseId, call.leaseId⟩,
    ⟨.utcNow, call.now⟩]

/-- What is performed before the budget is reserved. -/
def authorized : History := call.planned ++ call.authorization.events

/-- What is performed before the authorization is recorded. -/
def reserved : History := call.authorized ++ [⟨.reserve .actions (rt.limit .actions), true⟩]

/-- What is performed before the record is inserted. -/
def issued : History :=
  call.reserved ++ [⟨.appendForAttempt call.attemptId .actionAuthorized, .ok ()⟩,
    ⟨.appendForAttempt call.attemptId .authorizationIssued, .ok ()⟩]

/-- What is performed before the action is executed. -/
def inserted : History :=
  call.issued ++ [⟨.insertAuthorization call.attemptId call.authorization.record, .ok ()⟩,
    ⟨.pushCertificate call.authorization.certificate, ()⟩]

theorem length_inserted : call.inserted.length = 22 := rfl

theorem wordOf_planned : wordOf call.planned = [.protocolAccepted, .planAccepted] := by
  simp [planned, wordOf_cons, recordedKind]

theorem wordOf_authorized : wordOf call.authorized = [.protocolAccepted, .planAccepted] := by
  simp [authorized, wordOf_planned, Authorization.events, wordOf_cons, recordedKind]

theorem wordOf_reserved : wordOf call.reserved = [.protocolAccepted, .planAccepted] := by
  simp [reserved, wordOf_authorized, wordOf_cons, recordedKind]

theorem wordOf_issued : wordOf call.issued = issuedWord := by
  simp [issued, wordOf_reserved, wordOf_cons, recordedKind, issuedWord]

theorem wordOf_inserted : wordOf call.inserted = issuedWord := by
  simp [inserted, wordOf_issued, wordOf_cons, recordedKind]

theorem unconsumed_issued : Unconsumed call.issued := by
  simp [Unconsumed, issued, reserved, authorized, planned, Turn.events, Observation.events,
    Authorization.events, consumes]

theorem unconsumed_inserted : Unconsumed call.inserted := by
  refine unconsumed_append.mpr ⟨call.unconsumed_issued, ?_⟩
  simp [Unconsumed, consumes]

theorem attemptOf_planned : attemptOf call.planned = some call.attemptId :=
  attemptOf_append call.turn.attemptOf_events

theorem attemptOf_reserved : attemptOf call.reserved = some call.attemptId :=
  attemptOf_append (attemptOf_append call.attemptOf_planned)

theorem attemptOf_inserted : attemptOf call.inserted = some call.attemptId :=
  attemptOf_append (attemptOf_append call.attemptOf_reserved)

end ToolCall

end

end GenesisRuntime
