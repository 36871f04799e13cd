/-
  GenesisRuntime.Error

  `error.rs`: failure categories, the runtime error, and the two shapes in which
  the sources raise one (`if bad { return Err(..) }` and `ok_or_else`), with the
  rules that read a successful check back.
-/

import GenesisRuntime.Lib.EState
import GenesisRuntime.Lib.Except

namespace GenesisRuntime

/-- `ErrorCode`. -/
inductive ErrorCode where
  | invalidIdentifier
  | invalidInput
  | canonicalSerialization
  | malformedProtocol
  | outputTooLarge
  | unknownTool
  | duplicateTool
  | toolOutsideMission
  | capabilityOutsideAuthority
  | capabilityAllForbidden
  | toolManifestMismatch
  | semanticContextChanged
  | contextResolutionFailed
  | missionInactive
  | agentInactive
  | leaseInactive
  | identityInvalid
  | delegationInvalid
  | leaseGenerationMismatch
  | capabilityManifestMismatch
  | authorizationInvalid
  | budgetExhausted
  | executionFailed
  | modelFailed
  | eventIncomplete
  | internal
deriving DecidableEq, Repr

/-- `RuntimeError`: a stable code and a human-readable detail. -/
structure RuntimeError where
  code : ErrorCode
  message : String
deriving DecidableEq, Repr

/-- `error_code_name`. -/
def ErrorCode.name : ErrorCode → String
  | .invalidIdentifier => "invalid identifier"
  | .invalidInput => "invalid input"
  | .canonicalSerialization => "canonical serialization failed"
  | .malformedProtocol => "malformed protocol"
  | .outputTooLarge => "output too large"
  | .unknownTool => "unknown tool"
  | .duplicateTool => "duplicate tool"
  | .toolOutsideMission => "tool outside mission"
  | .capabilityOutsideAuthority => "capability outside authority"
  | .capabilityAllForbidden => "Capability::All forbidden"
  | .toolManifestMismatch => "tool manifest mismatch"
  | .semanticContextChanged => "semantic context changed"
  | .contextResolutionFailed => "context resolution failed"
  | .missionInactive => "mission inactive"
  | .agentInactive => "agent inactive"
  | .leaseInactive => "lease inactive"
  | .identityInvalid => "identity invalid"
  | .delegationInvalid => "delegation invalid"
  | .leaseGenerationMismatch => "lease generation mismatch"
  | .capabilityManifestMismatch => "capability manifest mismatch"
  | .authorizationInvalid => "authorization invalid"
  | .budgetExhausted => "budget exhausted"
  | .executionFailed => "execution failed"
  | .modelFailed => "model failed"
  | .eventIncomplete => "event incomplete"
  | .internal => "internal error"

/-- The `Display` text of an error. -/
def RuntimeError.display (error : RuntimeError) : String := s!"{error.code.name}: {error.message}"

/-- `Result<T>` of the crate. -/
abbrev Result := Except RuntimeError

-- ============================================================================
-- Raising errors
-- ============================================================================

section Raise
variable {m : Type → Type} [Monad m] [MonadExcept RuntimeError m]

/-- `if bad { return Err(RuntimeError::new(code, message)) }`. -/
def rejectIf (bad : Prop) [Decidable bad] (code : ErrorCode) (message : String) : m Unit :=
  if bad then throw ⟨code, message⟩ else pure ()

/-- `option.ok_or_else(|| RuntimeError::new(code, message))?`. -/
def orReject {α : Type} (code : ErrorCode) (message : String) : Option α → m α
  | some a => pure a
  | none => throw ⟨code, message⟩

/-- Run a `Result` computation in a monad that can raise its error (`?`). -/
def ofResult {α : Type} : Result α → m α
  | .ok a => pure a
  | .error e => throw e

end Raise

-- ============================================================================
-- Reading success back
-- ============================================================================

@[simp] theorem rejectIf_eq_ok {bad : Prop} [Decidable bad] {code : ErrorCode}
    {message : String} {u : Unit} :
    (rejectIf bad code message : Result Unit) = .ok u ↔ ¬ bad := by
  unfold rejectIf
  split <;> simp_all [throw, throwThe, MonadExceptOf.throw, pure, Except.pure]

@[simp] theorem orReject_eq_ok {α : Type} {code : ErrorCode} {message : String}
    {o : Option α} {a : α} :
    (orReject code message o : Result α) = .ok a ↔ o = some a := by
  cases o <;> simp [orReject, throw, throwThe, MonadExceptOf.throw, pure, Except.pure]

theorem rejectIf_raises {P : RuntimeError → Prop} {bad : Prop} [Decidable bad]
    {code : ErrorCode} {message : String} (h : bad → P ⟨code, message⟩) :
    Except.Raises P (rejectIf bad code message : Result Unit) := by
  unfold rejectIf
  split
  · rename_i hbad
    exact Except.raises_throw (h hbad)
  · exact Except.raises_pure ()

theorem orReject_raises {P : RuntimeError → Prop} {α : Type} {code : ErrorCode}
    {message : String} {o : Option α} (h : o = none → P ⟨code, message⟩) :
    Except.Raises P (orReject code message o : Result α) := by
  cases o with
  | some a => exact Except.raises_pure a
  | none => exact Except.raises_throw (h rfl)

section Stateful
variable {σ α : Type}

theorem ofResult_eq_ok {r : Result α} {s s' : σ} {a : α} :
    (ofResult r : EStateM RuntimeError σ α) s = .ok a s' ↔ r = .ok a ∧ s = s' := by
  cases r with
  | ok b =>
      have hpure : (ofResult (.ok b) : EStateM RuntimeError σ α) s = .ok b s := rfl
      rw [hpure, EStateM.Result.ok.injEq, Except.ok.injEq]
  | error e => exact ⟨nofun, nofun⟩

theorem ofResult_bind_eq_ok {β : Type} {r : Result α} {f : α → EStateM RuntimeError σ β}
    {s s' : σ} {b : β} :
    (ofResult r >>= f) s = .ok b s' ↔ ∃ a, r = .ok a ∧ f a s = .ok b s' := by
  rw [EStateM.bind_eq_ok]
  simp only [ofResult_eq_ok]
  constructor
  · rintro ⟨a, _, ⟨hr, rfl⟩, h⟩
    exact ⟨a, hr, h⟩
  · rintro ⟨a, hr, h⟩
    exact ⟨a, s, ⟨hr, rfl⟩, h⟩

theorem ofResult_reads (r : Result α) :
    EStateM.Reads (ofResult r : EStateM RuntimeError σ α) := by
  intro s
  cases r with
  | ok a => exact .inl ⟨a, rfl⟩
  | error e => exact .inr ⟨e, rfl⟩

theorem orReject_eq_ofResult (code : ErrorCode) (message : String) (o : Option α) :
    (orReject code message o : EStateM RuntimeError σ α)
      = ofResult (orReject code message o) := by
  cases o <;> rfl

theorem rejectIf_eq_ofResult (bad : Prop) [Decidable bad] (code : ErrorCode)
    (message : String) :
    (rejectIf bad code message : EStateM RuntimeError σ Unit)
      = ofResult (rejectIf bad code message) := by
  unfold rejectIf
  split <;> rfl

theorem orReject_reads (code : ErrorCode) (message : String) (o : Option α) :
    EStateM.Reads (orReject code message o : EStateM RuntimeError σ α) := by
  rw [orReject_eq_ofResult]
  exact ofResult_reads _

theorem rejectIf_reads (bad : Prop) [Decidable bad] (code : ErrorCode) (message : String) :
    EStateM.Reads (rejectIf bad code message : EStateM RuntimeError σ Unit) := by
  rw [rejectIf_eq_ofResult]
  exact ofResult_reads _

theorem ofResult_raises {P : RuntimeError → Prop} {r : Result α} (h : Except.Raises P r) (s : σ) :
    EStateM.Raises P (ofResult r : EStateM RuntimeError σ α) s := by
  intro e s' he
  cases r with
  | ok a => cases he
  | error e' =>
      cases he
      exact h e rfl

end Stateful

end GenesisRuntime
