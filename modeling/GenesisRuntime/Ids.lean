/-
  GenesisRuntime.Ids

  `ids.rs`: the validated identifier grammar and the identifier types the
  `string_id!` macro declares.  An identifier carries the proof that its text
  passed the check, and is ordered by its text.
-/

import GenesisRuntime.Error
import GenesisRuntime.Lib.Json
import Mathlib.Order.Lattice
import Mathlib.Data.String.Basic

namespace GenesisRuntime

def maxIdentifierBytes : Nat := 128

/-- The characters allowed after the first one. -/
def isIdentifierChar (c : Char) : Bool :=
  c.isAlphanum || c ∈ ['-', '_', '.', ':', '/', '@']

/-- `validate_identifier`. -/
def validateIdentifier (kind value : String) : Result Unit := do
  rejectIf (value.isEmpty ∨ value.utf8ByteSize > maxIdentifierBytes) .invalidIdentifier
    s!"{kind} must contain 1 to {maxIdentifierBytes} bytes"
  match value.toList with
  | [] => throw ⟨.invalidIdentifier, s!"{kind} must not be empty"⟩
  | first :: chars =>
      rejectIf (¬ first.isAlphanum) .invalidIdentifier
        s!"{kind} must start with an ASCII letter or digit"
      rejectIf (¬ chars.all isIdentifierChar) .invalidIdentifier
        s!"{kind} contains unsupported characters"

/-- An identifier of the `string_id!` family: text that passed the check. -/
structure Identifier (kind : String) where
  value : String
  valid : validateIdentifier kind value = .ok ()
deriving DecidableEq

namespace Identifier

variable {kind : String}

/-- The `new` of the `string_id!` family. -/
def new (kind value : String) : Result (Identifier kind) :=
  match h : validateIdentifier kind value with
  | .ok () => .ok ⟨value, h⟩
  | .error e => .error e

theorem value_injective : Function.Injective (value : Identifier kind → String) := by
  rintro ⟨a, ha⟩ ⟨b, hb⟩ h
  cases h
  rfl

instance : LinearOrder (Identifier kind) := LinearOrder.lift' value value_injective

instance : LawfulBEq (Identifier kind) := inferInstance

instance : Serialize (Identifier kind) := ⟨fun id => toValue id.value⟩

theorem new_eq_ok {text : String} {id : Identifier kind} (h : new kind text = .ok id) :
    id.value = text := by
  unfold new at h
  split at h
  · cases h
    rfl
  · cases h

theorem new_value (id : Identifier kind) : new kind id.value = .ok id := by
  unfold new
  split
  · rfl
  · rename_i e h
    rw [id.valid] at h
    cases h

end Identifier

abbrev MissionId := Identifier "mission id"
abbrev AgentId := Identifier "agent id"
abbrev LeaseId := Identifier "lease id"
abbrev AuthorizationId := Identifier "authorization id"
abbrev CertificateId := Identifier "certificate id"
abbrev KeyId := Identifier "key id"
abbrev ToolId := Identifier "tool id"
abbrev ModelRef := Identifier "model reference"
abbrev MemoryRef := Identifier "memory reference"
abbrev RetrievalIndexRef := Identifier "retrieval index reference"
abbrev InstructionProfileRef := Identifier "instruction profile reference"

end GenesisRuntime
