/-
  GenesisRuntime.Mission

  `mission.rs`: the trusted limits a human principal sets for one mission.
-/

import GenesisRuntime.Authority

namespace GenesisRuntime

section
variable [Externals]

/-- `MissionEnvelope`. -/
structure MissionEnvelope where
  missionId : MissionId
  allowedTools : List ToolId
  allowedCapabilities : List Capability
  policyEpoch : UInt64
  organizationVersion : UInt64
  active : Bool
  expiresAt : DateTime
  maxActions : UInt64
deriving DecidableEq

/-- `is_usable_at`. -/
def MissionEnvelope.isUsableAt (mission : MissionEnvelope) (now : DateTime) : Bool :=
  mission.active && decide (mission.maxActions > 0) && decide (now < mission.expiresAt)

end

end GenesisRuntime
