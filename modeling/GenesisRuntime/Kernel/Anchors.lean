/-
  GenesisRuntime.Kernel.Anchors

  The loop of `validate_identity_chain`, as it is written: without a bound.  It ends
  because every turn that goes on has visited one more identity and the last one allowed
  must be its own issuer; it then ends as the walk that counts its turns does.

  The cache outlives the call.  What goes into it is the whole list of identities of one
  call, and only once the walk has got to an anchor or to an identity that was in it.
-/

import GenesisRuntime.Kernel.Identities
import GenesisRuntime.Lib.Loop

namespace GenesisRuntime

section
variable [Externals] {s : AuthorityState} {cache : List AgentId}

-- ============================================================================
-- The loop
-- ============================================================================

/-- The locals of the loop of `validate_identity_chain`. -/
structure IdentityLoop where
  currentAgentId : AgentId
  visited : List AgentId
  validatedIdentityIds : List AgentId

/-- The locals before the loop. -/
def IdentityLoop.start (leafAgentId : AgentId) : IdentityLoop := ⟨leafAgentId, [], []⟩

/-- One turn of the loop. It is left with the identities it has validated. -/
def identityTurn (state : AuthorityState) (validated : List AgentId) (loop : IdentityLoop) :
    Result (IdentityLoop ⊕ List AgentId) := do
  if loop.currentAgentId ∈ validated then
    return .inr loop.validatedIdentityIds
  rejectIf (loop.currentAgentId ∈ loop.visited) .identityInvalid
    "agent identity chain contains a cycle"
  let visited := loop.currentAgentId :: loop.visited
  let identity ← orReject .identityInvalid "agent identity is missing"
    (state.identities.lookup loop.currentAgentId)
  match identity.issuerAgentId with
  | some issuerAgentId =>
      rejectIf (visited.length ≥ maxAuthorityChainDepth) .identityInvalid
        "agent identity chain exceeds the maximum supported depth"
      let issuer ← orReject .identityInvalid "identity issuer is missing"
        (state.identities.lookup issuerAgentId)
      rejectIf (identity.issuerKeyId ≠ issuer.keyId) .identityInvalid
        "identity issuer key binding is invalid"
      identity.verifySignature (← issuer.verifyingKey)
      return .inl ⟨issuerAgentId, visited,
        loop.validatedIdentityIds ++ [loop.currentAgentId]⟩
  | none =>
      rejectIf (identity.issuerKeyId ≠ identity.keyId) .identityInvalid
        "root identity is not self-issued"
      identity.verifySignature (← identity.verifyingKey)
      return .inr (loop.validatedIdentityIds ++ [loop.currentAgentId])

/-- What the loop ends with, when its turns are counted. -/
def IdentityLoop.outcome (s : AuthorityState) (cache : List AgentId) (loop : IdentityLoop) :
    Result (List AgentId) := do
  let rest ← identityWalk s cache (maxAuthorityChainDepth - loop.visited.length)
    loop.currentAgentId loop.visited
  return loop.validatedIdentityIds ++ rest

/-- Going on means that one more identity is visited, and that it is not the last one. -/
theorem visited_of_identityTurn {loop next : IdentityLoop}
    (h : identityTurn s cache loop = .ok (.inl next)) :
    next.visited.length = loop.visited.length + 1 ∧
      next.visited.length < maxAuthorityChainDepth := by
  unfold identityTurn at h
  split at h
  · cases h
  simp only [Except.bind_eq_ok, rejectIf_eq_ok] at h
  obtain ⟨_, -, identity, -, h⟩ := h
  split at h
  · simp only [Except.bind_eq_ok, Except.pure_eq_ok, rejectIf_eq_ok, Sum.inl.injEq, ge_iff_le,
      not_le] at h
    obtain ⟨_, hdepth, _, -, _, -, _, -, _, -, rfl⟩ := h
    exact ⟨rfl, hdepth⟩
  · simp only [Except.bind_eq_ok, Except.pure_eq_ok, reduceCtorEq, and_false, exists_false] at h

/-- The walk that counts its turns takes the turns of the loop. -/
theorem IdentityLoop.outcome_eq_turn (s : AuthorityState) (cache : List AgentId)
    (loop : IdentityLoop) (hlt : loop.visited.length < maxAuthorityChainDepth) :
    loop.outcome s cache = (do
      match ← identityTurn s cache loop with
      | .inr identities => return identities
      | .inl next => next.outcome s cache) := by
  obtain ⟨n, hn⟩ : ∃ n, maxAuthorityChainDepth - loop.visited.length = n + 1 :=
    ⟨maxAuthorityChainDepth - loop.visited.length - 1, by omega⟩
  have hdepth : (loop.currentAgentId :: loop.visited).length ≥ maxAuthorityChainDepth ↔ n = 0 := by
    rw [List.length_cons]
    omega
  have hnext : maxAuthorityChainDepth - (loop.currentAgentId :: loop.visited).length = n := by
    rw [List.length_cons]
    omega
  simp only [outcome, identityTurn, hn, identityWalk, hdepth]
  split
  · simp
  · simp only [bind_assoc]
    refine bind_congr fun _ => bind_congr fun identity => ?_
    cases identity.issuerAgentId with
    | none => simp only [bind_assoc, pure_bind]
    | some issuerAgentId =>
        simp only [bind_assoc, pure_bind, hnext, List.append_assoc, List.singleton_append]

/-- The loop may go on, and is on its way to `outcome`. -/
structure IdentityLoop.OnTheWay (s : AuthorityState) (cache : List AgentId)
    (outcome : Result (List AgentId)) (loop : IdentityLoop) : Prop where
  visited_lt : loop.visited.length < maxAuthorityChainDepth
  outcome_eq : loop.outcome s cache = outcome

/-- One turn: to the outcome, or closer to the depth that is allowed. -/
theorem identityTurn_turnsTo {outcome : Result (List AgentId)} (loop : IdentityLoop)
    (hloop : loop.OnTheWay s cache outcome) :
    Loop.TurnsTo (identityTurn s cache) (IdentityLoop.OnTheWay s cache outcome)
      (fun loop => maxAuthorityChainDepth - 1 - loop.visited.length) (· = outcome) loop := by
  obtain ⟨hlt, rfl⟩ := hloop
  have houtcome := loop.outcome_eq_turn s cache hlt
  match hturn : identityTurn s cache loop with
  | .error e =>
      rw [hturn] at houtcome
      exact .raises e hturn houtcome.symm
  | .ok (.inr identities) =>
      rw [hturn] at houtcome
      exact .returns identities hturn houtcome.symm
  | .ok (.inl next) =>
      rw [hturn] at houtcome
      obtain ⟨hvisited, hnext⟩ := visited_of_identityTurn hturn
      exact .goesOn next hturn ⟨hnext, houtcome.symm⟩ (by omega)

/-- The loop ends within the depth that is allowed, as the walk does. -/
theorem run_identityTurn (s : AuthorityState) (cache : List AgentId) (agent : AgentId) :
    Loop.run (identityTurn s cache) maxAuthorityChainDepth (.start agent)
      = some (identityWalk s cache maxAuthorityChainDepth agent []) := by
  have hstart : (IdentityLoop.start agent).outcome s cache
      = identityWalk s cache maxAuthorityChainDepth agent [] := bind_pure _
  have hpositive : (IdentityLoop.start agent).visited.length < maxAuthorityChainDepth :=
    Nat.zero_lt_succ 31
  obtain ⟨outcome, hrun, rfl⟩ :=
    Loop.exists_run_of_invariant identityTurn_turnsTo ⟨hpositive, hstart⟩
  exact hrun

/-- And the call ends as the loop does. The cache is extended when the loop is left. -/
theorem validateIdentityChain_eq (agent : AgentId) :
    validateIdentityChain s agent cache
      = match identityWalk s cache maxAuthorityChainDepth agent [] with
        | .ok identities => .ok () (cache ++ identities)
        | .error e => .error e cache := by
  have hget : validateIdentityChain s agent cache = (if agent ∈ cache then pure () else do
      let identities ← ofResult (identityWalk s cache maxAuthorityChainDepth agent [])
      modify fun validated => validated ++ identities : EStateM RuntimeError _ Unit) cache := rfl
  by_cases hcached : agent ∈ cache
  · -- the call returns before the loop, which would have ended at once
    have hwalk : identityWalk s cache maxAuthorityChainDepth agent [] = .ok [] := by
      rw [maxAuthorityChainDepth, identityWalk, if_pos hcached]
      rfl
    rw [hget, if_pos hcached, hwalk]
    simp only [List.append_nil]
    rfl
  · rw [hget, if_neg hcached]
    cases identityWalk s cache maxAuthorityChainDepth agent [] with
    | ok identities => rfl
    | error e => rfl

-- ============================================================================
-- Anchors
-- ============================================================================

/-- Following the issuers from an agent one comes, without repetition, to an identity without
    one, and every identity on the way is signed by the key, and names the key id, of its
    issuer; the last one by and of itself. -/
def Anchored (s : AuthorityState) (agent : AgentId) : Prop :=
  ∃ path, IssuerPath s agent path ∧ (path.map Prod.fst).Nodup ∧
    ∀ node ∈ path, Issuance s node.2

/-- A path to an identity without issuer never repeats one. -/
theorem anchored_iff {agent : AgentId} : Anchored s agent ↔ ValidIdentity s agent := by
  constructor
  · rintro ⟨path, hpath, -, hissued⟩
    exact ⟨path, hpath, hissued⟩
  · rintro ⟨path, hpath, hissued⟩
    exact ⟨path, hpath, hpath.nodup, hissued⟩

/-- Whatever the identities are, and from any cache of anchored agents: the loop of
    `validate_identity_chain` ends within the depth that is allowed, and the call returns what
    it ends with. If that is a success, the agent is anchored, and so is every agent in the
    cache from then on; if it is a failure, the cache is as it was. -/
theorem validate_identity_chain_keeps_anchors (agent : AgentId)
    (hcache : ∀ cached ∈ cache, Anchored s cached) :
    (∃ outcome, Loop.run (identityTurn s cache) maxAuthorityChainDepth (.start agent)
        = some outcome ∧
      validateIdentityChain s agent cache
        = match outcome with
          | .ok identities => .ok () (cache ++ identities)
          | .error e => .error e cache) ∧
    (∀ cache', validateIdentityChain s agent cache = .ok () cache' →
      Anchored s agent ∧ agent ∈ cache' ∧ ∀ cached ∈ cache', Anchored s cached) ∧
    ∀ e cache', validateIdentityChain s agent cache = .error e cache' → cache' = cache := by
  simp only [anchored_iff] at hcache ⊢
  refine ⟨⟨_, run_identityTurn s cache agent, validateIdentityChain_eq agent⟩, ?_, ?_⟩
  · intro cache' h
    obtain ⟨hagent, hall⟩ := validateIdentityChain_sound hcache h
    exact ⟨hagent, mem_of_validateIdentityChain h, hall⟩
  · exact validateIdentityChain_failsClean agent cache

end

/-- An agent that is validated with its issuer in the cache, over the reference components. -/
theorem validate_identity_chain_keeps_anchors_reference : letI := Reference.externals
    ∃ (s : AuthorityState) (cache cache' : List AgentId), cache ≠ [] ∧
      validateIdentityChain s (Reference.chainAgent 1) cache = .ok () cache' ∧
      Anchored s (Reference.chainAgent 1) ∧ ∀ cached ∈ cache', Anchored s cached := by
  let := Reference.externals
  obtain ⟨s, hs⟩ := Reference.exists_identity_chain
  obtain ⟨path, hpath, hagents, hissued⟩ := hs 0 (by omega)
  obtain ⟨path', hpath', hagents', hissued'⟩ := hs 1 (by omega)
  have hlength : path.length = 1 := by simpa using congrArg List.length hagents
  have hlength' : path'.length = 2 := by simpa using congrArg List.length hagents'
  obtain ⟨cache, hrun⟩ := validateIdentityChain_complete hpath
    (by rw [hlength, maxAuthorityChainDepth]; omega) hissued []
  have hcache : ∀ cached ∈ cache, Anchored s cached := fun cached hcached =>
    anchored_iff.mpr ((validateIdentityChain_sound (by simp) hrun).2 cached hcached)
  obtain ⟨cache', hrun'⟩ := validateIdentityChain_complete hpath'
    (by rw [hlength', maxAuthorityChainDepth]; omega) hissued' cache
  obtain ⟨hagent, -, hall⟩ :=
    (validate_identity_chain_keeps_anchors (Reference.chainAgent 1) hcache).2.1 cache' hrun'
  exact ⟨s, cache, cache', List.ne_nil_of_mem (mem_of_validateIdentityChain hrun), hrun', hagent,
    hall⟩

end GenesisRuntime
