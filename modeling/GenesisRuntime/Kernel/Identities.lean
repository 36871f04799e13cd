/-
  GenesisRuntime.Kernel.Identities

  The identities remembered within one traversal.

  `validate_identity_chain` stops at an identity that was validated before.  What it
  has skipped was checked then, but for one thing: how far the skipped part reaches.
  The bound on the depth counts the identities walked by this call only.
-/

import GenesisRuntime.Kernel.Soundness

namespace GenesisRuntime

section
variable [Externals] {s : AuthorityState}

/-- The identities remembered after one more call, whether it succeeds or fails. -/
def rememberedAfter (s : AuthorityState) (agent : AgentId) (cache : List AgentId) :
    List AgentId :=
  match validateIdentityChain s agent cache with
  | .ok _ cache' => cache'
  | .error _ cache' => cache'

/-- The identities remembered after any number of calls, from nothing on. -/
inductive Remembered (s : AuthorityState) : List AgentId → Prop where
  | empty : Remembered s []
  | validate {cache : List AgentId} (h : Remembered s cache) (agent : AgentId) :
      Remembered s (rememberedAfter s agent cache)

theorem validateIdentityChain_failsClean (agent : AgentId) (cache : List AgentId) :
    EStateM.FailsClean (validateIdentityChain s agent) cache := by
  refine EStateM.reads_get.failsClean_bind fun validated _ => ?_
  split
  · exact EStateM.failsClean_of_ok ⟨_, _, rfl⟩
  · refine (ofResult_reads _).failsClean_bind fun _ _ => ?_
    exact EStateM.failsClean_of_ok ⟨_, _, rfl⟩

/-- Only identities on complete, properly issued chains are remembered. -/
theorem Remembered.valid {cache : List AgentId} (h : Remembered s cache) :
    ∀ agent ∈ cache, ValidIdentity s agent := by
  induction h with
  | empty => simp
  | @validate cache h agent ih =>
      unfold rememberedAfter
      split
      · rename_i cache' hrun
        exact (validateIdentityChain_sound ih hrun).2
      · rename_i e cache' hrun
        rw [validateIdentityChain_failsClean agent cache e cache' hrun]
        exact ih

/-- A chain above the bound, with an identity among the first ones that is remembered. -/
def SkipsBound (s : AuthorityState) (cache : List AgentId) (agent : AgentId) : Prop :=
  ∃ path, IssuerPath s agent path ∧ (∀ node ∈ path, Issuance s node.2) ∧
    maxAuthorityChainDepth < path.length ∧
    ∃ node ∈ path.take maxAuthorityChainDepth, node.1 ∈ cache

/-- Whatever was validated before on the same identities, and in whatever order: the
    remembered identities make a difference exactly where they carry the walk across the
    bound on the depth. -/
theorem remembered_identities_agree_iff {cache : List AgentId} (hcache : Remembered s cache)
    (agent : AgentId) :
    ((∃ cache', validateIdentityChain s agent cache = .ok () cache') ↔
      ∃ cache', validateIdentityChain s agent [] = .ok () cache') ↔
    ¬ SkipsBound s cache agent := by
  by_cases hvalid : ValidIdentity s agent
  · obtain ⟨path, hpath, hissued⟩ := hvalid
    have hskips : SkipsBound s cache agent ↔ maxAuthorityChainDepth < path.length ∧
        ∃ node ∈ path.take maxAuthorityChainDepth, node.1 ∈ cache := by
      constructor
      · rintro ⟨path', hpath', -, hskips⟩
        rwa [hpath.unique hpath']
      · exact fun h => ⟨path, hpath, hissued, h⟩
    rw [validateIdentityChain_iff hpath hissued, validateIdentityChain_iff hpath hissued, hskips,
      ← not_le]
    by_cases hlength : path.length ≤ maxAuthorityChainDepth <;> simp [hlength]
  · -- without a complete, properly issued chain both fail
    have hfails : ∀ cache, (∀ agent ∈ cache, ValidIdentity s agent) →
        ¬ ∃ cache', validateIdentityChain s agent cache = .ok () cache' := by
      rintro cache hcache ⟨cache', hrun⟩
      exact hvalid (validateIdentityChain_sound hcache hrun).1
    have hskips : ¬ SkipsBound s cache agent := by
      rintro ⟨path, hpath, hissued, -⟩
      exact hvalid ⟨path, hpath, hissued⟩
    exact iff_of_true (iff_of_false (hfails cache hcache.valid) (hfails [] (by simp))) hskips

theorem mem_of_identityWalk {validated visited identities : List AgentId} {n : Nat}
    {agent : AgentId} (hcached : agent ∉ validated)
    (h : identityWalk s validated (n + 1) agent visited = .ok identities) : agent ∈ identities := by
  simp only [identityWalk, if_neg hcached, Except.bind_eq_ok, orReject_eq_ok] at h
  obtain ⟨_, -, identity, -, h⟩ := h
  split at h
  · simp only [Except.bind_eq_ok, Except.pure_eq_ok] at h
    obtain ⟨_, -, _, -, _, -, _, -, _, -, rest, -, rfl⟩ := h
    exact List.mem_cons_self
  · simp only [Except.bind_eq_ok, Except.pure_eq_ok] at h
    obtain ⟨_, -, _, -, _, -, rfl⟩ := h
    exact List.mem_singleton_self agent

/-- An agent that has been validated is remembered. -/
theorem mem_of_validateIdentityChain {agent : AgentId} {cache cache' : List AgentId}
    (h : validateIdentityChain s agent cache = .ok () cache') : agent ∈ cache' := by
  simp only [validateIdentityChain, EStateM.get_bind_eq_ok] at h
  split at h
  · rename_i hcached
    obtain ⟨-, rfl⟩ := EStateM.pure_eq_ok.mp h
    exact hcached
  · rename_i hcached
    simp only [ofResult_bind_eq_ok, EStateM.modify_eq_ok] at h
    obtain ⟨identities, hwalk, rfl⟩ := h
    exact List.mem_append_right cache (mem_of_identityWalk (n := 31) hcached hwalk)

end

-- ============================================================================
-- One identity too many
-- ============================================================================

namespace Reference

local instance identitiesExternals : Externals := externals

/-- The agents of a chain, the one that issues its own identity first. -/
def chainAgent (n : Nat) : AgentId :=
  match Identifier.new "agent id" s!"agent-{n}" with
  | .ok id => id
  | .error _ => agentId

theorem chainAgent_injective :
    ∀ i < 33, ∀ j < 33, chainAgent i = chainAgent j → i = j := by
  decide +kernel

def chainIssuer : Nat → Option AgentId
  | 0 => none
  | n + 1 => some (chainAgent n)

/-- The identities of the first agents of the chain. -/
def chainIdentities (identity : Nat → AgentIdentityCertificate) :
    Nat → AList fun _ : AgentId => AgentIdentityCertificate
  | 0 => AList.singleton (chainAgent 0) (identity 0)
  | n + 1 => (chainIdentities identity n).insert (chainAgent (n + 1)) (identity (n + 1))

theorem lookup_chainIdentities (identity : Nat → AgentIdentityCertificate) {n i : Nat}
    (hn : n < 33) (hi : i ≤ n) :
    (chainIdentities identity n).lookup (chainAgent i) = some (identity i) := by
  induction n with
  | zero =>
      obtain rfl : i = 0 := by omega
      rw [chainIdentities, AList.lookup_singleton_ite, if_pos rfl]
  | succ n ih =>
      rw [chainIdentities, AList.lookup_insert_ite]
      split
      · rename_i heq
        rw [chainAgent_injective i (by omega) (n + 1) hn heq]
      · rename_i hne
        refine ih (by omega) ?_
        have hlast : i ≠ n + 1 := fun heq => hne (by rw [heq])
        omega

/-- A state with a chain of 33 identities, each issued by the one before. -/
theorem exists_identity_chain :
    ∃ s : AuthorityState, ∀ n < 33, ∃ path, IssuerPath s (chainAgent n) path ∧
      path.map Prod.fst = (List.range (n + 1)).reverse.map chainAgent ∧
      ∀ node ∈ path, Issuance s node.2 := by
  choose identity hidentity using fun n => exists_signedIdentity (chainAgent n) keyId keyId
    (Vector.replicate 32 1) (Vector.replicate 32 1) (chainIssuer n) start
  let s : AuthorityState :=
    { mission := mission
      rootLeaseId := leaseId
      identities := chainIdentities identity 32
      custodians := ∅
      leases := ∅
      events := [] }
  have hfind : ∀ n < 33, s.identities.lookup (chainAgent n) = some (identity n) :=
    fun n hn => lookup_chainIdentities identity (by omega) (by omega)
  have hissuer : ∀ n, (identity n).issuerAgentId = chainIssuer n := by
    intro n
    obtain ⟨⟨signature, heq⟩, -⟩ := signedIdentity_eq_ok (hidentity n)
    rw [heq]
    rfl
  have hissued : ∀ n m, IssuedBy (identity n) (identity m) := by
    intro n m
    obtain ⟨⟨signature, heq⟩, hverify⟩ := signedIdentity_eq_ok (hidentity n)
    obtain ⟨⟨signature', heq'⟩, -⟩ := signedIdentity_eq_ok (hidentity m)
    refine ⟨?_, Vector.replicate 32 1, ?_, hverify⟩
    · rw [heq, heq']
      rfl
    · rw [heq']
      rfl
  refine ⟨s, fun n hn => ?_⟩
  induction n with
  | zero =>
      refine ⟨[(chainAgent 0, identity 0)], .root (hfind 0 hn) (hissuer 0), rfl, ?_⟩
      intro node hnode
      obtain rfl := List.mem_singleton.mp hnode
      refine ⟨fun issuerId h => ?_, fun _ => hissued 0 0⟩
      rw [hissuer] at h
      cases h
  | succ n ih =>
      obtain ⟨path, hpath, hagents, hpathIssued⟩ := ih (by omega)
      refine ⟨(chainAgent (n + 1), identity (n + 1)) :: path,
        .step (hfind (n + 1) hn) (hissuer (n + 1)) hpath, ?_, ?_⟩
      · rw [List.map_cons, hagents, List.range_succ (n := n + 1), List.reverse_append]
        rfl
      intro node hnode
      rcases List.mem_cons.mp hnode with rfl | hnode
      · refine ⟨fun issuerId h => ?_, fun h => ?_⟩
        · rw [hissuer] at h
          cases h
          exact ⟨identity n, hfind n (by omega), hissued (n + 1) n⟩
        · rw [hissuer] at h
          cases h
      · exact hpathIssued node hnode

end Reference

/-- The identity at depth 33 fails from nothing, and passes once the one at depth 32 has
    been validated. -/
theorem remembered_identity_lifts_bound : letI := Reference.externals
    ∃ (s : AuthorityState) (agent : AgentId) (cache : List AgentId), Remembered s cache ∧
      (∃ cache', validateIdentityChain s agent cache = .ok () cache') ∧
      ¬ ∃ cache', validateIdentityChain s agent [] = .ok () cache' := by
  let := Reference.externals
  obtain ⟨s, hs⟩ := Reference.exists_identity_chain
  obtain ⟨path, hpath, hagents, hissued⟩ := hs 31 (by omega)
  obtain ⟨path', hpath', hagents', hissued'⟩ := hs 32 (by omega)
  have hlength : path.length = 32 := by simpa using congrArg List.length hagents
  have hlength' : path'.length = 33 := by simpa using congrArg List.length hagents'
  obtain ⟨cache, hcache⟩ := validateIdentityChain_complete hpath hlength.le hissued []
  have hafter : rememberedAfter s (Reference.chainAgent 31) [] = cache := by
    rw [rememberedAfter, hcache]
  refine ⟨s, Reference.chainAgent 32, cache, ?_, ?_, ?_⟩
  · rw [← hafter]
    exact Remembered.empty.validate (Reference.chainAgent 31)
  · have hsecond : Reference.chainAgent 31 ∈ (path'.take 32).map Prod.fst := by
      rw [List.map_take, hagents', ← List.map_take]
      exact List.mem_map_of_mem (by decide)
    obtain ⟨node, hnode, heq⟩ := List.mem_map.mp hsecond
    refine (validateIdentityChain_iff hpath' hissued' cache).mpr (.inr ⟨node, hnode, ?_⟩)
    rw [heq]
    exact mem_of_validateIdentityChain hcache
  · rw [validateIdentityChain_iff hpath' hissued', hlength', maxAuthorityChainDepth]
    simp

/-- The reference chain, with nothing remembered and with one identity remembered. -/
theorem remembered_identities_agree_iff_reference : letI := Reference.externals
    ∃ (s : AuthorityState) (agent : AgentId) (cache : List AgentId), Remembered s cache ∧
      cache ≠ [] ∧
      (((∃ cache', validateIdentityChain s agent cache = .ok () cache') ↔
        ∃ cache', validateIdentityChain s agent [] = .ok () cache') ↔
      ¬ SkipsBound s cache agent) := by
  let := Reference.externals
  obtain ⟨s, hs⟩ := Reference.exists_identity_chain
  obtain ⟨path, hpath, hagents, hissued⟩ := hs 0 (by omega)
  have hlength : path.length = 1 := by simpa using congrArg List.length hagents
  obtain ⟨cache, hcache⟩ := validateIdentityChain_complete hpath
    (by rw [hlength, maxAuthorityChainDepth]; omega) hissued []
  have hafter : rememberedAfter s (Reference.chainAgent 0) [] = cache := by
    rw [rememberedAfter, hcache]
  have hremembered : Remembered s cache := by
    rw [← hafter]
    exact Remembered.empty.validate (Reference.chainAgent 0)
  exact ⟨s, Reference.chainAgent 32, cache, hremembered,
    List.ne_nil_of_mem (mem_of_validateIdentityChain hcache),
    remembered_identities_agree_iff hremembered (Reference.chainAgent 32)⟩

end GenesisRuntime
