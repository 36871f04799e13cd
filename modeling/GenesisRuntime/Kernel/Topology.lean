/-
  GenesisRuntime.Kernel.Topology

  The walks do not get lost.  In a reachable state every lease sits on a path to the
  line of the root lease, and the agents on the path are the issuers of its agent; so
  neither walk ever misses a node, meets one twice or runs out of depth.  A
  validation that fails has found something else wrong.
-/

import GenesisRuntime.Kernel.Lineage

namespace GenesisRuntime

-- ============================================================================
-- The errors of the walks
-- ============================================================================

/-- The errors of the two walks that are about the trees themselves. -/
def walkErrors : List RuntimeError :=
  [⟨.delegationInvalid, "authority chain exceeds the maximum supported depth"⟩,
   ⟨.delegationInvalid, "authority chain contains a cycle"⟩,
   ⟨.delegationInvalid, "authority chain lease missing"⟩,
   ⟨.identityInvalid, "agent identity chain exceeds the maximum supported depth"⟩,
   ⟨.identityInvalid, "agent identity chain contains a cycle"⟩,
   ⟨.identityInvalid, "agent identity is missing"⟩,
   ⟨.identityInvalid, "identity issuer is missing"⟩]

/-- The walk has not lost its way. -/
def OnTrack (e : RuntimeError) : Prop := e ∉ walkErrors

theorem onTrack_of_code {e : RuntimeError} (h : e.code ≠ .delegationInvalid)
    (h' : e.code ≠ .identityInvalid) : OnTrack e := by
  intro hmem
  simp only [walkErrors, List.mem_cons, List.not_mem_nil, or_false] at hmem
  rcases hmem with rfl | rfl | rfl | rfl | rfl | rfl | rfl <;> simp at h h'

-- ============================================================================
-- Checks that are not about the trees
-- ============================================================================

theorem canonicalError_onTrack {β : Type} (x : Except String β) :
    Except.Raises OnTrack (canonicalError x) := by
  intro e he
  cases x with
  | ok b => cases he
  | error message =>
      cases he
      exact onTrack_of_code (by simp) (by simp)

section
variable [Externals] {s s' : AuthorityState}

section
variable {α : Type} [Serialize α]

theorem canonicalEncoding_onTrack (value : α) :
    Except.Raises OnTrack (canonicalEncoding value) := by
  refine Except.Raises.bind (canonicalError_onTrack _) fun json _ => ?_
  exact Except.raises_pure _

theorem canonicalDigest_onTrack (domain : String) (value : α) :
    Except.Raises OnTrack (canonicalDigest domain value) := by
  refine Except.Raises.bind (rejectIf_raises fun _ => onTrack_of_code (by simp) (by simp))
    fun _ _ => ?_
  refine Except.Raises.bind (canonicalEncoding_onTrack value) fun encoded _ => ?_
  exact Except.raises_pure _

theorem canonicalBytes_onTrack (domain : String) (value : α) :
    Except.Raises OnTrack (canonicalBytes domain value) := by
  refine Except.Raises.bind (rejectIf_raises fun _ => onTrack_of_code (by simp) (by simp))
    fun _ _ => ?_
  refine Except.Raises.bind (canonicalEncoding_onTrack value) fun encoded _ => ?_
  refine Except.Raises.bind (rejectIf_raises fun _ => onTrack_of_code (by simp) (by simp))
    fun _ _ => ?_
  exact Except.raises_pure _

end

theorem manifestDigest_onTrack (manifest : CapabilityManifest) :
    Except.Raises OnTrack manifest.canonicalDigest := by
  refine Except.Raises.bind (rejectIf_raises fun _ => onTrack_of_code (by simp) (by simp))
    fun _ _ => ?_
  have hkeyed : ∀ c : Capability, Except.Raises OnTrack (keyedCapability c) := by
    intro c
    refine Except.Raises.bind (canonicalError_onTrack _) fun value _ => ?_
    exact Except.raises_pure _
  have hcapabilities :
      Except.Raises OnTrack (canonicalCapabilities manifest.permissions.capabilities) := by
    refine Except.Raises.bind (Except.Raises.mapM fun c _ => hkeyed c) fun keyed _ => ?_
    exact Except.raises_pure _
  apply Except.Raises.bind hcapabilities
  intro capabilities _
  exact canonicalDigest_onTrack _ _

theorem leaseRef_onTrack (certificate : AuthorityLeaseCertificate) :
    Except.Raises OnTrack (leaseRef certificate) := by
  refine Except.Raises.bind (canonicalDigest_onTrack _ _) fun digest _ => ?_
  exact Except.raises_pure _

theorem verifyingKey_onTrack (identity : AgentIdentityCertificate) :
    Except.Raises OnTrack identity.verifyingKey :=
  orReject_raises fun _ => by simp [OnTrack, walkErrors]

theorem identitySignature_onTrack (identity : AgentIdentityCertificate) (key : VerifyingKey) :
    Except.Raises OnTrack (identity.verifySignature key) := by
  refine Except.Raises.bind (verifyingKey_onTrack identity) fun _ _ => ?_
  refine Except.Raises.bind (rejectIf_raises fun _ => by simp [OnTrack, walkErrors]) fun _ _ => ?_
  refine Except.Raises.bind (canonicalBytes_onTrack _ _) fun payload _ => ?_
  exact rejectIf_raises fun _ => by simp [OnTrack, walkErrors]

theorem leaseSignature_onTrack (certificate : AuthorityLeaseCertificate) (key : VerifyingKey) :
    Except.Raises OnTrack (certificate.verifySignature key) := by
  refine Except.Raises.bind (rejectIf_raises fun _ => by simp [OnTrack, walkErrors]) fun _ _ => ?_
  refine Except.Raises.bind (canonicalBytes_onTrack _ _) fun payload _ => ?_
  exact rejectIf_raises fun _ => by simp [OnTrack, walkErrors]

theorem validateActiveRecord_onTrack (entry : LeaseEntry) (expected : Option Nat)
    (now : DateTime) : Except.Raises OnTrack (validateActiveRecord entry expected now) := by
  cases expected with
  | none => exact rejectIf_raises fun _ => onTrack_of_code (by simp) (by simp)
  | some generation =>
      refine Except.Raises.bind
        (rejectIf_raises fun _ => onTrack_of_code (by simp) (by simp)) fun _ _ => ?_
      exact rejectIf_raises fun _ => onTrack_of_code (by simp) (by simp)

theorem validateBindings_onTrack (entry : LeaseEntry) (subject : AgentIdentityCertificate) :
    Except.Raises OnTrack (validateBindings s entry subject) := by
  refine Except.Raises.bind (canonicalDigest_onTrack _ _) fun digest _ => ?_
  refine Except.Raises.bind (rejectIf_raises fun _ => by simp [OnTrack, walkErrors]) fun _ _ => ?_
  refine Except.Raises.bind (orReject_raises fun _ => by simp [OnTrack, walkErrors])
    fun issuer _ => ?_
  refine Except.Raises.bind (canonicalDigest_onTrack _ _) fun issuerDigest _ => ?_
  refine Except.Raises.bind (rejectIf_raises fun _ => by simp [OnTrack, walkErrors]) fun _ _ => ?_
  refine Except.Raises.bind (verifyingKey_onTrack issuer) fun key _ => ?_
  refine Except.Raises.bind (leaseSignature_onTrack _ key) fun _ _ => ?_
  split
  · refine Except.Raises.bind (orReject_raises fun _ => by simp [OnTrack, walkErrors])
      fun predecessor _ => ?_
    refine Except.Raises.bind (leaseRef_onTrack _) fun ref _ => ?_
    exact rejectIf_raises fun _ => by simp [OnTrack, walkErrors]
  · exact Except.raises_pure _

-- ============================================================================
-- The walks along a path
-- ============================================================================

/-- An identity that is registered, and was not visited before, keeps the identity walk on
    track if its issuer is registered and the walk from there is. -/
theorem identityWalk_succ_onTrack {validated : List AgentId} {remaining : Nat} {agent : AgentId}
    {identity : AgentIdentityCertificate} {visited : List AgentId}
    (hfind : s.identities.lookup agent = some identity) (hvisited : agent ∉ visited)
    (habove : ∀ issuerId, identity.issuerAgentId = some issuerId →
      remaining ≠ 0 ∧ issuerId ∈ s.identities ∧
        Except.Raises OnTrack (identityWalk s validated remaining issuerId (agent :: visited))) :
    Except.Raises OnTrack (identityWalk s validated (remaining + 1) agent visited) := by
  rw [identityWalk]
  split
  · exact Except.raises_pure _
  refine Except.Raises.bind (rejectIf_raises fun hbad => absurd hbad hvisited) fun _ _ => ?_
  rw [hfind]
  refine Except.Raises.bind (Except.raises_pure _) fun found hfound => ?_
  cases hfound
  cases hissuer : identity.issuerAgentId with
  | none =>
      refine Except.Raises.bind
        (rejectIf_raises fun _ => by simp [OnTrack, walkErrors]) fun _ _ => ?_
      refine Except.Raises.bind (verifyingKey_onTrack identity) fun key _ => ?_
      refine Except.Raises.bind (identitySignature_onTrack identity key) fun _ _ => ?_
      exact Except.raises_pure _
  | some issuerId =>
      obtain ⟨hremaining, hmem, hwalk⟩ := habove issuerId hissuer
      obtain ⟨issuer, hlookup⟩ := AList.mem_iff_lookup.mp hmem
      refine Except.Raises.bind
        (rejectIf_raises fun hbad => absurd hbad hremaining) fun _ _ => ?_
      rw [hlookup]
      refine Except.Raises.bind (Except.raises_pure _) fun found hfound => ?_
      cases hfound
      refine Except.Raises.bind
        (rejectIf_raises fun _ => by simp [OnTrack, walkErrors]) fun _ _ => ?_
      refine Except.Raises.bind (verifyingKey_onTrack issuer) fun key _ => ?_
      refine Except.Raises.bind (identitySignature_onTrack identity key) fun _ _ => ?_
      refine Except.Raises.bind hwalk fun identities _ => ?_
      exact Except.raises_pure _

/-- Along a path that is not too long, and off the nodes visited before, the identity
    walk stays on track, whatever was validated before. -/
theorem identityWalk_onTrack {validated : List AgentId} {remaining : Nat} {agent : AgentId}
    {visited : List AgentId} {path : List (AgentId × AgentIdentityCertificate)}
    (hpath : IssuerPath s agent path) (hlength : path.length ≤ remaining)
    (hvisited : ∀ node ∈ path, node.1 ∉ visited) :
    Except.Raises OnTrack (identityWalk s validated remaining agent visited) := by
  induction hpath generalizing remaining visited with
  | @root agent identity hfind hup =>
      obtain ⟨remaining, rfl⟩ : ∃ n, remaining = n + 1 :=
        ⟨remaining - 1, by simp at hlength; omega⟩
      refine identityWalk_succ_onTrack hfind (hvisited (agent, identity) List.mem_cons_self)
        fun issuerId hissuer => ?_
      rw [hup] at hissuer
      cases hissuer
  | @step agent issuerId identity path hfind hup rest ih =>
      obtain ⟨remaining, rfl⟩ : ∃ n, remaining = n + 1 :=
        ⟨remaining - 1, by simp at hlength; omega⟩
      have hpos : 0 < path.length := List.length_pos_of_ne_nil rest.ne_nil
      have hlength' : path.length ≤ remaining := by simpa using hlength
      have hpath : IssuerPath s agent ((agent, identity) :: path) := .step hfind hup rest
      have hvisited' := hpath.not_mem_visited hvisited
      obtain ⟨issuer, tail, rfl, hissuer⟩ := rest.head_eq
      refine identityWalk_succ_onTrack hfind (hvisited (agent, identity) List.mem_cons_self)
        fun issuerId' hissuer' => ?_
      rw [hup] at hissuer'
      cases hissuer'
      exact ⟨by omega, AList.mem_iff_lookup.mpr ⟨issuer, hissuer⟩, ih hlength' hvisited'⟩

theorem validateCertificateEntry_onTrack {entry : LeaseEntry}
    {path : List (AgentId × AgentIdentityCertificate)}
    (hpath : IssuerPath s entry.certificate.agentId path)
    (hlength : path.length ≤ maxAuthorityChainDepth) (cache : List AgentId) :
    EStateM.Raises OnTrack (validateCertificateEntry s entry) cache := by
  have hwalk : ∀ validated, Except.Raises OnTrack
      (identityWalk s validated maxAuthorityChainDepth entry.certificate.agentId []) :=
    fun _ => identityWalk_onTrack hpath hlength (by simp)
  have hchain : ∀ cache, EStateM.Raises OnTrack
      (validateIdentityChain s entry.certificate.agentId) cache := by
    intro cache
    refine EStateM.Raises.bind (EStateM.raises_of_ok ⟨cache, cache, rfl⟩) fun validated _ _ => ?_
    split
    · exact EStateM.raises_of_ok ⟨_, _, rfl⟩
    · refine EStateM.Raises.bind (ofResult_raises (hwalk validated) _) fun identities _ _ => ?_
      exact EStateM.raises_of_ok ⟨_, _, rfl⟩
  simp only [validateCertificateEntry, rejectIf_eq_ofResult, orReject_eq_ofResult]
  have hmismatch : ∀ (bad : Prop) [Decidable bad], Except.Raises OnTrack
      (rejectIf bad .capabilityManifestMismatch
        "lease bindings differ from current mission or manifest" : Result Unit) :=
    fun _ _ => rejectIf_raises fun _ => onTrack_of_code (by simp) (by simp)
  refine EStateM.Raises.bind (ofResult_raises (hmismatch _) _) fun _ _ _ => ?_
  refine EStateM.Raises.bind
    (ofResult_raises (manifestDigest_onTrack entry.manifest) _) fun digest _ _ => ?_
  refine EStateM.Raises.bind (ofResult_raises (hmismatch _) _) fun _ _ _ => ?_
  refine EStateM.Raises.bind
    (ofResult_raises (orReject_raises fun _ => by simp [OnTrack, walkErrors]) _)
    fun subject _ _ => ?_
  refine EStateM.Raises.bind (hchain _) fun _ _ _ => ?_
  exact ofResult_raises (validateBindings_onTrack entry subject) _

/-- A lease that is stored, and was not visited before, keeps the lease walk on track if
    the walk above it is. -/
theorem chainWalk_succ_onTrack {leaf id : LeaseId} {entry : LeaseEntry} {expected : Option Nat}
    {now : DateTime} {remaining : Nat} {visited : List LeaseId} {cache : List AgentId}
    (hfind : s.leases.lookup id = some entry) (hvisited : id ∉ visited)
    (hentry : ∀ cache, EStateM.Raises OnTrack (validateCertificateEntry s entry) cache)
    (habove : ∀ ref, entry.certificate.parentLease = some ref → ∀ cache, EStateM.Raises OnTrack
      (chainWalk s leaf expected now remaining ref.leaseId (id :: visited)) cache) :
    EStateM.Raises OnTrack
      (chainWalk s leaf expected now (remaining + 1) id visited) cache := by
  simp only [chainWalk, rejectIf_eq_ofResult, orReject_eq_ofResult, hfind]
  refine EStateM.Raises.bind
    (ofResult_raises (rejectIf_raises fun hbad => absurd hbad hvisited) _) fun _ _ _ => ?_
  refine EStateM.Raises.bind (EStateM.raises_of_ok ⟨entry, _, rfl⟩) fun found _ hfound => ?_
  cases hfound
  refine EStateM.Raises.bind
    (ofResult_raises (validateActiveRecord_onTrack entry _ now) _) fun _ _ _ => ?_
  refine EStateM.Raises.bind (hentry _) fun _ _ _ => ?_
  cases hparent : entry.certificate.parentLease with
  | none => exact EStateM.raises_of_ok ⟨_, _, rfl⟩
  | some ref =>
      refine EStateM.Raises.bind (habove ref hparent _) fun above _ _ => ?_
      exact EStateM.raises_of_ok ⟨_, _, rfl⟩

/-- So does the lease walk. -/
theorem chainWalk_onTrack (htrees : Trees s) {leaf current : LeaseId} {expected : Option Nat}
    {now : DateTime} {remaining : Nat} {visited : List LeaseId} {cache : List AgentId}
    {path : List (LeaseId × LeaseEntry)} (hpath : LeasePath s current path)
    (hlength : path.length ≤ remaining) (hvisited : ∀ node ∈ path, node.1 ∉ visited) :
    EStateM.Raises OnTrack (chainWalk s leaf expected now remaining current visited) cache := by
  have hentry : ∀ id entry, s.leases.lookup id = some entry → ∀ cache,
      EStateM.Raises OnTrack (validateCertificateEntry s entry) cache := by
    intro id entry hid cache
    obtain ⟨_, agents, -, hbound, hagents, hsame⟩ := (htrees.leases id entry hid).path_lengths
    exact validateCertificateEntry_onTrack hagents (by omega) cache
  induction hpath generalizing remaining visited cache with
  | @root id entry hfind hup =>
      obtain ⟨remaining, rfl⟩ : ∃ n, remaining = n + 1 :=
        ⟨remaining - 1, by simp at hlength; omega⟩
      refine chainWalk_succ_onTrack hfind (hvisited (id, entry) List.mem_cons_self)
        (hentry id entry hfind) fun ref href => ?_
      rw [LeaseEntry.parentId_eq_none.mp hup] at href
      cases href
  | @step id parent entry path hfind hup rest ih =>
      obtain ⟨remaining, rfl⟩ : ∃ n, remaining = n + 1 :=
        ⟨remaining - 1, by simp at hlength; omega⟩
      have hlength' : path.length ≤ remaining := by simpa using hlength
      have hpath : LeasePath s id ((id, entry) :: path) := .step hfind hup rest
      have hvisited' := hpath.not_mem_visited hvisited
      refine chainWalk_succ_onTrack hfind (hvisited (id, entry) List.mem_cons_self)
        (hentry id entry hfind) fun ref href cache => ?_
      obtain ⟨ref', href', rfl⟩ := LeaseEntry.parentId_eq_some.mp hup
      rw [href'] at href
      cases href
      exact ih hlength' hvisited'

-- ============================================================================
-- The trees of a reachable state
-- ============================================================================

theorem KernelStep.keepsRecordIds (hstep : KernelStep s s')
    (h : ∀ id entry, s.leases.lookup id = some entry → entry.record.leaseId = id) :
    ∀ id entry, s'.leases.lookup id = some entry → entry.record.leaseId = id := by
  intro id entry' hid
  rcases hstep.origin hid with ⟨entry, hentry, -⟩ | hissued
  · obtain ⟨record, hrecord, hrecordStep⟩ := hstep.record_step hentry
    rw [hid] at hrecord
    cases hrecord
    rw [← h id entry hentry]
    exact hrecordStep.leaseId
  · cases hissued with
    | delegated => rfl
    | renewed => rfl

theorem recordIds_of_reachable (hs : Reachable s) :
    ∀ id entry, s.leases.lookup id = some entry → entry.record.leaseId = id := by
  refine hs.invariant
    (P := fun t => ∀ id entry, t.leases.lookup id = some entry → entry.record.leaseId = id)
    ?_ fun t t' ht hstep => hstep.keepsRecordIds ht
  intro request custody now uuid s₀ hboot id entry hid
  obtain ⟨run, rfl⟩ := bootstrap_eq_ok hboot
  obtain ⟨rfl, rfl⟩ := run.eq_entry hid
  rfl

/-- The agents above a lease end where its path does, at an identity without issuer. -/
theorem getLast_agents {id : LeaseId} {agent : AgentId} {path : List (LeaseId × LeaseEntry)}
    {agents : List (AgentId × AgentIdentityCertificate)} (hpath : LeasePath s id path)
    (hagents : IssuerPath s agent agents) (hsame : agents.map Prod.fst = pathAgents path) :
    ∃ node identity, path.getLast? = some node ∧ node.2.parentId = none ∧
      agents.getLast? = some (node.2.certificate.agentId, identity) ∧
      s.identities.lookup node.2.certificate.agentId = some identity ∧
      identity.issuerAgentId = none := by
  obtain ⟨node, hlast, hup⟩ := hpath.getLast_eq
  obtain ⟨⟨last, identity⟩, hagentsLast, hissuer⟩ := hagents.getLast_eq
  have hfind : s.identities.lookup last = some identity :=
    hagents.find_of_mem (List.mem_of_getLast? hagentsLast)
  have heq : last = node.2.certificate.agentId := by
    have hboth := congrArg List.getLast? hsame
    rw [pathAgents, List.getLast?_map, List.getLast?_map, hagentsLast, hlast] at hboth
    exact Option.some.inj hboth
  subst heq
  exact ⟨node, identity, hlast, hup, hagentsLast, hfind, hissuer⟩

/-- In every reachable state the stored ids agree, every lease names the stored lease
    above it by the exact digest of its certificate, and its path leads, over no lease
    twice and within the bound, to a lease of the root line. The agents on the path are
    the issuers of its agent, up to the self-issued root identity. So neither walk ends
    with an error about a missing node, a cycle or the depth. -/
theorem leases_form_a_tree (hs : Reachable s) :
    (∀ id entry, s.leases.lookup id = some entry →
      entry.certificate.leaseId = id ∧ entry.record.leaseId = id) ∧
    (∀ id entry ref, s.leases.lookup id = some entry →
      entry.certificate.parentLease = some ref →
        ∃ above, s.leases.lookup ref.leaseId = some above ∧
          leaseRef above.certificate = .ok ref) ∧
    (∃ rootAgent rootIdentity rootLine,
      s.identities.lookup rootAgent = some rootIdentity ∧ SelfIssued rootIdentity ∧
      Lineage s rootAgent rootLine ∧ rootLine.getLast? = some s.rootLeaseId ∧
      ∀ id entry, s.leases.lookup id = some entry →
        ∃ path agents, LeasePath s id path ∧ (path.map Prod.fst).Nodup ∧
          path.length ≤ maxAuthorityChainDepth ∧
          (∃ node, path.getLast? = some node ∧ node.1 ∈ rootLine) ∧
          IssuerPath s entry.certificate.agentId agents ∧
          agents.map Prod.fst = pathAgents path ∧
          agents.getLast? = some (rootAgent, rootIdentity)) ∧
    (∀ id ∈ s.leases, ∀ expected now cache e cache',
      chainWalk s id expected now maxAuthorityChainDepth id [] cache = .error e cache' →
        e ∉ walkErrors) ∧
    (∀ agent ∈ s.identities, ∀ validated e,
      identityWalk s validated maxAuthorityChainDepth agent [] = .error e →
        e ∉ walkErrors) := by
  have hlife := Lifecycle.of_reachable hs
  have hlines := Lineages.of_reachable hs
  have htrees := Trees.of_reachable hs
  refine ⟨?_, ?_, ?_, ?_, ?_⟩
  · intro id entry hid
    exact ⟨hlife.keyed id entry hid, recordIds_of_reachable hs id entry hid⟩
  · intro id entry ref hid href
    exact (htrees.leases id entry hid).parent ref href
  · obtain ⟨rootAgent, hroot⟩ := hlines.root
    obtain ⟨identity, hregistered⟩ := hroot.registered
    obtain ⟨line, hline⟩ := hlines.lines rootAgent identity hregistered
    obtain ⟨rootEntry, hrootEntry, hrootAgent, hnone⟩ := hroot.held
    obtain ⟨agent, rootIdentity, hidentity, hself, honly⟩ := htrees.root
    have hlastLine : line.getLast? = some s.rootLeaseId :=
      hline.getLast_of_successor hrootEntry hrootAgent hnone
    -- the agent of the root line is the one without issuer
    obtain rfl : rootAgent = agent := by
      obtain ⟨path, agents, hpath, -, hagents, hsame⟩ :=
        (htrees.leases _ _ hrootEntry).path
      obtain ⟨node, last, hlast, hup, -, hlookup, hissuer⟩ := getLast_agents hpath hagents hsame
      have hnode : s.leases.lookup node.1 = some node.2 :=
        hpath.find_of_mem (List.mem_of_getLast? hlast)
      rw [← (hroot.parentless _ _ hnode).mp hup]
      exact honly _ _ hlookup hissuer
    refine ⟨rootAgent, rootIdentity, line, hidentity, hself, hline, hlastLine, ?_⟩
    intro id entry hid
    obtain ⟨path, agents, hpath, hlength, hagents, hsame⟩ := (htrees.leases id entry hid).path
    obtain ⟨node, last, hlast, hup, hagentsLast, hlookup, -⟩ := getLast_agents hpath hagents hsame
    have hnode : s.leases.lookup node.1 = some node.2 :=
      hpath.find_of_mem (List.mem_of_getLast? hlast)
    have hagent := (hroot.parentless _ _ hnode).mp hup
    refine ⟨path, agents, hpath, hpath.nodup, hlength, ⟨node, hlast, ?_⟩, hagents, hsame, ?_⟩
    · exact (hline.mem_iff node.1).mpr ⟨node.2, hnode, hagent⟩
    · rw [hagent, hidentity] at hlookup
      cases hlookup
      rw [hagentsLast, hagent]
  · intro id hid expected now cache e cache'
    obtain ⟨entry, hentry⟩ := AList.mem_iff_lookup.mp hid
    obtain ⟨path, agents, hpath, hlength, -⟩ := (htrees.leases id entry hentry).path
    exact chainWalk_onTrack htrees hpath hlength (by simp) e cache'
  · intro agent hagent validated e
    obtain ⟨identity, hidentity⟩ := AList.mem_iff_lookup.mp hagent
    obtain ⟨line, hline⟩ := hlines.lines agent identity hidentity
    obtain ⟨id, hid⟩ := List.exists_mem_of_ne_nil line hline.ne_nil
    obtain ⟨entry, hentry, rfl⟩ := (hline.mem_iff id).mp hid
    obtain ⟨path, agents, -, hlength, hagents, hsame⟩ :=
      (htrees.leases id entry hentry).path_lengths
    exact identityWalk_onTrack hagents (by omega) (by simp) e

omit [Externals] in
/-- In the reference kernel after a delegation, the parent reference of the second lease names
    the root lease as it is stored, and the issuers of its agent end at the root identity. -/
theorem leases_form_a_tree_reference : letI := Reference.externals
    ∃ (s : AuthorityState) (root child : LeaseId) (rootEntry childEntry : LeaseEntry)
      (ref : LeaseRef) (identity rootIdentity : AgentIdentityCertificate),
      Reachable s ∧ child ≠ root ∧ s.rootLeaseId = root ∧
      s.leases.lookup root = some rootEntry ∧ s.leases.lookup child = some childEntry ∧
      childEntry.certificate.leaseId = child ∧ childEntry.record.leaseId = child ∧
      childEntry.certificate.parentLease = some ref ∧ ref.leaseId = root ∧
      leaseRef rootEntry.certificate = .ok ref ∧
      LeasePath s child [(child, childEntry), (root, rootEntry)] ∧
      IssuerPath s Reference.childAgentId
        [(Reference.childAgentId, identity), (Reference.agentId, rootIdentity)] ∧
      SelfIssued rootIdentity := by
  let := Reference.externals
  obtain ⟨s, rootEntry, childEntry, h⟩ := Reference.exists_delegated
  obtain ⟨hkeyed, habove, ⟨_, rootIdentity, _, -, hself, -, -, hpaths⟩, -, -⟩ :=
    leases_form_a_tree h.reachable
  obtain ⟨hcertificate, hrecord⟩ := hkeyed _ _ h.lookup_child
  obtain ⟨ref, href, hroot⟩ := Option.map_eq_some_iff.mp h.child_parent
  obtain ⟨above, hlookup, hleaseRef⟩ := habove _ _ ref h.lookup_child href
  rw [hroot, h.lookup_root] at hlookup
  obtain rfl := Option.some.inj hlookup
  obtain ⟨path, agents, hpath, -, -, -, hagents, hsame, hlast⟩ := hpaths _ _ h.lookup_child
  obtain rfl := h.path.unique hpath
  rw [h.child_agent] at hagents
  obtain ⟨⟨first, identity⟩, ⟨last, rootIdentity'⟩, rfl⟩ : ∃ a b, agents = [a, b] :=
    List.length_eq_two.mp (by rw [← List.length_map Prod.fst, hsame]; rfl)
  obtain ⟨hfirst, hsecond⟩ : first = Reference.childAgentId ∧ last = Reference.agentId := by
    simpa [pathAgents, h.child_agent, h.root_agent] using hsame
  rw [hfirst, hsecond] at hagents
  obtain ⟨-, rfl⟩ := Prod.mk.inj (Option.some.inj hlast)
  exact ⟨s, _, _, rootEntry, childEntry, ref, identity, _, h.reachable, h.ne, h.rootId,
    h.lookup_root, h.lookup_child, hcertificate, hrecord, href, hroot, hleaseRef, h.path, hagents,
    hself⟩

end

end GenesisRuntime
