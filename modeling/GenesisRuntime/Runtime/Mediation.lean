/-
  GenesisRuntime.Runtime.Mediation

  What stands between the model and Nexus.  The registry is read twice, once to check a
  proposal and once to execute it; the manifest digest says that it is the same tool as
  far as the checks can tell, and the lease that bound it is the one that is live when
  the tokens are minted.
-/

import GenesisRuntime.Runtime.Drift
import GenesisRuntime.Runtime.Reference.Runs

namespace GenesisRuntime

section
variable [Externals]

-- ============================================================================
-- Tokens
-- ============================================================================

/-- A token is as it was asked for. -/
def CapabilityToken.IsFor (token : CapabilityToken) (capabilities : List Capability)
    (validity : Duration) : Prop :=
  token.capability ∈ capabilities ∧ token.validity = validity

/-- The tokens that are issued are as they were asked for; where the call succeeds, it
    returns them all. -/
theorem issueTokens_issued (input : Input) (capabilities : List Capability)
    (validity : Duration) (tokens : List CapabilityToken) :
    ∃ issued, (∀ token ∈ issued, token.IsFor capabilities validity) ∧
      World.tokensAfter (World.issueTokens input capabilities validity tokens)
        = tokens ++ issued ∧
      ∀ returned, finalValue (World.issueTokens input capabilities validity tokens)
        = .ok returned → returned = issued := by
  have hasked {issued : List CapabilityToken}
      (h : ∀ token ∈ issued, ∃ pair ∈ capabilities.zipIdx,
        token.capability = pair.1 ∧ token.validity = validity) :
      ∀ token ∈ issued, token.IsFor capabilities validity := by
    intro token htoken
    obtain ⟨pair, hpair, heq, hvalidity⟩ := h token htoken
    refine ⟨?_, hvalidity⟩
    rw [heq]
    exact List.fst_mem_of_mem_zipIdx hpair
  unfold World.issueTokens
  rw [EStateM.bind_apply]
  by_cases hfails : input.hypervisorFails = true
  · rw [rejectIf, if_pos hfails]
    refine ⟨[], by simp, (List.append_nil _).symm, fun returned hreturned => ?_⟩
    cases hreturned
  · rw [rejectIf, if_neg hfails]
    have hstep : ∀ pair : Capability × Nat, EStateM.Emits
        (fun token : CapabilityToken => token.capability = pair.1 ∧ token.validity = validity)
        (do
          rejectIf (input.tokenFails pair.2) .executionFailed "Nexus token issuance failed"
          let token : CapabilityToken := ⟨pair.1, "aeon-r2", validity⟩
          modify (· ++ [token])
          return token : EStateM RuntimeError (List CapabilityToken) CapabilityToken) := by
      intro pair tokens
      rw [EStateM.bind_apply]
      by_cases hfails : input.tokenFails pair.2 = true
      · rw [rejectIf, if_pos hfails]
        exact .inr ⟨_, rfl⟩
      · rw [rejectIf, if_neg hfails]
        exact .inl ⟨_, rfl, rfl, rfl⟩
    rcases EStateM.mapM_emits hstep capabilities.zipIdx tokens with
      ⟨issued, hissued, hpairs⟩ | ⟨e, issued, hissued, hpairs⟩
    · refine ⟨issued, hasked hpairs, ?_, fun returned hreturned => ?_⟩
      · exact congrArg World.tokensAfter hissued
      · have hvalue := (congrArg finalValue hissued).symm.trans hreturned
        cases hvalue
        rfl
    · refine ⟨issued, hasked hpairs, ?_, fun returned hreturned => ?_⟩
      · exact congrArg World.tokensAfter hissued
      · have hvalue := (congrArg finalValue hissued).symm.trans hreturned
        cases hvalue

theorem onStore_tokens {α : Type} (call : StoreM α) (w : World) :
    (w.onStore call).2.tokens = w.tokens := by
  unfold World.onStore
  split <;> rfl

/-- A consumption that succeeds has gone as far as its closure. -/
theorem reachesCommit_of_available {recordId : AuthorizationId} {generation : UInt64} {w : World}
    (h : ∃ record, w.store.authorizationRecords.find? (fun r => r.recordId = recordId)
      = some record ∧ InMemoryMissionStore.Available record generation) :
    w.reachesCommit recordId generation = true := by
  obtain ⟨record, hfind, havailable⟩ := h
  rw [World.reachesCommit, hfind, Option.any_some,
    InMemoryMissionStore.validateAvailableRecord_eq_ok.mpr havailable]
  rfl

/-- What a consumption mints. -/
theorem consume_issued (recordId : AuthorizationId) (generation : UInt64)
    (capabilities : List Capability) (validity : Duration) (input : Input) (w : World) :
    ∃ issued, (∀ token ∈ issued, token.IsFor capabilities validity) ∧
      (w.consume recordId generation capabilities validity input).2.tokens = w.tokens ++ issued ∧
      ∀ returned, (w.consume recordId generation capabilities validity input).1 = .ok returned →
        returned = issued := by
  obtain ⟨issued, hasked, htokens, hreturned⟩ :=
    issueTokens_issued input capabilities validity w.tokens
  unfold World.consume
  by_cases hreaches : w.reachesCommit recordId generation = true
  · simp only [if_pos hreaches]
    refine ⟨issued, hasked, (onStore_tokens _ _).trans htokens, fun returned hok => ?_⟩
    unfold World.onStore at hok
    split at hok
    · rename_i a store hconsume
      cases hok
      exact hreturned _ (InMemoryMissionStore.consumeAuthorizationWith_eq_ok.mp hconsume).2.1
    · cases hok
  · simp only [if_neg hreaches]
    refine ⟨[], nofun, (onStore_tokens _ _).trans (List.append_nil _).symm, fun returned hok => ?_⟩
    unfold World.onStore at hok
    split at hok
    · rename_i a store hconsume
      exact absurd (reachesCommit_of_available
        (InMemoryMissionStore.consumeAuthorizationWith_eq_ok.mp hconsume).1) hreaches
    · cases hok

-- ============================================================================
-- Coverage along the chain
-- ============================================================================

theorem covers_of_subset (htrans : SubsetTransitive) {set above : AuthoritySet}
    (hsubset : authorityIsSubsetOf set above = true) {capability : Capability}
    (h : set.covers capability = true) : above.covers capability = true := by
  obtain ⟨granted, hgranted, hcapability⟩ := List.any_eq_true.mp h
  obtain ⟨allowed, hallowed, hwider⟩ :=
    authorityIsSubsetOfCapabilities_iff.mp hsubset granted hgranted
  exact List.any_eq_true.mpr ⟨allowed, hallowed, htrans _ _ _ hcapability hwider⟩

/-- What a lease covers, every lease above it covers. -/
theorem covers_above (htrans : SubsetTransitive) {s : AuthorityState} (hatt : Attenuation s)
    {leafId : LeaseId} {path : List (LeaseId × LeaseEntry)} (hpath : LeasePath s leafId path)
    {capability : Capability}
    (hleaf : ∀ leaf, s.leases.lookup leafId = some leaf →
      leaf.certificate.grantedAuthority.covers capability = true) :
    ∀ node ∈ path, node.2.certificate.grantedAuthority.covers capability = true := by
  induction hpath with
  | @root id entry hfind hup =>
      intro node hnode
      obtain rfl := List.mem_singleton.mp hnode
      exact hleaf entry hfind
  | @step id parent entry path hfind hup rest ih =>
      have hparent : ∀ above, s.leases.lookup parent = some above →
          above.certificate.grantedAuthority.covers capability = true := by
        intro above habove
        obtain ⟨above', habove', hwithin⟩ := hatt.parent id entry hfind parent hup
        rw [habove] at habove'
        cases habove'
        exact covers_of_subset htrans (authorityIsSubsetOf_trans htrans hwithin.granted
          (hatt.mission parent above habove).delegable) (hleaf entry hfind)
      intro node hnode
      rcases List.mem_cons.mp hnode with rfl | hnode
      · exact hleaf _ hfind
      · exact ih hparent node hnode

-- ============================================================================
-- Mediation
-- ============================================================================

/-- What is executed: a tool of the mission that the lease was issued for, with the manifest
    that the lease and the certificate name, on the arguments whose digest is signed, which
    it accepts. -/
structure Mediated (rt : R1Runtime) (leaf : LeaseEntry) (certificate : ActionCertificate)
    (tool : RegisteredTool) (arguments : Json) : Prop where
  allowed : tool.manifest.toolId ∈ rt.mission.allowedTools
  named : certificate.toolId = tool.manifest.toolId
  approved : ⟨tool.manifest.toolId, certificate.toolManifestDigest⟩ ∈ leaf.manifest.approvedTools
  manifestDigest_eq : tool.manifestDigest = .ok certificate.toolManifestDigest
  inputDigest_eq : canonicalDigest "aeon-concrete-input-v1" arguments
    = .ok certificate.concreteInputDigest
  /-- No other arguments have the digest, up to the order of members. -/
  arguments_eq : ∀ other, canonicalDigest "aeon-concrete-input-v1" other
    = .ok certificate.concreteInputDigest → canonicalizeJson other = canonicalizeJson arguments
  signed : ∃ payload, certificate.signingPayload = .ok payload ∧
    Externals.verifies rt.keyCustody.verifyingKey payload certificate.signature.bytes = true
  accepted : tool.validateInput arguments = .ok ()

/-- A capability that the tool requires, within the mission and every lease of the chain. -/
structure Confined (rt : R1Runtime) (path : List (LeaseId × LeaseEntry)) (tool : RegisteredTool)
    (capability : Capability) : Prop where
  required : capability ∈ tool.toolDefinition.capabilities
  notAll : capability ≠ capabilityAll
  mission : ∃ allowed ∈ rt.mission.allowedCapabilities, isSubsetOf capability allowed = true
  chain : ∀ node ∈ path, node.2.certificate.grantedAuthority.covers capability = true

/-- An authorized action commits under live authority, for a mediated execution with confined
    capabilities. -/
def MediatesAt (rt : R1Runtime) (c : SystemState) (authorized : AuthorizedExecution)
    (commit : Commit rt.keyCustody authorized) (path : List (LeaseId × LeaseEntry)) (k : Nat) :
    Prop :=
  (∃ v r g m, AuthorizedAt c authorized v ∧ CommitsAt rt c authorized commit path v r g m k) ∧
    (∃ leaf, (authorized.certificate.authorityLeaseId, leaf) ∈ path ∧
      Mediated rt leaf authorized.certificate commit.tool authorized.arguments) ∧
    ∀ capability ∈ authorized.requiredCapabilities, Confined rt path commit.tool capability

section
variable {rt : R1Runtime} {init : World} {admits : World → Op → Input → Prop}
  {maySpawn : SystemState → Call → Prop} {c : SystemState}

/-- The lease that a turn has read is the leaf of the chain it commits under. -/
theorem snapshot_of_turn (run : Run rt.system init admits maySpawn c)
    (hfresh : ∀ w o input, admits w o input → FreshIds w o input) (call : ToolCall rt)
    {t k : Nat} {rest : History} (hhist : historyOf (c.trace.take k) t = call.inserted ++ rest)
    (hk : k ≤ c.trace.length) {leaf : LeaseEntry}
    (hleaf : (c.worldAt k).kernel.leases.lookup call.leaseId = some leaf) :
    leaf.certificate = call.authorization.snapshot.certificate ∧
      leaf.manifest = call.authorization.snapshot.manifest := by
  have hsplit : historyOf (c.trace.take k) t = call.planned
      ++ ⟨.leaseSnapshot call.leaseId, .ok call.authorization.snapshot⟩ ::
        (call.authorization.events.drop 1
          ++ (call.inserted.drop call.authorized.length ++ rest)) := by
    rw [hhist]
    simp [ToolCall.inserted, ToolCall.issued, ToolCall.reserved, ToolCall.authorized,
      Authorization.events, R1Runtime.authorizeRequest]
  obtain ⟨l, e, hlk, hl, -, hev, -, -⟩ := exists_position hsplit
  exact lease_fixed run hfresh (by omega) hk (orReject_eq_ok.mp (resp_eq run hl hev)) hleaf

section
variable (hcollision : CollisionFree) (htext : JsonTextInjective) (hhex : HexInjective)
  (hcap : CapabilitySerializationInjective) (hround : CapabilityRoundTrip)
  (htrans : SubsetTransitive)
include hcollision htext hhex hcap hround htrans

/-- A turn that has come to its consumption is mediated. -/
theorem mediatesAt_of_turn (run : Run rt.system init admits maySpawn c)
    (hfresh : ∀ w o input, admits w o input → FreshIds w o input) (boot : Bootstrapped rt init)
    (call : ToolCall rt) (commit : Commit rt.keyCustody call.authorization.execution) {t k : Nat}
    (hk : k ≤ c.trace.length)
    (hhist : historyOf (c.trace.take k) t = call.inserted ++ commit.events) :
    ∃ path, MediatesAt rt c call.authorization.execution commit path k := by
  obtain ⟨path, v, r, g, m, hat, hcommits⟩ := commitsAt_of_history run hfresh commit hk hhist
    fun r _ _ _ hr => authorizedAt_of_turn call hr
  have hvk : v ≤ k := by
    have := hcommits.order
    omega
  have hpath := hcommits.chain k hvk le_rfl
  obtain ⟨leaf, hleaf, -⟩ := hcommits.manifest
  have hlookup := hpath.find_of_mem hleaf
  obtain ⟨hcertificate, hmanifest⟩ := snapshot_of_turn run hfresh call hhist hk hlookup
  -- the tool that was checked and the tool that is executed agree
  obtain ⟨hfind, -⟩ := resolve_eq_ok hcommits.snapshot
  have hid : commit.tool.manifest.toolId = call.proposal.toolId :=
    (ToolRegistry.find_eq_some hfind).2
  obtain ⟨-, hrequired, hinput⟩ := agree_of_manifestDigest hcollision htext hhex hcap hround
    call.authorization.manifestDigest_eq commit.manifestDigest_eq
  obtain ⟨haccepted, hall, hcovered⟩ := checkTool_eq_ok call.authorization.checked
  obtain ⟨-, hnamed, -, hdigest, -, hsigned⟩ :=
    validateActionCertificate_eq_ok.mp commit.certificate_ok
  refine ⟨path, ⟨v, r, g, m, hat, hcommits⟩, ⟨leaf, hleaf, ?_⟩, fun capability hcapability => ?_⟩
  · exact
      { allowed := hid ▸ call.authorization.toolAllowed
        named := hid.symm
        approved := by
          rw [hid, hmanifest]
          exact call.authorization.bound
        manifestDigest_eq := commit.manifestDigest_eq
        inputDigest_eq := hdigest
        arguments_eq := fun other hother => schema_of_digest hcollision htext hother hdigest
        signed := hsigned
        accepted := (hinput _).mp haccepted }
  · obtain ⟨hmission, hgranted⟩ := hcovered capability hcapability
    exact
      { required := (hrequired capability).mp hcapability
        notAll := by
          rintro rfl
          exact hall hcapability
        mission := hmission
        chain := by
          refine covers_above htrans
            (Attenuation.of_reachable htrans (kernel_reachable run hfresh boot hk)) hpath ?_
          intro leaf' hleaf'
          rw [hlookup] at hleaf'
          cases hleaf'
          rw [hcertificate]
          exact hgranted }

end

/-- What the step of a consumption mints. -/
theorem issued_of_consume (run : Run rt.system init admits maySpawn c) {k : Nat} {e : Step}
    (he : c.trace[k]? = some e) {recordId : AuthorizationId} {generation : UInt64}
    {capabilities : List Capability} {validity : Duration}
    (hop : e.op = .consume recordId generation capabilities validity) :
    ∃ issued, (∀ token ∈ issued, token.IsFor capabilities validity) ∧
      e.post.tokens = e.pre.tokens ++ issued ∧
      ∀ returned, e.event = ⟨.consume recordId generation capabilities validity, .ok returned⟩ →
        returned = issued := by
  have hexec := exec_eq run he
  obtain ⟨t, o, input, resp, pre, post⟩ := e
  obtain rfl : o = .consume recordId generation capabilities validity := hop
  have hexec : pre.consume recordId generation capabilities validity input = (resp, post) := hexec
  obtain ⟨issued, hasked, htokens, hreturned⟩ :=
    consume_issued recordId generation capabilities validity input pre
  rw [hexec] at htokens hreturned
  refine ⟨issued, hasked, htokens, fun returned hev => hreturned returned ?_⟩
  simpa [Entry.event] using hev

section
variable (hcollision : CollisionFree) (htext : JsonTextInjective) (hhex : HexInjective)
  (hcap : CapabilitySerializationInjective) (hround : CapabilityRoundTrip)
  (htrans : SubsetTransitive)
include hcollision htext hhex hcap hround htrans

/-- Every token is minted by a mediated commit, for a capability that its tool requires, and
    confined to the mission and the chain; and Nexus is only called after such a commit, with
    the tool, the arguments and the tokens of it. -/
theorem nexus_entries_are_mediated (run : PublicRun rt init FreshIds c)
    (boot : Bootstrapped rt init) :
    (∀ (k : Nat) (e : Step), c.trace[k]? = some e →
      ∃ issued, e.post.tokens = e.pre.tokens ++ issued ∧ ∀ token ∈ issued,
        ∃ authorized commit path, MediatesAt rt c authorized commit path k ∧
          e.op = commit.consume ∧ Confined rt path commit.tool token.capability) ∧
    ∀ (k : Nat) (e : Step) definition arguments tokens, c.trace[k]? = some e →
      e.op = .executeTool definition arguments tokens →
      ∃ authorized commit path j e', j < k ∧ c.trace[j]? = some e' ∧ e'.tid = e.tid ∧
        MediatesAt rt c authorized commit path j ∧
        e'.event = ⟨commit.consume, .ok tokens⟩ ∧ e'.post.tokens = e'.pre.tokens ++ tokens ∧
        definition = commit.tool.toolDefinition ∧ arguments = authorized.arguments ∧
        ∀ token ∈ tokens, Confined rt path commit.tool token.capability := by
  have hmediates {t k : Nat} (call : ToolCall rt)
      (commit : Commit rt.keyCustody call.authorization.execution) (hk : k ≤ c.trace.length)
      (hhist : historyOf (c.trace.take k) t = call.inserted ++ commit.events) :
      ∃ path, MediatesAt rt c call.authorization.execution commit path k :=
    mediatesAt_of_turn hcollision htext hhex hcap hround htrans run (fun _ _ _ h => h) boot call
      commit hk hhist
  refine ⟨fun k e he => ?_, fun k e definition arguments tokens he hop => ?_⟩
  · cases hop : e.op with
    | consume recordId generation capabilities validity =>
        obtain ⟨-, hbefore⟩ := run.before he (by rw [hop]; rfl) (by rw [hop]; rfl)
        rw [hop] at hbefore
        obtain ⟨call, commit, hhist, hconsume⟩ := hbefore
        obtain ⟨path, hat⟩ :=
          hmediates call commit (List.getElem?_eq_some_iff.mp he).1.le hhist
        rw [hconsume] at hop
        obtain ⟨issued, hasked, htokens, -⟩ := issued_of_consume run he hop
        exact ⟨issued, htokens, fun token htoken =>
          ⟨_, commit, path, hat, hconsume, hat.2.2 _ (hasked token htoken).1⟩⟩
    | _ =>
        refine ⟨[], ?_, nofun⟩
        rw [List.append_nil, ← post_eq run he]
        exact (exec_of_not_consume (by rw [hop]; rfl)).1
  · obtain ⟨-, hbefore⟩ := run.before he (by rw [hop]; rfl) (by rw [hop]; rfl)
    rw [hop] at hbefore
    obtain ⟨call, commit, hhist, hexecute⟩ := hbefore
    obtain ⟨j, e', hjk, he', htid, hev, hbefore, -⟩ :=
      exists_position (hhist.trans (commit.append_entered _ _ _))
    obtain ⟨path, hat⟩ := hmediates call commit (List.getElem?_eq_some_iff.mp he').1.le hbefore
    obtain ⟨issued, hasked, htokens, hreturned⟩ :=
      issued_of_consume run he' (congrArg Prog.Event.op hev)
    obtain rfl := hreturned tokens hev
    obtain ⟨hdefinition, harguments, -⟩ := Op.executeTool.inj hexecute
    exact ⟨_, commit, path, j, e', hjk, he', htid, hat, hev, htokens, hdefinition, harguments,
      fun token htoken => hat.2.2 _ (hasked token htoken).1⟩

end

omit [Externals] in
/-- The reference runtime calls its tool with one token, which a mediated commit has minted. -/
theorem nexus_entries_are_mediated_reference : letI := Reference.externals
    ∃ (rt : R1Runtime) (init : World) (c : SystemState) (k : Nat) (e : Step)
      (definition : ToolDefinition) (arguments : Json) (tokens : List CapabilityToken),
      Bootstrapped rt init ∧ PublicRun rt init FreshIds c ∧ c.trace[k]? = some e ∧
      e.op = .executeTool definition arguments tokens ∧
      tokens.map CapabilityToken.capability = [.fileRead] ∧
      ∃ authorized commit path j e', j < k ∧ c.trace[j]? = some e' ∧ e'.tid = e.tid ∧
        MediatesAt rt c authorized commit path j ∧
        e'.event = ⟨commit.consume, .ok tokens⟩ ∧ e'.post.tokens = e'.pre.tokens ++ tokens ∧
        definition = commit.tool.toolDefinition ∧ arguments = authorized.arguments ∧
        ∀ token ∈ tokens, Confined rt path commit.tool token.capability := by
  let := Reference.externals
  obtain ⟨rt, w, tool, ⟨act⟩⟩ := Reference.exists_activated
  obtain ⟨c, run, -, k, e, definition, arguments, tokens, he, hop, htokens⟩ :=
    act.exists_executed (fun _ call => call.isPublic = true) act.allows_freshIds rfl
  exact ⟨rt, w, c, k, e, definition, arguments, tokens, act.bootstrapped, run, he, hop, htokens,
    (nexus_entries_are_mediated Reference.collisionFree Reference.jsonTextInjective
      Reference.hexInjective Reference.capabilitySerializationInjective
      Reference.capabilityRoundTrip Reference.subsetPreorder.transitive run act.bootstrapped).2
      k e definition arguments tokens he hop⟩

end

end

end GenesisRuntime
