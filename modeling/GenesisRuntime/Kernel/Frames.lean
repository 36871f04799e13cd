/-
  GenesisRuntime.Kernel.Frames

  What the result of `validate_chain` depends on.

  Of the clock: nothing but whether the leaf has expired, since no lease of a valid
  chain expires before it.  Of the state: the leases on the chain, the predecessors
  they were renewed from, and the identities of their agents.  In a run of the kernel
  these are pinned by the generations of the leases on the chain, which is what
  callers compare (`observed_generations`).
-/

import GenesisRuntime.Kernel.Expiry
import GenesisRuntime.Kernel.Lineage
import GenesisRuntime.Kernel.Soundness

namespace GenesisRuntime

section
variable [Externals] {s s' : AuthorityState}

-- ============================================================================
-- The clock
-- ============================================================================

section
variable {leaf : LeaseId} {expected : Option Nat} {now later : DateTime}

/-- A record that passes at one time passes at any time before its lease expires. -/
theorem validateActiveRecord_clock {entry : LeaseEntry}
    (h : validateActiveRecord entry expected now = .ok ())
    (hlater : later < entry.certificate.expiresAt) :
    validateActiveRecord entry expected later = .ok () := by
  obtain ⟨hgeneration, hstate, -⟩ := validateActiveRecord_eq_ok.mp h
  exact validateActiveRecord_eq_ok.mpr ⟨hgeneration, hstate, hlater⟩

/-- The walk goes the same way as long as no lease on it has expired. -/
theorem chainWalk_clock {remaining : Nat} {current : LeaseId} {visited : List LeaseId}
    {cache cache' : List AgentId} {path : List (LeaseId × LeaseEntry)}
    (h : chainWalk s leaf expected now remaining current visited cache = .ok path cache')
    (hlater : ∀ node ∈ path, later < node.2.certificate.expiresAt) :
    chainWalk s leaf expected later remaining current visited cache = .ok path cache' := by
  induction remaining generalizing current visited cache path with
  | zero => simp [chainWalk, EStateM.throw_eq_ok] at h
  | succ remaining ih =>
      obtain ⟨hvisited, entry, cache₁, hentry, hactive, hcert, hend | hstep⟩ := chainWalk_succ.mp h
      · obtain ⟨hparent, rfl, rfl⟩ := hend
        exact chainWalk_succ.mpr ⟨hvisited, entry, _, hentry,
          validateActiveRecord_clock hactive (hlater (current, entry) List.mem_cons_self), hcert,
          .inl ⟨hparent, rfl, rfl⟩⟩
      · obtain ⟨parent, rest, hparent, hrest, rfl⟩ := hstep
        exact chainWalk_succ.mpr ⟨hvisited, entry, cache₁, hentry,
          validateActiveRecord_clock hactive (hlater (current, entry) List.mem_cons_self), hcert,
          .inr ⟨parent, rest, hparent,
            ih hrest fun node hnode => hlater node (List.mem_cons_of_mem _ hnode), rfl⟩⟩

/-- What is said of a lease that has expired, where nothing else is wrong with it. -/
theorem validateActiveRecord_expired {entry : LeaseEntry}
    (h : validateActiveRecord entry expected now = .ok ())
    (hlater : entry.certificate.expiresAt ≤ later) :
    validateActiveRecord entry expected later
      = .error ⟨.leaseInactive, "authority chain contains an inactive or expired lease"⟩ := by
  obtain ⟨hgeneration, -⟩ := validateActiveRecord_eq_ok.mp h
  have hbad : entry.record.state ≠ .active ∨ later ≥ entry.certificate.expiresAt := .inr hlater
  unfold validateActiveRecord
  cases expected with
  | none =>
      rw [rejectIf, if_pos hbad]
      rfl
  | some generation =>
      have hmatch : requireGeneration entry.record generation = .ok () :=
        rejectIf_eq_ok.mpr (not_not.mpr (hgeneration generation rfl))
      simp only [hmatch]
      rw [rejectIf, if_pos hbad]
      rfl

/-- The walk ends at a leaf that is inactive. -/
theorem chainWalk_expired {entry : LeaseEntry} {remaining : Nat} {cache : List AgentId}
    {e : RuntimeError} (hentry : s.leases.lookup leaf = some entry)
    (hrecord : validateActiveRecord entry expected later = .error e) :
    chainWalk s leaf expected later (remaining + 1) leaf [] cache = .error e cache := by
  rw [chainWalk]
  simp only [List.not_mem_nil, if_true, hentry, orReject, pure_bind, hrecord]
  rfl

/-- No lease of a valid chain expires before its leaf. -/
theorem expiresAt_le_of_attenuated {entry : LeaseEntry} {rest : List (LeaseId × LeaseEntry)}
    (h : ((leaf, entry) :: rest).IsChain AttenuatedFrom) :
    ∀ node ∈ (leaf, entry) :: rest, entry.certificate.expiresAt ≤ node.2.certificate.expiresAt := by
  induction rest generalizing leaf entry with
  | nil => simp
  | cons above rest ih =>
      obtain ⟨hlink, hrest⟩ := List.isChain_cons_cons.mp h
      obtain ⟨-, -, hexpires, -⟩ := validateParentChild_eq_ok.mp hlink
      intro node hnode
      rcases List.mem_cons.mp hnode with rfl | hnode
      · exact le_rfl
      · exact hexpires.trans (ih hrest node hnode)

end

/-- The clock only decides whether the leaf has expired. -/
theorem validateChain_clock {s : AuthorityState} {leaf : LeaseId} {expected : Option Nat}
    {manifest : CapabilityManifest} {now : DateTime} {v : ValidatedAuthority}
    (h : validateChain s leaf expected manifest now = .ok v) (later : DateTime) :
    (later < v.leafExpiresAt → validateChain s leaf expected manifest later = .ok v) ∧
      (v.leafExpiresAt ≤ later → validateChain s leaf expected manifest later
        = .error ⟨.leaseInactive, "authority chain contains an inactive or expired lease"⟩) := by
  obtain ⟨path, cache, entry, digest, chain, hwalk, hattn, hhead, hd, hd', hrefs, hvalue⟩ :=
    validateChain_eq_ok.mp h
  have hleaf : v.leafExpiresAt = entry.certificate.expiresAt := by rw [hvalue]
  obtain ⟨rest, rfl⟩ : ∃ rest, path = (leaf, entry) :: rest := by
    obtain ⟨entry', rest, rfl, -⟩ := (chainWalk_sound hwalk).1.head_eq
    rw [List.head?_cons] at hhead
    cases hhead
    exact ⟨rest, rfl⟩
  have hexpires := expiresAt_le_of_attenuated hattn
  rw [hleaf]
  constructor <;> intro hlater
  · exact validateChain_eq_ok.mpr ⟨_, cache, entry, digest, chain,
      chainWalk_clock hwalk fun node hnode => lt_of_lt_of_le hlater (hexpires node hnode),
      hattn, hhead, hd, hd', hrefs, hvalue⟩
  · obtain ⟨-, entry', -, hentry, hactive, -⟩ := chainWalk_succ.mp hwalk
    have hentry' := (chainWalk_sound hwalk).1.find_of_mem List.mem_cons_self
    rw [hentry] at hentry'
    cases hentry'
    rw [if_pos rfl] at hactive
    rw [validateChain, EStateM.run, maxAuthorityChainDepth,
      chainWalk_expired hentry (validateActiveRecord_expired hactive hlater)]
    rfl

/-- Whatever the state is, a chain that can be validated at all is valid up to one moment: at
    every clock before the leaf expires the validation returns the same value, and at every
    clock from then on it says that the chain is inactive or expired. -/
theorem validity_ends_with_the_leaf (s : AuthorityState) (leaf : LeaseId)
    (expected : Option Nat) (manifest : CapabilityManifest) :
    (∀ now v, validateChain s leaf expected manifest now ≠ .ok v) ∨
    ∃ v, ∀ now,
      (now < v.leafExpiresAt → validateChain s leaf expected manifest now = .ok v) ∧
      (v.leafExpiresAt ≤ now → validateChain s leaf expected manifest now
        = .error ⟨.leaseInactive, "authority chain contains an inactive or expired lease"⟩) := by
  by_cases hnever : ∀ now v, validateChain s leaf expected manifest now ≠ .ok v
  · exact .inl hnever
  push Not at hnever
  obtain ⟨now, v, hv⟩ := hnever
  exact .inr ⟨v, validateChain_clock hv⟩

-- ============================================================================
-- The state
-- ============================================================================

/-- The two states agree on some leases and some agents, and a walk that starts at one of
    these leases only comes to these leases and agents. -/
structure Agrees (s s' : AuthorityState) (leases : Set LeaseId) (agents : Set AgentId) : Prop where
  mission : s'.mission = s.mission
  lease : ∀ id ∈ leases, s'.leases.lookup id = s.leases.lookup id
  identity : ∀ agent ∈ agents, s'.identities.lookup agent = s.identities.lookup agent
  parent : ∀ id ∈ leases, ∀ entry, s.leases.lookup id = some entry →
    ∀ ref, entry.certificate.parentLease = some ref → ref.leaseId ∈ leases
  predecessor : ∀ id ∈ leases, ∀ entry, s.leases.lookup id = some entry →
    ∀ ref, entry.certificate.renewedFrom = some ref →
      s'.leases.lookup ref.leaseId = s.leases.lookup ref.leaseId
  subject : ∀ id ∈ leases, ∀ entry, s.leases.lookup id = some entry →
    entry.certificate.agentId ∈ agents ∧
      entry.certificate.parentAgentId.getD entry.certificate.agentId ∈ agents
  issuer : ∀ agent ∈ agents, ∀ identity, s.identities.lookup agent = some identity →
    ∀ issuerId, identity.issuerAgentId = some issuerId → issuerId ∈ agents

omit [Externals] in
/-- What follows a look-up matters for what is found only. -/
theorem orReject_bind_congr {σ α β : Type} {code : ErrorCode} {message : String} {o : Option α}
    {f g : α → EStateM RuntimeError σ β} (hfg : ∀ a, o = some a → f a = g a) :
    (orReject code message o >>= f) = (orReject code message o >>= g) := by
  cases o with
  | none => rfl
  | some a =>
      simp only [orReject, pure_bind]
      exact hfg a rfl

namespace Agrees

variable {leases : Set LeaseId} {agents : Set AgentId} (h : Agrees s s' leases agents)

include h

theorem identityWalk_eq {validated : List AgentId} {remaining : Nat} {agent : AgentId}
    {visited : List AgentId} (hagent : agent ∈ agents) :
    identityWalk s' validated remaining agent visited
      = identityWalk s validated remaining agent visited := by
  induction remaining generalizing agent visited with
  | zero => rfl
  | succ remaining ih =>
      rw [identityWalk, identityWalk, h.identity agent hagent]
      cases hidentity : s.identities.lookup agent with
      | none => rfl
      | some identity =>
          simp only [orReject, pure_bind]
          cases hissuer : identity.issuerAgentId with
          | none => rfl
          | some issuerId =>
              have hin := h.issuer agent hagent identity hidentity issuerId hissuer
              simp only [h.identity issuerId hin, ih hin]

theorem validateIdentityChain_eq {agent : AgentId} (hagent : agent ∈ agents) :
    validateIdentityChain s' agent = validateIdentityChain s agent := by
  simp only [validateIdentityChain, h.identityWalk_eq hagent]

theorem validateBindings_eq {id : LeaseId} {entry : LeaseEntry} (hid : id ∈ leases)
    (hentry : s.leases.lookup id = some entry) (subject : AgentIdentityCertificate) :
    validateBindings s' entry subject = validateBindings s entry subject := by
  have hissuer := h.identity _ (h.subject id hid entry hentry).2
  simp only [validateBindings, hissuer]
  cases hfrom : entry.certificate.renewedFrom with
  | none => rfl
  | some ref => simp only [h.predecessor id hid entry hentry ref hfrom]

theorem validateCertificateEntry_eq {id : LeaseId} {entry : LeaseEntry} (hid : id ∈ leases)
    (hentry : s.leases.lookup id = some entry) :
    validateCertificateEntry s' entry = validateCertificateEntry s entry := by
  have hsubject := (h.subject id hid entry hentry).1
  simp only [validateCertificateEntry, h.mission, h.identity _ hsubject,
    h.validateIdentityChain_eq hsubject, h.validateBindings_eq hid hentry]

theorem chainWalk_eq {leaf : LeaseId} {expected : Option Nat} {now : DateTime} {remaining : Nat}
    {current : LeaseId} {visited : List LeaseId} (hcurrent : current ∈ leases) :
    chainWalk s' leaf expected now remaining current visited
      = chainWalk s leaf expected now remaining current visited := by
  induction remaining generalizing current visited with
  | zero => rfl
  | succ remaining ih =>
      rw [chainWalk, chainWalk, h.lease current hcurrent]
      refine bind_congr fun _ => orReject_bind_congr fun entry hentry => bind_congr fun _ => ?_
      rw [h.validateCertificateEntry_eq hcurrent hentry]
      refine bind_congr fun _ => ?_
      cases hparent : entry.certificate.parentLease with
      | none => rfl
      | some ref => simp only [ih (h.parent current hcurrent entry hentry ref hparent)]

/-- Where the states agree, validations agree, also in the error they report. -/
theorem validateChain_eq {leaf : LeaseId} (hleaf : leaf ∈ leases) (expected : Option Nat)
    (manifest : CapabilityManifest) (now : DateTime) :
    validateChain s' leaf expected manifest now = validateChain s leaf expected manifest now := by
  simp only [validateChain, h.chainWalk_eq hleaf]

end Agrees

-- ============================================================================
-- Generations
-- ============================================================================

theorem KernelRun.keepsIdentity (run : KernelRun s s') {agent : AgentId}
    {identity : AgentIdentityCertificate} (hid : s.identities.lookup agent = some identity) :
    s'.identities.lookup agent = some identity := by
  exact run.preserves (P := fun t => t.identities.lookup agent = some identity) hid
    fun t t' ht hstep => (hstep.keepsIdentity ht).1

/-- The agent of a registered identity has an issuer path: it has leases, and they are
    placed. -/
theorem exists_issuerPath (hs : Reachable s) {agent : AgentId}
    {identity : AgentIdentityCertificate} (hid : s.identities.lookup agent = some identity) :
    ∃ path, IssuerPath s agent path := by
  obtain ⟨line, hline⟩ := (Lineages.of_reachable hs).lines agent identity hid
  obtain ⟨id, hmem⟩ := List.exists_mem_of_ne_nil line hline.ne_nil
  obtain ⟨entry, hentry, rfl⟩ := (hline.mem_iff id).mp hmem
  obtain ⟨-, agents, -, -, hagents, -⟩ := ((Trees.of_reachable hs).leases id entry hentry).path
  exact ⟨agents, hagents⟩

/-- In a run, the states agree on the chain of a lease and the identities behind it, if the
    leases of the chain have kept their generations. -/
theorem agrees_of_generations (hs : Reachable s) (run : KernelRun s s') {leaf : LeaseId}
    (hgenerations : ∀ id, LeaseBelow s id leaf → ∀ entry, s.leases.lookup id = some entry →
      ∃ entry', s'.leases.lookup id = some entry' ∧
        entry'.record.generation = entry.record.generation) :
    Agrees s s' {id | id ∈ s.leases ∧ LeaseBelow s id leaf}
      {agent | ∃ path, IssuerPath s agent path} := by
  have hlineages := Lineages.of_reachable hs
  have hlife := Lifecycle.of_reachable hs
  constructor
  · exact run.mission_eq
  · rintro id ⟨hmem, hbelow⟩
    obtain ⟨entry, hentry⟩ := Option.isSome_iff_exists.mp (AList.lookup_isSome.mpr hmem)
    obtain ⟨entry', hentry', hgeneration⟩ := hgenerations id hbelow entry hentry
    obtain ⟨heq, hlater⟩ := run.keepsLeases.eq_withRecord hentry hentry'
    rw [hentry, hentry', heq, hlater.eq_of_generation hgeneration]
  · rintro agent ⟨path, hpath⟩
    obtain ⟨identity, rest, -, hid⟩ := hpath.head_eq
    rw [hid, run.keepsIdentity hid]
  · rintro id ⟨-, hbelow⟩ entry hentry ref href
    obtain ⟨above, habove, -⟩ := ((Trees.of_reachable hs).leases id entry hentry).parent ref href
    refine ⟨AList.mem_of_lookup habove, Relation.ReflTransGen.head ⟨entry, hentry, ?_⟩ hbelow⟩
    rw [LeaseEntry.parentId, href]
    rfl
  · -- the predecessor has been retired, and stays as it is
    rintro id ⟨-, -⟩ entry hentry ref href
    obtain ⟨old, hrenewed, -⟩ := hlineages.renewedFrom_eq hlife hentry href
    obtain ⟨record, hrecord, hlater⟩ := run.keepsLeases _ _ hrenewed.entry_eq
    rw [hrenewed.entry_eq, hrecord, hlater.eq_of_dead ?_]
    rw [hrenewed.retired]
    rfl
  · rintro id ⟨-, -⟩ entry hentry
    obtain ⟨identity, hidentity⟩ := hlineages.registered id entry hentry
    obtain ⟨issuer, hissuer, -⟩ := (hlineages.issuers id entry hentry).identity
    exact ⟨exists_issuerPath hs hidentity, exists_issuerPath hs hissuer⟩
  · rintro agent ⟨path, hpath⟩ identity hid issuerId hissuer
    obtain ⟨rest, hrest, -⟩ := hpath.rest hid hissuer
    exact ⟨rest, hrest⟩

/-- The path a validation walked is read back from the generations it observed. -/
theorem ValidChain.keys_eq {leaf : LeaseId} {expected : Option Nat} {manifest : CapabilityManifest}
    {now : DateTime} {v : ValidatedAuthority} {entry : LeaseEntry}
    {path : List (LeaseId × LeaseEntry)}
    (h : ValidChain s leaf expected manifest now v entry path) :
    path.map (fun node => (node.1, node.2.record.generation)) = v.observedGenerations.reverse := by
  rw [h.generations_eq, ← List.map_reverse, List.reverse_reverse]

/-- The path determines the value. -/
theorem ValidChain.value_eq {leaf : LeaseId} {expected expected' : Option Nat}
    {manifest manifest' : CapabilityManifest} {now now' : DateTime} {v v' : ValidatedAuthority}
    {entry : LeaseEntry} {path : List (LeaseId × LeaseEntry)}
    (h : ValidChain s leaf expected manifest now v entry path)
    (h' : ValidChain s' leaf expected' manifest' now' v' entry path) : v' = v := by
  have hchain := h.chain_eq
  rw [h'.chain_eq] at hchain
  cases v
  cases v'
  rw [ValidatedAuthority.mk.injEq]
  exact ⟨h'.leafLeaseId_eq.trans h.leafLeaseId_eq.symm,
    h'.leafExpiresAt_eq.trans h.leafExpiresAt_eq.symm,
    h'.identityDigest_eq.trans h.identityDigest_eq.symm,
    h'.manifestDigest_eq.trans h.manifestDigest_eq.symm,
    h'.contextDigest_eq.trans h.contextDigest_eq.symm, Except.ok.inj hchain,
    h'.generations_eq.trans h.generations_eq.symm⟩

/-- Between two states of a run, the generations of the leases on a chain say all there is to
    say about its validation: where they are the same, it comes to the same result, errors
    included, for every expected generation, manifest and clock. And two validations that
    succeed, whenever and of whatever lease, with the same generations observed return the
    same value: what callers compare beside the generations never differs. -/
theorem generations_pin_validation (hs : Reachable s) (run : KernelRun s s') :
    (∀ leaf ∈ s.leases,
      (∀ id, LeaseBelow s id leaf → ∀ entry, s.leases.lookup id = some entry →
        ∃ entry', s'.leases.lookup id = some entry' ∧
          entry'.record.generation = entry.record.generation) →
      ∀ expected manifest now,
        validateChain s' leaf expected manifest now = validateChain s leaf expected manifest now) ∧
    ∀ leaf leaf' expected expected' manifest manifest' now now' v v',
      validateChain s leaf expected manifest now = .ok v →
      validateChain s' leaf' expected' manifest' now' = .ok v' →
      v'.observedGenerations = v.observedGenerations → v' = v := by
  refine ⟨fun leaf hleaf hgenerations expected manifest now => ?_, ?_⟩
  · exact (agrees_of_generations hs run hgenerations).validateChain_eq
      ⟨hleaf, Relation.ReflTransGen.refl⟩ expected manifest now
  intro leaf leaf' expected expected' manifest manifest' now now' v v' hv hv' hsame
  obtain ⟨entry, path, hvalid⟩ := validateChain_sound hv
  obtain ⟨entry', path', hvalid'⟩ := validateChain_sound hv'
  -- the two paths are the same, lease by lease
  have hpaths : path' = path := by
    have hkeys := hvalid'.keys_eq.trans ((congrArg List.reverse hsame).trans hvalid.keys_eq.symm)
    refine List.ext_getElem? fun i => ?_
    have hi := congrArg (fun keys => keys[i]?) hkeys
    simp only [List.getElem?_map] at hi
    cases hnode : path[i]? with
    | none =>
        rw [hnode] at hi
        exact Option.map_eq_none_iff.mp hi
    | some node =>
        rw [hnode] at hi
        obtain ⟨node', hnode', heq⟩ := Option.map_eq_some_iff.mp hi
        obtain ⟨hid, hgeneration⟩ := Prod.mk.inj heq
        have hfind := hvalid.isPath.find_of_mem (List.mem_of_getElem? hnode)
        have hfind' := hvalid'.isPath.find_of_mem (List.mem_of_getElem? hnode')
        rw [hid] at hfind'
        obtain ⟨hentry, hlater⟩ := run.keepsLeases.eq_withRecord hfind hfind'
        rw [hlater.eq_of_generation hgeneration] at hentry
        rw [hnode', Prod.ext hid hentry]
  subst hpaths
  have hleaf : (leaf', entry') = (leaf, entry) := by
    obtain ⟨v₀, rest, hcons, hv₀⟩ := hvalid.isPath.head_eq
    obtain ⟨v₁, rest', hcons', hv₁⟩ := hvalid'.isPath.head_eq
    rw [hvalid.entry_eq] at hv₀
    rw [hvalid'.entry_eq] at hv₁
    cases hv₀
    cases hv₁
    rw [hcons] at hcons'
    exact (List.cons.inj hcons').1.symm
  obtain ⟨rfl, rfl⟩ := Prod.mk.inj hleaf
  exact hvalid.value_eq hvalid'

omit [Externals] in
/-- The second lease of the reference kernel is paused: the generation of the root lease stays
    the same, and it validates as before. -/
theorem generations_pin_validation_reference : letI := Reference.externals
    ∃ (s s' : AuthorityState) (root child : LeaseId) (childEntry : LeaseEntry)
      (record : LeaseRecord) (v : ValidatedAuthority), Reachable s ∧ KernelRun s s' ∧
      s.leases.lookup child = some childEntry ∧
      s'.leases.lookup child = some (childEntry.withRecord record) ∧
      record.generation = childEntry.record.generation + 1 ∧ child ≠ root ∧
      validateChain s root (some 0) Reference.manifest Reference.start = .ok v ∧
      validateChain s' root (some 0) Reference.manifest Reference.start = .ok v ∧
      ∀ expected manifest now v', validateChain s' root expected manifest now = .ok v' →
        v'.observedGenerations = [(root, 0)] → v' = v := by
  let := Reference.externals
  obtain ⟨s, rootEntry, childEntry, h⟩ := Reference.exists_delegated
  have hnow : Reference.start < childEntry.certificate.expiresAt := by
    rw [h.child_expires]
    decide
  obtain ⟨s', hpause, hlookup⟩ := exists_pause h.lookup_child (by rw [h.child_record]; rfl) hnow
  have hrun : KernelRun s s' := KernelRun.refl.succeed (.pause Reference.childId _ Reference.start)
    (freshUuid_unsupported s) (map_eq_ok.mpr ⟨_, hpause, rfl⟩)
  obtain ⟨v, hv⟩ := h.exists_root_validated Reference.start (by decide)
  obtain ⟨hsame, hvalue⟩ := generations_pin_validation h.reachable hrun
  have hkept : s'.leases.lookup Reference.leaseId = some rootEntry := by
    rw [hlookup, if_neg h.ne.symm, h.lookup_root]
  have hvalid : validateChain s' Reference.leaseId (some 0) Reference.manifest Reference.start
      = .ok v := by
    rw [hsame _ (AList.mem_of_lookup h.lookup_root) fun id hbelow entry hentry => ?_, hv]
    obtain rfl := h.below_iff_root.mp hbelow
    obtain rfl := Option.some.inj (h.lookup_root.symm.trans hentry)
    exact ⟨_, hkept, rfl⟩
  have hgenerations : v.observedGenerations = [(Reference.leaseId, 0)] := by
    obtain ⟨entry, path, hchain⟩ := validateChain_sound hv
    obtain rfl := h.root_path.unique hchain.isPath
    rw [hchain.generations_eq, List.reverse_singleton, List.map_singleton, h.root_generation]
  refine ⟨s, s', Reference.leaseId, _, childEntry, _, v, h.reachable, hrun, h.lookup_child,
    (hlookup _).trans (if_pos rfl), rfl, h.ne, hv, hvalid, ?_⟩
  intro expected manifest now v' hv' hobserved
  exact hvalue _ _ _ _ _ _ _ _ _ _ hv hv' (hobserved.trans hgenerations.symm)

-- ============================================================================
-- Operations
-- ============================================================================

theorem ClosedBelow.mem_of_below {ended : List LeaseId} (h : ClosedBelow s ended)
    {root id : LeaseId} (hroot : root ∈ ended) (hbelow : LeaseBelow s root id) : id ∈ ended := by
  induction hbelow with
  | refl => exact hroot
  | tail _ hlink ih =>
      obtain ⟨entry, hentry, hparent⟩ := hlink
      exact h _ entry _ hentry hparent ih

/-- The leases whose records an operation that succeeds changes, where they are not over. -/
def KernelOp.ActsOn (s : AuthorityState) : KernelOp → LeaseId → Prop
  | .delegate _ _ _, _ => False
  | .pause leaseId _ _, id | .resume leaseId _ _, id => id = leaseId
  | .revoke leaseId _ _ _, id => LeaseBelow s leaseId id
  | .refreshExpirations now, id => id ∈ dueLeases s now
  | .renew request _, id => LeaseBelow s request.leaseId id

/-- An operation leaves alone every stored lease it does not act on. -/
theorem KernelOp.lookup_of_not_actsOn (hs : Reachable s) (op : KernelOp) {uuid : String}
    (fresh : FreshUuid s uuid) {r : KernelReturn} (h : op.exec uuid s = .ok r s') {id : LeaseId}
    {entry : LeaseEntry} (hid : s.leases.lookup id = some entry) (hnot : ¬ op.ActsOn s id) :
    s'.leases.lookup id = some entry := by
  cases op with
  | delegate request custody now =>
      obtain ⟨leaseId, hrun, -⟩ := map_eq_ok.mp h
      obtain ⟨run, -, rfl⟩ := delegate_eq_ok hrun
      have hne : id ≠ run.childLeaseId := by
        rintro rfl
        exact fresh _ run.childLeaseId_eq (AList.mem_of_lookup hid)
      rw [run.lookup_post, if_neg hne, hid]
  | pause leaseId generation now =>
      obtain ⟨record, hrun, -⟩ := map_eq_ok.mp h
      obtain ⟨entry', -, -, -, -, -, rfl⟩ := transition_eq_ok hrun
      have hne : id ≠ leaseId := hnot
      rw [AuthorityState.pushEvent_leases, AuthorityState.lookup_putLease, if_neg hne, hid]
  | resume leaseId generation now =>
      obtain ⟨record, hrun, -⟩ := map_eq_ok.mp h
      obtain ⟨entry', -, -, -, -, -, rfl⟩ := transition_eq_ok hrun
      have hne : id ≠ leaseId := hnot
      rw [AuthorityState.pushEvent_leases, AuthorityState.lookup_putLease, if_neg hne, hid]
  | revoke leaseId generation reason now =>
      obtain ⟨affected, hrun, -⟩ := map_eq_ok.mp h
      obtain ⟨leaf, hleaf, -, -, rfl, -, hlookup⟩ := revoke_eq_ok hrun
      rw [hlookup, hid, Option.map_some, cascadeEntry,
        if_neg (mt (mem_descendants (AList.mem_of_lookup hleaf)).mp hnot)]
  | refreshExpirations now =>
      obtain ⟨expired, hrun, -⟩ := map_eq_ok.mp h
      have htimely := Timely.of_reachable hs
      obtain ⟨expired', t, notes, hrun', hswept⟩ := refreshExpirations_swept htimely now
      rw [hrun] at hrun'
      cases hrun'
      rw [hswept.spared id (mt (endedBy_dueLeases htimely).mp hnot), hid]
  | renew request now =>
      obtain ⟨leaseId, hrun, -⟩ := map_eq_ok.mp h
      obtain ⟨run, -, rfl⟩ := renew_eq_ok hrun
      have hne : id ≠ run.renewedId := by
        rintro rfl
        exact fresh _ run.renewedId_eq (AList.mem_of_lookup hid)
      rw [run.lookup_post, if_neg hne,
        run.endsBelow.outside id (mt (run.ended_below id) hnot), hid]

/-- A lease that was active and that an operation other than a resumption acts on is not
    active afterwards. -/
theorem KernelOp.inactive_of_actsOn (hs : Reachable s) (op : KernelOp) {uuid : String}
    (fresh : FreshUuid s uuid) {r : KernelReturn} (h : op.exec uuid s = .ok r s')
    (hresume : ∀ leaseId generation now, op ≠ .resume leaseId generation now) {id : LeaseId}
    {entry : LeaseEntry} (hid : s.leases.lookup id = some entry) (hacts : op.ActsOn s id) :
    ∃ entry', s'.leases.lookup id = some entry' ∧ entry'.record.state ≠ .active := by
  have hdead {entry' : LeaseEntry} (h : entry'.record.state.isLive = false) :
      entry'.record.state ≠ .active := by
    intro heq
    rw [heq] at h
    cases h
  cases op with
  | delegate => exact hacts.elim
  | pause leaseId generation now =>
      obtain ⟨record, hrun, -⟩ := map_eq_ok.mp h
      obtain ⟨entry', hentry, -, -, -, rfl, rfl⟩ := transition_eq_ok hrun
      obtain rfl : id = leaseId := hacts
      refine ⟨_,
        by rw [AuthorityState.pushEvent_leases, AuthorityState.lookup_putLease, if_pos rfl],
        ?_⟩
      simp [LeaseRecord.advance]
  | resume leaseId generation now => exact absurd rfl (hresume leaseId generation now)
  | revoke leaseId generation reason now =>
      obtain ⟨affected, hrun, -⟩ := map_eq_ok.mp h
      obtain ⟨leaf, hleaf, -, -, rfl, -, hlookup⟩ := revoke_eq_ok hrun
      have hmem := (mem_descendants (AList.mem_of_lookup hleaf)).mpr hacts
      exact ⟨_, by rw [hlookup, hid]; rfl, hdead (cascadeEntry_dead hmem)⟩
  | refreshExpirations now =>
      obtain ⟨expired, hrun, -⟩ := map_eq_ok.mp h
      have htimely := Timely.of_reachable hs
      obtain ⟨expired', t, notes, hrun', hswept⟩ := refreshExpirations_swept htimely now
      rw [hrun] at hrun'
      cases hrun'
      obtain ⟨entry', hentry', hover⟩ := hswept.dead ((endedBy_dueLeases htimely).mpr hacts)
      exact ⟨entry', hentry', hdead hover⟩
  | renew request now =>
      obtain ⟨leaseId, hrun, -⟩ := map_eq_ok.mp h
      obtain ⟨run, -, rfl⟩ := renew_eq_ok hrun
      have hne : id ≠ run.renewedId := by
        rintro rfl
        exact fresh _ run.renewedId_eq (AList.mem_of_lookup hid)
      have hended := run.endsBelow.closed.mem_of_below run.old_mem hacts
      obtain ⟨record, hrecord, -⟩ := run.endsBelow.cascade.present id entry hid
      exact ⟨_, by rw [run.lookup_post, if_neg hne, hrecord],
        hdead (run.endsBelow.inside id hended _ hrecord)⟩

/-- The lease an operation is addressed at; a refresh is addressed at none. -/
def KernelOp.target : KernelOp → Option LeaseId
  | .delegate request _ _ => some request.parentLeaseId
  | .pause leaseId _ _ | .resume leaseId _ _ => some leaseId
  | .revoke leaseId _ _ _ => some leaseId
  | .refreshExpirations _ => none
  | .renew request _ => some request.leaseId

/-- The operation is addressed at a lease, and the lease given is not in its subtree. -/
def KernelOp.Outside (s : AuthorityState) (op : KernelOp) (id : LeaseId) : Prop :=
  ∃ top, op.target = some top ∧ ¬ LeaseBelow s top id

/-- What an operation acts on is in the subtree of the lease it is addressed at. -/
theorem KernelOp.Outside.not_actsOn {op : KernelOp} {leaf : LeaseId} (h : op.Outside s leaf)
    {id : LeaseId} (hbelow : LeaseBelow s id leaf) : ¬ op.ActsOn s id := by
  obtain ⟨top, htop, hnot⟩ := h
  cases op with
  | delegate => exact False.elim
  | pause leaseId generation now =>
      rintro rfl
      cases htop
      exact hnot hbelow
  | resume leaseId generation now =>
      rintro rfl
      cases htop
      exact hnot hbelow
  | revoke leaseId generation reason now =>
      intro hacts
      cases htop
      exact hnot (hacts.trans hbelow)
  | refreshExpirations now => cases htop
  | renew request now =>
      intro hacts
      cases htop
      exact hnot (hacts.trans hbelow)

/-- A list of operations, made one after the other. -/
inductive KernelCalls (s : AuthorityState) : List KernelOp → AuthorityState → Prop where
  | nil : KernelCalls s [] s
  | call {ops : List KernelOp} {t : AuthorityState} (calls : KernelCalls s ops t) (op : KernelOp)
      (uuid : String) (fresh : FreshUuid t uuid) : KernelCalls s (ops ++ [op]) (op.after uuid t)

theorem KernelCalls.run {ops : List KernelOp} (h : KernelCalls s ops s') : KernelRun s s' := by
  induction h with
  | nil => exact .refl
  | call _ op uuid fresh ih => exact ih.call op uuid fresh

/-- A lease validates after an operation as before, where the operation acts on no lease above
    it. -/
theorem KernelOp.validateChain_of_not_actsOn (hs : Reachable s) (op : KernelOp) {uuid : String}
    (fresh : FreshUuid s uuid) {r : KernelReturn} (h : op.exec uuid s = .ok r s')
    {leaf : LeaseId} (hleaf : leaf ∈ s.leases)
    (hnot : ∀ id, LeaseBelow s id leaf → ¬ op.ActsOn s id) (expected : Option Nat)
    (manifest : CapabilityManifest) (now : DateTime) :
    validateChain s' leaf expected manifest now = validateChain s leaf expected manifest now := by
  have run : KernelRun s s' := KernelRun.refl.succeed op fresh h
  refine (agrees_of_generations hs run fun id hbelow entry hentry => ?_).validateChain_eq
    ⟨hleaf, Relation.ReflTransGen.refl⟩ expected manifest now
  exact ⟨entry, op.lookup_of_not_actsOn hs fresh h hentry (hnot id hbelow), rfl⟩

/-- An operation addressed at another lease leaves a lease outside the subtree of that one as it
    was, whether it succeeds or fails. -/
theorem KernelOp.Outside.after_eq (hs : Reachable s) {op : KernelOp} {uuid : String}
    (fresh : FreshUuid s uuid) {leaf : LeaseId} (hleaf : leaf ∈ s.leases)
    (h : op.Outside s leaf) :
    (op.after uuid s).leases.lookup leaf = s.leases.lookup leaf ∧
      ∀ expected manifest now, validateChain (op.after uuid s) leaf expected manifest now
        = validateChain s leaf expected manifest now := by
  obtain ⟨entry, hentry⟩ := AList.mem_iff_lookup.mp hleaf
  cases hexec : op.exec uuid s with
  | ok r s' =>
      rw [KernelOp.after_eq hexec, hentry]
      exact ⟨op.lookup_of_not_actsOn hs fresh hexec hentry (h.not_actsOn .refl),
        op.validateChain_of_not_actsOn hs fresh hexec hleaf fun id => h.not_actsOn⟩
  | error e s' =>
      have hafter : op.after uuid s = s := by
        rw [KernelOp.after, hexec]
        exact op.exec_failsClean uuid s e s' hexec
      rw [hafter]
      exact ⟨rfl, fun _ _ _ => rfl⟩

/-- Any number of operations addressed at other leases, in any order, leave a lease outside the
    subtrees of those as it was. -/
theorem KernelCalls.outside (hs : Reachable s) {ops : List KernelOp} (h : KernelCalls s ops s')
    {leaf : LeaseId} (hleaf : leaf ∈ s.leases) (houtside : ∀ op ∈ ops, op.Outside s leaf) :
    s'.leases.lookup leaf = s.leases.lookup leaf ∧
      ∀ expected manifest now, validateChain s' leaf expected manifest now
        = validateChain s leaf expected manifest now := by
  obtain ⟨entry, hentry⟩ := AList.mem_iff_lookup.mp hleaf
  obtain ⟨path, -, hpath, -⟩ := ((Trees.of_reachable hs).leases leaf entry hentry).path
  induction h with
  | nil => exact ⟨rfl, fun _ _ _ => rfl⟩
  | call calls op uuid fresh ih =>
      obtain ⟨hlookup, hsame⟩ := ih fun op hop => houtside op (List.mem_append_left _ hop)
      obtain ⟨top, htop, hnot⟩ := houtside op (by simp)
      -- what is above the lease does not change, so the operation is still addressed elsewhere
      have hstill : op.Outside _ leaf :=
        ⟨top, htop, mt (calls.run.keepsLeases.below_iff hpath).mp hnot⟩
      obtain ⟨hlookup', hsame'⟩ := hstill.after_eq (hs.run calls.run) fresh
        (AList.mem_of_lookup (hlookup.trans hentry))
      exact ⟨hlookup'.trans hlookup, fun expected manifest now =>
        (hsame' expected manifest now).trans (hsame expected manifest now)⟩

/-- Operations on some leases are isolated from others. An operation leaves the record of a
    lease it does not act on as it is, and a validation comes to the same result after it as
    before, unless it acts on a lease of the chain; apart from resumptions, no operation makes a
    lease valid that was not before, and each takes validity away from exactly the leases that
    have a lease it acts on above them. And however many operations are made, in whatever order,
    a lease in the subtree of none of the leases they are addressed at stays as it was, its entry
    and the result of every validation of it alike. -/
theorem operations_are_isolated (hs : Reachable s) {leaf : LeaseId} (hleaf : leaf ∈ s.leases) :
    (∀ (op : KernelOp) (uuid : String) (r : KernelReturn) (s' : AuthorityState),
      FreshUuid s uuid → op.exec uuid s = .ok r s' →
      (¬ op.ActsOn s leaf → s'.leases.lookup leaf = s.leases.lookup leaf) ∧
      ∀ (expected : Option Nat) (manifest : CapabilityManifest) (now : DateTime),
        ((∀ id, LeaseBelow s id leaf → ¬ op.ActsOn s id) →
          validateChain s' leaf expected manifest now
            = validateChain s leaf expected manifest now) ∧
        ((∀ leaseId generation time, op ≠ .resume leaseId generation time) →
          ∀ v, validateChain s' leaf expected manifest now = .ok v ↔
            validateChain s leaf expected manifest now = .ok v ∧
              ∀ id, LeaseBelow s id leaf → ¬ op.ActsOn s id)) ∧
    ∀ (ops : List KernelOp) (s' : AuthorityState), KernelCalls s ops s' →
      (∀ op ∈ ops, op.Outside s leaf) →
      s'.leases.lookup leaf = s.leases.lookup leaf ∧
        ∀ expected manifest now, validateChain s' leaf expected manifest now
          = validateChain s leaf expected manifest now := by
  refine ⟨fun op uuid r s' fresh h => ⟨fun hnot => ?_, fun expected manifest now => ?_⟩,
    fun ops s' calls => calls.outside hs hleaf⟩
  · obtain ⟨entry, hentry⟩ := AList.mem_iff_lookup.mp hleaf
    rw [hentry]
    exact op.lookup_of_not_actsOn hs fresh h hentry hnot
  have run : KernelRun s s' := KernelRun.refl.succeed op fresh h
  have hsame (huntouched : ∀ id, LeaseBelow s id leaf → ¬ op.ActsOn s id) :=
    op.validateChain_of_not_actsOn hs fresh h hleaf huntouched expected manifest now
  refine ⟨hsame, fun hresume v => ⟨fun hv => ?_, fun ⟨hv, huntouched⟩ => ?_⟩⟩
  · have huntouched : ∀ id, LeaseBelow s id leaf → ¬ op.ActsOn s id := by
      intro id hbelow hacts
      obtain ⟨leafEntry, hleafEntry⟩ := AList.mem_iff_lookup.mp hleaf
      obtain ⟨path, -, hpath, -⟩ := ((Trees.of_reachable hs).leases leaf leafEntry hleafEntry).path
      obtain ⟨node, hnode, rfl⟩ := List.mem_map.mp (hpath.mem_of_below hbelow)
      obtain ⟨entry', hentry', hinactive⟩ := op.inactive_of_actsOn hs fresh h hresume
        (hpath.find_of_mem hnode) hacts
      obtain ⟨entry₀, path', hvalid⟩ := validateChain_sound hv
      obtain ⟨node', hnode', heq⟩ :=
        List.mem_map.mp (hvalid.isPath.mem_of_below (run.keepsLeases.below hbelow))
      have hfind := hvalid.isPath.find_of_mem hnode'
      rw [heq, hentry'] at hfind
      rw [Option.some.inj hfind] at hinactive
      exact hinactive (hvalid.active hnode').1
    rw [hsame huntouched] at hv
    exact ⟨hv, huntouched⟩
  · rw [hsame huntouched]
    exact hv

omit [Externals] in
/-- The second lease of the reference kernel is paused and then revoked. A pause ends its
    validity; the root lease, which is not below it, stays as it was and validates as before. -/
theorem operations_are_isolated_reference : letI := Reference.externals
    ∃ (s s₁ s' : AuthorityState) (root child : LeaseId) (rootEntry : LeaseEntry)
      (v v' : ValidatedAuthority), Reachable s ∧ s.leases.lookup root = some rootEntry ∧
      validateChain s root (some 0) Reference.manifest Reference.start = .ok v ∧
      validateChain s child (some 0) Reference.manifest Reference.start = .ok v' ∧
      KernelCalls s [.pause child 0 Reference.start] s₁ ∧
      (∀ v', validateChain s₁ child (some 0) Reference.manifest Reference.start ≠ .ok v') ∧
      KernelCalls s [.pause child 0 Reference.start, .revoke child 1 "done" Reference.start] s' ∧
      s'.isLive child = false ∧ s'.leases.lookup root = some rootEntry ∧
      validateChain s' root (some 0) Reference.manifest Reference.start = .ok v := by
  let := Reference.externals
  obtain ⟨s, rootEntry, childEntry, h⟩ := Reference.exists_delegated
  have hnow : Reference.start < childEntry.certificate.expiresAt := by
    rw [h.child_expires]
    decide
  obtain ⟨s₁, hpause, hlookup⟩ := exists_pause h.lookup_child (by rw [h.child_record]; rfl) hnow
  have hgeneration :
      (childEntry.withRecord (childEntry.record.advance .paused)).record.generation = 1 := by
    rw [h.child_record]
    rfl
  obtain ⟨affected, s', hrevoke⟩ := exists_revoke ((hlookup _).trans (if_pos rfl)) rfl "done"
    Reference.start
  rw [h.child_generation] at hpause
  rw [hgeneration] at hrevoke
  have hexec : (KernelOp.pause Reference.childId 0 Reference.start).exec "!" s
      = .ok _ s₁ := map_eq_ok.mpr ⟨_, hpause, rfl⟩
  have hexec' : (KernelOp.revoke Reference.childId 1 "done" Reference.start).exec "!" s₁
      = .ok _ s' := map_eq_ok.mpr ⟨_, hrevoke, rfl⟩
  have hcalls : KernelCalls s [.pause Reference.childId 0 Reference.start] s₁ := by
    rw [← KernelOp.after_eq hexec]
    exact .call .nil _ "!" (freshUuid_unsupported s)
  have hcalls' : KernelCalls s [.pause Reference.childId 0 Reference.start,
      .revoke Reference.childId 1 "done" Reference.start] s' := by
    rw [← KernelOp.after_eq hexec']
    exact hcalls.call _ "!" (freshUuid_unsupported s₁)
  obtain ⟨v, hv⟩ := h.exists_root_validated Reference.start (by decide)
  obtain ⟨v', hv'⟩ := h.exists_validated Reference.start (by decide)
  have hrootStored := AList.mem_of_lookup h.lookup_root
  have hchildStored := AList.mem_of_lookup h.lookup_child
  have haside : ¬ LeaseBelow s Reference.childId Reference.leaseId :=
    mt h.below_iff_root.mp h.ne
  obtain ⟨hkept, hsame⟩ := (operations_are_isolated h.reachable hrootStored).2 _ s' hcalls'
    (by simp [KernelOp.Outside, KernelOp.target, haside])
  obtain ⟨-, hvalidity⟩ := (operations_are_isolated h.reachable hchildStored).1 _ _ _ _
    (freshUuid_unsupported s) hexec
  refine ⟨s, s₁, s', _, _, rootEntry, v, v', h.reachable, h.lookup_root, hv, hv', hcalls,
    fun v' hv' => ?_, hcalls', ?_, hkept.trans h.lookup_root, (hsame _ _ _).trans hv⟩
  · exact (((hvalidity _ _ _).2 (by simp) v').mp hv').2 Reference.childId .refl rfl
  · rw [isLive_of_lookup (revoke_self hrevoke ((hlookup _).trans (if_pos rfl)))]
    rfl

end

end GenesisRuntime
