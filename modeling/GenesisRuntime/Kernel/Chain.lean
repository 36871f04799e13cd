/-
  GenesisRuntime.Kernel.Chain

  The lease walk: what a successful `validate_chain` has established, on any
  state, and what it takes for it to succeed.
-/

import GenesisRuntime.Kernel.Runs

namespace GenesisRuntime

section
variable [Externals]

/-- The leases from `id` up to one without parent, `id` first. -/
abbrev LeasePath (s : AuthorityState) : LeaseId → List (LeaseId × LeaseEntry) → Prop :=
  Ascends s.leases.lookup LeaseEntry.parentId

/-- A lease of the path is active and not expired. -/
def LeaseEntry.ActiveAt (entry : LeaseEntry) (now : DateTime) : Prop :=
  entry.record.state = .active ∧ now < entry.certificate.expiresAt

/-- A lease of the path has passed the check against the next one. -/
def AttenuatedFrom (child parent : LeaseId × LeaseEntry) : Prop :=
  validateParentChild parent.2 child.2 = .ok ()

-- ============================================================================
-- The walk
-- ============================================================================

section
variable {s : AuthorityState} {leaf : LeaseId} {expected : Option Nat} {now : DateTime}

/-- The walk, one lease after the other. -/
theorem chainWalk_succ {remaining : Nat} {current : LeaseId} {visited : List LeaseId}
    {cache cache' : List AgentId} {path : List (LeaseId × LeaseEntry)} :
    chainWalk s leaf expected now (remaining + 1) current visited cache = .ok path cache' ↔
      current ∉ visited ∧ ∃ entry cache₁, s.leases.lookup current = some entry ∧
        validateActiveRecord entry (if current = leaf then expected else none) now = .ok () ∧
        validateCertificateEntry s entry cache = .ok () cache₁ ∧
        ((entry.parentId = none ∧ path = [(current, entry)] ∧ cache' = cache₁) ∨
          ∃ parent rest, entry.parentId = some parent ∧
            chainWalk s leaf expected now remaining parent (current :: visited) cache₁
              = .ok rest cache' ∧
            path = (current, entry) :: rest) := by
  rw [chainWalk]
  simp only [orReject_eq_ofResult, rejectIf_eq_ofResult, ofResult_bind_eq_ok, orReject_eq_ok,
    rejectIf_eq_ok, LeaseEntry.parentId]
  constructor
  · rintro ⟨_, hvisited, entry, hentry, _, hactive, h⟩
    obtain ⟨_, cache₁, hcert, h⟩ := EStateM.bind_eq_ok.mp h
    refine ⟨hvisited, entry, cache₁, hentry, hactive, hcert, ?_⟩
    cases hparent : entry.certificate.parentLease with
    | none =>
        rw [hparent] at h
        obtain ⟨rfl, rfl⟩ := EStateM.pure_eq_ok.mp h
        exact .inl ⟨rfl, rfl, rfl⟩
    | some parent =>
        rw [hparent] at h
        obtain ⟨rest, cache₂, hrest, h⟩ := EStateM.bind_eq_ok.mp h
        obtain ⟨rfl, rfl⟩ := EStateM.pure_eq_ok.mp h
        exact .inr ⟨parent.leaseId, rest, rfl, hrest, rfl⟩
  · rintro ⟨hvisited, entry, cache₁, hentry, hactive, hcert, h⟩
    refine ⟨(), hvisited, entry, hentry, (), hactive,
      EStateM.bind_eq_ok.mpr ⟨(), cache₁, hcert, ?_⟩⟩
    cases hparent : entry.certificate.parentLease with
    | none =>
        rw [hparent] at h
        rcases h with ⟨-, rfl, rfl⟩ | ⟨parent, rest, h, -⟩
        · rfl
        · cases h
    | some parent =>
        rw [hparent] at h
        rcases h with ⟨h, -⟩ | ⟨_, rest, h, hrest, rfl⟩
        · cases h
        · cases h
          exact EStateM.bind_eq_ok.mpr ⟨rest, cache', hrest, rfl⟩

/-- What the walk has checked of one lease. -/
structure Checked (s : AuthorityState) (leaf : LeaseId) (expected : Option Nat)
    (now : DateTime) (node : LeaseId × LeaseEntry) : Prop where
  active : validateActiveRecord node.2 (if node.1 = leaf then expected else none) now = .ok ()
  certified : ∃ cache cache', validateCertificateEntry s node.2 cache = .ok () cache'

theorem chainWalk_sound {remaining : Nat} {current : LeaseId} {visited : List LeaseId}
    {cache cache' : List AgentId} {path : List (LeaseId × LeaseEntry)}
    (h : chainWalk s leaf expected now remaining current visited cache = .ok path cache') :
    LeasePath s current path ∧ path.length ≤ remaining ∧
      ∀ node ∈ path, Checked s leaf expected now node := by
  induction remaining generalizing current visited cache path with
  | zero => simp [chainWalk, EStateM.throw_eq_ok] at h
  | succ remaining ih =>
      obtain ⟨-, entry, cache₁, hentry, hactive, hcert, hend | hstep⟩ := chainWalk_succ.mp h
      · obtain ⟨hparent, rfl, rfl⟩ := hend
        refine ⟨.root hentry hparent, by simp, ?_⟩
        intro node hnode
        obtain rfl := List.mem_singleton.mp hnode
        exact ⟨hactive, cache, _, hcert⟩
      · obtain ⟨parent, rest, hparent, hrest, rfl⟩ := hstep
        obtain ⟨hpath, hlen, hchecked⟩ := ih hrest
        refine ⟨.step hentry hparent hpath, by simpa using hlen, ?_⟩
        intro node hnode
        rcases List.mem_cons.mp hnode with rfl | hnode
        · exact ⟨hactive, cache, _, hcert⟩
        · exact hchecked node hnode

/-- The walk succeeds along a path on which every check does. -/
theorem chainWalk_complete {remaining : Nat} {current : LeaseId} {visited : List LeaseId}
    {cache : List AgentId} {path : List (LeaseId × LeaseEntry)}
    (hpath : LeasePath s current path) (hlen : path.length ≤ remaining)
    (hvisited : ∀ node ∈ path, node.1 ∉ visited)
    (hactive : ∀ node ∈ path,
      validateActiveRecord node.2 (if node.1 = leaf then expected else none) now = .ok ())
    (hcert : ∀ node ∈ path, ∀ cache, ∃ cache',
      validateCertificateEntry s node.2 cache = .ok () cache') :
    ∃ cache', chainWalk s leaf expected now remaining current visited cache
      = .ok path cache' := by
  induction hpath generalizing remaining visited cache with
  | @root k v hfind hup =>
      obtain ⟨remaining, rfl⟩ : ∃ n, remaining = n + 1 := ⟨remaining - 1, by simp at hlen; omega⟩
      obtain ⟨cache₁, hcert₁⟩ := hcert (k, v) (by simp) cache
      exact ⟨cache₁, chainWalk_succ.mpr ⟨hvisited (k, v) (by simp), v, cache₁, hfind,
        hactive (k, v) (by simp), hcert₁, .inl ⟨hup, rfl, rfl⟩⟩⟩
  | @step k p v path hfind hup rest ih =>
      obtain ⟨remaining, rfl⟩ : ∃ n, remaining = n + 1 := ⟨remaining - 1, by simp at hlen; omega⟩
      obtain ⟨cache₁, hcert₁⟩ := hcert (k, v) (by simp) cache
      have hpath : LeasePath s k ((k, v) :: path) := .step hfind hup rest
      obtain ⟨cache₂, hrest⟩ := @ih remaining (k :: visited) cache₁ (by simpa using hlen)
        (hpath.not_mem_visited hvisited)
        (fun node hnode => hactive node (List.mem_cons_of_mem _ hnode))
        (fun node hnode => hcert node (List.mem_cons_of_mem _ hnode))
      exact ⟨cache₂, chainWalk_succ.mpr ⟨hvisited (k, v) (by simp), v, cache₁, hfind,
        hactive (k, v) (by simp), hcert₁, .inr ⟨p, path, hup, hrest, rfl⟩⟩⟩

end

-- ============================================================================
-- The whole validation
-- ============================================================================

/-- What a successful validation has established: the path it walked, leaf
    first, and the value it returned. -/
structure ValidChain (s : AuthorityState) (leaf : LeaseId) (expected : Option Nat)
    (manifest : CapabilityManifest) (now : DateTime) (v : ValidatedAuthority)
    (entry : LeaseEntry) (path : List (LeaseId × LeaseEntry)) : Prop where
  isPath : LeasePath s leaf path
  depth : path.length ≤ maxAuthorityChainDepth
  entry_eq : s.leases.lookup leaf = some entry
  checked : ∀ node ∈ path, Checked s leaf expected now node
  attenuated : path.IsChain AttenuatedFrom
  manifest_eq : ∃ digest, entry.manifest.canonicalDigest = .ok digest ∧
    manifest.canonicalDigest = .ok digest
  chain_eq : path.reverse.mapM (fun node => leaseRef node.2.certificate) = .ok v.chain
  generations_eq : v.observedGenerations
    = path.reverse.map fun node => (node.1, node.2.record.generation)
  leafLeaseId_eq : v.leafLeaseId = leaf
  leafExpiresAt_eq : v.leafExpiresAt = entry.certificate.expiresAt
  identityDigest_eq : v.agentIdentityDigest = entry.certificate.agentIdentityDigest
  manifestDigest_eq : v.capabilityManifestDigest = entry.certificate.capabilityManifestDigest
  contextDigest_eq : v.semanticContextDigest = entry.certificate.semanticContextDigest

omit [Externals] in
theorem finalValue_eq_ok {σ α : Type} {r : EStateM.Result RuntimeError σ α} {a : α} :
    finalValue r = .ok a ↔ ∃ s, r = .ok a s := by
  cases r <;> simp [finalValue]

section
variable {s : AuthorityState} {leaf : LeaseId} {expected : Option Nat} {now : DateTime}
  {manifest : CapabilityManifest} {v : ValidatedAuthority}

theorem validateChain_eq_ok :
    validateChain s leaf expected manifest now = .ok v ↔
      ∃ path cache entry digest chain,
        chainWalk s leaf expected now maxAuthorityChainDepth leaf [] [] = .ok path cache ∧
        path.IsChain AttenuatedFrom ∧
        path.head? = some (leaf, entry) ∧
        entry.manifest.canonicalDigest = .ok digest ∧
        manifest.canonicalDigest = .ok digest ∧
        path.reverse.mapM (fun node => leaseRef node.2.certificate) = .ok chain ∧
        v = { leafLeaseId := leaf
              leafExpiresAt := entry.certificate.expiresAt
              agentIdentityDigest := entry.certificate.agentIdentityDigest
              capabilityManifestDigest := entry.certificate.capabilityManifestDigest
              semanticContextDigest := entry.certificate.semanticContextDigest
              chain := chain
              observedGenerations :=
                path.reverse.map fun node => (node.1, node.2.record.generation) } := by
  have hchain (path : List (LeaseId × LeaseEntry)) :
      (∀ pair ∈ path.reverse.zip path.reverse.tail,
        validateParentChild pair.1.2 pair.2.2 = .ok ()) ↔ path.IsChain AttenuatedFrom := by
    rw [← List.isChain_reverse (R := fun parent child => AttenuatedFrom child parent),
      ← forall_mem_zip_tail]
    rfl
  simp only [validateChain, Except.bind_eq_ok, Except.pure_eq_ok, finalValue_eq_ok,
    Except.forM_eq_ok, orReject_eq_ok, rejectIf_eq_ok, not_not, List.getLast?_reverse, hchain]
  constructor
  · rintro ⟨path, ⟨cache, hwalk⟩, _, hattn, ⟨id, entry⟩, hhead, digest, hd, digest', hd', _,
      rfl, chain, hrefs, rfl⟩
    obtain ⟨entry', rest, hcons, -⟩ := (chainWalk_sound hwalk).1.head_eq
    have hid : id = leaf := by
      rw [hcons, List.head?_cons] at hhead
      cases hhead
      rfl
    subst hid
    exact ⟨path, cache, entry, digest, chain, hwalk, hattn, hhead, hd, hd', hrefs, rfl⟩
  · rintro ⟨path, cache, entry, digest, chain, hwalk, hattn, hhead, hd, hd', hrefs, rfl⟩
    exact ⟨path, ⟨cache, hwalk⟩, (), hattn, (leaf, entry), hhead, digest, hd, digest, hd', (),
      rfl, chain, hrefs, rfl⟩

theorem validateChain_sound (h : validateChain s leaf expected manifest now = .ok v) :
    ∃ entry path, ValidChain s leaf expected manifest now v entry path := by
  obtain ⟨path, cache, entry, digest, chain, hwalk, hattn, hhead, hd, hd', hrefs, rfl⟩ :=
    validateChain_eq_ok.mp h
  obtain ⟨hpath, hlen, hchecked⟩ := chainWalk_sound hwalk
  obtain ⟨entry', rest, hcons, hentry⟩ := hpath.head_eq
  have heq : entry' = entry := by
    rw [hcons, List.head?_cons] at hhead
    cases hhead
    rfl
  subst heq
  exact ⟨entry', path, hpath, hlen, hentry, hchecked, hattn, ⟨digest, hd, hd'⟩, hrefs, rfl, rfl,
    rfl, rfl, rfl, rfl⟩

namespace ValidChain

variable {entry : LeaseEntry} {path : List (LeaseId × LeaseEntry)}

/-- Every lease on the path is active at the time of the validation. -/
theorem active (h : ValidChain s leaf expected manifest now v entry path)
    {node : LeaseId × LeaseEntry} (hnode : node ∈ path) : node.2.ActiveAt now :=
  (validateActiveRecord_eq_ok.mp (h.checked node hnode).active).2

theorem leaf_mem (h : ValidChain s leaf expected manifest now v entry path) :
    (leaf, entry) ∈ path := by
  obtain ⟨entry', rest, hcons, hentry⟩ := h.isPath.head_eq
  rw [h.entry_eq] at hentry
  cases hentry
  rw [hcons]
  exact List.mem_cons_self

theorem generation_eq (h : ValidChain s leaf expected manifest now v entry path)
    {generation : Nat} (hexpected : expected = some generation) :
    entry.record.generation = generation := by
  have hactive := (h.checked _ h.leaf_mem).active
  simp only [if_true] at hactive
  exact (validateActiveRecord_eq_ok.mp hactive).1 generation hexpected

end ValidChain

end

end

end GenesisRuntime
