/-
  GenesisRuntime.Kernel.Lifecycle

  The lifecycle of leases over whole runs.

  `KeepsLeases` says what any stretch of a run does to the leases stored at its
  start; `Lifecycle` is the invariant that ties the state of a lease to the states
  of the leases above it.
-/

import GenesisRuntime.Reference

namespace GenesisRuntime

-- ============================================================================
-- Records over time
-- ============================================================================

/-- How a record changes over a stretch of a run: a change moves the generation
    on, and there is none once the lease is over. -/
structure RecordLater (r r' : LeaseRecord) : Prop where
  eq_or_lt : r' = r ∨ r.generation < r'.generation
  eq_of_dead : r.state.isLive = false → r' = r

namespace RecordLater

variable {r r' r'' : LeaseRecord}

theorem refl (r : LeaseRecord) : RecordLater r r := ⟨.inl rfl, fun _ => rfl⟩

theorem trans (h : RecordLater r r') (h' : RecordLater r' r'') : RecordLater r r'' := by
  constructor
  · rcases h.eq_or_lt with rfl | hlt
    · exact h'.eq_or_lt
    · rcases h'.eq_or_lt with rfl | hlt'
      · exact .inr hlt
      · exact .inr (hlt.trans hlt')
  · intro hdead
    obtain rfl := h.eq_of_dead hdead
    exact h'.eq_of_dead hdead

/-- Equal generations stand for an unchanged record. -/
theorem eq_of_generation (h : RecordLater r r') (hgen : r'.generation = r.generation) :
    r' = r := by
  rcases h.eq_or_lt with heq | hlt
  · exact heq
  · omega

theorem generation_le (h : RecordLater r r') : r.generation ≤ r'.generation := by
  rcases h.eq_or_lt with rfl | hlt
  · exact le_rfl
  · exact hlt.le

theorem of_ends (h : Ends r r') : RecordLater r r' := by
  refine ⟨?_, h.eq_of_dead⟩
  rcases h.eq_or_dead with heq | ⟨-, -, hgen⟩
  · exact .inl heq
  · exact .inr (by omega)

end RecordLater

section
variable [Externals]

/-- The leases of the first state are still stored in the second, with the same
    certificates and manifests. -/
def KeepsLeases (s s' : AuthorityState) : Prop :=
  ∀ id entry, s.leases.lookup id = some entry →
    ∃ record, s'.leases.lookup id = some (entry.withRecord record) ∧
      RecordLater entry.record record

variable {s s' s'' : AuthorityState}

namespace KeepsLeases

theorem refl (s : AuthorityState) : KeepsLeases s s :=
  fun _ entry h => ⟨entry.record, h, .refl _⟩

theorem trans (h : KeepsLeases s s') (h' : KeepsLeases s' s'') : KeepsLeases s s'' := by
  intro id entry hid
  obtain ⟨r, hr, hlater⟩ := h id entry hid
  obtain ⟨r', hr', hlater'⟩ := h' id _ hr
  exact ⟨r', hr', hlater.trans hlater'⟩

theorem of_cascade (h : Cascade s s') : KeepsLeases s s' := by
  intro id entry hid
  obtain ⟨r, hr, hends⟩ := h.present id entry hid
  exact ⟨r, hr, .of_ends hends⟩

/-- A lease stored in both states. -/
theorem eq_withRecord (h : KeepsLeases s s') {id : LeaseId} {entry entry' : LeaseEntry}
    (hid : s.leases.lookup id = some entry) (hid' : s'.leases.lookup id = some entry') :
    entry' = entry.withRecord entry'.record ∧ RecordLater entry.record entry'.record := by
  obtain ⟨r, hr, hlater⟩ := h id entry hid
  rw [hid'] at hr
  cases hr
  exact ⟨rfl, hlater⟩

/-- A path to a root is a path to the same root ever after, over the same
    certificates. -/
theorem path (h : KeepsLeases s s') {id : LeaseId} {path : List (LeaseId × LeaseEntry)}
    (hpath : LeasePath s id path) :
    ∃ path', LeasePath s' id path' ∧
      path'.map (fun node => (node.1, node.2.certificate))
        = path.map fun node => (node.1, node.2.certificate) := by
  refine hpath.transport LeaseEntry.certificate fun k v hv => ?_
  obtain ⟨r, hr, -⟩ := h k v hv
  exact ⟨_, hr, rfl, rfl⟩

/-- What is below a lease stays below it. -/
theorem below (h : KeepsLeases s s') {above id : LeaseId}
    (hbelow : LeaseBelow s above id) : LeaseBelow s' above id := by
  refine Relation.ReflTransGen.mono (fun parent child => ?_) _ _ hbelow
  rintro ⟨entry, hentry, hparent⟩
  obtain ⟨record, hrecord, -⟩ := h child entry hentry
  exact ⟨_, hrecord, hparent⟩

/-- Nothing comes above a lease that is stored, where all its parents are. -/
theorem below_iff (h : KeepsLeases s s') {above id : LeaseId}
    {path : List (LeaseId × LeaseEntry)} (hpath : LeasePath s id path) :
    LeaseBelow s' above id ↔ LeaseBelow s above id := by
  refine ⟨fun hbelow => ?_, h.below⟩
  obtain ⟨path', hpath', hsame⟩ := h.path hpath
  have hids := congrArg (List.map Prod.fst) hsame
  rw [List.map_map, List.map_map] at hids
  have habove : above ∈ path.map Prod.fst := by
    rw [show path.map Prod.fst = path'.map Prod.fst from hids.symm]
    exact hpath'.mem_of_below hbelow
  obtain ⟨node, hnode, rfl⟩ := List.mem_map.mp habove
  exact hpath.below_of_mem hnode

end KeepsLeases

-- ============================================================================
-- The two operations that store a lease
-- ============================================================================

namespace Delegation

variable {request : DelegationRequest} {custody : KeyCustody} {now : DateTime}
  {uuid : String} (run : Delegation s request custody now uuid)

theorem lookup_child : run.post.leases.lookup run.childLeaseId = some run.entry := by
  rw [run.lookup_post, if_pos rfl]

theorem lookup_other {id : LeaseId} (h : id ≠ run.childLeaseId) :
    run.post.leases.lookup id = s.leases.lookup id := by
  rw [run.lookup_post, if_neg h]

/-- A stored lease is the one delegated, or was stored before. -/
theorem lookup_cases {id : LeaseId} {entry : LeaseEntry}
    (h : run.post.leases.lookup id = some entry) :
    (id = run.childLeaseId ∧ entry = run.entry) ∨
      (id ≠ run.childLeaseId ∧ s.leases.lookup id = some entry) := by
  by_cases heq : id = run.childLeaseId
  · subst heq
    rw [run.lookup_child] at h
    exact .inl ⟨rfl, (Option.some.inj h).symm⟩
  · rw [run.lookup_other heq] at h
    exact .inr ⟨heq, h⟩

theorem ne_child {id : LeaseId} {entry : LeaseEntry} (fresh : run.childLeaseId ∉ s.leases)
    (h : s.leases.lookup id = some entry) : id ≠ run.childLeaseId := by
  rintro rfl
  exact fresh (AList.mem_of_lookup h)

theorem keepsLeases (fresh : run.childLeaseId ∉ s.leases) : KeepsLeases s run.post := by
  intro id entry hid
  rw [run.lookup_other (run.ne_child fresh hid)]
  exact ⟨entry.record, hid, .refl _⟩

theorem certificate_leaseId : run.certificate.leaseId = run.childLeaseId := by
  obtain ⟨⟨signature, h⟩, -⟩ := signedLease_eq_ok run.certificate_eq
  rw [h]
  rfl

theorem parent_active : run.parent.ActiveAt now :=
  (validateActiveRecord_eq_ok.mp run.active).2

end Delegation

namespace Renewal

variable {request : RenewalRequest} {now : DateTime} {uuid : String}
  (run : Renewal s request now uuid)

theorem lookup_renewed : run.post.leases.lookup run.renewedId = some run.entry := by
  rw [run.lookup_post, if_pos rfl]

theorem lookup_other {id : LeaseId} (h : id ≠ run.renewedId) :
    run.post.leases.lookup id = run.retired.leases.lookup id := by
  rw [run.lookup_post, if_neg h]

/-- A stored lease is the one renewed, or was stored when that one was retired. -/
theorem lookup_cases {id : LeaseId} {entry : LeaseEntry}
    (h : run.post.leases.lookup id = some entry) :
    (id = run.renewedId ∧ entry = run.entry) ∨
      (id ≠ run.renewedId ∧ run.retired.leases.lookup id = some entry) := by
  by_cases heq : id = run.renewedId
  · subst heq
    rw [run.lookup_renewed] at h
    exact .inl ⟨rfl, (Option.some.inj h).symm⟩
  · rw [run.lookup_other heq] at h
    exact .inr ⟨heq, h⟩

/-- A stored lease is the one renewed, or one stored before with its record of now. -/
theorem lookup_origin {id : LeaseId} {entry' : LeaseEntry}
    (h : run.post.leases.lookup id = some entry') :
    (id = run.renewedId ∧ entry' = run.entry) ∨
      ∃ entry, s.leases.lookup id = some entry ∧ entry' = entry.withRecord entry'.record := by
  rcases run.lookup_cases h with hnew | ⟨-, hid⟩
  · exact .inl hnew
  · obtain ⟨entry, hentry, heq, -⟩ := run.endsBelow.cascade.before hid
    exact .inr ⟨entry, hentry, heq⟩

theorem ne_renewed {id : LeaseId} {entry : LeaseEntry} (fresh : run.renewedId ∉ s.leases)
    (h : s.leases.lookup id = some entry) : id ≠ run.renewedId := by
  rintro rfl
  exact fresh (AList.mem_of_lookup h)

theorem keepsLeases (fresh : run.renewedId ∉ s.leases) : KeepsLeases s run.post := by
  intro id entry hid
  rw [run.lookup_other (run.ne_renewed fresh hid)]
  exact KeepsLeases.of_cascade run.endsBelow.cascade id entry hid

theorem certificate_leaseId : run.certificate.leaseId = run.renewedId := by
  obtain ⟨⟨signature, h⟩, -⟩ := signedLease_eq_ok run.certificate_eq
  rw [h]
  rfl

/-- A renewed lease keeps its place in the tree. -/
theorem entry_parentId : run.entry.parentId = run.old.parentId := by
  obtain ⟨⟨signature, h⟩, -⟩ := signedLease_eq_ok run.certificate_eq
  simp only [LeaseEntry.parentId, entry, h]
  rfl

theorem old_active : run.old.ActiveAt now :=
  (validateActiveRecord_eq_ok.mp run.active).2

/-- The parent of the renewed lease is active, and no part of what has ended. -/
theorem parent_active {parent : LeaseId} (h : run.old.parentId = some parent) :
    ∃ entry, s.leases.lookup parent = some entry ∧ entry.ActiveAt now := by
  obtain ⟨ref, href, rfl⟩ := LeaseEntry.parentId_eq_some.mp h
  have hrequest := run.request_ok
  simp only [validateRenewalRequest, Except.bind_eq_ok, rejectIf_eq_ok, orReject_eq_ok,
    href] at hrequest
  obtain ⟨_, -, _, -, _, -, _, -, _, -, _, -, parent, hparent, _, hactive, -⟩ := hrequest
  exact ⟨parent, hparent, (validateActiveRecord_eq_ok.mp hactive).2⟩

/-- The parent is not below the lease renewed, so it does not end with it. -/
theorem parent_not_ended {parent : LeaseId} (h : run.old.parentId = some parent) :
    parent ∉ run.ended := by
  obtain ⟨entry, path, hvalid⟩ := validateChain_sound run.validated_eq
  intro hin
  exact hvalid.isPath.not_below_parent run.old_eq h (run.ended_below parent hin)

end Renewal

theorem KernelStep.keepsLeases (h : KernelStep s s') : KeepsLeases s s' := by
  cases h with
  | unchanged => exact .refl s
  | toggled id entry next kind now hentry hstate hnow =>
      intro id' entry' hid'
      rw [AuthorityState.pushEvent_leases, AuthorityState.lookup_putLease]
      by_cases heq : id' = id
      · subst heq
        rw [hentry] at hid'
        cases hid'
        refine ⟨_, if_pos rfl, .inr (Nat.lt_succ_self _), ?_⟩
        intro hdead
        rcases hstate with ⟨hstate, -⟩ | ⟨hstate, -⟩ <;> simp [hstate, LeaseState.isLive] at hdead
      · rw [if_neg heq]
        exact ⟨entry'.record, hid', .refl _⟩
  | ended ended hends => exact .of_cascade hends.cascade
  | delegated run fresh => exact run.keepsLeases fresh
  | renewed run fresh => exact run.keepsLeases fresh

theorem KernelRun.keepsLeases (h : KernelRun s s') : KeepsLeases s s' :=
  h.relates .refl (fun _ _ _ => .trans) fun _ _ => KernelStep.keepsLeases

theorem KernelStep.mission_eq (h : KernelStep s s') : s'.mission = s.mission := by
  cases h with
  | unchanged => rfl
  | toggled => rfl
  | ended ended hends => exact hends.cascade.mission
  | delegated run fresh => rfl
  | renewed run fresh => exact run.post_mission

/-- The leases a step can store, and the state it leaves then. -/
inductive Issued (s : AuthorityState) : AuthorityState → LeaseId → LeaseEntry → Prop where
  | delegated {request : DelegationRequest} {custody : KeyCustody} {now : DateTime}
      {uuid : String} (run : Delegation s request custody now uuid)
      (fresh : run.childLeaseId ∉ s.leases) : Issued s run.post run.childLeaseId run.entry
  | renewed {request : RenewalRequest} {now : DateTime} {uuid : String}
      (run : Renewal s request now uuid) (fresh : run.renewedId ∉ s.leases) :
      Issued s run.post run.renewedId run.entry

/-- A lease stored after a step was stored before it, or has just been issued. -/
theorem KernelStep.origin (h : KernelStep s s') {id : LeaseId} {entry' : LeaseEntry}
    (hid : s'.leases.lookup id = some entry') :
    (∃ entry, s.leases.lookup id = some entry ∧ entry' = entry.withRecord entry'.record) ∨
      Issued s s' id entry' := by
  cases h with
  | unchanged => exact .inl ⟨entry', hid, rfl⟩
  | toggled id' entry next kind now hentry hstate hnow =>
      rw [AuthorityState.pushEvent_leases, AuthorityState.lookup_putLease] at hid
      split at hid
      · rename_i heq
        cases hid
        exact .inl ⟨entry, by rw [heq]; exact hentry, rfl⟩
      · exact .inl ⟨entry', hid, rfl⟩
  | ended ended hends =>
      obtain ⟨entry, hentry, heq, -⟩ := hends.cascade.before hid
      exact .inl ⟨entry, hentry, heq⟩
  | delegated run fresh =>
      rcases run.lookup_cases hid with ⟨rfl, rfl⟩ | ⟨-, hid⟩
      · exact .inr (.delegated run fresh)
      · exact .inl ⟨entry', hid, rfl⟩
  | renewed run fresh =>
      rcases run.lookup_origin hid with ⟨rfl, rfl⟩ | horigin
      · exact .inr (.renewed run fresh)
      · exact .inl horigin

/-- A lease stored after an operation was stored before it, or is the one the operation
    issues. -/
theorem KernelOp.stored_after (op : KernelOp) {uuid : String} {id : LeaseId}
    {entry' : LeaseEntry} (hid : (op.after uuid s).leases.lookup id = some entry') :
    (∃ entry, s.leases.lookup id = some entry ∧ entry' = entry.withRecord entry'.record) ∨
    (∃ request custody now, op = .delegate request custody now ∧
      ∃ run : Delegation s request custody now uuid, entry' = run.entry) ∨
    ∃ request now, op = .renew request now ∧
      ∃ run : Renewal s request now uuid, entry' = run.entry := by
  unfold KernelOp.after at hid
  split at hid
  swap
  · rename_i e s₁ hexec
    rw [op.exec_failsClean uuid s e s₁ hexec] at hid
    exact .inl ⟨entry', hid, rfl⟩
  rename_i returned s₁ hexec
  have htransition {id' : LeaseId} {generation : Nat} {expected next : LeaseState}
      {kind : AuthorityEventKind} {now : DateTime} {record : LeaseRecord}
      (hrun : transition id' generation expected next kind now s = .ok record s₁) :
      ∃ entry, s.leases.lookup id = some entry ∧ entry' = entry.withRecord entry'.record := by
    obtain ⟨entry, hentry, -, -, -, -, rfl⟩ := transition_eq_ok hrun
    rw [AuthorityState.pushEvent_leases, AuthorityState.lookup_putLease] at hid
    split at hid
    · rename_i heq
      cases hid
      exact ⟨entry, by rw [heq]; exact hentry, rfl⟩
    · exact ⟨entry', hid, rfl⟩
  have hcascade (h : Cascade s s₁) :
      ∃ entry, s.leases.lookup id = some entry ∧ entry' = entry.withRecord entry'.record := by
    obtain ⟨entry, hentry, heq, -⟩ := h.before hid
    exact ⟨entry, hentry, heq⟩
  cases op with
  | delegate request custody now =>
      obtain ⟨childId, hrun, -⟩ := map_eq_ok.mp hexec
      obtain ⟨run, -, rfl⟩ := delegate_eq_ok hrun
      rw [run.lookup_post] at hid
      split at hid
      · cases hid
        exact .inr (.inl ⟨request, custody, now, rfl, run, rfl⟩)
      · exact .inl ⟨entry', hid, rfl⟩
  | pause id' generation now =>
      obtain ⟨record, hrun, -⟩ := map_eq_ok.mp hexec
      exact .inl (htransition hrun)
  | resume id' generation now =>
      obtain ⟨record, hrun, -⟩ := map_eq_ok.mp hexec
      exact .inl (htransition hrun)
  | revoke id' generation reason now =>
      obtain ⟨affected, hrun, -⟩ := map_eq_ok.mp hexec
      exact .inl (hcascade (revoke_endsBelow hrun).2.cascade)
  | refreshExpirations now =>
      obtain ⟨expired, hrun, -⟩ := map_eq_ok.mp hexec
      obtain ⟨expired', t, ended, hrun', hbelow, -⟩ := refreshExpirations_spec s now
      rw [hrun'] at hrun
      cases hrun
      exact .inl (hcascade hbelow.cascade)
  | renew request now =>
      obtain ⟨renewedId, hrun, -⟩ := map_eq_ok.mp hexec
      obtain ⟨run, -, rfl⟩ := renew_eq_ok hrun
      rw [run.lookup_post] at hid
      split at hid
      · cases hid
        exact .inr (.inr ⟨request, now, rfl, run, rfl⟩)
      · obtain ⟨entry, hentry, heq, -⟩ := run.endsBelow.cascade.before hid
        exact .inl ⟨entry, hentry, heq⟩

/-- The rule for invariants that speak of one lease at a time. -/
theorem KernelStep.forall_leases {P : AuthorityState → LeaseId → LeaseEntry → Prop}
    (h : KernelStep s s') (hinv : ∀ id entry, s.leases.lookup id = some entry → P s id entry)
    (hkeep : ∀ id entry record, s.leases.lookup id = some entry → P s id entry →
      P s' id (entry.withRecord record))
    (hissued : ∀ id entry, Issued s s' id entry → P s' id entry) :
    ∀ id entry, s'.leases.lookup id = some entry → P s' id entry := by
  intro id entry' hid
  rcases h.origin hid with ⟨entry, hentry, heq⟩ | hnew
  · rw [heq]
    exact hkeep id entry entry'.record hentry (hinv id entry hentry)
  · exact hissued id entry' hnew

-- ============================================================================
-- The invariant
-- ============================================================================

/-- Live leases hang on live leases, and the root lease is the only live one
    without a parent. -/
structure Lifecycle (s : AuthorityState) : Prop where
  keyed : ∀ id entry, s.leases.lookup id = some entry → entry.certificate.leaseId = id
  parent_live : ∀ id entry parent, s.leases.lookup id = some entry →
    entry.record.state.isLive = true → entry.parentId = some parent →
    ∃ above, s.leases.lookup parent = some above ∧ above.record.state.isLive = true
  root_only : ∀ id entry, s.leases.lookup id = some entry →
    entry.record.state.isLive = true → entry.parentId = none → id = s.rootLeaseId

theorem LeaseEntry.ActiveAt.live {entry : LeaseEntry} {now : DateTime}
    (h : entry.ActiveAt now) : entry.record.state.isLive = true := by
  rw [h.1]
  rfl

namespace Lifecycle

theorem ends (h : Lifecycle s) {ended : List LeaseId} (he : EndsBelow s s' ended) :
    Lifecycle s' := by
  -- a live lease of the new state is a live lease of the old one, outside the set
  have hbefore : ∀ id entry', s'.leases.lookup id = some entry' →
      entry'.record.state.isLive = true → id ∉ ended ∧ s.leases.lookup id = some entry' := by
    intro id entry' hid hlive
    have hout : id ∉ ended := by
      intro hin
      rw [he.inside id hin entry' hid] at hlive
      cases hlive
    exact ⟨hout, by rw [← he.outside id hout]; exact hid⟩
  constructor
  · intro id entry' hid
    obtain ⟨entry, hentry, heq, -⟩ := he.cascade.before hid
    rw [heq]
    exact h.keyed id entry hentry
  · intro id entry' parent hid hlive hparent
    obtain ⟨hout, hs⟩ := hbefore id entry' hid hlive
    obtain ⟨above, habove, hlive'⟩ := h.parent_live id entry' parent hs hlive hparent
    have hout' : parent ∉ ended := fun hin => hout (he.closed id entry' parent hs hparent hin)
    exact ⟨above, by rw [he.outside _ hout']; exact habove, hlive'⟩
  · intro id entry' hid hlive hparent
    rw [he.cascade.rootLeaseId]
    exact h.root_only id entry' (hbefore id entry' hid hlive).2 hlive hparent

theorem delegated (h : Lifecycle s) {request : DelegationRequest} {custody : KeyCustody}
    {now : DateTime} {uuid : String} (run : Delegation s request custody now uuid)
    (fresh : run.childLeaseId ∉ s.leases) : Lifecycle run.post := by
  have hparentKey := h.keyed _ _ run.parent_eq
  have hstill : ∀ id entry, s.leases.lookup id = some entry →
      run.post.leases.lookup id = some entry := by
    intro id entry hid
    rw [run.lookup_other (run.ne_child fresh hid)]
    exact hid
  constructor
  · intro id entry hid
    rcases run.lookup_cases hid with ⟨rfl, rfl⟩ | ⟨-, hid⟩
    · exact run.certificate_leaseId
    · exact h.keyed id entry hid
  · intro id entry parent hid hlive hparent
    rcases run.lookup_cases hid with ⟨rfl, rfl⟩ | ⟨-, hid⟩
    · rw [run.entry_parentId, hparentKey] at hparent
      cases hparent
      exact ⟨run.parent, hstill _ _ run.parent_eq, run.parent_active.live⟩
    · obtain ⟨above, habove, hlive'⟩ := h.parent_live id entry parent hid hlive hparent
      exact ⟨above, hstill _ _ habove, hlive'⟩
  · intro id entry hid hlive hparent
    rcases run.lookup_cases hid with ⟨rfl, rfl⟩ | ⟨-, hid⟩
    · rw [run.entry_parentId] at hparent
      cases hparent
    · exact h.root_only id entry hid hlive hparent

theorem renewed (h : Lifecycle s) {request : RenewalRequest} {now : DateTime}
    {uuid : String} (run : Renewal s request now uuid) (fresh : run.renewedId ∉ s.leases) :
    Lifecycle run.post := by
  have hmid := h.ends run.endsBelow
  -- the lease renewed is over, so no live lease of the middle state is it
  have hnotOld : ∀ id entry, run.retired.leases.lookup id = some entry →
      entry.record.state.isLive = true → id ≠ request.leaseId := by
    rintro id entry hid hlive rfl
    rw [run.endsBelow.inside _ run.old_mem entry hid] at hlive
    cases hlive
  have hstill : ∀ id entry, run.retired.leases.lookup id = some entry →
      run.post.leases.lookup id = some entry := by
    intro id entry hid
    obtain ⟨entry₀, h₀, -⟩ := run.endsBelow.cascade.before hid
    rw [run.lookup_other (run.ne_renewed fresh h₀)]
    exact hid
  constructor
  · intro id entry hid
    rcases run.lookup_cases hid with ⟨rfl, rfl⟩ | ⟨-, hid⟩
    · exact run.certificate_leaseId
    · exact hmid.keyed id entry hid
  · intro id entry parent hid hlive hparent
    rcases run.lookup_cases hid with ⟨rfl, rfl⟩ | ⟨-, hid⟩
    · rw [run.entry_parentId] at hparent
      obtain ⟨above, habove, hactive⟩ := run.parent_active hparent
      refine ⟨above, hstill _ _ ?_, hactive.live⟩
      rw [run.endsBelow.outside _ (run.parent_not_ended hparent)]
      exact habove
    · obtain ⟨above, habove, hlive'⟩ := hmid.parent_live id entry parent hid hlive hparent
      exact ⟨above, hstill _ _ habove, hlive'⟩
  · intro id entry hid hlive hparent
    rw [run.post_rootLeaseId]
    rcases run.lookup_cases hid with ⟨rfl, rfl⟩ | ⟨-, hid⟩
    · rw [run.entry_parentId] at hparent
      have hroot := h.root_only _ _ run.old_eq run.old_active.live hparent
      rw [if_pos hroot.symm]
    · have hroot := hmid.root_only id entry hid hlive hparent
      rw [run.endsBelow.cascade.rootLeaseId] at hroot
      have hne := hnotOld id entry hid hlive
      rw [if_neg (by rw [← hroot]; exact hne)]
      exact hroot

theorem toggled (h : Lifecycle s) {id : LeaseId} {entry : LeaseEntry} {next : LeaseState}
    {kind : AuthorityEventKind} {now : DateTime} (hentry : s.leases.lookup id = some entry)
    (hlive : entry.record.state.isLive = true) (hnext : next.isLive = true) :
    Lifecycle ((s.putLease id (entry.withRecord (entry.record.advance next))).pushEvent id none
      kind now) := by
  -- the lease is live before and after, and nothing else is different
  have hsame : ∀ id' entry', (s.putLease id (entry.withRecord
      (entry.record.advance next))).leases.lookup id' = some entry' →
      ∃ entry₀, s.leases.lookup id' = some entry₀ ∧ entry₀.certificate = entry'.certificate ∧
        (entry'.record.state.isLive = true → entry₀.record.state.isLive = true) := by
    intro id' entry' hid'
    rw [AuthorityState.lookup_putLease] at hid'
    split at hid'
    · rename_i heq
      cases hid'
      exact ⟨entry, by rw [heq]; exact hentry, rfl, fun _ => hlive⟩
    · exact ⟨entry', hid', rfl, fun h => h⟩
  constructor
  · intro id' entry' hid'
    obtain ⟨entry₀, h₀, hcert, -⟩ := hsame id' entry' hid'
    rw [← hcert]
    exact h.keyed id' entry₀ h₀
  · intro id' entry' parent hid' hlive' hparent
    obtain ⟨entry₀, h₀, hcert, hback⟩ := hsame id' entry' hid'
    rw [LeaseEntry.parentId, ← hcert] at hparent
    obtain ⟨above, habove, hlive''⟩ := h.parent_live id' entry₀ parent h₀ (hback hlive') hparent
    rw [AuthorityState.pushEvent_leases, AuthorityState.lookup_putLease]
    split
    · exact ⟨_, rfl, hnext⟩
    · exact ⟨above, habove, hlive''⟩
  · intro id' entry' hid' hlive' hparent
    obtain ⟨entry₀, h₀, hcert, hback⟩ := hsame id' entry' hid'
    rw [LeaseEntry.parentId, ← hcert] at hparent
    exact h.root_only id' entry₀ h₀ (hback hlive') hparent

theorem bootstrapped {request : RootLeaseRequest} {custody : KeyCustody} {now : DateTime}
    {uuid : String} (run : Bootstrap request custody now uuid) : Lifecycle run.post := by
  obtain ⟨⟨signature, hcert⟩, -⟩ := signedLease_eq_ok run.certificate_eq
  constructor
  · intro id entry hid
    obtain ⟨rfl, rfl⟩ := run.eq_entry hid
    simp only [Bootstrap.entry, hcert]
    rfl
  · intro id entry parent hid _ hparent
    obtain ⟨rfl, rfl⟩ := run.eq_entry hid
    rw [run.entry_parentId] at hparent
    cases hparent
  · intro id entry hid _ _
    exact (run.eq_entry hid).1

theorem step (h : Lifecycle s) (hstep : KernelStep s s') : Lifecycle s' := by
  cases hstep with
  | unchanged => exact h
  | toggled id entry next kind now hentry hstate hnow =>
      rcases hstate with ⟨hstate, rfl⟩ | ⟨hstate, rfl⟩
      · exact h.toggled hentry (by rw [hstate]; rfl) rfl
      · exact h.toggled hentry (by rw [hstate]; rfl) rfl
  | ended ended hends => exact h.ends hends
  | delegated run fresh => exact h.delegated run fresh
  | renewed run fresh => exact h.renewed run fresh

theorem of_reachable (h : Reachable s) : Lifecycle s := by
  refine h.invariant ?_ fun _ _ => step
  intro request custody now uuid s₀ hboot
  obtain ⟨run, rfl⟩ := bootstrap_eq_ok hboot
  exact bootstrapped run

/-- Everything above a live lease is live. -/
theorem above_live (h : Lifecycle s) {id above : LeaseId}
    (hbelow : LeaseBelow s above id) {entry : LeaseEntry}
    (hentry : s.leases.lookup id = some entry) (hlive : entry.record.state.isLive = true) :
    ∃ aboveEntry, s.leases.lookup above = some aboveEntry ∧
      aboveEntry.record.state.isLive = true := by
  induction hbelow generalizing entry with
  | refl => exact ⟨entry, hentry, hlive⟩
  | tail _ hlink ih =>
      obtain ⟨entry', hentry', hparent⟩ := hlink
      obtain rfl : entry = entry' := Option.some.inj (hentry.symm.trans hentry')
      obtain ⟨parentEntry, hparentEntry, hparentLive⟩ :=
        h.parent_live _ entry _ hentry hlive hparent
      exact ih hparentEntry hparentLive

end Lifecycle

/-- A validation only succeeds below live leases. -/
theorem validateChain_above_live {leaf above : LeaseId} {expected : Option Nat}
    {manifest : CapabilityManifest} {now : DateTime} {v : ValidatedAuthority}
    (h : validateChain s leaf expected manifest now = .ok v)
    (hbelow : LeaseBelow s above leaf) {entry : LeaseEntry}
    (hentry : s.leases.lookup above = some entry) : entry.record.state.isLive = true := by
  obtain ⟨leafEntry, path, hvalid⟩ := validateChain_sound h
  obtain ⟨node, hnode, rfl⟩ := List.mem_map.mp (hvalid.isPath.mem_of_below hbelow)
  have hfind : s.leases.lookup node.1 = some node.2 := hvalid.isPath.find_of_mem hnode
  rw [hentry] at hfind
  cases hfind
  exact (hvalid.active hnode).live

/-- In every reachable state no live lease has a dead one above it, and a lease
    that is over stays as it is: whatever is called afterwards, neither it nor
    anything below it is ever validated again. -/
theorem dead_leases_stay_dead (hs : Reachable s) :
    (∀ id entry above aboveEntry, s.leases.lookup id = some entry →
      entry.record.state.isLive = true →
      LeaseBelow s above id →
      s.leases.lookup above = some aboveEntry →
      aboveEntry.record.state.isLive = true) ∧
    ∀ s', KernelRun s s' → ∀ id entry, s.leases.lookup id = some entry →
      entry.record.state.isLive = false →
      (∃ entry', s'.leases.lookup id = some entry' ∧
        entry'.record.state = entry.record.state) ∧
      ∀ leaf, LeaseBelow s' id leaf →
        ∀ expected manifest now,
          (∀ v, validateActiveChain s' leaf expected manifest now ≠ .ok v) ∧
          ∀ (α : Type) (commit : ValidatedAuthority → Result α) (a : α),
            commitActiveChain s' leaf expected manifest now commit ≠ .ok a := by
  constructor
  · intro id entry above aboveEntry hentry hlive hbelow habove
    obtain ⟨entry', hentry', hlive'⟩ :=
      (Lifecycle.of_reachable hs).above_live hbelow hentry hlive
    rw [habove] at hentry'
    cases hentry'
    exact hlive'
  · intro s' hrun id entry hentry hdead
    obtain ⟨record, hlookup, hlater⟩ := hrun.keepsLeases id entry hentry
    obtain rfl := hlater.eq_of_dead hdead
    refine ⟨⟨_, hlookup, rfl⟩, ?_⟩
    intro leaf hbelow expected manifest now
    have hfail : ∀ v, validateChain s' leaf expected manifest now ≠ .ok v := by
      intro v hv
      have hlive := validateChain_above_live hv hbelow hlookup
      rw [hdead] at hlive
      cases hlive
    refine ⟨hfail, ?_⟩
    intro α commit a hcommit
    obtain ⟨v, hv, -⟩ := Except.bind_eq_ok.mp hcommit
    exact hfail v hv

omit [Externals] in
/-- A lease of the reference kernel is revoked, and the expirations are refreshed afterwards:
    the lease below the revoked one does not validate any more. -/
theorem dead_leases_stay_dead_reference : letI := Reference.externals
    ∃ (s s' s'' : AuthorityState) (root child : LeaseId) (rootEntry : LeaseEntry)
      (affected : List LeaseId), Reachable s ∧ LeaseBelow s root child ∧ child ≠ root ∧
      s.leases.lookup root = some rootEntry ∧ rootEntry.record.state.isLive = true ∧
      revoke root 0 "done" Reference.start s = .ok affected s' ∧
      KernelRun s' s'' ∧ (∃ revoked, s''.leases.lookup root = some revoked ∧
        revoked.record.state = .revoked) ∧
      ∀ expected manifest now,
        (∀ v, validateActiveChain s'' child expected manifest now ≠ .ok v) ∧
        ∀ commit : ValidatedAuthority → Result Unit,
          commitActiveChain s'' child expected manifest now commit ≠ .ok () := by
  let := Reference.externals
  obtain ⟨s, rootEntry, childEntry, h⟩ := Reference.exists_delegated
  have hlive := (dead_leases_stay_dead h.reachable).1 _ _ _ _ h.lookup_child h.child_live h.below
    h.lookup_root
  obtain ⟨affected, s', hrevoke⟩ := exists_revoke h.lookup_root h.root_live "done" Reference.start
  rw [h.root_generation] at hrevoke
  have hrun : KernelRun s s' := KernelRun.refl.succeed
    (.revoke Reference.leaseId 0 "done" Reference.start) (freshUuid_unsupported s)
    (map_eq_ok.mpr ⟨affected, hrevoke, rfl⟩)
  have hrevoked := revoke_self hrevoke h.lookup_root
  let refresh : KernelOp := .refreshExpirations (Reference.start + Duration.minutes 60)
  have hlater : KernelRun s' (refresh.after "!" s') :=
    KernelRun.refl.call refresh "!" (freshUuid_unsupported s')
  obtain ⟨⟨revoked, hrevoked', hstate⟩, hfails⟩ := (dead_leases_stay_dead
    (h.reachable.run hrun)).2 _ hlater _ _ hrevoked rfl
  refine ⟨s, s', _, _, _, rootEntry, affected, h.reachable, h.below, h.ne, h.lookup_root, hlive,
    hrevoke, hlater, ⟨revoked, hrevoked', hstate⟩, fun expected manifest now => ?_⟩
  have hbelow := (hrun.trans hlater).keepsLeases.below h.below
  exact ⟨(hfails _ hbelow expected manifest now).1,
    fun commit => (hfails _ hbelow expected manifest now).2 Unit commit ()⟩

end

end GenesisRuntime
