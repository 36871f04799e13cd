/-
  GenesisRuntime.Kernel.Equivalence

  States of the kernel that no operation tells apart: they may differ in the log, and
  in how and when leases that are over have ended.
-/

import GenesisRuntime.Kernel.Refreshing
import GenesisRuntime.Kernel.Worklist
import GenesisRuntime.Lib.Relational

namespace GenesisRuntime

open EStateM (Related RelatedAt related_pure related_get relatedAt_get related_modify related_throw)

-- ============================================================================
-- Checks in related computations
-- ============================================================================

section
variable {σ τ α β γ δ : Type} {R : σ → τ → Prop} {V : α → β → Prop} {W : γ → δ → Prop}

/-- What follows a check matters for what passes only. -/
theorem ofResult_bind_congr {r : Result α} {f g : α → EStateM RuntimeError σ γ}
    (hfg : ∀ a, r = .ok a → f a = g a) : (ofResult r >>= f) = (ofResult r >>= g) := by
  cases r with
  | ok a => exact hfg a rfl
  | error e => rfl

theorem relatedAt_ofResult {r : Result α} {f : α → EStateM RuntimeError σ γ}
    {g : α → EStateM RuntimeError τ δ} {s : σ} {t : τ} (hst : R s t)
    (h : ∀ a, r = .ok a → RelatedAt R W (f a) (g a) s t) :
    RelatedAt R W (ofResult r >>= f) (ofResult r >>= g) s t := by
  cases r with
  | ok a => exact h a rfl
  | error e => exact related_throw e s t hst

theorem relatedAt_orReject {o : Option α} {o' : Option β} {code : ErrorCode} {message : String}
    {f : α → EStateM RuntimeError σ γ} {g : β → EStateM RuntimeError τ δ} {s : σ} {t : τ}
    (hst : R s t) (ho : Option.Rel V o o')
    (h : ∀ a b, o = some a → V a b → RelatedAt R W (f a) (g b) s t) :
    RelatedAt R W (orReject code message o >>= f) (orReject code message o' >>= g) s t := by
  cases ho with
  | some hab => exact h _ _ rfl hab
  | none => exact related_throw _ s t hst

theorem relatedAt_rejectIf {p q : Prop} [Decidable p] [Decidable q] {code : ErrorCode}
    {message : String} {f : Unit → EStateM RuntimeError σ γ} {g : Unit → EStateM RuntimeError τ δ}
    {s : σ} {t : τ} (hst : R s t) (hpq : p ↔ q) (h : ¬ p → RelatedAt R W (f ()) (g ()) s t) :
    RelatedAt R W (rejectIf p code message >>= f) (rejectIf q code message >>= g) s t := by
  by_cases hp : p
  · rw [rejectIf, rejectIf, if_pos hp, if_pos (hpq.mp hp)]
    exact related_throw _ s t hst
  · rw [rejectIf, rejectIf, if_neg hp, if_neg (mt hpq.mpr hp)]
    exact h hp

end

section
variable [Externals]

-- ============================================================================
-- Leases that are alike
-- ============================================================================

/-- Records that differ at most in how, and when, the lease has ended. -/
def RecordAlike (record record' : LeaseRecord) : Prop :=
  record' = record ∨ (record.IsOver ∧ record'.IsOver ∧ record'.leaseId = record.leaseId ∧
    record'.generation = record.generation ∧ record'.renewedBy = record.renewedBy)

structure EntryAlike (entry entry' : LeaseEntry) : Prop where
  certificate : entry'.certificate = entry.certificate
  manifest : entry'.manifest = entry.manifest
  record : RecordAlike entry.record entry'.record

namespace EntryAlike

variable {entry entry' : LeaseEntry}

theorem refl (entry : LeaseEntry) : EntryAlike entry entry := ⟨rfl, rfl, .inl rfl⟩

theorem symm (h : EntryAlike entry entry') : EntryAlike entry' entry where
  certificate := h.certificate.symm
  manifest := h.manifest.symm
  record := h.record.imp Eq.symm fun ⟨hover, hover', hid, hgeneration, hrenewed⟩ =>
    ⟨hover', hover, hid.symm, hgeneration.symm, hrenewed.symm⟩

/-- They are the same, or both over. -/
theorem eq_or_over (h : EntryAlike entry entry') :
    entry' = entry ∨ (entry.record.IsOver ∧ entry'.record.IsOver) := by
  obtain ⟨hcertificate, hmanifest, hrecord | ⟨hover, hover', -⟩⟩ := h
  · obtain ⟨certificate, record, manifest⟩ := entry
    obtain ⟨certificate', record', manifest'⟩ := entry'
    cases hcertificate
    cases hmanifest
    cases hrecord
    exact .inl rfl
  · exact .inr ⟨hover, hover'⟩

theorem generation_eq (h : EntryAlike entry entry') :
    entry'.record.generation = entry.record.generation := by
  rcases h.record with hsame | ⟨-, -, -, hgeneration, -⟩
  · rw [hsame]
  · exact hgeneration

theorem requireGeneration_eq (h : EntryAlike entry entry') (generation : Nat) :
    requireGeneration entry'.record generation = requireGeneration entry.record generation := by
  rw [requireGeneration, requireGeneration, h.generation_eq]

theorem isLive_eq (h : EntryAlike entry entry') :
    entry'.record.state.isLive = entry.record.state.isLive := by
  rcases h.eq_or_over with rfl | ⟨hover | hover, hover' | hover'⟩
  · rfl
  all_goals simp [hover, hover', LeaseState.isLive]

theorem parentId_eq (h : EntryAlike entry entry') : entry'.parentId = entry.parentId := by
  rw [LeaseEntry.parentId, LeaseEntry.parentId, h.certificate]

/-- A state that is none of a lease that is over. -/
theorem eq_of_state (h : EntryAlike entry entry') {state : LeaseState}
    (hrevoked : state ≠ .revoked) (hexpired : state ≠ .expired)
    (hstate : entry.record.state = state) : entry' = entry := by
  rcases h.eq_or_over with hsame | ⟨hover | hover, -⟩
  · exact hsame
  · exact absurd (hstate.symm.trans hover) hrevoked
  · exact absurd (hstate.symm.trans hover) hexpired

theorem eq_of_live (h : EntryAlike entry entry') (hlive : entry.record.state.isLive = true) :
    entry' = entry := by
  cases hstate : entry.record.state with
  | active => exact h.eq_of_state (by decide) (by decide) hstate
  | paused => exact h.eq_of_state (by decide) (by decide) hstate
  | _ =>
      rw [hstate] at hlive
      cases hlive

/-- A state that a lease that is over does not have is one of both or of neither. -/
theorem state_ne_iff (h : EntryAlike entry entry') {state : LeaseState}
    (hrevoked : state ≠ .revoked) (hexpired : state ≠ .expired) :
    entry.record.state ≠ state ↔ entry'.record.state ≠ state := by
  refine not_congr ⟨fun hstate => ?_, fun hstate => ?_⟩
  · rw [h.eq_of_state hrevoked hexpired hstate]
    exact hstate
  · rw [h.symm.eq_of_state hrevoked hexpired hstate]
    exact hstate

theorem validateActiveRecord_eq (h : EntryAlike entry entry') (expected : Option Nat)
    (now : DateTime) :
    validateActiveRecord entry' expected now = validateActiveRecord entry expected now := by
  have hactive : entry'.record.state ≠ .active ∨ now ≥ entry'.certificate.expiresAt ↔
      entry.record.state ≠ .active ∨ now ≥ entry.certificate.expiresAt := by
    rw [h.certificate]
    exact or_congr_left (h.state_ne_iff (by decide) (by decide)).symm
  simp only [validateActiveRecord, h.requireGeneration_eq, rejectIf, hactive]

end EntryAlike

-- ============================================================================
-- States that are alike
-- ============================================================================

/-- States that differ at most in the log, and in how and when leases that are over have
    ended. -/
structure Alike (s t : AuthorityState) : Prop where
  mission : t.mission = s.mission
  rootLeaseId : t.rootLeaseId = s.rootLeaseId
  identities : t.identities = s.identities
  custodians : t.custodians = s.custodians
  leases : ∀ id, Option.Rel EntryAlike (s.leases.lookup id) (t.leases.lookup id)

namespace Alike

variable {s t : AuthorityState}

theorem refl (s : AuthorityState) : Alike s s where
  mission := rfl
  rootLeaseId := rfl
  identities := rfl
  custodians := rfl
  leases := by
    intro id
    cases s.leases.lookup id with
    | none => exact .none
    | some entry => exact .some (.refl entry)

theorem pushEvent (h : Alike s t) (id : LeaseId) (related : Option LeaseId)
    (kind : AuthorityEventKind) (now : DateTime) :
    Alike (s.pushEvent id related kind now) (t.pushEvent id related kind now) :=
  ⟨h.mission, h.rootLeaseId, h.identities, h.custodians, h.leases⟩

theorem putLease (h : Alike s t) (id : LeaseId) {entry entry' : LeaseEntry}
    (hentry : EntryAlike entry entry') : Alike (s.putLease id entry) (t.putLease id entry') where
  mission := h.mission
  rootLeaseId := h.rootLeaseId
  identities := h.identities
  custodians := h.custodians
  leases := by
    intro id'
    by_cases heq : id' = id
    · subst heq
      simp only [AuthorityState.putLease, AList.lookup_insert]
      exact .some hentry
    · simp only [AuthorityState.putLease, AList.lookup_insert_ne heq]
      exact h.leases id'

theorem register (h : Alike s t) (agent : AgentId) (identity : AgentIdentityCertificate)
    (custody : KeyCustody) :
    Alike { s with
        identities := s.identities.insert agent identity
        custodians := s.custodians.insert agent custody }
      { t with
        identities := t.identities.insert agent identity
        custodians := t.custodians.insert agent custody } where
  mission := h.mission
  rootLeaseId := h.rootLeaseId
  identities := congrArg (AList.insert agent identity) h.identities
  custodians := congrArg (AList.insert agent custody) h.custodians
  leases := h.leases

theorem replaceRoot (h : Alike s t) (old new : LeaseId) :
    Alike (if s.rootLeaseId = old then { s with rootLeaseId := new } else s)
      (if t.rootLeaseId = old then { t with rootLeaseId := new } else t) := by
  rw [h.rootLeaseId]
  split
  · exact ⟨h.mission, rfl, h.identities, h.custodians, h.leases⟩
  · exact h

/-- What is found in the one state under an id is found in the other. -/
theorem exists_entry (h : Alike s t) {id : LeaseId} {entry : LeaseEntry}
    (hentry : s.leases.lookup id = some entry) :
    ∃ entry', t.leases.lookup id = some entry' ∧ EntryAlike entry entry' := by
  have hrel := h.leases id
  rw [hentry] at hrel
  generalize t.leases.lookup id = o at hrel
  cases hrel with
  | some halike => exact ⟨_, rfl, halike⟩

theorem lookup_active (h : Alike s t) {id : LeaseId} {entry : LeaseEntry}
    (hentry : s.leases.lookup id = some entry) (hactive : entry.record.state = .active) :
    t.leases.lookup id = some entry := by
  obtain ⟨entry', hentry', halike⟩ := h.exists_entry hentry
  rw [hentry', halike.eq_of_state (by decide) (by decide) hactive]

theorem symm (h : Alike s t) : Alike t s where
  mission := h.mission.symm
  rootLeaseId := h.rootLeaseId.symm
  identities := h.identities.symm
  custodians := h.custodians.symm
  leases := by
    intro id
    have hrel := h.leases id
    generalize s.leases.lookup id = o, t.leases.lookup id = o' at hrel ⊢
    cases hrel with
    | none => exact .none
    | some halike => exact .some halike.symm

theorem mem_iff (h : Alike s t) {id : LeaseId} : id ∈ t.leases ↔ id ∈ s.leases := by
  rw [← AList.lookup_isSome, ← AList.lookup_isSome]
  have hrel := h.leases id
  generalize s.leases.lookup id = o, t.leases.lookup id = o' at hrel ⊢
  cases hrel <;> simp

-- ============================================================================
-- Validation
-- ============================================================================

theorem identityWalk_eq (h : Alike s t) {validated : List AgentId} {remaining : Nat}
    {agent : AgentId} {visited : List AgentId} :
    identityWalk t validated remaining agent visited
      = identityWalk s validated remaining agent visited := by
  induction remaining generalizing agent visited with
  | zero => rfl
  | succ remaining ih => simp only [identityWalk, h.identities, ih]

theorem validateBindings_eq (h : Alike s t) (entry : LeaseEntry)
    (subject : AgentIdentityCertificate) :
    validateBindings t entry subject = validateBindings s entry subject := by
  simp only [validateBindings, h.identities]
  cases entry.certificate.renewedFrom with
  | none => rfl
  | some renewedFrom =>
      dsimp only
      have hrel := h.leases renewedFrom.leaseId
      generalize s.leases.lookup renewedFrom.leaseId = o, t.leases.lookup renewedFrom.leaseId = o'
        at hrel ⊢
      cases hrel with
      | none => rfl
      | @some predecessor predecessor' halike =>
          -- where it is over it has not been retired
          rcases halike.eq_or_over with rfl | ⟨hover, hover'⟩
          · rfl
          have hretired : predecessor.record.state ≠ .retired := by
            rcases hover with hstate | hstate <;> simp [hstate]
          have hretired' : predecessor'.record.state ≠ .retired := by
            rcases hover' with hstate | hstate <;> simp [hstate]
          simp [orReject, halike.certificate, hretired, hretired']

theorem validateCertificateEntry_eq (h : Alike s t) (entry : LeaseEntry) :
    validateCertificateEntry t entry = validateCertificateEntry s entry := by
  have hchain (agent : AgentId) :
      validateIdentityChain t agent = validateIdentityChain s agent := by
    simp only [validateIdentityChain, h.identityWalk_eq]
  simp only [validateCertificateEntry, h.mission, h.identities, hchain, h.validateBindings_eq]

/-- The walk stops at a lease that is over, and passes the same leases until then. -/
theorem chainWalk_eq (h : Alike s t) {leaf : LeaseId} {expected : Option Nat} {now : DateTime}
    {remaining : Nat} {current : LeaseId} {visited : List LeaseId} :
    chainWalk t leaf expected now remaining current visited
      = chainWalk s leaf expected now remaining current visited := by
  induction remaining generalizing current visited with
  | zero => rfl
  | succ remaining ih =>
      rw [chainWalk, chainWalk]
      refine bind_congr fun _ => ?_
      have hrel := h.leases current
      generalize s.leases.lookup current = o, t.leases.lookup current = o' at hrel ⊢
      cases hrel with
      | none =>
          refine orReject_bind_congr fun entry hnone => ?_
          cases hnone
      | @some entry entry' halike =>
          refine (pure_bind entry' _).trans (Eq.trans ?_ (pure_bind entry _).symm)
          simp only [halike.validateActiveRecord_eq]
          refine ofResult_bind_congr fun _ hactive => ?_
          obtain rfl := halike.eq_of_state (by decide) (by decide)
            (validateActiveRecord_eq_ok.mp hactive).2.1
          simp only [h.validateCertificateEntry_eq, ih]

/-- Validations agree, also in the error they report. -/
theorem validateChain_eq (h : Alike s t) (leaf : LeaseId) (expected : Option Nat)
    (manifest : CapabilityManifest) (now : DateTime) :
    validateChain t leaf expected manifest now = validateChain s leaf expected manifest now := by
  simp only [validateChain, h.chainWalk_eq]

theorem validateDelegationRequest_eq (h : Alike s t) (parent : LeaseEntry)
    (request : DelegationRequest) (now : DateTime) :
    validateDelegationRequest t parent request now
      = validateDelegationRequest s parent request now := by
  simp only [validateDelegationRequest, h.mission]

theorem validateRenewalRequest_eq (h : Alike s t) (old : LeaseEntry) (request : RenewalRequest)
    (now : DateTime) :
    validateRenewalRequest t old request now = validateRenewalRequest s old request now := by
  simp only [validateRenewalRequest, h.mission]
  cases old.certificate.parentLease with
  | none => rfl
  | some parentRef =>
      dsimp only
      have hrel := h.leases parentRef.leaseId
      generalize s.leases.lookup parentRef.leaseId = o, t.leases.lookup parentRef.leaseId = o'
        at hrel ⊢
      cases hrel with
      | none => rfl
      | some halike => simp only [orReject, pure_bind, halike.validateActiveRecord_eq,
          halike.certificate]

-- ============================================================================
-- The leases that are gone through
-- ============================================================================

theorem childrenOf_eq (h : Alike s t) : childrenOf t = childrenOf s := by
  funext parent
  refine eq_of_pairwise_lt (childrenOf_pairwise_lt parent)
    (childrenOf_pairwise_lt parent) fun child => ?_
  rw [mem_childrenOf, mem_childrenOf]
  constructor
  · rintro ⟨entry', hentry', hparent⟩
    obtain ⟨entry, hentry, halike⟩ := h.symm.exists_entry hentry'
    exact ⟨entry, hentry, halike.parentId_eq.trans hparent⟩
  · rintro ⟨entry, hentry, hparent⟩
    obtain ⟨entry', hentry', halike⟩ := h.exists_entry hentry
    exact ⟨entry', hentry', halike.parentId_eq.trans hparent⟩

theorem descendantsIncluding_eq (h : Alike s t) (root : LeaseId) :
    descendantsIncluding t root = descendantsIncluding s root := by
  have hkeys : t.leases.keys.length = s.leases.keys.length := by
    refine List.Perm.length_eq ((List.perm_ext_iff_of_nodup t.leases.keys_nodup
      s.leases.keys_nodup).mpr fun id => ?_)
    rw [← AList.mem_keys, ← AList.mem_keys, h.mem_iff]
  simp only [descendantsIncluding, descendants, h.mem_iff, h.childrenOf_eq, hkeys]

theorem dueLeases_eq (h : Alike s t) (now : DateTime) : dueLeases t now = dueLeases s now := by
  refine eq_of_pairwise_lt (pairwise_dueLeases t now) (pairwise_dueLeases s now)
    fun id => ?_
  rw [mem_dueLeases, mem_dueLeases]
  constructor
  · rintro ⟨entry', hentry', hlive, hdue⟩
    obtain ⟨entry, hentry, halike⟩ := h.symm.exists_entry hentry'
    rw [halike.eq_of_live hlive] at hentry
    exact ⟨entry', hentry, hlive, hdue⟩
  · rintro ⟨entry, hentry, hlive, hdue⟩
    obtain ⟨entry', hentry', halike⟩ := h.exists_entry hentry
    rw [halike.eq_of_live hlive] at hentry'
    exact ⟨entry, hentry', hlive, hdue⟩

-- ============================================================================
-- Operations
-- ============================================================================

/-- Where an active lease is found in the one state, the same one is found in the other. -/
theorem active_bind {γ : Type} (h : Alike s t) (id : LeaseId) {code : ErrorCode}
    {message : String} {expected : Option Nat} {now : DateTime}
    {f g : LeaseEntry → KernelM γ}
    (hfg : ∀ entry : LeaseEntry, s.leases.lookup id = some entry →
      entry.record.state = .active → RelatedAt Alike Eq (f entry) (g entry) s t) :
    RelatedAt Alike Eq
      (orReject code message (s.leases.lookup id) >>= fun entry =>
        ofResult (validateActiveRecord entry expected now) >>= fun _ => f entry)
      (orReject code message (t.leases.lookup id) >>= fun entry =>
        ofResult (validateActiveRecord entry expected now) >>= fun _ => g entry) s t := by
  refine relatedAt_orReject h (h.leases id) fun entry entry' hentry halike => ?_
  rw [halike.validateActiveRecord_eq]
  refine relatedAt_ofResult h fun _ hvalid => ?_
  have hactive := (validateActiveRecord_eq_ok.mp hvalid).2.1
  obtain rfl := halike.eq_of_state (by decide) (by decide) hactive
  exact hfg entry' hentry hactive

end Alike

theorem related_putLease (id : LeaseId) (entry : LeaseEntry) :
    Related (ε := RuntimeError) Alike Eq (modify (·.putLease id entry))
      (modify (·.putLease id entry)) :=
  related_modify fun _ _ h => h.putLease id (.refl entry)

theorem related_pushEvent (id : LeaseId) (related : Option LeaseId) (kind : AuthorityEventKind)
    (now : DateTime) :
    Related (ε := RuntimeError) Alike Eq (modify (·.pushEvent id related kind now))
      (modify (·.pushEvent id related kind now)) :=
  related_modify fun _ _ h => h.pushEvent id related kind now

theorem related_revokeIfLive (reason : String) (now : DateTime) (related : Option LeaseId)
    (id : LeaseId) :
    Related Alike Eq (revokeIfLive reason now related id) (revokeIfLive reason now related id) := by
  refine related_get fun s t h => ?_
  refine relatedAt_orReject h (h.leases id) fun entry entry' _ halike => ?_
  rw [halike.isLive_eq]
  split
  · rename_i hlive
    obtain rfl := halike.eq_of_live hlive
    exact (related_putLease id _).bindEq (fun _ => related_pushEvent id related _ now) s t h
  · exact related_pure rfl s t h

theorem related_revokeDescendants (root : LeaseId) (reason : String) (now : DateTime) :
    Related Alike Eq (revokeDescendants root reason now) (revokeDescendants root reason now) := by
  refine related_get fun s t h => ?_
  rw [h.descendantsIncluding_eq]
  refine relatedAt_ofResult h fun ids _ => ?_
  exact Related.forM (fun id => related_revokeIfLive reason now (some root) id) s t h

theorem related_transition (id : LeaseId) (generation : Nat) {expected : LeaseState}
    (next : LeaseState) (kind : AuthorityEventKind) (now : DateTime)
    (hrevoked : expected ≠ .revoked) (hexpired : expected ≠ .expired) :
    Related Alike Eq (transition id generation expected next kind now)
      (transition id generation expected next kind now) := by
  refine related_get fun s t h => ?_
  refine relatedAt_orReject h (h.leases id) fun entry entry' _ halike => ?_
  rw [halike.requireGeneration_eq]
  refine relatedAt_ofResult h fun _ _ => ?_
  refine relatedAt_rejectIf h ?_ fun hpass => ?_
  · rw [halike.certificate]
    exact or_congr_left (halike.state_ne_iff hrevoked hexpired)
  · obtain rfl := halike.eq_of_state hrevoked hexpired
      (Decidable.of_not_not (not_or.mp hpass).1)
    exact (related_putLease id _).bindEq
      (fun _ => (related_pushEvent id none kind now).bindEq fun _ => related_pure rfl) s t h

theorem related_revoke (id : LeaseId) (generation : Nat) (reason : String) (now : DateTime) :
    Related Alike Eq (revoke id generation reason now) (revoke id generation reason now) := by
  refine related_get fun s t h => ?_
  refine relatedAt_orReject h (h.leases id) fun entry entry' _ halike => ?_
  rw [halike.requireGeneration_eq, halike.isLive_eq]
  refine relatedAt_ofResult h fun _ _ => ?_
  refine relatedAt_rejectIf h .rfl fun _ => ?_
  refine relatedAt_get ?_
  rw [h.descendantsIncluding_eq]
  refine relatedAt_ofResult h fun affected _ => ?_
  exact Related.bindEq (.forM fun _ => related_revokeIfLive reason now _ _)
    (fun _ => related_pure rfl) s t h

theorem related_expireIfLive (now : DateTime) (expired : List LeaseId) (id : LeaseId) :
    Related Alike Eq (expireIfLive now expired id) (expireIfLive now expired id) := by
  refine related_get fun s t h => ?_
  refine relatedAt_orReject h (h.leases id) fun entry entry' _ halike => ?_
  rw [halike.isLive_eq]
  split
  · rename_i hlive
    obtain rfl := halike.eq_of_live hlive
    exact (related_putLease id _).bindEq (fun _ => (related_pushEvent id none _ now).bindEq
      fun _ => (related_revokeDescendants id _ now).bindEq fun _ => related_pure rfl) s t h
  · exact related_pure rfl s t h

theorem related_refreshExpirations (now : DateTime) :
    Related Alike Eq (refreshExpirations now) (refreshExpirations now) := by
  refine related_get fun s t h => ?_
  rw [h.dueLeases_eq]
  exact Related.foldlM (fun expired id => related_expireIfLive now expired id) [] s t h

theorem related_delegate (request : DelegationRequest) (custody : KeyCustody) (now : DateTime)
    (uuid : String) :
    Related Alike Eq (delegate request custody now uuid) (delegate request custody now uuid) := by
  refine related_get fun s t h => ?_
  refine h.active_bind request.parentLeaseId fun parent _ _ => ?_
  simp only [h.validateChain_eq, h.validateDelegationRequest_eq, h.identities, h.custodians,
    orReject_eq_ofResult]
  refine relatedAt_ofResult h fun _ _ => ?_
  refine relatedAt_rejectIf h .rfl fun _ => ?_
  refine relatedAt_ofResult h fun _ _ => ?_
  refine relatedAt_rejectIf h .rfl fun _ => ?_
  refine relatedAt_rejectIf h .rfl fun _ => ?_
  refine relatedAt_ofResult h fun _ _ => ?_
  refine relatedAt_ofResult h fun childIdentity _ => ?_
  refine relatedAt_ofResult h fun _ _ => ?_
  refine relatedAt_ofResult h fun _ _ => ?_
  refine relatedAt_ofResult h fun _ _ => ?_
  refine relatedAt_ofResult h fun childLeaseId _ => ?_
  refine relatedAt_ofResult h fun _ _ => ?_
  refine relatedAt_ofResult h fun _ _ => ?_
  refine relatedAt_ofResult h fun childCertificate _ => ?_
  have hregister := related_modify (ε := RuntimeError) fun s t (h : Alike s t) =>
    h.register request.childAgentId childIdentity custody
  exact hregister.bindEq (fun _ => (related_putLease childLeaseId _).bindEq fun _ =>
    (related_pushEvent childLeaseId _ _ now).bindEq fun _ =>
    (related_pushEvent childLeaseId _ _ now).bindEq fun _ => related_pure rfl) s t h

theorem related_renew (request : RenewalRequest) (now : DateTime) (uuid : String) :
    Related Alike Eq (renew request now uuid) (renew request now uuid) := by
  refine related_get fun s t h => ?_
  refine h.active_bind request.leaseId fun old hold hactive => ?_
  simp only [h.validateChain_eq, h.validateRenewalRequest_eq, h.identities, h.custodians,
    orReject_eq_ofResult]
  refine relatedAt_ofResult h fun _ _ => ?_
  refine relatedAt_ofResult h fun _ _ => ?_
  refine relatedAt_ofResult h fun _ _ => ?_
  refine relatedAt_ofResult h fun _ _ => ?_
  refine relatedAt_ofResult h fun renewedId _ => ?_
  refine relatedAt_ofResult h fun _ _ => ?_
  refine relatedAt_ofResult h fun _ _ => ?_
  refine relatedAt_ofResult h fun _ _ => ?_
  refine relatedAt_ofResult h fun certificate _ => ?_
  refine relatedAt_get ?_
  rw [h.lookup_active hold hactive, hold]
  refine relatedAt_ofResult h fun _ _ => ?_
  exact (related_putLease request.leaseId _).bindEq (fun _ =>
    (related_revokeDescendants request.leaseId _ now).bindEq fun _ =>
    (related_putLease renewedId _).bindEq fun _ =>
    (related_modify fun _ _ h => h.replaceRoot request.leaseId renewedId).bindEq fun _ =>
    (related_pushEvent renewedId _ _ now).bindEq fun _ => related_pure rfl) s t h

theorem related_exec (op : KernelOp) (uuid : String) :
    Related Alike Eq (op.exec uuid) (op.exec uuid) := by
  cases op with
  | delegate request custody now => exact (related_delegate request custody now uuid).map _
  | pause id generation now =>
      exact (related_transition id generation _ _ now (by decide) (by decide)).map _
  | resume id generation now =>
      exact (related_transition id generation _ _ now (by decide) (by decide)).map _
  | revoke id generation reason now => exact (related_revoke id generation reason now).map _
  | refreshExpirations now => exact (related_refreshExpirations now).map _
  | renew request now => exact (related_renew request now uuid).map _

/-- One call after the other, each with its UUID, and what each of them returns. -/
def callAll (calls : List (KernelOp × String)) : KernelM (List (Result KernelReturn)) :=
  calls.mapM fun call => EStateM.attempt (call.1.exec call.2)

/-- An attempt does not fail, so neither do the calls together. -/
theorem exists_callAll (calls : List (KernelOp × String)) (s : AuthorityState) :
    ∃ results s', callAll calls s = .ok results s' :=
  EStateM.exists_mapM_eq_ok (fun call _ s => EStateM.exists_attempt (call.1.exec call.2) s) s

theorem related_callAll (calls : List (KernelOp × String)) :
    Related Alike Eq (callAll calls) (callAll calls) :=
  .mapM fun call => (related_exec call.1 call.2).attempt

end

end GenesisRuntime
