/-
  GenesisRuntime.Kernel.Ended

  The end of the root lease.  Every live lease hangs, over live leases, on the root
  lease; so once that is over, all leases are, and since every operation needs a live
  lease to start from, they stay so.
-/

import GenesisRuntime.Kernel.Topology

namespace GenesisRuntime

section
variable [Externals]

variable {s s' : AuthorityState}

/-- Every lease is over. -/
def AllEnded (s : AuthorityState) : Prop :=
  ∀ id entry, s.leases.lookup id = some entry → entry.record.state.isLive = false

/-- The root lease is over. -/
def RootEnded (s : AuthorityState) : Prop :=
  ∀ entry, s.leases.lookup s.rootLeaseId = some entry → entry.record.state.isLive = false

/-- With the root lease, everything is over. -/
theorem RootEnded.all (h : RootEnded s) (hlife : Lifecycle s) (htrees : Trees s) :
    AllEnded s := by
  intro id entry hid
  obtain ⟨path, agents, hpath, -⟩ := (htrees.leases id entry hid).path
  clear agents
  -- the leases of the path, from the root down
  induction hpath generalizing entry with
  | @root id entry₀ hfind hup =>
      by_contra hlive
      rw [Bool.not_eq_false] at hlive
      obtain rfl : entry = entry₀ := Option.some.inj (hid.symm.trans hfind)
      obtain rfl := hlife.root_only id entry hid hlive hup
      rw [h entry hid] at hlive
      cases hlive
  | @step id parent entry₀ path hfind hup _ ih =>
      by_contra hlive
      rw [Bool.not_eq_false] at hlive
      obtain rfl : entry = entry₀ := Option.some.inj (hid.symm.trans hfind)
      obtain ⟨above, habove, haboveLive⟩ := hlife.parent_live id entry parent hid hlive hup
      rw [ih above habove] at haboveLive
      cases haboveLive

namespace AllEnded

theorem not_active (h : AllEnded s) {id : LeaseId} {entry : LeaseEntry} {now : DateTime}
    (hid : s.leases.lookup id = some entry) : ¬ entry.ActiveAt now := by
  intro hactive
  have hlive := hactive.live
  rw [h id entry hid] at hlive
  cases hlive

/-- No operation brings a lease back, or issues a new one. -/
theorem step (h : AllEnded s) (hstep : KernelStep s s') : AllEnded s' := by
  cases hstep with
  | unchanged => exact h
  | toggled id entry next kind now hentry hstate hnow =>
      have hdead := h id entry hentry
      rcases hstate with ⟨hstate, -⟩ | ⟨hstate, -⟩ <;> rw [hstate] at hdead <;> cases hdead
  | ended ended hends =>
      intro id entry' hid
      obtain ⟨entry, hentry, -, hlater⟩ := hends.cascade.before hid
      rw [hlater.eq_of_dead (h id entry hentry)]
      exact h id entry hentry
  | delegated run fresh => exact absurd run.parent_active (h.not_active run.parent_eq)
  | renewed run fresh => exact absurd run.old_active (h.not_active run.old_eq)

theorem run (h : AllEnded s) (hrun : KernelRun s s') : AllEnded s' :=
  hrun.preserves h fun _ _ => step

/-- Nothing is validated any more. -/
theorem validateChain_ne (h : AllEnded s) {leaf : LeaseId} {expected : Option Nat}
    {manifest : CapabilityManifest} {now : DateTime} (v : ValidatedAuthority) :
    validateChain s leaf expected manifest now ≠ .ok v := by
  intro hvalid
  obtain ⟨entry, path, hchain⟩ := validateChain_sound hvalid
  exact h.not_active hchain.entry_eq (hchain.active hchain.leaf_mem)

/-- Nothing is renewed any more. -/
theorem renew_ne (h : AllEnded s) {request : RenewalRequest} {now : DateTime} {uuid : String}
    (returned : KernelReturn) (s' : AuthorityState) :
    (KernelOp.renew request now).exec uuid s ≠ .ok returned s' := by
  intro hexec
  obtain ⟨id, hrun, -⟩ := map_eq_ok.mp hexec
  obtain ⟨run, -, -⟩ := renew_eq_ok hrun
  exact h.not_active run.old_eq run.old_active

end AllEnded

-- ============================================================================
-- What ends the root lease
-- ============================================================================

/-- The root lease is stored, and has no parent. -/
theorem exists_root (hs : Reachable s) :
    ∃ entry, s.leases.lookup s.rootLeaseId = some entry ∧ entry.parentId = none := by
  obtain ⟨agent, hheld⟩ := (Lineages.of_reachable hs).root
  obtain ⟨entry, hentry, hagent, -⟩ := hheld.held
  exact ⟨entry, hentry, (hheld.parentless _ _ hentry).mpr hagent⟩

/-- A lease without parent that can be revoked is the root lease, and the revocation ends
    every lease. -/
theorem allEnded_of_revoke (hs : Reachable s) {id : LeaseId} {entry : LeaseEntry}
    (hid : s.leases.lookup id = some entry) (hparent : entry.parentId = none)
    {generation : Nat} {reason : String} {now : DateTime} {affected : List LeaseId}
    (h : revoke id generation reason now s = .ok affected s') : AllEnded s' := by
  have hlife := Lifecycle.of_reachable hs
  obtain ⟨entry', hentry', -, hlive, -⟩ := revoke_eq_ok h
  rw [hid] at hentry'
  cases hentry'
  obtain rfl := hlife.root_only id entry hid hlive hparent
  obtain ⟨hmem, hends⟩ := revoke_endsBelow h
  have hroot : RootEnded s' := by
    intro rootEntry hrootEntry
    rw [hends.cascade.rootLeaseId] at hrootEntry
    exact hends.inside _ hmem rootEntry hrootEntry
  have hstep : KernelStep s s' := .ended affected hends
  exact hroot.all (hlife.step hstep) ((Trees.of_reachable hs).step hlife hstep)

end

end GenesisRuntime
