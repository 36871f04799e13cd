/-
  GenesisRuntime.Kernel.Renaming

  How the outcome of `refresh_expirations` depends on the ids of the leases.

  Lease ids are made of random UUIDs, so nothing ought to hang on how they sort.
  Which leases end does not.  Whether a lease ends as expired, and is returned, or is
  revoked along with a lease above it, does: of two due leases, one above the other,
  the one with the smaller id has its turn first.
-/

import GenesisRuntime.Kernel.Expiry
import GenesisRuntime.Kernel.Tree

namespace GenesisRuntime

section
variable [Externals] {s t : AuthorityState} {f : LeaseId → LeaseId}

-- ============================================================================
-- The same leases under other ids
-- ============================================================================

/-- A record with other lease ids in it. -/
def LeaseRecord.rename (f : LeaseId → LeaseId) (record : LeaseRecord) : LeaseRecord :=
  { record with leaseId := f record.leaseId, renewedBy := record.renewedBy.map f }

/-- The leases of the second state are the leases of the first one under other ids, as far
    as expiry is concerned. -/
structure Renames (f : LeaseId → LeaseId) (s t : AuthorityState) : Prop where
  injective : ∀ a ∈ s.leases, ∀ b ∈ s.leases, f a = f b → a = b
  lookup : ∀ id entry, s.leases.lookup id = some entry →
    ∃ entry', t.leases.lookup (f id) = some entry' ∧
      entry'.parentId = entry.parentId.map f ∧
      entry'.certificate.expiresAt = entry.certificate.expiresAt ∧
      entry'.record = entry.record.rename f
  onto : ∀ id' ∈ t.leases, ∃ id ∈ s.leases, f id = id'

namespace Renames

theorem below (h : Renames f s t) {above id : LeaseId} (hbelow : LeaseBelow s above id) :
    LeaseBelow t (f above) (f id) := by
  induction hbelow with
  | refl => exact .refl
  | tail _ hlink ih =>
      obtain ⟨entry, hentry, hparent⟩ := hlink
      obtain ⟨entry', hentry', hparent', -⟩ := h.lookup _ entry hentry
      refine ih.tail ⟨entry', hentry', ?_⟩
      rw [hparent', hparent]
      rfl

/-- Everything below the new id of a lease is the new id of a lease below it. -/
theorem exists_below (h : Renames f s t) (htimely : Timely s) {above id' : LeaseId}
    (habove : above ∈ s.leases) (hbelow : LeaseBelow t (f above) id') :
    ∃ id ∈ s.leases, f id = id' ∧ LeaseBelow s above id := by
  induction hbelow with
  | refl => exact ⟨above, habove, rfl, .refl⟩
  | @tail parent' child' _ hlink ih =>
      obtain ⟨entry', hentry', hparent'⟩ := hlink
      obtain ⟨parent, hparent, rfl, hbelow⟩ := ih
      obtain ⟨child, hchild, rfl⟩ := h.onto child' (AList.mem_of_lookup hentry')
      obtain ⟨entry, hentry⟩ := AList.mem_iff_lookup.mp hchild
      obtain ⟨entry'', hentry'', hup, -⟩ := h.lookup child entry hentry
      obtain rfl : entry' = entry'' := Option.some.inj (hentry'.symm.trans hentry'')
      rw [hparent'] at hup
      obtain ⟨parent₀, hparent₀, heq⟩ := Option.map_eq_some_iff.mp hup.symm
      obtain ⟨aboveEntry, haboveEntry, -⟩ := htimely.parent child entry hentry parent₀ hparent₀
      obtain rfl := h.injective parent₀ (AList.mem_of_lookup haboveEntry) parent hparent heq
      exact ⟨child, hchild, rfl, hbelow.tail ⟨entry, hentry, hparent₀⟩⟩

theorem below_iff (h : Renames f s t) (htimely : Timely s) {above id : LeaseId}
    (habove : above ∈ s.leases) (hid : id ∈ s.leases) :
    LeaseBelow t (f above) (f id) ↔ LeaseBelow s above id := by
  refine ⟨fun hbelow => ?_, h.below⟩
  obtain ⟨id₀, hid₀, heq, hbelow⟩ := h.exists_below htimely habove hbelow
  rwa [h.injective id₀ hid₀ id hid heq] at hbelow

theorem mem_dueLeases_iff (h : Renames f s t) {now : DateTime} {id : LeaseId}
    (hid : id ∈ s.leases) : f id ∈ dueLeases t now ↔ id ∈ dueLeases s now := by
  obtain ⟨entry, hentry⟩ := AList.mem_iff_lookup.mp hid
  obtain ⟨entry', hentry', -, hexpires, hrecord⟩ := h.lookup id entry hentry
  simp [mem_dueLeases, hentry, hentry', hexpires, hrecord, LeaseRecord.rename]

end Renames

theorem mem_leases_of_mem_dueLeases {now : DateTime} {id : LeaseId}
    (h : id ∈ dueLeases s now) : id ∈ s.leases := by
  obtain ⟨entry, hentry, -⟩ := mem_dueLeases.mp h
  exact AList.mem_of_lookup hentry

/-- The renaming keeps the order of the leases that are due, as far as one is above the
    other. -/
def KeepsDueOrder (f : LeaseId → LeaseId) (s : AuthorityState) (now : DateTime) : Prop :=
  ∀ above ∈ dueLeases s now, ∀ id ∈ dueLeases s now, LeaseBelow s above id →
    (f above < f id ↔ above < id)

namespace Renames

variable {now : DateTime}

theorem overtaken_iff (h : Renames f s t) (htimely : Timely s) (horder : KeepsDueOrder f s now)
    {id : LeaseId} (hid : id ∈ dueLeases s now) :
    Overtaken t (dueLeases t now) (f id) ↔ Overtaken s (dueLeases s now) id := by
  have hstored := mem_leases_of_mem_dueLeases hid
  constructor
  · rintro ⟨above', habove', hlt, hbelow⟩
    obtain ⟨above, habove, rfl⟩ := h.onto above' (mem_leases_of_mem_dueLeases habove')
    rw [h.mem_dueLeases_iff habove] at habove'
    rw [h.below_iff htimely habove hstored] at hbelow
    exact ⟨above, habove', (horder above habove' id hid hbelow).mp hlt, hbelow⟩
  · rintro ⟨above, habove, hlt, hbelow⟩
    exact ⟨f above, (h.mem_dueLeases_iff (mem_leases_of_mem_dueLeases habove)).mpr habove,
      (horder above habove id hid hbelow).mpr hlt, h.below hbelow⟩

variable {s' t' : AuthorityState} {expired expired' : List LeaseId} {notes notes' : List Note}

/-- The same leases end, whatever the order of the ids. -/
theorem isLive_swept (h : Renames f s t) (htimely : Timely s) (htimely' : Timely t)
    (hs : Swept s s' now (dueLeases s now) expired notes)
    (ht : Swept t t' now (dueLeases t now) expired' notes') {id : LeaseId}
    (hid : id ∈ s.leases) : t'.isLive (f id) = s'.isLive id := by
  obtain ⟨entry, hentry⟩ := AList.mem_iff_lookup.mp hid
  obtain ⟨entry', hentry', -, -, hrecord⟩ := h.lookup id entry hentry
  rw [Bool.eq_iff_iff, hs.isLive_iff, ht.isLive_iff, endedBy_dueLeases htimely,
    endedBy_dueLeases htimely', h.mem_dueLeases_iff hid, isLive_of_lookup hentry,
    isLive_of_lookup hentry', hrecord]
  rfl

/-- Where the order of the leases is kept, they end in the same way. -/
theorem swept (h : Renames f s t) (htimely : Timely s) (htimely' : Timely t)
    (horder : KeepsDueOrder f s now)
    (hs : Swept s s' now (dueLeases s now) expired notes)
    (ht : Swept t t' now (dueLeases t now) expired' notes') :
    Renames f s' t' ∧ ∀ id', id' ∈ expired' ↔ ∃ id ∈ expired, f id = id' := by
  have hexpired : ∀ id ∈ dueLeases s now, (f id ∈ expired' ↔ id ∈ expired) := by
    intro id hid
    rw [hs.mem_expired, ht.mem_expired, h.overtaken_iff htimely horder hid,
      h.mem_dueLeases_iff (mem_leases_of_mem_dueLeases hid)]
  constructor
  · constructor
    · intro a ha b hb heq
      exact h.injective a (hs.cascade.mem_iff.mp ha) b (hs.cascade.mem_iff.mp hb) heq
    · intro id entry₁ hentry₁
      obtain ⟨entry, hentry, heq, -⟩ := hs.cascade.before hentry₁
      obtain ⟨entry', hentry', hparent, hexpires, hrecord⟩ := h.lookup id entry hentry
      by_cases hdue : id ∈ dueLeases s now
      · have hdue' := (h.mem_dueLeases_iff (AList.mem_of_lookup hentry)).mpr hdue
        rcases hs.due hdue hentry with ⟨hin, -, hlookup⟩ | ⟨hnot, -, hlookup⟩
        · rcases ht.due hdue' hentry' with ⟨-, -, hlookup'⟩ | ⟨hnot', -⟩
          · rw [hentry₁] at hlookup
            obtain rfl := Option.some.inj hlookup
            refine ⟨_, hlookup', hparent, hexpires, ?_⟩
            rw [hrecord]
            rfl
          · exact absurd ((hexpired id hdue).mpr hin) hnot'
        · rcases ht.due hdue' hentry' with ⟨hin', -⟩ | ⟨-, -, hlookup'⟩
          · exact absurd ((hexpired id hdue).mp hin') hnot
          · rw [hentry₁] at hlookup
            obtain rfl := Option.some.inj hlookup
            refine ⟨_, hlookup', hparent, hexpires, ?_⟩
            rw [hrecord]
            rfl
      · have hdue' : f id ∉ dueLeases t now :=
          mt (h.mem_dueLeases_iff (AList.mem_of_lookup hentry)).mp hdue
        rw [hs.spared id (mt (endedBy_dueLeases htimely).mp hdue), hentry] at hentry₁
        obtain rfl := Option.some.inj hentry₁
        refine ⟨entry', ?_, hparent, hexpires, hrecord⟩
        rw [ht.spared (f id) (mt (endedBy_dueLeases htimely').mp hdue'), hentry']
    · intro id' hid'
      obtain ⟨id, hid, heq⟩ := h.onto id' (ht.cascade.mem_iff.mp hid')
      exact ⟨id, hs.cascade.mem_iff.mpr hid, heq⟩
  · intro id'
    constructor
    · intro hid'
      have hdue' := ht.sublist.subset hid'
      obtain ⟨id, hid, rfl⟩ := h.onto id' (mem_leases_of_mem_dueLeases hdue')
      exact ⟨id, (hexpired id ((h.mem_dueLeases_iff hid).mp hdue')).mp hid', rfl⟩
    · rintro ⟨id, hid, rfl⟩
      exact (hexpired id (hs.sublist.subset hid)).mpr hid

end Renames

end

-- ============================================================================
-- The order of the ids
-- ============================================================================

section
variable [Externals] {s t : AuthorityState} {f : LeaseId → LeaseId}

/-- Every lease that is due ends, whatever the ids. It ends as expired and is returned,
    unless a due lease above it has a smaller id, in which case it is revoked along with
    that one. So the same leases end under any renaming of the ids, and they end in the
    same way where the renaming keeps the order of the due leases on each path. -/
theorem expiry_follows_id_order (hs : Reachable s) (ht : Reachable t) (h : Renames f s t)
    (now : DateTime) :
    ∃ expired s' expired' t', refreshExpirations now s = .ok expired s' ∧
      refreshExpirations now t = .ok expired' t' ∧
      (∀ id ∈ dueLeases s now, ∀ entry, s.leases.lookup id = some entry →
        ((∃ above ∈ dueLeases s now, above < id ∧ LeaseBelow s above id) → id ∉ expired ∧
          s'.leases.lookup id = some { entry with
            record := entry.record.revoke "ancestor lease expired" now }) ∧
        (¬ (∃ above ∈ dueLeases s now, above < id ∧ LeaseBelow s above id) → id ∈ expired ∧
          s'.leases.lookup id = some { entry with
            record := entry.record.advance .expired })) ∧
      (∀ id ∈ s.leases, t'.isLive (f id) = s'.isLive id) ∧
      (KeepsDueOrder f s now →
        Renames f s' t' ∧ ∀ id', id' ∈ expired' ↔ ∃ id ∈ expired, f id = id') := by
  have htimely := Timely.of_reachable hs
  have htimely' := Timely.of_reachable ht
  obtain ⟨expired, s', notes, hrun, hswept⟩ := refreshExpirations_swept htimely now
  obtain ⟨expired', t', notes', hrun', hswept'⟩ := refreshExpirations_swept htimely' now
  refine ⟨expired, s', expired', t', hrun, hrun', ?_,
    fun id hid => h.isLive_swept htimely htimely' hswept hswept' hid,
    fun horder => h.swept htimely htimely' horder hswept hswept'⟩
  intro id hid entry hentry
  rcases hswept.due hid hentry with ⟨hin, hnot, hlookup⟩ | ⟨hout, hover, hlookup⟩
  · exact ⟨fun hover => absurd hover hnot, fun _ => ⟨hin, hlookup⟩⟩
  · exact ⟨fun _ => ⟨hout, hlookup⟩, fun hnot => absurd hover hnot⟩

omit [Externals] in
/-- A lease and the lease above it are due together, and the one above has the smaller id:
    the lease below ends as revoked, and is not among those returned. -/
theorem due_lease_is_revoked : letI := Reference.externals
    ∃ (s s' : AuthorityState) (expired : List LeaseId) (entry entry' : LeaseEntry),
      Reachable s ∧
      s.leases.lookup ⟨"lease-2", by decide⟩ = some entry ∧ entry.record.state = .active ∧
      entry.certificate.expiresAt ≤ Reference.start + Duration.minutes 5 ∧
      refreshExpirations (Reference.start + Duration.minutes 5) s = .ok expired s' ∧
      ⟨"lease-2", by decide⟩ ∉ expired ∧
      s'.leases.lookup ⟨"lease-2", by decide⟩ = some entry' ∧ entry'.record.state = .revoked := by
  let := Reference.externals
  obtain ⟨s, rootEntry, childEntry, h⟩ := Reference.exists_delegated
  obtain ⟨s', hrun, -, hlookup⟩ := h.exists_expired (by decide)
  exact ⟨s, s', [Reference.leaseId], childEntry, _, h.reachable, h.lookup_child,
    by rw [h.child_record]; rfl, h.child_expires.le, hrun, by decide, hlookup, rfl⟩

omit [Externals] in
/-- Two leases, one below the other, and the same leases with their ids exchanged. -/
theorem expiry_follows_id_order_reference : letI := Reference.externals
    ∃ (s t : AuthorityState) (f : LeaseId → LeaseId), Renames f s t ∧ f ≠ id ∧
      ∃ expired s' expired' t',
        refreshExpirations (Reference.start + Duration.minutes 5) s = .ok expired s' ∧
        refreshExpirations (Reference.start + Duration.minutes 5) t = .ok expired' t' ∧
        ∀ id ∈ s.leases, t'.isLive (f id) = s'.isLive id := by
  let := Reference.externals
  let other : LeaseId := ⟨"lease-2", by decide⟩
  have hother : newLeaseId "2" = .ok other := Identifier.new_value other
  obtain ⟨s, root, child, hs⟩ :=
    Reference.exists_two_leases Reference.newLeaseId_eq hother (by decide)
  obtain ⟨t, root', child', ht⟩ :=
    Reference.exists_two_leases hother Reference.newLeaseId_eq (by decide)
  have hrenames : Renames (Equiv.swap Reference.leaseId other) s t := by
    constructor
    · exact fun a _ b _ heq => (Equiv.swap Reference.leaseId other).injective heq
    · intro id entry hentry
      rw [hs.lookup] at hentry
      split at hentry
      · rename_i hid
        cases hentry
        refine ⟨child', ?_, ?_, ht.child_expires.trans hs.child_expires.symm, ?_⟩
        · rw [hid, Equiv.swap_apply_right, ht.lookup, if_pos rfl]
        · rw [ht.child_parent, hs.child_parent, Option.map_some, Equiv.swap_apply_left]
        · rw [ht.child_record, hs.child_record, LeaseRecord.active, LeaseRecord.rename,
            LeaseRecord.active, Equiv.swap_apply_right]
          rfl
      · split at hentry
        · rename_i hid
          cases hentry
          refine ⟨root', ?_, ?_, ht.root_expires.trans hs.root_expires.symm, ?_⟩
          · rw [hid, Equiv.swap_apply_left, ht.lookup, if_neg ht.ne.symm, if_pos rfl]
          · rw [ht.root_parent, hs.root_parent]
            rfl
          · rw [ht.root_record, hs.root_record, LeaseRecord.active, LeaseRecord.rename,
              LeaseRecord.active, Equiv.swap_apply_left]
            rfl
        · cases hentry
    · intro id' hid'
      rw [← AList.lookup_isSome, ht.lookup] at hid'
      split at hid'
      · rename_i heq
        refine ⟨other, ?_, by rw [Equiv.swap_apply_right, heq]⟩
        rw [← AList.lookup_isSome, hs.lookup, if_pos rfl]
        rfl
      · split at hid'
        · rename_i heq
          refine ⟨Reference.leaseId, ?_, by rw [Equiv.swap_apply_left, heq]⟩
          rw [← AList.lookup_isSome, hs.lookup, if_neg hs.ne.symm, if_pos rfl]
          rfl
        · cases hid'
  obtain ⟨expired, s', expired', t', hrun, hrun', -, hlive, -⟩ :=
    expiry_follows_id_order hs.reachable ht.reachable hrenames
      (Reference.start + Duration.minutes 5)
  refine ⟨s, t, _, hrenames, ?_, expired, s', expired', t', hrun, hrun', hlive⟩
  intro heq
  have hswap := congrFun heq Reference.leaseId
  rw [Equiv.swap_apply_left] at hswap
  exact absurd hswap (by decide)

end

end GenesisRuntime
