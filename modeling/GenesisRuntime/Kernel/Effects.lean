/-
  GenesisRuntime.Kernel.Effects

  The exact effect of a cascade: which records it changes and how, and the events
  it appends, one for each record it has changed and in the order of the traversal.
-/

import GenesisRuntime.Reference

namespace GenesisRuntime

-- ============================================================================
-- Appended events
-- ============================================================================

/-- An event as `push_event` is given it. -/
structure Note where
  leaseId : LeaseId
  relatedLeaseId : Option LeaseId
  kind : AuthorityEventKind
deriving DecidableEq

def Note.event (now : DateTime) (sequence : Nat) (note : Note) : AuthorityEvent :=
  ⟨sequence, note.leaseId, note.relatedLeaseId, note.kind, now⟩

/-- The events of these notes, numbered from `start` on. -/
def numberedEvents (start : Nat) (now : DateTime) (notes : List Note) : List AuthorityEvent :=
  notes.mapIdx fun i note => note.event now (start + i)

theorem numberedEvents_append (start : Nat) (now : DateTime) (notes notes' : List Note) :
    numberedEvents start now (notes ++ notes')
      = numberedEvents start now notes ++ numberedEvents (start + notes.length) now notes' := by
  rw [numberedEvents, List.mapIdx_append]
  congr 1
  refine congrArg (List.mapIdx · notes') ?_
  funext i note
  rw [Nat.add_assoc, Nat.add_comm notes.length]

theorem numberedEvents_map {α : Type} (start : Nat) (now : DateTime) (f : α → Note)
    (xs : List α) :
    numberedEvents start now (xs.map f) = xs.mapIdx fun i x => (f x).event now (start + i) := by
  rw [numberedEvents, List.mapIdx_eq_iff]
  intro i
  simp [Function.comp_def]

section
variable [Externals]

/-- The log has grown by the events of these notes. -/
def Appends (s s' : AuthorityState) (now : DateTime) (notes : List Note) : Prop :=
  s'.events = s.events ++ numberedEvents (s.events.length + 1) now notes

variable {s s' s'' : AuthorityState} {now : DateTime} {notes notes' : List Note}

namespace Appends

theorem refl (s : AuthorityState) (now : DateTime) : Appends s s now [] :=
  (List.append_nil _).symm

theorem trans (h : Appends s s' now notes) (h' : Appends s' s'' now notes') :
    Appends s s'' now (notes ++ notes') := by
  have hlength : s'.events.length + 1 = s.events.length + 1 + notes.length := by
    rw [h, List.length_append, numberedEvents, List.length_mapIdx]
    omega
  rw [Appends, h', hlength, h, List.append_assoc, numberedEvents_append]

theorem pushEvent {t : AuthorityState} (id : LeaseId) (related : Option LeaseId)
    (kind : AuthorityEventKind) (h : t.events = s.events) :
    Appends s (t.pushEvent id related kind now) now [⟨id, related, kind⟩] := by
  rw [Appends, AuthorityState.pushEvent, h]
  rfl

end Appends

-- ============================================================================
-- What a cascade appends
-- ============================================================================

/-- Whether a live lease is stored under this id. -/
def AuthorityState.isLive (s : AuthorityState) (id : LeaseId) : Bool :=
  (s.leases.lookup id).any fun entry => entry.record.state.isLive

theorem isLive_of_lookup {id : LeaseId} {entry : LeaseEntry}
    (h : s.leases.lookup id = some entry) : s.isLive id = entry.record.state.isLive := by
  rw [AuthorityState.isLive, h]
  rfl

theorem isLive_eq_true {id : LeaseId} : s.isLive id = true ↔
    ∃ entry, s.leases.lookup id = some entry ∧ entry.record.state.isLive = true := by
  cases hid : s.leases.lookup id with
  | none => simp [AuthorityState.isLive, hid]
  | some entry => simp [AuthorityState.isLive, hid]

/-- The notes of a cascade over these leases. -/
def revocationNotes (s : AuthorityState) (related : LeaseId → Option LeaseId)
    (ids : List LeaseId) : List Note :=
  (ids.filter s.isLive).map fun id => ⟨id, related id, .leaseRevoked⟩

theorem revokeIfLive_appends {reason : String} {related : LeaseId → Option LeaseId} {id : LeaseId}
    (h : revokeIfLive reason now (related id) id s = .ok () s') :
    Appends s s' now (revocationNotes s related [id]) := by
  simp only [revokeIfLive, EStateM.get_bind_eq_ok, orReject_eq_ofResult, ofResult_bind_eq_ok,
    orReject_eq_ok] at h
  obtain ⟨entry, hentry, h⟩ := h
  have hstored := isLive_of_lookup hentry
  split at h
  · rename_i hlive
    simp only [EStateM.modify_bind_eq_ok, EStateM.modify_eq_ok] at h
    subst h
    rw [revocationNotes, List.filter_cons_of_pos (hstored.trans hlive)]
    exact .pushEvent id (related id) .leaseRevoked rfl
  · rename_i hdead
    obtain ⟨-, rfl⟩ := EStateM.pure_eq_ok.mp h
    rw [revocationNotes, List.filter_cons_of_neg (by rw [hstored]; exact hdead)]
    exact .refl s now

/-- Each lease is met once, so what the turns before have changed plays no part in whether
    it is live at its own turn. -/
theorem forM_revokeIfLive_appends {reason : String} (related : LeaseId → Option LeaseId)
    {ids : List LeaseId} (hstored : ∀ id ∈ ids, id ∈ s.leases) (hnodup : ids.Nodup)
    (h : (forM ids fun id => revokeIfLive reason now (related id) id) s = .ok () s') :
    Appends s s' now (revocationNotes s related ids) := by
  induction ids generalizing s with
  | nil =>
      obtain ⟨-, rfl⟩ := EStateM.pure_eq_ok.mp h
      exact .refl s now
  | cons id ids ih =>
      obtain ⟨hid, hnodup⟩ := List.nodup_cons.mp hnodup
      rw [List.forM_cons] at h
      obtain ⟨_, t, hhead, htail⟩ := EStateM.bind_eq_ok.mp h
      obtain ⟨t', hhead', hcascade, hlookup⟩ :=
        revokeIfLive_spec reason now (related id) (hstored id List.mem_cons_self)
      obtain rfl : t = t' := by
        rw [hhead] at hhead'
        cases hhead'
        rfl
      have hsame : ∀ id' ∈ ids, t.isLive id' = s.isLive id' := by
        intro id' hid'
        have hne : id' ∉ [id] := by
          rw [List.mem_singleton]
          rintro rfl
          exact hid hid'
        rw [AuthorityState.isLive, AuthorityState.isLive, hlookup]
        cases s.leases.lookup id' with
        | none => rfl
        | some entry => rw [Option.map_some, cascadeEntry, if_neg hne]
      have hrest := ih (fun id' hid' =>
        hcascade.mem_iff.mpr (hstored id' (List.mem_cons_of_mem id hid'))) hnodup htail
      have hnotes : revocationNotes s related (id :: ids)
          = revocationNotes s related [id] ++ revocationNotes t related ids := by
        rw [revocationNotes, revocationNotes, revocationNotes, ← List.singleton_append,
          List.filter_append, List.map_append, List.filter_congr hsame]
      rw [hnotes]
      exact (revokeIfLive_appends hhead).trans hrest

theorem revokeDescendants_appends {root : LeaseId} {reason : String} (hroot : root ∈ s.leases)
    (h : revokeDescendants root reason now s = .ok () s') :
    Appends s s' now
      (revocationNotes s (fun _ => some root) ((descendants s root).drop 1)) := by
  simp only [revokeDescendants, EStateM.get_bind_eq_ok, ofResult_bind_eq_ok,
    descendantsIncluding_eq hroot, Except.ok.injEq] at h
  obtain ⟨_, rfl, h⟩ := h
  refine forM_revokeIfLive_appends (fun _ => some root) ?_ (nodup_descendants hroot).drop h
  exact fun id hid => mem_leases_of_mem_descendants hroot (List.mem_of_mem_drop hid)

/-- The traversal returns the stored leases below the root, and no others. -/
theorem mem_descendants {root id : LeaseId} (h : root ∈ s.leases) :
    id ∈ descendants s root ↔ LeaseBelow s root id := by
  refine ⟨below_of_mem_descendants, fun hbelow => ?_⟩
  induction hbelow with
  | refl => exact root_mem_descendants h
  | tail _ hlink ih => exact children_mem_descendants h ih (mem_childrenOf.mpr hlink)

-- ============================================================================
-- Revocation
-- ============================================================================

/-- The note of a lease revoked along with `root`. -/
def revocationNote (root id : LeaseId) : Note where
  leaseId := id
  relatedLeaseId := if id = root then none else some root
  kind := .leaseRevoked

theorem revoke_appends {id : LeaseId} {generation : Nat} {reason : String}
    {affected : List LeaseId} (h : revoke id generation reason now s = .ok affected s') :
    Appends s s' now ((affected.filter s.isLive).map (revocationNote id)) := by
  obtain ⟨entry, hentry, -, -, rfl, -, -⟩ := revoke_eq_ok h
  have hmem : id ∈ s.leases := AList.mem_of_lookup hentry
  simp only [revoke, EStateM.get_bind_eq_ok, orReject_eq_ofResult, rejectIf_eq_ofResult,
    ofResult_bind_eq_ok, descendantsIncluding_eq hmem, Except.ok.injEq] at h
  obtain ⟨_, -, _, -, _, -, _, rfl, h⟩ := h
  obtain ⟨_, t, hrun, hret⟩ := EStateM.bind_eq_ok.mp h
  obtain ⟨-, rfl⟩ := EStateM.pure_eq_ok.mp hret
  have hnotes : (fun affectedId : LeaseId =>
      (⟨affectedId, if affectedId ≠ id then some id else none, .leaseRevoked⟩ : Note))
        = revocationNote id := by
    funext affectedId
    simp only [revocationNote, ne_eq, ite_not]
  rw [← hnotes]
  exact forM_revokeIfLive_appends
    (fun affectedId => if affectedId ≠ id then some id else none)
    (fun affectedId haffected => mem_leases_of_mem_descendants hmem haffected)
    (nodup_descendants hmem) hrun

/-- What a cascade changes at all. -/
theorem cascadeEntry_ne_iff (reason : String) (now : DateTime) {ids : List LeaseId} {id : LeaseId}
    {entry : LeaseEntry} :
    cascadeEntry reason now ids id entry ≠ entry ↔
      id ∈ ids ∧ entry.record.state.isLive = true := by
  rw [cascadeEntry]
  split
  · rename_i hid
    rw [LeaseRecord.cascade]
    split
    · rename_i hlive
      refine iff_of_true (fun heq => ?_) ⟨hid, hlive⟩
      have hgeneration := congrArg (fun entry => entry.record.generation) heq
      simp [LeaseRecord.revoke, LeaseRecord.advance] at hgeneration
    · rename_i hdead
      exact iff_of_false (fun hne => hne rfl) (fun h => hdead h.2)
  · rename_i hid
    exact iff_of_false (fun hne => hne rfl) (fun h => hid h.1)

/-- A successful revocation returns the subtree of the lease, each lease of it once and the
    lease itself first. It changes the live leases of the subtree and no others, each in its
    record only, and appends one event for each of them in the order of the returned list. -/
theorem revoke_changes_exactly_live_subtree {leaseId : LeaseId} {generation : Nat}
    {reason : String} {affected : List LeaseId}
    (h : revoke leaseId generation reason now s = .ok affected s') :
    (affected.Nodup ∧ affected.head? = some leaseId ∧
      ∀ id, id ∈ affected ↔ LeaseBelow s leaseId id) ∧
    (∀ id, s'.leases.lookup id ≠ s.leases.lookup id ↔
      ∃ entry, s.leases.lookup id = some entry ∧ entry.record.state.isLive = true ∧
        LeaseBelow s leaseId id) ∧
    (∀ id entry, s.leases.lookup id = some entry → entry.record.state.isLive = true →
      LeaseBelow s leaseId id →
      s'.leases.lookup id = some { entry with
        record := { entry.record with
          state := .revoked
          generation := entry.record.generation + 1
          revokedAt := some now
          revocationReason := some reason } }) ∧
    (s'.mission = s.mission ∧ s'.rootLeaseId = s.rootLeaseId ∧
      s'.identities = s.identities ∧ s'.custodians = s.custodians) ∧
    s'.events = s.events ++ (affected.filter s.isLive).mapIdx fun i id =>
      { sequence := s.events.length + 1 + i
        leaseId := id
        relatedLeaseId := if id = leaseId then none else some leaseId
        kind := .leaseRevoked
        occurredAt := now } := by
  have happends := revoke_appends h
  obtain ⟨leaf, hleaf, -, -, rfl, hcascade, hlookup⟩ := revoke_eq_ok h
  have hmem : leaseId ∈ s.leases := AList.mem_of_lookup hleaf
  refine ⟨⟨nodup_descendants hmem, ?_, fun id => mem_descendants hmem⟩, ?_, ?_,
    ⟨hcascade.mission, hcascade.rootLeaseId, hcascade.identities, hcascade.custodians⟩, ?_⟩
  · rw [descendants_eq_cons hmem]
    rfl
  · intro id
    rw [hlookup, ← mem_descendants hmem]
    cases s.leases.lookup id with
    | none => simp
    | some entry => simp [← cascadeEntry_ne_iff reason now, and_comm]
  · intro id entry hentry hlive hbelow
    rw [hlookup, hentry, Option.map_some, cascadeEntry, if_pos ((mem_descendants hmem).mpr hbelow),
      LeaseRecord.cascade, if_pos hlive]
    rfl
  · rw [happends, numberedEvents_map]
    rfl

omit [Externals] in
/-- Revoking the root lease of the reference kernel, after a delegation: both leases are
    revoked and listed from the top down, each with one event. -/
theorem revoke_changes_exactly_live_subtree_reference : letI := Reference.externals
    ∃ (s s' : AuthorityState) (root child : LeaseId) (rootEntry childEntry : LeaseEntry),
      Reachable s ∧ childEntry.parentId = some root ∧
      s.leases.lookup root = some rootEntry ∧ s.leases.lookup child = some childEntry ∧
      revoke root 0 "done" Reference.start s = .ok [root, child] s' ∧
      s'.leases.lookup root
        = some (rootEntry.withRecord (rootEntry.record.revoke "done" Reference.start)) ∧
      s'.leases.lookup child
        = some (childEntry.withRecord (childEntry.record.revoke "done" Reference.start)) ∧
      s'.identities = s.identities ∧ s'.rootLeaseId = root ∧
      s'.events = s.events ++
        [⟨s.events.length + 1, root, none, .leaseRevoked, Reference.start⟩,
         ⟨s.events.length + 1 + 1, child, some root, .leaseRevoked, Reference.start⟩] := by
  let := Reference.externals
  obtain ⟨s, rootEntry, childEntry, h⟩ := Reference.exists_delegated
  obtain ⟨affected, s', hrevoke⟩ := exists_revoke h.lookup_root h.root_live "done" Reference.start
  rw [h.root_generation] at hrevoke
  obtain ⟨⟨hnodup, hhead, hmem⟩, -, hrecords, ⟨-, hrootId, hidentities, -⟩, hevents⟩ :=
    revoke_changes_exactly_live_subtree hrevoke
  obtain ⟨rest, rfl⟩ := List.head?_eq_some_iff.mp hhead
  obtain ⟨hnotin, hrest⟩ := List.nodup_cons.mp hnodup
  -- below the root lease there is the other one, and nothing else
  obtain rfl : rest = [Reference.childId] := by
    refine List.perm_singleton.mp
      ((List.perm_ext_iff_of_nodup hrest (List.nodup_singleton _)).mpr fun id => ?_)
    have hid := (hmem id).trans h.below_root_iff
    rw [List.mem_cons] at hid
    rw [List.mem_singleton]
    constructor
    · intro hin
      exact (hid.mp (.inr hin)).resolve_left fun heq => hnotin (heq ▸ hin)
    · intro heq
      exact (hid.mpr (.inr heq)).resolve_left fun hroot => h.ne (heq.symm.trans hroot)
  refine ⟨s, s', _, _, rootEntry, childEntry, h.reachable, h.child_parent, h.lookup_root,
    h.lookup_child, hrevoke, hrecords _ _ h.lookup_root h.root_live .refl,
    hrecords _ _ h.lookup_child h.child_live h.below, hidentities, hrootId.trans h.rootId, ?_⟩
  rw [hevents]
  have hlive : [Reference.leaseId, Reference.childId].filter s.isLive
      = [Reference.leaseId, Reference.childId] := by
    simp [isLive_eq_true.mpr ⟨_, h.lookup_root, h.root_live⟩,
      isLive_eq_true.mpr ⟨_, h.lookup_child, h.child_live⟩]
  rw [hlive]
  simp [h.ne]

end

end GenesisRuntime
