/-
  GenesisRuntime.Kernel.Worklist

  The loop of `descendants_including`, as it is written: with a queue, a set of leases that
  were seen, and a map of children that is filled in the order in which the hash map of the
  leases happens to be iterated.  Nothing depends on that order, since the children are
  sorted before they are used; and the loop ends, whatever the parent links are, because
  no lease enters the queue twice.
-/

import GenesisRuntime.Kernel.Cascade
import GenesisRuntime.Lib.Levels
import GenesisRuntime.Lib.Loop
import GenesisRuntime.Reference

namespace GenesisRuntime

section
variable [Externals] {s : AuthorityState} {root : LeaseId}

-- ============================================================================
-- The map of children
-- ============================================================================

/-- An entry of the hash map of leases. -/
abbrev StoredLease := Sigma fun _ : LeaseId => LeaseEntry

/-- The body of the loop that fills `children_by_parent`. -/
def addChild (childrenByParent : AList fun _ : LeaseId => List LeaseId) (stored : StoredLease) :
    AList fun _ : LeaseId => List LeaseId :=
  match stored.2.certificate.parentLease with
  | some parent =>
      let children := (childrenByParent.lookup parent.leaseId).getD []
      childrenByParent.insert parent.leaseId (children ++ [stored.1])
  | none => childrenByParent

/-- `children_by_parent`, from the leases in some order of iteration. -/
def childrenByParent (order : List StoredLease) : AList fun _ : LeaseId => List LeaseId :=
  (order.foldl addChild ∅).mapValues (sortByKey id)

/-- The children that have been recorded for a lease. -/
def childrenAt (childrenByParent : AList fun _ : LeaseId => List LeaseId) (parent : LeaseId) :
    List LeaseId := (childrenByParent.lookup parent).getD []

/-- The leases under a parent, in the order of iteration. -/
def inOrder (order : List StoredLease) (parent : LeaseId) : List LeaseId :=
  (order.filter fun stored => stored.2.parentId = some parent).map fun stored => stored.1

/-- One entry is recorded under its parent, and nowhere else. -/
theorem childrenAt_addChild (map : AList fun _ : LeaseId => List LeaseId) (stored : StoredLease)
    (parent : LeaseId) :
    childrenAt (addChild map stored) parent = childrenAt map parent ++ inOrder [stored] parent := by
  cases hparent : stored.2.certificate.parentLease with
  | none => simp [addChild, inOrder, LeaseEntry.parentId, hparent]
  | some ref =>
      simp only [addChild, hparent, childrenAt, AList.lookup_insert_ite]
      by_cases heq : parent = ref.leaseId
      · subst heq
        simp [inOrder, LeaseEntry.parentId, hparent]
      · simp [inOrder, LeaseEntry.parentId, hparent, heq, Ne.symm heq]

theorem childrenAt_foldl_addChild (order : List StoredLease)
    (map : AList fun _ : LeaseId => List LeaseId) (parent : LeaseId) :
    childrenAt (order.foldl addChild map) parent
      = childrenAt map parent ++ inOrder order parent := by
  induction order generalizing map with
  | nil => simp [inOrder]
  | cons stored order ih =>
      have hcons : inOrder (stored :: order) parent
          = inOrder [stored] parent ++ inOrder order parent := by
        rw [inOrder, inOrder, inOrder, ← List.map_append, ← List.filter_append]
        rfl
      rw [List.foldl_cons, ih, childrenAt_addChild, List.append_assoc, hcons]

/-- In whatever order the leases are iterated, the children of a lease are looked up in
    ascending order. -/
theorem childrenAt_childrenByParent {order : List StoredLease}
    (horder : order.Perm s.leases.entries)
    (parent : LeaseId) : childrenAt (childrenByParent order) parent = childrenOf s parent := by
  have hsorted : childrenAt (childrenByParent order) parent
      = sortByKey id (childrenAt (order.foldl addChild ∅) parent) := by
    simp only [childrenAt, childrenByParent, AList.lookup_mapValues]
    cases (order.foldl addChild ∅).lookup parent with
    | none => exact (List.perm_nil.mp (sortByKey_perm id [])).symm
    | some children => rfl
  have hempty : childrenAt (∅ : AList fun _ : LeaseId => List LeaseId) parent = [] := rfl
  rw [hsorted, childrenAt_foldl_addChild, hempty, List.nil_append]
  exact sortByKey_eq_of_perm ((horder.filter _).map _) fun _ _ _ _ heq => heq

-- ============================================================================
-- The loop
-- ============================================================================

/-- The locals of the loop of `descendants_including`. -/
structure Worklist where
  result : List LeaseId
  pending : List LeaseId
  seen : List LeaseId

namespace Worklist

/-- The locals before the loop. -/
def start (root : LeaseId) : Worklist := ⟨[], [root], [root]⟩

/-- The body of the loop over the children: `seen.insert`, and `push_back` of a new one. -/
def push (work : Worklist) (child : LeaseId) : Worklist :=
  if child ∈ work.seen then work
  else { work with pending := work.pending ++ [child], seen := child :: work.seen }

/-- One turn of the loop. It is left when the queue is empty. -/
def turn (childrenByParent : AList fun _ : LeaseId => List LeaseId) (work : Worklist) :
    Result (Worklist ⊕ List LeaseId) :=
  match work.pending with
  | [] => .ok (.inr work.result)
  | parent :: pending =>
      let work := { work with result := work.result ++ [parent], pending := pending }
      match childrenByParent.lookup parent with
      | some children => .ok (.inl (children.foldl push work))
      | none => .ok (.inl work)

omit [Externals] in
/-- A lease that is not recorded has no children. -/
theorem turn_cons (childrenByParent : AList fun _ : LeaseId => List LeaseId)
    {work : Worklist} {parent : LeaseId} {pending : List LeaseId}
    (h : work.pending = parent :: pending) :
    turn childrenByParent work = .ok (.inl ((childrenAt childrenByParent parent).foldl push
      { work with result := work.result ++ [parent], pending := pending })) := by
  simp only [turn, childrenAt, h]
  cases childrenByParent.lookup parent <;> rfl

omit [Externals] in
/-- What the loop over the children adds. -/
theorem foldl_push (children : List LeaseId) (work : Worklist) :
    (children.foldl push work).result = work.result ∧
      (children.foldl push work).pending = work.pending ++ enqueue work.seen children ∧
      ∀ id, id ∈ (children.foldl push work).seen ↔
        id ∈ work.seen ∨ id ∈ enqueue work.seen children := by
  induction children generalizing work with
  | nil => simp [enqueue]
  | cons child children ih =>
      obtain ⟨hresult, hpending, hseen⟩ := ih (work.push child)
      rw [List.foldl_cons, hresult, hpending, enqueue]
      by_cases h : child ∈ work.seen
      · simp only [push, if_pos h] at hseen ⊢
        exact ⟨trivial, trivial, hseen⟩
      · simp only [push, if_neg h] at hseen ⊢
        refine ⟨trivial, by simp, fun id => ?_⟩
        rw [hseen, List.mem_cons, List.mem_cons, or_assoc, or_left_comm]

/-- A turn takes the lease at the front of the queue, and adds its children that are new. -/
theorem exists_next {order : List StoredLease} (horder : order.Perm s.leases.entries)
    {work : Worklist} {parent : LeaseId} {pending : List LeaseId}
    (hpending : work.pending = parent :: pending)
    (hseen : ∀ id, id ∈ work.seen ↔ id ∈ work.result ++ parent :: pending) :
    ∃ next, turn (childrenByParent order) work = .ok (.inl next) ∧
      next.result = work.result ++ [parent] ∧
      next.pending
        = pending ++ enqueue (work.result ++ parent :: pending) (childrenOf s parent) ∧
      ∀ id, id ∈ next.seen ↔ id ∈ next.result ++ next.pending := by
  obtain ⟨hresult, hqueue, hnext⟩ := foldl_push (childrenOf s parent)
    { work with result := work.result ++ [parent], pending := pending }
  have hturn := turn_cons (childrenByParent order) hpending
  rw [childrenAt_childrenByParent horder] at hturn
  simp only [enqueue_congr hseen] at hqueue hnext
  refine ⟨_, hturn, hresult, hqueue, fun id => ?_⟩
  rw [hnext, hresult, hqueue, hseen]
  simp [or_assoc]

end Worklist

/-- The loop knows what a traversal knows, and is on its way to the same list. -/
structure Worklist.OnTheWay (s : AuthorityState) (root : LeaseId) (work : Worklist) : Prop where
  inv : BfsInv (childrenOf s) s.leases.keys work.result work.pending
  seen : ∀ id, id ∈ work.seen ↔ id ∈ work.result ++ work.pending
  result : work.result ++ bfs (childrenOf s) (s.leases.keys.length - work.result.length)
    work.pending (work.result ++ work.pending) = descendants s root

theorem Worklist.onTheWay_start (h : root ∈ s.leases) : (start root).OnTheWay s root where
  inv := .init _ h
  seen _ := Iff.rfl
  result := rfl

/-- One turn: to the end of the list, or by one lease further. -/
theorem Worklist.turn_turnsTo {order : List StoredLease} (horder : order.Perm s.leases.entries)
    (work : Worklist) (hwork : work.OnTheWay s root) :
    Loop.TurnsTo (turn (childrenByParent order)) (OnTheWay s root)
      (fun work => s.leases.keys.length - work.result.length) (· = .ok (descendants s root))
      work := by
  obtain ⟨hinv, hseen, hresult⟩ := hwork
  cases hpending : work.pending with
  | nil =>
      refine .returns work.result ?_ ?_
      · simp only [turn, hpending]
      · rw [← hresult, hpending, bfs_nil, List.append_nil]
  | cons parent pending =>
      rw [hpending] at hinv hseen hresult
      obtain ⟨next, hturn, hnextResult, hnextPending, hnextSeen⟩ :=
        exists_next horder hpending hseen
      have hlength := hinv.length_le
      rw [List.length_append, List.length_cons] at hlength
      have hcount : next.result.length = work.result.length + 1 := by
        rw [hnextResult, List.length_append, List.length_singleton]
      obtain ⟨fuel, hfuel⟩ : ∃ fuel, s.leases.keys.length - work.result.length = fuel + 1 :=
        ⟨s.leases.keys.length - work.result.length - 1, by omega⟩
      have hrest : s.leases.keys.length - next.result.length = fuel := by omega
      refine .goesOn next hturn ⟨?_, hnextSeen, ?_⟩ (by omega)
      · rw [hnextResult, hnextPending]
        exact hinv.step (childrenOf_subset s)
      · rw [hfuel, bfs] at hresult
        rw [hrest, hnextResult, hnextPending, ← hresult]
        simp

/-- The loop ends, after one turn for each lease and one more at most, with the list of the
    traversal. -/
theorem run_worklist {order : List StoredLease} (horder : order.Perm s.leases.entries)
    (h : root ∈ s.leases) :
    Loop.run (Worklist.turn (childrenByParent order)) (s.leases.keys.length + 1) (.start root)
      = some (.ok (descendants s root)) := by
  obtain ⟨outcome, hrun, rfl⟩ := Loop.exists_run_of_invariant
    (Worklist.turn_turnsTo horder) (Worklist.onTheWay_start h)
  exact hrun

-- ============================================================================
-- Breadth first
-- ============================================================================

/-- A stored lease names the other one as its parent. -/
def ChildOf (s : AuthorityState) (parent child : LeaseId) : Prop :=
  ∃ entry, s.leases.lookup child = some entry ∧ entry.parentId = some parent

/-- How many parent links there are from a lease up to another, at least. -/
noncomputable def leaseDistance (s : AuthorityState) (root id : LeaseId) : Nat :=
  distance (ChildOf s) root id

/-- The list has the stored leases that can be reached from the root down the parent links,
    each of them once, the root first and then level by level; and the children of one lease,
    other than the root itself, are in ascending order. -/
structure BreadthFirst (s : AuthorityState) (root : LeaseId) (ids : List LeaseId) : Prop where
  head : ids.head? = some root
  nodup : ids.Nodup
  mem_iff : ∀ id, id ∈ ids ↔ id ∈ s.leases ∧ Relation.ReflTransGen (ChildOf s) root id
  levels : ids.Pairwise fun a b => leaseDistance s root a ≤ leaseDistance s root b
  siblings : ids.Pairwise fun a b => a ≠ root → b ≠ root →
    ∀ parent, ChildOf s parent a → ChildOf s parent b → a < b

theorem childOf_eq : ChildOf s = fun parent child => child ∈ childrenOf s parent := by
  funext parent child
  exact propext mem_childrenOf.symm

/-- A lease has one parent at most. -/
theorem childrenOf_unique {parent parent' child : LeaseId} (h : child ∈ childrenOf s parent)
    (h' : child ∈ childrenOf s parent') : parent = parent' := by
  obtain ⟨entry, hlookup, hparent⟩ := mem_childrenOf.mp h
  obtain ⟨entry', hlookup', hparent'⟩ := mem_childrenOf.mp h'
  rw [hlookup] at hlookup'
  cases hlookup'
  rw [hparent] at hparent'
  exact Option.some.inj hparent'

theorem childrenOf_pairwise_lt (parent : LeaseId) :
    (childrenOf s parent).Pairwise (· < ·) := by
  have hnodup : (childrenOf s parent).Nodup := by
    refine (sortByKey_perm id _).nodup_iff.mpr ?_
    exact List.Nodup.sublist (List.filter_sublist.map _) s.leases.nodupKeys
  have hle : (childrenOf s parent).Pairwise (· ≤ ·) := sortByKey_pairwise id _
  exact hle.imp₂ (fun _ _ hle hne => lt_of_le_of_ne hle hne) hnodup

theorem breadthFirst_descendants (h : root ∈ s.leases) :
    BreadthFirst s root (descendants s root) where
  head := by
    rw [descendants_eq_cons h]
    rfl
  nodup := nodup_descendants h
  mem_iff id := by
    constructor
    · exact fun hid => ⟨mem_leases_of_mem_descendants h hid, below_of_mem_descendants hid⟩
    · rintro ⟨-, hbelow⟩
      induction hbelow with
      | refl => exact root_mem_descendants h
      | tail _ hchild ih => exact children_mem_descendants h ih (mem_childrenOf.mpr hchild)
  levels := by
    unfold leaseDistance
    rw [childOf_eq]
    exact bfs_sorted (childrenOf_subset s) h le_rfl
  siblings := by
    rw [childOf_eq]
    exact bfs_siblingsAscend (childrenOf_subset s) h le_rfl (fun _ _ _ => childrenOf_unique)
      childrenOf_pairwise_lt

end

namespace Reference

local instance worklistExternals : Externals := externals

def selfParentId : LeaseId := ⟨"lease-2", childId.valid⟩

def leaseUnder (leaseId parent : LeaseId) : LeaseEntry where
  certificate :=
    { leaseId := leaseId
      missionId := missionId
      agentId := agentId
      parentAgentId := none
      agentIdentityDigest := [0]
      issuerIdentityDigest := [0]
      issuerKeyId := keyId
      parentLease := some ⟨parent, [0]⟩
      renewedFrom := none
      organizationVersion := 1
      policyEpoch := 1
      grantedAuthority := authority
      delegableAuthority := authority
      capabilityManifestDigest := [0]
      semanticContextDigest := [0]
      issuedAt := start
      expiresAt := start + Duration.minutes 5
      signature := ⟨[]⟩ }
  record := .active leaseId
  manifest := manifest

/-- Two leases under the second one of them. -/
def loopedState : AuthorityState where
  mission := mission
  rootLeaseId := selfParentId
  identities := ∅
  custodians := ∅
  leases := (AList.singleton leaseId (leaseUnder leaseId selfParentId)).insert selfParentId
    (leaseUnder selfParentId selfParentId)
  events := []

theorem lookup_loopedState (id : LeaseId) : loopedState.leases.lookup id
    = if id = selfParentId then some (leaseUnder selfParentId selfParentId)
      else if id = leaseId then some (leaseUnder leaseId selfParentId) else none := by
  rw [loopedState, AList.lookup_insert_ite, AList.lookup_singleton_ite]

theorem selfParent_mem : selfParentId ∈ loopedState.leases :=
  AList.mem_of_lookup (lookup_loopedState selfParentId)

theorem childOf_selfParent : ChildOf loopedState selfParentId selfParentId ∧
    ChildOf loopedState selfParentId leaseId :=
  ⟨⟨_, lookup_loopedState selfParentId, rfl⟩, ⟨_, lookup_loopedState leaseId, rfl⟩⟩

end Reference

section
variable [Externals] {s : AuthorityState} {root : LeaseId}

/-- Whatever the parent links are, the leases below a stored one are listed breadth first; and
    the loop that lists them ends, with the same list for every order in which the map of the
    leases is iterated. -/
theorem descendants_including_is_breadth_first (h : root ∈ s.leases) :
    ∃ ids, descendantsIncluding s root = .ok ids ∧ BreadthFirst s root ids ∧
      ∀ order : List StoredLease, order.Perm s.leases.entries →
        Loop.run (Worklist.turn (childrenByParent order)) (s.leases.keys.length + 1) (.start root)
          = some (.ok ids) :=
  ⟨descendants s root, descendantsIncluding_eq h, breadthFirst_descendants h,
    fun _ horder => run_worklist horder h⟩

end

/-- The loop over two leases, one of them its own parent, iterated in the opposite order. -/
theorem descendants_including_is_breadth_first_reference : letI := Reference.externals
    ∃ ids, descendantsIncluding Reference.loopedState Reference.selfParentId = .ok ids ∧
      BreadthFirst Reference.loopedState Reference.selfParentId ids ∧
      Loop.run (Worklist.turn (childrenByParent Reference.loopedState.leases.entries.reverse)) 3
        (.start Reference.selfParentId) = some (.ok ids) := by
  let := Reference.externals
  obtain ⟨ids, hids, hbreadth, hrun⟩ :=
    descendants_including_is_breadth_first Reference.selfParent_mem
  exact ⟨ids, hids, hbreadth, hrun _ (List.reverse_perm _)⟩

/-- A lease that is its own parent comes before a child with a smaller identifier. -/
theorem root_before_smaller_sibling : letI := Reference.externals
    ∃ (s : AuthorityState) (root : LeaseId), root ∈ s.leases ∧
      ∀ ids, descendantsIncluding s root = .ok ids →
        ids.head? = some root ∧
        ¬ ids.Pairwise fun a b => ∀ parent, ChildOf s parent a → ChildOf s parent b → a < b := by
  let := Reference.externals
  refine ⟨Reference.loopedState, Reference.selfParentId, Reference.selfParent_mem, ?_⟩
  intro ids hids
  rw [descendantsIncluding_eq Reference.selfParent_mem] at hids
  cases hids
  obtain ⟨hself, hchild⟩ := Reference.childOf_selfParent
  have hmem : Reference.leaseId ∈ descendants Reference.loopedState Reference.selfParentId :=
    children_mem_descendants Reference.selfParent_mem
      (root_mem_descendants Reference.selfParent_mem) (mem_childrenOf.mpr hchild)
  have hcons := descendants_eq_cons Reference.selfParent_mem
  refine ⟨by rw [hcons]; rfl, fun hascend => ?_⟩
  rw [hcons] at hmem hascend
  have hrest := (List.mem_cons.mp hmem).resolve_left (by decide)
  have hlt := (List.pairwise_cons.mp hascend).1 _ hrest Reference.selfParentId hself hchild
  exact absurd hlt (by decide)

end GenesisRuntime
