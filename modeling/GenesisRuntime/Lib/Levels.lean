/-
  GenesisRuntime.Lib.Levels

  The order of a breadth-first traversal.  The nodes seen so far are sorted by their
  distance from the root and closed downwards: with a node they contain every node that is
  nearer.  The nodes in the queue are no more than one level apart, and what a turn adds is
  one level further than the node it takes.

  Where a node has one parent at most and the children of a node are sorted, siblings stay
  sorted too, all but the root, which comes first whoever its parent is.
-/

import GenesisRuntime.Lib.Forest
import Mathlib.Order.Lattice.Nat

-- ============================================================================
-- Distances
-- ============================================================================

section
variable {κ : Type} {R : κ → κ → Prop} {root x y : κ} {n : Nat}

/-- So many steps lead from one node to another. -/
inductive StepsTo (R : κ → κ → Prop) (root : κ) : Nat → κ → Prop where
  | refl : StepsTo R root 0 root
  | tail {n : Nat} {x y : κ} (h : StepsTo R root n x) (hxy : R x y) : StepsTo R root (n + 1) y

/-- The number of steps on a shortest way. -/
noncomputable def distance (R : κ → κ → Prop) (root x : κ) : Nat := sInf {n | StepsTo R root n x}

theorem exists_stepsTo (h : Relation.ReflTransGen R root x) : ∃ n, StepsTo R root n x := by
  induction h with
  | refl => exact ⟨0, .refl⟩
  | tail _ hxy ih =>
      obtain ⟨n, hn⟩ := ih
      exact ⟨n + 1, hn.tail hxy⟩

theorem StepsTo.reflTransGen (h : StepsTo R root n x) : Relation.ReflTransGen R root x := by
  induction h with
  | refl => exact .refl
  | tail _ hxy ih => exact ih.tail hxy

theorem distance_le (h : StepsTo R root n x) : distance R root x ≤ n := Nat.sInf_le h

theorem stepsTo_distance (h : Relation.ReflTransGen R root x) :
    StepsTo R root (distance R root x) x := Nat.sInf_mem (exists_stepsTo h)

/-- A step leads no further than one level down. -/
theorem distance_step_le (h : Relation.ReflTransGen R root x) (hxy : R x y) :
    distance R root y ≤ distance R root x + 1 :=
  distance_le ((stepsTo_distance h).tail hxy)

/-- Behind every node but the root there is one on the level above. -/
theorem exists_nearer (h : Relation.ReflTransGen R root x) (hne : x ≠ root) :
    ∃ p, Relation.ReflTransGen R root p ∧ R p x ∧ distance R root p < distance R root x := by
  have hsteps := stepsTo_distance h
  generalize hn : distance R root x = n at hsteps
  cases hsteps with
  | refl => exact absurd rfl hne
  | tail hp hpx => exact ⟨_, hp.reflTransGen, hpx, Nat.lt_succ_of_le (distance_le hp)⟩

end

section
variable {κ : Type} [DecidableEq κ] {children : κ → List κ} {nodes done pending : List κ}
  {root node : κ}

-- ============================================================================
-- Levels
-- ============================================================================

/-- The distance of a node from the root of a traversal. -/
noncomputable abbrev level (children : κ → List κ) (root x : κ) : Nat :=
  distance (fun a b => b ∈ children a) root x

/-- The node can be reached from the root of a traversal. -/
abbrev Reached (children : κ → List κ) (root x : κ) : Prop :=
  Relation.ReflTransGen (fun a b => b ∈ children a) root x

/-- What a traversal keeps to, halfway. -/
structure Levels (children : κ → List κ) (root : κ) (done pending : List κ) : Prop where
  root_mem : root ∈ done ++ pending
  reached : ∀ x ∈ done ++ pending, Reached children root x
  sorted : (done ++ pending).Pairwise fun x y => level children root x ≤ level children root y
  /-- The queue holds the last level, and some of the one before. -/
  window : ∀ x ∈ pending, ∀ y ∈ done ++ pending, level children root y ≤ level children root x + 1
  /-- Nothing nearer has been left out. -/
  nearer : ∀ x ∈ done ++ pending, ∀ z, Reached children root z →
    level children root z < level children root x → z ∈ done ++ pending

namespace Levels

omit [DecidableEq κ] in
theorem init (children : κ → List κ) (root : κ) : Levels children root [] [root] where
  root_mem := by simp
  reached := by simp [Reached, Relation.ReflTransGen.refl]
  sorted := by simp
  window := by simp
  nearer := by
    intro x hx z _ hlt
    obtain rfl := List.mem_singleton.mp hx
    have hzero : level children x x ≤ 0 := distance_le .refl
    omega

omit [DecidableEq κ] in
/-- Before the node at the front is taken, its whole level has been seen. -/
theorem mem_of_level_le (h : Levels children root done (node :: pending))
    (hexpanded : ∀ x ∈ done, children x ⊆ done ++ node :: pending) {z : κ}
    (hz : Reached children root z) (hle : level children root z ≤ level children root node) :
    z ∈ done ++ node :: pending := by
  by_cases hroot : z = root
  · rw [hroot]
    exact h.root_mem
  · obtain ⟨p, hp, hpz, hlt⟩ : ∃ p, Reached children root p ∧ z ∈ children p ∧
        level children root p < level children root z := exists_nearer hz hroot
    have hseen : p ∈ done ++ node :: pending :=
      h.nearer node (by simp) p hp (Nat.lt_of_lt_of_le hlt hle)
    -- nothing in the queue is nearer than its front
    have hdone : p ∈ done := by
      rcases List.mem_append.mp hseen with hdone | hqueue
      · exact hdone
      · have hfront : level children root node ≤ level children root p := by
          rcases List.mem_cons.mp hqueue with rfl | hqueue
          · exact le_rfl
          · exact (List.pairwise_cons.mp (List.pairwise_append.mp h.sorted).2.1).1 p hqueue
        omega
    exact hexpanded p hdone hpz

/-- What a turn adds is on the next level. -/
theorem level_of_fresh (h : Levels children root done (node :: pending))
    (hexpanded : ∀ x ∈ done, children x ⊆ done ++ node :: pending) {c : κ}
    (hc : c ∈ enqueue (done ++ node :: pending) (children node)) :
    Reached children root c ∧ level children root c = level children root node + 1 := by
  obtain ⟨hchild, hfresh⟩ := mem_enqueue.mp hc
  have hnode : Reached children root node := h.reached node (by simp)
  have hreached : Reached children root c := hnode.tail hchild
  refine ⟨hreached, Nat.le_antisymm (distance_step_le hnode hchild) ?_⟩
  by_contra hlt
  exact hfresh (h.mem_of_level_le hexpanded hreached (by omega))

/-- One turn of the loop. -/
theorem step (inv : BfsInv children nodes done (node :: pending))
    (h : Levels children root done (node :: pending)) :
    Levels children root (done ++ [node])
      (pending ++ enqueue (done ++ node :: pending) (children node)) := by
  have hfresh (c : κ) (hc : c ∈ enqueue (done ++ node :: pending) (children node)) :
      level children root c = level children root node + 1 :=
    (h.level_of_fresh inv.expanded hc).2
  have hfront (x : κ) (hx : x ∈ pending) : level children root node ≤ level children root x :=
    (List.pairwise_cons.mp (List.pairwise_append.mp h.sorted).2.1).1 x hx
  have hwindow (x : κ) (hx : x ∈ done ++ node :: pending) :
      level children root x ≤ level children root node + 1 := h.window node (by simp) x hx
  constructor
  · rw [seen_turn]
    exact List.mem_append_left _ h.root_mem
  · rw [seen_turn]
    intro x hx
    rcases List.mem_append.mp hx with hx | hx
    · exact h.reached x hx
    · exact (h.level_of_fresh inv.expanded hx).1
  · rw [seen_turn, List.pairwise_append]
    refine ⟨h.sorted, List.pairwise_of_forall_mem_list ?_, ?_⟩
    · intro x hx y hy
      rw [hfresh x hx, hfresh y hy]
    · intro x hx y hy
      rw [hfresh y hy]
      exact hwindow x hx
  · rw [seen_turn]
    intro x hx y hy
    rcases List.mem_append.mp hx with hx | hx <;> rcases List.mem_append.mp hy with hy | hy
    · exact h.window x (List.mem_cons_of_mem node hx) y hy
    · have := hfront x hx
      rw [hfresh y hy]
      omega
    · have := hwindow y hy
      rw [hfresh x hx]
      omega
    · rw [hfresh x hx, hfresh y hy]
      omega
  · rw [seen_turn]
    intro x hx z hz hlt
    apply List.mem_append_left
    rcases List.mem_append.mp hx with hx | hx
    · exact h.nearer x hx z hz hlt
    · rw [hfresh x hx] at hlt
      exact h.mem_of_level_le inv.expanded hz (by omega)

end Levels

-- ============================================================================
-- Siblings
-- ============================================================================

/-- Children of one node are in ascending order, but for the root. -/
def SiblingsAscend [LT κ] (children : κ → List κ) (root : κ) (nodes : List κ) : Prop :=
  nodes.Pairwise fun x y => x ≠ root → y ≠ root → ∀ p, x ∈ children p → y ∈ children p → x < y

/-- Where every node has one parent at most, and its children are sorted: a node that has been
    seen has been added for its parent, and after its elder siblings. -/
structure Siblings [LT κ] (children : κ → List κ) (root : κ) (done pending : List κ) : Prop where
  parent : ∀ x ∈ done ++ pending, x ≠ root → ∃ p ∈ done, x ∈ children p
  ascend : SiblingsAscend children root (done ++ pending)

namespace Siblings

variable [LT κ]

omit [DecidableEq κ] in
theorem init (children : κ → List κ) (root : κ) : Siblings children root [] [root] where
  parent := by
    intro x hx hne
    exact absurd (List.mem_singleton.mp hx) hne
  ascend := List.pairwise_singleton _ _

/-- One turn of the loop. -/
theorem step (hunique : ∀ x p q, x ∈ children p → x ∈ children q → p = q)
    (hsorted : ∀ p, (children p).Pairwise (· < ·))
    (inv : BfsInv children nodes done (node :: pending))
    (h : Siblings children root done (node :: pending)) :
    Siblings children root (done ++ [node])
      (pending ++ enqueue (done ++ node :: pending) (children node)) := by
  constructor
  · rw [seen_turn]
    intro x hx hne
    rcases List.mem_append.mp hx with hx | hx
    · obtain ⟨p, hp, hxp⟩ := h.parent x hx hne
      exact ⟨p, List.mem_append_left _ hp, hxp⟩
    · exact ⟨node, by simp, (mem_enqueue.mp hx).1⟩
  · rw [seen_turn]
    refine List.pairwise_append.mpr ⟨h.ascend, ?_, ?_⟩
    · have hlt := (hsorted node).sublist (enqueue_sublist (done ++ node :: pending) (children node))
      exact hlt.imp fun hxy _ _ _ _ _ => hxy
    · -- the parent of the one is done with, so the other would have been seen
      intro x hx y hy hne _ p hxp hyp
      obtain ⟨q, hq, hxq⟩ := h.parent x hx hne
      obtain rfl := hunique x p q hxp hxq
      exact absurd (inv.expanded p hq hyp) (mem_enqueue.mp hy).2

end Siblings

-- ============================================================================
-- The whole traversal
-- ============================================================================

section
variable {fuel : Nat} (hclosed : ∀ x ∈ nodes, children x ⊆ nodes) (hroot : root ∈ nodes)
  (hfuel : nodes.length ≤ fuel)

include hclosed hroot hfuel

/-- A traversal goes level by level. -/
theorem bfs_sorted : (bfs children fuel [root] [root]).Pairwise fun x y =>
    level children root x ≤ level children root y := by
  have h := bfs_of_turn hclosed (fun _ _ _ => Levels.step) hroot hfuel (Levels.init children root)
  simpa using h.sorted

/-- And from the first sibling to the last. -/
theorem bfs_siblingsAscend [LT κ] (hunique : ∀ x p q, x ∈ children p → x ∈ children q → p = q)
    (hsorted : ∀ p, (children p).Pairwise (· < ·)) :
    SiblingsAscend children root (bfs children fuel [root] [root]) := by
  have h := bfs_of_turn hclosed (fun _ _ _ => Siblings.step hunique hsorted) hroot hfuel
    (Siblings.init children root)
  simpa using h.ascend

end

end
