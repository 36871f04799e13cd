/-
  GenesisRuntime.Lib.Forest

  Breadth-first traversal of a finite graph given by its lists of children.  The
  queue only ever receives nodes that were not seen before, in the order in which
  they are found, so the nodes seen are at any time the nodes already returned
  followed by the queue.
-/

import Mathlib.Data.List.Chain
import Mathlib.Data.List.Nodup
import Mathlib.Data.List.Perm.Subperm
import Mathlib.Logic.Relation

section
variable {κ : Type} [DecidableEq κ]

/-- The nodes of a list that are not in `seen`, each of them once. -/
def enqueue (seen : List κ) : List κ → List κ
  | [] => []
  | node :: nodes =>
      if node ∈ seen then enqueue seen nodes else node :: enqueue (node :: seen) nodes

/-- Breadth-first traversal from a queue of pending nodes. `fuel` bounds the
    number of nodes returned. -/
def bfs (children : κ → List κ) : Nat → List κ → List κ → List κ
  | 0, _, _ => []
  | _ + 1, [], _ => []
  | fuel + 1, node :: pending, seen =>
      let fresh := enqueue seen (children node)
      node :: bfs children fuel (pending ++ fresh) (seen ++ fresh)

theorem mem_enqueue {seen nodes : List κ} {x : κ} :
    x ∈ enqueue seen nodes ↔ x ∈ nodes ∧ x ∉ seen := by
  induction nodes generalizing seen with
  | nil => simp [enqueue]
  | cons node nodes ih =>
      rw [enqueue]
      split
      · rename_i h
        rw [ih]
        constructor
        · exact fun ⟨hx, hs⟩ => ⟨List.mem_cons_of_mem _ hx, hs⟩
        · rintro ⟨hx, hs⟩
          rcases List.mem_cons.mp hx with rfl | hx
          · exact absurd h hs
          · exact ⟨hx, hs⟩
      · rename_i h
        simp only [List.mem_cons, ih, not_or]
        constructor
        · rintro (rfl | ⟨hx, -, hs⟩)
          · exact ⟨.inl rfl, h⟩
          · exact ⟨.inr hx, hs⟩
        · rintro ⟨rfl | hx, hs⟩
          · exact .inl rfl
          · by_cases hxn : x = node
            · exact .inl hxn
            · exact .inr ⟨hx, hxn, hs⟩

theorem nodup_enqueue (seen nodes : List κ) : (enqueue seen nodes).Nodup := by
  induction nodes generalizing seen with
  | nil => simp [enqueue]
  | cons node nodes ih =>
      rw [enqueue]
      split
      · exact ih seen
      · refine List.nodup_cons.mpr ⟨?_, ih _⟩
        intro h
        exact (mem_enqueue.mp h).2 (by simp)

/-- What is added to the queue is in the order of the children. -/
theorem enqueue_sublist (seen nodes : List κ) : (enqueue seen nodes).Sublist nodes := by
  induction nodes generalizing seen with
  | nil => exact .slnil
  | cons node nodes ih =>
      rw [enqueue]
      split
      · exact (ih seen).cons node
      · exact (ih _).cons_cons node

/-- Only what has been seen counts, not in which order. -/
theorem enqueue_congr {seen seen' : List κ} (h : ∀ x, x ∈ seen ↔ x ∈ seen') (nodes : List κ) :
    enqueue seen nodes = enqueue seen' nodes := by
  induction nodes generalizing seen seen' with
  | nil => rfl
  | cons node nodes ih =>
      have hcons : ∀ x, x ∈ node :: seen ↔ x ∈ node :: seen' := fun x => by
        rw [List.mem_cons, List.mem_cons, h]
      simp only [enqueue, h node, ih h, ih hcons]

theorem bfs_nil (children : κ → List κ) (fuel : Nat) (seen : List κ) :
    bfs children fuel [] seen = [] := by
  cases fuel <;> rfl

omit [DecidableEq κ] in
/-- A turn only adds to what has been seen. -/
theorem seen_turn (done pending fresh : List κ) (node : κ) :
    (done ++ [node]) ++ (pending ++ fresh) = (done ++ node :: pending) ++ fresh := by
  simp

/-- What a traversal knows halfway: it has returned `done`, and has seen `done`
    and the queue. -/
structure BfsInv (children : κ → List κ) (nodes done pending : List κ) : Prop where
  nodup : (done ++ pending).Nodup
  subset : done ++ pending ⊆ nodes
  expanded : ∀ x ∈ done, children x ⊆ done ++ pending

namespace BfsInv

variable {children : κ → List κ} {nodes done pending : List κ}

omit [DecidableEq κ] in
theorem init (children : κ → List κ) {root : κ} (h : root ∈ nodes) :
    BfsInv children nodes [] [root] where
  nodup := by simp
  subset := by simpa using h
  expanded := by simp

/-- One turn of the loop. -/
theorem step {node : κ} (hclosed : ∀ x ∈ nodes, children x ⊆ nodes)
    (inv : BfsInv children nodes done (node :: pending)) :
    BfsInv children nodes (done ++ [node])
      (pending ++ enqueue (done ++ node :: pending) (children node)) := by
  have hnode : node ∈ nodes := inv.subset (by simp)
  constructor
  · rw [seen_turn]
    refine inv.nodup.append (nodup_enqueue _ _) ?_
    intro x hx hx'
    exact (mem_enqueue.mp hx').2 hx
  · rw [seen_turn]
    refine List.append_subset.mpr ⟨inv.subset, ?_⟩
    intro x hx
    exact hclosed node hnode (mem_enqueue.mp hx).1
  · rw [seen_turn]
    intro x hx c hc
    rcases List.mem_append.mp hx with hx | hx
    · exact List.mem_append_left _ (inv.expanded x hx hc)
    · obtain rfl := List.mem_singleton.mp hx
      by_cases hseen : c ∈ done ++ x :: pending
      · exact List.mem_append_left _ hseen
      · exact List.mem_append_right _ (mem_enqueue.mpr ⟨hc, hseen⟩)

omit [DecidableEq κ] in
theorem length_le (inv : BfsInv children nodes done pending) :
    (done ++ pending).length ≤ nodes.length :=
  (List.subperm_of_subset inv.nodup inv.subset).length_le

/-- What every turn keeps holds when the queue is empty. -/
theorem run_of_turn {Inv : List κ → List κ → Prop}
    (hclosed : ∀ x ∈ nodes, children x ⊆ nodes)
    (hturn : ∀ done node pending, BfsInv children nodes done (node :: pending) →
      Inv done (node :: pending) → Inv (done ++ [node])
        (pending ++ enqueue (done ++ node :: pending) (children node)))
    (fuel : Nat) (inv : BfsInv children nodes done pending) (hinv : Inv done pending)
    (hfuel : nodes.length ≤ fuel + done.length) :
    Inv (done ++ bfs children fuel pending (done ++ pending)) [] := by
  induction fuel generalizing done pending with
  | zero =>
      have hlength := inv.length_le
      rw [List.length_append] at hlength
      obtain rfl : pending = [] := List.length_eq_zero_iff.mp (by omega)
      simpa [bfs] using hinv
  | succ fuel ih =>
      cases pending with
      | nil => simpa [bfs] using hinv
      | cons node pending =>
          have hrest := ih (inv.step hclosed) (hturn done node pending inv hinv) (by simp; omega)
          rw [bfs]
          simpa using hrest

end BfsInv

section
variable {children : κ → List κ} {nodes : List κ} {root : κ} {fuel : Nat}

/-- The rule for the traversal of the nodes below `root`. -/
theorem bfs_of_turn {Inv : List κ → List κ → Prop} (hclosed : ∀ x ∈ nodes, children x ⊆ nodes)
    (hturn : ∀ done node pending, BfsInv children nodes done (node :: pending) →
      Inv done (node :: pending) → Inv (done ++ [node])
        (pending ++ enqueue (done ++ node :: pending) (children node)))
    (hroot : root ∈ nodes) (hfuel : nodes.length ≤ fuel) (hinit : Inv [] [root]) :
    Inv (bfs children fuel [root] [root]) [] :=
  (BfsInv.init children hroot).run_of_turn hclosed hturn fuel hinit (by simpa using hfuel)

theorem bfs_inv (hclosed : ∀ x ∈ nodes, children x ⊆ nodes) (hroot : root ∈ nodes)
    (hfuel : nodes.length ≤ fuel) :
    BfsInv children nodes (bfs children fuel [root] [root]) [] :=
  bfs_of_turn hclosed (fun _ _ _ inv _ => inv.step hclosed) hroot hfuel (.init children hroot)

theorem bfs_head (children : κ → List κ) (root : κ) (hfuel : 0 < fuel) (seen : List κ) :
    ∃ rest, bfs children fuel [root] seen = root :: rest := by
  cases fuel with
  | zero => omega
  | succ fuel => exact ⟨_, rfl⟩

theorem root_mem_bfs (children : κ → List κ) (hroot : root ∈ nodes)
    (hfuel : nodes.length ≤ fuel) : root ∈ bfs children fuel [root] [root] := by
  have hpos : 0 < nodes.length := List.length_pos_of_mem hroot
  obtain ⟨rest, hrest⟩ := bfs_head children root (hpos.trans_le hfuel) [root]
  rw [hrest]
  exact List.mem_cons_self

/-- Children of a node returned are returned. -/
theorem children_mem_bfs (hclosed : ∀ x ∈ nodes, children x ⊆ nodes)
    (hroot : root ∈ nodes) (hfuel : nodes.length ≤ fuel) {x c : κ}
    (hx : x ∈ bfs children fuel [root] [root]) (hc : c ∈ children x) :
    c ∈ bfs children fuel [root] [root] := by
  have h := (bfs_inv hclosed hroot hfuel).expanded x hx hc
  simpa using h

theorem bfs_subset_nodes (hclosed : ∀ x ∈ nodes, children x ⊆ nodes)
    (hroot : root ∈ nodes) (hfuel : nodes.length ≤ fuel) :
    bfs children fuel [root] [root] ⊆ nodes := by
  have h := (bfs_inv hclosed hroot hfuel).subset
  simpa using h

/-- Everything returned is reached from the queue. -/
theorem bfs_sound {pending seen : List κ} {x : κ} (h : x ∈ bfs children fuel pending seen) :
    ∃ y ∈ pending, Relation.ReflTransGen (fun a b => b ∈ children a) y x := by
  induction fuel generalizing pending seen with
  | zero => simp [bfs] at h
  | succ fuel ih =>
      cases pending with
      | nil => simp [bfs] at h
      | cons node pending =>
          rw [bfs] at h
          rcases List.mem_cons.mp h with rfl | h
          · exact ⟨x, by simp, .refl⟩
          · obtain ⟨y, hy, hyx⟩ := ih h
            rcases List.mem_append.mp hy with hy | hy
            · exact ⟨y, List.mem_cons_of_mem _ hy, hyx⟩
            · exact ⟨node, by simp, .head (mem_enqueue.mp hy).1 hyx⟩

end

end

-- ============================================================================
-- Paths to a root
-- ============================================================================

section
variable {κ ν : Type}

/-- Following `up` from the node stored under `k` one reaches a node without
    parent, and these are the nodes on the way, `k` first. -/
inductive Ascends (find : κ → Option ν) (up : ν → Option κ) : κ → List (κ × ν) → Prop where
  | root {k : κ} {v : ν} (hfind : find k = some v) (hup : up v = none) :
      Ascends find up k [(k, v)]
  | step {k p : κ} {v : ν} {path : List (κ × ν)} (hfind : find k = some v)
      (hup : up v = some p) (rest : Ascends find up p path) :
      Ascends find up k ((k, v) :: path)

/-- `k` is `a`, or somewhere below it. -/
def Below (find : κ → Option ν) (up : ν → Option κ) (a k : κ) : Prop :=
  Relation.ReflTransGen (fun parent child => ∃ v, find child = some v ∧ up v = some parent) a k

namespace Ascends

variable {find : κ → Option ν} {up : ν → Option κ} {k : κ} {path path' : List (κ × ν)}

/-- There is at most one path from a node. -/
theorem unique (h : Ascends find up k path) (h' : Ascends find up k path') :
    path = path' := by
  induction h generalizing path' with
  | root hfind hup =>
      cases h' with
      | root hfind' _ =>
          rw [hfind] at hfind'
          cases hfind'
          rfl
      | step hfind' hup' _ =>
          rw [hfind] at hfind'
          cases hfind'
          rw [hup] at hup'
          cases hup'
  | step hfind hup _ ih =>
      cases h' with
      | root hfind' hup' =>
          rw [hfind] at hfind'
          cases hfind'
          rw [hup] at hup'
          cases hup'
      | step hfind' hup' rest' =>
          rw [hfind] at hfind'
          cases hfind'
          rw [hup] at hup'
          cases hup'
          rw [ih rest']

theorem head_eq (h : Ascends find up k path) :
    ∃ v rest, path = (k, v) :: rest ∧ find k = some v := by
  cases h with
  | root hfind _ => exact ⟨_, [], rfl, hfind⟩
  | step hfind _ _ => exact ⟨_, _, rfl, hfind⟩

/-- The path ends at a node without parent. -/
theorem getLast_eq (h : Ascends find up k path) :
    ∃ node, path.getLast? = some node ∧ up node.2 = none := by
  induction h with
  | root _ hup => exact ⟨_, rfl, hup⟩
  | step _ _ hrest ih =>
      obtain ⟨node, hlast, hup⟩ := ih
      refine ⟨node, ?_, hup⟩
      rw [List.getLast?_cons, hlast]
      rfl

theorem ne_nil (h : Ascends find up k path) : path ≠ [] := by
  obtain ⟨v, rest, rfl, -⟩ := h.head_eq
  exact List.cons_ne_nil _ _

/-- Nodes on the path are stored under their keys. -/
theorem find_of_mem (h : Ascends find up k path) {node : κ × ν} (hmem : node ∈ path) :
    find node.1 = some node.2 := by
  induction h with
  | root hfind _ =>
      obtain rfl := List.mem_singleton.mp hmem
      exact hfind
  | step hfind _ _ ih =>
      rcases List.mem_cons.mp hmem with rfl | hmem
      · exact hfind
      · exact ih hmem

/-- From every node on the path the rest of the path is its own path. -/
theorem of_mem (h : Ascends find up k path) {node : κ × ν} (hmem : node ∈ path) :
    ∃ rest, Ascends find up node.1 rest ∧ rest <:+ path := by
  induction h with
  | root hfind hup =>
      obtain rfl := List.mem_singleton.mp hmem
      exact ⟨_, .root hfind hup, List.suffix_rfl⟩
  | step hfind hup hrest ih =>
      rcases List.mem_cons.mp hmem with rfl | hmem
      · exact ⟨_, .step hfind hup hrest, List.suffix_rfl⟩
      · obtain ⟨rest, hasc, hsuf⟩ := ih hmem
        exact ⟨rest, hasc, hsuf.trans (List.suffix_cons _ _)⟩

theorem rest (h : Ascends find up k path) {v : ν} {p : κ} (hfind : find k = some v)
    (hup : up v = some p) : ∃ rest, Ascends find up p rest ∧ path = (k, v) :: rest := by
  cases h with
  | root hfind' hup' =>
      rw [hfind] at hfind'
      cases hfind'
      rw [hup] at hup'
      cases hup'
  | step hfind' hup' hrest =>
      rw [hfind] at hfind'
      cases hfind'
      rw [hup] at hup'
      cases hup'
      exact ⟨_, hrest, rfl⟩

/-- The path from a node goes through every node above it. -/
theorem mem_of_below {a : κ} (hbelow : Below find up a k) (h : Ascends find up k path) :
    a ∈ path.map Prod.fst := by
  induction hbelow generalizing path with
  | refl =>
      obtain ⟨v, rest, rfl, -⟩ := h.head_eq
      simp
  | tail _ hlink ih =>
      obtain ⟨v, hfind, hup⟩ := hlink
      obtain ⟨rest, hrest, rfl⟩ := h.rest hfind hup
      exact List.mem_cons_of_mem _ (ih hrest)

/-- The path goes through nodes above it only. -/
theorem below_of_mem (h : Ascends find up k path) {node : κ × ν} (hmem : node ∈ path) :
    Below find up node.1 k := by
  induction h with
  | root hfind _ =>
      obtain rfl := List.mem_singleton.mp hmem
      exact .refl
  | step hfind hup _ ih =>
      rcases List.mem_cons.mp hmem with rfl | hmem
      · exact .refl
      · exact (ih hmem).tail ⟨_, hfind, hup⟩

/-- A path never comes back to a node. -/
theorem nodup (h : Ascends find up k path) : (path.map Prod.fst).Nodup := by
  induction h with
  | root _ _ => simp
  | @step k p v path hfind hup hrest ih =>
      refine List.nodup_cons.mpr ⟨?_, ih⟩
      intro hk
      obtain ⟨node, hmem, hnode⟩ := List.mem_map.mp hk
      obtain ⟨rest, hasc, hsuf⟩ := hrest.of_mem hmem
      rw [hnode] at hasc
      have heq := hasc.unique (.step hfind hup hrest)
      have hlen := hsuf.length_le
      rw [heq, List.length_cons] at hlen
      omega

/-- A walk along the path that has gone past a node does not come back to it, or to the
    nodes it visited before. -/
theorem not_mem_visited {k : κ} {v : ν} {path : List (κ × ν)} {visited : List κ}
    (h : Ascends find up k ((k, v) :: path))
    (hvisited : ∀ node ∈ (k, v) :: path, node.1 ∉ visited) :
    ∀ node ∈ path, node.1 ∉ k :: visited := by
  have hnodup := h.nodup
  rw [List.map_cons, List.nodup_cons] at hnodup
  intro node hnode
  rw [List.mem_cons, not_or]
  refine ⟨?_, hvisited node (List.mem_cons_of_mem _ hnode)⟩
  intro heq
  exact hnodup.1 (List.mem_map.mpr ⟨node, hnode, heq⟩)

/-- The parent of a node with a path is not below it. -/
theorem not_below_parent (h : Ascends find up k path) {v : ν} {p : κ}
    (hfind : find k = some v) (hup : up v = some p) : ¬ Below find up k p := by
  intro hbelow
  obtain ⟨rest, hrest, rfl⟩ := h.rest hfind hup
  have hnd := h.nodup
  rw [List.map_cons, List.nodup_cons] at hnd
  exact hnd.1 (mem_of_below hbelow hrest)

/-- A path is a path wherever its nodes are found as they are here. -/
theorem congr {find' : κ → Option ν} (h : Ascends find up k path)
    (hsame : ∀ node ∈ path, find' node.1 = some node.2) : Ascends find' up k path := by
  induction h with
  | root _ hup => exact .root (hsame _ List.mem_cons_self) hup
  | step _ hup _ ih =>
      exact .step (hsame _ List.mem_cons_self) hup
        (ih fun node hnode => hsame node (List.mem_cons_of_mem _ hnode))

/-- A path stays a path where the nodes on it are kept, possibly with other
    contents, as long as their parents are the same. What `f` sees of the nodes
    is the same on both paths. -/
theorem transport {ω : Type} {find' : κ → Option ν} (f : ν → ω)
    (h : Ascends find up k path)
    (hkeep : ∀ k v, find k = some v → ∃ v', find' k = some v' ∧ up v' = up v ∧ f v' = f v) :
    ∃ path', Ascends find' up k path' ∧
      path'.map (fun node => (node.1, f node.2)) = path.map fun node => (node.1, f node.2) := by
  induction h with
  | root hfind hup =>
      obtain ⟨v', hfind', hup', hf⟩ := hkeep _ _ hfind
      exact ⟨_, .root hfind' (hup'.trans hup), by simp [hf]⟩
  | step hfind hup _ ih =>
      obtain ⟨v', hfind', hup', hf⟩ := hkeep _ _ hfind
      obtain ⟨path', hasc, hmap⟩ := ih
      exact ⟨_, .step hfind' (hup'.trans hup) hasc, by simp [hmap, hf]⟩

end Ascends

end

/-- Consecutive members of a list, as `windows(2)` gives them. -/
theorem forall_mem_zip_tail {α : Type} {R : α → α → Prop} {xs : List α} :
    (∀ pair ∈ xs.zip xs.tail, R pair.1 pair.2) ↔ xs.IsChain R := by
  induction xs with
  | nil => simp
  | cons x xs ih =>
      cases xs with
      | nil => simp
      | cons y ys =>
          rw [List.isChain_cons_cons, ← ih]
          simp

/-- In a line every member but the last has one after it. -/
theorem List.IsChain.exists_next {α : Type} {R : α → α → Prop} {xs : List α} {x : α}
    (h : xs.IsChain R) (hx : x ∈ xs) : xs.getLast? = some x ∨ ∃ y ∈ xs, R x y := by
  induction xs with
  | nil => cases hx
  | cons a xs ih =>
      cases xs with
      | nil =>
          obtain rfl := List.mem_singleton.mp hx
          exact .inl rfl
      | cons b xs =>
          obtain ⟨hab, htail⟩ := List.isChain_cons_cons.mp h
          rcases List.mem_cons.mp hx with rfl | hx
          · exact .inr ⟨b, by simp, hab⟩
          · rcases ih htail hx with hlast | ⟨y, hy, hxy⟩
            · left
              rw [List.getLast?_cons_cons]
              exact hlast
            · exact .inr ⟨y, List.mem_cons_of_mem a hy, hxy⟩

/-- And every member but the first has one before it. -/
theorem List.IsChain.exists_previous {α : Type} {R : α → α → Prop} {xs : List α} {x : α}
    (h : xs.IsChain R) (hx : x ∈ xs) : xs.head? = some x ∨ ∃ y ∈ xs, R y x := by
  have hreverse := List.isChain_reverse.mpr h
  rcases hreverse.exists_next (List.mem_reverse.mpr hx) with hlast | ⟨y, hy, hyx⟩
  · left
    rw [← List.getLast?_reverse]
    exact hlast
  · exact .inr ⟨y, List.mem_reverse.mp hy, hyx⟩
