import Ztk.Lib.Machine
import Ztk.Wepoll.TreeDel

/-!
# The tree as a map

Nodes go into a tree and out of it in any order.  Next to the tree stands the map that it is
for: the node of every key.  `map` is what `EpollWorld.tree` is for the handles of the ports,
and `Port.findSocket` for the sockets of a port.
-/

namespace Ztk.Wepoll

open Ztk.Lib

variable {κ : Type}

structure TreeWorld (κ : Type) where
  tree : Tree κ
  /-- The node of every key that is there. -/
  map : κ → Option Nat
  /-- The nodes that are in the tree. -/
  nodes : List Nat
  /-- A function used a `NULL` pointer, or went on for longer than it was given. -/
  stuck : Bool
  /-- `tree_add` returned something else than the map says. -/
  wrong : Bool

/-- A call, with the number of turns that its loops may take. -/
inductive TreeAct (κ : Type) where
  | add (turns node : Nat) (key : κ)
  | del (turns node : Nat)

namespace TreeWorld

/-- After `tree_init`. -/
def start (memory : Tree κ) : TreeWorld κ where
  tree := memory.init
  map _ := none
  nodes := []
  stuck := false
  wrong := false

variable [LinearOrder κ]

def add (s : TreeWorld κ) (turns node : Nat) (key : κ) : TreeWorld κ :=
  match s.tree.add turns node key with
  | none => { s with stuck := true }
  | some (tree, true) =>
      { s with
        tree := tree
        map := Function.update s.map key (some node)
        nodes := node :: s.nodes
        wrong := s.wrong || (s.map key).isSome }
  | some (tree, false) => { s with tree := tree, wrong := s.wrong || (s.map key).isNone }

def del (s : TreeWorld κ) (turns node : Nat) : TreeWorld κ :=
  match s.tree.del turns node with
  | none => { s with stuck := true }
  | some tree =>
      { s with
        tree := tree
        map := fun k => if s.map k = some node then none else s.map k
        nodes := s.nodes.erase node }

end TreeWorld

variable [LinearOrder κ]

def treeStep (s : TreeWorld κ) : TreeAct κ → Option (TreeWorld κ)
  | .add turns node key => some (s.add turns node key)
  | .del turns node => some (s.del turns node)

def treeMachine : Machine (TreeWorld κ) (TreeAct κ) := ⟨treeStep⟩

/-- As many turns as the height of a red-black tree with `n` nodes. -/
def treeTurns (n : Nat) : Nat := 2 * Nat.log 2 (n + 1)

/-- A node is added that is not in the tree, and one is removed that is.  The loops may take as
many turns as a red-black tree is high, and one more to remove a node. -/
def TreeUse (s : TreeWorld κ) : TreeAct κ → Prop
  | .add turns node _ => node ∉ s.nodes ∧ treeTurns s.nodes.length ≤ turns
  | .del turns node => node ∈ s.nodes ∧ treeTurns s.nodes.length < turns

instance (s : TreeWorld κ) (a : TreeAct κ) : Decidable (TreeUse s a) :=
  match a with
  | .add turns node _ =>
      inferInstanceAs (Decidable (node ∉ s.nodes ∧ treeTurns s.nodes.length ≤ turns))
  | .del turns node =>
      inferInstanceAs (Decidable (node ∈ s.nodes ∧ treeTurns s.nodes.length < turns))

/-- The tree is there, and it is the map. -/
structure TreeInv (s : TreeWorld κ) (t : RBTree Nat) : Prop where
  keeps : Keeps s.tree t
  nodes : t.toList.Perm s.nodes
  map : ∀ k i, s.map k = some i ↔ i ∈ s.nodes ∧ s.tree.key i = k
  stuck : s.stuck = false
  wrong : s.wrong = false

namespace TreeInv

variable {s s' : TreeWorld κ} {t : RBTree Nat} {i n : Nat} {k : κ}

theorem start (memory : Tree κ) : TreeInv (.start memory) RBTree.nil where
  keeps := ⟨⟨trivial, rfl, List.nodup_nil⟩, ⟨rfl, 0, .nil⟩, List.Pairwise.nil⟩
  nodes := .refl _
  map _ _ := iff_of_false (by rintro ⟨⟩) fun h => nomatch h.1
  stuck := rfl
  wrong := rfl

theorem depth_le (h : TreeInv s t) : t.depth ≤ treeTurns s.nodes.length := by
  rw [treeTurns, ← h.nodes.length_eq]
  exact h.keeps.valid.depth_le

theorem add (h : TreeInv s t) (hi : i ∉ s.nodes) (hn : treeTurns s.nodes.length ≤ n) (k : κ) :
    ∃ t', TreeInv (s.add n i k) t' := by
  have hi' : i ∉ t.toList := fun hm => hi (h.nodes.mem_iff.mp hm)
  obtain ⟨⟨j, hj, hk⟩, heq⟩ | ⟨hne, tree, t', heq, hkeeps, hperm, hkey⟩ :=
    h.keeps.add (k := k) hi' (h.depth_le.trans hn)
  · refine ⟨t, ?_⟩
    have hmap : s.map k = some j := (h.map k j).mpr ⟨h.nodes.mem_iff.mp hj, hk⟩
    rw [TreeWorld.add, heq]
    exact ⟨h.keeps, h.nodes, h.map, h.stuck, by
      rw [h.wrong, hmap]
      rfl⟩
  · refine ⟨t', ?_⟩
    have hold : ∀ j ∈ s.nodes, tree.key j = s.tree.key j := by
      intro j hj
      rw [hkey]
      refine Function.update_of_ne ?_ ..
      rintro rfl
      exact hi hj
    have hnew : tree.key i = k := by rw [hkey, Function.update_self]
    have hnone : s.map k = none := by
      rw [Option.eq_none_iff_forall_ne_some]
      intro j hj
      obtain ⟨hm, hkj⟩ := (h.map k j).mp hj
      exact hne j (h.nodes.mem_iff.mpr hm) hkj
    rw [TreeWorld.add, heq]
    refine ⟨hkeeps, hperm.trans (.cons i h.nodes), fun k' j => ?_, h.stuck, ?_⟩
    · simp only [List.mem_cons]
      by_cases hk : k' = k
      · rw [hk, Function.update_self]
        constructor
        · rintro ⟨⟩
          exact ⟨Or.inl rfl, hnew⟩
        · rintro ⟨rfl | hj, hkj⟩
          · rfl
          · exact absurd ((hold j hj).symm.trans hkj) (hne j (h.nodes.mem_iff.mpr hj))
      · rw [Function.update_of_ne hk, h.map]
        constructor
        · rintro ⟨hj, hkj⟩
          exact ⟨Or.inr hj, (hold j hj).trans hkj⟩
        · rintro ⟨rfl | hj, hkj⟩
          · exact absurd (hkj.symm.trans hnew) hk
          · exact ⟨hj, (hold j hj).symm.trans hkj⟩
    · simp only [h.wrong, hnone]
      rfl

theorem del (h : TreeInv s t) (hi : i ∈ s.nodes) (hn : treeTurns s.nodes.length < n) :
    ∃ t', TreeInv (s.del n i) t' := by
  obtain ⟨tree, t', heq, hkeeps, hperm, hkey⟩ :=
    h.keeps.del (h.nodes.mem_iff.mpr hi) (h.depth_le.trans_lt hn)
  have hnodup : s.nodes.Nodup := h.nodes.nodup_iff.mp h.keeps.shape.parts.1
  refine ⟨t', ?_⟩
  rw [TreeWorld.del, heq]
  refine ⟨hkeeps, ?_, fun k j => ?_, h.stuck, h.wrong⟩
  · have herase := (hperm.symm.trans h.nodes).erase i
    rw [List.erase_cons_head] at herase
    exact herase
  · simp only [hkey, hnodup.mem_erase_iff]
    by_cases hk : s.map k = some i
    · rw [if_pos hk]
      refine iff_of_false (by rintro ⟨⟩) fun ⟨⟨hne, hj⟩, hkj⟩ => hne ?_
      exact (Option.some.inj (hk.symm.trans ((h.map k j).mpr ⟨hj, hkj⟩))).symm
    · rw [if_neg hk, h.map]
      constructor
      · rintro ⟨hj, hkj⟩
        refine ⟨⟨?_, hj⟩, hkj⟩
        rintro rfl
        exact hk ((h.map k j).mpr ⟨hj, hkj⟩)
      · rintro ⟨⟨-, hj⟩, hkj⟩
        exact ⟨hj, hkj⟩

theorem step (h : TreeInv s t) {a : TreeAct κ} (hc : TreeUse s a) (hs : treeStep s a = some s') :
    ∃ t', TreeInv s' t' := by
  cases a with
  | add turns node key =>
      cases hs
      exact h.add hc.1 hc.2 key
  | del turns node =>
      cases hs
      exact h.del hc.1 hc.2

end TreeInv

/-- In whatever order nodes are added and removed, the red-black tree is the map that it is
for: `tree_add` and `tree_del` use no `NULL` pointer and come to an end, `tree_add` refuses a
node exactly if its key is there, and `tree_find` finds the node of every key.  With `n` nodes
no loop takes more turns than `2 * log2 (n + 1)`, and those of `tree_del` one more. -/
theorem tree_is_map {memory : Tree κ} {s : TreeWorld κ}
    (h : treeMachine.Leads TreeUse (.start memory) s) :
    s.stuck = false ∧ s.wrong = false ∧
      ∀ k, s.tree.find k (treeTurns s.nodes.length) s.tree.root = some (s.map k) := by
  obtain ⟨t, hi⟩ := h.invariant (I := fun s => ∃ t, TreeInv s t)
    (fun _ _ _ ⟨_, hi⟩ hc hs => hi.step hc hs) ⟨_, TreeInv.start memory⟩
  refine ⟨hi.stuck, hi.wrong, fun k => ?_⟩
  obtain ⟨p, hp, hiff⟩ := hi.keeps.find (k := k) hi.depth_le
  rw [hp]
  refine congrArg some (Option.ext fun i => ?_)
  rw [hiff i, hi.map, hi.nodes.mem_iff]

/-- Memory in which everything is zero. -/
def zeroMemory : Tree Nat := ⟨none, fun _ => none, fun _ => none, fun _ => none, fun _ => 0,
  fun _ => false⟩

/-- Seven nodes go in, in ascending order, and the root and one more go out again. -/
def sevenRun : List (TreeAct Nat) :=
  [.add 9 1 10, .add 9 2 20, .add 9 3 30, .add 9 4 40, .add 9 5 50, .add 9 6 60, .add 9 7 70,
    .add 9 8 70, .del 9 2, .del 9 1]

theorem tree_is_map_seven :
    ∃ s, treeMachine.Leads TreeUse (.start zeroMemory) s ∧ s.nodes = [7, 6, 5, 4, 3] ∧
      s.tree.find 70 (treeTurns s.nodes.length) s.tree.root = some (s.map 70) := by
  obtain ⟨s, hs, hn⟩ := Machine.exists_run (M := treeMachine) (s := .start zeroMemory)
    (l := sevenRun) (P := fun s => s.nodes = [7, 6, 5, 4, 3]) (by decide)
  have hl := Machine.leads_of_run (C := TreeUse) sevenRun _ s hs (by decide)
  exact ⟨s, hl, hn, (tree_is_map hl).2.2 70⟩

end Ztk.Wepoll
