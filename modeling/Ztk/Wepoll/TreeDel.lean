import Ztk.Wepoll.TreeOps

/-!
# `tree_del`

A node with two children is replaced by the leftmost one to its right, which is taken out of
its own place at the same time.  What is written on the way is no tree; the heap at its end is
compared with the one where the two things are done one after the other.
-/

namespace Ztk.Wepoll

open Ztk.Lib RBTree

variable {κ : Type}

theorem Tree.parent_link_setParentOf {s : Tree κ} {cs : List (Crumb Nat)} {p q r : Option Nat} :
    ((s.link cs q).setParentOf p r).parent = (s.setParentOf p r).parent := by
  cases p with
  | none => exact parent_link
  | some i => exact congrArg (Function.update · i r) parent_link

/-- Two heaps in which a node has the same parent, after the same write. -/
theorem Tree.parent_setParentOf_congr {s s' : Tree κ} {p q : Option Nat} {j : Nat}
    (h : s.parent j = s'.parent j) :
    (s.setParentOf p q).parent j = (s'.setParentOf p q).parent j := by
  cases p with
  | none => exact h
  | some i =>
      by_cases hj : j = i
      · rw [hj, parent_setParentOf_self, parent_setParentOf_self]
      · have hne : some i ≠ some j := fun he => hj (Option.some.inj he).symm
        rw [parent_setParentOf_of_ne hne, parent_setParentOf_of_ne hne, h]

/-- Two heaps in which a node has the same children, after the same write. -/
theorem Tree.child_setChild_congr {s s' : Tree κ} {cis side : Side} {i j : Nat} {p : Option Nat}
    (h : s.child side j = s'.child side j) :
    (s.setChild cis i p).child side j = (s'.setChild cis i p).child side j := by
  by_cases hj : j = i
  · cases hj
    by_cases hs : cis = side
    · rw [hs, child_setChild_self, child_setChild_self]
    · rw [Side.eq_flip hs, child_setChild_flip, child_setChild_flip, h]
  · rw [child_setChild_of_ne hj, child_setChild_of_ne hj, h]

namespace At

variable {s s' : Tree κ} {t x y l r : RBTree Nat} {cs cs' ds : List (Crumb Nat)} {cis : Side}
  {red : Bool} {i j k n m turns : Nat}

/-- A node with one child at most gives its place to that child. -/
theorem unlink (h : At s (join cis red nil i y) cs) :
    At ((s.link cs y.ptr).setParentOf y.ptr (top cs)) y cs := by
  obtain ⟨ht, hcs, hdisj⟩ := h.parts
  obtain ⟨hi, hn⟩ := List.nodup_cons.mp ((toList_join_perm ..).nodup_iff.mp ht)
  obtain ⟨-, -, -, -, -, hy⟩ := holds_join.mp h.tree
  have hout : ∀ {j}, j ∈ y.toList → j ∉ RBTree.around cs := fun hj =>
    hdisj _ ((toList_join_perm ..).mem_iff.mpr (List.mem_cons_of_mem _ hj))
  refine ⟨hy.move hn (fun j hj side => ?_) (fun j _ => ?_) (fun j _ hne => ?_) (fun j hj => ?_),
    (h.around.link (q := y.ptr) hcs).congr Tree.root_setParentOf
      fun j hj => ⟨fun side => ?_, ?_, ?_⟩, ?_⟩
  · rw [Tree.child_setParentOf, Tree.child_link fun he => hout hj (mem_of_top he)]
  · rw [Tree.red_setParentOf, Tree.red_link]
  · rw [Tree.parent_setParentOf_of_ne hne, Tree.parent_link]
  · rw [hj, Tree.parent_setParentOf_self]
  · rw [Tree.child_setParentOf]
  · rw [Tree.red_setParentOf]
  · rw [Tree.parent_setParentOf_of_ne fun he => hout (mem_of_ptr he) hj]
  · have hperm := h.nodup
    rw [(toList_plug_perm ..).nodup_iff] at hperm ⊢
    rw [((toList_join_perm cis red nil i y).append_right _).nodup_iff] at hperm
    exact (List.nodup_cons.mp hperm).2

/-- The end of `tree_del`. -/
theorem delEnd {a : Nat} (h : At (s.setParentOf y.ptr (top cs)) y cs) (hole : Hole cs n)
    (hb : Balanced (join cis red nil a y) n) (hturns : cs.length < turns) :
    ∃ s', s.delEnd turns red y.ptr (top cs) = some s' ∧ At s' (deleteMend red y cs) [] ∧
      s'.key = s.key := by
  rw [Tree.delEnd, deleteMend]
  cases red with
  | true => exact ⟨_, rfl, h.whole, Tree.key_setParentOf⟩
  | false =>
      simp only [Bool.false_eq_true, if_false, h.redAt]
      split
      · exact ⟨_, rfl, (h.paintOf false).whole, key_setRedOf.trans Tree.key_setParentOf⟩
      · next hr =>
          obtain ⟨m, rfl, -, hy⟩ := hb.of_black
          obtain ⟨s', j, hs', h', hk⟩ :=
            h.deleteLoop hole hy (Bool.eq_false_of_not_eq_true hr) hturns
          refine ⟨s'.setRedOf j false, ?_, h', key_setRedOf.trans (hk.trans Tree.key_setParentOf)⟩
          simp only [Option.bind_eq_bind, hs', Option.bind_some]
          rfl

/-- The leftmost node. -/
theorem leftmost (h : At s (node red l i r) cs) (hn : l.depth < n) {gone : Bool} {rest : RBTree Nat}
    (hm : splitMin red l i r ds = (gone, m, rest, cs')) : s.leftmost n i = some m := by
  induction l generalizing red i r cs ds n with
  | nil =>
      cases hm
      cases n with
      | zero => cases hn
      | succ n =>
          rw [Tree.leftmost, h.tree.2.2.1]
          rfl
  | node red' l' a' r' ihl _ =>
      cases n with
      | zero => cases hn
      | succ n =>
          rw [Tree.leftmost, h.tree.2.2.1]
          have hlt : max l'.depth r'.depth < n := Nat.lt_of_succ_lt_succ hn
          exact ihl h.goLeft ((Nat.le_max_left ..).trans_lt hlt) hm

/-- Another node takes the place of a node, its colour and its children. -/
theorem rename (h : At s (node red l i r) cs) (hk : k ∉ RBTree.around cs)
    (hkl : k ∉ l.toList) (hkr : k ∉ r.toList)
    (hnode : s'.red k = red ∧ s'.parent k = top cs ∧ s'.child .left k = l.ptr ∧
      s'.child .right k = r.ptr)
    (hsame : ∀ j, j ∈ l.toList ∨ j ∈ r.toList →
      (∀ side, s'.child side j = s.child side j) ∧ s'.red j = s.red j ∧
        (l.ptr ≠ some j → r.ptr ≠ some j → s'.parent j = s.parent j) ∧
        (l.ptr = some j ∨ r.ptr = some j → s'.parent j = some k))
    (haround : Around s' (some k) cs) : At s' (node red l k r) cs := by
  obtain ⟨ht, hcs, hdisj⟩ := h.parts
  obtain ⟨hnl, hn, hlr⟩ := List.nodup_append.mp ht
  obtain ⟨hir, hnr⟩ := List.nodup_cons.mp hn
  have hdis : ∀ {j}, j ∈ l.toList → j ∉ r.toList := fun hl hr =>
    hlr _ hl _ (List.mem_cons_of_mem _ hr) rfl
  obtain ⟨-, -, -, -, hl, hr⟩ := h.tree
  obtain ⟨hkred, hkparent, hkleft, hkright⟩ := hnode
  refine ⟨⟨hkred, hkparent, hkleft, hkright, ?_, ?_⟩, haround, ?_⟩
  · refine hl.move hnl (fun j hj => (hsame j (Or.inl hj)).1) (fun j hj => (hsame j (Or.inl hj)).2.1)
      (fun j hj hne => (hsame j (Or.inl hj)).2.2.1 hne fun he => hdis hj (mem_of_ptr he))
      fun j hj => (hsame j (Or.inl (mem_of_ptr hj))).2.2.2 (Or.inl hj)
  · refine hr.move hnr (fun j hj => (hsame j (Or.inr hj)).1) (fun j hj => (hsame j (Or.inr hj)).2.1)
      (fun j hj hne => (hsame j (Or.inr hj)).2.2.1 (fun he => hdis (mem_of_ptr he) hj) hne)
      fun j hj => (hsame j (Or.inr (mem_of_ptr hj))).2.2.2 (Or.inr hj)
  · have hperm := h.nodup
    have hmid : ∀ k, (node red l k r).toList.Perm (k :: (l.toList ++ r.toList)) := fun k =>
      List.perm_middle
    rw [(toList_plug_perm ..).nodup_iff, ((hmid _).append_right _).nodup_iff] at hperm ⊢
    refine List.nodup_cons.mpr ⟨fun hm => ?_, (List.nodup_cons.mp hperm).2⟩
    rcases List.mem_append.mp hm with hm | hm
    · exact (List.mem_append.mp hm).elim hkl hkr
    · exact hk hm

theorem around_append (ds cs : List (Crumb Nat)) :
    RBTree.around (ds ++ cs) = RBTree.around ds ++ RBTree.around cs := by
  induction ds with
  | nil => rfl
  | cons d ds ih => simp only [List.cons_append, RBTree.around, ih, List.append_assoc]

theorem mem_around_append {side : Side} :
    j ∈ RBTree.around (ds ++ ⟨side, red, i, l⟩ :: cs) ↔
      j ∈ RBTree.around ds ∨ j = i ∨ j ∈ l.toList ∨ j ∈ RBTree.around cs := by
  rw [around_append, List.mem_append, RBTree.around, List.mem_cons, List.mem_append]

/-- The node `m`, which has no left child, is taken out below the node `i`, and put in the
place of `i`. -/
theorem replace (ds : List (Crumb Nat)) {gone : Bool} {rest : RBTree Nat}
    (h : At s (node gone nil m rest) (ds ++ ⟨.right, red, i, l⟩ :: cs))
    (hnode : s'.red m = red ∧ s'.parent m = top cs ∧ s'.child .left m = l.ptr ∧
      s'.child .right m = (RBTree.plug rest ds).ptr)
    (hchild : ∀ j, j ≠ m → j ≠ i → top cs ≠ some j → ∀ side,
      s'.child side j = (s.link (ds ++ ⟨.right, red, i, l⟩ :: cs) rest.ptr).child side j)
    (hred : ∀ j, j ≠ m → s'.red j = s.red j)
    (hparent : ∀ j, j ≠ m → l.ptr ≠ some j → (RBTree.plug rest ds).ptr ≠ some j →
      s'.parent j = (s.setParentOf rest.ptr (top (ds ++ ⟨.right, red, i, l⟩ :: cs))).parent j)
    (hup : ∀ j, l.ptr = some j ∨ (RBTree.plug rest ds).ptr = some j → s'.parent j = some m)
    (hroot : s'.root = (s.link cs (some m)).root)
    (hlink : ∀ j ∈ RBTree.around cs, ∀ side, s'.child side j = (s.link cs (some m)).child side j) :
    At s' rest (ds ++ ⟨.right, red, m, l⟩ :: cs) := by
  have hu : At _ rest (ds ++ ⟨.right, red, i, l⟩ :: cs) :=
    unlink (show At s (join .left gone nil m rest) (ds ++ ⟨.right, red, i, l⟩ :: cs) from h)
  have hiu : At _ (node red l i (RBTree.plug rest ds)) cs := down.mpr (plug.mp hu)
  -- The node is nowhere else.
  obtain ⟨ht, -, hdisj⟩ := h.parts
  have hm : m ∉ RBTree.around (ds ++ ⟨.right, red, i, l⟩ :: cs) := hdisj m List.mem_cons_self
  rw [mem_around_append, not_or, not_or, not_or] at hm
  obtain ⟨hmds, hmi, hml, hmcs⟩ := hm
  have hmrest : m ∉ rest.toList := (List.nodup_cons.mp ht).1
  have hmr : m ∉ (RBTree.plug rest ds).toList := by
    rw [(toList_plug_perm ..).mem_iff, List.mem_append, not_or]
    exact ⟨hmrest, hmds⟩
  obtain ⟨hti, hcs, hout⟩ := hiu.parts
  have hi : i ∉ l.toList ∧ i ∉ (RBTree.plug rest ds).toList := by
    obtain ⟨-, hir, hlr⟩ := List.nodup_append.mp hti
    exact ⟨fun hl => hlr i hl i List.mem_cons_self rfl, (List.nodup_cons.mp hir).1⟩
  have hroots : ∀ {j}, l.ptr = some j ∨ (RBTree.plug rest ds).ptr = some j → j ∉ RBTree.around cs :=
    fun hj => hout _ (List.mem_append.mpr
      (hj.imp mem_of_ptr fun he => List.mem_cons_of_mem _ (mem_of_ptr he)))
  have hmove : At s' (node red l m (RBTree.plug rest ds)) cs := by
    refine hiu.rename hmcs hml hmr hnode (fun j hj => ?_) ?_
    · have hjm : j ≠ m := by
        rintro rfl
        exact hj.elim hml hmr
      have hji : j ≠ i := by
        rintro rfl
        exact hj.elim hi.1 hi.2
      have hjcs : top cs ≠ some j := fun he =>
        hout j (List.mem_append.mpr (hj.imp_right (List.mem_cons_of_mem _))) (mem_of_top he)
      refine ⟨fun side => ?_, ?_, fun hl hr => ?_, hup j⟩
      · rw [hchild j hjm hji hjcs, Tree.child_setParentOf]
      · rw [hred j hjm, Tree.red_setParentOf, Tree.red_link]
      · rw [hparent j hjm hl hr, Tree.parent_link_setParentOf]
    · have hup' : At s (join .right red (RBTree.plug (node gone nil m rest) ds) i l) cs :=
        down.mpr (plug.mp h)
      have haround := hup'.around
      rw [ptr_join] at haround
      refine (haround.link (q := some m) hcs).congr hroot fun j hj => ⟨hlink j hj, ?_, ?_⟩
      · rw [hred j fun he => hmcs (he ▸ hj), Tree.red_link]
      · have hrest : rest.ptr ≠ some j := fun he => hout j (List.mem_append.mpr (Or.inr
          (List.mem_cons_of_mem _ ((toList_plug_perm ..).mem_iff.mpr
            (List.mem_append_left _ (mem_of_ptr he)))))) hj
        rw [hparent j (fun he => hmcs (he ▸ hj)) (fun he => hroots (Or.inl he) hj)
          (fun he => hroots (Or.inr he) hj), Tree.parent_setParentOf_of_ne hrest, Tree.parent_link]
  exact plug.mpr (down.mp (show At s' (join .right red (RBTree.plug rest ds) m l) cs from hmove))

end At

namespace Tree

variable {s : Tree κ} {cs : List (Crumb Nat)} {red : Bool} {m lp j : Nat}

/-- What `tree_del` writes first, where the node has two children: `m` takes its place. -/
def takeOver (s : Tree κ) (cs : List (Crumb Nat)) (red : Bool) (m lp : Nat) : Tree κ :=
  ((((s.link cs (some m)).setRed m red).setChild .left m (some lp)).setParent lp (some m)).setParent
    m (top cs)

theorem child_takeOver (h : j ≠ m) (side : Side) :
    (s.takeOver cs red m lp).child side j = (s.link cs (some m)).child side j := by
  rw [takeOver, child_setParent, child_setParent, child_setChild_of_ne h, child_setRed]

theorem left_takeOver : (s.takeOver cs red m lp).child .left m = some lp := by
  rw [takeOver, child_setParent, child_setParent, child_setChild_self]

theorem right_takeOver (h : top cs ≠ some m) :
    (s.takeOver cs red m lp).child .right m = s.child .right m := by
  have hflip : ∀ u : Tree κ, (u.setChild .left m (some lp)).child .right = u.child .right :=
    fun _ => rfl
  rw [takeOver, child_setParent, child_setParent, hflip, child_setRed]
  exact child_link h

theorem red_takeOver (h : j ≠ m) : (s.takeOver cs red m lp).red j = s.red j := by
  refine (Function.update_of_ne h ..).trans ?_
  rw [red_link]

theorem red_takeOver_self : (s.takeOver cs red m lp).red m = red := Function.update_self ..

theorem parent_takeOver (hm : j ≠ m) (hl : j ≠ lp) :
    (s.takeOver cs red m lp).parent j = s.parent j := by
  refine (Function.update_of_ne hm ..).trans ((Function.update_of_ne hl ..).trans ?_)
  rw [parent_setChild]
  exact congrFun parent_link j

theorem parent_takeOver_self : (s.takeOver cs red m lp).parent m = top cs :=
  Function.update_self ..

theorem parent_takeOver_left (h : lp ≠ m) : (s.takeOver cs red m lp).parent lp = some m :=
  (Function.update_of_ne h ..).trans (Function.update_self ..)

theorem root_takeOver : (s.takeOver cs red m lp).root = (s.link cs (some m)).root := rfl

theorem key_takeOver : (s.takeOver cs red m lp).key = s.key := key_link

end Tree

namespace At

variable {s : Tree κ} {l rest : RBTree Nat} {cs ds : List (Crumb Nat)} {red gone : Bool}
  {i m lp rp : Nat} {d : Crumb Nat}

/-- The node to the right has no left child. -/
theorem takeOver_near (h : At s (node gone nil m rest) (⟨.right, red, i, l⟩ :: cs))
    (hl : l.ptr = some lp) :
    At ((s.takeOver cs red m lp).setParentOf rest.ptr (some m)) rest
      (⟨.right, red, m, l⟩ :: cs) := by
  obtain ⟨ht, -, hdisj⟩ := h.parts
  have hmrest : m ∉ rest.toList := (List.nodup_cons.mp ht).1
  have hm : m ∉ RBTree.around (⟨.right, red, i, l⟩ :: cs) := hdisj m List.mem_cons_self
  have hrest : ∀ {j}, rest.ptr = some j → j ∉ l.toList ∧ j ∉ RBTree.around cs := fun hj => by
    have hout := hdisj _ (List.mem_cons_of_mem _ (mem_of_ptr hj))
    rw [RBTree.around, List.mem_cons, List.mem_append, not_or, not_or] at hout
    exact hout.2
  rw [RBTree.around, List.mem_cons, List.mem_append, not_or, not_or] at hm
  have hlp : lp ≠ m := fun he => hm.2.1 (he ▸ mem_of_ptr hl)
  have hmtop : top cs ≠ some m := fun he => hm.2.2 (mem_of_top he)
  have hmr : rest.ptr ≠ some m := fun he => hmrest (mem_of_ptr he)
  have hlr : rest.ptr ≠ some lp := fun he => (hrest he).1 (mem_of_ptr hl)
  refine replace [] h ⟨?_, ?_, ?_, ?_⟩ (fun j hj hji hcs side => ?_) (fun j hj => ?_)
    (fun j hj hne hr => ?_) (fun j hj => ?_) ?_ fun j hj side => ?_
  · rw [Tree.red_setParentOf, Tree.red_takeOver_self]
  · rw [Tree.parent_setParentOf_of_ne hmr, Tree.parent_takeOver_self]
  · rw [Tree.child_setParentOf, Tree.left_takeOver, hl]
  · rw [Tree.child_setParentOf, Tree.right_takeOver hmtop]
    exact h.tree.2.2.2.1
  · rw [Tree.child_setParentOf, Tree.child_takeOver hj, Tree.child_link hcs]
    exact (Tree.child_setChild_of_ne hji).symm
  · rw [Tree.red_setParentOf, Tree.red_takeOver hj]
  · have hlp' : j ≠ lp := by
      rintro rfl
      exact hne hl
    have hr : rest.ptr ≠ some j := hr
    rw [Tree.parent_setParentOf_of_ne hr, Tree.parent_takeOver hj hlp',
      Tree.parent_setParentOf_of_ne hr]
  · obtain hj | hj := hj
    · cases hl.symm.trans hj
      rw [Tree.parent_setParentOf_of_ne hlr, Tree.parent_takeOver_left hlp]
    · rw [show rest.ptr = some j from hj, Tree.parent_setParentOf_self]
  · rw [Tree.root_setParentOf, Tree.root_takeOver]
  · rw [Tree.child_setParentOf, Tree.child_takeOver]
    rintro rfl
    exact hm.2.2 hj

/-- The node with no left child is further down. -/
theorem takeOver_far (h : At s (node gone nil m rest) (d :: ds ++ ⟨.right, red, i, l⟩ :: cs))
    (hd : d.side = .left) (hl : l.ptr = some lp) (hr : (RBTree.plug rest (d :: ds)).ptr = some rp) :
    At ((((((s.takeOver cs red m lp).setChild .left d.a rest.ptr).setChild .right m
      (some rp)).setParent rp (some m))).setParentOf rest.ptr (some d.a)) rest
      (d :: ds ++ ⟨.right, red, m, l⟩ :: cs) := by
  obtain ⟨ht, hn, hdisj⟩ := h.parts
  have hmrest : m ∉ rest.toList := (List.nodup_cons.mp ht).1
  have hout : ∀ {j}, j ∈ (node gone nil m rest).toList →
      j ∉ RBTree.around (d :: ds) ∧ j ≠ i ∧ j ∉ l.toList ∧ j ∉ RBTree.around cs := by
    intro j hj
    have hj := hdisj j hj
    rw [mem_around_append, not_or, not_or, not_or] at hj
    exact hj
  obtain ⟨hmds, hmi, hml, hmcs⟩ := hout List.mem_cons_self
  rw [around_append] at hn
  obtain ⟨-, hn, hdsout⟩ := List.nodup_append.mp hn
  obtain ⟨a, ha, hpa⟩ := ptr_plug_cons d ds
  cases hr.symm.trans (hpa rest)
  have hlp : lp ≠ m := fun he => hml (he ▸ mem_of_ptr hl)
  have hrp : rp ≠ m := fun he => hmds (he ▸ ha)
  have hda : d.a ≠ m := fun he => hmds (he ▸ List.mem_cons_self)
  have hmtop : top cs ≠ some m := fun he => hmcs (mem_of_top he)
  have hmr : rest.ptr ≠ some m := fun he => hmrest (mem_of_ptr he)
  have hrest : ∀ {j}, rest.ptr = some j →
      j ∉ RBTree.around (d :: ds) ∧ j ≠ i ∧ j ∉ l.toList ∧ j ∉ RBTree.around cs := fun he =>
    hout (List.mem_cons_of_mem _ (mem_of_ptr he))
  have hlr : lp ≠ rp := by
    rintro rfl
    exact hdsout lp ha lp (List.mem_cons_of_mem _ (List.mem_append_left _ (mem_of_ptr hl))) rfl
  have hflip : ∀ u : Tree κ, (u.setChild .right m (some rp)).child .left = u.child .left :=
    fun _ => rfl
  refine replace (d :: ds) h ⟨?_, ?_, ?_, ?_⟩ (fun j hj hji hcs side => ?_) (fun j hj => ?_)
    (fun j hj hne hjr => ?_) (fun j hj => ?_) ?_ fun j hj side => ?_
  · rw [Tree.red_setParentOf]
    exact (show (s.takeOver cs red m lp).red m = red from Tree.red_takeOver_self)
  · rw [Tree.parent_setParentOf_of_ne hmr]
    refine (Function.update_of_ne hrp.symm ..).trans ?_
    rw [Tree.parent_setChild, Tree.parent_setChild, Tree.parent_takeOver_self]
  · rw [Tree.child_setParentOf, Tree.child_setParent, hflip, Tree.child_setChild_of_ne hda.symm,
      Tree.left_takeOver, hl]
  · rw [Tree.child_setParentOf, Tree.child_setParent, Tree.child_setChild_self, hr]
  · rw [Tree.child_setParentOf, Tree.child_setParent, Tree.child_setChild_of_ne hj]
    refine Eq.trans (Tree.child_setChild_congr ?_) (congrArg (fun side' =>
      (s.setChild side' d.a rest.ptr).child side j) hd.symm)
    rw [Tree.child_takeOver hj, Tree.child_link hcs]
  · rw [Tree.red_setParentOf]
    exact (show (s.takeOver cs red m lp).red j = s.red j from Tree.red_takeOver hj)
  · refine Tree.parent_setParentOf_congr ?_
    have hjr' : j ≠ rp := fun he => hjr (he ▸ hr)
    have hjl : j ≠ lp := fun he => hne (he ▸ hl)
    refine (Function.update_of_ne hjr' ..).trans ?_
    rw [Tree.parent_setChild, Tree.parent_setChild, Tree.parent_takeOver hj hjl]
  · obtain hj | hj := hj
    · cases hl.symm.trans hj
      rw [Tree.parent_setParentOf_of_ne fun he => (hrest he).2.2.1 (mem_of_ptr hl)]
      refine (Function.update_of_ne hlr ..).trans ?_
      rw [Tree.parent_setChild, Tree.parent_setChild, Tree.parent_takeOver_left hlp]
    · cases hr.symm.trans hj
      rw [Tree.parent_setParentOf_of_ne fun he => (hrest he).1 ha]
      exact Function.update_self ..
  · rw [Tree.root_setParentOf]
    exact Tree.root_setChild.trans Tree.root_setChild
  · have hjm : j ≠ m := by
      rintro rfl
      exact hmcs hj
    have hjd : j ≠ d.a := by
      rintro rfl
      exact hdsout d.a List.mem_cons_self d.a
        (List.mem_cons_of_mem _ (List.mem_append_right _ hj)) rfl
    rw [Tree.child_setParentOf, Tree.child_setParent, Tree.child_setChild_of_ne hjm,
      Tree.child_setChild_of_ne hjd, Tree.child_takeOver hjm]

end At

/-- Below a node, the way to the smallest element goes to the left. -/
theorem splitMin_side {l rest : RBTree Nat} {red gone : Bool} {i m : Nat} {r : RBTree Nat}
    {cs ds : List (Crumb Nat)} (h : splitMin red l i r cs = (gone, m, rest, ds))
    (hcs : ∀ c ∈ cs, c.side = .left) : ∀ d ∈ ds, d.side = .left := by
  induction l generalizing red i r cs with
  | nil =>
      cases h
      exact hcs
  | node red' l' a' r' ihl _ =>
      refine ihl h fun c hc => ?_
      rcases List.mem_cons.mp hc with rfl | hc
      · rfl
      · exact hcs c hc

namespace At

variable {s : Tree κ} {l r rest : RBTree Nat} {cs ds : List (Crumb Nat)} {red gone : Bool}
  {d : Crumb Nat} {i m lp rp turns n : Nat}

/-- `tree_del` of a node with two children, up to its end; the next node is its child. -/
theorem del_near (h : At s (node red l i (node gone nil m rest)) cs) (hl : l.ptr = some lp)
    (hm : s.leftmost turns m = some m) :
    s.del turns i = (s.takeOver cs red m lp).delEnd turns gone rest.ptr (some m) := by
  obtain ⟨hred, hparent, hleft, hright, -⟩ := h.tree
  obtain ⟨hmred, -, -, hmright, -⟩ := h.goRight.tree
  obtain ⟨ht, -, hdisj⟩ := h.parts
  have hi : i ∉ RBTree.around cs := hdisj i (mem_of_ptr rfl)
  have hmtop : top cs ≠ some m := fun he =>
    hdisj m (List.mem_append_right _ (List.mem_cons_of_mem _ List.mem_cons_self)) (mem_of_top he)
  have hmr : (s.takeOver cs red m lp).child .right m = rest.ptr :=
    (Tree.right_takeOver hmtop).trans hmright
  have haround : Around s (some i) cs := h.around
  have hright : s.right i = some m := hright
  rw [Tree.del, hleft, hright, hl]
  simp only [hm, Option.bind_eq_bind, Option.bind_some, hparent, Tree.relink_eq haround hi,
    Tree.red_link, hred, hmred, ne_eq, not_true, if_false]
  exact congrArg (fun p => (s.takeOver cs red m lp).delEnd turns gone p (some m)) hmr

/-- The same where the next node is further down. -/
theorem del_far (h : At s (node red l i r) cs)
    (hfar : At s (node gone nil m rest) (d :: ds ++ ⟨.right, red, i, l⟩ :: cs))
    (hl : l.ptr = some lp) (hr : r.ptr = some rp) (hm : s.leftmost turns rp = some m)
    (hne : m ≠ rp) :
    s.del turns i = ((((s.takeOver cs red m lp).setChild .left d.a rest.ptr).setChild .right m
      (some rp)).setParent rp (some m)).delEnd turns gone rest.ptr (some d.a) := by
  obtain ⟨hred, hparent, hleft, hright, -⟩ := h.tree
  obtain ⟨hmred, hmparent, -, hmright, -⟩ := hfar.tree
  obtain ⟨ht, -, hdisj⟩ := h.parts
  have hi : i ∉ RBTree.around cs := hdisj i (mem_of_ptr rfl)
  have hout := hfar.parts.2.2 m List.mem_cons_self
  rw [mem_around_append, not_or, not_or, not_or] at hout
  have hmtop : top cs ≠ some m := fun he => hout.2.2.2 (mem_of_top he)
  have hlp : lp ≠ m := fun he => hout.2.2.1 (he ▸ mem_of_ptr hl)
  have hli : i ≠ lp := fun he => (List.nodup_append.mp ht).2.2 lp (mem_of_ptr hl) i
    List.mem_cons_self he.symm
  have haround : Around s (some i) cs := h.around
  have hmr : (s.takeOver cs red m lp).child .right m = rest.ptr :=
    (Tree.right_takeOver hmtop).trans hmright
  rw [Tree.del, hleft, hright, hl, hr]
  simp only [hm, Option.bind_eq_bind, Option.bind_some, hparent, Tree.relink_eq haround hi,
    Tree.red_link, hred, hmred, ne_eq, hne, not_false_eq_true, if_true]
  have hwrite : ∀ j, j ≠ lp → ((((s.link cs (some m)).setRed m red).setChild .left m
      (some lp)).setParent lp (some m)).parent j = s.parent j := by
    intro j hj
    refine (Function.update_of_ne hj ..).trans ?_
    rw [Tree.parent_setChild]
    exact congrFun Tree.parent_link j
  have hpm := (hwrite m hlp.symm).trans hmparent
  have hpi := (hwrite i hli).trans hparent
  simp only [hpm, hpi, List.cons_append, top, Option.bind_some]
  exact congrArg (fun p => ((((s.takeOver cs red m lp).setChild .left d.a p).setChild .right m
    (some rp)).setParent rp (some m)).delEnd turns gone p (some d.a)) hmr

/-- `tree_del`. -/
theorem del (h : At s (node red l i r) cs) (hv : Valid (RBTree.plug (node red l i r) cs))
    (hturns : (RBTree.plug (node red l i r) cs).depth < turns) :
    ∃ s', s.del turns i = some s' ∧ At s' (deleteNode red l r cs) [] ∧ s'.key = s.key := by
  obtain ⟨n, hole, hn, hb⟩ := hv.open
  obtain ⟨hred, hparent, hleft, hright, -⟩ := h.tree
  have hdepth := length_le_depth (node red l i r) cs
  have hcs : cs.length < turns := ((Nat.le_add_right ..).trans hdepth).trans_lt hturns
  have haround : Around s (some i) cs := h.around
  have hi : i ∉ RBTree.around cs := h.parts.2.2 i (mem_of_ptr rfl)
  cases l with
  | nil =>
      have hu := unlink (show At s (join .left red nil i r) cs from h)
      obtain ⟨s', hs', h', hk⟩ :=
        hu.delEnd hole (show Balanced (join .left red nil i r) n from hn) hcs
      refine ⟨s', ?_, h', hk.trans Tree.key_link⟩
      rw [Tree.del, hleft, hright, hparent, hred]
      exact (congrArg (Tree.delEnd · turns red r.ptr (top cs)) (Tree.relink_eq haround hi)).trans
        hs'
  | node lred ll lp lr =>
      cases r with
      | nil =>
          let l := node lred ll lp lr
          have hu := unlink (show At s (join .right red nil i l) cs from h)
          obtain ⟨s', hs', h', hk⟩ :=
            hu.delEnd hole (show Balanced (join .right red nil i l) n from hn) hcs
          refine ⟨s', ?_, h', hk.trans Tree.key_link⟩
          rw [Tree.del, hleft, hright, hparent, hred]
          exact (congrArg (Tree.delEnd · turns red l.ptr (top cs))
            (Tree.relink_eq haround hi)).trans hs'
      | node rred rl rp rr =>
          generalize hs : splitMin rred rl rp rr [] = res
          obtain ⟨gone, m, rest, ds⟩ := res
          have hplug : RBTree.plug (node gone nil m rest) ds = node rred rl rp rr :=
            plug_splitMin hs
          have hsides := splitMin_side hs fun c hc => nomatch hc
          have hmin : At s (node gone nil m rest)
              (ds ++ ⟨.right, red, i, node lred ll lp lr⟩ :: cs) :=
            plug.mpr (hplug.symm ▸ h.goRight)
          -- The colours around the hole that `m` leaves.
          have hv' : Valid (RBTree.plug (node gone nil m rest)
              (ds ++ ⟨.right, red, i, node lred ll lp lr⟩ :: cs)) := by
            rw [plug_append, hplug]
            exact hv
          obtain ⟨k, hole', hk, -⟩ := hv'.open
          have hlen : (ds ++ ⟨.right, red, m, node lred ll lp lr⟩ :: cs).length < turns := by
            have hle := length_le_depth (node gone nil m rest)
              (ds ++ ⟨.right, red, i, node lred ll lp lr⟩ :: cs)
            rw [plug_append, hplug] at hle
            rw [List.length_append, List.length_cons] at hle ⊢
            exact ((Nat.le_add_right ..).trans hle).trans_lt hturns
          have hleftmost : s.leftmost turns rp = some m := by
            refine h.goRight.leftmost ?_ hs
            have hlt : rl.depth < (node red (node lred ll lp lr) i (node rred rl rp rr)).depth := by
              simp only [depth]
              omega
            exact (hlt.trans_le ((Nat.le_add_left ..).trans hdepth)).trans hturns
          have hdel : deleteNode red (node lred ll lp lr) (node rred rl rp rr) cs =
              deleteMend gone rest (ds ++ ⟨.right, red, m, node lred ll lp lr⟩ :: cs) := by
            simp only [deleteNode, hs]
          rw [hdel]
          have hbal : Balanced (join .left gone nil m rest) k := hk
          cases ds with
          | nil =>
              cases hplug
              have hnew := hmin.takeOver_near rfl
              obtain ⟨s', hs', h', hkey⟩ := hnew.delEnd (hole'.rename _) hbal hlen
              exact ⟨s', (h.del_near rfl hleftmost).trans hs', h', hkey.trans Tree.key_takeOver⟩
          | cons d ds =>
              obtain ⟨a, ha, hpa⟩ := ptr_plug_cons d ds
              have hrp : some rp = some a := (congrArg ptr hplug).symm.trans (hpa _)
              cases hrp
              have hne : m ≠ rp := by
                rintro rfl
                have hout := hmin.parts.2.2 m List.mem_cons_self
                rw [mem_around_append] at hout
                exact hout (Or.inl ha)
              have hnew := hmin.takeOver_far (hsides d List.mem_cons_self) rfl (hpa rest)
              obtain ⟨s', hs', h', hkey⟩ := hnew.delEnd (hole'.rename _) hbal hlen
              refine ⟨s', (h.del_far hmin rfl rfl hleftmost hne).trans hs', h', hkey.trans ?_⟩
              exact (show (s.takeOver cs red m lp).key = s.key from Tree.key_takeOver)

end At

/-- `tree_del`: the node goes out of the tree. -/
theorem Keeps.del [LinearOrder κ] {s : Tree κ} {t : RBTree Nat} {i n : Nat} (h : Keeps s t)
    (hi : i ∈ t.toList) (hn : t.depth < n) :
    ∃ s' t', s.del n i = some s' ∧ Keeps s' t' ∧ t.toList.Perm (i :: t'.toList) ∧
      s'.key = s.key := by
  obtain ⟨red, l, r, cs, rfl⟩ := exists_hole hi
  obtain ⟨s', hs', h', hk⟩ := h.shape.of_whole.del h.valid hn
  have hold := toList_plug (node red l i r) cs
  have hnew := toList_deleteNode red l r cs
  have hsub : (deleteNode red l r cs).toList.Sublist (plug (node red l i r) cs).toList := by
    rw [hold, hnew]
    exact ((List.Sublist.refl _).append ((List.Sublist.refl _).append
      (List.sublist_cons_self i _))).append (List.Sublist.refl _)
  refine ⟨s', _, hs', ⟨h', deleteNode_valid h.valid, hk ▸ h.sorted.sublist hsub⟩, ?_, hk⟩
  rw [hold, hnew, toList]
  simp only [List.append_assoc, List.cons_append]
  rw [← List.append_assoc, ← List.append_assoc (before cs)]
  exact List.perm_middle

end Ztk.Wepoll
