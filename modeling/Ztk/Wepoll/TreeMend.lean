import Ztk.Wepoll.TreeShape

/-!
# Mending, pointer by pointer

The loops of `tree_add` and `tree_del` do to the tree that the pointers make what `insertFix`
and `deleteFix` do to a tree, and use no `NULL` pointer on the way.
-/

namespace Ztk.Wepoll

open Ztk.Lib RBTree

variable {κ : Type}

namespace At

variable {s s' : Tree κ} {t x y z : RBTree Nat} {cs : List (Crumb Nat)} {cis : Side} {c d : Bool}
  {p q i g : Nat}

/-- The whole tree, and one in a hole of it. -/
theorem plug {ds : List (Crumb Nat)} : At s t (ds ++ cs) ↔ At s (plug t ds) cs := by
  induction ds generalizing t with
  | nil => exact Iff.rfl
  | cons d ds ih => exact down.symm.trans ih

theorem whole (h : At s t cs) : At s (RBTree.plug t cs) [] :=
  plug.mp ((List.append_nil cs).symm ▸ h)

theorem paint (h : At s t cs) (hi : t.ptr = some i) (d : Bool) :
    At (s.setRed i d) (t.paint d) cs := by
  cases t with
  | nil => cases hi
  | node red l a r =>
      cases hi
      have h' : At s (join .left red l i r) cs := h
      exact h'.setRed d

theorem redAt (h : At s t cs) : s.redAt t.ptr = t.isRed := by
  cases t with
  | nil => rfl
  | node red l a r => exact h.tree.1

theorem parent (h : At s t cs) (hi : t.ptr = some i) : s.parent i = top cs := by
  cases t with
  | nil => cases hi
  | node red l a r =>
      cases hi
      exact h.tree.2.1

/-- A node is not on the other side too. -/
theorem other_ne (h : At s (join cis c x p y) cs) (hi : x.ptr = some i) : y.ptr ≠ some i := by
  intro he
  obtain ⟨ht, -⟩ := h.parts
  obtain ⟨-, hn⟩ := List.nodup_cons.mp ((toList_join_perm ..).nodup_iff.mp ht)
  exact (List.nodup_append.mp hn).2.2 i (mem_of_ptr hi) i (mem_of_ptr he) rfl

/-- The side of a node, as the code finds it out. -/
theorem side (h : At s (join cis c x p y) cs) (hi : x.ptr = some i) :
    (if some i = s.left p then Side.left else .right) = cis := by
  obtain ⟨-, -, hx, hy⟩ := h.fields
  cases cis with
  | left => exact if_pos (hi.symm.trans hx.symm)
  | right => exact if_neg fun he => h.other_ne hi (hy.symm.trans he.symm)

/-- A rotation to the other side. -/
theorem rotate_flip (h : At s (join cis c (join cis d x p y) g z) cs) :
    ∃ s', s.rotate cis.flip g = some s' ∧ At s' (join cis d x p (join cis c y g z)) cs ∧
      s'.key = s.key := by
  rw [← join_flip, ← join_flip cis d] at h
  obtain ⟨s', hs, h', hk⟩ := h.rotate
  rw [join_flip, join_flip] at h'
  exact ⟨s', hs, h', hk⟩

/-! ## After an insertion -/

/-- The parent is painted black, the grandparent red, and the parent goes above it. -/
theorem raise (h : At s (join cis c (join cis d x p y) g z) cs) :
    ∃ s', ((s.setRed p false).setRed g true).rotate cis.flip g = some s' ∧
      At s' (join cis false x p (join cis true y g z)) cs ∧ s'.key = s.key := by
  have hp := down.mpr ((down.mp h).setRed false)
  obtain ⟨s', hs, h', hk⟩ := (hp.setRed true).rotate_flip
  exact ⟨s', hs, h', hk⟩

/-- A red uncle. -/
theorem rebalance_uncle {p g : Crumb Nat} (h : At s t (p :: g :: cs)) (hu : g.other.isRed = true) :
    ∃ s', s.rebalanceAfterInsert g.side i p.a = some (s', g.a) ∧
      At s' (join g.side true (join p.side false t p.a p.other) g.a (g.other.paint false)) cs ∧
      s'.key = s.key := by
  have hg := down.mpr (down.mpr h)
  obtain ⟨-, -, hgp, hgu⟩ := hg.fields
  have hparent := (down.mpr h).parent (ptr_join ..)
  obtain ⟨u, hptr⟩ := exists_ptr hu
  have hred := (down_flip.mp hg).redAt
  rw [hptr] at hgu
  rw [hptr, hu] at hred
  have hpaint := down_flip.mpr ((down_flip.mp hg).paint hptr false)
  have hraise := (down.mpr ((down.mp hpaint).setRed false)).setRed true
  refine ⟨_, ?_, hraise, rfl⟩
  rw [Tree.rebalanceAfterInsert, hparent]
  simp only [top, Option.bind_eq_bind, Option.bind_some, hgu, hred]
  rfl

/-- The rotation of the parent, if it is needed. -/
theorem turnParent {p g : Crumb Nat} (h : At s t (p :: g :: cs)) (hi : t.ptr = some i)
    (hred : p.red = true) :
    ∃ s' j q c x y, s.turnParent g.side i p.a = some (s', j, q) ∧ x.ptr = some j ∧
      At s' (join g.side g.red (join g.side c x q y) g.a g.other) cs ∧ s'.key = s.key ∧
      insertTurn t p g = join g.side false x q (join g.side true y g.a g.other) := by
  obtain ⟨ps, pr, pa, po⟩ := p
  have hp := down.mpr h
  obtain ⟨-, -, hpt, hpo⟩ := hp.fields
  rw [Tree.turnParent]
  by_cases hside : ps = g.side
  · cases hside
    have hne : ¬ some i = s.child g.side.flip pa := fun he =>
      hp.other_ne hi (hpo.symm.trans he.symm)
    refine ⟨s, i, pa, pr, t, po, if_neg hne, hi, down.mpr hp, rfl, ?_⟩
    rw [insertTurn.eq_def]
    exact if_pos rfl
  · have hps := Side.eq_flip hside
    cases hps
    cases (show pr = true from hred)
    cases t with
    | nil => cases hi
    | node red l a r =>
        cases hi
        have ht := hp
        rw [join_flip, node_eq_join g.side red l i r] at ht
        obtain ⟨s', hs, h', hk⟩ := ht.rotate
        have hparent := (down.mp h').parent (ptr_join ..)
        refine ⟨s', pa, i, red, _, _, ?_, ptr_join .., down.mpr h', hk, ?_⟩
        · refine (if_pos (show some i = s.child g.side.flip pa from hpt.symm)).trans ?_
          simp only [Option.bind_eq_bind, hs, Option.bind_some, hparent]
          rfl
        · rw [insertTurn.eq_def]
          exact if_neg hside

/-- A black uncle: the tree that takes the place of the grandparent has a black root. -/
theorem rebalance_black {p g : Crumb Nat} (h : At s t (p :: g :: cs)) (hi : t.ptr = some i)
    (hred : p.red = true) (hu : g.other.isRed = false) :
    ∃ s' j, s.rebalanceAfterInsert g.side i p.a = some (s', j) ∧ At s' (insertTurn t p g) cs ∧
      s'.key = s.key ∧ ∃ q, s'.parent j = some q ∧ s'.red q = false := by
  have hg := down.mpr (down.mpr h)
  obtain ⟨-, -, -, hgu⟩ := hg.fields
  have hparent := (down.mpr h).parent (ptr_join ..)
  have hblack := (down_flip.mp hg).redAt
  rw [hu, ← hgu] at hblack
  obtain ⟨s₁, j, q, c, x, y, hturn, hj, h₁, hk₁, heq⟩ := h.turnParent hi hred
  obtain ⟨s₂, hs₂, h₂, hk₂⟩ := h₁.raise
  refine ⟨s₂, j, ?_, heq ▸ h₂, hk₂.trans hk₁, q, (down.mp h₂).parent hj, h₂.fields.1⟩
  rw [Tree.rebalanceAfterInsert, hparent]
  simp only [top, Option.bind_eq_bind, Option.bind_some, hblack, hturn, hs₂]
  cases s.child g.side.flip g.a with
  | none | some => rfl

end At

namespace Tree

variable {s : Tree κ} {n i p : Nat}

theorem insertLoop_top : insertLoop n s i none = some s := by
  cases n with
  | zero | succ => rfl

theorem insertLoop_black (h : s.red p = false) : insertLoop n s i (some p) = some s := by
  rw [insertLoop.eq_def]
  simp only [h, Bool.false_eq_true, if_false]

theorem insertLoop_red {g j : Nat} {cis : Side} {s' : Tree κ} (h : s.red p = true)
    (hg : s.parent p = some g) (hside : (if some p = s.left g then Side.left else .right) = cis)
    (hs : s.rebalanceAfterInsert cis i p = some (s', j)) :
    insertLoop (n + 1) s i (some p) = insertLoop n s' j (s'.parent j) := by
  rw [insertLoop, if_pos h]
  simp only [Option.bind_eq_bind, hg, Option.bind_some, hside, hs]

end Tree

namespace At

variable {s s' : Tree κ} {t : RBTree Nat} {cs : List (Crumb Nat)} {i n turns : Nat}

/-- The second loop of `tree_add`. -/
theorem insertLoop (h : At s t cs) (hole : Hole cs n) (hi : t.ptr = some i)
    (hturns : cs.length ≤ turns) :
    ∃ s', Tree.insertLoop turns s i (top cs) = some s' ∧ At s' (insertFix t cs) [] ∧
      s'.key = s.key := by
  fun_induction insertFix t cs generalizing s i n turns with
  | case1 t => exact ⟨s, Tree.insertLoop_top, h, rfl⟩
  | case2 t p =>
      cases hole with
      | red _ _ _ hc => cases hc
      | black => exact ⟨s, Tree.insertLoop_black (down.mpr h).fields.1, down.mpr h, rfl⟩
  | case3 t p g cs hp hg ih =>
      have hside := (down.mpr (down.mpr h)).side (ptr_join ..)
      have hparent := (down.mpr h).parent (ptr_join ..)
      have hred := (down.mpr h).fields.1.trans hp
      obtain ⟨s₁, hs₁, h₁, hk₁⟩ := h.rebalance_uncle (i := i) hg
      cases turns with
      | zero => cases hturns
      | succ turns =>
          cases hole with
          | black => cases hp
          | red ho hob hole hc =>
              cases hole with
              | red => cases hc
              | black hu hole =>
                  have hle : cs.length ≤ turns :=
                    Nat.le_of_succ_le (Nat.le_of_succ_le_succ hturns)
                  obtain ⟨s₂, hs₂, h₂, hk₂⟩ := ih h₁ hole (ptr_join ..) hle
                  refine ⟨s₂, (Tree.insertLoop_red hred hparent hside hs₁).trans ?_, h₂,
                    hk₂.trans hk₁⟩
                  rw [h₁.parent (ptr_join ..), hs₂]
  | case4 t p g cs hp hg =>
      have hside := (down.mpr (down.mpr h)).side (ptr_join ..)
      have hparent := (down.mpr h).parent (ptr_join ..)
      have hred := (down.mpr h).fields.1.trans hp
      obtain ⟨s₁, j, hs₁, h₁, hk₁, q, hq, hblack⟩ :=
        h.rebalance_black hi hp (Bool.eq_false_of_not_eq_true hg)
      cases turns with
      | zero => cases hturns
      | succ turns =>
          refine ⟨s₁, (Tree.insertLoop_red hred hparent hside hs₁).trans ?_, h₁.whole, hk₁⟩
          rw [hq, Tree.insertLoop_black hblack]
  | case5 t p g cs hp =>
      have hblack := (down.mpr h).fields.1.trans (Bool.eq_false_of_not_eq_true hp)
      exact ⟨s, Tree.insertLoop_black hblack, h.whole, rfl⟩

end At

/-! ## After a removal -/

namespace Tree

variable {s s' : Tree κ} {n p b : Nat} {node : Option Nat} {cis : Side} {r : Tree κ × Bool}

theorem rebalanceAfterRemove_eq (hs : s.raiseSibling cis p = some (s', b))
    (hr : s'.reorderSibling cis p b = some r) : s.rebalanceAfterRemove cis p = some r := by
  rw [rebalanceAfterRemove, hs]
  exact hr

/-- A turn of the loop of `tree_del`. -/
theorem deleteLoop_succ (hroot : node ≠ s.root)
    (hside : (if node = s.left p then Side.left else .right) = cis)
    (hr : s.rebalanceAfterRemove cis p = some r) :
    deleteLoop (n + 1) s node (some p) =
      if r.2 then some (r.1, r.1.root)
      else if r.1.red p then some (r.1, some p) else deleteLoop n r.1 (some p) (r.1.parent p) := by
  rw [deleteLoop, if_neg hroot]
  simp only [Option.bind_eq_bind, Option.bind_some, hside, hr]
  obtain ⟨s', out⟩ := r
  cases out with
  | true | false => rfl

end Tree

namespace At

variable {s s' : Tree κ} {t t' x y sib : RBTree Nat} {cs : List (Crumb Nat)} {cis : Side}
  {c d red : Bool} {l r : RBTree Nat} {a b i n turns : Nat}

theorem paintOf (h : At s t cs) (d : Bool) : At (s.setRedOf t.ptr d) (t.paint d) cs := by
  cases ht : t.ptr with
  | none =>
      cases t with
      | nil => exact h
      | node => cases ht
  | some i => exact h.paint ht d

theorem key_setRedOf {p : Option Nat} {d : Bool} : (s.setRedOf p d).key = s.key := by
  cases p with
  | none | some => rfl

/-- A black sibling stays where it is. -/
theorem raiseSibling_black (h : At s (join cis c t a sib) cs) (hb : sib.ptr = some b)
    (hblack : sib.isRed = false) : s.raiseSibling cis a = some (s, b) := by
  obtain ⟨-, -, -, hsib⟩ := h.fields
  have hred := (down_flip.mp h).redAt
  rw [hb, hblack] at hred
  rw [Tree.raiseSibling, hsib, hb]
  exact if_neg (ne_true_of_eq_false hred)

/-- A red sibling goes above the parent, and one of its children is the sibling then. -/
theorem raiseSibling_red (h : At s (join cis c t a (join cis true x b y)) cs)
    (hx : x.ptr = some i) :
    ∃ s', s.raiseSibling cis a = some (s', i) ∧
      At s' (join cis true t a x) (⟨cis, false, b, y⟩ :: cs) ∧ s'.key = s.key := by
  obtain ⟨-, -, -, hsib⟩ := h.fields
  rw [ptr_join] at hsib
  have hred := (down_flip.mp h).fields.1
  have hpaint := down_flip.mpr ((down_flip.mp h).setRed false)
  obtain ⟨s', hs, h', hk⟩ := (hpaint.setRed true).rotate
  have hi := (down.mp h').fields.2.2.2
  refine ⟨s', ?_, down.mp h', hk⟩
  rw [Tree.raiseSibling, hsib]
  simp only [Option.bind_eq_bind, Option.bind_some]
  rw [if_pos hred, hs]
  simp only [Option.bind_some, hi, hx]
  rfl

/-- The rotation of the sibling, if it is needed: its far child is red then. -/
theorem turnSibling (h : At s (join cis red t a sib) cs) (hb : sib.ptr = some b)
    (ht : deleteTurn cis red t a sib = some t') :
    ∃ s' m f d x y, s.turnSibling cis a b = some (s', m) ∧
      At s' (join cis red t a (join cis d x m y)) cs ∧ y.ptr = some f ∧
      t' = join cis red (join cis false t a x) m (y.paint false) ∧ s'.key = s.key := by
  cases sib with
  | nil => cases hb
  | node d l m r =>
      cases hb
      have hsib := h
      rw [node_eq_join cis d l b r] at hsib
      obtain ⟨-, -, hnear, hfar⟩ := (down_flip.mp hsib).fields
      have hred := (down_flip.mp (down_flip.mp hsib)).redAt
      rw [deleteTurn] at ht
      rw [Tree.turnSibling, hfar, hred]
      split at ht
      · next hf =>
          cases ht
          obtain ⟨f, hptr⟩ := exists_ptr hf
          exact ⟨s, b, f, d, _, _, if_pos hf, hsib, hptr, rfl, rfl⟩
      · next hf =>
          split at ht
          · next nl m nr hn =>
              cases ht
              rw [hn, node_eq_join cis true nl m nr] at hsib
              rw [hn] at hnear
              have hpaint := down.mpr ((down.mp (down_flip.mp hsib)).setRed false)
              obtain ⟨s', hs, h', hk⟩ := (hpaint.setRed true).rotate_flip
              have hm := (down_flip.mpr h').fields.2.2.2
              rw [ptr_join] at hm
              refine ⟨s', m, b, false, _, _, ?_, down_flip.mpr h', ptr_join .., ?_, hk⟩
              · rw [if_neg hf, hnear]
                simp only [ptr, Option.bind_eq_bind, Option.bind_some, hs, hm]
                rfl
              · rw [paint_join]
          · cases ht

/-- A red child of the sibling, as the code finds it out. -/
theorem redAt_children (h : At s (join cis c t a (node d l b r)) cs) :
    (s.redAt (s.left b) || s.redAt (s.right b)) = (l.isRed || r.isRed) := by
  have hsib : At s (join .left d l b r) _ := down_flip.mp h
  obtain ⟨-, -, hl, hr⟩ := hsib.fields
  have hleft := (down.mp hsib).redAt
  have hright := (down_flip.mp hsib).redAt
  rw [← hl] at hleft
  rw [← hr] at hright
  exact congrArg₂ _ hleft hright

/-- The nodes below the parent are put in another order. -/
theorem reorderSibling (h : At s (join cis red t a sib) cs) (hb : sib.ptr = some b)
    (ht : deleteTurn cis red t a sib = some t') :
    ∃ s', s.reorderSibling cis a b = some (s', true) ∧ At s' t' cs ∧ s'.key = s.key := by
  obtain ⟨s₁, m, f, d, x, y, hs₁, h₁, hf, rfl, hk₁⟩ := h.turnSibling hb ht
  have hcond : s.redAt (s.left b) || s.redAt (s.right b) := by
    cases sib with
    | nil => cases hb
    | node d l i r =>
        cases hb
        rw [h.redAt_children]
        exact deleteTurn_some ht
  have hm := down_flip.mpr ((down_flip.mp h₁).setRed red)
  have hfar := (down_flip.mp hm).fields.2.2.2
  have hpaint := down_flip.mpr (down_flip.mpr ((down_flip.mp (down_flip.mp hm)).paint hf false))
  obtain ⟨s₂, hs₂, h₂, hk₂⟩ := (hpaint.setRed false).rotate
  refine ⟨s₂, ?_, h₂, hk₂.trans hk₁⟩
  rw [Tree.reorderSibling, if_pos hcond, hs₁]
  simp only [Option.bind_eq_bind, Option.bind_some, h₁.fields.1, hfar, hf, hs₂]
  rfl

/-- Or the sibling is painted red. -/
theorem reorderSibling_none (h : At s (join cis red t a sib) cs) (hb : sib.ptr = some b)
    (ht : deleteTurn cis red t a sib = none) :
    s.reorderSibling cis a b = some (s.setRed b true, false) ∧
      At (s.setRed b true) (join cis red t a (sib.paint true)) cs := by
  refine ⟨?_, down_flip.mpr ((down_flip.mp h).paint hb true)⟩
  cases sib with
  | nil => cases hb
  | node d l i r =>
      cases hb
      rw [Tree.reorderSibling, h.redAt_children, if_neg]
      have hl : l.isRed = false := deleteTurn_none ht .left
      have hr : r.isRed = false := deleteTurn_none ht .right
      rw [hl, hr]
      decide

/-- What is in a hole is not the root. -/
theorem ptr_ne_root {p : Crumb Nat} (h : At s t (p :: cs)) : t.ptr ≠ s.root := by
  have hroot : s.root = (RBTree.plug t (p :: cs)).ptr := h.whole.around
  obtain ⟨j, hj, hp⟩ := ptr_plug_cons p cs
  rw [hroot, hp]
  exact fun he => h.parts.2.2 j (mem_of_ptr he) hj

/-- The side of what is in a hole, if there is something on the other side. -/
theorem side_of_other {p : Crumb Nat} (h : At s t (p :: cs)) (hb : p.other.ptr = some b) :
    (if t.ptr = s.left p.a then Side.left else .right) = p.side := by
  obtain ⟨-, -, hx, hy⟩ := (down.mpr h).fields
  obtain ⟨side, red, a, o⟩ := p
  cases side with
  | left => exact if_pos hx.symm
  | right =>
      refine if_neg fun he => ?_
      have ht : t.ptr = some b := he.trans (hy.trans hb)
      exact (down.mpr h).other_ne ht hb

/-- The loop of `tree_del`. -/
theorem deleteLoop (h : At s t cs) (hole : Hole cs (n + 1)) (ht : Balanced t n)
    (hblack : t.isRed = false) (hturns : cs.length < turns) :
    ∃ s' j, Tree.deleteLoop turns s t.ptr (top cs) = some (s', j) ∧
      At (s'.setRedOf j false) (deleteFix t cs) [] ∧ s'.key = s.key := by
  induction cs generalizing s t n turns with
  | nil =>
      cases turns with
      | zero => cases hturns
      | succ turns =>
          have hroot : t.ptr = s.root := h.around.symm
          exact ⟨s, t.ptr, if_pos hroot, h.paintOf false, rfl⟩
  | cons p cs ih =>
      obtain ⟨ps, pr, pa, po⟩ := p
      obtain ⟨ho, hup, hred⟩ := hole.up
      cases turns with
      | zero => cases hturns
      | succ turns =>
          cases po with
          | nil => cases ho
          | node c l b r =>
              have hne := h.ptr_ne_root
              have hside := h.side_of_other rfl
              cases c with
              | true =>
                  obtain ⟨hnear, hnb⟩ := ho.child_red rfl ps
                  obtain ⟨d, x, i, y, hx⟩ := hnear.exists_node ps
                  have hptr : ((node true l b r).child ps).ptr = some i := by
                    rw [hx, ptr_join]
                  have hjoin := down.mpr h
                  rw [node_eq_join ps true l b r] at hjoin
                  obtain ⟨s₁, hs₁, h₁, hk₁⟩ := hjoin.raiseSibling_red hptr
                  simp only [deleteFix]
                  split
                  · next t' ht' =>
                      obtain ⟨s₂, hs₂, h₂, hk₂⟩ := h₁.reorderSibling hptr ht'
                      have hturn := Tree.deleteLoop_succ (n := turns) hne hside
                        (Tree.rebalanceAfterRemove_eq hs₁ hs₂)
                      have hroot : s₂.root = (RBTree.plug t' _).ptr := h₂.whole.around
                      refine ⟨s₂, s₂.root, hturn, ?_, hk₂.trans hk₁⟩
                      rw [hroot]
                      exact h₂.whole.paintOf false
                  · next hnone =>
                      obtain ⟨hs₂, h₂⟩ := h₁.reorderSibling_none hptr hnone
                      have hturn := Tree.deleteLoop_succ (n := turns) hne hside
                        (Tree.rebalanceAfterRemove_eq hs₁ hs₂)
                      refine ⟨_, some pa, hturn.trans (if_pos h₂.fields.1), ?_, hk₁⟩
                      exact (h₂.setRed false).whole
              | false =>
                  have hs₁ := (down.mpr h).raiseSibling_black rfl rfl
                  simp only [deleteFix]
                  split
                  · next t' ht' =>
                      obtain ⟨s₂, hs₂, h₂, hk₂⟩ := (down.mpr h).reorderSibling rfl ht'
                      have hturn := Tree.deleteLoop_succ (n := turns) hne hside
                        (Tree.rebalanceAfterRemove_eq hs₁ hs₂)
                      have hroot : s₂.root = (RBTree.plug t' _).ptr := h₂.whole.around
                      refine ⟨s₂, s₂.root, hturn, ?_, hk₂⟩
                      rw [hroot]
                      exact h₂.whole.paintOf false
                  · next hnone =>
                      obtain ⟨hs₂, h₂⟩ := (down.mpr h).reorderSibling_none rfl hnone
                      have hturn := Tree.deleteLoop_succ (n := turns) hne hside
                        (Tree.rebalanceAfterRemove_eq hs₁ hs₂)
                      split
                      · next hp =>
                          refine ⟨_, some pa, hturn.trans (if_pos (h₂.fields.1.trans hp)), ?_, rfl⟩
                          exact (h₂.setRed false).whole
                      · next hp =>
                          cases (Bool.eq_false_of_not_eq_true hp : pr = false)
                          have hn : Balanced (join ps false t pa (node true l b r)) (n + 1) :=
                            .join_black ht (ho.paint_true rfl (deleteTurn_none hnone))
                          have hlt : cs.length < turns := Nat.lt_of_succ_lt_succ hturns
                          obtain ⟨s', j, hs', h', hk⟩ := ih h₂ hup hn (isRed_join ..) hlt
                          rw [ptr_join] at hs'
                          rw [← h₂.parent (ptr_join ..)] at hs'
                          refine ⟨s', j, hturn.trans (.trans ?_ hs'), h', hk⟩
                          exact if_neg (ne_true_of_eq_false h₂.fields.1)

end At

end Ztk.Wepoll
