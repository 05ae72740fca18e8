import Ztk.Wepoll.Tree

/-!
# The tree that the pointers make

`Holds` says that the fields of the nodes spell out a tree, and `Around` that they spell out
what is around a hole; `At` is a tree in its hole, with no node in it twice.  Painting and
rotation of a node in the hole are those of the tree.
-/

namespace Ztk.Lib.RBTree

variable {α : Type}

/-- The element at the root. -/
def ptr : RBTree α → Option α
  | nil => none
  | node _ _ a _ => some a

@[simp] theorem ptr_join (cis : Side) (red : Bool) (x : RBTree α) (a : α) (y : RBTree α) :
    (join cis red x a y).ptr = some a := by
  cases cis with
  | left | right => rfl

@[simp] theorem ptr_paint (red : Bool) : ∀ t : RBTree α, (t.paint red).ptr = t.ptr
  | nil | node _ _ _ _ => rfl

theorem exists_ptr : ∀ {t : RBTree α}, t.isRed = true → ∃ a, t.ptr = some a
  | node _ _ a _, _ => ⟨a, rfl⟩

theorem mem_of_ptr : ∀ {t : RBTree α} {a : α}, t.ptr = some a → a ∈ t.toList
  | node _ _ _ _, _, h => by
      cases h
      exact List.mem_append_right _ List.mem_cons_self

/-- The parent of what is in a hole. -/
def top : List (Crumb α) → Option α
  | [] => none
  | c :: _ => some c.a

/-- The elements around a hole. -/
def around : List (Crumb α) → List α
  | [] => []
  | c :: cs => c.a :: (c.other.toList ++ around cs)

theorem mem_of_top : ∀ {cs : List (Crumb α)} {a : α}, top cs = some a → a ∈ around cs
  | _ :: _, _, h => by
      cases h
      exact List.mem_cons_self

theorem toList_join_perm (cis : Side) (red : Bool) (x : RBTree α) (a : α) (y : RBTree α) :
    (join cis red x a y).toList.Perm (a :: (x.toList ++ y.toList)) := by
  cases cis with
  | left => exact List.perm_middle
  | right => exact List.perm_middle.trans (.cons a List.perm_append_comm)

theorem toList_plug_perm (t : RBTree α) (cs : List (Crumb α)) :
    (plug t cs).toList.Perm (t.toList ++ around cs) := by
  induction cs generalizing t with
  | nil => exact .of_eq (List.append_nil _).symm
  | cons c cs ih =>
      refine (ih _).trans (((toList_join_perm ..).append_right _).trans ?_)
      rw [around, List.cons_append, List.append_assoc]
      exact List.perm_middle.symm

/-- The root is around every hole but that of the whole tree. -/
theorem ptr_plug_cons (c : Crumb α) (cs : List (Crumb α)) :
    ∃ a ∈ around (c :: cs), ∀ t, (plug t (c :: cs)).ptr = some a := by
  induction cs generalizing c with
  | nil => exact ⟨c.a, List.mem_cons_self, fun _ => ptr_join ..⟩
  | cons d cs ih =>
      obtain ⟨a, ha, hp⟩ := ih d
      exact ⟨a, List.mem_cons_of_mem _ (List.mem_append_right _ ha), fun _ => hp _⟩

end Ztk.Lib.RBTree

namespace Ztk.Wepoll

open Ztk.Lib RBTree

variable {κ : Type}

/-! ## Fields -/

namespace Tree

variable {s : Tree κ} {i j : Nat} {side : Side} {p q : Option Nat} {b : Bool}

@[simp] theorem child_setParent : (s.setParent i p).child side = s.child side := by
  cases side with
  | left | right => rfl

@[simp] theorem child_setRed : (s.setRed i b).child side = s.child side := by
  cases side with
  | left | right => rfl

@[simp] theorem parent_setChild : (s.setChild side i p).parent = s.parent := by
  cases side with
  | left | right => rfl

@[simp] theorem red_setChild : (s.setChild side i p).red = s.red := by
  cases side with
  | left | right => rfl

@[simp] theorem key_setChild : (s.setChild side i p).key = s.key := by
  cases side with
  | left | right => rfl

@[simp] theorem root_setChild : (s.setChild side i p).root = s.root := by
  cases side with
  | left | right => rfl

@[simp] theorem child_setChild_self : (s.setChild side i p).child side i = p := by
  cases side with
  | left | right => exact Function.update_self ..

@[simp] theorem child_setChild_flip :
    (s.setChild side.flip i p).child side = s.child side := by
  cases side with
  | left | right => rfl

@[simp] theorem child_flip_setChild :
    (s.setChild side i p).child side.flip = s.child side.flip := by
  cases side with
  | left | right => rfl

theorem child_setChild_of_ne {side' : Side} (h : j ≠ i) :
    (s.setChild side i p).child side' j = s.child side' j := by
  cases side with
  | left =>
      cases side' with
      | left => exact Function.update_of_ne h ..
      | right => rfl
  | right =>
      cases side' with
      | left => rfl
      | right => exact Function.update_of_ne h ..

@[simp] theorem child_setParentOf : (s.setParentOf p q).child side = s.child side := by
  cases p with
  | none => rfl
  | some i => exact child_setParent

@[simp] theorem red_setParentOf : (s.setParentOf p q).red = s.red := by
  cases p with
  | none | some => rfl

@[simp] theorem key_setParentOf : (s.setParentOf p q).key = s.key := by
  cases p with
  | none | some => rfl

@[simp] theorem root_setParentOf : (s.setParentOf p q).root = s.root := by
  cases p with
  | none | some => rfl

theorem parent_setParentOf_of_ne (h : p ≠ some j) : (s.setParentOf p q).parent j = s.parent j := by
  cases p with
  | none => rfl
  | some i => exact Function.update_of_ne (fun he => h (congrArg some he.symm)) ..

theorem parent_setParentOf_self : (s.setParentOf (some i) q).parent i = q :=
  Function.update_self ..

/-- The children of a node, its colour and its parent are what they were. -/
structure Same (s s' : Tree κ) (j : Nat) : Prop where
  child : ∀ side, s'.child side j = s.child side j
  red : s'.red j = s.red j
  parent : s'.parent j = s.parent j

end Tree

/-! ## Shapes -/

/-- The tree is there, below `parent`. -/
def Holds (s : Tree κ) (parent : Option Nat) : RBTree Nat → Prop
  | nil => True
  | node red l i r =>
      s.red i = red ∧ s.parent i = parent ∧ s.left i = l.ptr ∧ s.right i = r.ptr ∧
        Holds s (some i) l ∧ Holds s (some i) r

theorem holds_join {s : Tree κ} {parent : Option Nat} {cis : Side} {red : Bool} {x y : RBTree Nat}
    {i : Nat} : Holds s parent (join cis red x i y) ↔ s.red i = red ∧ s.parent i = parent ∧
      s.child cis i = x.ptr ∧ s.child cis.flip i = y.ptr ∧ Holds s (some i) x ∧
      Holds s (some i) y := by
  cases cis with
  | left => exact Iff.rfl
  | right =>
      refine and_congr_right fun _ => and_congr_right fun _ => ?_
      exact ⟨fun ⟨hl, hr, hx, hy⟩ => ⟨hr, hl, hy, hx⟩, fun ⟨hr, hl, hy, hx⟩ => ⟨hl, hr, hx, hy⟩⟩

theorem Holds.congr {s s' : Tree κ} {parent : Option Nat} {t : RBTree Nat}
    (h : Holds s parent t) (hs : ∀ j ∈ t.toList, s.Same s' j) : Holds s' parent t := by
  induction t generalizing parent with
  | nil => trivial
  | node red l i r ihl ihr =>
      obtain ⟨hred, hparent, hl, hr, hbl, hbr⟩ := h
      have hi := hs i (List.mem_append_right _ List.mem_cons_self)
      exact ⟨hi.red.trans hred, hi.parent.trans hparent, (hi.child .left).trans hl,
        (hi.child .right).trans hr, ihl hbl fun j hj => hs j (List.mem_append_left _ hj),
        ihr hbr fun j hj => hs j (List.mem_append_right _ (List.mem_cons_of_mem _ hj))⟩

/-- The tree gets another parent. -/
theorem Holds.move {s s' : Tree κ} {parent parent' : Option Nat} {t : RBTree Nat}
    (h : Holds s parent t) (hn : t.toList.Nodup)
    (hchild : ∀ j ∈ t.toList, ∀ side, s'.child side j = s.child side j)
    (hred : ∀ j ∈ t.toList, s'.red j = s.red j)
    (hparent : ∀ j ∈ t.toList, t.ptr ≠ some j → s'.parent j = s.parent j)
    (hroot : ∀ j, t.ptr = some j → s'.parent j = parent') : Holds s' parent' t := by
  cases t with
  | nil => trivial
  | node red l i r =>
      obtain ⟨hr, -, hl, hrt, hbl, hbr⟩ := h
      obtain ⟨-, hir, hdisj⟩ := List.nodup_append.mp hn
      have hi : i ∈ (node red l i r).toList := List.mem_append_right _ List.mem_cons_self
      refine ⟨(hred i hi).trans hr, hroot i rfl, (hchild i hi .left).trans hl,
        (hchild i hi .right).trans hrt, hbl.congr fun j hj => ?_, hbr.congr fun j hj => ?_⟩
      · have hm : j ∈ (node red l i r).toList := List.mem_append_left _ hj
        exact ⟨hchild j hm, hred j hm, hparent j hm fun he =>
          hdisj j hj i List.mem_cons_self (Option.some.inj he).symm⟩
      · have hm : j ∈ (node red l i r).toList :=
          List.mem_append_right _ (List.mem_cons_of_mem _ hj)
        refine ⟨hchild j hm, hred j hm, hparent j hm fun he => ?_⟩
        cases he
        exact (List.nodup_cons.mp hir).1 hj

/-- What is around a hole is there, and `hole` is the pointer into it. -/
def Around (s : Tree κ) : Option Nat → List (Crumb Nat) → Prop
  | hole, [] => s.root = hole
  | hole, c :: cs =>
      s.red c.a = c.red ∧ s.parent c.a = top cs ∧ s.child c.side c.a = hole ∧
        s.child c.side.flip c.a = c.other.ptr ∧ Holds s (some c.a) c.other ∧
        Around s (some c.a) cs

theorem Around.congr {s s' : Tree κ} {hole : Option Nat} {cs : List (Crumb Nat)}
    (h : Around s hole cs) (hroot : s'.root = s.root) (hs : ∀ j ∈ around cs, s.Same s' j) :
    Around s' hole cs := by
  induction cs generalizing hole with
  | nil => exact hroot.trans h
  | cons c cs ih =>
      obtain ⟨hred, hparent, hside, hflip, ho, h⟩ := h
      have hc := hs c.a List.mem_cons_self
      exact ⟨hc.red.trans hred, hc.parent.trans hparent, (hc.child _).trans hside,
        (hc.child _).trans hflip,
        ho.congr fun j hj => hs j (List.mem_cons_of_mem _ (List.mem_append_left _ hj)),
        ih h fun j hj => hs j (List.mem_cons_of_mem _ (List.mem_append_right _ hj))⟩

namespace Tree

/-- Put another pointer into a hole. -/
def link (s : Tree κ) (cs : List (Crumb Nat)) (q : Option Nat) : Tree κ :=
  match cs with
  | [] => { s with root := q }
  | c :: _ => s.setChild c.side c.a q

variable {s : Tree κ} {cs : List (Crumb Nat)} {q : Option Nat} {j : Nat}

@[simp] theorem red_link : (s.link cs q).red = s.red := by
  cases cs with
  | nil => rfl
  | cons => exact red_setChild

@[simp] theorem parent_link : (s.link cs q).parent = s.parent := by
  cases cs with
  | nil => rfl
  | cons => exact parent_setChild

@[simp] theorem key_link : (s.link cs q).key = s.key := by
  cases cs with
  | nil => rfl
  | cons => exact key_setChild

theorem child_link {side : Side} (h : top cs ≠ some j) :
    (s.link cs q).child side j = s.child side j := by
  cases cs with
  | nil =>
      cases side with
      | left | right => rfl
  | cons c cs => exact child_setChild_of_ne fun he => h (congrArg some he.symm)

/-- Where `p` is in the hole, and nowhere else around it. -/
theorem relink_eq {p : Nat} (h : Around s (some p) cs) (hp : p ∉ around cs) :
    s.relink (top cs) p q = s.link cs q := by
  cases cs with
  | nil => rfl
  | cons c cs =>
      obtain ⟨side, red, a, o⟩ := c
      obtain ⟨-, -, hside, hflip, -⟩ := h
      rw [top, relink]
      cases side with
      | left => exact if_pos hside
      | right =>
          refine if_neg fun he => hp ?_
          have ho : o.ptr = some p := hflip.symm.trans he
          exact List.mem_cons_of_mem _ (List.mem_append_left _ (mem_of_ptr ho))

end Tree

theorem Around.link {s : Tree κ} {hole q : Option Nat} {cs : List (Crumb Nat)}
    (h : Around s hole cs) (hn : (around cs).Nodup) : Around (s.link cs q) q cs := by
  cases cs with
  | nil => rfl
  | cons c cs =>
      obtain ⟨hred, hparent, -, hflip, ho, h⟩ := h
      obtain ⟨hc, -⟩ := List.nodup_cons.mp hn
      have hsame : ∀ j, j ≠ c.a → s.Same (s.setChild c.side c.a q) j := fun j hj =>
        ⟨fun _ => Tree.child_setChild_of_ne hj, by rw [Tree.red_setChild],
          by rw [Tree.parent_setChild]⟩
      refine ⟨?_, ?_, Tree.child_setChild_self, ?_, ho.congr fun j hj => hsame j ?_,
        h.congr Tree.root_setChild fun j hj => hsame j ?_⟩
      · rw [Tree.link, Tree.red_setChild, hred]
      · rw [Tree.link, Tree.parent_setChild, hparent]
      · rw [Tree.link, Tree.child_flip_setChild, hflip]
      · rintro rfl
        exact hc (List.mem_append_left _ hj)
      · rintro rfl
        exact hc (List.mem_append_right _ hj)

/-- A tree in its hole. -/
structure At (s : Tree κ) (t : RBTree Nat) (cs : List (Crumb Nat)) : Prop where
  tree : Holds s (top cs) t
  around : Around s t.ptr cs
  nodup : (plug t cs).toList.Nodup

namespace At

variable {s s' : Tree κ} {t x y z : RBTree Nat} {cs : List (Crumb Nat)} {cis : Side} {c d : Bool}
  {p q i : Nat}

theorem parts (h : At s t cs) :
    t.toList.Nodup ∧ (RBTree.around cs).Nodup ∧ ∀ j ∈ t.toList, j ∉ RBTree.around cs := by
  obtain ⟨ht, hc, hdisj⟩ := List.nodup_append.mp ((toList_plug_perm t cs).nodup_iff.mp h.nodup)
  exact ⟨ht, hc, fun j hj hm => hdisj j hj j hm rfl⟩

/-- From a node to its child on the side `cis`. -/
theorem down : At s (join cis c x i y) cs ↔ At s x (⟨cis, c, i, y⟩ :: cs) := by
  constructor
  · rintro ⟨ht, ha, hn⟩
    obtain ⟨hred, hparent, hx, hy, hbx, hby⟩ := holds_join.mp ht
    rw [ptr_join] at ha
    exact ⟨hbx, ⟨hred, hparent, hx, hy, hby, ha⟩, hn⟩
  · rintro ⟨hbx, ⟨hred, hparent, hx, hy, hby, ha⟩, hn⟩
    exact ⟨holds_join.mpr ⟨hred, hparent, hx, hy, hbx, hby⟩, by rw [ptr_join]; exact ha, hn⟩

/-- From a node to its other child. -/
theorem down_flip : At s (join cis c x i y) cs ↔ At s y (⟨cis.flip, c, i, x⟩ :: cs) := by
  rw [← join_flip, down]

theorem fields (h : At s (join cis c x i y) cs) :
    s.red i = c ∧ s.parent i = top cs ∧ s.child cis i = x.ptr ∧ s.child cis.flip i = y.ptr := by
  obtain ⟨hred, hparent, hx, hy, -⟩ := holds_join.mp h.tree
  exact ⟨hred, hparent, hx, hy⟩

/-- The colour of a node in the hole. -/
theorem setRed (h : At s (join cis c x i y) cs) (d : Bool) :
    At (s.setRed i d) (join cis d x i y) cs := by
  obtain ⟨ht, -, hdisj⟩ := h.parts
  obtain ⟨hi, -⟩ := List.nodup_cons.mp ((toList_join_perm ..).nodup_iff.mp ht)
  obtain ⟨-, hparent, hx, hy, hbx, hby⟩ := holds_join.mp h.tree
  have hsame : ∀ j, j ≠ i → s.Same (s.setRed i d) j := fun j hj =>
    ⟨fun _ => by rw [Tree.child_setRed], Function.update_of_ne hj .., rfl⟩
  refine ⟨holds_join.mpr ⟨Function.update_self .., hparent, ?_, ?_,
    hbx.congr fun j hj => hsame j ?_, hby.congr fun j hj => hsame j ?_⟩, ?_, ?_⟩
  · rw [Tree.child_setRed, hx]
  · rw [Tree.child_setRed, hy]
  · rintro rfl
    exact hi (List.mem_append_left _ hj)
  · rintro rfl
    exact hi (List.mem_append_right _ hj)
  · have ha := h.around
    rw [ptr_join] at ha ⊢
    refine ha.congr rfl fun j hj => hsame j ?_
    rintro rfl
    exact hdisj j ((toList_join_perm ..).mem_iff.mpr List.mem_cons_self) hj
  · have hn := h.nodup
    rw [toList_plug] at hn ⊢
    rw [toList_join]
    exact hn

end At

/-! ## Rotation -/

namespace Tree

variable {s : Tree κ} {cs : List (Crumb Nat)} {cis : Side} {p q j : Nat} {y : Option Nat}

/-- What `TREE__ROTATE` writes, for a node `p` in a hole and its child `q`. -/
def rotated (s : Tree κ) (cs : List (Crumb Nat)) (cis : Side) (p q : Nat) (y : Option Nat) :
    Tree κ :=
  (((((s.link cs (some q)).setParent q (top cs)).setParent p (some q)).setChild cis.flip p
    y).setParentOf y (some p)).setChild cis q (some p)

theorem red_rotated : (s.rotated cs cis p q y).red = s.red := by
  rw [rotated, red_setChild, red_setParentOf, red_setChild]
  exact red_link

theorem key_rotated : (s.rotated cs cis p q y).key = s.key := by
  rw [rotated, key_setChild, key_setParentOf, key_setChild]
  exact key_link

theorem root_rotated : (s.rotated cs cis p q y).root = (s.link cs (some q)).root := by
  rw [rotated, root_setChild, root_setParentOf, root_setChild]
  rfl

theorem parent_rotated (hp : j ≠ p) (hq : j ≠ q) (hy : y ≠ some j) :
    (s.rotated cs cis p q y).parent j = s.parent j := by
  rw [rotated, parent_setChild, parent_setParentOf_of_ne hy, parent_setChild]
  refine (Function.update_of_ne hp ..).trans ((Function.update_of_ne hq ..).trans ?_)
  rw [parent_link]

/-- The children of the other nodes, but for the one above. -/
theorem child_rotated (hp : j ≠ p) (hq : j ≠ q) (side : Side) :
    (s.rotated cs cis p q y).child side j = (s.link cs (some q)).child side j := by
  rw [rotated, child_setChild_of_ne hq, child_setParentOf, child_setChild_of_ne hp,
    child_setParent, child_setParent]

end Tree

namespace At

variable {s s' : Tree κ} {t x y z : RBTree Nat} {cs : List (Crumb Nat)} {cis : Side} {c d : Bool}
  {p q i : Nat}

theorem rotate (h : At s (join cis c x p (join cis d y q z)) cs) :
    ∃ s', s.rotate cis p = some s' ∧ At s' (join cis d (join cis c x p y) q z) cs ∧
      s'.key = s.key := by
  obtain ⟨ht, hcs, hdisj⟩ := h.parts
  obtain ⟨hp, hn⟩ := List.nodup_cons.mp ((toList_join_perm ..).nodup_iff.mp ht)
  obtain ⟨-, hn, hx⟩ := List.nodup_append.mp hn
  obtain ⟨hq, hn⟩ := List.nodup_cons.mp ((toList_join_perm ..).nodup_iff.mp hn)
  obtain ⟨hny, -, hyz⟩ := List.nodup_append.mp hn
  have hmem : ∀ {j}, j ∈ (join cis d y q z).toList ↔ j = q ∨ j ∈ y.toList ∨ j ∈ z.toList := by
    intro j
    rw [(toList_join_perm ..).mem_iff, List.mem_cons, List.mem_append]
  simp only [List.mem_append, hmem, not_or] at hp hq
  have hxin : ∀ {j}, j ∈ x.toList → j ≠ q ∧ j ∉ y.toList := fun hj =>
    ⟨fun he => hx _ hj _ (hmem.mpr (Or.inl rfl)) he,
      fun hm => hx _ hj _ (hmem.mpr (Or.inr (Or.inl hm))) rfl⟩
  have hout : ∀ {j}, j = p ∨ j ∈ x.toList ∨ j = q ∨ j ∈ y.toList ∨ j ∈ z.toList →
      j ∉ RBTree.around cs := by
    intro j hj
    refine hdisj j ?_
    rw [(toList_join_perm ..).mem_iff, List.mem_cons, List.mem_append, hmem]
    exact hj
  obtain ⟨hpred, hpparent, hpx, hpq, hbx, hbq⟩ := holds_join.mp h.tree
  obtain ⟨hqred, hqparent, hqy, hqz, hby, hbz⟩ := holds_join.mp hbq
  have haround := h.around
  rw [ptr_join] at hpq haround
  have htop : ∀ {j}, j ∉ RBTree.around cs → top cs ≠ some j := fun hj he => hj (mem_of_top he)
  have hpy : y.ptr ≠ some p := fun he => hp.2.2.1 (mem_of_ptr he)
  have hqy' : y.ptr ≠ some q := fun he => hq.1 (mem_of_ptr he)
  have hqp : q ≠ p := Ne.symm hp.2.1
  have hqtop := htop (hout (Or.inr (Or.inr (Or.inl rfl))))
  have hptop := htop (hout (Or.inl rfl))
  have heq : s.rotate cis p = some (s.rotated cs cis p q y.ptr) := by
    rw [Tree.rotate, hpq]
    simp only [Option.bind_eq_bind, Option.bind_some, hpparent,
      Tree.relink_eq haround (hout (Or.inl rfl)), Tree.child_setParent, Tree.child_link hqtop, hqy,
      Tree.child_setChild_self]
    rfl
  -- The nodes of the three trees below.
  have hsame : ∀ j, j ≠ p → j ≠ q → y.ptr ≠ some j → j ∉ RBTree.around cs →
      s.Same (s.rotated cs cis p q y.ptr) j := by
    intro j hjp hjq hjy hj
    refine ⟨fun side => ?_, by rw [Tree.red_rotated], Tree.parent_rotated hjp hjq hjy⟩
    rw [Tree.child_rotated hjp hjq, Tree.child_link (htop hj)]
  refine ⟨_, heq, ⟨holds_join.mpr ⟨?_, ?_, ?_, ?_, holds_join.mpr ⟨?_, ?_, ?_, ?_, ?_, ?_⟩, ?_⟩,
    ?_, ?_⟩, Tree.key_rotated⟩
  · rw [Tree.red_rotated, hqred]
  · rw [Tree.rotated, Tree.parent_setChild, Tree.parent_setParentOf_of_ne hqy',
      Tree.parent_setChild]
    exact (Function.update_of_ne hqp ..).trans (Function.update_self ..)
  · rw [Tree.rotated, Tree.child_setChild_self, ptr_join]
  · rw [Tree.rotated, Tree.child_flip_setChild, Tree.child_setParentOf,
      Tree.child_setChild_of_ne hqp, Tree.child_setParent, Tree.child_setParent,
      Tree.child_link hqtop, hqz]
  · rw [Tree.red_rotated, hpred]
  · rw [Tree.rotated, Tree.parent_setChild, Tree.parent_setParentOf_of_ne hpy, Tree.parent_setChild]
    exact Function.update_self ..
  · rw [Tree.rotated, Tree.child_setChild_of_ne hqp.symm, Tree.child_setParentOf,
      Tree.child_setChild_flip, Tree.child_setParent, Tree.child_setParent,
      Tree.child_link hptop, hpx]
  · rw [Tree.rotated, Tree.child_setChild_of_ne hqp.symm, Tree.child_setParentOf,
      Tree.child_setChild_self]
  · refine hbx.congr fun j hj => hsame j ?_ (hxin hj).1 ?_ (hout (Or.inr (Or.inl hj)))
    · rintro rfl
      exact hp.1 hj
    · exact fun he => (hxin hj).2 (mem_of_ptr he)
  · have hne : ∀ j ∈ y.toList, j ≠ p ∧ j ≠ q := by
      refine fun j hj => ⟨?_, ?_⟩
      · rintro rfl
        exact hp.2.2.1 hj
      · rintro rfl
        exact hq.1 hj
    refine hby.move hny (fun j hj side => ?_) (fun j _ => by rw [Tree.red_rotated])
      (fun j hj hroot => Tree.parent_rotated (hne j hj).1 (hne j hj).2 hroot) fun j hj => ?_
    · rw [Tree.child_rotated (hne j hj).1 (hne j hj).2,
        Tree.child_link (htop (hout (Or.inr (Or.inr (Or.inr (Or.inl hj))))))]
    · rw [Tree.rotated, Tree.parent_setChild, hj]
      exact Tree.parent_setParentOf_self
  · refine hbz.congr fun j hj => hsame j ?_ ?_ ?_
      (hout (Or.inr (Or.inr (Or.inr (Or.inr hj)))))
    · rintro rfl
      exact hp.2.2.2 hj
    · rintro rfl
      exact hq.2 hj
    · exact fun he => hyz j (mem_of_ptr he) j hj rfl
  · rw [ptr_join]
    refine (haround.link (q := some q) hcs).congr Tree.root_rotated fun j hj => ?_
    have hjp : j ≠ p := fun he => hout (Or.inl rfl) (he ▸ hj)
    have hjq : j ≠ q := fun he => hout (Or.inr (Or.inr (Or.inl rfl))) (he ▸ hj)
    have hjy : y.ptr ≠ some j := fun he =>
      hout (Or.inr (Or.inr (Or.inr (Or.inl (mem_of_ptr he))))) hj
    refine ⟨fun side => Tree.child_rotated hjp hjq side, ?_, ?_⟩
    · rw [Tree.red_rotated, Tree.red_link]
    · rw [Tree.parent_rotated hjp hjq hjy, Tree.parent_link]
  · have hnodup := h.nodup
    rw [toList_plug] at hnodup ⊢
    rw [toList_rotate]
    exact hnodup

end At

end Ztk.Wepoll
