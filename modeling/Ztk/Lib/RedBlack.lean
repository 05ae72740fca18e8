import Mathlib

/-!
# Red-black trees, mended from a hole upwards

A tree is balanced when every path from the root has as many black nodes as any other, and no
red node has a red child.  Insertion and removal change it at one place and mend it from there
to the root, so the place is a hole, with the nodes around it from the innermost one on
(`Crumb`, `plug`), and the mending is a recursion on these.

What is done on the left is done on the right with the sides exchanged; `join cis` is a node
whose child on the side `cis` comes first.
-/

namespace Ztk.Lib

/-- A side of a node. -/
inductive Side where
  | left
  | right
deriving DecidableEq

def Side.flip : Side → Side
  | .left => .right
  | .right => .left

@[simp] theorem Side.flip_flip : ∀ s : Side, s.flip.flip = s
  | .left | .right => rfl

theorem Side.eq_flip {s t : Side} (h : s ≠ t) : s = t.flip := by
  cases s with
  | left =>
      cases t with
      | left => exact absurd rfl h
      | right => rfl
  | right =>
      cases t with
      | left => rfl
      | right => exact absurd rfl h

inductive RBTree (α : Type) where
  | nil
  | node (red : Bool) (l : RBTree α) (a : α) (r : RBTree α)

namespace RBTree

variable {α : Type}

/-- A node with the child `x` on the side `cis`, and `y` on the other one. -/
def join (cis : Side) (red : Bool) (x : RBTree α) (a : α) (y : RBTree α) : RBTree α :=
  match cis with
  | .left => .node red x a y
  | .right => .node red y a x

theorem join_flip (cis : Side) (red : Bool) (x : RBTree α) (a : α) (y : RBTree α) :
    join cis.flip red x a y = join cis red y a x := by
  cases cis with
  | left | right => rfl

def toList : RBTree α → List α
  | nil => []
  | node _ l a r => l.toList ++ a :: r.toList

def child : Side → RBTree α → RBTree α
  | _, nil => nil
  | .left, node _ l _ _ => l
  | .right, node _ _ _ r => r

@[simp] theorem child_join (cis : Side) (red : Bool) (x : RBTree α) (a : α) (y : RBTree α) :
    (join cis red x a y).child cis = x := by
  cases cis with
  | left | right => rfl

@[simp] theorem child_flip_join (cis : Side) (red : Bool) (x : RBTree α) (a : α) (y : RBTree α) :
    (join cis red x a y).child cis.flip = y := by
  cases cis with
  | left | right => rfl

/-- A tree that is not empty, seen from a side. -/
theorem node_eq_join (cis : Side) (red : Bool) (l : RBTree α) (a : α) (r : RBTree α) :
    node red l a r =
      join cis red ((node red l a r).child cis) a ((node red l a r).child cis.flip) := by
  cases cis with
  | left | right => rfl

/-- The empty tree counts as black. -/
def isRed : RBTree α → Bool
  | nil => false
  | node red _ _ _ => red

@[simp] theorem isRed_join (cis : Side) (red : Bool) (x : RBTree α) (a : α) (y : RBTree α) :
    (join cis red x a y).isRed = red := by
  cases cis with
  | left | right => rfl

/-- The same tree with another colour at the root. -/
def paint (red : Bool) : RBTree α → RBTree α
  | nil => nil
  | node _ l a r => node red l a r

@[simp] theorem paint_join (cis : Side) (red red' : Bool) (x : RBTree α) (a : α) (y : RBTree α) :
    (join cis red x a y).paint red' = join cis red' x a y := by
  cases cis with
  | left | right => rfl

@[simp] theorem toList_paint (red : Bool) : ∀ t : RBTree α, (t.paint red).toList = t.toList
  | nil | node _ _ _ _ => rfl

theorem paint_false_of_black : ∀ {t : RBTree α}, t.isRed = false → t.paint false = t
  | nil, _ | node false _ _ _, _ => rfl

theorem toList_join_congr {x x' y y' : RBTree α} {cis : Side} {red : Bool} {a : α}
    (hx : x.toList = x'.toList) (hy : y.toList = y'.toList) :
    (join cis red x a y).toList = (join cis red x' a y').toList := by
  cases cis with
  | left | right => simp only [join, toList, hx, hy]

/-- The colour does not matter. -/
theorem toList_join {x y : RBTree α} {cis : Side} {red red' : Bool} {a : α} :
    (join cis red x a y).toList = (join cis red' x a y).toList := by
  cases cis with
  | left | right => rfl

/-- A rotation does not change what is in the tree. -/
theorem toList_rotate {x y z : RBTree α} {cis : Side} {c c' d d' : Bool} {a b : α} :
    (join cis c (join cis d x a y) b z).toList = (join cis d' x a (join cis c' y b z)).toList := by
  cases cis with
  | left | right => simp [join, toList]

theorem isRed_paint_false : ∀ {t : RBTree α}, (t.paint false).isRed = false
  | nil | node _ _ _ _ => rfl

/-! ## Balance -/

/-- Black height `n`, and no red node has a red child. -/
inductive Balanced : RBTree α → Nat → Prop
  | nil : Balanced .nil 0
  | red (hl : Balanced l n) (hr : Balanced r n) (hlb : l.isRed = false) (hrb : r.isRed = false) :
      Balanced (.node true l a r) n
  | black (hl : Balanced l n) (hr : Balanced r n) : Balanced (.node false l a r) (n + 1)

/-- A red-black tree: balanced, and its root is black. -/
def Valid (t : RBTree α) : Prop := t.isRed = false ∧ ∃ n, Balanced t n

theorem Valid.paint {t : RBTree α} (h : t.Valid) : (t.paint false).Valid := by
  rw [paint_false_of_black h.1]
  exact h

namespace Balanced

variable {cis : Side} {x y t : RBTree α} {a : α} {n : Nat}

theorem join_red (hx : Balanced x n) (hy : Balanced y n) (hxb : x.isRed = false)
    (hyb : y.isRed = false) : Balanced (join cis true x a y) n := by
  cases cis with
  | left => exact .red hx hy hxb hyb
  | right => exact .red hy hx hyb hxb

theorem join_black (hx : Balanced x n) (hy : Balanced y n) :
    Balanced (join cis false x a y) (n + 1) := by
  cases cis with
  | left => exact .black hx hy
  | right => exact .black hy hx

theorem of_red (h : Balanced (join cis true x a y) n) :
    Balanced x n ∧ Balanced y n ∧ x.isRed = false ∧ y.isRed = false := by
  cases cis with
  | left =>
      cases h with
      | red hl hr hlb hrb => exact ⟨hl, hr, hlb, hrb⟩
  | right =>
      cases h with
      | red hl hr hlb hrb => exact ⟨hr, hl, hrb, hlb⟩

theorem of_black (h : Balanced (join cis false x a y) n) :
    ∃ m, n = m + 1 ∧ Balanced x m ∧ Balanced y m := by
  cases cis with
  | left =>
      cases h with
      | black hl hr => exact ⟨_, rfl, hl, hr⟩
  | right =>
      cases h with
      | black hl hr => exact ⟨_, rfl, hr, hl⟩

theorem child_red (h : Balanced t n) (ht : t.isRed = true) (cis : Side) :
    Balanced (t.child cis) n ∧ (t.child cis).isRed = false := by
  cases h with
  | nil | black => cases ht
  | red hl hr hlb hrb =>
      cases cis with
      | left => exact ⟨hl, hlb⟩
      | right => exact ⟨hr, hrb⟩

/-- A red tree becomes black, and higher. -/
theorem paint_false (h : Balanced t n) (ht : t.isRed = true) :
    Balanced (t.paint false) (n + 1) := by
  cases h with
  | nil => cases ht
  | red hl hr => exact .black hl hr
  | black => cases ht

/-- A black tree whose children are black becomes red, and lower. -/
theorem paint_true (h : Balanced t (n + 1)) (ht : t.isRed = false)
    (hc : ∀ side, (t.child side).isRed = false) : Balanced (t.paint true) n := by
  cases h with
  | red => cases ht
  | black hl hr => exact .red hl hr (hc .left) (hc .right)

/-- A tree of some black height is not empty, seen from a side. -/
theorem exists_node (h : Balanced t (n + 1)) (cis : Side) :
    ∃ red x a y, t = join cis red x a y := by
  cases t with
  | nil => cases h
  | node red l a r => exact ⟨red, _, a, _, node_eq_join cis red l a r⟩

/-- As many elements as a tree of this black height has at least. -/
theorem pow_le (h : Balanced t n) : 2 ^ n ≤ t.toList.length + 1 := by
  induction h with
  | nil => exact Nat.le_refl 1
  | red hl hr _ _ ihl ihr =>
      rw [toList, List.length_append, List.length_cons]
      omega
  | black hl hr ihl ihr =>
      rw [toList, List.length_append, List.length_cons, Nat.pow_succ]
      omega

end Balanced

/-- The number of nodes on the longest path. -/
def depth : RBTree α → Nat
  | nil => 0
  | node _ l _ r => max l.depth r.depth + 1

theorem Balanced.depth_le {t : RBTree α} {n : Nat} (h : Balanced t n) :
    t.depth ≤ 2 * n + if t.isRed then 1 else 0 := by
  induction h with
  | nil => exact Nat.le_refl 0
  | red hl hr hlb hrb ihl ihr =>
      rw [hlb, if_neg Bool.false_ne_true] at ihl
      rw [hrb, if_neg Bool.false_ne_true] at ihr
      rw [depth, isRed, if_pos rfl]
      omega
  | @black l n r _ hl hr ihl ihr =>
      have hone : ∀ b : Bool, (if b then 1 else 0) ≤ 1 := fun b => by cases b <;> decide
      have hl := hone l.isRed
      have hr := hone r.isRed
      rw [depth, isRed, if_neg Bool.false_ne_true]
      omega

/-- A red-black tree is not much higher than it must be. -/
theorem Valid.depth_le {t : RBTree α} (h : t.Valid) :
    t.depth ≤ 2 * Nat.log 2 (t.toList.length + 1) := by
  obtain ⟨hb, n, hn⟩ := h
  have hdepth := hn.depth_le
  rw [hb, if_neg Bool.false_ne_true] at hdepth
  have hlog : n ≤ Nat.log 2 (t.toList.length + 1) :=
    Nat.le_log_of_pow_le Nat.one_lt_two hn.pow_le
  omega

/-! ## Holes -/

/-- A node above a hole: the side of the hole, and what is on the other side. -/
structure Crumb (α : Type) where
  side : Side
  red : Bool
  a : α
  other : RBTree α

/-- Put a tree into a hole. -/
def plug : RBTree α → List (Crumb α) → RBTree α
  | t, [] => t
  | t, c :: cs => plug (join c.side c.red t c.a c.other) cs

/-- The elements to the left of a hole. -/
def before : List (Crumb α) → List α
  | [] => []
  | ⟨.left, _, _, _⟩ :: cs => before cs
  | ⟨.right, _, a, o⟩ :: cs => before cs ++ (o.toList ++ [a])

/-- The elements to the right of a hole. -/
def after : List (Crumb α) → List α
  | [] => []
  | ⟨.left, _, a, o⟩ :: cs => a :: o.toList ++ after cs
  | ⟨.right, _, _, _⟩ :: cs => after cs

theorem toList_plug (t : RBTree α) (cs : List (Crumb α)) :
    (plug t cs).toList = before cs ++ t.toList ++ after cs := by
  induction cs generalizing t with
  | nil => simp [plug, before, after]
  | cons c cs ih =>
      obtain ⟨side, red, a, o⟩ := c
      cases side with
      | left | right => simp [plug, ih, before, after, join, toList]

theorem plug_append (t : RBTree α) (ds cs : List (Crumb α)) :
    plug t (ds ++ cs) = plug (plug t ds) cs := by
  induction ds generalizing t with
  | nil => rfl
  | cons d ds ih => exact ih ..

/-- The hole takes black trees only: its parent is red, or there is none. -/
def blackOnly : List (Crumb α) → Bool
  | [] => true
  | c :: _ => c.red

/-- A red-black tree with a hole for a tree of this black height. -/
inductive Hole : List (Crumb α) → Nat → Prop
  | root : Hole [] n
  | red (ho : Balanced o n) (hob : o.isRed = false) (h : Hole cs n) (hc : blackOnly cs = false) :
      Hole (⟨s, true, a, o⟩ :: cs) n
  | black (ho : Balanced o n) (h : Hole cs (n + 1)) : Hole (⟨s, false, a, o⟩ :: cs) n

theorem Hole.plug {t : RBTree α} {cs : List (Crumb α)} {n : Nat} (h : Hole cs n)
    (ht : Balanced t n) (hb : blackOnly cs = true → t.isRed = false) : Valid (plug t cs) := by
  induction h generalizing t with
  | root => exact ⟨hb rfl, _, ht⟩
  | red ho hob h hc ih =>
      refine ih (.join_red ht ho (hb rfl) hob) fun hc' => ?_
      rw [hc] at hc'
      cases hc'
  | black ho h ih => exact ih (.join_black ht ho) fun _ => isRed_join ..

/-- A red-black tree, opened at a hole. -/
theorem Valid.open {t : RBTree α} {cs : List (Crumb α)} (h : Valid (plug t cs)) :
    ∃ n, Hole cs n ∧ Balanced t n ∧ (blackOnly cs = true → t.isRed = false) := by
  induction cs generalizing t with
  | nil =>
      obtain ⟨hb, n, hn⟩ := h
      exact ⟨n, .root, hn, fun _ => hb⟩
  | cons c cs ih =>
      obtain ⟨n, hole, hn, hb⟩ := ih h
      obtain ⟨side, red, a, o⟩ := c
      cases red with
      | true =>
          obtain ⟨ht, ho, htb, hob⟩ := hn.of_red
          refine ⟨n, .red ho hob hole ?_, ht, fun _ => htb⟩
          by_contra hc
          rw [isRed_join] at hb
          cases hb (Bool.not_eq_false _ ▸ hc)
      | false =>
          obtain ⟨m, rfl, ht, ho⟩ := hn.of_black
          exact ⟨m, .black ho hole, ht, by rintro ⟨⟩⟩

/-- The elements above a hole do not matter for the balance. -/
theorem Hole.rename {ds cs : List (Crumb α)} {s : Side} {red : Bool} {a : α} {o : RBTree α}
    {n : Nat} (h : Hole (ds ++ ⟨s, red, a, o⟩ :: cs) n) (b : α) :
    Hole (ds ++ ⟨s, red, b, o⟩ :: cs) n := by
  induction ds generalizing n with
  | nil =>
      cases h with
      | red ho hob h hc => exact .red ho hob h hc
      | black ho h => exact .black ho h
  | cons d ds ih =>
      cases h with
      | red ho hob h hc =>
          refine .red ho hob (ih h) ?_
          cases ds with
          | nil | cons => exact hc
      | black ho h => exact .black ho (ih h)

/-! ## Mending after an insertion -/

/-- A red tree `t` with a red parent, whose sibling of the parent is black: the tree takes the
place of the grandparent. -/
def insertTurn (t : RBTree α) (p g : Crumb α) : RBTree α :=
  if p.side = g.side then
    join g.side false t p.a (join g.side true p.other g.a g.other)
  else
    match t with
    | nil => plug nil [p, g]
    | node _ _ a _ =>
        join g.side false (join g.side true p.other p.a (t.child g.side)) a
          (join g.side true (t.child g.side.flip) g.a g.other)

/-- A red tree is in the hole. -/
def insertFix : RBTree α → List (Crumb α) → RBTree α
  | t, [] => t
  | t, [p] => plug t [p]
  | t, p :: g :: cs =>
      if p.red then
        if g.other.isRed then
          insertFix
            (join g.side true (join p.side false t p.a p.other) g.a (g.other.paint false)) cs
        else plug (insertTurn t p g) cs
      else plug t (p :: g :: cs)

theorem toList_insertTurn (t : RBTree α) (p g : Crumb α) :
    (insertTurn t p g).toList = (plug t [p, g]).toList := by
  obtain ⟨ps, pr, pa, po⟩ := p
  obtain ⟨gs, gr, ga, go⟩ := g
  rw [insertTurn.eq_def]
  split
  · next he =>
      cases (show ps = gs from he)
      cases ps with
      | left | right => simp [plug, join, toList]
  · next hne =>
      cases t with
      | nil => rfl
      | node red l a r =>
          cases Side.eq_flip (show ps ≠ gs from hne)
          cases gs with
          | left | right => simp [plug, join, Side.flip, child, toList]

/-- Mending does not change what is in the tree. -/
theorem toList_insertFix (t : RBTree α) (cs : List (Crumb α)) :
    (insertFix t cs).toList = (plug t cs).toList := by
  fun_induction insertFix t cs with
  | case1 | case2 | case5 => rfl
  | case3 t p g cs hp hg ih =>
      have hjoin :
          (join g.side true (join p.side false t p.a p.other) g.a
            (g.other.paint false)).toList =
          (join g.side g.red (join p.side p.red t p.a p.other) g.a g.other).toList :=
        toList_join.trans (toList_join_congr toList_join (toList_paint ..))
      rw [ih, plug, plug, toList_plug, toList_plug, hjoin]
  | case4 t p g cs hp hg =>
      rw [toList_plug, toList_insertTurn, ← toList_plug]
      rfl

theorem insertTurn_balanced {t : RBTree α} {p g : Crumb α} {n : Nat} (ht : Balanced t n)
    (hr : t.isRed = true) (hp : Balanced p.other n) (hpb : p.other.isRed = false)
    (hg : Balanced g.other n) (hgb : g.other.isRed = false) :
    Balanced (insertTurn t p g) (n + 1) ∧ (insertTurn t p g).isRed = false := by
  rw [insertTurn.eq_def]
  split
  · exact ⟨.join_black ht (.join_red hp hg hpb hgb), isRed_join ..⟩
  · cases t with
    | nil => cases hr
    | node red l a r =>
        obtain ⟨hx, hxb⟩ := ht.child_red hr g.side
        obtain ⟨hy, hyb⟩ := ht.child_red hr g.side.flip
        exact ⟨.join_black (.join_red hp hx hpb hxb) (.join_red hy hg hyb hgb), isRed_join ..⟩

/-- After the mending, and with a black root, the tree is a red-black tree. -/
theorem insertFix_valid {t : RBTree α} {cs : List (Crumb α)} {n : Nat} (h : Hole cs n)
    (ht : Balanced t n) (hr : t.isRed = true) : Valid ((insertFix t cs).paint false) := by
  fun_induction insertFix t cs generalizing n with
  | case1 t => exact ⟨isRed_paint_false, _, ht.paint_false hr⟩
  | case2 t p =>
      cases h with
      | red _ _ _ hc => cases hc
      | black ho h =>
          rw [plug, plug, paint_join]
          exact ⟨isRed_join .., _, .join_black ht ho⟩
  | case3 t p g cs hp hg ih =>
      cases h with
      | black => cases hp
      | red ho hob h hc =>
          cases h with
          | red => cases hc
          | black hu h =>
              exact ih h (.join_red (.join_black ht ho) (hu.paint_false hg) (isRed_join ..)
                isRed_paint_false) (isRed_join ..)
  | case4 t p g cs hp hg =>
      cases h with
      | black => cases hp
      | red ho hob h hc =>
          cases h with
          | red => cases hc
          | black hu h =>
              obtain ⟨hn, hb⟩ := insertTurn_balanced (p := ⟨_, true, _, _⟩) (g := ⟨_, false, _, _⟩)
                ht hr ho hob hu (Bool.eq_false_of_not_eq_true hg)
              exact (h.plug hn fun _ => hb).paint
  | case5 t p g cs hp =>
      cases h with
      | red => exact absurd rfl hp
      | black ho h => exact (Hole.plug (.black ho h) ht (by rintro ⟨⟩)).paint

/-! ## Mending after a removal -/

/-- The tree `t` is too low by one, and its black sibling has a red child: the nodes below the
parent are put in another order. -/
def deleteTurn (cis : Side) (red : Bool) (t : RBTree α) (a : α) : RBTree α → Option (RBTree α)
  | nil => none
  | node c l b r =>
      let sib := node c l b r
      let near := sib.child cis
      let far := sib.child cis.flip
      if far.isRed then some (join cis red (join cis false t a near) b (far.paint false))
      else
        match near with
        | node true nl m nr =>
            let near := node true nl m nr
            some (join cis red (join cis false t a (near.child cis)) m
              (join cis false (near.child cis.flip) b far))
        | _ => none

/-- The tree in the hole is too low by one. -/
def deleteFix : RBTree α → List (Crumb α) → RBTree α
  | t, [] => t.paint false
  | t, p :: cs =>
      match p.other with
      | nil => plug t (p :: cs)
      | node true l b r =>
          let near := (node true l b r).child p.side
          let far := (node true l b r).child p.side.flip
          let up : Crumb α := ⟨p.side, false, b, far⟩
          match deleteTurn p.side true t p.a near with
          | some t' => (plug t' (up :: cs)).paint false
          | none => plug (join p.side false t p.a (near.paint true)) (up :: cs)
      | node false l b r =>
          match deleteTurn p.side p.red t p.a (node false l b r) with
          | some t' => (plug t' cs).paint false
          | none =>
              if p.red then plug (join p.side false t p.a (node true l b r)) cs
              else deleteFix (join p.side false t p.a (node true l b r)) cs

theorem child_black {t : RBTree α} {n : Nat} (h : Balanced t (n + 1)) (ht : t.isRed = false)
    (cis : Side) : Balanced (t.child cis) n := by
  cases h with
  | red => cases ht
  | black hl hr =>
      cases cis with
      | left => exact hl
      | right => exact hr

/-- The other order, if there is one: the tree is as high as it was before. -/
theorem deleteTurn_balanced {cis : Side} {red : Bool} {t t' sib : RBTree α} {a : α} {n : Nat}
    (ht : Balanced t n) (hs : Balanced sib (n + 1)) (hb : sib.isRed = false)
    (h : deleteTurn cis red t a sib = some t') :
    t'.isRed = red ∧ Balanced t' (if red then n + 1 else n + 2) := by
  have hjoin : ∀ {x y : RBTree α} {b : α}, Balanced x (n + 1) → Balanced y (n + 1) →
      x.isRed = false → y.isRed = false →
      Balanced (join cis red x b y) (if red then n + 1 else n + 2) := by
    intro x y b hx hy hxb hyb
    cases red with
    | true => exact .join_red hx hy hxb hyb
    | false => exact .join_black hx hy
  cases sib with
  | nil => cases h
  | node c l b r =>
      have hnear := child_black hs hb cis
      have hfar := child_black hs hb cis.flip
      rw [deleteTurn] at h
      split at h
      · next hred =>
          cases h
          exact ⟨isRed_join .., hjoin (.join_black ht hnear) (hfar.paint_false hred) (isRed_join ..)
            isRed_paint_false⟩
      · split at h
        · next hn =>
            cases h
            rw [hn] at hnear
            obtain ⟨hx, -⟩ := hnear.child_red rfl cis
            obtain ⟨hy, -⟩ := hnear.child_red rfl cis.flip
            exact ⟨isRed_join .., hjoin (.join_black ht hx) (.join_black hy hfar) (isRed_join ..)
              (isRed_join ..)⟩
        · cases h

/-- There is no other order where the children of the sibling are black. -/
theorem deleteTurn_none {cis : Side} {red : Bool} {t sib : RBTree α} {a : α}
    (h : deleteTurn cis red t a sib = none) (side : Side) : (sib.child side).isRed = false := by
  cases sib with
  | nil => cases side <;> rfl
  | node c l b r =>
      rw [deleteTurn] at h
      split at h
      · cases h
      · next hfar =>
          split at h
          · cases h
          · next hnear =>
              have hfar := Bool.eq_false_of_not_eq_true hfar
              have hnear : ((node c l b r).child cis).isRed = false := by
                cases hn : (node c l b r).child cis with
                | nil => rfl
                | node red nl m nr =>
                    cases red with
                    | true => exact absurd hn (hnear nl m nr)
                    | false => rfl
              by_cases hs : side = cis
              · exact hs ▸ hnear
              · exact Side.eq_flip hs ▸ hfar

/-- There is one only where the sibling has a red child. -/
theorem deleteTurn_some {cis : Side} {red c : Bool} {t t' l r : RBTree α} {a b : α}
    (h : deleteTurn cis red t a (node c l b r) = some t') : (l.isRed || r.isRed) = true := by
  have hchild : ∀ side, ((node c l b r).child side).isRed = true →
      (l.isRed || r.isRed) = true := by
    intro side hs
    cases side with
    | left => exact (congrArg (· || r.isRed) hs).trans (Bool.true_or _)
    | right => exact (congrArg (l.isRed || ·) hs).trans (Bool.or_true _)
  rw [deleteTurn] at h
  split at h
  · next hfar => exact hchild _ hfar
  · split at h
    · next hn => exact hchild cis (by rw [hn]; rfl)
    · cases h

theorem toList_deleteTurn {cis : Side} {red : Bool} {t t' sib : RBTree α} {a : α}
    (h : deleteTurn cis red t a sib = some t') : t'.toList = (join cis red t a sib).toList := by
  cases sib with
  | nil => cases h
  | node c l b r =>
      rw [deleteTurn] at h
      split at h
      · cases h
        cases cis with
        | left | right => simp [join, toList, child, Side.flip]
      · split at h
        · next nl m nr hn =>
            cases h
            cases cis with
            | left =>
                cases (show l = _ from hn)
                simp [join, toList, child, Side.flip]
            | right =>
                cases (show r = _ from hn)
                simp [join, toList, child, Side.flip]
        · cases h

/-- Mending does not change what is in the tree. -/
theorem toList_deleteFix (t : RBTree α) (cs : List (Crumb α)) :
    (deleteFix t cs).toList = (plug t cs).toList := by
  fun_induction deleteFix t cs with
  | case1 t => exact toList_paint ..
  | case2 => rfl
  | case3 t p cs l b r ho near far up t' ht =>
      have hjoin : (join p.side false t' b far).toList =
          (join p.side p.red t p.a (node true l b r)).toList := by
        rw [node_eq_join p.side true l b r]
        exact (toList_join_congr (toList_deleteTurn ht) rfl).trans toList_rotate
      rw [toList_paint, plug, plug, toList_plug, toList_plug, ho, ← hjoin]
  | case4 t p cs l b r ho near far up ht =>
      have hjoin : (join p.side false (join p.side false t p.a (near.paint true)) b far).toList =
          (join p.side p.red t p.a (node true l b r)).toList := by
        rw [node_eq_join p.side true l b r]
        exact toList_rotate.trans (toList_join_congr rfl (toList_join_congr (toList_paint ..) rfl))
      rw [plug, plug, toList_plug, toList_plug, ho, ← hjoin]
  | case5 t p cs l b r ho t' ht =>
      rw [toList_paint, plug, toList_plug, toList_plug, toList_deleteTurn ht, ho]
  | case6 t p cs l b r ho ht hp =>
      rw [plug, toList_plug, toList_plug, ho]
      congr 2
      exact toList_join.trans (toList_join_congr rfl rfl)
  | case7 t p cs l b r ho ht hp ih =>
      rw [ih, plug, toList_plug, toList_plug, ho]
      congr 2
      exact toList_join.trans (toList_join_congr rfl rfl)

/-- What the hole below a node needs, for the trees with that node at their root. -/
theorem Hole.up {p : Crumb α} {cs : List (Crumb α)} {n : Nat} (h : Hole (p :: cs) (n + 1)) :
    Balanced p.other (n + 1) ∧ Hole cs (if p.red then n + 1 else n + 2) ∧
      (p.red = true → blackOnly cs = false ∧ p.other.isRed = false) := by
  cases h with
  | red ho hob h hc => exact ⟨ho, h, fun _ => ⟨hc, hob⟩⟩
  | black ho h => exact ⟨ho, h, by rintro ⟨⟩⟩

/-- After the mending the tree is a red-black tree. -/
theorem deleteFix_valid {t : RBTree α} {cs : List (Crumb α)} {n : Nat} (h : Hole cs (n + 1))
    (ht : Balanced t n) (hb : t.isRed = false) : Valid (deleteFix t cs) := by
  induction cs generalizing t n with
  | nil =>
      refine ⟨isRed_paint_false, n, ?_⟩
      rw [deleteFix, paint_false_of_black hb]
      exact ht
  | cons p cs ih =>
      obtain ⟨ps, pr, pa, po⟩ := p
      obtain ⟨ho, hup, hred⟩ := h.up
      cases po with
      | nil => cases ho
      | node c l b r =>
          cases c with
          | true =>
              -- A red sibling has a black parent, and black children of the same height.
              obtain rfl : pr = false := Bool.eq_false_of_not_eq_true fun he => nomatch (hred he).2
              obtain ⟨hnear, hnb⟩ := ho.child_red rfl ps
              obtain ⟨hfar, hfb⟩ := ho.child_red rfl ps.flip
              have hole : Hole (⟨ps, false, b, (node true l b r).child ps.flip⟩ :: cs) (n + 1) :=
                .black hfar hup
              simp only [deleteFix]
              split
              · next t' ht' =>
                  obtain ⟨-, hn⟩ := deleteTurn_balanced ht hnear hnb ht'
                  exact (hole.plug hn (by rintro ⟨⟩)).paint
              · next hnone =>
                  exact hole.plug (.join_black ht (hnear.paint_true hnb (deleteTurn_none hnone)))
                    (by rintro ⟨⟩)
          | false =>
              simp only [deleteFix]
              split
              · next t' ht' =>
                  obtain ⟨hc, hn⟩ := deleteTurn_balanced ht ho rfl ht'
                  refine (hup.plug hn fun honly => ?_).paint
                  rw [hc]
                  refine Bool.eq_false_of_not_eq_true fun he => ?_
                  rw [(hred he).1] at honly
                  cases honly
              · next hnone =>
                  have hn : Balanced (join ps false t pa (node true l b r)) (n + 1) :=
                    .join_black ht (ho.paint_true rfl (deleteTurn_none hnone))
                  split
                  · next hp =>
                      rw [if_pos hp] at hup
                      exact hup.plug hn fun _ => isRed_join ..
                  · next hp =>
                      rw [if_neg hp] at hup
                      exact ih hup hn (isRed_join ..)

/-! ## Removal -/

/-- The smallest element below a node, with the colour of its node, what is right of it, and
the way there. -/
def splitMin : Bool → RBTree α → α → RBTree α → List (Crumb α) →
    Bool × α × RBTree α × List (Crumb α)
  | red, nil, a, r, cs => (red, a, r, cs)
  | red, node red' l' a' r', a, r, cs => splitMin red' l' a' r' (⟨.left, red, a, r⟩ :: cs)

/-- A node of the colour `red` was taken away, and `t` is in its place. -/
def deleteMend (red : Bool) (t : RBTree α) (cs : List (Crumb α)) : RBTree α :=
  if red then plug t cs else if t.isRed then plug (t.paint false) cs else deleteFix t cs

/-- The node `node red l a r` goes out of the hole. -/
def deleteNode (red : Bool) (l r : RBTree α) (cs : List (Crumb α)) : RBTree α :=
  match l, r with
  | nil, r => deleteMend red r cs
  | l, nil => deleteMend red l cs
  | l, node red' rl ra rr =>
      let (gone, next, rest, ds) := splitMin red' rl ra rr []
      deleteMend gone rest (ds ++ ⟨.right, red, next, l⟩ :: cs)

theorem plug_splitMin {red : Bool} {l : RBTree α} {a : α} {r : RBTree α} {cs : List (Crumb α)}
    {gone : Bool} {next : α} {rest : RBTree α} {ds : List (Crumb α)}
    (h : splitMin red l a r cs = (gone, next, rest, ds)) :
    plug (node gone nil next rest) ds = plug (node red l a r) cs := by
  induction l generalizing red a r cs with
  | nil =>
      cases h
      rfl
  | node red' l' a' r' ih => exact ih h

theorem before_splitMin {red : Bool} {l : RBTree α} {a : α} {r : RBTree α} {cs : List (Crumb α)}
    {gone : Bool} {next : α} {rest : RBTree α} {ds : List (Crumb α)}
    (h : splitMin red l a r cs = (gone, next, rest, ds)) : before ds = before cs := by
  induction l generalizing red a r cs with
  | nil =>
      cases h
      rfl
  | node red' l' a' r' ih =>
      have hds : before ds = before (⟨.left, red, a, r⟩ :: cs) := ih h
      exact hds

theorem before_append (ds cs : List (Crumb α)) : before (ds ++ cs) = before cs ++ before ds := by
  induction ds with
  | nil => exact (List.append_nil _).symm
  | cons d ds ih =>
      obtain ⟨side, red, a, o⟩ := d
      cases side with
      | left => exact ih
      | right => simp only [List.cons_append, before, ih, List.append_assoc]

theorem after_append (ds cs : List (Crumb α)) : after (ds ++ cs) = after ds ++ after cs := by
  induction ds with
  | nil => rfl
  | cons d ds ih =>
      obtain ⟨side, red, a, o⟩ := d
      cases side with
      | left => simp only [List.cons_append, after, ih, List.append_assoc]
      | right => exact ih

theorem toList_deleteMend {red : Bool} {t : RBTree α} {cs : List (Crumb α)} :
    (deleteMend red t cs).toList = before cs ++ t.toList ++ after cs := by
  rw [deleteMend]
  split
  · exact toList_plug ..
  · split
    · rw [toList_plug, toList_paint]
    · rw [toList_deleteFix, toList_plug]

/-- One element is taken away, and no other one. -/
theorem toList_deleteNode (red : Bool) (l r : RBTree α) (cs : List (Crumb α)) :
    (deleteNode red l r cs).toList = before cs ++ (l.toList ++ r.toList) ++ after cs := by
  rw [deleteNode.eq_def]
  split
  · exact toList_deleteMend
  · next l hl =>
      rw [toList_deleteMend, toList, List.append_nil]
  · next red' rl ra rr hl =>
      generalize hs : splitMin red' rl ra rr [] = res
      obtain ⟨gone, next, rest, ds⟩ := res
      have hplug := congrArg toList (plug_splitMin hs)
      have hbefore := before_splitMin hs
      rw [plug, toList_plug, hbefore, before, List.nil_append] at hplug
      rw [toList_deleteMend, before_append, after_append, hbefore, ← hplug]
      simp [before, after, toList]

/-- A node with one child at most was in the hole. -/
theorem deleteMend_valid (cis : Side) {red : Bool} {t : RBTree α} {a : α} {cs : List (Crumb α)}
    {n : Nat} (h : Hole cs n) (hn : Balanced (join cis red nil a t) n)
    (hb : blackOnly cs = true → red = false) : Valid (deleteMend red t cs) := by
  rw [deleteMend]
  cases red with
  | true =>
      rw [if_pos rfl]
      obtain ⟨-, ht, -, htb⟩ := hn.of_red
      exact h.plug ht fun _ => htb
  | false =>
      rw [if_neg Bool.false_ne_true]
      obtain ⟨m, rfl, -, ht⟩ := hn.of_black
      split
      · next hr => exact h.plug (ht.paint_false hr) fun _ => isRed_paint_false
      · next hr => exact deleteFix_valid h ht (Bool.eq_false_of_not_eq_true hr)

/-- Taking a node out of a red-black tree leaves a red-black tree. -/
theorem deleteNode_valid {red : Bool} {l r : RBTree α} {a : α} {cs : List (Crumb α)}
    (h : Valid (plug (node red l a r) cs)) : Valid (deleteNode red l r cs) := by
  obtain ⟨n, hole, hn, hb⟩ := h.open
  rw [deleteNode.eq_def]
  split
  · next r => exact deleteMend_valid .left hole hn hb
  · next l hl => exact deleteMend_valid .right hole hn hb
  · next red' rl ra rr hl =>
      generalize hs : splitMin red' rl ra rr [] = res
      obtain ⟨gone, next, rest, ds⟩ := res
      -- The smallest element to the right is taken away in place of the node.
      have hplug : plug (node gone nil next rest) (ds ++ ⟨.right, red, a, l⟩ :: cs) =
          plug (node red l a (node red' rl ra rr)) cs := by
        rw [plug_append, plug_splitMin hs]
        rfl
      obtain ⟨m, hole', hm, hb'⟩ := (hplug ▸ h).open
      refine deleteMend_valid .left (hole'.rename next) hm fun honly => hb' ?_
      cases ds with
      | nil | cons => exact honly

/-! ## Search -/

/-- Where an element with this key is, or would be. -/
def locate {κ : Type} [LinearOrder κ] (key : α → κ) (k : κ) :
    RBTree α → List (Crumb α) → RBTree α × List (Crumb α)
  | nil, cs => (nil, cs)
  | node red l a r, cs =>
      if k < key a then locate key k l (⟨.left, red, a, r⟩ :: cs)
      else if key a < k then locate key k r (⟨.right, red, a, l⟩ :: cs)
      else (node red l a r, cs)

section Search

variable {κ : Type} [LinearOrder κ] {key : α → κ} {k : κ}

theorem plug_locate (key : α → κ) (k : κ) (t : RBTree α) (cs : List (Crumb α)) :
    plug (locate key k t cs).1 (locate key k t cs).2 = plug t cs := by
  induction t generalizing cs with
  | nil => rfl
  | node red l a r ihl ihr =>
      rw [locate]
      split
      · exact ihl _
      · split
        · exact ihr _
        · rfl

/-- What is found has the key. -/
theorem locate_found {t : RBTree α} {cs cs' : List (Crumb α)} {red : Bool} {l r : RBTree α} {a : α}
    (h : locate key k t cs = (node red l a r, cs')) : key a = k := by
  induction t generalizing cs with
  | nil => cases h
  | node red' l' a' r' ihl ihr =>
      rw [locate] at h
      split at h
      · exact ihl h
      · split at h
        · exact ihr h
        · next hnlt hngt =>
            cases h
            exact le_antisymm (not_lt.mp hnlt) (not_lt.mp hngt)

/-- Sorted by key, and no key twice. -/
def Sorted (key : α → κ) (l : List α) : Prop := l.Pairwise fun a b => key a < key b

/-- The keys in the children of a node. -/
theorem Sorted.children {red : Bool} {l r : RBTree α} {a : α} {cs : List (Crumb α)}
    (h : Sorted key (plug (node red l a r) cs).toList) :
    (∀ b ∈ l.toList, key b < key a) ∧ ∀ b ∈ r.toList, key a < key b := by
  rw [toList_plug, toList, List.append_assoc] at h
  obtain ⟨-, h, -⟩ := List.pairwise_append.mp h
  obtain ⟨h, -, -⟩ := List.pairwise_append.mp h
  obtain ⟨-, h, hl⟩ := List.pairwise_append.mp h
  exact ⟨fun b hb => hl b hb a List.mem_cons_self, (List.pairwise_cons.mp h).1⟩

/-- Where nothing is found, the key is between those on the left and those on the right. -/
theorem locate_missing {t : RBTree α} {cs cs' : List (Crumb α)}
    (hs : Sorted key (plug t cs).toList) (hl : ∀ a ∈ before cs, key a < k)
    (hr : ∀ a ∈ after cs, k < key a) (h : locate key k t cs = (nil, cs')) :
    (∀ a ∈ before cs', key a < k) ∧ ∀ a ∈ after cs', k < key a := by
  induction t generalizing cs with
  | nil =>
      cases h
      exact ⟨hl, hr⟩
  | node red l a r ihl ihr =>
      obtain ⟨hsl, hsr⟩ := hs.children
      rw [locate] at h
      split at h
      · next hlt =>
          have hafter : ∀ b ∈ after (⟨.left, red, a, r⟩ :: cs), k < key b := by
            intro b hb
            rcases List.mem_append.mp hb with hb | hb
            · rcases List.mem_cons.mp hb with rfl | hb
              · exact hlt
              · exact hlt.trans (hsr b hb)
            · exact hr b hb
          have hsub : Sorted key (plug l (⟨.left, red, a, r⟩ :: cs)).toList := hs
          exact ihl hsub hl hafter h
      · split at h
        · next hgt =>
            have hbefore : ∀ b ∈ before (⟨.right, red, a, l⟩ :: cs), key b < k := by
              intro b hb
              rcases List.mem_append.mp hb with hb | hb
              · exact hl b hb
              · rcases List.mem_append.mp hb with hb | hb
                · exact (hsl b hb).trans hgt
                · rw [List.mem_singleton.mp hb]
                  exact hgt
            have hsub : Sorted key (plug r (⟨.right, red, a, l⟩ :: cs)).toList := hs
            exact ihr hsub hbefore hr h
        · cases h

/-- A new element in the place that was found for it. -/
theorem sorted_insert {a : α} {cs : List (Crumb α)} (h : Sorted key (plug nil cs).toList)
    (hl : ∀ b ∈ before cs, key b < key a) (hr : ∀ b ∈ after cs, key a < key b) {t : RBTree α}
    (ht : t.toList = [a]) : Sorted key (plug t cs).toList := by
  rw [toList_plug, ht]
  rw [toList_plug, toList, List.append_nil] at h
  obtain ⟨hb, ha, hba⟩ := List.pairwise_append.mp h
  rw [List.append_assoc]
  refine List.pairwise_append.mpr ⟨hb, List.pairwise_cons.mpr ⟨hr, ha⟩, fun b hmem c hc => ?_⟩
  rcases List.mem_cons.mp hc with rfl | hc
  · exact hl b hmem
  · exact hba b hmem c hc

theorem before_nil : ∀ a ∈ before ([] : List (Crumb α)), key a < k := fun _ ha => nomatch ha

theorem after_nil : ∀ a ∈ after ([] : List (Crumb α)), k < key a := fun _ ha => nomatch ha

/-- Where nothing is found, there is no such key. -/
theorem locate_none {t : RBTree α} {cs : List (Crumb α)} (hs : Sorted key t.toList)
    (h : locate key k t [] = (nil, cs)) : ∀ a ∈ t.toList, key a ≠ k := by
  have hplug := plug_locate key k t []
  obtain ⟨hl, hr⟩ := locate_missing (t := t) hs before_nil after_nil h
  rw [h] at hplug
  intro a ha
  rw [show t = plug nil cs from hplug.symm, toList_plug, toList, List.append_nil] at ha
  rcases List.mem_append.mp ha with ha | ha
  · exact (hl a ha).ne
  · exact (hr a ha).ne'

theorem Sorted.inj {l : List α} (h : Sorted key l) {a b : α} (ha : a ∈ l) (hb : b ∈ l)
    (he : key a = key b) : a = b := by
  have hn : (l.map key).Nodup := List.Pairwise.map key (fun _ _ hlt => ne_of_lt hlt) h
  exact List.inj_on_of_nodup_map hn ha hb he

end Search

end RBTree

end Ztk.Lib
