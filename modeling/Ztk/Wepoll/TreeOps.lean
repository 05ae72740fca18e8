import Ztk.Wepoll.TreeMend

/-!
# `tree_find` and `tree_add`

Each of them comes to an end after as many turns of its loops as the tree is deep, and does to
the tree what it should.
-/

namespace Ztk.Lib.RBTree

variable {α : Type}

/-- A hole is not deeper than the tree. -/
theorem length_le_depth (t : RBTree α) (cs : List (Crumb α)) :
    cs.length + t.depth ≤ (plug t cs).depth := by
  induction cs generalizing t with
  | nil => exact (Nat.zero_add _).le
  | cons c cs ih =>
      refine le_trans ?_ (ih (join c.side c.red t c.a c.other))
      have hjoin : t.depth + 1 ≤ (join c.side c.red t c.a c.other).depth := by
        cases c.side with
        | left => exact Nat.succ_le_succ (Nat.le_max_left ..)
        | right => exact Nat.succ_le_succ (Nat.le_max_right ..)
      rw [List.length_cons]
      omega

/-- An element of a tree is somewhere in it. -/
theorem exists_hole {t : RBTree α} {a : α} (h : a ∈ t.toList) :
    ∃ red l r cs, plug (node red l a r) cs = t := by
  have hin : ∀ ds, ∃ red l r cs, plug (node red l a r) cs = plug t ds := by
    induction t with
    | nil => cases h
    | node red l b r ihl ihr =>
        intro ds
        rcases List.mem_append.mp h with hl | hr
        · exact ihl hl (⟨.left, red, b, r⟩ :: ds)
        · rcases List.mem_cons.mp hr with rfl | hr
          · exact ⟨red, l, r, ds, rfl⟩
          · exact ihr hr (⟨.right, red, b, l⟩ :: ds)
  exact hin []

end Ztk.Lib.RBTree

namespace Ztk.Wepoll

open Ztk.Lib RBTree

variable {κ : Type}

/-- The pointers make a red-black tree, sorted by key. -/
structure Keeps [LinearOrder κ] (s : Tree κ) (t : RBTree Nat) : Prop where
  shape : At s t []
  valid : t.Valid
  sorted : Sorted s.key t.toList

namespace At

variable {s s' : Tree κ} {t l r : RBTree Nat} {cs : List (Crumb Nat)} {red : Bool} {i k n : Nat}

theorem of_whole (h : At s (RBTree.plug t cs) []) : At s t cs := by
  have hplug : At s t (cs ++ []) := plug.mpr h
  rw [List.append_nil] at hplug
  exact hplug

theorem goLeft (h : At s (node red l i r) cs) : At s l (⟨.left, red, i, r⟩ :: cs) :=
  down.mp (show At s (join .left red l i r) cs from h)

theorem goRight (h : At s (node red l i r) cs) : At s r (⟨.right, red, i, l⟩ :: cs) :=
  down_flip.mp (show At s (join .left red l i r) cs from h)

/-- Where a new node goes, if there is a place for it. -/
def place : RBTree Nat × List (Crumb Nat) → Option (Nat × Side)
  | (nil, c :: _) => some (c.a, c.side)
  | (nil, []) | (node _ _ _ _, _) => none

section Search

variable [LinearOrder κ]

/-- `tree_find`. -/
theorem find (key : κ) (h : At s t cs) (hn : t.depth ≤ n) :
    s.find key n t.ptr = some (locate s.key key t cs).1.ptr := by
  induction t generalizing cs n with
  | nil =>
      cases n with
      | zero | succ => rfl
  | node red l a r ihl ihr =>
      cases n with
      | zero => cases hn
      | succ n =>
          obtain ⟨-, -, hl, hr, -⟩ := h.tree
          have hle := Nat.le_of_succ_le_succ hn
          rw [ptr, Tree.find, locate]
          split
          · rw [hl]
            exact ihl h.goLeft ((Nat.le_max_left ..).trans hle)
          · split
            · rw [hr]
              exact ihr h.goRight ((Nat.le_max_right ..).trans hle)
            · rfl

/-- The first loop of `tree_add`. -/
theorem descend (key : κ) (h : At s t cs) (hi : t.ptr = some i) (hn : t.depth ≤ n) :
    s.descend key n i = some (place (locate s.key key t cs)) := by
  induction t generalizing cs i n with
  | nil => cases hi
  | node red l a r ihl ihr =>
      cases hi
      cases n with
      | zero => cases hn
      | succ n =>
          obtain ⟨-, -, hl, hr, -⟩ := h.tree
          have hle := Nat.le_of_succ_le_succ hn
          rw [Tree.descend, locate]
          split
          · rw [hl]
            cases l with
            | nil => rfl
            | node => exact ihl h.goLeft rfl ((Nat.le_max_left ..).trans hle)
          · split
            · rw [hr]
              cases r with
              | nil => rfl
              | node => exact ihr h.goRight rfl ((Nat.le_max_right ..).trans hle)
            · rfl

end Search

/-! ## `tree_add` -/

/-- A new node in an empty hole. -/
theorem initNode (h : At s nil cs) (hi : i ∉ RBTree.around cs) (key : κ) :
    At ((s.link cs (some i)).initNode i key (top cs)) (node true nil i nil) cs := by
  obtain ⟨-, hcs, -⟩ := h.parts
  have hsame : ∀ j, j ≠ i →
      (s.link cs (some i)).Same ((s.link cs (some i)).initNode i key (top cs)) j := by
    refine fun j hj => ⟨fun side => ?_, Function.update_of_ne hj .., Function.update_of_ne hj ..⟩
    cases side with
    | left | right => exact Function.update_of_ne hj ..
  refine ⟨⟨Function.update_self .., Function.update_self .., Function.update_self ..,
    Function.update_self .., trivial, trivial⟩, (h.around.link hcs).congr rfl fun j hj =>
      hsame j fun he => hi (he ▸ hj), ?_⟩
  have hn := h.nodup
  rw [(toList_plug_perm ..).nodup_iff] at hn ⊢
  exact List.nodup_cons.mpr ⟨hi, hn⟩

/-- The end of `tree_add`. -/
theorem addEnd (h : At s (node true nil i nil) cs) (hv : Valid (RBTree.plug nil cs))
    (hn : cs.length ≤ n) :
    ∃ s' t, s.addEnd n i (top cs) = some s' ∧ At s' t [] ∧ t.Valid ∧
      t.toList = (RBTree.plug (node true nil i nil) cs).toList ∧ s'.key = s.key := by
  obtain ⟨m, hole, hm, -⟩ := hv.open
  cases hm with
  | nil =>
      have hb : Balanced (node true nil i nil) 0 := .red .nil .nil rfl rfl
      obtain ⟨s', hs', h', hk⟩ := h.insertLoop hole rfl hn
      have hlist := toList_insertFix (node true nil i nil) cs
      obtain ⟨root, hroot⟩ : ∃ root, (insertFix (node true nil i nil) cs).ptr = some root := by
        cases ht : insertFix (node true nil i nil) cs with
        | nil =>
            rw [ht, toList_plug] at hlist
            have hmem : i ∈ ([] : List Nat) := by
              rw [show [] = _ from hlist]
              exact List.mem_append_left _ (List.mem_append_right _ List.mem_cons_self)
            cases hmem
        | node _ _ root _ => exact ⟨root, rfl⟩
      refine ⟨_, _, ?_, h'.paint hroot false, insertFix_valid hole hb rfl,
        (toList_paint ..).trans hlist, hk⟩
      rw [Tree.addEnd, hs']
      simp only [Option.bind_eq_bind, Option.bind_some]
      rw [show s'.root = some root from h'.around.trans hroot]
      rfl

end At

namespace Keeps

variable [LinearOrder κ] {s : Tree κ} {t : RBTree Nat} {i n : Nat} {k : κ}

theorem root (h : Keeps s t) : s.root = t.ptr := h.shape.around

/-- What is in the place of a key. -/
theorem located (h : Keeps s t) :
    (∃ cs, locate s.key k t [] = (nil, cs) ∧ RBTree.plug nil cs = t ∧ ∀ j ∈ t.toList, s.key j ≠ k) ∨
      ∃ red l j r cs, locate s.key k t [] = (node red l j r, cs) ∧ j ∈ t.toList ∧ s.key j = k := by
  have hplug := plug_locate s.key k t []
  cases hloc : locate s.key k t [] with
  | mk u cs =>
      rw [hloc] at hplug
      cases u with
      | nil => exact Or.inl ⟨cs, rfl, hplug, locate_none h.sorted hloc⟩
      | node red l j r =>
          refine Or.inr ⟨red, l, j, r, cs, rfl, ?_, locate_found hloc⟩
          rw [show t = RBTree.plug (node red l j r) cs from hplug.symm, toList_plug, toList]
          simp

/-- `tree_find`: the node with the key, if there is one. -/
theorem find (h : Keeps s t) (hn : t.depth ≤ n) :
    ∃ p, s.find k n s.root = some p ∧ ∀ i, p = some i ↔ i ∈ t.toList ∧ s.key i = k := by
  have hfind := h.shape.find k hn
  rw [h.root]
  obtain ⟨cs, hloc, -, hne⟩ | ⟨red, l, j, r, cs, hloc, hj, hk⟩ := h.located (k := k)
  · rw [hloc] at hfind
    refine ⟨none, hfind, fun i => iff_of_false (by rintro ⟨⟩) fun hi => hne i hi.1 hi.2⟩
  · rw [hloc] at hfind
    refine ⟨some j, hfind, fun i => ⟨?_, fun hi => ?_⟩⟩
    · rintro ⟨⟩
      exact ⟨hj, hk⟩
    · exact congrArg some (h.sorted.inj hj hi.1 (hk.trans hi.2.symm))

/-- `tree_add`: the node goes into the tree, unless its key is there. -/
theorem add (h : Keeps s t) (hi : i ∉ t.toList) (hn : t.depth ≤ n) :
    ((∃ j ∈ t.toList, s.key j = k) ∧ s.add n i k = some (s, false)) ∨
      ((∀ j ∈ t.toList, s.key j ≠ k) ∧ ∃ s' t', s.add n i k = some (s', true) ∧ Keeps s' t' ∧
        t'.toList.Perm (i :: t.toList) ∧ s'.key = Function.update s.key i k) := by
  obtain ⟨cs, hloc, hplug, hne⟩ | ⟨red, l, j, r, cs, hloc, hj, hk⟩ := h.located (k := k)
  · refine Or.inr ⟨hne, ?_⟩
    have hcs : At s nil cs := At.of_whole (hplug ▸ h.shape)
    have hperm := toList_plug_perm nil cs
    rw [hplug, toList, List.nil_append] at hperm
    have hic : i ∉ RBTree.around cs := fun hm => hi (hperm.mem_iff.mpr hm)
    have hdepth := length_le_depth nil cs
    rw [hplug] at hdepth
    have hv : Valid (RBTree.plug nil cs) := hplug.symm ▸ h.valid
    obtain ⟨s', t', hs', h', hv', hlist, hk⟩ := (hcs.initNode hic k).addEnd hv
      (((Nat.le_add_right ..).trans hdepth).trans hn)
    have hkey : s'.key = Function.update s.key i k := by
      rw [hk]
      exact congrArg (Function.update · i k) Tree.key_link
    have hold : ∀ j ∈ t.toList, s'.key j = s.key j := fun j hj => by
      rw [hkey]
      refine Function.update_of_ne ?_ ..
      rintro rfl
      exact hi hj
    have hnew : s'.key i = k := by rw [hkey, Function.update_self]
    refine ⟨s', t', ?_, ⟨h', hv', ?_⟩, ?_, hkey⟩
    · cases t with
      | nil =>
          cases hloc
          rw [Tree.add, h.root]
          have hend : (Tree.initNode { s with root := some i } i k none).addEnd n i none =
              some s' := hs'
          simp only [ptr, hend]
          rfl
      | node red l j r =>
          cases cs with
          | nil => cases hplug
          | cons c cs =>
              have hd := h.shape.descend k rfl hn
              rw [hloc] at hd
              rw [Tree.add, h.root]
              have hend : ((s.setChild c.side c.a (some i)).initNode i k (some c.a)).addEnd n i
                  (some c.a) = some s' := hs'
              simp only [ptr, Option.bind_eq_bind, hd, Option.bind_some, At.place, hend]
              rfl
    · rw [hlist]
      have hmem : ∀ {j}, j ∈ before cs ∨ j ∈ after cs → j ∈ t.toList := fun hj => by
        rw [← hplug, toList_plug, toList, List.append_nil]
        exact List.mem_append.mpr hj
      obtain ⟨hl, hr⟩ := locate_missing (t := t) h.sorted before_nil after_nil hloc
      refine sorted_insert ?_ (fun j hj => ?_) (fun j hj => ?_) rfl
      · rw [hplug]
        exact h.sorted.imp_of_mem fun hj hk hlt => by rwa [hold _ hj, hold _ hk]
      · rw [hold j (hmem (Or.inl hj)), hnew]
        exact hl j hj
      · rw [hold j (hmem (Or.inr hj)), hnew]
        exact hr j hj
    · rw [hlist]
      exact (toList_plug_perm ..).trans (.cons i hperm.symm)
  · refine Or.inl ⟨⟨j, hj, hk⟩, ?_⟩
    cases ht : t.ptr with
    | none =>
        cases t with
        | nil => cases hj
        | node => cases ht
    | some root =>
        have hd := h.shape.descend k ht hn
        rw [hloc] at hd
        rw [Tree.add, h.root, ht]
        simp only [Option.bind_eq_bind, hd, Option.bind_some]
        rfl

end Keeps

end Ztk.Wepoll
