import Mathlib

/-!
# Rings of cells

Cells that are linked both ways to a ring.  One of the cells is its head, and the others, in
the order of the links, are its list.  The rings of a memory are told apart by their heads, and
a cell that is linked to itself is a ring whose list is empty.
-/

namespace Ztk.Lib

/-- Where the two pointers of a cell lead. -/
structure Links (α : Type) where
  next : α → α
  prev : α → α

namespace Links

variable {α : Type} {s t : Links α} {h n u v x : α} {l l₁ l₂ a b : List α}

/-- One cell comes after another one. -/
def Linked (s : Links α) (x y : α) : Prop := s.next x = y ∧ s.prev y = x

/-- From the head through the list and back. -/
def Ring (s : Links α) (h : α) (l : List α) : Prop := (h :: (l ++ [h])).IsChain s.Linked

theorem ring_nil : s.Ring h [] ↔ s.Linked h h := List.isChain_pair

/-- A chain depends on the links between its cells. -/
theorem chain_congr (hl : l.IsChain s.Linked) (hnext : ∀ x ∈ l.dropLast, t.next x = s.next x)
    (hprev : ∀ x ∈ l.tail, t.prev x = s.prev x) : l.IsChain t.Linked := by
  induction l with
  | nil => exact .nil
  | cons x l ih =>
      cases l with
      | nil => exact .singleton x
      | cons y l =>
          rw [List.isChain_cons_cons] at hl ⊢
          have hx : t.next x = s.next x := hnext x List.mem_cons_self
          have hy : t.prev y = s.prev y := hprev y List.mem_cons_self
          refine ⟨⟨hx.trans hl.1.1, hy.trans hl.1.2⟩, ih hl.2 (fun z hz => ?_) fun z hz => ?_⟩
          · exact hnext z (List.mem_cons_of_mem x hz)
          · exact hprev z (List.mem_cons_of_mem y hz)

theorem Ring.congr (hr : s.Ring h l)
    (hs : ∀ x ∈ h :: l, t.next x = s.next x ∧ t.prev x = s.prev x) : t.Ring h l := by
  refine chain_congr hr (fun x hx => (hs x ?_).1) fun x hx => (hs x ?_).2
  · rw [← List.cons_append, List.dropLast_concat] at hx
    exact hx
  · exact (List.perm_append_singleton h l).mem_iff.mp hx

/-- A cut through a ring, between two cells. -/
theorem ring_cut (hu : h :: l₁ = a ++ [u]) (hv : l₂ ++ [h] = v :: b) :
    s.Ring h (l₁ ++ l₂) ↔
      (a ++ [u]).IsChain s.Linked ∧ s.Linked u v ∧ (v :: b).IsChain s.Linked := by
  rw [Ring, List.append_assoc, ← List.cons_append, hu, hv, List.append_assoc, List.singleton_append,
    List.isChain_append_cons_cons]

/-- What lies on the two sides of the cut. -/
theorem cut_disjoint (hu : h :: l₁ = a ++ [u]) (hv : l₂ ++ [h] = v :: b)
    (hd : (h :: (l₁ ++ l₂)).Nodup) :
    u ∉ a ∧ u ∉ (v :: b).dropLast ∧ v ∉ (a ++ [u]).tail ∧ v ∉ b := by
  have hleft : (a ++ [u]).Nodup := by
    rw [← hu]
    exact hd.sublist ((List.sublist_append_left l₁ l₂).cons_cons h)
  have hright : (v :: b).Nodup := by
    rw [← hv, (List.perm_append_singleton h l₂).nodup_iff]
    exact hd.sublist ((List.sublist_append_right l₁ l₂).cons_cons h)
  have hsplit : ((a ++ [u]) ++ l₂).Nodup := by
    rw [← hu]
    exact hd
  have hback : (l₁ ++ (v :: b)).Nodup := by
    rw [← hv, ← List.append_assoc, (List.perm_append_singleton h (l₁ ++ l₂)).nodup_iff]
    exact hd
  refine ⟨fun hm => ?_, fun hm => ?_, fun hm => ?_, (List.nodup_cons.mp hright).1⟩
  · exact (List.disjoint_of_nodup_append hleft) hm (List.mem_singleton_self u)
  · rw [← hv, List.dropLast_concat] at hm
    exact (List.disjoint_of_nodup_append hsplit)
      (List.mem_append_right a (List.mem_singleton_self u)) hm
  · rw [← hu] at hm
    exact (List.disjoint_of_nodup_append hback) hm List.mem_cons_self

/-- The two sides of a cut are as they were after writes to the cells at the cut. -/
theorem sides (hu : h :: l₁ = a ++ [u]) (hv : l₂ ++ [h] = v :: b) (hd : (h :: (l₁ ++ l₂)).Nodup)
    (hleft : (a ++ [u]).IsChain s.Linked) (hright : (v :: b).IsChain s.Linked)
    (hnext : ∀ x ∈ h :: (l₁ ++ l₂), x ≠ u → t.next x = s.next x)
    (hprev : ∀ x ∈ h :: (l₁ ++ l₂), x ≠ v → t.prev x = s.prev x) :
    (a ++ [u]).IsChain t.Linked ∧ (v :: b).IsChain t.Linked := by
  obtain ⟨hua, hub, hva, hvb⟩ := cut_disjoint hu hv hd
  have hin : ∀ x, x ∈ a ++ [u] ∨ x ∈ v :: b → x ∈ h :: (l₁ ++ l₂) := by
    intro x hx
    rw [← hu, ← hv] at hx
    simp only [List.mem_cons, List.mem_append, List.not_mem_nil, or_false] at hx ⊢
    tauto
  constructor
  · refine chain_congr hleft (fun x hx => ?_) fun x hx => ?_
    · rw [List.dropLast_concat] at hx
      exact hnext x (hin x (Or.inl (List.mem_append_left _ hx))) fun he => hua (he ▸ hx)
    · exact hprev x (hin x (Or.inl (List.mem_of_mem_tail hx))) fun he => hva (he ▸ hx)
  · refine chain_congr hright (fun x hx => ?_) fun x hx => ?_
    · exact hnext x (hin x (Or.inr (List.mem_of_mem_dropLast hx))) fun he => hub (he ▸ hx)
    · exact hprev x (hin x (Or.inr (List.mem_cons_of_mem v hx))) fun he => hvb (he ▸ hx)

/-- The ends of a cut are cells of the ring. -/
theorem cut_mem (hu : h :: l₁ = a ++ [u]) (hv : l₂ ++ [h] = v :: b) :
    u ∈ h :: (l₁ ++ l₂) ∧ v ∈ h :: (l₁ ++ l₂) := by
  have hum : u ∈ h :: l₁ := by
    rw [hu]
    exact List.mem_append_right a (List.mem_singleton_self u)
  have hvm : v ∈ h :: l₂ := by
    rw [← (List.perm_append_singleton h l₂).mem_iff, hv]
    exact List.mem_cons_self
  exact ⟨(List.sublist_append_left (h :: l₁) l₂).mem hum,
    ((List.sublist_append_right l₁ l₂).cons_cons h).mem hvm⟩

/-- The neighbours of a cell. -/
theorem Ring.neighbours (hr : s.Ring h (l₁ ++ n :: l₂)) (hu : h :: l₁ = a ++ [u])
    (hv : l₂ ++ [h] = v :: b) : s.Linked u n ∧ s.Linked n v := by
  have hv' : (n :: l₂) ++ [h] = n :: (v :: b) := congrArg (n :: ·) hv
  obtain ⟨-, hun, hright⟩ := (ring_cut hu hv').mp hr
  exact ⟨hun, (List.isChain_cons_cons.mp hright).1⟩

/-! ## Writes -/

variable [DecidableEq α]

/-- Put a cell in between two others. -/
def splice (s : Links α) (u n v : α) : Links α where
  next := Function.update (Function.update s.next n v) u n
  prev := Function.update (Function.update s.prev n u) v n

/-- Link two cells. -/
def link (s : Links α) (u v : α) : Links α where
  next := Function.update s.next u v
  prev := Function.update s.prev v u

/-- A cell is put in. -/
theorem Ring.splice (hr : s.Ring h (l₁ ++ l₂)) (hu : h :: l₁ = a ++ [u]) (hv : l₂ ++ [h] = v :: b)
    (hd : (h :: (l₁ ++ l₂)).Nodup) (hn : n ∉ h :: (l₁ ++ l₂)) :
    (s.splice u n v).Ring h (l₁ ++ n :: l₂) := by
  obtain ⟨hum, hvm⟩ := cut_mem hu hv
  have hout : ∀ x ∈ h :: (l₁ ++ l₂), x ≠ n := fun x hx he => hn (he ▸ hx)
  obtain ⟨hleft, -, hright⟩ := (ring_cut hu hv).mp hr
  obtain ⟨hleft', hright'⟩ := sides (t := s.splice u n v) hu hv hd hleft hright
    (fun x hx hxu => (Function.update_of_ne hxu ..).trans
      (Function.update_of_ne (hout x hx) ..))
    (fun x hx hxv => (Function.update_of_ne hxv ..).trans
      (Function.update_of_ne (hout x hx) ..))
  have hv' : (n :: l₂) ++ [h] = n :: (v :: b) := congrArg (n :: ·) hv
  have hbefore : (s.splice u n v).Linked u n :=
    ⟨Function.update_self ..,
      (Function.update_of_ne (hout v hvm).symm ..).trans (Function.update_self ..)⟩
  have hafter : (s.splice u n v).Linked n v :=
    ⟨(Function.update_of_ne (hout u hum).symm ..).trans (Function.update_self ..),
      Function.update_self ..⟩
  exact (ring_cut hu hv').mpr ⟨hleft', hbefore, List.isChain_cons_cons.mpr ⟨hafter, hright'⟩⟩

/-- A cell is left out. -/
theorem Ring.link (hr : s.Ring h (l₁ ++ n :: l₂)) (hu : h :: l₁ = a ++ [u])
    (hv : l₂ ++ [h] = v :: b) (hd : (h :: (l₁ ++ l₂)).Nodup) :
    (s.link u v).Ring h (l₁ ++ l₂) := by
  have hv' : (n :: l₂) ++ [h] = n :: (v :: b) := congrArg (n :: ·) hv
  obtain ⟨hleft, -, hright⟩ := (ring_cut hu hv').mp hr
  obtain ⟨hleft', hright'⟩ := sides (t := s.link u v) hu hv hd hleft
    (List.isChain_cons_cons.mp hright).2 (fun _ _ hx => Function.update_of_ne hx ..)
    (fun _ _ hx => Function.update_of_ne hx ..)
  exact (ring_cut hu hv).mpr
    ⟨hleft', ⟨Function.update_self .., Function.update_self ..⟩, hright'⟩

/-! ## The ends -/

omit [DecidableEq α] in
/-- The cell after the head. -/
theorem Ring.next_head (hr : s.Ring h l) : s.next h = l.head?.getD h := by
  cases l with
  | nil => exact (ring_nil.mp hr).1
  | cons x l => exact (List.isChain_cons_cons.mp hr).1.1

omit [DecidableEq α] in
/-- The cell before the head. -/
theorem Ring.prev_head (hr : s.Ring h l) : s.prev h = l.getLast?.getD h := by
  induction l using List.reverseRecOn with
  | nil => exact (ring_nil.mp hr).2
  | append_singleton l x _ =>
      rw [Ring, List.append_assoc, List.singleton_append, ← List.cons_append,
        List.isChain_append_cons_cons] at hr
      rw [List.getLast?_concat]
      exact hr.2.1.2

end Links

end Ztk.Lib
