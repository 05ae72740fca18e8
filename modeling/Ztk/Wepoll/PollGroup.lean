import Mathlib

/-!
# Poll groups

`poll_group_t` of `wepoll.c`: sockets share a handle of the AFD device, at most
`POLL_GROUP__MAX_GROUP_SIZE` of them one handle.  The queue of the groups of a port is kept
so that its last group has room if any group has: a group that becomes full goes to the
front, and one that a socket leaves goes to the end.

A group is named by the order of its creation; `held` has the group of each acquisition that
was not released.
-/

namespace Ztk.Wepoll

/-- `POLL_GROUP__MAX_GROUP_SIZE`. -/
def pollGroupMaxGroupSize : Nat := 32

/-- The poll groups of a port. -/
structure PollGroups where
  /-- `poll_group_queue`. -/
  queue : List Nat
  /-- `group_size`. -/
  size : Nat → Nat
  next : Nat
  held : List Nat
  /-- The most acquisitions at a time so far. -/
  peak : Nat
  /-- An assertion did not hold. -/
  failed : Bool

namespace PollGroups

def empty : PollGroups where
  queue := []
  size _ := 0
  next := 0
  held := []
  peak := 0
  failed := false

/-- `poll_group__new`, where memory and a device handle are to be had. -/
def new (s : PollGroups) : PollGroups :=
  { s with
    queue := s.queue ++ [s.next]
    size := Function.update s.size s.next 0
    next := s.next + 1 }

/-- The end of `poll_group_acquire`. -/
def join (s : PollGroups) (g : Nat) : PollGroups :=
  { s with
    queue := if s.size g + 1 = pollGroupMaxGroupSize then g :: s.queue.erase g else s.queue
    size := Function.update s.size g (s.size g + 1)
    held := g :: s.held
    peak := max s.peak (s.held.length + 1) }

/-- The group at the end of the queue, if it has room. -/
def lastWithRoom (s : PollGroups) : Option Nat :=
  s.queue.getLast?.filter fun g => s.size g < pollGroupMaxGroupSize

/-- `poll_group_acquire`; `canCreate` says whether `poll_group__new` succeeds. -/
def acquire (s : PollGroups) (canCreate : Bool) : Option (Nat × PollGroups) :=
  match s.lastWithRoom with
  | some g => some (g, s.join g)
  | none => if canCreate then some (s.next, s.new.join s.next) else none

theorem acquire_true (s : PollGroups) : ∃ g groups, s.acquire true = some (g, groups) := by
  rw [acquire]
  split
  · exact ⟨_, _, rfl⟩
  · exact ⟨_, _, rfl⟩

/-- `size_t` one less. -/
def sizeDec (n : Nat) : Nat := (n + (2 ^ 64 - 1)) % 2 ^ 64

/-- `poll_group_release`. -/
def release (s : PollGroups) (g : Nat) : PollGroups :=
  { s with
    queue := s.queue.erase g ++ [g]
    size := Function.update s.size g (sizeDec (s.size g))
    held := s.held.erase g
    failed := s.failed || !decide (sizeDec (s.size g) < pollGroupMaxGroupSize) }

/-- `poll_group_delete`. -/
def delete (s : PollGroups) (g : Nat) : PollGroups :=
  { s with queue := s.queue.erase g, failed := s.failed || !decide (s.size g = 0) }

end PollGroups

/-! ## The invariant -/

/-- Full groups stand first, and a group has as many sockets as acquired it. -/
structure GroupsOrder (s : PollGroups) : Prop where
  sound : s.failed = false
  nodup : s.queue.Nodup
  known : ∀ g ∈ s.queue, g < s.next
  held : ∀ g ∈ s.held, g ∈ s.queue
  count : ∀ g ∈ s.queue, s.size g = s.held.count g
  sorted : ∃ full rest, s.queue = full ++ rest ∧ (∀ g ∈ full, s.size g = pollGroupMaxGroupSize) ∧
    ∀ g ∈ rest, s.size g < pollGroupMaxGroupSize
  peak : s.held.length ≤ s.peak

/-- No more groups were made than the sockets needed. -/
structure GroupsInv (s : PollGroups) : Prop extends GroupsOrder s where
  spare : pollGroupMaxGroupSize * s.queue.length ≤ s.peak + (pollGroupMaxGroupSize - 1)

namespace GroupsOrder

variable {s : PollGroups} {g : Nat}

theorem size_le (h : GroupsOrder s) (hg : g ∈ s.queue) : s.size g ≤ pollGroupMaxGroupSize := by
  obtain ⟨full, rest, hq, hfull, hrest⟩ := h.sorted
  rw [hq, List.mem_append] at hg
  obtain hg | hg := hg
  · exact (hfull g hg).le
  · exact (hrest g hg).le

/-- Where every group is full, the sockets are as many as the groups hold. -/
theorem length_held (h : GroupsOrder s)
    (hfull : ∀ g ∈ s.queue, s.size g = pollGroupMaxGroupSize) :
    s.held.length = pollGroupMaxGroupSize * s.queue.length := by
  have hsum : ∑ g ∈ s.queue.toFinset, (s.held : Multiset Nat).count g = s.held.length :=
    Multiset.sum_count_eq_card fun g hg => List.mem_toFinset.mpr (h.held g hg)
  have hconst : ∀ g ∈ s.queue.toFinset, (s.held : Multiset Nat).count g =
      pollGroupMaxGroupSize := by
    intro g hg
    have hq := List.mem_toFinset.mp hg
    rw [Multiset.coe_count, ← h.count g hq, hfull g hq]
  rw [← hsum, Finset.sum_congr rfl hconst, Finset.sum_const, smul_eq_mul,
    List.toFinset_card_of_nodup h.nodup, Nat.mul_comm]

/-- No group has room when the last one has none. -/
theorem all_full (h : GroupsOrder s) (hlast : s.lastWithRoom = none) (hg : g ∈ s.queue) :
    s.size g = pollGroupMaxGroupSize := by
  obtain ⟨full, rest, hq, hfull, hrest⟩ := h.sorted
  rcases List.eq_nil_or_concat rest with hnil | ⟨init, last, hrest'⟩
  · rw [hq, hnil, List.append_nil] at hg
    exact hfull g hg
  · have hroom := hrest last (by simp [hrest'])
    rw [PollGroups.lastWithRoom, hq, hrest', List.concat_eq_append, ← List.append_assoc,
      List.getLast?_concat,
      Option.filter_eq_none_iff] at hlast
    exact absurd (decide_eq_true hroom) (hlast last rfl)

/-- The last group of the queue, when it has room. -/
theorem lastWithRoom (hlast : s.lastWithRoom = some g) :
    g ∈ s.queue ∧ s.size g < pollGroupMaxGroupSize := by
  obtain ⟨hg, hroom⟩ := Option.filter_eq_some_iff.mp hlast
  exact ⟨List.mem_of_getLast? hg, of_decide_eq_true hroom⟩

/-- A new group, when all others are full. -/
theorem new (h : GroupsOrder s) (hfull : ∀ g ∈ s.queue, s.size g = pollGroupMaxGroupSize) :
    GroupsOrder s.new := by
  have hne : ∀ {g}, g ∈ s.queue → g ≠ s.next := fun hg => (h.known _ hg).ne
  have hsize : ∀ {g}, g ∈ s.queue → s.new.size g = s.size g := fun hg =>
    Function.update_of_ne (hne hg) ..
  have hzero : s.new.size s.next = 0 := Function.update_self ..
  refine ⟨h.sound, ?_, fun g hg => ?_, fun g hg => List.mem_append_left _ (h.held g hg),
    fun g hg => ?_, ⟨s.queue, [s.next], rfl, fun g hg => ?_, fun g hg => ?_⟩, h.peak⟩
  · exact List.nodup_append.mpr ⟨h.nodup, List.nodup_singleton _, fun a ha b hb => by
      rw [List.mem_singleton.mp hb]
      exact hne ha⟩
  · rcases List.mem_append.mp hg with hg | hg
    · exact Nat.lt_succ_of_lt (h.known g hg)
    · rw [List.mem_singleton.mp hg]
      exact Nat.lt_succ_self _
  · rcases List.mem_append.mp hg with hg | hg
    · rw [hsize hg]
      exact h.count g hg
    · rw [List.mem_singleton.mp hg, hzero]
      exact (List.count_eq_zero.mpr fun hm => hne (h.held _ hm) rfl).symm
  · rw [hsize hg, hfull g hg]
  · rw [List.mem_singleton.mp hg, hzero]
    decide

/-- One more socket in a group with room. -/
theorem join (h : GroupsOrder s) (hg : g ∈ s.queue) (hroom : s.size g < pollGroupMaxGroupSize) :
    GroupsOrder (s.join g) := by
  have hmem : ∀ {j}, j ∈ (s.join g).queue ↔ j ∈ s.queue := by
    intro j
    simp only [PollGroups.join]
    split
    · rw [List.mem_cons, h.nodup.mem_erase_iff]
      constructor
      · rintro (rfl | ⟨-, hj⟩)
        · exact hg
        · exact hj
      · intro hj
        by_cases hjg : j = g
        · exact Or.inl hjg
        · exact Or.inr ⟨hjg, hj⟩
    · rfl
  have hsize : ∀ {j}, j ≠ g → (s.join g).size j = s.size j := fun hj =>
    Function.update_of_ne hj ..
  have hself : (s.join g).size g = s.size g + 1 := Function.update_self ..
  refine ⟨h.sound, ?_, fun j hj => h.known j (hmem.mp hj), fun j hj => hmem.mpr ?_,
    fun j hj => ?_, ?_, Nat.le_max_right ..⟩
  · simp only [PollGroups.join]
    split
    · exact List.nodup_cons.mpr ⟨fun hm => (h.nodup.mem_erase_iff.mp hm).1 rfl, h.nodup.erase g⟩
    · exact h.nodup
  · rcases List.mem_cons.mp hj with rfl | hj
    · exact hg
    · exact h.held j hj
  · show (s.join g).size j = (g :: s.held).count j
    by_cases hjg : j = g
    · rw [hjg, hself, List.count_cons_self, h.count g hg]
    · rw [hsize hjg, List.count_cons_of_ne (Ne.symm hjg), h.count j (hmem.mp hj)]
  · obtain ⟨full, rest, hq, hfull, hrest⟩ := h.sorted
    have hgf : g ∉ full := fun hm => Nat.lt_irrefl _ (hfull g hm ▸ hroom)
    by_cases hlast : s.size g + 1 = pollGroupMaxGroupSize
    · refine ⟨g :: full, rest.erase g, ?_, fun j hj => ?_, fun j hj => ?_⟩
      · show (if s.size g + 1 = pollGroupMaxGroupSize then g :: s.queue.erase g else s.queue) = _
        rw [if_pos hlast, hq, List.erase_append_right _ hgf, List.cons_append]
      · rcases List.mem_cons.mp hj with rfl | hj
        · rw [hself, hlast]
        · rw [hsize fun he => hgf (he ▸ hj), hfull j hj]
      · have hn := h.nodup
        rw [hq] at hn
        obtain ⟨hjg, hj⟩ := (List.nodup_append.mp hn).2.1.mem_erase_iff.mp hj
        rw [hsize hjg]
        exact hrest j hj
    · refine ⟨full, rest, ?_, fun j hj => ?_, fun j hj => ?_⟩
      · show (if s.size g + 1 = pollGroupMaxGroupSize then g :: s.queue.erase g else s.queue) = _
        rw [if_neg hlast, hq]
      · rw [hsize fun he => hgf (he ▸ hj), hfull j hj]
      · by_cases hjg : j = g
        · rw [hjg, hself]
          omega
        · rw [hsize hjg]
          exact hrest j hj

end GroupsOrder

/-! ## The operations keep it -/

namespace GroupsInv

variable {s s' : PollGroups} {g : Nat}

theorem empty : GroupsInv .empty where
  sound := rfl
  nodup := List.nodup_nil
  known _ h := absurd h List.not_mem_nil
  held _ h := absurd h List.not_mem_nil
  count _ h := absurd h List.not_mem_nil
  sorted := ⟨[], [], rfl, fun _ h => absurd h List.not_mem_nil,
    fun _ h => absurd h List.not_mem_nil⟩
  peak := Nat.le_refl 0
  spare := Nat.zero_le _

theorem length_join : (s.join g).queue.length = s.queue.length ∨ g ∉ s.queue := by
  by_cases hg : g ∈ s.queue
  · have := List.length_pos_of_mem hg
    have := List.length_erase_of_mem hg
    simp only [PollGroups.join]
    split
    · rw [List.length_cons]
      omega
    · exact Or.inl rfl
  · exact Or.inr hg

/-- A group is made only when all are full. -/
theorem acquire (h : GroupsInv s) {canCreate : Bool} (ha : s.acquire canCreate = some (g, s')) :
    GroupsInv s' ∧ s'.held = g :: s.held := by
  rw [PollGroups.acquire] at ha
  split at ha
  · next j hlast =>
      cases ha
      obtain ⟨hg, hroom⟩ := GroupsOrder.lastWithRoom hlast
      refine ⟨⟨h.join hg hroom, ?_⟩, rfl⟩
      have hspare := h.spare
      rw [length_join.resolve_right (not_not.mpr hg)]
      exact hspare.trans (Nat.add_le_add_right (Nat.le_max_left ..) _)
  · next hlast =>
      obtain ⟨-, ha⟩ := Option.ite_none_right_eq_some.mp ha
      cases ha
      have hfull := fun j => h.all_full (g := j) hlast
      have hnew := h.toGroupsOrder.new hfull
      have hg : s.next ∈ s.new.queue := List.mem_append_right _ (List.mem_singleton_self _)
      have hroom : s.new.size s.next < pollGroupMaxGroupSize := by
        rw [show s.new.size s.next = 0 from Function.update_self ..]
        decide
      refine ⟨⟨hnew.join hg hroom, ?_⟩, rfl⟩
      have hlen := h.length_held hfull
      rw [length_join.resolve_right (not_not.mpr hg)]
      show pollGroupMaxGroupSize * (s.queue ++ [s.next]).length ≤
        max s.peak (s.held.length + 1) + (pollGroupMaxGroupSize - 1)
      rw [List.length_append, List.length_singleton]
      simp only [pollGroupMaxGroupSize] at hlen ⊢
      omega

theorem sizeDec_of_pos {n : Nat} (h0 : 0 < n) (hn : n ≤ pollGroupMaxGroupSize) :
    PollGroups.sizeDec n = n - 1 := by
  simp only [pollGroupMaxGroupSize] at hn
  rw [PollGroups.sizeDec]
  omega

/-- A socket leaves its group. -/
theorem release (h : GroupsInv s) (hg : g ∈ s.held) : GroupsInv (s.release g) := by
  have hq := h.held g hg
  have hcount := h.count g hq
  have hpos := List.count_pos_iff.mpr hg
  have hle := h.size_le hq
  have hdec := sizeDec_of_pos (hcount ▸ hpos) hle
  have hself : (s.release g).size g = s.size g - 1 := (Function.update_self ..).trans hdec
  have hsize : ∀ {j}, j ≠ g → (s.release g).size j = s.size j := fun hj =>
    Function.update_of_ne hj ..
  have hmem : ∀ {j}, j ∈ (s.release g).queue ↔ j ∈ s.queue := by
    intro j
    show j ∈ s.queue.erase g ++ [g] ↔ _
    rw [List.mem_append, List.mem_singleton, h.nodup.mem_erase_iff]
    constructor
    · rintro (⟨-, hj⟩ | rfl)
      · exact hj
      · exact hq
    · intro hj
      by_cases hjg : j = g
      · exact Or.inr hjg
      · exact Or.inl ⟨hjg, hj⟩
  have hroom : s.size g - 1 < pollGroupMaxGroupSize := by omega
  have hlen : (s.release g).queue.length = s.queue.length := by
    have := List.length_pos_of_mem hq
    show (s.queue.erase g ++ [g]).length = _
    rw [List.length_append, List.length_erase_of_mem hq, List.length_singleton]
    omega
  refine ⟨⟨?_, ?_, fun j hj => h.known j (hmem.mp hj), fun j hj => hmem.mpr ?_, fun j hj => ?_,
    ?_, ?_⟩, ?_⟩
  · show (s.failed || !decide (PollGroups.sizeDec (s.size g) < pollGroupMaxGroupSize)) = false
    rw [h.sound, hdec, decide_eq_true hroom]
    rfl
  · exact List.nodup_append.mpr ⟨h.nodup.erase g, List.nodup_singleton _, fun a ha b hb => by
      rw [List.mem_singleton.mp hb]
      exact (h.nodup.mem_erase_iff.mp ha).1⟩
  · exact h.held j (List.mem_of_mem_erase hj)
  · show (s.release g).size j = (s.held.erase g).count j
    by_cases hjg : j = g
    · rw [hjg, hself, List.count_erase_self, hcount]
    · rw [hsize hjg, List.count_erase_of_ne hjg, h.count j (hmem.mp hj)]
  · obtain ⟨full, rest, hqueue, hfull, hrest⟩ := h.sorted
    have hn := h.nodup
    rw [hqueue] at hn
    obtain ⟨hnf, hnr, hdisj⟩ := List.nodup_append.mp hn
    refine ⟨full.erase g, rest.erase g ++ [g], ?_, fun j hj => ?_, fun j hj => ?_⟩
    · show s.queue.erase g ++ [g] = _
      rw [hqueue, ← List.append_assoc]
      by_cases hgf : g ∈ full
      · rw [List.erase_append_left _ hgf,
          List.erase_of_not_mem (l := rest) fun hgr => hdisj g hgf g hgr rfl]
      · rw [List.erase_append_right _ hgf, List.erase_of_not_mem hgf]
    · obtain ⟨hjg, hj⟩ := hnf.mem_erase_iff.mp hj
      rw [hsize hjg, hfull j hj]
    · rcases List.mem_append.mp hj with hj | hj
      · obtain ⟨hjg, hj⟩ := hnr.mem_erase_iff.mp hj
        rw [hsize hjg]
        exact hrest j hj
      · rw [List.mem_singleton.mp hj, hself]
        exact hroom
  · exact (List.length_erase_le ..).trans h.peak
  · rw [hlen]
    exact h.spare

/-- A group without sockets goes when the port is deleted. -/
theorem delete (h : GroupsInv s) (hg : g ∈ s.queue) (hn : g ∉ s.held) : GroupsInv (s.delete g) := by
  have hsub : ∀ {j}, j ∈ s.queue.erase g → j ∈ s.queue := fun hj => List.mem_of_mem_erase hj
  refine ⟨⟨?_, h.nodup.erase g, fun j hj => h.known j (hsub hj), fun j hj => ?_,
    fun j hj => h.count j (hsub hj), ?_, h.peak⟩, ?_⟩
  · show (s.failed || !decide (s.size g = 0)) = false
    rw [h.sound, h.count g hg, List.count_eq_zero.mpr hn]
    rfl
  · have hjg : j ≠ g := fun he => hn (he ▸ hj)
    exact (List.mem_erase_of_ne hjg).mpr (h.held j hj)
  · obtain ⟨full, rest, hq, hfull, hrest⟩ := h.sorted
    by_cases hgf : g ∈ full
    · refine ⟨full.erase g, rest, ?_, fun j hj => hfull j (List.mem_of_mem_erase hj), hrest⟩
      show s.queue.erase g = _
      rw [hq, List.erase_append_left _ hgf]
    · refine ⟨full, rest.erase g, ?_, hfull, fun j hj => hrest j (List.mem_of_mem_erase hj)⟩
      show s.queue.erase g = _
      rw [hq, List.erase_append_right _ hgf]
  · exact (Nat.mul_le_mul_left _ (List.length_erase_le ..)).trans h.spare

end GroupsInv

end Ztk.Wepoll
