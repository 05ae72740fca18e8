import Mathlib
import Ztk.Lib.BinaryHeap
import Ztk.Lib.Machine

/-!
# The timer heap of a poller

`timer_heap_reserve` to `timer_heap_remove` and `ztk_poller_timer_insert_locked`
of `poller_timer.c`.  Timers are named by numbers, their addresses.  The array
`timer_heap` is a function from positions to timers of which the first `count`
positions are in use, and each timer holds its own position in `heapIndex`,
where `none` is `ZTK_TIMER_HEAP_INDEX_NONE`.

The representation has two halves.  The positions agree: `Indexed` says that
the timer at `i` has the index `i`, and `Placed t` that a timer with an index is
where it says.  The order is `BinaryHeap.Ordered` of the deadlines.  A sift
rearranges the array and touches neither the members nor the deadlines
(`Sifted`), whatever the order, so the first half needs nothing of the second.
-/

namespace Ztk.Poller

open Ztk.Lib Ztk.Lib.BinaryHeap

/-! ## Timers and the array -/

/-- The fields of `ztk_poller_timer` that the heap and its users read. -/
structure Timer where
  cancelled : Bool
  deadlineMs : Nat
  heapIndex : Option Nat
deriving DecidableEq, Repr

/-- The timers, and the fields `timer_heap`, `timer_heap_count` and
`timer_heap_cap` of `ztk_poller`. -/
structure TimerHeap where
  timer : Nat → Timer
  heap : Nat → Nat
  count : Nat
  cap : Nat

namespace TimerHeap

/-- `timer->heap_index = i`. -/
def setIndex (p : TimerHeap) (t : Nat) (i : Option Nat) : TimerHeap :=
  { p with timer := Function.update p.timer t { p.timer t with heapIndex := i } }

/-- `timer->deadline_ms = d`. -/
def setDeadline (p : TimerHeap) (t d : Nat) : TimerHeap :=
  { p with timer := Function.update p.timer t { p.timer t with deadlineMs := d } }

/-- `p->timer_heap[i]->deadline_ms`. -/
def deadlineAt (p : TimerHeap) (i : Nat) : Nat := (p.timer (p.heap i)).deadlineMs

/-- The timer is in the array. -/
def Mem (p : TimerHeap) (t : Nat) : Prop := ∃ i < p.count, p.heap i = t

end TimerHeap

/-! ## The functions of the source -/

/-- The loop `while (cap < need) cap *= 2;`. -/
def growCap (cap need : Nat) : Nat :=
  if h : 0 < cap ∧ cap < need then growCap (cap * 2) need else cap
termination_by need - cap
decreasing_by omega

/-- `timer_heap_reserve`.  `realloc` says whether `realloc` returns memory. -/
def timerHeapReserve (realloc : Bool) (p : TimerHeap) (need : Nat) : Option TimerHeap :=
  let cap := if p.cap ≠ 0 then p.cap else 8
  if need ≤ p.cap then some p
  else if realloc then some { p with cap := growCap cap need }
  else none

/-- `timer_heap_swap`. -/
def timerHeapSwap (p : TimerHeap) (i j : Nat) : TimerHeap :=
  let heap := Function.update (Function.update p.heap i (p.heap j)) j (p.heap i)
  (({ p with heap := heap }).setIndex (heap i) (some i)).setIndex (heap j) (some j)

/-- `timer_heap_bubble_up`. -/
def timerHeapBubbleUp (p : TimerHeap) (i : Nat) : TimerHeap :=
  if _h : 0 < i then
    if p.deadlineAt (parent i) ≤ p.deadlineAt i then p
    else timerHeapBubbleUp (timerHeapSwap p (parent i) i) (parent i)
  else p
termination_by i
decreasing_by exact parent_lt ‹0 < i›

/-- The local variable `smallest` of `timer_heap_bubble_down`. -/
def smallest (p : TimerHeap) (i : Nat) : Nat :=
  let left := i * 2 + 1
  let right := left + 1
  let s := if left < p.count ∧ p.deadlineAt left < p.deadlineAt i then left else i
  if right < p.count ∧ p.deadlineAt right < p.deadlineAt s then right else s

theorem smallest_cases (p : TimerHeap) (i : Nat) :
    smallest p i = i ∨
      (0 < smallest p i ∧ smallest p i < p.count ∧ parent (smallest p i) = i ∧
        p.deadlineAt (smallest p i) < p.deadlineAt i) := by
  have hl : parent (i * 2 + 1) = i := by unfold parent; omega
  have hr : parent (i * 2 + 1 + 1) = i := by unfold parent; omega
  simp only [smallest]
  by_cases h1 : i * 2 + 1 < p.count ∧ p.deadlineAt (i * 2 + 1) < p.deadlineAt i
  · simp only [h1, and_self, if_true]
    split
    · next h2 => exact Or.inr ⟨by omega, h2.1, hr, Nat.lt_trans h2.2 h1.2⟩
    · exact Or.inr ⟨by omega, h1.1, hl, h1.2⟩
  · simp only [h1, if_false]
    split
    · next h2 => exact Or.inr ⟨by omega, h2.1, hr, h2.2⟩
    · exact Or.inl rfl

theorem lt_smallest {p : TimerHeap} {i : Nat} (h : smallest p i ≠ i) :
    i < smallest p i ∧ smallest p i < p.count := by
  rcases smallest_cases p i with he | ⟨h0, hc, hp, -⟩
  · exact absurd he h
  · have := parent_lt h0
    omega

@[simp] theorem timerHeapSwap_count (p : TimerHeap) (i j : Nat) :
    (timerHeapSwap p i j).count = p.count := rfl

/-- `timer_heap_bubble_down`. -/
def timerHeapBubbleDown (p : TimerHeap) (i : Nat) : TimerHeap :=
  if _h : smallest p i = i then p
  else timerHeapBubbleDown (timerHeapSwap p i (smallest p i)) (smallest p i)
termination_by p.count - i
decreasing_by
  have := lt_smallest ‹¬ smallest p i = i›
  simp only [timerHeapSwap_count]
  omega

/-- `timer_heap_push`.  The flag is false when the source returns -1. -/
def timerHeapPush (realloc : Bool) (p : TimerHeap) (t : Nat) : Bool × TimerHeap :=
  match timerHeapReserve realloc p (p.count + 1) with
  | none => (false, p)
  | some p =>
      let i := p.count
      let p := p.setIndex t (some i)
      (true, timerHeapBubbleUp { p with heap := Function.update p.heap i t, count := i + 1 } i)

/-- `timer->heap_index = ZTK_TIMER_HEAP_INDEX_NONE; --p->timer_heap_count;` -/
def unplace (p : TimerHeap) (t : Nat) : TimerHeap :=
  { p.setIndex t none with count := p.count - 1 }

/-- `p->timer_heap[i] = p->timer_heap[p->timer_heap_count];` and its index. -/
def refill (p : TimerHeap) (i : Nat) : TimerHeap :=
  { p with heap := Function.update p.heap i (p.heap p.count) }.setIndex (p.heap p.count) (some i)

/-- `timer_heap_pop_min`. -/
def timerHeapPopMin (p : TimerHeap) : Option Nat × TimerHeap :=
  if p.count = 0 then (none, p)
  else
    let top := p.heap 0
    let p := unplace p top
    if 0 < p.count then (some top, timerHeapBubbleDown (refill p 0) 0)
    else (some top, p)

/-- `timer_heap_remove`. -/
def timerHeapRemove (p : TimerHeap) (t : Nat) : TimerHeap :=
  match (p.timer t).heapIndex with
  | none => p
  | some i =>
      if p.count ≤ i then p
      else
        let p := unplace p t
        if i < p.count then timerHeapBubbleUp (timerHeapBubbleDown (refill p i) i) i
        else p

/-- `ztk_poller_timer_insert_locked`. -/
def pollerTimerInsertLocked (realloc : Bool) (p : TimerHeap) (t deadline : Nat) : TimerHeap :=
  let p := p.setDeadline t deadline
  let p := if (p.timer t).heapIndex ≠ none then timerHeapRemove p t else p
  (timerHeapPush realloc p t).2

/-! ## Positions -/

namespace TimerHeap

/-- The timer at a position has that position as its index. -/
def Indexed (p : TimerHeap) : Prop := ∀ i < p.count, (p.timer (p.heap i)).heapIndex = some i

/-- A timer with an index is at that position. -/
def Placed (p : TimerHeap) (t : Nat) : Prop :=
  ∀ i, (p.timer t).heapIndex = some i → i < p.count ∧ p.heap i = t

theorem Indexed.inj {p : TimerHeap} (h : p.Indexed) {i j : Nat} (hi : i < p.count)
    (hj : j < p.count) (he : p.heap i = p.heap j) : i = j := by
  have h1 := h i hi
  rw [he, h j hj] at h1
  exact (Option.some.inj h1).symm

theorem Indexed.index_of_mem {p : TimerHeap} (h : p.Indexed) {t : Nat} (ht : p.Mem t) :
    ∃ i < p.count, p.heap i = t ∧ (p.timer t).heapIndex = some i := by
  obtain ⟨i, hi, rfl⟩ := ht
  exact ⟨i, hi, rfl, h i hi⟩

/-- A timer without an index is not in the array. -/
theorem Indexed.not_mem {p : TimerHeap} (h : p.Indexed) {t : Nat}
    (ht : (p.timer t).heapIndex = none) : ¬ p.Mem t := by
  intro hm
  obtain ⟨i, -, -, hi⟩ := h.index_of_mem hm
  rw [ht] at hi
  cases hi

theorem Placed.index_none {p : TimerHeap} {t : Nat} (h : p.Placed t) (ht : ¬ p.Mem t) :
    (p.timer t).heapIndex = none := by
  cases hi : (p.timer t).heapIndex with
  | none => rfl
  | some i => exact absurd ⟨i, h i hi⟩ ht

@[simp] theorem setIndex_heap (p : TimerHeap) (t : Nat) (i : Option Nat) :
    (p.setIndex t i).heap = p.heap := rfl

@[simp] theorem setIndex_deadline (p : TimerHeap) (t u : Nat) (i : Option Nat) :
    ((p.setIndex t i).timer u).deadlineMs = (p.timer u).deadlineMs := by
  by_cases h : u = t
  · subst h
    simp [setIndex]
  · simp [setIndex, h]

@[simp] theorem setIndex_cancelled (p : TimerHeap) (t u : Nat) (i : Option Nat) :
    ((p.setIndex t i).timer u).cancelled = (p.timer u).cancelled := by
  by_cases h : u = t
  · subst h
    simp [setIndex]
  · simp [setIndex, h]

@[simp] theorem setIndex_index_self (p : TimerHeap) (t : Nat) (i : Option Nat) :
    ((p.setIndex t i).timer t).heapIndex = i := by
  simp [setIndex]

theorem setIndex_index_of_ne (p : TimerHeap) {t u : Nat} (i : Option Nat) (h : u ≠ t) :
    ((p.setIndex t i).timer u).heapIndex = (p.timer u).heapIndex := by
  simp [setIndex, h]

end TimerHeap

open TimerHeap

/-- `q` holds the timers of `p`, perhaps at other positions. -/
structure Sifted (p q : TimerHeap) : Prop where
  count : q.count = p.count
  cap : q.cap = p.cap
  deadline : ∀ t, (q.timer t).deadlineMs = (p.timer t).deadlineMs
  cancelled : ∀ t, (q.timer t).cancelled = (p.timer t).cancelled
  mem : ∀ t, q.Mem t ↔ p.Mem t
  indexed : p.Indexed → q.Indexed
  placed : p.Indexed → ∀ t, p.Placed t → q.Placed t

theorem Sifted.refl (p : TimerHeap) : Sifted p p :=
  ⟨rfl, rfl, fun _ => rfl, fun _ => rfl, fun _ => Iff.rfl, id, fun _ _ => id⟩

theorem Sifted.trans {p q r : TimerHeap} (h₁ : Sifted p q) (h₂ : Sifted q r) : Sifted p r where
  count := h₂.count.trans h₁.count
  cap := h₂.cap.trans h₁.cap
  deadline := fun t => (h₂.deadline t).trans (h₁.deadline t)
  cancelled := fun t => (h₂.cancelled t).trans (h₁.cancelled t)
  mem := fun t => (h₂.mem t).trans (h₁.mem t)
  indexed := fun h => h₂.indexed (h₁.indexed h)
  placed := fun h t ht => h₂.placed (h₁.indexed h) t (h₁.placed h t ht)

/-- The array after a swap. -/
theorem timerHeapSwap_heap (p : TimerHeap) (i j : Nat) :
    (timerHeapSwap p i j).heap = p.heap ∘ Equiv.swap i j := by
  funext k
  simp only [timerHeapSwap, setIndex_heap, Function.comp]
  by_cases hj : k = j
  · subst hj
    simp
  · by_cases hi : k = i
    · subst hi
      simp [hj]
    · simp [hi, hj, Equiv.swap_apply_of_ne_of_ne hi hj]

theorem timerHeapSwap_deadline (p : TimerHeap) (i j t : Nat) :
    ((timerHeapSwap p i j).timer t).deadlineMs = (p.timer t).deadlineMs := by
  simp [timerHeapSwap]

/-- The deadlines by position after a swap. -/
theorem timerHeapSwap_deadlineAt (p : TimerHeap) (i j : Nat) :
    (timerHeapSwap p i j).deadlineAt = p.deadlineAt ∘ Equiv.swap i j := by
  funext k
  simp only [deadlineAt, timerHeapSwap_deadline, timerHeapSwap_heap, Function.comp]

/-- The index a timer has after a swap of two positions in use. -/
theorem timerHeapSwap_index (p : TimerHeap) {i j t : Nat} :
    ((timerHeapSwap p i j).timer t).heapIndex =
      if t = p.heap i then some j else if t = p.heap j then some i
      else (p.timer t).heapIndex := by
  have hj : Function.update (Function.update p.heap i (p.heap j)) j (p.heap i) j = p.heap i := by
    simp
  by_cases hti : t = p.heap i
  · subst hti
    simp [timerHeapSwap]
  · rw [if_neg hti]
    simp only [timerHeapSwap, hj]
    rw [setIndex_index_of_ne _ _ hti]
    by_cases hij : i = j
    · subst hij
      simp [hti, setIndex_index_of_ne]
    · simp only [ne_eq, hij, not_false_eq_true, Function.update_of_ne, Function.update_self]
      by_cases htj : t = p.heap j
      · subst htj
        simp
      · simp [htj, setIndex_index_of_ne]

theorem swap_lt {i j k n : Nat} (hi : i < n) (hj : j < n) :
    Equiv.swap i j k < n ↔ k < n := by
  by_cases hki : k = i
  · subst hki
    simp [hi, hj]
  · by_cases hkj : k = j
    · subst hkj
      simp [hi, hj]
    · rw [Equiv.swap_apply_of_ne_of_ne hki hkj]

/-- A swap of two positions in use only rearranges. -/
theorem timerHeapSwap_sifted {p : TimerHeap} {i j : Nat} (hi : i < p.count) (hj : j < p.count) :
    Sifted p (timerHeapSwap p i j) where
  count := rfl
  cap := rfl
  deadline := timerHeapSwap_deadline p i j
  cancelled := by
    intro t
    simp [timerHeapSwap]
  mem := by
    intro t
    rw [Mem, timerHeapSwap_heap, timerHeapSwap_count]
    constructor
    · rintro ⟨k, hk, rfl⟩
      exact ⟨Equiv.swap i j k, (swap_lt hi hj).mpr hk, rfl⟩
    · rintro ⟨k, hk, rfl⟩
      exact ⟨Equiv.swap i j k, (swap_lt hi hj).mpr hk, by simp⟩
  indexed := by
    intro h k hk
    rw [timerHeapSwap_count] at hk
    rw [timerHeapSwap_index, timerHeapSwap_heap, Function.comp]
    by_cases hki : k = i
    · subst hki
      rw [Equiv.swap_apply_left]
      split
      · next he => rw [h.inj hj hi he]
      · simp
    · by_cases hkj : k = j
      · subst hkj
        simp [Equiv.swap_apply_right]
      · rw [Equiv.swap_apply_of_ne_of_ne hki hkj, if_neg (fun he => hki (h.inj hk hi he)),
          if_neg (fun he => hkj (h.inj hk hj he))]
        exact h k hk
  placed := by
    intro h t ht k hk
    rw [timerHeapSwap_index] at hk
    rw [timerHeapSwap_count, timerHeapSwap_heap, Function.comp]
    split at hk
    · next he =>
        cases hk
        exact ⟨hj, by rw [Equiv.swap_apply_right, he]⟩
    · next hne =>
        split at hk
        · next he =>
            cases hk
            exact ⟨hi, by rw [Equiv.swap_apply_left, he]⟩
        · next hne' =>
            obtain ⟨hlt, he⟩ := ht k hk
            have hki : k ≠ i := fun h' => hne (by rw [← he, h'])
            have hkj : k ≠ j := fun h' => hne' (by rw [← he, h'])
            rw [Equiv.swap_apply_of_ne_of_ne hki hkj]
            exact ⟨hlt, he⟩

/-! ## Sifting -/

theorem timerHeapBubbleUp_sifted (p : TimerHeap) (i : Nat) (hi : i < p.count) :
    Sifted p (timerHeapBubbleUp p i) := by
  induction p, i using timerHeapBubbleUp.induct with
  | case1 p i h0 hle =>
      rw [timerHeapBubbleUp, dif_pos h0, if_pos hle]
      exact Sifted.refl p
  | case2 p i h0 hle ih =>
      rw [timerHeapBubbleUp, dif_pos h0, if_neg hle]
      have hp : parent i < p.count := Nat.lt_trans (parent_lt h0) hi
      exact (timerHeapSwap_sifted hp hi).trans (ih hp)
  | case3 p i h0 =>
      rw [timerHeapBubbleUp, dif_neg h0]
      exact Sifted.refl p

theorem timerHeapBubbleDown_sifted (p : TimerHeap) (i : Nat) (hi : i < p.count) :
    Sifted p (timerHeapBubbleDown p i) := by
  induction p, i using timerHeapBubbleDown.induct with
  | case1 p i h =>
      rw [timerHeapBubbleDown, dif_pos h]
      exact Sifted.refl p
  | case2 p i h ih =>
      rw [timerHeapBubbleDown, dif_neg h]
      have hs := (lt_smallest h).2
      exact (timerHeapSwap_sifted hi hs).trans (ih hs)

/-- Sifting up repairs the edge into a position. -/
theorem timerHeapBubbleUp_ordered (p : TimerHeap) (i : Nat) (hi : i < p.count)
    (h : UpTo p.deadlineAt p.count i) :
    Ordered (timerHeapBubbleUp p i).deadlineAt p.count := by
  induction p, i using timerHeapBubbleUp.induct with
  | case1 p i h0 hle =>
      rw [timerHeapBubbleUp, dif_pos h0, if_pos hle]
      exact h.ordered fun _ => hle
  | case2 p i h0 hle ih =>
      rw [timerHeapBubbleUp, dif_pos h0, if_neg hle]
      have hswap := h.swap h0 hi (Nat.lt_of_not_le hle)
      rw [← timerHeapSwap_deadlineAt] at hswap
      exact ih (Nat.lt_trans (parent_lt h0) hi) hswap
  | case3 p i h0 =>
      rw [timerHeapBubbleUp, dif_neg h0]
      exact h.ordered fun h0' => absurd h0' h0

/-- `smallest` is a least child, or the position itself if no child is below it. -/
theorem smallest_le (p : TimerHeap) (i j : Nat) (hj : 0 < j) (hn : j < p.count)
    (hp : parent j = i) : p.deadlineAt (smallest p i) ≤ p.deadlineAt j := by
  have hcases : j = i * 2 + 1 ∨ j = i * 2 + 1 + 1 := by
    simp only [parent] at hp
    omega
  simp only [smallest]
  by_cases h1 : i * 2 + 1 < p.count ∧ p.deadlineAt (i * 2 + 1) < p.deadlineAt i
  · simp only [h1, and_self, if_true]
    split
    · next h2 =>
        rcases hcases with rfl | rfl
        · exact Nat.le_of_lt h2.2
        · exact Nat.le_refl _
    · next h2 =>
        rcases hcases with rfl | rfl
        · exact Nat.le_refl _
        · exact Nat.le_of_not_lt fun hlt => h2 ⟨hn, hlt⟩
  · simp only [h1, if_false]
    have hleft : j = i * 2 + 1 → p.deadlineAt i ≤ p.deadlineAt j := by
      intro he
      subst he
      exact Nat.le_of_not_lt fun hlt => h1 ⟨hn, hlt⟩
    split
    · next h2 =>
        rcases hcases with he | rfl
        · exact Nat.le_trans (Nat.le_of_lt h2.2) (hleft he)
        · exact Nat.le_refl _
    · next h2 =>
        rcases hcases with he | rfl
        · exact hleft he
        · exact Nat.le_of_not_lt fun hlt => h2 ⟨hn, hlt⟩

/-- Sifting down repairs the edges out of a position. -/
theorem timerHeapBubbleDown_ordered (p : TimerHeap) (i : Nat)
    (h : DownFrom p.deadlineAt p.count i) :
    Ordered (timerHeapBubbleDown p i).deadlineAt p.count := by
  induction p, i using timerHeapBubbleDown.induct with
  | case1 p i hs =>
      rw [timerHeapBubbleDown, dif_pos hs]
      refine h.ordered fun j hj hn hp => ?_
      have := smallest_le p i j hj hn hp
      rwa [hs] at this
  | case2 p i hs ih =>
      rw [timerHeapBubbleDown, dif_neg hs]
      rcases smallest_cases p i with he | ⟨h0, hc, hp, hlt⟩
      · exact absurd he hs
      · have hswap := h.swap h0 hc hp hlt (smallest_le p i)
        rw [← timerHeapSwap_deadlineAt] at hswap
        exact ih hswap

/-- Sifting down and then up repairs a hole. -/
theorem bubbleDownUp_ordered (p : TimerHeap) (i : Nat) (hi : i < p.count)
    (h : Hole p.deadlineAt p.count i) :
    Ordered (timerHeapBubbleUp (timerHeapBubbleDown p i) i).deadlineAt p.count := by
  have hs := timerHeapBubbleDown_sifted p i hi
  by_cases hup : 0 < i ∧ p.deadlineAt i < p.deadlineAt (parent i)
  · -- nothing below `i` is smaller than its parent, so the first sift stays put
    have hstay : smallest p i = i := by
      rcases smallest_cases p i with he | ⟨h0, hc, hp, hlt⟩
      · exact he
      · have := h.bridged hup.1 _ h0 hc hp
        omega
    rw [timerHeapBubbleDown, dif_pos hstay]
    exact timerHeapBubbleUp_ordered p i hi (h.upTo hup.1 hup.2)
  · have hdown := timerHeapBubbleDown_ordered p i
      (h.downFrom fun h0 => Nat.le_of_not_lt fun hlt => hup ⟨h0, hlt⟩)
    have := timerHeapBubbleUp_ordered (timerHeapBubbleDown p i) i (by rw [hs.count]; exact hi)
      (by rw [hs.count]; exact hdown.upTo hi)
    rwa [hs.count] at this

/-! ## Taking a timer out -/

/-- `q` is `p` without the timer `t`. -/
structure Removed (p q : TimerHeap) (t : Nat) : Prop where
  count : q.count = p.count - 1
  cap : q.cap = p.cap
  deadline : ∀ u, (q.timer u).deadlineMs = (p.timer u).deadlineMs
  cancelled : ∀ u, (q.timer u).cancelled = (p.timer u).cancelled
  mem : ∀ u, q.Mem u ↔ p.Mem u ∧ u ≠ t
  indexed : q.Indexed
  placed : ∀ u, p.Placed u → q.Placed u
  index : (q.timer t).heapIndex = none

theorem Removed.sifted {p q r : TimerHeap} {t : Nat} (h : Removed p q t) (hs : Sifted q r) :
    Removed p r t where
  count := hs.count.trans h.count
  cap := hs.cap.trans h.cap
  deadline := fun u => (hs.deadline u).trans (h.deadline u)
  cancelled := fun u => (hs.cancelled u).trans (h.cancelled u)
  mem := fun u => (hs.mem u).trans (h.mem u)
  indexed := hs.indexed h.indexed
  placed := fun u hu => hs.placed h.indexed u (h.placed u hu)
  index := by
    have hp : r.Placed t := by
      refine hs.placed h.indexed t fun i hi => ?_
      rw [h.index] at hi
      cases hi
    refine hp.index_none fun hm => ?_
    exact ((h.mem t).mp ((hs.mem t).mp hm)).2 rfl

/-- The array after a timer is taken out and before it is sifted. -/
def cut (p : TimerHeap) (i : Nat) : TimerHeap :=
  if i < p.count - 1 then refill (unplace p (p.heap i)) i else unplace p (p.heap i)

theorem cut_of_lt {p : TimerHeap} {i : Nat} (h : i < p.count - 1) :
    cut p i = refill (unplace p (p.heap i)) i := if_pos h

theorem cut_of_last {p : TimerHeap} {i : Nat} (h : ¬ i < p.count - 1) :
    cut p i = unplace p (p.heap i) := if_neg h

@[simp] theorem cut_count (p : TimerHeap) (i : Nat) : (cut p i).count = p.count - 1 := by
  simp only [cut]
  split <;> rfl

@[simp] theorem cut_cap (p : TimerHeap) (i : Nat) : (cut p i).cap = p.cap := by
  simp only [cut]
  split <;> rfl

theorem cut_heap {p : TimerHeap} {i : Nat} (h : i < p.count - 1) :
    (cut p i).heap = Function.update p.heap i (p.heap (p.count - 1)) := by
  rw [cut_of_lt h]
  rfl

theorem cut_heap_of_ne (p : TimerHeap) {i k : Nat} (h : k ≠ i) : (cut p i).heap k = p.heap k := by
  simp only [cut]
  split
  · simp [refill, unplace, h]
  · rfl

theorem cut_deadline (p : TimerHeap) (i u : Nat) :
    ((cut p i).timer u).deadlineMs = (p.timer u).deadlineMs := by
  simp only [cut]
  split <;> simp [refill, unplace, setIndex] <;> grind [Function.update_apply]

theorem cut_cancelled (p : TimerHeap) (i u : Nat) :
    ((cut p i).timer u).cancelled = (p.timer u).cancelled := by
  simp only [cut]
  split <;> simp [refill, unplace, setIndex] <;> grind [Function.update_apply]

/-- The index a timer has after a cut. -/
theorem cut_index {p : TimerHeap} (h : p.Indexed) {i : Nat} (hi : i < p.count) (u : Nat) :
    ((cut p i).timer u).heapIndex =
      if u = p.heap i then none
      else if i < p.count - 1 ∧ u = p.heap (p.count - 1) then some i
      else (p.timer u).heapIndex := by
  by_cases hlt : i < p.count - 1
  · have hne : p.heap (p.count - 1) ≠ p.heap i := by
      intro he
      have := h.inj (by omega) hi he
      omega
    rw [cut_of_lt hlt]
    by_cases hu : u = p.heap i
    · subst hu
      simp [refill, unplace, Ne.symm hne, setIndex]
    · by_cases hl : u = p.heap (p.count - 1)
      · subst hl
        simp [refill, unplace, hu, hlt]
      · simp [refill, unplace, setIndex, hu, hl]
  · rw [cut_of_last hlt]
    by_cases hu : u = p.heap i
    · subst hu
      simp [unplace, setIndex]
    · simp [unplace, setIndex, hu, hlt]

/-- A cut takes out exactly the timer at the position. -/
theorem cut_removed {p : TimerHeap} (h : p.Indexed) {i : Nat} (hi : i < p.count) :
    Removed p (cut p i) (p.heap i) where
  count := cut_count p i
  cap := cut_cap p i
  deadline := cut_deadline p i
  cancelled := cut_cancelled p i
  mem := by
    intro u
    rw [Mem, cut_count]
    constructor
    · rintro ⟨k, hk, rfl⟩
      by_cases hki : k = i
      · subst hki
        rw [cut_heap hk, Function.update_self]
        refine ⟨⟨p.count - 1, by omega, rfl⟩, fun he => ?_⟩
        have := h.inj (by omega) hi he
        omega
      · rw [cut_heap_of_ne p hki]
        exact ⟨⟨k, by omega, rfl⟩, fun he => hki (h.inj (by omega) hi he)⟩
    · rintro ⟨⟨k, hk, rfl⟩, hne⟩
      have hki : k ≠ i := fun he => hne (he ▸ rfl)
      by_cases hlast : k = p.count - 1
      · subst hlast
        have hlt : i < p.count - 1 := by omega
        exact ⟨i, hlt, by rw [cut_heap hlt, Function.update_self]⟩
      · exact ⟨k, by omega, cut_heap_of_ne p hki⟩
  indexed := by
    intro k hk
    rw [cut_count] at hk
    rw [cut_index h hi]
    by_cases hki : k = i
    · subst hki
      rw [cut_heap hk, Function.update_self, if_neg, if_pos ⟨hk, rfl⟩]
      intro he
      have := h.inj (by omega) hi he
      omega
    · rw [cut_heap_of_ne p hki, if_neg (fun he => hki (h.inj (by omega) hi he)), if_neg]
      · exact h k (by omega)
      · rintro ⟨-, he⟩
        have := h.inj (by omega) (by omega) he
        omega
  placed := by
    intro u hu k hk
    rw [cut_index h hi] at hk
    rw [cut_count]
    split at hk
    · cases hk
    · next hne =>
        split at hk
        · next hl =>
            cases hk
            exact ⟨hl.1, by rw [cut_heap hl.1, Function.update_self, hl.2]⟩
        · next hl =>
            obtain ⟨hlt, he⟩ := hu k hk
            have hki : k ≠ i := fun h' => hne (by rw [← he, h'])
            have hkl : k ≠ p.count - 1 := by
              rintro rfl
              exact hl ⟨by omega, he.symm⟩
            exact ⟨by omega, by rw [cut_heap_of_ne p hki, he]⟩
  index := by
    rw [cut_index h hi, if_pos rfl]

theorem cut_deadlineAt (p : TimerHeap) {i k : Nat} (h : k ≠ i) :
    (cut p i).deadlineAt k = p.deadlineAt k := by
  rw [deadlineAt, cut_heap_of_ne p h, cut_deadline]
  rfl

/-- A cut in the middle leaves a hole there. -/
theorem cut_hole {p : TimerHeap} {i : Nat} (hi : i < p.count)
    (h : Hole p.deadlineAt p.count i) : Hole (cut p i).deadlineAt (p.count - 1) i := by
  have h' : Hole p.deadlineAt (p.count - 1 + 1) i := by
    rwa [Nat.sub_add_cancel (by omega)]
  exact h'.shrink.congr fun k _ hk => cut_deadlineAt p hk

/-- A cut at the end leaves no defect. -/
theorem cut_last_ordered {p : TimerHeap} {i : Nat} (hi : i < p.count) (hlast : ¬ i < p.count - 1)
    (h : Hole p.deadlineAt p.count i) : Ordered (cut p i).deadlineAt (p.count - 1) := by
  have he : i = p.count - 1 := by omega
  have h' : Hole p.deadlineAt (p.count - 1 + 1) (p.count - 1) := by
    rw [Nat.sub_add_cancel (by omega), ← he]
    exact h
  intro j hj hn
  have hp : parent j < j := parent_lt hj
  rw [cut_deadlineAt p (by omega), cut_deadlineAt p (by omega)]
  exact h'.dropLast j hj hn

/-- `timer_heap_remove` of a timer in the array. -/
theorem timerHeapRemove_eq {p : TimerHeap} {t i : Nat} (hidx : (p.timer t).heapIndex = some i)
    (hi : i < p.count) (ht : p.heap i = t) :
    timerHeapRemove p t =
      if i < p.count - 1 then timerHeapBubbleUp (timerHeapBubbleDown (cut p i) i) i
      else cut p i := by
  subst ht
  simp only [timerHeapRemove, hidx]
  rw [if_neg (by omega)]
  by_cases hlt : i < p.count - 1
  · rw [if_pos (by exact hlt), if_pos hlt, cut_of_lt hlt]
  · rw [if_neg (by exact hlt), if_neg hlt, cut_of_last hlt]

/-- `timer_heap_remove` takes out exactly its timer, whatever the order. -/
theorem timerHeapRemove_removed {p : TimerHeap} {t : Nat} (h : p.Indexed) (hm : p.Mem t) :
    Removed p (timerHeapRemove p t) t := by
  obtain ⟨i, hi, he, hidx⟩ := h.index_of_mem hm
  rw [timerHeapRemove_eq hidx hi he]
  have hcut := cut_removed h hi
  rw [he] at hcut
  split
  · next hlt =>
      have hd := timerHeapBubbleDown_sifted (cut p i) i (by rw [cut_count]; exact hlt)
      have hu := timerHeapBubbleUp_sifted (timerHeapBubbleDown (cut p i) i) i
        (by rw [hd.count, cut_count]; exact hlt)
      exact hcut.sifted (hd.trans hu)
  · exact hcut

/-- Outside the array there is nothing to take out. -/
theorem timerHeapRemove_not_mem {p : TimerHeap} {t : Nat} (ht : p.Placed t) (hm : ¬ p.Mem t) :
    timerHeapRemove p t = p := by
  simp [timerHeapRemove, ht.index_none hm]

theorem timerHeapRemove_ordered {p : TimerHeap} {t i : Nat} (h : p.Indexed)
    (hi : i < p.count) (ht : p.heap i = t) (ho : Hole p.deadlineAt p.count i) :
    Ordered (timerHeapRemove p t).deadlineAt (p.count - 1) := by
  have hidx : (p.timer t).heapIndex = some i := ht ▸ h i hi
  rw [timerHeapRemove_eq hidx hi ht]
  split
  · next hlt =>
      have hh := cut_hole hi ho
      rw [← cut_count p i] at hh ⊢
      exact bubbleDownUp_ordered (cut p i) i (by rw [cut_count]; exact hlt) hh
  · next hlt => exact cut_last_ordered hi hlt ho

/-- `timer_heap_pop_min` returns the timer at the root. -/
theorem timerHeapPopMin_eq {p : TimerHeap} (h : 0 < p.count) :
    timerHeapPopMin p =
      (some (p.heap 0), if 0 < p.count - 1 then timerHeapBubbleDown (cut p 0) 0 else cut p 0) := by
  simp only [timerHeapPopMin]
  rw [if_neg (by omega)]
  by_cases hlt : 0 < p.count - 1
  · rw [if_pos (by exact hlt), if_pos hlt, cut_of_lt hlt]
  · rw [if_neg (by exact hlt), if_neg hlt, cut_of_last hlt]

theorem timerHeapPopMin_removed {p : TimerHeap} (h : p.Indexed) (h0 : 0 < p.count) :
    Removed p (timerHeapPopMin p).2 (p.heap 0) := by
  rw [timerHeapPopMin_eq h0]
  have hcut := cut_removed h h0
  simp only
  split
  · next hlt => exact hcut.sifted (timerHeapBubbleDown_sifted _ _ (by rw [cut_count]; exact hlt))
  · exact hcut

theorem timerHeapPopMin_ordered {p : TimerHeap} (h0 : 0 < p.count)
    (ho : Ordered p.deadlineAt p.count) :
    Ordered (timerHeapPopMin p).2.deadlineAt (p.count - 1) := by
  rw [timerHeapPopMin_eq h0]
  simp only
  split
  · have hh := cut_hole h0 (ho.hole h0)
    rw [← cut_count p 0] at hh ⊢
    exact timerHeapBubbleDown_ordered (cut p 0) 0 (hh.downFrom fun h => absurd h (by omega))
  · next hlt => exact cut_last_ordered h0 hlt (ho.hole h0)

end Ztk.Poller
