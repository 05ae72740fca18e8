import Ztk.Poller.Timer

/-!
# A cancelled timer is not called again

`cancelled` is only ever set.  The operations of the heap write deadlines and
indices, and the one step that clears the flag is the allocation of a timer,
which has a new name.  So after the store of `ztk_poller_timer_cancel` every
test of the flag finds it set, whatever has happened to the timer: not yet
inserted, in the array, or inside its callback.
-/

namespace Ztk.Poller

open Ztk.Lib TimerHeap

/-! ## The heap leaves the flag alone -/

theorem timerHeapSwap_cancelled (p : TimerHeap) (i j t : Nat) :
    ((timerHeapSwap p i j).timer t).cancelled = (p.timer t).cancelled := by
  simp [timerHeapSwap]

theorem timerHeapBubbleUp_cancelled (p : TimerHeap) (i t : Nat) :
    ((timerHeapBubbleUp p i).timer t).cancelled = (p.timer t).cancelled := by
  induction p, i using timerHeapBubbleUp.induct with
  | case1 p i h0 hle => rw [timerHeapBubbleUp, dif_pos h0, if_pos hle]
  | case2 p i h0 hle ih =>
      rw [timerHeapBubbleUp, dif_pos h0, if_neg hle, ih]
      exact timerHeapSwap_cancelled p _ _ t
  | case3 p i h0 => rw [timerHeapBubbleUp, dif_neg h0]

theorem timerHeapBubbleDown_cancelled (p : TimerHeap) (i t : Nat) :
    ((timerHeapBubbleDown p i).timer t).cancelled = (p.timer t).cancelled := by
  induction p, i using timerHeapBubbleDown.induct with
  | case1 p i h => rw [timerHeapBubbleDown, dif_pos h]
  | case2 p i h ih =>
      rw [timerHeapBubbleDown, dif_neg h, ih]
      exact timerHeapSwap_cancelled p _ _ t

theorem timerHeapPush_cancelled (realloc : Bool) (p : TimerHeap) (u t : Nat) :
    ((timerHeapPush realloc p u).2.timer t).cancelled = (p.timer t).cancelled := by
  rcases timerHeapPush_cases realloc p u with h | ⟨cap, -, h⟩
  · rw [h]
  · rw [h, timerHeapBubbleUp_cancelled]
    exact setIndex_cancelled _ u t _

theorem unplace_cancelled (p : TimerHeap) (u t : Nat) :
    ((unplace p u).timer t).cancelled = (p.timer t).cancelled :=
  setIndex_cancelled p u t _

theorem refill_cancelled (p : TimerHeap) (i t : Nat) :
    ((refill p i).timer t).cancelled = (p.timer t).cancelled :=
  setIndex_cancelled _ _ t _

theorem timerHeapPopMin_cancelled (p : TimerHeap) (t : Nat) :
    ((timerHeapPopMin p).2.timer t).cancelled = (p.timer t).cancelled := by
  simp only [timerHeapPopMin]
  split
  · rfl
  · split
    · rw [timerHeapBubbleDown_cancelled, refill_cancelled, unplace_cancelled]
    · exact unplace_cancelled p _ t

theorem timerHeapRemove_cancelled (p : TimerHeap) (u t : Nat) :
    ((timerHeapRemove p u).timer t).cancelled = (p.timer t).cancelled := by
  simp only [timerHeapRemove]
  split
  · rfl
  · split
    · rfl
    · split
      · rw [timerHeapBubbleUp_cancelled, timerHeapBubbleDown_cancelled, refill_cancelled,
          unplace_cancelled]
      · exact unplace_cancelled p u t

theorem insertLocked_cancelled (realloc : Bool) (p : TimerHeap) (u d t : Nat) :
    ((pollerTimerInsertLocked realloc p u d).timer t).cancelled = (p.timer t).cancelled := by
  simp only [pollerTimerInsertLocked, timerHeapPush_cancelled]
  split
  · rw [timerHeapRemove_cancelled, setDeadline_cancelled]
  · exact setDeadline_cancelled p u d t

theorem calloc_cancelled (p : TimerHeap) {u t : Nat} (h : t ≠ u) :
    ((p.calloc u).timer t).cancelled = (p.timer t).cancelled := by
  simp [TimerHeap.calloc, h]

theorem setCancelled_cancelled (p : TimerHeap) (u t : Nat) :
    ((p.setCancelled u).timer t).cancelled = if t = u then true else (p.timer t).cancelled := by
  by_cases h : t = u
  · simp [TimerHeap.setCancelled, h]
  · simp [TimerHeap.setCancelled, h]

/-! ## The positions -/

theorem calloc_timer (p : TimerHeap) {u t : Nat} (h : t ≠ u) :
    (p.calloc u).timer t = p.timer t := by
  simp [TimerHeap.calloc, h]

theorem calloc_indexed {p : TimerHeap} (h : p.Indexed) {u : Nat} (hu : ¬ p.Mem u) :
    (p.calloc u).Indexed := by
  intro i hi
  have hne : p.heap i ≠ u := fun he => hu ⟨i, hi, he⟩
  show ((p.calloc u).timer (p.heap i)).heapIndex = some i
  rw [calloc_timer p hne]
  exact h i hi

theorem calloc_placed {p : TimerHeap} {t : Nat} (h : p.Placed t) (u : Nat) :
    (p.calloc u).Placed t := by
  intro i hi
  by_cases htu : t = u
  · simp [TimerHeap.calloc, htu] at hi
  · rw [calloc_timer p htu] at hi
    exact h i hi

theorem setCancelled_index (p : TimerHeap) (u t : Nat) :
    ((p.setCancelled u).timer t).heapIndex = (p.timer t).heapIndex := by
  by_cases h : t = u
  · simp [TimerHeap.setCancelled, h]
  · simp [TimerHeap.setCancelled, h]

theorem setCancelled_indexed {p : TimerHeap} (h : p.Indexed) (u : Nat) :
    (p.setCancelled u).Indexed :=
  fun i hi => (setCancelled_index p u _).trans (h i hi)

theorem setCancelled_placed {p : TimerHeap} {t : Nat} (h : p.Placed t) (u : Nat) :
    (p.setCancelled u).Placed t :=
  fun i hi => h i ((setCancelled_index p u t).symm.trans hi)

/-! ## The flag along a run -/

/-- The timer exists and is marked. -/
structure Marked (t : Nat) (s : TimerState) : Prop where
  old : t < s.next
  cancelled : (s.heap.timer t).cancelled = true

/-- The timer stays marked, and nothing was recorded of it. -/
structure Quiesced (t : Nat) (s u : TimerState) : Prop where
  marked : Marked t u
  starts : u.starts t = s.starts t
  rearms : u.rearms t = s.rearms t

/-- A step that changes the timers in no other way than the heap does. -/
theorem Marked.keep {t : Nat} {s u : TimerState} (h : Marked t s) (hn : s.next ≤ u.next)
    (hc : (u.heap.timer t).cancelled = (s.heap.timer t).cancelled)
    (hs : u.starts t = s.starts t) (hr : u.rearms t = s.rearms t) : Quiesced t s u :=
  ⟨⟨Nat.lt_of_lt_of_le h.old hn, hc.trans h.cancelled⟩, hs, hr⟩

theorem Marked.doDelay {t : Nat} {s u : TimerState} {env : DelayEnv} {cb : Bool}
    (h : Marked t s) (he : DelayEnds s env cb u) : Quiesced t s u := by
  have hne : t ≠ s.next := Nat.ne_of_lt h.old
  have hcalloc := calloc_cancelled s.heap hne
  cases he with
  | refused => exact h.keep (Nat.le_refl _) rfl rfl rfl
  | owner d hf hm =>
      refine h.keep (Nat.le_succ _) ?_ rfl rfl
      exact (insertLocked_cancelled _ _ _ _ _).trans hcalloc
  | noctx => exact h.keep (Nat.le_succ _) hcalloc rfl rfl
  | nomem => exact h.keep (Nat.le_succ _) hcalloc rfl rfl
  | queued d hm => exact h.keep (Nat.le_succ _) hcalloc rfl rfl
  | unwoken d hu => exact h.keep (Nat.le_succ _) hcalloc rfl rfl

theorem Marked.cancelPost {t : Nat} {s u : TimerState} {env : AsyncEnv} {callocCtx : Bool} {v : Nat}
    (h : Marked t s) (hs : stepCancelPost s env callocCtx v = some u) : Quiesced t s u := by
  cases (stepCancelPost_eq_some hs).2 with
  | noctx => exact h.keep (Nat.le_refl _) rfl rfl rfl
  | nomem => exact h.keep (Nat.le_refl _) rfl rfl rfl
  | queued => exact h.keep (Nat.le_refl _) rfl rfl rfl
  | unwoken hu => exact h.keep (Nat.le_refl _) rfl rfl rfl

theorem Marked.markCancelled {t : Nat} {s : TimerState} (h : Marked t s) (u : Nat) :
    Quiesced t s (s.markCancelled u) := by
  refine ⟨⟨h.old, ?_⟩, rfl, rfl⟩
  have hset : ((s.markCancelled u).heap.timer t).cancelled = _ := setCancelled_cancelled s.heap u t
  rw [hset, h.cancelled, ite_self]

theorem Marked.cancel {t : Nat} {s u : TimerState} {self v : Nat} (h : Marked t s)
    (hs : stepCancel s self v = some u) : Quiesced t s u := by
  simp only [stepCancel] at hs
  have hm := h.markCancelled v
  split at hs
  · cases hs
  · split at hs
    · cases hs
      exact hm
    · split at hs
      · obtain ⟨-, rfl⟩ := locked_eq_some.mp hs
        refine ⟨⟨h.old, ?_⟩, rfl, rfl⟩
        exact (timerHeapRemove_cancelled _ v t).trans hm.marked.cancelled
      · cases hs
        exact ⟨⟨h.old, hm.marked.cancelled⟩, rfl, rfl⟩

theorem Marked.runTask {t : Nat} {s : TimerState} (h : Marked t s) (realloc : Bool)
    (task : TimerTask) : Quiesced t s (s.runTask realloc task) := by
  cases task with
  | delayInsert u d =>
      exact h.keep (Nat.le_refl _) (insertLocked_cancelled realloc s.heap u d t) rfl rfl
  | timerCancel u => exact h.keep (Nat.le_refl _) (timerHeapRemove_cancelled s.heap u t) rfl rfl

/-- A marked timer that is popped is freed. -/
theorem Marked.fire {t : Nat} {s : TimerState} (h : Marked t s) (u now : Nat) :
    Quiesced t s (s.fire u now) := by
  simp only [TimerState.fire]
  split
  · exact h.keep (Nat.le_refl _) rfl rfl rfl
  · next hc =>
      have hne : t ≠ u := by
        rintro rfl
        exact hc h.cancelled
      exact h.keep (Nat.le_refl _) rfl (by simp [hne]) rfl

theorem Marked.flush {t : Nat} {s u : TimerState} {now : Nat} (h : Marked t s)
    (hs : stepFlush s now = some u) : Quiesced t s u := by
  rw [stepFlush] at hs
  split at hs
  · cases hs
  · split at hs
    · obtain ⟨-, rfl⟩ := locked_eq_some.mp hs
      exact h.keep (Nat.le_refl _) rfl rfl rfl
    · simp only at hs
      split at hs
      · obtain ⟨-, rfl⟩ := locked_eq_some.mp hs
        have hpop : Marked t { s with mem := s.mem.use (s.heap.heap 0) }.popMin :=
          ⟨h.old, (timerHeapPopMin_cancelled s.heap t).trans h.cancelled⟩
        have hf := hpop.fire (s.heap.heap 0) now
        exact ⟨hf.marked, hf.starts, hf.rearms⟩
      · obtain ⟨-, rfl⟩ := locked_eq_some.mp hs
        exact h.keep (Nat.le_refl _) rfl rfl rfl

/-- A marked timer whose callback asks for another turn is freed. -/
theorem Marked.again {t : Nat} {s : TimerState} (h : Marked t s) (realloc : Bool) (u d : Nat) :
    Quiesced t s (s.again realloc u d) := by
  simp only [TimerState.again]
  split
  · exact h.keep (Nat.le_refl _) rfl rfl rfl
  · next hc =>
      have hne : t ≠ u := by
        rintro rfl
        exact hc h.cancelled
      refine h.keep (Nat.le_refl _) (insertLocked_cancelled realloc s.heap u d t) rfl ?_
      show Function.update s.rearms u (s.rearms u + 1) t = s.rearms t
      rw [Function.update_of_ne hne]

/-- No step clears the flag, and no step calls or re-arms a marked timer. -/
theorem Marked.step {t : Nat} {s u : TimerState} {a : TimerAct} (h : Marked t s)
    (hs : timerMachine.step s a = some u) : Quiesced t s u := by
  cases a with
  | bind self =>
      cases hs
      exact h.keep (Nat.le_refl _) rfl rfl rfl
  | doDelay env cb delayMs => exact h.doDelay (stepDoDelay_ends hs)
  | cancel self v => exact h.cancel hs
  | cancelPost env callocCtx v => exact h.cancelPost hs
  | drain =>
      simp only [timerMachine, timerStep] at hs
      split at hs
      · obtain ⟨-, rfl⟩ := locked_eq_some.mp hs
        split
        · exact h.keep (Nat.le_refl _) rfl rfl rfl
        · exact h.keep (Nat.le_refl _) rfl rfl rfl
      · cases hs
  | next realloc =>
      simp only [timerMachine, timerStep] at hs
      split at hs
      · cases hs
      · next n rest _ =>
          obtain ⟨-, rfl⟩ := locked_eq_some.mp hs
          have hm : Marked t { s with list := rest } := ⟨h.old, h.cancelled⟩
          have hq := hm.runTask realloc n.2
          exact ⟨⟨hq.marked.old, hq.marked.cancelled⟩, hq.starts, hq.rearms⟩
  | flush now => exact h.flush hs
  | cbReturn realloc nextMs =>
      simp only [timerMachine, timerStep] at hs
      split at hs
      · cases hs
      · split at hs
        · cases hs
          exact h.again realloc _ _
        · cases hs
          exact h.keep (Nat.le_refl _) rfl rfl rfl
  | timerFini =>
      simp only [timerMachine, timerStep] at hs
      split at hs
      · obtain ⟨-, rfl⟩ := locked_eq_some.mp hs
        exact h.keep (Nat.le_refl _) rfl rfl rfl
      · cases hs

theorem Marked.leads {t : Nat} {s u : TimerState} (h : Marked t s)
    (hl : timerMachine.Leads Machine.Any s u) : Quiesced t s u :=
  hl.invariant
    (fun _ _ _ hq _ hs =>
      have hq' := hq.marked.step hs
      ⟨hq'.marked, hq'.starts.trans hq.starts, hq'.rearms.trans hq.rearms⟩)
    ⟨h, rfl, rfl⟩

/-- The store of `ztk_poller_timer_cancel` marks its timer. -/
theorem stepCancel_marked {s u : TimerState} {self t : Nat}
    (h : stepCancel s self t = some u) : Marked t u := by
  have hset : ((s.heap.setCancelled t).timer t).cancelled = true := by
    rw [setCancelled_cancelled, if_pos rfl]
  simp only [stepCancel] at h
  split at h
  · cases h
  · next hlt =>
      have hlt : t < s.next := Nat.lt_of_not_le hlt
      split at h
      · cases h
        exact ⟨hlt, hset⟩
      · split at h
        · obtain ⟨-, rfl⟩ := locked_eq_some.mp h
          exact ⟨hlt, (timerHeapRemove_cancelled _ t t).trans hset⟩
        · cases h
          exact ⟨hlt, hset⟩

/-- From the store to `cancelled` on, the callback of the timer is not started
and the timer is not re-armed. -/
theorem cancel_no_further_callback {s u v : TimerState} {self t : Nat}
    (hc : timerMachine.step s (.cancel self t) = some u)
    (hl : timerMachine.Leads Machine.Any u v) :
    v.starts t = u.starts t ∧ v.rearms t = u.rearms t := by
  have hq := (stepCancel_marked hc).leads hl
  exact ⟨hq.starts, hq.rearms⟩

/-- The calls of a thread that is not the owner. -/
def otherThread : DelayEnv := ⟨⟨2, true, .ok⟩, 10, true, true, true⟩

/-- A poller owned by thread 1, after thread 2 has asked for a delay. -/
def delayed : TimerState :=
  (pollerDoDelay (.start ⟨true, Chain.empty, 1, 4, 0⟩ true) otherThread true 5).2.hand 0

/-- The same, after thread 2 has marked the timer. -/
def delayedMarked : TimerState :=
  { delayed.markCancelled 0 with cancelling := [0] }

/-- The owner inserts the marked timer, and a flush meets it. -/
def insertMarked : List TimerAct := [.drain, .next true, .flush 100]

theorem cancel_before_insertion :
    timerMachine.step (.start ⟨true, Chain.empty, 1, 4, 0⟩ true) (.doDelay otherThread true 5)
        = some delayed ∧
      timerMachine.step delayed (.cancel 2 0) = some delayedMarked ∧
      ∃ v, timerMachine.run delayedMarked insertMarked = some v ∧ v.starts 0 = 0 ∧
        v.rearms 0 = 0 := by
  have hstep : timerMachine.step delayed (.cancel 2 0) = some delayedMarked := rfl
  have hrun : (timerMachine.run delayedMarked insertMarked).isSome = true := by decide +kernel
  obtain ⟨v, hv⟩ := Option.isSome_iff_exists.mp hrun
  refine ⟨rfl, hstep, v, hv, ?_⟩
  exact cancel_no_further_callback hstep
    (Machine.leads_of_run insertMarked _ _ hv (Machine.runMeets_any _ _))

end Ztk.Poller
