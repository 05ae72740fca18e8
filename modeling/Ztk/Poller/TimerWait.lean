import Ztk.Poller.TimerCancel
import Ztk.Poller.TimerFlush

/-!
# How long a poll may sleep

`ztk_poller_resolve_timeout_ms` of `poller_timer.c`, and the two calls of it in a turn of
`ztk_poller_run`: one for the argument of `ztk_poller_poll`, one inside.

The result is a function of the request and of what the flush returns, and this says
something only while the deadlines lie within half the range of the clock.  A flush keeps
them there if the callbacks do (`Near.loop`).
-/

namespace Ztk.Poller

open Ztk.Lib TimerHeap

/-! ## The calls -/

/-- The end of `ztk_poller_resolve_timeout_ms`, after its flush has returned `delay`. -/
def resolveDelay (delay : Int) (requestMs : Int32) : Int32 :=
  if delay < 0 then requestMs
  else if requestMs.toInt < 0 then Int32.ofInt (if 0x7fffffff < delay then 0x7fffffff else delay)
  else if requestMs.toInt = 0 then 0
  else Int32.ofInt (if delay < requestMs.toInt then delay else requestMs.toInt)

/-- `ztk_poller_resolve_timeout_ms`, with the heap it leaves. -/
def pollerResolveTimeoutMs (timerMtx : Bool) (env : FlushEnv) (p : TimerHeap) (now : Nat)
    (requestMs : Int32) : Int32 × TimerHeap :=
  if !timerMtx then (requestMs, p)
  else
    let r := flushExpiredTimers env p now
    (resolveDelay r.1 requestMs, r.2.heap)

/-- `ZTK_POLLER_PENDING_POLL_MS`. -/
def pollerPendingPollMs : Int32 := 10

/-- What a turn of `ztk_poller_run` meets at its two calls. -/
structure TurnEnv where
  env : FlushEnv
  now : Nat
  /-- The timers other threads mark between the calls. -/
  marked : List Nat
  pollEnv : FlushEnv
  pollNow : Nat

/-- `timer->cancelled = 1` for some timers. -/
def TimerHeap.setAllCancelled (p : TimerHeap) (ts : List Nat) : TimerHeap :=
  ts.foldl TimerHeap.setCancelled p

/-- The first call of a turn of `ztk_poller_run`, for the argument of `ztk_poller_poll`. -/
def runTimeout (e : TurnEnv) (p : TimerHeap) : Int32 × TimerHeap :=
  pollerResolveTimeoutMs true e.env p e.now pollerPendingPollMs

/-- The second one, by `ztk_poller_poll`. -/
def runWait (e : TurnEnv) (p : TimerHeap) : Int32 × TimerHeap :=
  let r := runTimeout e p
  pollerResolveTimeoutMs true e.pollEnv (r.2.setAllCancelled e.marked) e.pollNow r.1

/-! ## Deadlines within half the range of the clock -/

/-- The heap is in order, and no deadline is too far after `now`. -/
structure Near (now : Nat) (p : TimerHeap) : Prop where
  inv : HeapInv p
  deadline : ∀ t, p.Mem t → p.deadline t < now + 2 ^ 63

/-- The callbacks ask for turns that are not too far after `now`. -/
def FlushEnv.Near (env : FlushEnv) (now : Nat) : Prop :=
  ∀ k t, (now + env.cb k t) % 2 ^ 64 < now + 2 ^ 63

namespace Near

variable {now : Nat} {p : TimerHeap}

theorem mono (h : Near now p) {later : Nat} (hle : now ≤ later) : Near later p :=
  ⟨h.inv, fun t ht => by
    have := h.deadline t ht
    omega⟩

theorem popMin (h : Near now p) (h0 : 0 < p.count) : Near now (timerHeapPopMin p).2 := by
  have hr := timerHeapPopMin_removed h.inv.indexed h0
  refine ⟨h.inv.popMin, fun t ht => ?_⟩
  have hm := (hr.mem t).mp ht
  rw [TimerHeap.deadline, hr.deadline t]
  exact h.deadline t hm.1

theorem insertLocked (h : Near now p) (realloc : Bool) (t : Nat) {d : Nat}
    (hd : d < now + 2 ^ 63) : Near now (pollerTimerInsertLocked realloc p t d) := by
  have hi := insertLocked_inserted realloc (d := d) h.inv.indexed (h.inv.placed t)
  refine ⟨h.inv.insertLocked realloc t d, fun u hu => ?_⟩
  rw [TimerHeap.deadline, hi.deadline u]
  by_cases hut : u = t
  · rw [if_pos hut]
    exact hd
  · rw [if_neg hut]
    exact h.deadline u ((hi.mem u hut).mp hu)

theorem setCancelled (h : Near now p) (t : Nat) : Near now (p.setCancelled t) := by
  have hd : ∀ u, (p.setCancelled t).deadline u = p.deadline u := by
    intro u
    by_cases hut : u = t
    · simp [TimerHeap.deadline, TimerHeap.setCancelled, hut]
    · simp [TimerHeap.deadline, TimerHeap.setCancelled, hut]
  have hat : (p.setCancelled t).deadlineAt = p.deadlineAt := funext fun i => hd (p.heap i)
  refine ⟨⟨?_, setCancelled_indexed h.inv.indexed t, fun u => setCancelled_placed (h.inv.placed u) t,
    h.inv.room⟩, fun u hu => ?_⟩
  · rw [hat]
    exact h.inv.order
  · rw [hd]
    exact h.deadline u hu

theorem setAllCancelled (h : Near now p) (ts : List Nat) : Near now (p.setAllCancelled ts) := by
  induction ts generalizing p with
  | nil => exact h
  | cons t ts ih => exact ih (h.setCancelled t)

/-- One iteration of a flush. -/
theorem iterate {env : FlushEnv} {s : FlushLog} (h : Near now s.heap) (henv : env.Near now)
    (h0 : 0 < s.heap.count) : Near now (s.iterate env now).heap := by
  have hpop := h.popMin h0
  rw [FlushLog.iterate]
  generalize timerHeapPopMin s.heap = r at hpop
  obtain ⟨timer, heap⟩ := r
  cases timer with
  | none => exact hpop
  | some timer =>
      simp only
      split
      · exact hpop
      · by_cases hcb : env.hasCb timer = true
        · simp only [hcb, if_true]
          split
          · exact hpop.insertLocked _ timer (henv _ timer)
          · exact hpop
        · simp only [hcb, Bool.false_eq_true, if_false, Nat.lt_irrefl, decide_false,
            Bool.false_and]
          exact hpop

/-- The whole loop. -/
theorem loop {env : FlushEnv} (henv : env.Near now) :
    ∀ (n : Nat) {s : FlushLog}, Near now s.heap → Near now (flushLoop env now n s).heap
  | 0, _, h => h
  | n + 1, s, h => by
      rw [flushLoop]
      by_cases hgo : 0 < s.heap.count ∧ s.heap.deadlineAt 0 ≤ now
      · rw [if_pos hgo]
        exact (h.iterate henv hgo.1).loop henv n
      · rw [if_neg hgo]
        exact h

end Near

/-! ## The bounds -/

/-- What a wait of `w` ms from `now` on owes to the timers left in `q` and to the request. -/
structure WaitBounds (now : Nat) (requestMs w : Int32) (q : TimerHeap) : Prop where
  /-- No timer left is overslept. -/
  due : ∀ t, q.Mem t → 0 ≤ w.toInt ∧ now + w.toInt ≤ max now (q.deadline t)
  /-- Nor is a request to wait no longer than some time. -/
  asked : 0 ≤ requestMs.toInt → 0 ≤ w.toInt ∧ w.toInt ≤ requestMs.toInt
  /-- Without timers the request is granted. -/
  idle : (∀ t, ¬ q.Mem t) → w = requestMs

/-- The wait where a timer is left and the flush has returned the time to it. -/
theorem resolveDelay_nonneg {delay : Int} (h : 0 ≤ delay) (requestMs : Int32) :
    0 ≤ (resolveDelay delay requestMs).toInt ∧ (resolveDelay delay requestMs).toInt ≤ delay ∧
      (0 ≤ requestMs.toInt → (resolveDelay delay requestMs).toInt ≤ requestMs.toInt) := by
  have hhi := requestMs.toInt_lt
  rw [resolveDelay, if_neg (by omega)]
  by_cases hneg : requestMs.toInt < 0
  · rw [if_pos hneg]
    split
    · rw [Int32.toInt_ofInt_of_le (by omega) (by omega)]
      omega
    · rw [Int32.toInt_ofInt_of_le (by omega) (by omega)]
      omega
  · rw [if_neg hneg]
    by_cases hzero : requestMs.toInt = 0
    · rw [if_pos hzero]
      exact ⟨Int.le_refl 0, h, id⟩
    · rw [if_neg hzero]
      split
      · rw [Int32.toInt_ofInt_of_le (by omega) (by omega)]
        omega
      · rw [Int32.toInt_ofInt_of_le (by omega) (by omega)]
        omega

/-- The result of a flush gives a wait within the bounds. -/
theorem resolveDelay_bounds {now : Nat} {q : TimerHeap} (h : Near now q) (requestMs : Int32) :
    WaitBounds now requestMs (resolveDelay (flushResult q now) requestMs) q := by
  rcases flushResult_cases h.inv h.deadline with
    ⟨hempty, hret⟩ | ⟨⟨v, hv, -⟩, hret⟩ | ⟨v, hv, hgt, hfirst, hret⟩
  · rw [hret]
    exact ⟨fun t ht => absurd ht (hempty t), fun hr => ⟨hr, Int.le_refl _⟩, fun _ => rfl⟩
  · obtain ⟨hlo, hle, hreq⟩ := resolveDelay_nonneg (Int.le_refl 0) requestMs
    rw [hret]
    refine ⟨fun t _ => ⟨hlo, ?_⟩, fun hr => ⟨hlo, hreq hr⟩, fun hn => absurd hv (hn v)⟩
    omega
  · have hpos : 0 ≤ flushResult q now := by omega
    obtain ⟨hlo, hle, hreq⟩ := resolveDelay_nonneg hpos requestMs
    refine ⟨fun t ht => ⟨hlo, ?_⟩, fun hr => ⟨hlo, hreq hr⟩, fun hn => absurd hv (hn v)⟩
    have := hfirst t ht
    omega

/-- A call leaves the deadlines near, and returns a wait within the bounds. -/
theorem resolve_bounds {env : FlushEnv} {p : TimerHeap} {now : Nat} (h : Near now p)
    (henv : env.Near now) (requestMs : Int32) :
    Near now (pollerResolveTimeoutMs true env p now requestMs).2 ∧
      WaitBounds now requestMs (pollerResolveTimeoutMs true env p now requestMs).1
        (pollerResolveTimeoutMs true env p now requestMs).2 := by
  have hleft : Near now (flushExpiredTimers env p now).2.heap := by
    exact Near.loop henv timerFlushMax (s := ⟨p, [], [], []⟩) h
  exact ⟨hleft, resolveDelay_bounds hleft requestMs⟩

/-- No wait oversleeps a timer or the request, neither that of a call of
`ztk_poller_resolve_timeout_ms` nor those of the two calls in a turn of `ztk_poller_run`. -/
theorem poller_wait_in_time (e : TurnEnv) (p : TimerHeap) (requestMs : Int32) (h : HeapInv p)
    (hdl : ∀ t, p.Mem t → p.deadline t < e.now + 2 ^ 63) (henv : e.env.Near e.now)
    (hpoll : e.pollEnv.Near e.pollNow) (hle : e.now ≤ e.pollNow) :
    WaitBounds e.now requestMs (pollerResolveTimeoutMs true e.env p e.now requestMs).1
      (pollerResolveTimeoutMs true e.env p e.now requestMs).2 ∧
    WaitBounds e.now pollerPendingPollMs (runTimeout e p).1 (runTimeout e p).2 ∧
    WaitBounds e.pollNow (runTimeout e p).1 (runWait e p).1 (runWait e p).2 ∧
    0 ≤ (runWait e p).1.toInt ∧ (runWait e p).1.toInt ≤ (runTimeout e p).1.toInt ∧
    (runTimeout e p).1.toInt ≤ 10 := by
  have hp : Near e.now p := ⟨h, hdl⟩
  have hone := (resolve_bounds hp henv requestMs).2
  obtain ⟨hleft, hfirst⟩ := resolve_bounds hp henv pollerPendingPollMs
  have hsecond := (resolve_bounds ((hleft.mono hle).setAllCancelled e.marked) hpoll
    (runTimeout e p).1).2
  have hten : pollerPendingPollMs.toInt = 10 := by decide
  obtain ⟨hlo, hhi⟩ := hfirst.asked (by rw [hten]; decide)
  obtain ⟨hlo', hhi'⟩ := hsecond.asked hlo
  rw [hten] at hhi
  exact ⟨hone, hfirst, hsecond, hlo', hhi', hhi⟩

/-- A turn that meets `twoDeadlines` at 20 and, with the second timer marked, at 26. -/
def twoDeadlinesTurn : TurnEnv := ⟨againInFive, 20, [1], againInFive, 26⟩

/-- The timer put back at 25 shortens the first wait, and having fired again, the second. -/
theorem poller_wait_five :
    (runTimeout twoDeadlinesTurn twoDeadlines).1 = 5 ∧
      (runWait twoDeadlinesTurn twoDeadlines).1 = 4 ∧
      WaitBounds 26 (runTimeout twoDeadlinesTurn twoDeadlines).1
        (runWait twoDeadlinesTurn twoDeadlines).1 (runWait twoDeadlinesTurn twoDeadlines).2 := by
  have hinv : HeapInv twoDeadlines :=
    ((HeapInv.start (fun _ => 0) fun _ => 0).insertLocked true 0 10).insertLocked true 1 30
  have hdl : ∀ t ∈ twoDeadlines.members, twoDeadlines.deadline t < 20 + 2 ^ 63 := by
    decide +kernel
  have hwait := poller_wait_in_time twoDeadlinesTurn twoDeadlines (-1) hinv
    (fun t hm => hdl t (mem_members.mpr hm))
    (fun _ _ => show (20 + 5) % 2 ^ 64 < 20 + 2 ^ 63 by decide)
    (fun _ _ => show (26 + 5) % 2 ^ 64 < 26 + 2 ^ 63 by decide) (by decide)
  exact ⟨by decide +kernel, by decide +kernel, hwait.2.2.1⟩

end Ztk.Poller
