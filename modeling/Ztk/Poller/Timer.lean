import Ztk.Lib.Lifetime
import Ztk.Poller.Task
import Ztk.Poller.TimerHeapOps

/-!
# The timers of a poller

`ztk_poller_do_delay`, `ztk_poller_timer_cancel`, `flush_expired_timers` and
`ztk_poller_timer_fini` of `poller_timer.c`, over the heap of timers and the
task queue.  A timer is named by its serial number, and `Lifetime` records
which timers are freed and whether a freed one was used.

Steps interleave as the locks allow.  `flush_expired_timers` holds `timer_mtx`
while it runs a callback, so between `flush` and `cbReturn` no step that takes
this mutex is enabled; the other threads go on.  A thread other than the owner
cancels in two steps, the store to `cancelled` and the post of
`timer_cancel_async`.  Each test of `cancelled` in `flush_expired_timers` is one
step with what it guards.  `ztk_poller_task_fini` is `timerFini` followed by
`drain` and `next`.

An operation of the heap may read and write any timer in the array, so it
counts as a use of all of them (`TimerHeap.members`).

A posted task has a context, which holds the pointer to its timer.  The task frees it, and
so does the call that posts it when `ztk_poller_async` returns an error, also where the
task stays linked.  `ctxs` records which contexts are freed.  What a task finds in a freed
context is undefined; the model goes on with the timer that was stored there, and counts the
use.
-/

namespace Ztk.Poller

open Ztk.Lib TimerHeap

/-! ## State -/

/-- The tasks that `poller_timer.c` posts, with their contexts. -/
inductive TimerTask where
  /-- `delay_insert_async`. -/
  | delayInsert (timer deadlineMs : Nat)
  /-- `timer_cancel_async`. -/
  | timerCancel (timer : Nat)
deriving DecidableEq, Repr

/-- `ctx->timer`. -/
def TimerTask.timer : TimerTask → Nat
  | .delayInsert t _ => t
  | .timerCancel t => t

/-- A poller with its timers, the calls in progress, and the history of each timer. -/
structure TimerState where
  heap : TimerHeap
  /-- `timer_mtx` is not null. -/
  timerMtx : Bool
  tasks : TaskPoller TimerTask
  mem : Lifetime
  /-- The contexts of the tasks.  Each is named by the call that posts it, as the node is. -/
  ctxs : Lifetime
  /-- The name of the next timer. -/
  next : Nat
  /-- The rest of the variable `list` of `ztk_poller_drain_tasks`. -/
  list : List (Nat × TimerTask)
  /-- The timer whose callback runs, and `now_ms`. -/
  firing : Option (Nat × Nat)
  /-- The timers that other threads have marked and not yet posted. -/
  cancelling : List Nat
  /-- How often the callback was started. -/
  starts : Nat → Nat
  /-- How often the timer was put back after its callback. -/
  rearms : Nat → Nat
  /-- `ztk_poller_do_delay` has returned the timer. -/
  handed : Nat → Bool
  /-- `ztk_poller_timer_cancel` was called. -/
  called : Nat → Bool
  /-- The callback has returned 0. -/
  returnedZero : Nat → Bool

/-- After `ztk_poller_task_init`. -/
def TimerState.start (tasks : TaskPoller TimerTask) (timerMtx : Bool) : TimerState where
  heap := TimerHeap.start (fun _ => 0) (fun _ => 0)
  timerMtx := timerMtx
  tasks := { tasks with tasks := Chain.empty }
  mem := .start
  ctxs := .start
  next := 0
  list := []
  firing := none
  cancelling := []
  starts := fun _ => 0
  rearms := fun _ => 0
  handed := fun _ => false
  called := fun _ => false
  returnedZero := fun _ => false

/-- The timers in the array. -/
def TimerHeap.members (p : TimerHeap) : List Nat := (List.range p.count).map p.heap

theorem mem_members {p : TimerHeap} {t : Nat} : t ∈ p.members ↔ p.Mem t := by
  simp [TimerHeap.members, TimerHeap.Mem]

theorem members_nodup {p : TimerHeap} (h : p.Indexed) : p.members.Nodup := by
  refine (List.nodup_range).map_on ?_
  intro i hi j hj he
  exact h.inj (List.mem_range.mp hi) (List.mem_range.mp hj) he

/-- A zeroed timer with no index. -/
def TimerHeap.calloc (p : TimerHeap) (t : Nat) : TimerHeap :=
  { p with timer := Function.update p.timer t ⟨false, 0, none⟩ }

/-- `timer->cancelled = 1`. -/
def TimerHeap.setCancelled (p : TimerHeap) (t : Nat) : TimerHeap :=
  { p with timer := Function.update p.timer t { p.timer t with cancelled := true } }

/-- `p->owner_thread != 0 && p->owner_thread == ztk_thread_self_id()`. -/
def isOwner {τ : Type} (p : TaskPoller τ) (self : Nat) : Bool :=
  p.ownerThread != 0 && p.ownerThread == self

/-! ## The functions of the source -/

namespace TimerState

/-- `ztk_poller_timer_insert_locked`. -/
def timerInsertLocked (s : TimerState) (realloc : Bool) (t deadlineMs : Nat) : TimerState :=
  { s with
    heap := pollerTimerInsertLocked realloc s.heap t deadlineMs
    mem := (s.mem.use t).useAll s.heap.members }

/-- `unlink_timer`. -/
def unlinkTimer (s : TimerState) (t : Nat) : TimerState :=
  { s with
    heap := timerHeapRemove s.heap t
    mem := (s.mem.use t).useAll s.heap.members }

/-- `free(timer)`. -/
def freeTimer (s : TimerState) (t : Nat) : TimerState := { s with mem := s.mem.free t }

/-- `free(ctx)` in a call whose post has failed. -/
def freeCtx (s : TimerState) (ctx : Nat) : TimerState := { s with ctxs := s.ctxs.free ctx }

/-- What a task does with its context: it reads the fields and frees it. -/
def takeCtx (s : TimerState) (ctx : Nat) : TimerState :=
  { s with ctxs := (s.ctxs.use ctx).free ctx }

/-- `calloc(1, sizeof(*timer))` and the initial index. -/
def newTimer (s : TimerState) : TimerState :=
  { s with heap := s.heap.calloc s.next, next := s.next + 1 }

/-- `ztk_poller_do_delay` returns the timer. -/
def hand (s : TimerState) (t : Nat) : TimerState :=
  { s with handed := Function.update s.handed t true }

/-- `ztk_poller_timer_cancel` up to the store to `cancelled`. -/
def markCancelled (s : TimerState) (t : Nat) : TimerState :=
  { s with
    heap := s.heap.setCancelled t
    mem := s.mem.use t
    called := Function.update s.called t true }

/-- A task of `poller_timer.c` run by `ztk_poller_drain_tasks`. -/
def runTask (s : TimerState) (realloc : Bool) : TimerTask → TimerState
  | .delayInsert t deadlineMs => s.timerInsertLocked realloc t deadlineMs
  | .timerCancel t => { s with mem := s.mem.use t }.unlinkTimer t

/-- The iteration of `flush_expired_timers` for the popped timer `t`, up to its
callback. -/
def fire (s : TimerState) (t now : Nat) : TimerState :=
  let s := { s with mem := s.mem.use t }
  if (s.heap.timer t).cancelled then s.freeTimer t
  else { s with firing := some (t, now), starts := Function.update s.starts t (s.starts t + 1) }

/-- `timer_heap_pop_min`. -/
def popMin (s : TimerState) : TimerState :=
  { s with heap := (timerHeapPopMin s.heap).2, mem := s.mem.useAll s.heap.members }

/-- The rest of the iteration, after the callback has returned 0. -/
def retire (s : TimerState) (t : Nat) : TimerState :=
  { s with firing := none, returnedZero := Function.update s.returnedZero t true }.freeTimer t

/-- The rest of the iteration, after the callback has asked for another turn. -/
def again (s : TimerState) (realloc : Bool) (t deadlineMs : Nat) : TimerState :=
  let s := { s with firing := none, mem := s.mem.use t }
  if (s.heap.timer t).cancelled then s.freeTimer t
  else { s with rearms := Function.update s.rearms t (s.rearms t + 1) }.timerInsertLocked
    realloc t deadlineMs

/-- `ztk_poller_timer_fini`. -/
def timerFini (s : TimerState) : TimerState :=
  { s with
    heap := { s.heap with count := 0, cap := 0 }
    mem := s.mem.freeAll s.heap.members
    timerMtx := false }

end TimerState

/-- What the surroundings decide in one call of `ztk_poller_do_delay`. -/
structure DelayEnv extends AsyncEnv where
  /-- `ztk_monotonic_ms()`. -/
  nowMs : Nat
  callocTimer : Bool
  callocCtx : Bool
  realloc : Bool

/-- The end of `ztk_poller_do_delay` on a thread that is not the owner. -/
def delayQueue (s : TimerState) (env : AsyncEnv) (t deadlineMs : Nat) : Option Nat × TimerState :=
  let ctx := s.tasks.calls
  let r := pollerAsyncFirst s.tasks env (some (.delayInsert t deadlineMs)) false
  let s := { s with tasks := r.poller }
  if r.err ≠ .ok then (none, (s.freeCtx ctx).freeTimer t) else (some t, s)

/-- `ztk_poller_do_delay`, without the wake of the owner.  A null `cb` is `false`. -/
def pollerDoDelay (s : TimerState) (env : DelayEnv) (cb : Bool) (delayMs : Nat) :
    Option Nat × TimerState :=
  if !cb || !s.timerMtx then (none, s)
  else if !env.callocTimer then (none, s)
  else
    let t := s.next
    let s := s.newTimer
    let deadline := (env.nowMs + delayMs) % 2 ^ 64
    if isOwner s.tasks env.self then (some t, s.timerInsertLocked env.realloc t deadline)
    else if !env.callocCtx then (none, s.freeTimer t)
    else delayQueue s env.toAsyncEnv t deadline

/-- The end of `ztk_poller_timer_cancel` on a thread that is not the owner. -/
def cancelQueue (s : TimerState) (env : AsyncEnv) (callocCtx : Bool) (t : Nat) : TimerState :=
  if !callocCtx then s
  else
    let ctx := s.tasks.calls
    let r := pollerAsync s.tasks env (some (.timerCancel t)) false
    let s := { s with tasks := r.poller }
    if r.err ≠ .ok then s.freeCtx ctx else s

/-! ## The machine -/

/-- The steps of the poller and its clients. -/
inductive TimerAct where
  /-- `ztk_poller_bind_thread`, or 0 for `ztk_poller_unbind_thread`. -/
  | bind (self : Nat)
  /-- `ztk_poller_do_delay`. -/
  | doDelay (env : DelayEnv) (cb : Bool) (delayMs : Nat)
  /-- `ztk_poller_timer_cancel` on the owner, or elsewhere up to the store. -/
  | cancel (self t : Nat)
  /-- The rest of `ztk_poller_timer_cancel` on another thread. -/
  | cancelPost (env : AsyncEnv) (callocCtx : Bool) (t : Nat)
  /-- `ztk_poller_drain_tasks` up to its unlock. -/
  | drain
  /-- One iteration of its loop. -/
  | next (realloc : Bool)
  /-- One iteration of `flush_expired_timers` up to the callback, or its end. -/
  | flush (now : Nat)
  /-- The callback returns, and the iteration ends. -/
  | cbReturn (realloc : Bool) (nextMs : Nat)
  /-- `ztk_poller_timer_fini`. -/
  | timerFini

/-- A step that takes `timer_mtx`. -/
def TimerState.locked (s t : TimerState) : Option TimerState :=
  if s.firing = none then some t else none

/-- `ztk_poller_do_delay` as a step. -/
def stepDoDelay (s : TimerState) (env : DelayEnv) (cb : Bool) (delayMs : Nat) :
    Option TimerState :=
  match pollerDoDelay s env cb delayMs with
  | (none, t) => some t
  | (some timer, t) =>
      if isOwner s.tasks env.self then s.locked (t.hand timer) else some (t.hand timer)

/-- The first step of `ztk_poller_timer_cancel`. -/
def stepCancel (s : TimerState) (self t : Nat) : Option TimerState :=
  if s.next ≤ t then none
  else if !s.timerMtx then some (s.markCancelled t)
  else if isOwner s.tasks self then s.locked ((s.markCancelled t).unlinkTimer t)
  else some { s.markCancelled t with cancelling := t :: s.cancelling }

/-- The second step of `ztk_poller_timer_cancel` on another thread. -/
def stepCancelPost (s : TimerState) (env : AsyncEnv) (callocCtx : Bool) (t : Nat) :
    Option TimerState :=
  if t ∈ s.cancelling then
    let s := { s with cancelling := s.cancelling.erase t, mem := s.mem.use t }
    some (cancelQueue s env callocCtx t)
  else none

/-- An iteration of `flush_expired_timers` up to the callback. -/
def stepFlush (s : TimerState) (now : Nat) : Option TimerState :=
  if !s.timerMtx then none
  else if s.heap.count = 0 then s.locked s
  else
    let top := s.heap.heap 0
    if (s.heap.timer top).deadlineMs ≤ now then
      s.locked ({ s with mem := s.mem.use top }.popMin.fire top now)
    else s.locked { s with mem := s.mem.use top }

/-- One step. -/
def timerStep (s : TimerState) : TimerAct → Option TimerState
  | .bind self => some { s with tasks := { s.tasks with ownerThread := self } }
  | .doDelay env cb delayMs => stepDoDelay s env cb delayMs
  | .cancel self t => stepCancel s self t
  | .cancelPost env callocCtx t => stepCancelPost s env callocCtx t
  | .drain =>
      if s.list = [] then
        s.locked (if s.tasks.taskMtx then
          { s with list := s.tasks.tasks.nodes, tasks := { s.tasks with tasks := Chain.empty } }
          else s)
      else none
  | .next realloc =>
      match s.list with
      | [] => none
      | n :: rest => s.locked (({ s with list := rest }.runTask realloc n.2).takeCtx n.1)
  | .flush now => stepFlush s now
  | .cbReturn realloc nextMs =>
      match s.firing with
      | none => none
      | some (t, now) =>
          if 0 < nextMs then some (s.again realloc t ((now + nextMs) % 2 ^ 64))
          else some (s.retire t)
  | .timerFini => if s.list = [] then s.locked s.timerFini else none

/-- The timers of a poller as a machine. -/
def timerMachine : Machine TimerState TimerAct := ⟨timerStep⟩

/-! ## What a step can do -/

theorem locked_eq_some {s t u : TimerState} :
    s.locked t = some u ↔ s.firing = none ∧ u = t := by
  rw [TimerState.locked]
  split
  · next h => simp [h, eq_comm]
  · next h => simp [h]

/-- The call of `ztk_poller_timer_cancel` queues its task and then fails to wake the poller. -/
def cancelUnwoken (s : TimerState) (env : AsyncEnv) (callocCtx : Bool) : Prop :=
  callocCtx = true ∧ s.tasks.taskMtx = true ∧ env.calloc = true ∧
    pollerWake s.tasks.wakeW env.write ≠ .ok

/-- The call queues its insertion and then fails to wake the poller. -/
def delayUnwoken (s : TimerState) (env : DelayEnv) (cb : Bool) : Prop :=
  cb = true ∧ s.timerMtx = true ∧ env.callocTimer = true ∧ isOwner s.tasks env.self = false ∧
    env.callocCtx = true ∧ s.tasks.taskMtx = true ∧ env.calloc = true ∧
    pollerWake s.tasks.wakeW env.write ≠ .ok

/-- The ways in which `ztk_poller_do_delay` ends. -/
inductive DelayEnds (s : TimerState) (env : DelayEnv) (cb : Bool) : TimerState → Prop where
  | refused : DelayEnds s env cb s
  | owner (d : Nat) : s.firing = none → s.timerMtx = true →
      DelayEnds s env cb ((s.newTimer.timerInsertLocked env.realloc s.next d).hand s.next)
  /-- No memory for the context. -/
  | noctx : DelayEnds s env cb (s.newTimer.freeTimer s.next)
  /-- No memory for the node, or no queue. -/
  | nomem : DelayEnds s env cb
      (({ s.newTimer with tasks := s.tasks.counted }.freeCtx s.tasks.calls).freeTimer s.next)
  | queued (d : Nat) : s.timerMtx = true →
      DelayEnds s env cb ({ s.newTimer with
        tasks := asyncPush s.tasks true (.delayInsert s.next d) }.hand s.next)
  /-- The task is queued, and its context and the timer are freed. -/
  | unwoken (d : Nat) : delayUnwoken s env cb →
      DelayEnds s env cb
        (({ s.newTimer with tasks := asyncPush s.tasks true (.delayInsert s.next d) }.freeCtx
          s.tasks.calls).freeTimer s.next)

/-- The ways in which `ztk_poller_timer_cancel` ends on a thread that is not the owner. -/
inductive CancelEnds (s : TimerState) (env : AsyncEnv) (callocCtx : Bool) (t : Nat) :
    TimerState → Prop where
  /-- No memory for the context. -/
  | noctx : CancelEnds s env callocCtx t s
  /-- No memory for the node, or no queue. -/
  | nomem : CancelEnds s env callocCtx t
      ({ s with tasks := s.tasks.counted }.freeCtx s.tasks.calls)
  | queued : CancelEnds s env callocCtx t
      { s with tasks := asyncPush s.tasks false (.timerCancel t) }
  /-- The task is queued, and its context is freed. -/
  | unwoken : cancelUnwoken s env callocCtx → CancelEnds s env callocCtx t
      ({ s with tasks := asyncPush s.tasks false (.timerCancel t) }.freeCtx s.tasks.calls)

/-- The call has a callback, a poller with `timer_mtx`, and memory for a timer. -/
def delayTaken (s : TimerState) (env : DelayEnv) (cb : Bool) : Prop :=
  cb = true ∧ s.timerMtx = true ∧ env.callocTimer = true

/-- The call of a thread that is not the owner has memory for the context and the node, and a
queue to link it into. -/
def delayLinks (s : TimerState) (env : DelayEnv) : Prop :=
  isOwner s.tasks env.self = false ∧ env.callocCtx = true ∧ s.tasks.taskMtx = true ∧
    env.calloc = true

/-- What `ztk_poller_do_delay` returns and leaves, where `d` is the deadline. -/
inductive Delayed (s : TimerState) (env : DelayEnv) (cb : Bool) (d : Nat) :
    Option Nat → TimerState → Prop where
  | refused : ¬ delayTaken s env cb → Delayed s env cb d none s
  | owner : delayTaken s env cb → isOwner s.tasks env.self = true →
      Delayed s env cb d (some s.next) (s.newTimer.timerInsertLocked env.realloc s.next d)
  /-- No memory for the context. -/
  | noctx : delayTaken s env cb → isOwner s.tasks env.self = false → ¬ delayLinks s env →
      Delayed s env cb d none (s.newTimer.freeTimer s.next)
  /-- No memory for the node, or no queue. -/
  | nomem : delayTaken s env cb → isOwner s.tasks env.self = false → ¬ delayLinks s env →
      Delayed s env cb d none
        (({ s.newTimer with tasks := s.tasks.counted }.freeCtx s.tasks.calls).freeTimer s.next)
  | queued : delayTaken s env cb → delayLinks s env →
      pollerWake s.tasks.wakeW env.write = .ok →
      Delayed s env cb d (some s.next)
        { s.newTimer with tasks := asyncPush s.tasks true (.delayInsert s.next d) }
  | unwoken : delayTaken s env cb → delayLinks s env →
      pollerWake s.tasks.wakeW env.write ≠ .ok →
      Delayed s env cb d none
        (({ s.newTimer with tasks := asyncPush s.tasks true (.delayInsert s.next d) }.freeCtx
          s.tasks.calls).freeTimer s.next)

/-- The insertion is not queued, queued, or queued although the call fails. -/
theorem delayQueue_cases (s : TimerState) (env : AsyncEnv) (t d : Nat) :
    (¬ (s.tasks.taskMtx = true ∧ env.calloc = true) ∧
      delayQueue s env t d =
        (none, ({ s with tasks := s.tasks.counted }.freeCtx s.tasks.calls).freeTimer t)) ∨
    (s.tasks.taskMtx = true ∧ env.calloc = true ∧ pollerWake s.tasks.wakeW env.write = .ok ∧
      delayQueue s env t d =
        (some t, { s with tasks := asyncPush s.tasks true (.delayInsert t d) })) ∨
    (s.tasks.taskMtx = true ∧ env.calloc = true ∧ pollerWake s.tasks.wakeW env.write ≠ .ok ∧
      delayQueue s env t d =
        (none, ({ s with tasks := asyncPush s.tasks true (.delayInsert t d) }.freeCtx
          s.tasks.calls).freeTimer t)) := by
  have hasync := pollerAsyncImpl_cases s.tasks env (some (.delayInsert t d)) false true
  rw [← pollerAsyncFirst] at hasync
  rcases hasync with ⟨task, ht, hl, hr⟩ | ⟨hl, hp, -, herr⟩
  · cases ht
    obtain ⟨hmtx, hc⟩ : s.tasks.taskMtx = true ∧ env.calloc = true := by
      simpa [links, runsNow] using hl
    by_cases hw : pollerWake s.tasks.wakeW env.write = .ok
    · exact Or.inr (Or.inl ⟨hmtx, hc, hw, by simp [delayQueue, hr, hw]⟩)
    · exact Or.inr (Or.inr ⟨hmtx, hc, hw, by simp [delayQueue, hr, hw]⟩)
  · refine Or.inl ⟨?_, by simp [delayQueue, herr rfl, hp]⟩
    rintro ⟨hmtx, hc⟩
    simp [links, runsNow, hmtx, hc] at hl

theorem cancelQueue_ends (s : TimerState) (env : AsyncEnv) (callocCtx : Bool) (t : Nat) :
    CancelEnds s env callocCtx t (cancelQueue s env callocCtx t) := by
  cases callocCtx with
  | false => exact .noctx
  | true =>
      simp only [cancelQueue, Bool.not_true, Bool.false_eq_true, if_false]
      rcases pollerAsyncImpl_cases s.tasks env (some (.timerCancel t)) false false with
        ⟨task, ht, hl, hr⟩ | ⟨-, hp, -, herr⟩
      · cases ht
        obtain ⟨hmtx, hc⟩ : s.tasks.taskMtx = true ∧ env.calloc = true := by
          simpa [links, runsNow] using hl
        simp only [pollerAsync, hr]
        split
        · next hw => exact .unwoken ⟨rfl, hmtx, hc, hw⟩
        · exact .queued
      · rw [pollerAsync, if_pos (herr rfl), hp]
        exact .nomem

theorem stepCancelPost_eq_some {s u : TimerState} {env : AsyncEnv} {callocCtx : Bool} {t : Nat}
    (h : stepCancelPost s env callocCtx t = some u) : t ∈ s.cancelling ∧
      CancelEnds { s with cancelling := s.cancelling.erase t, mem := s.mem.use t } env callocCtx t
        u := by
  rw [stepCancelPost, Option.ite_none_right_eq_some] at h
  obtain ⟨hm, h⟩ := h
  cases h
  exact ⟨hm, cancelQueue_ends ..⟩

/-- The end of `ztk_poller_do_delay`, by what the surroundings decide. -/
theorem pollerDoDelay_delayed (s : TimerState) (env : DelayEnv) (cb : Bool) (delayMs : Nat) :
    Delayed s env cb ((env.nowMs + delayMs) % 2 ^ 64) (pollerDoDelay s env cb delayMs).1
      (pollerDoDelay s env cb delayMs).2 := by
  simp only [pollerDoDelay]
  by_cases hg : cb = true ∧ s.timerMtx = true
  · have hguard : (!cb || !s.timerMtx) = false := by simp [hg.1, hg.2]
    rw [if_neg (by simp [hguard])]
    cases hc : env.callocTimer with
    | false =>
        refine .refused fun ht => ?_
        rw [ht.2.2] at hc
        cases hc
    | true =>
        have htaken : delayTaken s env cb := ⟨hg.1, hg.2, hc⟩
        have how : isOwner s.newTimer.tasks env.self = isOwner s.tasks env.self := rfl
        simp only [how, Bool.not_true, Bool.false_eq_true, if_false]
        cases ho : isOwner s.tasks env.self with
        | true => exact .owner htaken ho
        | false =>
            simp only [Bool.false_eq_true, if_false]
            cases hx : env.callocCtx with
            | false =>
                refine .noctx htaken ho fun hl => ?_
                rw [hl.2.1] at hx
                cases hx
            | true =>
                simp only [Bool.not_true, Bool.false_eq_true, if_false]
                rcases delayQueue_cases s.newTimer env.toAsyncEnv s.next
                  ((env.nowMs + delayMs) % 2 ^ 64) with
                  ⟨hn, hq⟩ | ⟨hmtx, hn, hw, hq⟩ | ⟨hmtx, hn, hw, hq⟩
                · rw [hq]
                  exact .nomem htaken ho fun hl => hn hl.2.2
                · rw [hq]
                  exact .queued htaken ⟨ho, hx, hmtx, hn⟩ hw
                · rw [hq]
                  exact .unwoken htaken ⟨ho, hx, hmtx, hn⟩ hw
  · have hguard : (!cb || !s.timerMtx) = true := by
      cases cb <;> simp_all
    rw [if_pos hguard]
    exact .refused fun ht => hg ⟨ht.1, ht.2.1⟩

/-- The call as a step takes the lock on the owner. -/
theorem stepDoDelay_eq_some {s u : TimerState} {env : DelayEnv} {cb : Bool} {delayMs : Nat}
    (h : stepDoDelay s env cb delayMs = some u) :
    ((pollerDoDelay s env cb delayMs).1 = none ∧ u = (pollerDoDelay s env cb delayMs).2) ∨
    ∃ t, (pollerDoDelay s env cb delayMs).1 = some t ∧
      u = (pollerDoDelay s env cb delayMs).2.hand t ∧
      (isOwner s.tasks env.self = true → s.firing = none) := by
  rw [stepDoDelay] at h
  generalize pollerDoDelay s env cb delayMs = r at h ⊢
  obtain ⟨timer, v⟩ := r
  cases timer with
  | none =>
      cases h
      exact Or.inl ⟨rfl, rfl⟩
  | some t =>
      refine Or.inr ⟨t, rfl, ?_⟩
      simp only at h
      split at h
      · obtain ⟨hf, rfl⟩ := locked_eq_some.mp h
        exact ⟨rfl, fun _ => hf⟩
      · next ho =>
          cases h
          exact ⟨rfl, fun ho' => absurd ho' ho⟩

theorem stepDoDelay_ends {s u : TimerState} {env : DelayEnv} {cb : Bool} {delayMs : Nat}
    (h : stepDoDelay s env cb delayMs = some u) : DelayEnds s env cb u := by
  have hd := pollerDoDelay_delayed s env cb delayMs
  rcases stepDoDelay_eq_some h with ⟨hnone, rfl⟩ | ⟨t, hsome, rfl, hlock⟩
  · generalize pollerDoDelay s env cb delayMs = r at hd hnone
    obtain ⟨timer, v⟩ := r
    cases hnone
    cases hd with
    | refused => exact .refused
    | noctx => exact .noctx
    | nomem => exact .nomem
    | unwoken ht hl hw =>
        exact .unwoken _ ⟨ht.1, ht.2.1, ht.2.2, hl.1, hl.2.1, hl.2.2.1, hl.2.2.2, hw⟩
  · generalize pollerDoDelay s env cb delayMs = r at hd hsome
    obtain ⟨timer, v⟩ := r
    cases hsome
    cases hd with
    | owner ht ho => exact .owner _ (hlock ho) ht.2.1
    | queued ht => exact .queued _ ht.2.1

end Ztk.Poller
