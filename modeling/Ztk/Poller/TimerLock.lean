import Ztk.Poller.Timer

/-!
# The lock of the timers

`ztk_poller_resolve_timeout_ms` and `flush_expired_timers` of `poller_timer.c` with
`timer_mtx` as it is: a mutex of `sync_pthread.c`, created with `ZTK_MUTEX_NORMAL`
and so with the attributes of `pthread_mutexattr_init`.  A thread that locks it
while it holds it never gets on.  The lock is taken before the loop of
`flush_expired_timers` and released after it, so a callback runs with it held.

A callback is whatever sequence of calls it makes before it returns: the labels
of a run say which, so a property of every run is one of every callback.  The
other threads call the same functions, and the thread of the poller runs its
tasks between two calls of `ztk_poller_resolve_timeout_ms`.
-/

namespace Ztk.Poller

open Ztk.Lib TimerHeap

/-! ## The mutex -/

/-- What `ztk_mutex_lock` does on a mutex that is not recursive. -/
inductive LockResult where
  | acquired
  /-- Another thread holds the mutex. -/
  | waits
  /-- The thread itself holds the mutex. -/
  | relocks
deriving DecidableEq

/-- `ztk_mutex_lock` of `sync_pthread.c`. -/
def mutexLock (holder : Option Nat) (self : Nat) : LockResult :=
  match holder with
  | none => .acquired
  | some thread => if thread = self then .relocks else .waits

/-! ## State -/

/-- `ZTK_TIMER_FLUSH_MAX`. -/
def timerFlushMax : Nat := 256

/-- A thread in `flush_expired_timers`. -/
structure TimerFlush where
  self : Nat
  nowMs : Nat
  processed : Nat

/-- The timers of a poller and the state of `timer_mtx`. -/
structure LockState where
  timers : TimerState
  /-- The thread between the lock and the unlock of `ztk_poller_resolve_timeout_ms`. -/
  flush : Option TimerFlush
  /-- Some thread has locked `timer_mtx` while it held it. -/
  relocked : Bool

namespace LockState

/-- The timers after `ztk_poller_task_init`, with `timer_mtx` free. -/
def start (tasks : TaskPoller TimerTask) (timerMtx : Bool) : LockState :=
  ⟨.start tasks timerMtx, none, false⟩

/-- The thread that holds `timer_mtx`.  Every other critical section is one step. -/
def holder (s : LockState) : Option Nat := s.flush.map TimerFlush.self

/-- The thread is in `ztk_poller_resolve_timeout_ms`. -/
def flushes (s : LockState) (self : Nat) : Bool := s.holder == some self

/-- The thread runs the callback of a timer. -/
def inCallback (s : LockState) (self : Nat) : Bool :=
  s.flushes self && s.timers.firing.isSome

/-- A critical section of a thread on `timer_mtx`, which ends in `t`. -/
def critical (s : LockState) (self : Nat) (t : TimerState) : Option LockState :=
  match mutexLock s.holder self with
  | .acquired => some { s with timers := t }
  | .waits => none
  | .relocks => some { s with relocked := true }

end LockState

/-! ## The calls of the interface -/

/-- A call of the timer interface on the poller.  A null timer is `none`. -/
inductive TimerCall where
  | doDelay (env : DelayEnv) (cb : Bool) (delayMs : Nat)
  | timerCancel (env : AsyncEnv) (callocCtx : Bool) (timer : Option Nat)

namespace TimerCall

/-- `ztk_thread_self_id()`. -/
def self : TimerCall → Nat
  | .doDelay env _ _ => env.self
  | .timerCancel env _ _ => env.self

/-- The call gets to `ztk_mutex_lock(p->timer_mtx)`. -/
def takesLock (s : TimerState) : TimerCall → Bool
  | .doDelay env cb _ => cb && s.timerMtx && env.callocTimer && isOwner s.tasks env.self
  | .timerCancel _ _ none => false
  | .timerCancel env _ (some _) => s.timerMtx && isOwner s.tasks env.self

end TimerCall

/-- `ztk_poller_timer_cancel`, with the lock. -/
def pollerTimerCancel (s : TimerState) (env : AsyncEnv) (callocCtx : Bool) (timer : Option Nat) :
    TimerState :=
  match timer with
  | none => s
  | some t =>
      let s := s.markCancelled t
      if !s.timerMtx then s
      else if isOwner s.tasks env.self then s.unlinkTimer t
      else cancelQueue s env callocCtx t

/-- The timers after a call that gets every lock it asks for. -/
def TimerCall.result (s : TimerState) : TimerCall → TimerState
  | .doDelay env cb delayMs => (pollerDoDelay s env cb delayMs).2
  | .timerCancel env callocCtx timer => pollerTimerCancel s env callocCtx timer

/-! ## The machine -/

/-- The steps of the poller and its clients. -/
inductive LockAct where
  /-- `ztk_poller_bind_thread`, or 0 for `ztk_poller_unbind_thread`. -/
  | bind (self : Nat)
  /-- A call of the interface, inside a callback or outside. -/
  | call (c : TimerCall)
  /-- `ztk_poller_resolve_timeout_ms` up to the loop of `flush_expired_timers`. -/
  | resolve (self nowMs : Nat)
  /-- One iteration of the loop up to the callback, or its end with the unlock. -/
  | iterate
  /-- The callback returns, and the iteration ends. -/
  | cbReturn (realloc : Bool) (nextMs : Nat)
  /-- `ztk_poller_drain_tasks` up to its unlock of `task_mtx`. -/
  | drain (self : Nat)
  /-- One iteration of its loop. -/
  | next (self : Nat) (realloc : Bool)

/-- A call on a thread.  A thread that is in `flush_expired_timers` makes calls from
its callback only, and none after it has locked `timer_mtx` again. -/
def stepCall (s : LockState) (c : TimerCall) : Option LockState :=
  if s.flushes c.self && (s.relocked || !s.inCallback c.self) then none
  else if c.takesLock s.timers then s.critical c.self (c.result s.timers)
  else some { s with timers := c.result s.timers }

/-- The start of `ztk_poller_resolve_timeout_ms`. -/
def stepResolve (s : LockState) (self nowMs : Nat) : Option LockState :=
  if s.flushes self then none
  else if !s.timers.timerMtx then some s
  else
    match mutexLock s.holder self with
    | .acquired => some { s with flush := some ⟨self, nowMs, 0⟩ }
    | .waits => none
    | .relocks => some { s with relocked := true }

/-- The test of the loop of `flush_expired_timers`. -/
def flushGoesOn (s : TimerState) (f : TimerFlush) : Prop :=
  f.processed < timerFlushMax ∧ 0 < s.heap.count ∧
    (s.heap.timer (s.heap.heap 0)).deadlineMs ≤ f.nowMs

instance (s : TimerState) (f : TimerFlush) : Decidable (flushGoesOn s f) :=
  inferInstanceAs (Decidable (_ ∧ _ ∧ _))

/-- An iteration of `flush_expired_timers` up to the callback. -/
def stepIterate (s : LockState) : Option LockState :=
  match s.flush with
  | none => none
  | some f =>
      if s.timers.firing ≠ none then none
      else if flushGoesOn s.timers f then
        let top := s.timers.heap.heap 0
        some { s with
          timers := { s.timers with mem := s.timers.mem.use top }.popMin.fire top f.nowMs
          flush := some { f with processed := f.processed + 1 } }
      else some { s with flush := none }

/-- The callback returns. -/
def stepReturn (s : LockState) (realloc : Bool) (nextMs : Nat) : Option LockState :=
  if s.relocked then none
  else
    match s.timers.firing with
    | none => none
    | some (t, now) =>
        if 0 < nextMs then
          some { s with timers := s.timers.again realloc t ((now + nextMs) % 2 ^ 64) }
        else some { s with timers := s.timers.retire t }

def lockStep (s : LockState) : LockAct → Option LockState
  | .bind self =>
      some { s with timers := { s.timers with tasks := { s.timers.tasks with ownerThread := self } } }
  | .call c => stepCall s c
  | .resolve self nowMs => stepResolve s self nowMs
  | .iterate => stepIterate s
  | .cbReturn realloc nextMs => stepReturn s realloc nextMs
  | .drain self =>
      if s.flushes self || s.timers.list ≠ [] then none
      else if s.timers.tasks.taskMtx then
        some { s with timers := { s.timers with
          list := s.timers.tasks.tasks.nodes
          tasks := { s.timers.tasks with tasks := Chain.empty } } }
      else some s
  | .next self realloc =>
      if s.flushes self then none
      else
        match s.timers.list with
        | [] => none
        | n :: rest =>
            s.critical self (({ s.timers with list := rest }.runTask realloc n.2).takeCtx n.1)

/-- The timers of a poller with their lock as a machine. -/
def lockMachine : Machine LockState LockAct := ⟨lockStep⟩

/-! ## What a step does to the lock -/

/-- A callback makes no call that gets to the lock. -/
def AvoidsLock (s : LockState) : LockAct → Prop
  | .call c => s.inCallback c.self = true → c.takesLock s.timers = false
  | _ => True

instance (s : LockState) (a : LockAct) : Decidable (AvoidsLock s a) :=
  match a with
  | .call c =>
      inferInstanceAs (Decidable (s.inCallback c.self = true → c.takesLock s.timers = false))
  | .bind _ | .resolve _ _ | .iterate | .cbReturn _ _ | .drain _ | .next _ _ => isTrue trivial

/-- A thread that is not in `flush_expired_timers` does not hold the lock. -/
theorem critical_relocked {s u : LockState} {self : Nat} {t : TimerState}
    (hf : s.flushes self = false) (h : s.critical self t = some u) : u.relocked = s.relocked := by
  have hne : mutexLock s.holder self ≠ .relocks := by
    simp only [mutexLock]
    split
    · simp
    · next thread hh =>
        have : thread ≠ self := by simpa [LockState.flushes, hh] using hf
        simp [this]
  simp only [LockState.critical] at h
  split at h
  · cases h
    rfl
  · cases h
  · next hr => exact absurd hr hne

/-- The thread in `flush_expired_timers` holds the lock. -/
theorem critical_flushes {s : LockState} {self : Nat} (hf : s.flushes self = true)
    (t : TimerState) : s.critical self t = some { s with relocked := true } := by
  have hh : s.holder = some self := by simpa [LockState.flushes] using hf
  simp [LockState.critical, mutexLock, hh]

theorem stepCall_relocked {s u : LockState} {c : TimerCall} (hs : s.relocked = false)
    (h : stepCall s c = some u) :
    u.relocked = false ↔ (s.inCallback c.self = true → c.takesLock s.timers = false) := by
  simp only [stepCall] at h
  cases hf : s.flushes c.self with
  | false =>
      have hcb : s.inCallback c.self = false := by simp [LockState.inCallback, hf]
      rw [hf, Bool.false_and, if_neg Bool.false_ne_true] at h
      have hu : u.relocked = s.relocked := by
        split at h
        · exact critical_relocked hf h
        · cases h
          rfl
      simp [hu, hs, hcb]
  | true =>
      cases hcb : s.inCallback c.self with
      | false => simp [hf, hcb] at h
      | true =>
          cases ht : c.takesLock s.timers with
          | false =>
              simp only [hf, hs, hcb, ht, Bool.not_true, Bool.or_self, Bool.and_false,
                Bool.false_eq_true, if_false, Option.some.injEq] at h
              subst h
              simp
          | true =>
              simp only [hf, hs, hcb, ht, Bool.not_true, Bool.or_self, Bool.and_false,
                Bool.false_eq_true, if_false, if_true, critical_flushes hf,
                Option.some.injEq] at h
              subst h
              simp

theorem stepResolve_relocked {s u : LockState} {self nowMs : Nat}
    (h : stepResolve s self nowMs = some u) : u.relocked = s.relocked := by
  simp only [stepResolve] at h
  split at h
  · cases h
  · next hf =>
    split at h
    · cases h
      rfl
    · split at h
      · cases h
        rfl
      · cases h
      · next hr =>
          have := critical_relocked (s := s) (t := s.timers) (Bool.eq_false_iff.mpr hf)
            (by rw [LockState.critical, hr])
          cases h
          exact this

theorem stepIterate_relocked {s u : LockState} (h : stepIterate s = some u) :
    u.relocked = s.relocked := by
  simp only [stepIterate] at h
  split at h
  · cases h
  · split at h
    · cases h
    · split at h
      · cases h
        rfl
      · cases h
        rfl

theorem stepReturn_relocked {s u : LockState} {realloc : Bool} {nextMs : Nat}
    (h : stepReturn s realloc nextMs = some u) : u.relocked = s.relocked := by
  simp only [stepReturn] at h
  split at h
  · cases h
  · split at h
    · cases h
    · split at h
      · cases h
        rfl
      · cases h
        rfl

/-- Only a call can lock `timer_mtx` again. -/
theorem lockStep_relocked {s u : LockState} {a : LockAct} (ha : ∀ c, a ≠ .call c)
    (h : lockStep s a = some u) : u.relocked = s.relocked := by
  cases a with
  | bind self =>
      cases h
      rfl
  | call c => exact absurd rfl (ha c)
  | resolve self nowMs => exact stepResolve_relocked h
  | iterate => exact stepIterate_relocked h
  | cbReturn realloc nextMs => exact stepReturn_relocked h
  | drain self =>
      simp only [lockStep] at h
      split at h
      · cases h
      · split at h
        · cases h
          rfl
        · cases h
          rfl
  | next self realloc =>
      simp only [lockStep] at h
      split at h
      · cases h
      · next hf =>
        split at h
        · cases h
        · exact critical_relocked (Bool.eq_false_iff.mpr hf) h

/-- A thread that waits for itself stays so. -/
theorem lockStep_stuck {s u : LockState} {a : LockAct} (hs : s.relocked = true)
    (h : lockStep s a = some u) : u.relocked = true := by
  cases a with
  | call c =>
      simp only [lockStep, stepCall] at h
      split at h
      · cases h
      · split at h
        · simp only [LockState.critical] at h
          split at h
          · cases h
            exact hs
          · cases h
          · cases h
            rfl
        · cases h
          exact hs
  | bind self => rw [lockStep_relocked (by simp) h, hs]
  | resolve self nowMs => rw [lockStep_relocked (by simp) h, hs]
  | iterate => rw [lockStep_relocked (by simp) h, hs]
  | cbReturn realloc nextMs => rw [lockStep_relocked (by simp) h, hs]
  | drain self => rw [lockStep_relocked (by simp) h, hs]
  | next self realloc => rw [lockStep_relocked (by simp) h, hs]

/-- A step locks `timer_mtx` again exactly when it is a call of a callback that gets
to the lock. -/
theorem lockStep_avoids {s u : LockState} {a : LockAct} (hs : s.relocked = false)
    (h : lockStep s a = some u) : u.relocked = false ↔ AvoidsLock s a := by
  cases a with
  | call c => exact stepCall_relocked hs h
  | bind self => exact iff_of_true ((lockStep_relocked (by simp) h).trans hs) trivial
  | resolve self nowMs => exact iff_of_true ((lockStep_relocked (by simp) h).trans hs) trivial
  | iterate => exact iff_of_true ((lockStep_relocked (by simp) h).trans hs) trivial
  | cbReturn realloc nextMs => exact iff_of_true ((lockStep_relocked (by simp) h).trans hs) trivial
  | drain self => exact iff_of_true ((lockStep_relocked (by simp) h).trans hs) trivial
  | next self realloc => exact iff_of_true ((lockStep_relocked (by simp) h).trans hs) trivial

/-- A call of a callback returns exactly when it does not get to the lock. -/
theorem callback_call_returns {s : LockState} {c : TimerCall} (hs : s.relocked = false)
    (hcb : s.inCallback c.self = true) :
    (∃ u, lockStep s (.call c) = some u ∧ u.relocked = false) ↔ c.takesLock s.timers = false := by
  have hf : s.flushes c.self = true := by
    simp only [LockState.inCallback, Bool.and_eq_true] at hcb
    exact hcb.1
  constructor
  · rintro ⟨u, hu, hr⟩
    exact (stepCall_relocked hs hu).mp hr hcb
  · intro ht
    refine ⟨{ s with timers := c.result s.timers }, ?_, hs⟩
    simp [lockStep, stepCall, hf, hs, hcb, ht]

/-- In every run, no thread locks `timer_mtx` while it holds it exactly when no
callback makes a call that gets to the lock; and a call of a callback returns
exactly when it does not get there. -/
theorem timer_callback_locks_iff (tasks : TaskPoller TimerTask) (timerMtx : Bool)
    (as : List LockAct) (s : LockState)
    (h : lockMachine.run (.start tasks timerMtx) as = some s) :
    (s.relocked = false ↔ lockMachine.RunMeets AvoidsLock (.start tasks timerMtx) as) ∧
      (s.relocked = false → ∀ c : TimerCall, s.inCallback c.self = true →
        ((∃ u, lockMachine.step s (.call c) = some u ∧ u.relocked = false) ↔
          c.takesLock s.timers = false)) := by
  refine ⟨?_, fun hs c hcb => callback_call_returns hs hcb⟩
  have := Machine.run_faultless_iff (M := lockMachine) (C := AvoidsLock)
    (F := fun s => s.relocked = true) (fun _ _ _ hs hst => lockStep_stuck hs hst)
    (fun _ _ _ hs hst => by
      rw [Bool.not_eq_true] at hs ⊢
      exact lockStep_avoids hs hst)
    as (.start tasks timerMtx) s (by simp [LockState.start]) h
  rwa [Bool.not_eq_true] at this

/-- Thread 1 is bound and sets a timer, which expires. -/
def expiredTimer : List LockAct :=
  [.bind 1, .call (.doDelay ⟨⟨1, true, .ok⟩, 0, true, true, true⟩ true 5), .resolve 1 10, .iterate]

/-- The callback asks for a timer without a callback and sleeps for 7 ms. -/
def quietCallback : List LockAct :=
  expiredTimer ++ [.call (.doDelay ⟨⟨1, true, .ok⟩, 10, true, true, true⟩ false 5),
    .cbReturn true 7, .iterate]

theorem timer_callback_quiet :
    ∃ s, lockMachine.run (.start ⟨true, Chain.empty, 0, 4, 0⟩ true) quietCallback = some s ∧
      s.relocked = false := by
  have hrun : (lockMachine.run (.start ⟨true, Chain.empty, 0, 4, 0⟩ true) quietCallback).isSome
      = true := by decide +kernel
  obtain ⟨s, hs⟩ := Option.isSome_iff_exists.mp hrun
  exact ⟨s, hs, (timer_callback_locks_iff _ _ _ s hs).1.mpr (by decide +kernel)⟩

/-- The callback of the timer cancels it. -/
theorem timer_callback_relocks :
    ∃ s, lockMachine.run (.start ⟨true, Chain.empty, 0, 4, 0⟩ true)
        (expiredTimer ++ [.call (.timerCancel ⟨1, true, .ok⟩ true (some 0))]) = some s ∧
      s.relocked = true := by
  have hrun : (lockMachine.run (.start ⟨true, Chain.empty, 0, 4, 0⟩ true)
      (expiredTimer ++ [LockAct.call (.timerCancel ⟨1, true, .ok⟩ true (some 0))])).map
        (fun s => s.relocked) = some true := by decide +kernel
  exact Option.map_eq_some_iff.mp hrun

end Ztk.Poller
