import Ztk.Poller.TimerDates

/-!
# What a step does to a timer

One account of the machine for the timers that exist: which steps call one (`fires`), free
one (`frees`) and mark one (`marks`).  What is not said there stays as it is.

A timer that the flush frees is nowhere, and stays there.  Being nowhere is having no date:
`Dated` then holds whatever date the timer is given, so it needs no proof of its own for
each step.
-/

namespace Ztk.Poller

open Ztk.Lib TimerHeap

/-- The callback a flush starts, and its clock. -/
def fires (s : TimerState) : TimerAct → Option (Nat × Nat)
  | .flush now =>
      let top := s.heap.heap 0
      if s.heap.count ≠ 0 ∧ (s.heap.timer top).deadlineMs ≤ now ∧
        (s.heap.timer top).cancelled = false then some (top, now) else none
  | _ => none

/-- The timer a step marks. -/
def marks : TimerAct → Option Nat
  | .cancel _ t => some t
  | _ => none

/-- The callback that runs after a step. -/
def firingAfter (s : TimerState) : TimerAct → Option (Nat × Nat)
  | .flush now => fires s (.flush now)
  | .cbReturn _ _ => none
  | _ => s.firing

/-- The timers and their history after a step. -/
structure Touched (s : TimerState) (a : TimerAct) (u : TimerState) : Prop where
  next : s.next ≤ u.next
  firing : u.firing = firingAfter s a
  starts : ∀ t, u.starts t =
    if (fires s a).map Prod.fst = some t then s.starts t + 1 else s.starts t
  freed : ∀ t < s.next, (u.mem.freed t = true ↔ s.mem.freed t = true ∨ t ∈ frees s a)
  cancelled : ∀ t < s.next, ((u.heap.timer t).cancelled = true ↔
    (s.heap.timer t).cancelled = true ∨ marks a = some t)

theorem freed_free {m : Lifetime} {t v : Nat} :
    (m.free v).freed t = true ↔ m.freed t = true ∨ t = v := by
  by_cases htv : t = v
  · simp [Lifetime.free, htv]
  · simp [Lifetime.free, htv]

theorem freed_use_all (m : Lifetime) (v : Nat) (ts : List Nat) :
    ((m.use v).useAll ts).freed = m.freed := Lifetime.useAll_freed _ _

theorem freed_freeAll {ts : List Nat} {m : Lifetime} {t : Nat} :
    (m.freeAll ts).freed t = true ↔ m.freed t = true ∨ t ∈ ts := by
  have h : (m.freeAll ts).Live t ↔ m.Live t ∧ t ∉ ts := Lifetime.freeAll_live
  rw [Lifetime.Live, Lifetime.Live, ← Bool.not_eq_true, ← Bool.not_eq_true, ← not_or] at h
  exact not_iff_not.mp h

section
variable {s u : TimerState}

/-- A step that calls, frees and marks nothing. -/
theorem Touched.keep {a : TimerAct} (hn : s.next ≤ u.next) (hfire : u.firing = firingAfter s a)
    (hnone : fires s a = none) (hfree : frees s a = []) (hmark : marks a = none)
    (hs : u.starts = s.starts) (hm : ∀ t < s.next, u.mem.freed t = s.mem.freed t)
    (hc : ∀ t < s.next, (u.heap.timer t).cancelled = (s.heap.timer t).cancelled) :
    Touched s a u := by
  refine ⟨hn, hfire, fun t => ?_, fun t ht => ?_, fun t ht => ?_⟩
  · rw [hnone, hs]
    rfl
  · rw [hm t ht, hfree, or_iff_left List.not_mem_nil]
  · rw [hc t ht, hmark]
    exact (or_iff_left fun he => by cases he).symm

theorem touched_doDelay {env : DelayEnv} {cb : Bool} {delayMs : Nat}
    (hs : stepDoDelay s env cb delayMs = some u) : Touched s (.doDelay env cb delayMs) u := by
  have hle : s.next ≤ s.next + 1 := Nat.le_succ _
  have hcalloc : ∀ t < s.next, ((s.heap.calloc s.next).timer t).cancelled =
      (s.heap.timer t).cancelled := fun t ht => calloc_cancelled s.heap (Nat.ne_of_lt ht)
  have hfree : ∀ t < s.next, (s.mem.free s.next).freed t = s.mem.freed t :=
    fun t ht => Function.update_of_ne (Nat.ne_of_lt ht) ..
  cases stepDoDelay_ends hs with
  | refused =>
      exact .keep (Nat.le_refl _) rfl rfl rfl rfl rfl (fun _ _ => rfl) fun _ _ => rfl
  | owner d _ _ =>
      refine .keep hle rfl rfl rfl rfl rfl (fun t _ => congrFun (freed_use_all _ _ _) t) ?_
      exact fun t ht => (insertLocked_cancelled _ _ _ _ _).trans (hcalloc t ht)
  | noctx => exact .keep hle rfl rfl rfl rfl rfl hfree hcalloc
  | nomem => exact .keep hle rfl rfl rfl rfl rfl hfree hcalloc
  | queued d _ => exact .keep hle rfl rfl rfl rfl rfl (fun _ _ => rfl) hcalloc
  | unwoken d _ => exact .keep hle rfl rfl rfl rfl rfl hfree hcalloc

theorem touched_cancel {self v : Nat} (hs : stepCancel s self v = some u) :
    Touched s (.cancel self v) u := by
  have hset : ∀ t, ((s.heap.setCancelled v).timer t).cancelled = true ↔
      (s.heap.timer t).cancelled = true ∨ some v = some t := by
    intro t
    rw [setCancelled_cancelled]
    by_cases htv : t = v
    · simp [htv]
    · simp [htv, Ne.symm htv]
  have hmark : ∀ {w : TimerState}, w.next = s.next → w.firing = s.firing → w.starts = s.starts →
      w.mem.freed = s.mem.freed →
      (∀ t, (w.heap.timer t).cancelled = ((s.heap.setCancelled v).timer t).cancelled) →
      Touched s (.cancel self v) w := by
    intro w hn hf hst hm hw
    refine ⟨Nat.le_of_eq hn.symm, hf, congrFun hst, fun t _ => ?_, fun t _ => ?_⟩
    · rw [hm]
      exact (or_iff_left List.not_mem_nil).symm
    · rw [hw]
      exact hset t
  rw [stepCancel] at hs
  split at hs
  · cases hs
  · split at hs
    · cases hs
      exact hmark rfl rfl rfl rfl fun _ => rfl
    · split at hs
      · obtain ⟨-, rfl⟩ := locked_eq_some.mp hs
        exact hmark rfl rfl rfl (freed_use_all _ _ _) (timerHeapRemove_cancelled _ v)
      · cases hs
        exact hmark rfl rfl rfl rfl fun _ => rfl

theorem touched_cancelPost {env : AsyncEnv} {callocCtx : Bool} {v : Nat}
    (hs : stepCancelPost s env callocCtx v = some u) : Touched s (.cancelPost env callocCtx v) u := by
  cases (stepCancelPost_eq_some hs).2 with
  | noctx => exact .keep (Nat.le_refl _) rfl rfl rfl rfl rfl (fun _ _ => rfl) fun _ _ => rfl
  | nomem => exact .keep (Nat.le_refl _) rfl rfl rfl rfl rfl (fun _ _ => rfl) fun _ _ => rfl
  | queued => exact .keep (Nat.le_refl _) rfl rfl rfl rfl rfl (fun _ _ => rfl) fun _ _ => rfl
  | unwoken _ => exact .keep (Nat.le_refl _) rfl rfl rfl rfl rfl (fun _ _ => rfl) fun _ _ => rfl

theorem touched_next (realloc : Bool) {n : Nat × TimerTask} {rest : List (Nat × TimerTask)} :
    Touched s (.next realloc) (({ s with list := rest }.runTask realloc n.2).takeCtx n.1) := by
  obtain ⟨addr, task⟩ := n
  cases task with
  | delayInsert v d =>
      exact .keep (Nat.le_refl _) rfl rfl rfl rfl rfl
        (fun t _ => congrFun (freed_use_all _ _ _) t)
        fun t _ => insertLocked_cancelled realloc s.heap v d t
  | timerCancel v =>
      exact .keep (Nat.le_refl _) rfl rfl rfl rfl rfl
        (fun t _ => congrFun (freed_use_all _ _ _) t)
        fun t _ => timerHeapRemove_cancelled s.heap v t

/-- The first timer, taken out and due, is freed or called. -/
theorem touched_fire {q : TimerState} {now top : Nat} (hf : s.firing = none)
    (htop : s.heap.heap 0 = top) (h0 : s.heap.count ≠ 0)
    (hdue : (s.heap.timer top).deadlineMs ≤ now) (hn : q.next = s.next)
    (hqf : q.firing = s.firing) (hst : q.starts = s.starts) (hm : q.mem.freed = s.mem.freed)
    (hc : ∀ v, (q.heap.timer v).cancelled = (s.heap.timer v).cancelled) :
    Touched s (.flush now) (q.fire top now) := by
  have hle : s.next ≤ q.next := Nat.le_of_eq hn.symm
  have hkeep : ∀ t < s.next, ((q.heap.timer t).cancelled = true ↔
      (s.heap.timer t).cancelled = true ∨ marks (.flush now) = some t) := by
    intro t _
    rw [hc]
    exact (or_iff_left fun he => by cases he).symm
  have hfreed : (q.mem.use top).freed = s.mem.freed := hm
  simp only [TimerState.fire, hc]
  cases hct : (s.heap.timer top).cancelled with
  | true =>
      have hnone : fires s (.flush now) = none := by simp [fires, htop, hct]
      have hfree : frees s (.flush now) = [top] := by simp [frees, htop, h0, hdue, hct]
      refine ⟨hle, (hqf.trans hf).trans hnone.symm, fun t => ?_, fun t _ => ?_, hkeep⟩
      · rw [hnone]
        exact congrFun hst t
      · rw [hfree, List.mem_singleton, ← hfreed]
        exact freed_free
  | false =>
      have hsome : fires s (.flush now) = some (top, now) := by simp [fires, htop, h0, hdue, hct]
      have hfree : frees s (.flush now) = [] := by simp [frees, htop, hct]
      refine ⟨hle, hsome.symm, fun t => ?_, fun t _ => ?_, hkeep⟩
      · rw [hsome]
        by_cases htt : t = top
        · simp [htt, hst]
        · simp [htt, Ne.symm htt, hst]
      · rw [hfree, or_iff_left List.not_mem_nil, ← hfreed]
        rfl

theorem touched_flush {now : Nat} (hs : stepFlush s now = some u) : Touched s (.flush now) u := by
  have hstill : ∀ {w : TimerState}, s.firing = none → fires s (.flush now) = none →
      frees s (.flush now) = [] → w.next = s.next → w.firing = s.firing →
      w.starts = s.starts → w.mem.freed = s.mem.freed → w.heap = s.heap →
      Touched s (.flush now) w := by
    intro w hf hnone hfree hn hfire hst hm hh
    exact .keep (Nat.le_of_eq hn.symm) ((hfire.trans hf).trans hnone.symm) hnone hfree rfl hst
      (fun t _ => congrFun hm t) fun t _ => by rw [hh]
  rw [stepFlush] at hs
  split at hs
  · cases hs
  · split at hs
    · next h0 =>
        obtain ⟨hf, rfl⟩ := locked_eq_some.mp hs
        exact hstill hf (by simp [fires, h0]) (by simp [frees, h0]) rfl rfl rfl rfl rfl
    · next h0 =>
        simp only at hs
        split at hs
        · next hdue =>
            obtain ⟨hf, rfl⟩ := locked_eq_some.mp hs
            exact touched_fire hf rfl h0 hdue rfl rfl rfl (freed_use_all _ _ _)
              (timerHeapPopMin_cancelled s.heap)
        · next hdue =>
            obtain ⟨hf, rfl⟩ := locked_eq_some.mp hs
            exact hstill hf (by simp [fires, hdue]) (by simp [frees, hdue]) rfl rfl rfl rfl rfl

theorem touched_cbReturn (realloc : Bool) (nextMs : Nat) {v now : Nat}
    (hf : s.firing = some (v, now)) :
    Touched s (.cbReturn realloc nextMs)
      (if 0 < nextMs then s.again realloc v ((now + nextMs) % 2 ^ 64) else s.retire v) := by
  have hkept : ∀ {w : TimerState}, w.next = s.next → w.firing = none → w.starts = s.starts →
      (∀ t, w.mem.freed t = true ↔ s.mem.freed t = true ∨ t ∈ frees s (.cbReturn realloc nextMs)) →
      (∀ t, (w.heap.timer t).cancelled = (s.heap.timer t).cancelled) →
      Touched s (.cbReturn realloc nextMs) w := by
    intro w hn hfire hst hm hc
    refine ⟨Nat.le_of_eq hn.symm, hfire, congrFun hst, fun t _ => hm t, fun t _ => ?_⟩
    rw [hc]
    exact (or_iff_left fun he => by cases he).symm
  split
  · next hpos =>
      have hne : nextMs ≠ 0 := Nat.ne_of_gt hpos
      simp only [TimerState.again]
      split
      · next hc =>
          have hfree : frees s (.cbReturn realloc nextMs) = [v] := by simp [frees, hf, hc]
          refine hkept rfl rfl rfl (fun t => ?_) fun _ => rfl
          rw [hfree, List.mem_singleton]
          exact freed_free
      · next hc =>
          have hfree : frees s (.cbReturn realloc nextMs) = [] := by simp [frees, hf, hc, hne]
          refine hkept rfl rfl rfl (fun t => ?_) (insertLocked_cancelled realloc s.heap v _)
          rw [hfree, or_iff_left List.not_mem_nil]
          exact Bool.eq_iff_iff.mp (congrFun (freed_use_all _ _ _) t)
  · next hz =>
      have hfree : frees s (.cbReturn realloc nextMs) = [v] := by
        simp [frees, hf, Nat.eq_zero_of_not_pos hz]
      refine hkept rfl rfl rfl (fun t => ?_) fun _ => rfl
      rw [hfree, List.mem_singleton]
      exact freed_free

/-- What each step does to the timers. -/
theorem step_touched {a : TimerAct} (hs : timerMachine.step s a = some u) : Touched s a u := by
  cases a with
  | bind self =>
      cases hs
      exact .keep (Nat.le_refl _) rfl rfl rfl rfl rfl (fun _ _ => rfl) fun _ _ => rfl
  | doDelay env cb delayMs => exact touched_doDelay hs
  | cancel self v => exact touched_cancel hs
  | cancelPost env callocCtx v => exact touched_cancelPost hs
  | drain =>
      simp only [timerMachine, timerStep] at hs
      split at hs
      · obtain ⟨-, rfl⟩ := locked_eq_some.mp hs
        split
        · exact .keep (Nat.le_refl _) rfl rfl rfl rfl rfl (fun _ _ => rfl) fun _ _ => rfl
        · exact .keep (Nat.le_refl _) rfl rfl rfl rfl rfl (fun _ _ => rfl) fun _ _ => rfl
      · cases hs
  | next realloc =>
      simp only [timerMachine, timerStep] at hs
      split at hs
      · cases hs
      · obtain ⟨-, rfl⟩ := locked_eq_some.mp hs
        exact touched_next realloc
  | flush now => exact touched_flush hs
  | cbReturn realloc nextMs =>
      cases hf : s.firing with
      | none =>
          simp only [timerMachine, timerStep, hf] at hs
          cases hs
      | some f =>
          obtain ⟨v, now⟩ := f
          simp only [timerMachine, timerStep, hf] at hs
          have htouch := touched_cbReturn realloc nextMs hf
          split at hs
          · next hpos =>
              cases hs
              rw [if_pos hpos] at htouch
              exact htouch
          · next hpos =>
              cases hs
              rw [if_neg hpos] at htouch
              exact htouch
  | timerFini =>
      simp only [timerMachine, timerStep] at hs
      split at hs
      · obtain ⟨-, rfl⟩ := locked_eq_some.mp hs
        refine ⟨Nat.le_refl _, rfl, fun _ => rfl, fun _ _ => freed_freeAll, fun _ _ => ?_⟩
        exact (or_iff_left fun he => by cases he).symm
      · cases hs

/-- A flush starts while no callback runs. -/
theorem stepFlush_idle {now : Nat} (hs : stepFlush s now = some u) : s.firing = none := by
  rw [stepFlush] at hs
  split at hs
  · cases hs
  · split at hs
    · exact (locked_eq_some.mp hs).1
    · simp only at hs
      split at hs
      · exact (locked_eq_some.mp hs).1
      · exact (locked_eq_some.mp hs).1

/-- Calls are only ever added. -/
theorem starts_ne_zero {a : TimerAct} (hs : timerMachine.step s a = some u) {t : Nat} (h : s.starts t ≠ 0) :
    u.starts t ≠ 0 := by
  rw [(step_touched hs).starts t]
  split
  · exact Nat.succ_ne_zero _
  · exact h

/-- The callback that runs after a flush is one it starts. -/
theorem flush_firing {now : Nat} (hs : timerMachine.step s (.flush now) = some u) :
    s.firing = none ∧ u.firing = fires s (.flush now) :=
  ⟨stepFlush_idle hs, (step_touched hs).firing⟩

/-- What a call of `ztk_poller_do_delay` that returns a timer leaves of it. -/
theorem delayed_new {v : TimerState} {env : DelayEnv} {cb : Bool} {n t : Nat}
    (h : Delayed s env cb n (some t) v) :
    t = s.next ∧ v.next = s.next + 1 ∧ (v.heap.timer t).cancelled = false ∧
      v.starts = s.starts ∧ v.firing = s.firing := by
  have hnew : ((s.heap.calloc s.next).timer s.next).cancelled = false := by
    simp [TimerHeap.calloc]
  cases h with
  | owner _ _ => exact ⟨rfl, rfl, (insertLocked_cancelled _ _ _ _ _).trans hnew, rfl, rfl⟩
  | queued _ _ _ => exact ⟨rfl, rfl, hnew, rfl, rfl⟩

end

/-! ## The queue -/

/-- The pending tasks after a step. -/
inductive TasksAfter (s : TimerState) (a : TimerAct) (u : TimerState) : Prop where
  | same : u.pendingTasks = s.pendingTasks → TasksAfter s a u
  | posted (task : TimerTask) : u.pendingTasks.Perm (task :: s.pendingTasks) → TasksAfter s a u
  | ran {realloc : Bool} {addr : Nat} {task : TimerTask} {rest : List (Nat × TimerTask)} :
      a = .next realloc → s.list = (addr, task) :: rest →
      s.pendingTasks = task :: u.pendingTasks → TasksAfter s a u

section
variable {s u : TimerState}

theorem tasks_doDelay (h : s.tasks.Linked) {env : DelayEnv} {cb : Bool} {delayMs : Nat}
    (hs : stepDoDelay s env cb delayMs = some u) :
    TasksAfter s (.doDelay env cb delayMs) u := by
  cases stepDoDelay_ends hs with
  | refused => exact .same rfl
  | owner d _ _ => exact .same rfl
  | noctx => exact .same rfl
  | nomem => exact .same rfl
  | queued d _ => exact .posted _ (pending_push h true (.delayInsert s.next d))
  | unwoken d _ => exact .posted _ (pending_push h true (.delayInsert s.next d))

theorem tasks_cancel {self v : Nat} (hs : stepCancel s self v = some u) :
    TasksAfter s (.cancel self v) u := by
  simp only [stepCancel] at hs
  split at hs
  · cases hs
  · split at hs
    · cases hs
      exact .same rfl
    · split at hs
      · obtain ⟨-, rfl⟩ := locked_eq_some.mp hs
        exact .same rfl
      · cases hs
        exact .same rfl

theorem tasks_cancelPost (h : s.tasks.Linked) {env : AsyncEnv} {callocCtx : Bool} {v : Nat}
    (hs : stepCancelPost s env callocCtx v = some u) :
    TasksAfter s (.cancelPost env callocCtx v) u := by
  have hpush := pending_push h false (.timerCancel v)
  cases (stepCancelPost_eq_some hs).2 with
  | noctx => exact .same rfl
  | nomem => exact .same rfl
  | queued => exact .posted (.timerCancel v) hpush
  | unwoken _ => exact .posted (.timerCancel v) hpush

theorem tasks_flush {now : Nat} (hs : stepFlush s now = some u) :
    TasksAfter s (.flush now) u := by
  simp only [stepFlush] at hs
  split at hs
  · cases hs
  · split at hs
    · obtain ⟨-, rfl⟩ := locked_eq_some.mp hs
      exact .same rfl
    · split at hs
      · obtain ⟨-, rfl⟩ := locked_eq_some.mp hs
        simp only [TimerState.fire]
        split
        · exact .same rfl
        · exact .same rfl
      · obtain ⟨-, rfl⟩ := locked_eq_some.mp hs
        exact .same rfl

/-- Calls post tasks at the ends of the queue, and a drain runs the first task of its list. -/
theorem step_tasks (h : s.tasks.Linked) {a : TimerAct} (hs : timerMachine.step s a = some u) :
    TasksAfter s a u := by
  cases a with
  | bind self =>
      cases hs
      exact .same rfl
  | doDelay env cb delayMs => exact tasks_doDelay h hs
  | cancel self v => exact tasks_cancel hs
  | cancelPost env callocCtx v => exact tasks_cancelPost h hs
  | drain =>
      simp only [timerMachine, timerStep] at hs
      split at hs
      · next hl =>
          obtain ⟨-, rfl⟩ := locked_eq_some.mp hs
          split
          · exact .same (pending_drain hl)
          · exact .same rfl
      · cases hs
  | next realloc =>
      simp only [timerMachine, timerStep] at hs
      split at hs
      · cases hs
      · next n rest hl =>
          obtain ⟨-, rfl⟩ := locked_eq_some.mp hs
          obtain ⟨addr, task⟩ := n
          refine .ran rfl hl ((pending_head hl).trans ?_)
          cases task with
          | delayInsert v d => rfl
          | timerCancel v => rfl
  | flush now => exact tasks_flush hs
  | cbReturn realloc nextMs =>
      simp only [timerMachine, timerStep] at hs
      split at hs
      · cases hs
      · split at hs
        · cases hs
          simp only [TimerState.again]
          split
          · exact .same rfl
          · exact .same rfl
        · cases hs
          exact .same rfl
  | timerFini =>
      simp only [timerMachine, timerStep] at hs
      split at hs
      · obtain ⟨-, rfl⟩ := locked_eq_some.mp hs
        exact .same rfl
      · cases hs

end

/-! ## Timers that are nowhere -/

/-- What a flush calls is in the array. -/
theorem fires_mem {a : TimerAct} {f : Nat × Nat} (hf : fires s a = some f) : s.heap.Mem f.1 := by
  cases a with
  | flush now =>
      simp only [fires] at hf
      split at hf
      · next hcond =>
          cases hf
          exact ⟨0, Nat.pos_of_ne_zero hcond.1, rfl⟩
      · cases hf
  | bind | doDelay | cancel | cancelPost | drain | next | cbReturn | timerFini => cases hf

/-- The timer is neither called, nor in the array, nor in a queued insertion. -/
structure Nowhere (s : TimerState) (t : Nat) : Prop where
  old : t < s.next
  idle : s.firingTimer ≠ some t
  undated : ∃ due, ∀ x, Dates (Function.update due t x) s

namespace Nowhere

variable {s u : TimerState} {t : Nat}

theorem not_mem (h : Nowhere s t) : ¬ s.heap.Mem t := by
  intro hm
  obtain ⟨due, hall⟩ := h.undated
  have h0 := ((hall 0).dated.member t hm).2
  have h1 := ((hall 1).dated.member t hm).2
  rw [Function.update_self] at h0 h1
  rw [h0] at h1
  exact absurd h1 (by decide)

/-- A timer with a date that has left the array, the queue and its callback. -/
theorem of_dates {due : Nat → Nat} (h : Dates due s) (ht : t < s.next)
    (hf : s.firingTimer ≠ some t) (hloose : s.heap.Loose t)
    (hi : ∀ d, .delayInsert t d ∉ s.pendingTasks) : Nowhere s t :=
  ⟨ht, hf, due, fun x => ⟨h.dated.redate (h.dated.indexed.not_mem hloose) hi x, h.linked⟩⟩

/-- The date of a timer that is neither new nor called is its own after a step. -/
theorem dueAfter_update {due : Nat → Nat} (ht : t < s.next) (hf : s.firingTimer ≠ some t)
    (a : TimerAct) (x : Nat) :
    dueAfter s (Function.update due t x) a = Function.update (dueAfter s due a) t x := by
  cases a with
  | doDelay env cb delayMs => exact Function.update_comm (Nat.ne_of_lt ht) ..
  | cbReturn realloc nextMs =>
      cases hfire : s.firing with
      | none => simp only [dueAfter, hfire]
      | some f =>
          have hne : t ≠ f.1 := fun he => hf (by simp [TimerState.firingTimer, hfire, he])
          simp only [dueAfter, hfire]
          split
          · exact Function.update_comm hne ..
          · rfl
  | bind | cancel | cancelPost | drain | next | flush | timerFini => rfl

/-- No step brings a timer back. -/
theorem step (h : Nowhere s t) {a : TimerAct} (hs : timerMachine.step s a = some u) :
    Nowhere u t := by
  have htouch := step_touched hs
  obtain ⟨due, hall⟩ := h.undated
  refine ⟨Nat.lt_of_lt_of_le h.old htouch.next, fun hf => ?_, dueAfter s due a, fun x => ?_⟩
  · rw [TimerState.firingTimer, htouch.firing] at hf
    cases a with
    | flush now =>
        obtain ⟨f, hfires, rfl⟩ := Option.map_eq_some_iff.mp hf
        exact h.not_mem (fires_mem (a := .flush now) hfires)
    | cbReturn realloc nextMs => cases hf
    | bind | doDelay | cancel | cancelPost | drain | next | timerFini => exact h.idle hf
  · rw [← dueAfter_update h.old h.idle]
    exact (hall x).step hs

end Nowhere

/-- A flush that frees the first timer takes it out, and does no more. -/
theorem stepFlush_freed {s u : TimerState} {now : Nat} (hs : stepFlush s now = some u)
    (h0 : s.heap.count ≠ 0) (hdue : (s.heap.timer (s.heap.heap 0)).deadlineMs ≤ now)
    (hc : (s.heap.timer (s.heap.heap 0)).cancelled = true) :
    u.heap = (timerHeapPopMin s.heap).2 ∧ u.pendingTasks = s.pendingTasks := by
  have hpop := (timerHeapPopMin_cancelled s.heap (s.heap.heap 0)).trans hc
  rw [stepFlush] at hs
  split at hs
  · cases hs
  · simp only [hdue, if_true] at hs
    obtain ⟨-, rfl⟩ := locked_eq_some.mp hs
    simp only [TimerState.fire, TimerState.popMin, hpop, if_true]
    exact ⟨rfl, rfl⟩

/-- A callback after which its timer is freed leaves the rest alone. -/
theorem step_cbReturn_freed {s u : TimerState} {realloc : Bool} {nextMs t now : Nat}
    (hf : s.firing = some (t, now))
    (hs : timerMachine.step s (.cbReturn realloc nextMs) = some u)
    (hfree : nextMs = 0 ∨ (s.heap.timer t).cancelled = true) :
    u.heap = s.heap ∧ u.pendingTasks = s.pendingTasks := by
  simp only [timerMachine, timerStep, hf] at hs
  split at hs
  · next hpos =>
      have hc : (s.heap.timer t).cancelled = true := hfree.resolve_left (Nat.ne_of_gt hpos)
      cases hs
      simp only [TimerState.again, hc, if_true]
      exact ⟨rfl, rfl⟩
  · cases hs
    exact ⟨rfl, rfl⟩

/-- What `flush_expired_timers` frees is nowhere. -/
theorem frees_nowhere {due : Nat → Nat} {s u : TimerState} {t : Nat} (h : Dates due s)
    {a : TimerAct} (ha : a ≠ .timerFini) (hs : timerMachine.step s a = some u)
    (ht : t ∈ frees s a) : Nowhere u t := by
  have htouch := step_touched hs
  have hu := h.step hs
  cases a with
  | flush now =>
      simp only [frees] at ht
      split at ht
      · next hcond =>
          obtain ⟨h0, hdue, hc⟩ := hcond
          cases List.mem_singleton.mp ht
          obtain ⟨hheap, htasks⟩ := stepFlush_freed hs h0 hdue hc
          have hmem : s.heap.Mem (s.heap.heap 0) := ⟨0, Nat.pos_of_ne_zero h0, rfl⟩
          have hpop := timerHeapPopMin_thinned h.dated.indexed (Nat.pos_of_ne_zero h0)
          refine .of_dates hu (Nat.lt_of_lt_of_le (h.dated.member _ hmem).1 htouch.next) ?_ ?_ ?_
          · rw [TimerState.firingTimer, htouch.firing]
            simp [firingAfter, fires, hc]
          · rw [hheap]
            exact hpop.2
          · intro d hd
            rw [htasks] at hd
            exact h.dated.indexed.not_mem (h.dated.queued _ d hd).2.1 hmem
      · cases ht
  | cbReturn realloc nextMs =>
      simp only [frees] at ht
      split at ht
      · next v now hf =>
          split at ht
          · next hfree =>
              cases List.mem_singleton.mp ht
              obtain ⟨hheap, htasks⟩ := step_cbReturn_freed hf hs hfree
              have hd := h.dated
              rw [show s.firingTimer = some t by simp [TimerState.firingTimer, hf]] at hd
              obtain ⟨-, hlt, hloose, hi⟩ := hd.stopFiring
              refine .of_dates hu (Nat.lt_of_lt_of_le hlt htouch.next) ?_ ?_ ?_
              · rw [TimerState.firingTimer, htouch.firing]
                simp [firingAfter]
              · rw [hheap]
                exact hloose
              · rw [htasks]
                exact hi
          · cases ht
      · cases ht
  | timerFini => exact absurd rfl ha
  | bind | doDelay | cancel | cancelPost | drain | next => cases ht

end Ztk.Poller
