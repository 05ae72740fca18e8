import Ztk.Poller.TimerDates
import Ztk.Poller.TimerFlush

/-!
# Timers that are due

`TimerFlush` is about a call of `flush_expired_timers` as a function of the heap.  Here the
iterations are steps of the machine of the timers, begun in whatever state its calls have led
to.  Two things make the one say something about the other: before `ztk_poller_timer_fini` the
array is a heap in every state of every run (`inHeap_of_leads`), and between two steps of a
flush the machine agrees with the log of the call (`FlushStage`).

The limit of 256 iterations is of one call.  The steps here may be those of several calls at
one time.
-/

namespace Ztk.Poller

open Ztk.Lib TimerHeap BinaryHeap

/-! ## The array along a run -/

theorem HeapInv.calloc {p : TimerHeap} (h : HeapInv p) {t : Nat} (ht : ¬ p.Mem t) :
    HeapInv (p.calloc t) where
  order := by
    have hdl : ∀ i < p.count, (p.calloc t).deadlineAt i = p.deadlineAt i := by
      intro i hi
      have hne : p.heap i ≠ t := fun he => ht ⟨i, hi, he⟩
      exact congrArg Timer.deadlineMs (calloc_timer p hne)
    intro j hj hn
    have hparent : parent j < j := parent_lt hj
    rw [hdl j hn, hdl (parent j) (hparent.trans hn)]
    exact h.order j hj hn
  indexed := calloc_indexed h.indexed ht
  placed u := calloc_placed (h.placed u) t
  room := h.room

theorem HeapInv.setCancelled {p : TimerHeap} (h : HeapInv p) (t : Nat) :
    HeapInv (p.setCancelled t) where
  order := by
    have hdl : (p.setCancelled t).deadlineAt = p.deadlineAt := by
      funext i
      by_cases hi : p.heap i = t
      · simp [deadlineAt, TimerHeap.setCancelled, hi]
      · simp [deadlineAt, TimerHeap.setCancelled, hi]
    rw [hdl]
    exact h.order
  indexed := setCancelled_indexed h.indexed t
  placed u := setCancelled_placed (h.placed u) t
  room := h.room

/-- Until `ztk_poller_timer_fini` the array is a heap. -/
def InHeap (s : TimerState) : Prop := s.timerMtx = true → HeapInv s.heap

namespace InHeap

variable {due : Nat → Nat} {s u : TimerState}

theorem doDelay (h : InHeap s) (hd : Dates due s) {env : DelayEnv} {cb : Bool} {delayMs : Nat}
    (hs : stepDoDelay s env cb delayMs = some u) : InHeap u := by
  have hnew : s.timerMtx = true → HeapInv (s.heap.calloc s.next) := fun hm =>
    (h hm).calloc hd.dated.next_nowhere.1
  cases stepDoDelay_ends hs with
  | refused => exact h
  | owner d _ _ => exact fun hm => (hnew hm).insertLocked env.realloc s.next d
  | noctx | nomem | queued | unwoken => exact hnew

theorem cancel (h : InHeap s) {self t : Nat} (hs : stepCancel s self t = some u) :
    InHeap u := by
  rw [stepCancel] at hs
  split at hs
  · cases hs
  · split at hs
    · cases hs
      exact fun hm => (h hm).setCancelled t
    · split at hs
      · obtain ⟨-, rfl⟩ := locked_eq_some.mp hs
        exact fun hm => ((h hm).setCancelled t).remove t
      · cases hs
        exact fun hm => (h hm).setCancelled t

theorem runTask (h : InHeap s) (realloc : Bool) (task : TimerTask) :
    InHeap (s.runTask realloc task) := by
  cases task with
  | delayInsert t d => exact fun hm => (h hm).insertLocked realloc t d
  | timerCancel t => exact fun hm => (h hm).remove t

theorem flush (h : InHeap s) {now : Nat} (hs : stepFlush s now = some u) : InHeap u := by
  rw [stepFlush] at hs
  split at hs
  · cases hs
  · split at hs
    · obtain ⟨-, rfl⟩ := locked_eq_some.mp hs
      exact h
    · simp only at hs
      split at hs
      · obtain ⟨-, rfl⟩ := locked_eq_some.mp hs
        simp only [TimerState.fire]
        split
        · exact fun hm => (h hm).popMin
        · exact fun hm => (h hm).popMin
      · obtain ⟨-, rfl⟩ := locked_eq_some.mp hs
        exact h

theorem cbReturn (h : InHeap s) {realloc : Bool} {nextMs : Nat}
    (hs : timerMachine.step s (.cbReturn realloc nextMs) = some u) : InHeap u := by
  simp only [timerMachine, timerStep] at hs
  split at hs
  · cases hs
  · next t now _ =>
      split at hs
      · cases hs
        simp only [TimerState.again]
        split
        · exact h
        · exact fun hm => (h hm).insertLocked realloc t _
      · cases hs
        exact h

theorem step (h : InHeap s) (hd : Dates due s) {a : TimerAct}
    (hs : timerMachine.step s a = some u) : InHeap u := by
  cases a with
  | bind self =>
      cases hs
      exact h
  | doDelay env cb delayMs => exact h.doDelay hd hs
  | cancel self t => exact h.cancel hs
  | cancelPost env callocCtx t =>
      cases (stepCancelPost_eq_some hs).2 with
      | noctx | nomem | queued | unwoken => exact h
  | drain =>
      simp only [timerMachine, timerStep] at hs
      split at hs
      · obtain ⟨-, rfl⟩ := locked_eq_some.mp hs
        split
        · exact h
        · exact h
      · cases hs
  | next realloc =>
      simp only [timerMachine, timerStep] at hs
      split at hs
      · cases hs
      · next n rest _ =>
          obtain ⟨-, rfl⟩ := locked_eq_some.mp hs
          have hrest : InHeap { s with list := rest } := h
          exact hrest.runTask realloc n.2
  | flush now => exact h.flush hs
  | cbReturn realloc nextMs => exact h.cbReturn hs
  | timerFini =>
      simp only [timerMachine, timerStep] at hs
      split at hs
      · obtain ⟨-, rfl⟩ := locked_eq_some.mp hs
        rintro ⟨⟩
      · cases hs

end InHeap

theorem inHeap_of_leads {tasks : TaskPoller TimerTask} {timerMtx : Bool} {s : TimerState}
    (h : timerMachine.Leads Machine.Any (.start tasks timerMtx) s) : InHeap s := by
  have hinv : (∃ due, Dates due s) ∧ InHeap s :=
    h.invariant (I := fun s => (∃ due, Dates due s) ∧ InHeap s)
      (fun _ _ _ ⟨⟨_, hd⟩, hi⟩ _ hs => ⟨⟨_, hd.step hs⟩, hi.step hd hs⟩)
      ⟨⟨fun _ => 0, .start _ tasks timerMtx⟩, fun _ => .start _ _⟩
  exact hinv.2

/-! ## A flush as steps -/

/-- Callbacks that return what `cb` says, where no memory can be had. -/
def flushEnv (cb : Nat → Nat) : FlushEnv := ⟨fun _ => true, fun _ t => cb t, fun _ => false⟩

/-- The owner is in `flush_expired_timers` at `nowMs`, and no memory can be had.  The callback
of a timer returns what `cb` says, and calls nothing. -/
def InFlush (cb : Nat → Nat) (nowMs : Nat) (s : TimerState) : TimerAct → Prop
  | .flush now => now = nowMs
  | .cbReturn realloc nextMs => realloc = false ∧ ∀ f ∈ s.firing, nextMs = cb f.1
  | .bind _ | .doDelay _ _ _ | .cancel _ _ | .cancelPost _ _ _ | .drain | .next _
  | .timerFini => False

/-- No callback runs, and no timer is due. -/
def NoneDue (nowMs : Nat) (s : TimerState) : Prop :=
  s.firing = none ∧ ∀ t, s.heap.Mem t → nowMs < s.heap.deadline t

/-- What the machine has recorded since `s₀` is what the log says, with the callbacks that are
under way. -/
structure AtLog (s₀ s : TimerState) (l : FlushLog) (running : List Nat) : Prop where
  timerMtx : s.timerMtx = true
  starts : ∀ t, s.starts t = s₀.starts t + (l.called.map Prod.fst ++ running).count t
  freed : ∀ t, s.mem.freed t = true ↔ s₀.mem.freed t = true ∨ t ∈ l.freed

/-- Between two iterations of a flush that began in `s₀`. -/
structure Between (s₀ s : TimerState) (l : FlushLog) : Prop extends AtLog s₀ s l [] where
  firing : s.firing = none
  heap : s.heap = l.heap

/-- In the callback of the timer that was at the root. -/
structure Calling (nowMs : Nat) (s₀ s : TimerState) (l : FlushLog) (t : Nat) : Prop
    extends AtLog s₀ s l [t] where
  firing : s.firing = some (t, nowMs)
  count : 0 < l.heap.count
  due : l.heap.deadlineAt 0 ≤ nowMs
  popMin : timerHeapPopMin l.heap = (some t, s.heap)
  cancelled : (s.heap.timer t).cancelled = false

/-- Where the owner is in a flush that began in `s₀`. -/
inductive FlushStage (nowMs : Nat) (s₀ s : TimerState) (l : FlushLog) : Prop where
  | between (h : Between s₀ s l)
  | calling (t : Nat) (h : Calling nowMs s₀ s l t)

section

variable {cb : Nat → Nat} {nowMs t : Nat} {s₀ s u : TimerState} {l : FlushLog} {q : TimerHeap}

/-! ### The iteration of the log -/

theorem iterate_cancelled (hpop : timerHeapPopMin l.heap = (some t, q))
    (hc : (q.timer t).cancelled = true) : l.iterate (flushEnv cb) nowMs =
      ⟨q, l.popped ++ [t], l.called, l.freed ++ [t]⟩ := by
  rw [FlushLog.iterate, hpop]
  simp only [hc, if_true]

theorem iterate_zero (hpop : timerHeapPopMin l.heap = (some t, q))
    (hc : (q.timer t).cancelled = false) (hz : ¬ 0 < cb t) :
    l.iterate (flushEnv cb) nowMs =
      ⟨q, l.popped ++ [t], l.called ++ [(t, cb t)], l.freed ++ [t]⟩ := by
  rw [FlushLog.iterate, hpop]
  simp only [flushEnv, hc, hz, Bool.false_eq_true, if_false, if_true, decide_false,
    Bool.false_and]

theorem iterate_again (hpop : timerHeapPopMin l.heap = (some t, q))
    (hc : (q.timer t).cancelled = false) (hpos : 0 < cb t) :
    l.iterate (flushEnv cb) nowMs =
      ⟨pollerTimerInsertLocked false q t ((nowMs + cb t) % 2 ^ 64), l.popped ++ [t],
        l.called ++ [(t, cb t)], l.freed⟩ := by
  rw [FlushLog.iterate, hpop]
  simp only [flushEnv, hc, hpos, Bool.false_eq_true, if_false, if_true, decide_true,
    Bool.not_false, Bool.and_self]

/-! ### The steps of the machine -/

/-- Where no timer is due the call ends. -/
theorem step_flush_late (hm : s.timerMtx = true) (hf : s.firing = none)
    (hlate : ¬ (0 < s.heap.count ∧ s.heap.deadlineAt 0 ≤ nowMs)) :
    ∃ m : Lifetime, m.freed = s.mem.freed ∧
      timerMachine.step s (.flush nowMs) = some { s with mem := m } := by
  have hlock : ∀ v : TimerState, s.locked v = some v := fun v => if_pos hf
  have hgo : (!s.timerMtx) = false := congrArg not hm
  by_cases hcount : s.heap.count = 0
  · refine ⟨s.mem, rfl, ?_⟩
    simp only [timerMachine, timerStep, stepFlush, hgo, hcount, hlock, Bool.false_eq_true,
      if_false, if_true]
  · have hdue : ¬ (s.heap.timer (s.heap.heap 0)).deadlineMs ≤ nowMs := fun hle =>
      hlate ⟨Nat.pos_of_ne_zero hcount, hle⟩
    refine ⟨s.mem.use (s.heap.heap 0), rfl, ?_⟩
    simp only [timerMachine, timerStep, stepFlush, hgo, hcount, hdue, hlock,
      Bool.false_eq_true, if_false]

/-- The first timer is taken out. -/
theorem step_flush_due (hm : s.timerMtx = true) (hf : s.firing = none)
    (hcount : 0 < s.heap.count) (hdue : s.heap.deadlineAt 0 ≤ nowMs) :
    timerMachine.step s (.flush nowMs) =
      some ({ s with mem := s.mem.use (s.heap.heap 0) }.popMin.fire (s.heap.heap 0) nowMs) := by
  have hne : s.heap.count ≠ 0 := Nat.ne_of_gt hcount
  have hle : (s.heap.timer (s.heap.heap 0)).deadlineMs ≤ nowMs := hdue
  have hlock : ∀ v : TimerState, s.locked v = some v := fun v => if_pos hf
  simp only [timerMachine, timerStep, stepFlush, hm, hne, hle, hlock, Bool.not_true,
    Bool.false_eq_true, if_false, if_true]

theorem step_flush_running {f : Nat × Nat} (hf : s.firing = some f) :
    timerMachine.step s (.flush nowMs) = none := by
  have hlock : ∀ v : TimerState, s.locked v = none := by
    intro v
    refine if_neg fun hn => ?_
    rw [hf] at hn
    cases hn
  simp only [timerMachine, timerStep, stepFlush, hlock]
  split
  · rfl
  · split
    · rfl
    · split
      · rfl
      · rfl

/-- The callback returns. -/
theorem step_cbReturn (hf : s.firing = some (t, nowMs)) (realloc : Bool) (nextMs : Nat) :
    timerMachine.step s (.cbReturn realloc nextMs) =
      some (if 0 < nextMs then s.again realloc t ((nowMs + nextMs) % 2 ^ 64)
        else s.retire t) := by
  simp only [timerMachine, timerStep, hf]
  split
  · rfl
  · rfl

/-! ### What a step leaves -/

theorem AtLog.congr {running : List Nat} (h : AtLog s₀ s l running)
    (hm : u.timerMtx = s.timerMtx) (hs : u.starts = s.starts)
    (hf : u.mem.freed = s.mem.freed) : AtLog s₀ u l running where
  timerMtx := hm.trans h.timerMtx
  starts t := (congrFun hs t).trans (h.starts t)
  freed t := by
    rw [hf]
    exact h.freed t

/-- One more timer is freed. -/
theorem AtLog.freed_concat {running : List Nat} (h : AtLog s₀ s l running)
    (hf : u.mem.freed = (s.mem.free t).freed) (v : Nat) :
    u.mem.freed v = true ↔ s₀.mem.freed v = true ∨ v ∈ l.freed ++ [t] := by
  rw [hf, Lifetime.free_freed_iff, h.freed v, List.mem_append, List.mem_singleton, or_assoc]

/-- The first timer is freed, or its callback starts. -/
theorem Between.fire (h : Between s₀ s l) (hcount : 0 < l.heap.count)
    (hdue : l.heap.deadlineAt 0 ≤ nowMs) (m : Lifetime) (hm : m.freed = s.mem.freed) :
    Between s₀ ({ s with mem := m }.popMin.fire (s.heap.heap 0) nowMs)
        (l.iterate (flushEnv cb) nowMs) ∨
      ∃ t, Calling nowMs s₀ ({ s with mem := m }.popMin.fire (s.heap.heap 0) nowMs) l t := by
  have hpop : timerHeapPopMin l.heap = (some (s.heap.heap 0), (timerHeapPopMin s.heap).2) := by
    rw [h.heap, timerHeapPopMin_eq hcount]
  generalize s.heap.heap 0 = t at hpop
  have hfreed : (m.useAll s.heap.members).freed = s.mem.freed :=
    (Lifetime.useAll_freed ..).trans hm
  cases hc : ((timerHeapPopMin s.heap).2.timer t).cancelled with
  | true =>
      rw [TimerState.fire, TimerState.popMin]
      simp only [hc, if_true]
      rw [iterate_cancelled hpop hc]
      refine Or.inl ⟨⟨h.timerMtx, h.starts, h.freed_concat (t := t) ?_⟩, h.firing, rfl⟩
      exact congrArg (Function.update · t true) hfreed
  | false =>
      rw [TimerState.fire, TimerState.popMin]
      simp only [hc, Bool.false_eq_true, if_false]
      refine Or.inr ⟨t, ⟨h.timerMtx, fun v => ?_, fun v => ?_⟩, rfl, hcount, hdue, hpop, hc⟩
      · have hold := h.starts v
        rw [List.append_nil] at hold
        show Function.update s.starts t (s.starts t + 1) v = _
        rw [List.count_append, ← Nat.add_assoc, ← hold]
        by_cases hv : v = t
        · rw [hv, Function.update_self, List.count_singleton_self]
        · rw [Function.update_of_ne hv, List.count_eq_zero_of_not_mem, Nat.add_zero]
          exact fun hm => hv (List.mem_singleton.mp hm)
      · exact (congrFun hfreed v ▸ h.freed v)

/-- The timer is put back or freed. -/
theorem Calling.cbReturn (h : Calling nowMs s₀ s l t) :
    Between s₀ (if 0 < cb t then s.again false t ((nowMs + cb t) % 2 ^ 64) else s.retire t)
      (l.iterate (flushEnv cb) nowMs) := by
  have hstarts : ∀ v, s.starts v = s₀.starts v +
      ((l.called ++ [(t, cb t)]).map Prod.fst ++ []).count v := by
    intro v
    rw [List.map_append, List.append_nil]
    exact h.starts v
  split
  · next hpos =>
      rw [iterate_again h.popMin h.cancelled hpos, TimerState.again]
      simp only [h.cancelled, Bool.false_eq_true, if_false]
      refine ⟨⟨h.timerMtx, hstarts, fun v => ?_⟩, rfl, rfl⟩
      show (((s.mem.use t).use t).useAll s.heap.members).freed v = true ↔ _
      rw [Lifetime.useAll_freed]
      exact h.freed v
  · next hz =>
      rw [iterate_zero h.popMin h.cancelled hz]
      exact ⟨⟨h.timerMtx, hstarts, h.freed_concat rfl⟩, rfl, rfl⟩

/-! ### Runs -/

variable {p : TimerHeap}

theorem step_cbReturn_idle (hf : s.firing = none) (realloc : Bool) (nextMs : Nat) :
    timerMachine.step s (.cbReturn realloc nextMs) = none := by
  simp only [timerMachine, timerStep, hf]

/-- Every step of the owner goes on with the log. -/
theorem FlushStage.step (h : FlushStage nowMs s₀ s l) (hl : Flushed (flushEnv cb) p nowMs l)
    (hcb : ∀ t, nowMs + cb t < 2 ^ 64) {a : TimerAct} (ha : InFlush cb nowMs s a)
    (hs : timerMachine.step s a = some u) :
    ∃ l', Flushed (flushEnv cb) p nowMs l' ∧ FlushStage nowMs s₀ u l' := by
  cases a with
  | flush now =>
      cases ha
      cases h with
      | between h =>
          by_cases hgo : 0 < l.heap.count ∧ l.heap.deadlineAt 0 ≤ nowMs
          · rw [step_flush_due h.timerMtx h.firing (h.heap ▸ hgo.1) (h.heap ▸ hgo.2)] at hs
            cases hs
            obtain hb | ⟨t, ht⟩ := h.fire hgo.1 hgo.2 (s.mem.use _) rfl
            · exact ⟨_, (hl.iterate hgo.1 hgo.2 fun _ => hcb).1, .between hb⟩
            · exact ⟨l, hl, .calling t ht⟩
          · obtain ⟨m, hm, hstep⟩ := step_flush_late h.timerMtx h.firing (h.heap ▸ hgo)
            rw [hstep] at hs
            cases hs
            exact ⟨l, hl, .between ⟨h.congr rfl rfl hm, h.firing, h.heap⟩⟩
      | calling t h =>
          rw [step_flush_running h.firing] at hs
          cases hs
  | cbReturn realloc nextMs =>
      obtain ⟨rfl, hnext⟩ := ha
      cases h with
      | between h =>
          rw [step_cbReturn_idle h.firing] at hs
          cases hs
      | calling t h =>
          rw [hnext _ h.firing, step_cbReturn h.firing] at hs
          cases hs
          exact ⟨_, (hl.iterate h.count h.due fun _ => hcb).1, .between h.cbReturn⟩
  | bind | doDelay | cancel | cancelPost | drain | next | timerFini => exact ha.elim

theorem Calling.next (h : Calling nowMs s₀ s l t) :
    ∃ u, timerMachine.Leads (InFlush cb nowMs) s u ∧
      Between s₀ u (l.iterate (flushEnv cb) nowMs) := by
  have hreturn : InFlush cb nowMs s (.cbReturn false (cb t)) := by
    refine ⟨rfl, fun f hf => ?_⟩
    rw [h.firing] at hf
    cases hf
    rfl
  exact ⟨_, .single hreturn (step_cbReturn h.firing false (cb t)), h.cbReturn⟩

/-- An iteration takes one step, or two where the callback runs. -/
theorem Between.next (h : Between s₀ s l) (hcount : 0 < l.heap.count)
    (hdue : l.heap.deadlineAt 0 ≤ nowMs) :
    ∃ u, timerMachine.Leads (InFlush cb nowMs) s u ∧
      Between s₀ u (l.iterate (flushEnv cb) nowMs) := by
  have hflush : InFlush cb nowMs s (.flush nowMs) := rfl
  have hstep := step_flush_due h.timerMtx h.firing (h.heap ▸ hcount) (h.heap ▸ hdue)
  obtain hb | ⟨t, ht⟩ := h.fire hcount hdue (s.mem.use _) rfl
  · exact ⟨_, .single hflush hstep, hb⟩
  · obtain ⟨u, hu, hb⟩ := ht.next
    exact ⟨u, (Machine.Leads.single hflush hstep).trans hu, hb⟩

/-- As long as a timer is due the owner goes on; each iteration takes out one of them. -/
theorem Between.finishes (hcb : ∀ t, nowMs + cb t < 2 ^ 64) : ∀ (n : Nat) {s : TimerState}
    {l : FlushLog}, Between s₀ s l → Flushed (flushEnv cb) p nowMs l →
      (p.expired nowMs).length ≤ l.popped.length + n →
      ∃ v, timerMachine.Leads (InFlush cb nowMs) s v ∧ NoneDue nowMs v
  | n, s, l, h, hl, hn => by
      by_cases hgo : 0 < l.heap.count ∧ l.heap.deadlineAt 0 ≤ nowMs
      case neg =>
        refine ⟨s, .refl, h.firing, fun t hm => ?_⟩
        rw [h.heap] at hm ⊢
        exact hl.late hgo hm
      obtain ⟨hnext, hpopped⟩ := hl.iterate hgo.1 hgo.2 fun _ => hcb
      have hle := (hnext.nodup.subperm hnext.popped_subset).length_le
      rw [hpopped, List.length_append, List.length_singleton] at hle
      cases n with
      | zero => omega
      | succ n =>
          obtain ⟨u, hu, hb⟩ := h.next hgo.1 hgo.2
          obtain ⟨v, hv, hdone⟩ := hb.finishes hcb n hnext (by
            rw [hpopped, List.length_append, List.length_singleton]
            omega)
          exact ⟨v, hu.trans hv, hdone⟩

theorem FlushStage.finishes (h : FlushStage nowMs s₀ s l)
    (hl : Flushed (flushEnv cb) p nowMs l) (hcb : ∀ t, nowMs + cb t < 2 ^ 64) :
    ∃ v, timerMachine.Leads (InFlush cb nowMs) s v ∧ NoneDue nowMs v := by
  cases h with
  | between h => exact h.finishes hcb _ hl (Nat.le_add_left ..)
  | calling t h =>
      obtain ⟨u, hu, hb⟩ := h.next
      obtain ⟨v, hv, hdone⟩ := hb.finishes hcb _ (hl.iterate h.count h.due fun _ => hcb).1
        (Nat.le_add_left ..)
      exact ⟨v, hu.trans hv, hdone⟩

/-! ### The end -/

/-- The callback of the timer runs and asks for another turn. -/
theorem rearmed_iff (hl : Flushed (flushEnv cb) p nowMs l) :
    l.Rearmed t ↔ t ∈ l.popped ∧ (p.timer t).cancelled = false ∧ 0 < cb t := by
  have hcalled : t ∈ l.called.map Prod.fst ↔ t ∈ l.popped ∧ (p.timer t).cancelled = false := by
    rw [hl.called, List.mem_filter, runsCb, flushEnv, Bool.and_true, Bool.not_eq_true']
  rw [← and_assoc, ← hcalled, List.mem_map]
  constructor
  · rintro ⟨nextMs, hpos, hm⟩
    obtain ⟨k, -, rfl⟩ := hl.returned t nextMs hm
    exact ⟨⟨(t, _), hm, rfl⟩, hpos⟩
  · rintro ⟨⟨⟨t, nextMs⟩, hm, rfl⟩, hpos⟩
    obtain ⟨k, -, rfl⟩ := hl.returned t nextMs hm
    exact ⟨_, hpos, hm⟩

/-- When no timer is due any more, those that were due have been taken out. -/
theorem popped_iff (hl : Flushed (flushEnv cb) p nowMs l)
    (hnone : ∀ t, l.heap.Mem t → nowMs < l.heap.deadline t) :
    t ∈ l.popped ↔ t ∈ p.expired nowMs :=
  ⟨fun ht => hl.popped_subset ht, fun ht => hl.expired_subset hnone ht⟩

theorem FlushStage.settled (h : FlushStage nowMs s₀ s l) (hf : s.firing = none) :
    Between s₀ s l := by
  cases h with
  | between h => exact h
  | calling t h =>
      rw [h.firing] at hf
      cases hf

/-- What the log of a flush that left nothing due says about a timer. -/
theorem flushed_timer (hl : Flushed (flushEnv cb) p nowMs l)
    (hnone : ∀ t, l.heap.Mem t → nowMs < l.heap.deadline t) (t : Nat) :
    (l.heap.Mem t ↔
      p.Mem t ∧ (nowMs < p.deadline t ∨ (p.timer t).cancelled = false ∧ 0 < cb t)) ∧
    (l.heap.Mem t → l.heap.deadline t =
      if t ∈ p.expired nowMs then nowMs + cb t else p.deadline t) ∧
    (l.called.map Prod.fst).count t =
      (if t ∈ p.expired nowMs ∧ (p.timer t).cancelled = false then 1 else 0) ∧
    (t ∈ l.freed ↔
      t ∈ p.expired nowMs ∧ ¬ ((p.timer t).cancelled = false ∧ 0 < cb t)) := by
  have hpopped : t ∈ l.popped ↔ t ∈ p.expired nowMs := popped_iff hl hnone
  have hre := rearmed_iff (t := t) hl
  rw [hpopped] at hre
  refine ⟨?_, fun hm => ?_, ?_, ?_⟩
  · rw [hl.mem, hre, hpopped, mem_expired]
    by_cases hm : p.Mem t
    · simp only [hm, true_and, not_le]
      by_cases hlate : nowMs < p.deadline t
      · exact iff_of_true (Or.inl hlate) (Or.inl hlate)
      · rw [or_iff_right hlate, or_iff_right hlate, and_iff_right (Nat.le_of_not_lt hlate)]
    · simp only [hm, false_and, or_self]
  · split
    · next hdue =>
        obtain ⟨-, hn⟩ | hr := (hl.mem t).mp hm
        · exact absurd (hpopped.mpr hdue) hn
        · obtain ⟨nextMs, hpos, hc⟩ := hr
          obtain ⟨k, -, rfl⟩ := hl.returned t nextMs hc
          exact hl.rearmed t _ hc hpos
    · next hn => exact hl.deadline t fun hr => hn (hre.mp hr).1
  · rw [hl.called, (hl.nodup.filter _).count]
    simp only [List.mem_filter, hpopped, runsCb, flushEnv, Bool.and_true, Bool.not_eq_true']
  · rw [hl.freed, hre, hpopped]
    exact and_congr_right fun hd => not_congr (and_iff_right hd)

end

/-- In whatever state the calls have led to, the owner can always finish a flush; and when no
timer is due any more, every timer that was due has been taken out: the callback has run once
if the timer was not cancelled, and the timer is back if the callback asked for it, and freed
otherwise.  The others are where they were. -/
theorem due_timers_leave {tasks : TaskPoller TimerTask} {timerMtx : Bool} {s u : TimerState}
    (h : timerMachine.Leads Machine.Any (.start tasks timerMtx) s) (hmtx : s.timerMtx = true)
    (hf : s.firing = none) {cb : Nat → Nat} {nowMs : Nat} (hcb : ∀ t, nowMs + cb t < 2 ^ 64)
    (hu : timerMachine.Leads (InFlush cb nowMs) s u) :
    (∃ v, timerMachine.Leads (InFlush cb nowMs) u v ∧ NoneDue nowMs v) ∧
      (NoneDue nowMs u → ∀ t,
        (u.heap.Mem t ↔ s.heap.Mem t ∧
          (nowMs < s.heap.deadline t ∨ (s.heap.timer t).cancelled = false ∧ 0 < cb t)) ∧
        (u.heap.Mem t → u.heap.deadline t =
          if t ∈ s.heap.expired nowMs then nowMs + cb t else s.heap.deadline t) ∧
        u.starts t = s.starts t +
          (if t ∈ s.heap.expired nowMs ∧ (s.heap.timer t).cancelled = false then 1 else 0) ∧
        (u.mem.freed t = true ↔ s.mem.freed t = true ∨ t ∈ s.heap.expired nowMs ∧
          ¬ ((s.heap.timer t).cancelled = false ∧ 0 < cb t))) := by
  have hstart : Between s s ⟨s.heap, [], [], []⟩ :=
    ⟨⟨hmtx, fun _ => rfl, fun _ => (or_iff_left List.not_mem_nil).symm⟩, hf, rfl⟩
  obtain ⟨l, hl, hstage⟩ := hu.invariant
    (I := fun u => ∃ l, Flushed (flushEnv cb) s.heap nowMs l ∧ FlushStage nowMs s u l)
    (fun _ _ _ ⟨_, hl, hstage⟩ ha hs => hstage.step hl hcb ha hs)
    ⟨_, .start (inHeap_of_leads h hmtx), .between hstart⟩
  refine ⟨hstage.finishes hl hcb, fun ⟨hidle, hnone⟩ t => ?_⟩
  have hb := hstage.settled hidle
  rw [hb.heap] at hnone ⊢
  obtain ⟨hmem, hdeadline, hcalled, hfreed⟩ := flushed_timer hl hnone t
  rw [hb.starts t, hb.freed t, List.append_nil, hcalled, hfreed]
  exact ⟨hmem, hdeadline, rfl, Iff.rfl⟩

/-- Three timers of the owner, for 15, 15 and 95.  Thread 2 has marked the second one. -/
def threeTimers : List TimerAct :=
  [.doDelay ⟨⟨1, true, .ok⟩, 10, true, true, true⟩ true 5,
    .doDelay ⟨⟨1, true, .ok⟩, 10, true, true, true⟩ true 5,
    .doDelay ⟨⟨1, true, .ok⟩, 10, true, true, true⟩ true 85, .cancel 2 1]

/-- Every callback asks for another turn in 5 ms, and the flush is at 20. -/
theorem due_timers_leave_three :
    ∃ s u, timerMachine.Leads Machine.Any (.start ⟨true, Chain.empty, 1, 4, 0⟩ true) s ∧
      timerMachine.Leads (InFlush (fun _ => 5) 20) s u ∧ NoneDue 20 u ∧
      (u.heap.Mem 0 ∧ u.heap.deadline 0 = 25 ∧ u.starts 0 = s.starts 0 + 1) ∧
      u.mem.freed 1 = true ∧ u.heap.Mem 2 := by
  obtain ⟨s, hs, ⟨hmtx, hf⟩, hdue, hc, hc', hlast, hdl⟩ :=
    Machine.exists_run (M := timerMachine) (s := .start ⟨true, Chain.empty, 1, 4, 0⟩ true)
      (l := threeTimers)
      (P := fun s => (s.timerMtx = true ∧ s.firing = none) ∧ s.heap.expired 20 = [0, 1] ∧
        (s.heap.timer 0).cancelled = false ∧ (s.heap.timer 1).cancelled = true ∧
        2 ∈ s.heap.members ∧ 20 < s.heap.deadline 2) (by decide +kernel)
  have hl := Machine.leads_of_run threeTimers _ _ hs (Machine.runMeets_any _ _)
  have hcb : ∀ t : Nat, 20 + (fun _ : Nat => 5) t < 2 ^ 64 := fun _ =>
    show 20 + 5 < 2 ^ 64 by decide
  obtain ⟨u, hu, hnone⟩ := (due_timers_leave hl hmtx hf hcb .refl).1
  have hleft := (due_timers_leave hl hmtx hf hcb hu).2 hnone
  have hfirst : 0 ∈ s.heap.expired 20 := hdue ▸ List.mem_cons_self
  have hsecond : 1 ∈ s.heap.expired 20 := hdue ▸ List.mem_cons_of_mem _ List.mem_cons_self
  have hback : u.heap.Mem 0 :=
    (hleft 0).1.mpr ⟨(mem_expired.mp hfirst).1, Or.inr ⟨hc, by decide⟩⟩
  have hdeadline := (hleft 0).2.1 hback
  have hstarts := (hleft 0).2.2.1
  rw [if_pos hfirst] at hdeadline
  rw [if_pos ⟨hfirst, hc⟩] at hstarts
  refine ⟨s, u, hl, hu, hnone, ⟨hback, hdeadline, hstarts⟩, ?_, ?_⟩
  · refine (hleft 1).2.2.2.mpr (Or.inr ⟨hsecond, fun hn => ?_⟩)
    rw [hc'] at hn
    cases hn.1
  · exact (hleft 2).1.mpr ⟨mem_members.mp hlast, Or.inl hdl⟩

end Ztk.Poller
