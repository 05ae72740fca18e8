import Ztk.Lib.Trace
import Ztk.Poller.TimerLock

/-!
# One flush of the timers

A whole call of `flush_expired_timers` of `poller_timer.c`, for callbacks that only
return the time of the next turn.  The log of the call keeps the timers taken out, the
callbacks run with what they returned, and the timers freed.

A timer that is put back lies after `now_ms`, so the loop does not meet it again, and
everything it takes out was there at the start; it finds room for itself, since it was
just taken out.
-/

namespace Ztk.Poller

open Ztk.Lib TimerHeap

/-! ## The call -/

/-- What a call of `flush_expired_timers` has done so far. -/
structure FlushLog where
  heap : TimerHeap
  /-- The timers taken out, first to last. -/
  popped : List Nat
  /-- The callbacks run, with the `next_ms` they returned. -/
  called : List (Nat × Nat)
  freed : List Nat

/-- The callbacks, and whether `realloc` succeeds in each iteration.  A callback may
return another time in another iteration. -/
structure FlushEnv where
  /-- `timer->cb` is not null. -/
  hasCb : Nat → Bool
  cb : Nat → Nat → Nat
  realloc : Nat → Bool

/-- An iteration of `flush_expired_timers`. -/
def FlushLog.iterate (env : FlushEnv) (nowMs : Nat) (s : FlushLog) : FlushLog :=
  match timerHeapPopMin s.heap with
  | (none, heap) => { s with heap := heap }
  | (some timer, heap) =>
      let popped := s.popped ++ [timer]
      if (heap.timer timer).cancelled then ⟨heap, popped, s.called, s.freed ++ [timer]⟩
      else
        let processed := s.popped.length
        let nextMs := if env.hasCb timer then env.cb processed timer else 0
        let called := if env.hasCb timer then s.called ++ [(timer, nextMs)] else s.called
        if 0 < nextMs && !(heap.timer timer).cancelled then
          ⟨pollerTimerInsertLocked (env.realloc processed) heap timer ((nowMs + nextMs) % 2 ^ 64),
            popped, called, s.freed⟩
        else ⟨heap, popped, called, s.freed ++ [timer]⟩

/-- The loop of `flush_expired_timers`, with `n` iterations left. -/
def flushLoop (env : FlushEnv) (nowMs : Nat) : Nat → FlushLog → FlushLog
  | 0, s => s
  | n + 1, s =>
      if 0 < s.heap.count ∧ s.heap.deadlineAt 0 ≤ nowMs then
        flushLoop env nowMs n (s.iterate env nowMs)
      else s

/-- The cast of a `uint64_t` to `int64_t`. -/
def toInt64 (n : Nat) : Int :=
  if n % 2 ^ 64 < 2 ^ 63 then (n % 2 ^ 64 : Nat) else (n % 2 ^ 64 : Nat) - 2 ^ 64

/-- What `flush_expired_timers` returns when its loop has left `p`. -/
def flushResult (p : TimerHeap) (nowMs : Nat) : Int :=
  if p.count = 0 then -1
  else if nowMs < p.deadlineAt 0 then toInt64 (p.deadlineAt 0 - nowMs)
  else 0

/-- `flush_expired_timers`. -/
def flushExpiredTimers (env : FlushEnv) (p : TimerHeap) (nowMs : Nat) : Int × FlushLog :=
  let s := flushLoop env nowMs timerFlushMax ⟨p, [], [], []⟩
  (flushResult s.heap nowMs, s)

/-! ## What the log says -/

/-- `timer->deadline_ms`. -/
def TimerHeap.deadline (p : TimerHeap) (t : Nat) : Nat := (p.timer t).deadlineMs

/-- The callback of the timer runs when the timer is taken out. -/
def runsCb (env : FlushEnv) (p : TimerHeap) (t : Nat) : Bool :=
  !(p.timer t).cancelled && env.hasCb t

/-- The callback of the timer has asked for another turn. -/
def FlushLog.Rearmed (s : FlushLog) (t : Nat) : Prop :=
  ∃ nextMs, 0 < nextMs ∧ (t, nextMs) ∈ s.called

/-- Who has asked for another turn when more callbacks have run. -/
theorem rearmed_append {s s' : FlushLog} {c : List (Nat × Nat)} (hc : s'.called = s.called ++ c)
    (u : Nat) : s'.Rearmed u ↔ s.Rearmed u ∨ ∃ nextMs, 0 < nextMs ∧ (u, nextMs) ∈ c := by
  simp only [FlushLog.Rearmed, hc, List.mem_append, and_or_left, exists_or]

/-- How a flush of `p` has gone so far. -/
structure Flushed (env : FlushEnv) (p : TimerHeap) (nowMs : Nat) (s : FlushLog) : Prop where
  inv : HeapInv s.heap
  nodup : s.popped.Nodup
  expired : ∀ t ∈ s.popped, p.Mem t ∧ p.deadline t ≤ nowMs
  sorted : s.popped.Pairwise fun t u => p.deadline t ≤ p.deadline u
  least : ∀ t ∈ s.popped, ∀ u, p.Mem u → u ∉ s.popped → p.deadline t ≤ p.deadline u
  called : s.called.map Prod.fst = s.popped.filter (runsCb env p)
  returned : ∀ t nextMs, (t, nextMs) ∈ s.called →
    ∃ k, s.popped[k]? = some t ∧ nextMs = env.cb k t
  cancelled : ∀ t, (s.heap.timer t).cancelled = (p.timer t).cancelled
  mem : ∀ t, s.heap.Mem t ↔ p.Mem t ∧ t ∉ s.popped ∨ s.Rearmed t
  deadline : ∀ t, ¬ s.Rearmed t → s.heap.deadline t = p.deadline t
  rearmed : ∀ t nextMs, (t, nextMs) ∈ s.called → 0 < nextMs → s.heap.deadline t = nowMs + nextMs
  freed_nodup : s.freed.Nodup
  freed : ∀ t, t ∈ s.freed ↔ t ∈ s.popped ∧ ¬ s.Rearmed t

namespace Flushed

variable {env : FlushEnv} {p : TimerHeap} {nowMs : Nat} {s : FlushLog}

theorem start (h : HeapInv p) : Flushed env p nowMs ⟨p, [], [], []⟩ where
  inv := h
  nodup := List.nodup_nil
  expired := fun _ ht => by cases ht
  sorted := List.Pairwise.nil
  least := fun _ ht => by cases ht
  called := rfl
  returned := fun _ _ hc => by cases hc
  cancelled := fun _ => rfl
  mem := fun t => by
    constructor
    · intro hm
      exact .inl ⟨hm, List.not_mem_nil⟩
    · rintro (⟨hm, -⟩ | ⟨_, -, hc⟩)
      · exact hm
      · cases hc
  deadline := fun _ _ => rfl
  rearmed := fun _ _ hc => by cases hc
  freed_nodup := List.nodup_nil
  freed := fun _ => iff_of_false (fun ht => by cases ht) fun ht => by cases ht.1

/-- What was called was taken out. -/
theorem popped_of_called (h : Flushed env p nowMs s) {t nextMs : Nat}
    (hc : (t, nextMs) ∈ s.called) : t ∈ s.popped := by
  have hm : t ∈ s.called.map Prod.fst := List.mem_map_of_mem (f := Prod.fst) hc
  rw [h.called] at hm
  exact List.mem_of_mem_filter hm

/-- A timer that was not taken out lies where it was. -/
theorem deadline_of_unpopped (h : Flushed env p nowMs s) {t : Nat} (ht : t ∉ s.popped) :
    s.heap.deadline t = p.deadline t :=
  h.deadline t fun ⟨_, _, hc⟩ => ht (h.popped_of_called hc)

/-- What is due in the array has not been taken out before. -/
theorem unpopped_of_due (h : Flushed env p nowMs s) {t : Nat} (hm : s.heap.Mem t)
    (hdue : s.heap.deadline t ≤ nowMs) : p.Mem t ∧ t ∉ s.popped := by
  rcases (h.mem t).mp hm with hold | ⟨nextMs, hpos, hc⟩
  · exact hold
  · rw [h.rearmed t nextMs hc hpos] at hdue
    omega

/-- The root is no later than anything in the array. -/
theorem root_le (h : HeapInv p) {t : Nat} (hm : p.Mem t) : p.deadlineAt 0 ≤ p.deadline t := by
  obtain ⟨i, hi, rfl⟩ := hm
  exact h.order.root_le i hi

/-- The timer at the root, where it is due, is the next one to take out. -/
structure Next (p : TimerHeap) (nowMs : Nat) (s : FlushLog) (t : Nat) : Prop where
  mem : p.Mem t
  unpopped : t ∉ s.popped
  due : p.deadline t ≤ nowMs
  least : ∀ u, p.Mem u → u ∉ s.popped → p.deadline t ≤ p.deadline u

theorem next (h : Flushed env p nowMs s) (hcount : 0 < s.heap.count)
    (hdue : s.heap.deadlineAt 0 ≤ nowMs) : Next p nowMs s (s.heap.heap 0) := by
  have hroot : s.heap.Mem (s.heap.heap 0) := ⟨0, hcount, rfl⟩
  obtain ⟨hm, hn⟩ := h.unpopped_of_due hroot hdue
  have hdl : s.heap.deadlineAt 0 = p.deadline (s.heap.heap 0) := h.deadline_of_unpopped hn
  refine ⟨hm, hn, hdl ▸ hdue, fun u hu hnu => ?_⟩
  rw [← hdl, ← h.deadline_of_unpopped hnu]
  exact root_le h.inv ((h.mem u).mpr (.inl ⟨hu, hnu⟩))

/-- What holds of the timers taken out, with one more. -/
theorem popped_append (h : Flushed env p nowMs s) {t : Nat} (hn : Next p nowMs s t) :
    (s.popped ++ [t]).Nodup ∧ (∀ u ∈ s.popped ++ [t], p.Mem u ∧ p.deadline u ≤ nowMs) ∧
      (s.popped ++ [t]).Pairwise (fun u v => p.deadline u ≤ p.deadline v) ∧
      ∀ u ∈ s.popped ++ [t], ∀ v, p.Mem v → v ∉ s.popped ++ [t] →
        p.deadline u ≤ p.deadline v := by
  have hsplit : ∀ {u}, u ∈ s.popped ++ [t] → u ∈ s.popped ∨ u = t := fun hu => by
    rwa [List.mem_append, List.mem_singleton] at hu
  refine ⟨?_, fun u hu => ?_, ?_, fun u hu v hv hnv => ?_⟩
  · rw [List.nodup_append']
    refine ⟨h.nodup, List.nodup_singleton t, fun u hu hut => ?_⟩
    rw [List.mem_singleton.mp hut] at hu
    exact hn.unpopped hu
  · rcases hsplit hu with hu | rfl
    · exact h.expired u hu
    · exact ⟨hn.mem, hn.due⟩
  · exact Trace.pairwise_concat.mpr
      ⟨h.sorted, fun u hu => h.least u hu t hn.mem hn.unpopped⟩
  · have hnv' : v ∉ s.popped := fun hm => hnv (List.mem_append_left _ hm)
    rcases hsplit hu with hu | rfl
    · exact h.least u hu v hv hnv'
    · exact hn.least v hv hnv'

/-- The list of callbacks run, where the timer taken out has entries `c`. -/
theorem called_append (h : Flushed env p nowMs s) {t : Nat} {c : List (Nat × Nat)}
    (hc : c.map Prod.fst = [t].filter (runsCb env p)) :
    (s.called ++ c).map Prod.fst = (s.popped ++ [t]).filter (runsCb env p) := by
  rw [List.map_append, List.filter_append, h.called, hc]

/-- What the callbacks run have returned, where the one of the timer taken out returned
what `c` says. -/
theorem returned_append (h : Flushed env p nowMs s) {t : Nat} {c : List (Nat × Nat)}
    (hc : ∀ x ∈ c, x = (t, env.cb s.popped.length t)) {u nextMs : Nat}
    (hm : (u, nextMs) ∈ s.called ++ c) :
    ∃ k, (s.popped ++ [t])[k]? = some u ∧ nextMs = env.cb k u := by
  rcases List.mem_append.mp hm with hm | hm
  · obtain ⟨k, hk, hret⟩ := h.returned u nextMs hm
    have hlt := (List.getElem?_eq_some_iff.mp hk).1
    exact ⟨k, by rw [List.getElem?_append_left hlt]; exact hk, hret⟩
  · cases hc _ hm
    exact ⟨s.popped.length, List.getElem?_concat_length, rfl⟩

/-- The timer taken out is freed, after no callback or one that returned 0. -/
theorem drop (h : Flushed env p nowMs s) {t : Nat} (hn : Next p nowMs s t) {q : TimerHeap}
    (hq : HeapInv q) (hr : Removed s.heap q t) {c : List (Nat × Nat)}
    (hc : c.map Prod.fst = [t].filter (runsCb env p))
    (hret : ∀ x ∈ c, x = (t, env.cb s.popped.length t)) (hzero : ∀ x ∈ c, x.2 = 0) :
    Flushed env p nowMs ⟨q, s.popped ++ [t], s.called ++ c, s.freed ++ [t]⟩ := by
  obtain ⟨hnodup, hexp, hsorted, hleast⟩ := h.popped_append hn
  have hrearmed : ∀ u, FlushLog.Rearmed ⟨q, s.popped ++ [t], s.called ++ c, s.freed ++ [t]⟩ u ↔
      s.Rearmed u := by
    intro u
    refine (rearmed_append (s := s) rfl u).trans (or_iff_left ?_)
    rintro ⟨nextMs, hpos, hm⟩
    have hz : nextMs = 0 := hzero _ hm
    omega
  have ht : ¬ s.Rearmed t := fun ⟨_, _, hm⟩ => hn.unpopped (h.popped_of_called hm)
  refine ⟨hq, hnodup, hexp, hsorted, hleast, h.called_append hc,
    fun u nextMs hm => h.returned_append hret hm,
    fun u => (hr.cancelled u).trans (h.cancelled u), fun u => ?_, fun u hu => ?_,
    fun u nextMs hm hpos => ?_, ?_, fun u => ?_⟩
  · rw [hr.mem, h.mem, hrearmed, List.mem_append, List.mem_singleton, not_or, or_and_right,
      and_assoc]
    refine or_congr_right (and_iff_left_of_imp fun hu => ?_)
    rintro rfl
    exact ht hu
  · exact (hr.deadline u).trans (h.deadline u fun hm => hu ((hrearmed u).mpr hm))
  · refine (hr.deadline u).trans ?_
    rcases List.mem_append.mp hm with hm | hm
    · exact h.rearmed u nextMs hm hpos
    · have hz : nextMs = 0 := hzero _ hm
      omega
  · rw [List.nodup_append']
    refine ⟨h.freed_nodup, List.nodup_singleton t, fun u hu hut => ?_⟩
    rw [List.mem_singleton.mp hut] at hu
    exact hn.unpopped ((h.freed t).mp hu).1
  · rw [hrearmed, List.mem_append, List.mem_append, h.freed, List.mem_singleton, or_and_right]
    refine or_congr_right (and_iff_left_of_imp ?_).symm
    rintro rfl
    exact ht

/-- The timer taken out goes back to a later place, for which there is room. -/
theorem rearm (h : Flushed env p nowMs s) {t nextMs : Nat} (hn : Next p nowMs s t) {q : TimerHeap}
    (hq : HeapInv q) (hr : Removed s.heap q t) (hroom : q.count < q.cap) (realloc : Bool)
    (hruns : runsCb env p t = true) (hret : nextMs = env.cb s.popped.length t) (hpos : 0 < nextMs)
    (hlt : nowMs + nextMs < 2 ^ 64) :
    Flushed env p nowMs
      ⟨pollerTimerInsertLocked realloc q t ((nowMs + nextMs) % 2 ^ 64), s.popped ++ [t],
        s.called ++ [(t, nextMs)], s.freed⟩ := by
  rw [Nat.mod_eq_of_lt hlt]
  obtain ⟨hnodup, hexp, hsorted, hleast⟩ := h.popped_append hn
  have hins := insertLocked_inserted realloc (d := nowMs + nextMs) hq.indexed (hq.placed t)
  have hin : (pollerTimerInsertLocked realloc q t (nowMs + nextMs)).Mem t :=
    insertLocked_mem (nowMs + nextMs) hq.indexed (hq.placed t) (.inr hroom)
  have ht : ∀ n, (t, n) ∉ s.called := fun n hm => hn.unpopped (h.popped_of_called hm)
  have hcalled : ∀ u n, (u, n) ∈ s.called ++ [(t, nextMs)] ↔
      (u, n) ∈ s.called ∨ u = t ∧ n = nextMs := by
    intro u n
    rw [List.mem_append, List.mem_singleton, Prod.mk.injEq]
  have hrearmed : ∀ u, FlushLog.Rearmed
      ⟨pollerTimerInsertLocked realloc q t (nowMs + nextMs), s.popped ++ [t],
        s.called ++ [(t, nextMs)], s.freed⟩ u ↔ s.Rearmed u ∨ u = t := by
    intro u
    refine (rearmed_append (s := s) rfl u).trans (or_congr_right ?_)
    constructor
    · rintro ⟨n, -, hm⟩
      exact (Prod.mk.inj (List.mem_singleton.mp hm)).1
    · rintro rfl
      exact ⟨nextMs, hpos, List.mem_cons_self⟩
  have htr : ¬ s.Rearmed t := fun ⟨n, _, hm⟩ => ht n hm
  have hdl : ∀ u, (pollerTimerInsertLocked realloc q t (nowMs + nextMs)).deadline u =
      if u = t then nowMs + nextMs else s.heap.deadline u := by
    intro u
    refine (hins.deadline u).trans ?_
    split
    · rfl
    · exact hr.deadline u
  refine ⟨hq.insertLocked realloc t _, hnodup, hexp, hsorted, hleast, h.called_append ?_,
    fun u n hm => h.returned_append (fun x hx => by rw [List.mem_singleton.mp hx, hret]) hm,
    fun u => ((hins.cancelled u).trans (hr.cancelled u)).trans (h.cancelled u), fun u => ?_,
    fun u hu => ?_, fun u n hm hn0 => ?_, h.freed_nodup, fun u => ?_⟩
  · rw [List.filter_cons_of_pos hruns]
    rfl
  · rw [hrearmed]
    by_cases hut : u = t
    · rw [hut]
      exact iff_of_true hin (.inr (.inr rfl))
    · rw [hins.mem u hut, hr.mem, h.mem, List.mem_append, List.mem_singleton, not_or,
        or_iff_left hut, and_iff_left hut, and_iff_left hut]
  · rw [hrearmed, not_or] at hu
    rw [hdl, if_neg hu.2]
    exact h.deadline u hu.1
  · rw [hdl]
    rcases (hcalled u n).mp hm with hold | ⟨rfl, rfl⟩
    · rw [if_neg (by rintro rfl; exact ht n hold)]
      exact h.rearmed u n hold hn0
    · rw [if_pos rfl]
  · rw [hrearmed, h.freed, List.mem_append, List.mem_singleton, not_or]
    constructor
    · rintro ⟨hu, hnr⟩
      refine ⟨.inl hu, hnr, ?_⟩
      rintro rfl
      exact hn.unpopped hu
    · rintro ⟨hu, hnr, hne⟩
      exact ⟨hu.resolve_right hne, hnr⟩

/-- One iteration takes out the timer at the root. -/
theorem iterate (h : Flushed env p nowMs s) (hcount : 0 < s.heap.count)
    (hdue : s.heap.deadlineAt 0 ≤ nowMs) (hcb : ∀ k t, nowMs + env.cb k t < 2 ^ 64) :
    Flushed env p nowMs (s.iterate env nowMs) ∧
      (s.iterate env nowMs).popped = s.popped ++ [s.heap.heap 0] := by
  have hn := h.next hcount hdue
  have hr := timerHeapPopMin_removed h.inv.indexed hcount
  have hq := h.inv.popMin
  have htop : (timerHeapPopMin s.heap).1 = some (s.heap.heap 0) := by
    rw [timerHeapPopMin_eq hcount]
  rw [FlushLog.iterate]
  generalize timerHeapPopMin s.heap = r at hr hq htop
  generalize s.heap.heap 0 = t at hn hr htop
  obtain ⟨top, q⟩ := r
  cases htop
  dsimp only at hr hq ⊢
  have hcan : (q.timer t).cancelled = (p.timer t).cancelled :=
    (hr.cancelled t).trans (h.cancelled t)
  rw [hcan]
  cases hc : (p.timer t).cancelled with
  | true =>
      have hruns : runsCb env p t = false := by rw [runsCb, hc]; rfl
      have hdrop := h.drop hn hq hr (c := [])
        (by rw [List.filter_cons_of_neg (by rw [hruns]; decide)]; rfl) (fun x hx => by cases hx)
        (fun x hx => by cases hx)
      rw [List.append_nil] at hdrop
      exact ⟨hdrop, rfl⟩
  | false =>
      have hruns : runsCb env p t = env.hasCb t := by rw [runsCb, hc]; rfl
      cases hhas : env.hasCb t with
      | false =>
          have hdrop := h.drop hn hq hr (c := [])
            (by rw [List.filter_cons_of_neg (by rw [hruns, hhas]; decide)]; rfl)
            (fun x hx => by cases hx) (fun x hx => by cases hx)
          rw [List.append_nil] at hdrop
          exact ⟨hdrop, rfl⟩
      | true =>
          by_cases hpos : 0 < env.cb s.popped.length t
          · have hroom : q.count < q.cap := by
              have hroom := h.inv.room
              rw [hr.count, hr.cap]
              omega
            have hre := h.rearm hn hq hr hroom (env.realloc s.popped.length)
              (hruns.trans hhas) rfl hpos (hcb _ t)
            simp only [if_true, hpos, decide_true, Bool.not_false, Bool.and_self,
              Bool.false_eq_true, if_false]
            exact ⟨hre, trivial⟩
          · have hzero : env.cb s.popped.length t = 0 := by omega
            have hdrop := h.drop hn hq hr (c := [(t, env.cb s.popped.length t)])
              (by rw [List.filter_cons_of_pos (hruns.trans hhas)]; rfl)
              (fun x hx => List.mem_singleton.mp hx)
              (fun x hx => by rw [List.mem_singleton.mp hx]; exact hzero)
            simp only [if_true, hpos, decide_false, Bool.false_and, Bool.false_eq_true, if_false]
            exact ⟨hdrop, trivial⟩

/-- Where the loop stops no timer is due. -/
theorem late (h : Flushed env p nowMs s)
    (hstop : ¬ (0 < s.heap.count ∧ s.heap.deadlineAt 0 ≤ nowMs)) {t : Nat} (hm : s.heap.Mem t) :
    nowMs < s.heap.deadline t := by
  have hroot := root_le h.inv hm
  obtain ⟨i, hi, -⟩ := hm
  have hlate : ¬ s.heap.deadlineAt 0 ≤ nowMs := fun hdue =>
    hstop ⟨Nat.zero_lt_of_lt hi, hdue⟩
  omega

/-- The loop runs out of iterations, or of due timers. -/
theorem loop (hcb : ∀ k t, nowMs + env.cb k t < 2 ^ 64) : ∀ (n : Nat) {s : FlushLog},
    Flushed env p nowMs s →
      Flushed env p nowMs (flushLoop env nowMs n s) ∧
      (flushLoop env nowMs n s).popped.length ≤ s.popped.length + n ∧
      ((flushLoop env nowMs n s).popped.length = s.popped.length + n ∨
        ∀ t, (flushLoop env nowMs n s).heap.Mem t →
          nowMs < (flushLoop env nowMs n s).heap.deadline t)
  | 0, s, h => ⟨h, Nat.le_refl _, .inl rfl⟩
  | n + 1, s, h => by
      rw [flushLoop]
      by_cases hgo : 0 < s.heap.count ∧ s.heap.deadlineAt 0 ≤ nowMs
      · rw [if_pos hgo]
        obtain ⟨hnext, hpopped⟩ := h.iterate hgo.1 hgo.2 hcb
        obtain ⟨hend, hle, hor⟩ := loop hcb n hnext
        rw [hpopped, List.length_append, List.length_singleton] at hle hor
        exact ⟨hend, by omega, hor.imp_left fun heq => by omega⟩
      · rw [if_neg hgo]
        exact ⟨h, Nat.le_add_right _ _, .inr fun t hm => h.late hgo hm⟩

end Flushed

/-- The timers of a heap that are due. -/
def TimerHeap.expired (p : TimerHeap) (nowMs : Nat) : List Nat :=
  p.members.filter fun t => p.deadline t ≤ nowMs

theorem mem_expired {p : TimerHeap} {nowMs t : Nat} :
    t ∈ p.expired nowMs ↔ p.Mem t ∧ p.deadline t ≤ nowMs := by
  rw [TimerHeap.expired, List.mem_filter, mem_members, decide_eq_true_eq]

namespace Flushed

variable {env : FlushEnv} {p : TimerHeap} {nowMs : Nat} {s : FlushLog}

/-- Timers of the heap that are due are taken out, and no others. -/
theorem popped_subset (h : Flushed env p nowMs s) : s.popped ⊆ p.expired nowMs :=
  fun t ht => mem_expired.mpr (h.expired t ht)

/-- Where no timer is due, all that were due have been taken out. -/
theorem expired_subset (h : Flushed env p nowMs s)
    (hlate : ∀ t, s.heap.Mem t → nowMs < s.heap.deadline t) : p.expired nowMs ⊆ s.popped := by
  intro t ht
  obtain ⟨hm, hdue⟩ := mem_expired.mp ht
  by_contra hn
  have hlater := hlate t ((h.mem t).mpr (.inl ⟨hm, hn⟩))
  rw [h.deadline_of_unpopped hn] at hlater
  omega

theorem length_popped (hp : HeapInv p) (h : Flushed env p nowMs s) {n : Nat}
    (hle : s.popped.length ≤ n)
    (hor : s.popped.length = n ∨ ∀ t, s.heap.Mem t → nowMs < s.heap.deadline t) :
    s.popped.length = min n (p.expired nowMs).length := by
  have hsub := (h.nodup.subperm h.popped_subset).length_le
  rcases hor with heq | hlate
  · omega
  · have hnodup : (p.expired nowMs).Nodup := (members_nodup hp.indexed).filter _
    have hback := (hnodup.subperm (h.expired_subset hlate)).length_le
    omega

end Flushed

/-! ## The result -/

theorem toInt64_of_lt {n : Nat} (h : n < 2 ^ 63) : toInt64 n = n := by
  have hmod : n % 2 ^ 64 = n := Nat.mod_eq_of_lt (by omega)
  rw [toInt64, hmod, if_pos h]

/-- The result tells an empty heap, a due timer, and the time to the first one. -/
theorem flushResult_cases {p : TimerHeap} {nowMs : Nat} (h : HeapInv p)
    (hdl : ∀ t, p.Mem t → p.deadline t < nowMs + 2 ^ 63) :
    ((∀ t, ¬ p.Mem t) ∧ flushResult p nowMs = -1) ∨
    ((∃ t, p.Mem t ∧ p.deadline t ≤ nowMs) ∧ flushResult p nowMs = 0) ∨
    ∃ t, p.Mem t ∧ nowMs < p.deadline t ∧ (∀ u, p.Mem u → p.deadline t ≤ p.deadline u) ∧
      flushResult p nowMs = p.deadline t - nowMs := by
  rw [flushResult]
  by_cases hcount : p.count = 0
  · rw [if_pos hcount]
    refine .inl ⟨?_, rfl⟩
    rintro t ⟨i, hi, -⟩
    omega
  · have hroot : p.Mem (p.heap 0) := ⟨0, Nat.pos_of_ne_zero hcount, rfl⟩
    have hzero : p.deadlineAt 0 = p.deadline (p.heap 0) := rfl
    rw [if_neg hcount, hzero]
    by_cases hlate : nowMs < p.deadline (p.heap 0)
    · have hlt := hdl _ hroot
      rw [if_pos hlate, toInt64_of_lt (by omega)]
      refine .inr (.inr ⟨p.heap 0, hroot, hlate, fun u hu => Flushed.root_le h hu, ?_⟩)
      omega
    · rw [if_neg hlate]
      exact .inr (.inl ⟨⟨p.heap 0, hroot, Nat.le_of_not_lt hlate⟩, rfl⟩)

/-- What the result of a flush says about the heap that is left. -/
theorem flushResult_spec {p : TimerHeap} {nowMs : Nat} (h : HeapInv p)
    (hdl : ∀ t, p.Mem t → p.deadline t < nowMs + 2 ^ 63) :
    (flushResult p nowMs = -1 ↔ ∀ t, ¬ p.Mem t) ∧
    (flushResult p nowMs = 0 ↔ ∃ t, p.Mem t ∧ p.deadline t ≤ nowMs) ∧
    (flushResult p nowMs ≠ -1 → flushResult p nowMs ≠ 0 → ∃ t, p.Mem t ∧
      (∀ u, p.Mem u → p.deadline t ≤ p.deadline u) ∧
      flushResult p nowMs = p.deadline t - nowMs) := by
  rcases flushResult_cases h hdl with ⟨hempty, hret⟩ | ⟨hdue, hret⟩ | ⟨t, hm, hgt, hfirst, hret⟩
  · rw [hret]
    refine ⟨iff_of_true rfl hempty, iff_of_false (by decide) ?_, fun hne => absurd rfl hne⟩
    rintro ⟨t, hm, -⟩
    exact hempty t hm
  · rw [hret]
    obtain ⟨t, hm, ht⟩ := hdue
    exact ⟨iff_of_false (by decide) fun hempty => hempty t hm, iff_of_true rfl ⟨t, hm, ht⟩,
      fun _ hne => absurd rfl hne⟩
  · rw [hret]
    refine ⟨iff_of_false (by omega) fun hempty => hempty t hm, iff_of_false (by omega) ?_,
      fun _ _ => ⟨t, hm, hfirst, rfl⟩⟩
    rintro ⟨u, hu, hdue⟩
    have hle := hfirst u hu
    omega

/-- Every deadline stays within half the range of the clock. -/
theorem Flushed.deadline_lt {env : FlushEnv} {p : TimerHeap} {nowMs : Nat} {s : FlushLog}
    (h : Flushed env p nowMs s) (hdl : ∀ t, p.Mem t → p.deadline t < nowMs + 2 ^ 63)
    (hcb : ∀ k t, nowMs + env.cb k t < nowMs + 2 ^ 63) {t : Nat} (hm : s.heap.Mem t) :
    s.heap.deadline t < nowMs + 2 ^ 63 := by
  by_cases hr : s.Rearmed t
  · obtain ⟨nextMs, hpos, hc⟩ := hr
    obtain ⟨k, -, rfl⟩ := h.returned t nextMs hc
    rw [h.rearmed t _ hc hpos]
    exact hcb k t
  · rw [h.deadline t hr]
    exact hdl t (((h.mem t).mp hm).resolve_right hr).1

/-- A call of `flush_expired_timers` on a heap takes out the first timers that are due, up
to 256; it runs the callbacks of those not cancelled, in the order of their deadlines, puts
back those that ask for it and frees the rest; the result tells what remains. -/
theorem flush_expired_timers_spec (env : FlushEnv) (p : TimerHeap) (nowMs : Nat) (h : HeapInv p)
    (hdl : ∀ t, p.Mem t → p.deadline t < nowMs + 2 ^ 63 ∧ p.deadline t < 2 ^ 64)
    (hcb : ∀ k t, nowMs + env.cb k t < nowMs + 2 ^ 63 ∧ nowMs + env.cb k t < 2 ^ 64)
    (ret : Int) (s : FlushLog) (hcall : flushExpiredTimers env p nowMs = (ret, s)) :
    s.popped.Nodup ∧ s.popped.length = min 256 (p.expired nowMs).length ∧
    (∀ t ∈ s.popped, t ∈ p.expired nowMs ∧
      ∀ u, p.Mem u → u ∉ s.popped → p.deadline t ≤ p.deadline u) ∧
    s.popped.Pairwise (fun t u => p.deadline t ≤ p.deadline u) ∧
    s.called.map Prod.fst = s.popped.filter (fun t => !(p.timer t).cancelled && env.hasCb t) ∧
    (∀ t nextMs, (t, nextMs) ∈ s.called → ∃ k, s.popped[k]? = some t ∧ nextMs = env.cb k t) ∧
    (∀ t nextMs, (t, nextMs) ∈ s.called → 0 < nextMs →
      s.heap.Mem t ∧ s.heap.deadline t = nowMs + nextMs) ∧
    s.freed.Nodup ∧ (∀ t, t ∈ s.freed ↔ t ∈ s.popped ∧ ¬ s.Rearmed t) ∧
    HeapInv s.heap ∧ (∀ t, s.heap.Mem t ↔ p.Mem t ∧ t ∉ s.popped ∨ s.Rearmed t) ∧
    (∀ t, t ∉ s.popped → s.heap.deadline t = p.deadline t) ∧
    (ret = -1 ↔ ∀ t, ¬ s.heap.Mem t) ∧
    (ret = 0 ↔ ∃ t, s.heap.Mem t ∧ s.heap.deadline t ≤ nowMs) ∧
    (ret ≠ -1 → ret ≠ 0 → ∃ t, s.heap.Mem t ∧
      (∀ u, s.heap.Mem u → s.heap.deadline t ≤ s.heap.deadline u) ∧
      ret = s.heap.deadline t - nowMs) := by
  obtain ⟨rfl, rfl⟩ := Prod.mk.inj hcall
  obtain ⟨hend, hle, hor⟩ := (Flushed.start h).loop (fun k t => (hcb k t).2) timerFlushMax
  generalize flushLoop env nowMs timerFlushMax ⟨p, [], [], []⟩ = s at hend hle hor ⊢
  rw [List.length_nil, Nat.zero_add] at hle hor
  have hlate : ∀ t, s.heap.Mem t → s.heap.deadline t < nowMs + 2 ^ 63 := fun t hm =>
    hend.deadline_lt (fun t ht => (hdl t ht).1) (fun k t => (hcb k t).1) hm
  exact ⟨hend.nodup, hend.length_popped h hle hor,
    fun t ht => ⟨hend.popped_subset ht, hend.least t ht⟩, hend.sorted, hend.called,
    hend.returned, fun t nextMs hc hpos => ⟨(hend.mem t).mpr (.inr ⟨nextMs, hpos, hc⟩),
      hend.rearmed t nextMs hc hpos⟩, hend.freed_nodup, hend.freed, hend.inv, hend.mem,
    fun t ht => hend.deadline_of_unpopped ht, flushResult_spec hend.inv hlate⟩

/-- A timer due at 10 and one at 30. -/
def twoDeadlines : TimerHeap :=
  pollerTimerInsertLocked true
    (pollerTimerInsertLocked true (TimerHeap.start (fun _ => 0) fun _ => 0) 0 10) 1 30

/-- Callbacks that ask for another turn in 5 ms, where no memory can be had. -/
def againInFive : FlushEnv := ⟨fun _ => true, fun _ _ => 5, fun _ => false⟩

/-- At 20 the first timer is taken out and put back at 25. -/
theorem flush_expired_timers_again :
    ∃ ret s, flushExpiredTimers againInFive twoDeadlines 20 = (ret, s) ∧ ret = 5 ∧
      s.popped.length = min 256 (twoDeadlines.expired 20).length ∧ HeapInv s.heap := by
  have hinv : HeapInv twoDeadlines :=
    ((HeapInv.start (fun _ => 0) fun _ => 0).insertLocked true 0 10).insertLocked true 1 30
  have hdl : ∀ t ∈ twoDeadlines.members,
      twoDeadlines.deadline t < 20 + 2 ^ 63 ∧ twoDeadlines.deadline t < 2 ^ 64 := by
    decide +kernel
  have hspec := flush_expired_timers_spec againInFive twoDeadlines 20 hinv
    (fun t hm => hdl t (mem_members.mpr hm))
    (fun _ _ => show 20 + 5 < 20 + 2 ^ 63 ∧ 20 + 5 < 2 ^ 64 by decide) _ _ rfl
  exact ⟨_, _, rfl, by decide +kernel, hspec.2.1, hspec.2.2.2.2.2.2.2.2.2.1⟩

end Ztk.Poller
