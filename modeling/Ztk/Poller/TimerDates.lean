import Ztk.Poller.TimerSafety

/-!
# When a timer is due

A deadline is a `uint64_t` sum.  The ghost `due` keeps the mathematical sum beside it, and
`Dated` says that a timer lies in the array, or in a queued insertion, at its sum modulo 2^64.

The invariant holds along every run, also after `ztk_poller_timer_fini`, which leaves timers
with the index of a position that is no longer theirs.  `timer_heap_remove` of such a timer
takes another one out, so of a removal it asks only that nothing comes in (`Thinned`).
-/

namespace Ztk.Poller

open Ztk.Lib TimerHeap

/-! ## The array loses timers -/

/-- The timer has no index. -/
def TimerHeap.Loose (p : TimerHeap) (t : Nat) : Prop := (p.timer t).heapIndex = none

theorem TimerHeap.Loose.placed {p : TimerHeap} {t : Nat} (h : p.Loose t) : p.Placed t := by
  intro i hi
  rw [h] at hi
  cases hi

/-- `q` holds timers of `p` with their deadlines. -/
structure Thinned (p q : TimerHeap) : Prop where
  indexed : q.Indexed
  mem : ∀ t, q.Mem t → p.Mem t
  deadline : ∀ t, (q.timer t).deadlineMs = (p.timer t).deadlineMs
  loose : ∀ t, p.Loose t → q.Loose t

theorem Thinned.refl {p : TimerHeap} (h : p.Indexed) : Thinned p p :=
  ⟨h, fun _ => id, fun _ => rfl, fun _ => id⟩

theorem Thinned.sifted {p q r : TimerHeap} (h : Thinned p q) (hs : Sifted q r) : Thinned p r where
  indexed := hs.indexed h.indexed
  mem := fun t ht => h.mem t ((hs.mem t).mp ht)
  deadline := fun t => (hs.deadline t).trans (h.deadline t)
  loose := by
    intro t ht
    have hq := h.loose t ht
    refine (hs.placed h.indexed t hq.placed).index_none fun hm => ?_
    exact h.indexed.not_mem hq ((hs.mem t).mp hm)

theorem Removed.thinned {p q : TimerHeap} {t : Nat} (h : p.Indexed) (hr : Removed p q t) :
    Thinned p q where
  indexed := hr.indexed
  mem := fun u hu => ((hr.mem u).mp hu).1
  deadline := hr.deadline
  loose := by
    intro u hu
    refine (hr.placed u hu.placed).index_none fun hm => ?_
    exact h.not_mem hu ((hr.mem u).mp hm).1

/-- The array after the position a timer names is given up, and before it is sifted. -/
def pull (p : TimerHeap) (t i : Nat) : TimerHeap :=
  if i < p.count - 1 then refill (unplace p t) i else unplace p t

theorem pull_count (p : TimerHeap) (t i : Nat) : (pull p t i).count = p.count - 1 := by
  rw [pull]
  split <;> rfl

theorem pull_heap_of_ne (p : TimerHeap) (t : Nat) {i k : Nat} (h : k ≠ i) :
    (pull p t i).heap k = p.heap k := by
  rw [pull]
  split
  · simp [refill, unplace, h]
  · rfl

theorem pull_heap_self {p : TimerHeap} (t : Nat) {i : Nat} (h : i < p.count - 1) :
    (pull p t i).heap i = p.heap (p.count - 1) := by
  rw [pull, if_pos h]
  simp [refill, unplace]

theorem pull_deadline (p : TimerHeap) (t i u : Nat) :
    ((pull p t i).timer u).deadlineMs = (p.timer u).deadlineMs := by
  rw [pull]
  split
  · rw [refill, setIndex_deadline]
    exact setIndex_deadline p t u none
  · exact setIndex_deadline p t u none

/-- The index a timer has when a position is given up. -/
theorem pull_index (p : TimerHeap) (t i u : Nat) :
    ((pull p t i).timer u).heapIndex =
      if i < p.count - 1 ∧ u = p.heap (p.count - 1) then some i
      else if u = t then none else (p.timer u).heapIndex := by
  have hun : ((unplace p t).timer u).heapIndex = if u = t then none else (p.timer u).heapIndex := by
    by_cases hut : u = t
    · rw [hut, if_pos rfl]
      exact setIndex_index_self p t none
    · rw [if_neg hut]
      exact setIndex_index_of_ne p none hut
  by_cases hlt : i < p.count - 1
  · rw [pull, if_pos hlt, refill]
    by_cases hu : u = p.heap (p.count - 1)
    · rw [if_pos ⟨hlt, hu⟩, hu]
      exact setIndex_index_self _ _ _
    · rw [if_neg fun hx => hu hx.2, ← hun]
      exact setIndex_index_of_ne _ _ hu
  · rw [pull, if_neg hlt, if_neg fun hx => hlt hx.1]
    exact hun

/-- Whoever is at the position, the rest of the array agrees with its indices. -/
theorem pull_thinned {p : TimerHeap} (h : p.Indexed) {t i : Nat} (hi : i < p.count)
    (ht : (p.timer t).heapIndex = some i) : Thinned p (pull p t i) where
  indexed := by
    intro k hk
    rw [pull_count] at hk
    by_cases hki : k = i
    · subst hki
      rw [pull_heap_self t hk, pull_index, if_pos ⟨hk, rfl⟩]
    · have hidx := h k (by omega)
      rw [pull_heap_of_ne p t hki, pull_index, if_neg, if_neg, hidx]
      · rintro rfl
        rw [ht, Option.some.injEq] at hidx
        exact hki hidx.symm
      · rintro ⟨-, he⟩
        have := h.inj (by omega) (by omega) he
        omega
  mem := by
    rintro u ⟨k, hk, rfl⟩
    rw [pull_count] at hk
    by_cases hki : k = i
    · subst hki
      rw [pull_heap_self t hk]
      exact ⟨p.count - 1, by omega, rfl⟩
    · rw [pull_heap_of_ne p t hki]
      exact ⟨k, by omega, rfl⟩
  deadline := pull_deadline p t i
  loose := by
    intro u hu
    rw [Loose, pull_index, if_neg]
    · split
      · rfl
      · exact hu
    · rintro ⟨hlt, rfl⟩
      exact h.not_mem hu ⟨p.count - 1, by omega, rfl⟩

/-- `timer_heap_remove` puts nothing in, whatever index its timer has. -/
theorem timerHeapRemove_thinned {p : TimerHeap} (h : p.Indexed) (t : Nat) :
    Thinned p (timerHeapRemove p t) := by
  rw [timerHeapRemove]
  cases hidx : (p.timer t).heapIndex with
  | none => exact .refl h
  | some i =>
      simp only
      split
      · exact .refl h
      · next hi =>
          have hpull := pull_thinned h (Nat.lt_of_not_le hi) hidx
          split
          · next hlt =>
              have hcount := pull_count p t i
              rw [pull, if_pos (by exact hlt)] at hpull hcount
              have hd := timerHeapBubbleDown_sifted (refill (unplace p t) i) i
                (by rw [hcount]; exact hlt)
              have hu := timerHeapBubbleUp_sifted (timerHeapBubbleDown (refill (unplace p t) i) i) i
                (by rw [hd.count, hcount]; exact hlt)
              exact hpull.sifted (hd.trans hu)
          · next hlt =>
              rw [pull, if_neg (by exact hlt)] at hpull
              exact hpull

/-- `timer_heap_pop_min` takes the first timer out, which then has no index. -/
theorem timerHeapPopMin_thinned {p : TimerHeap} (h : p.Indexed) (h0 : 0 < p.count) :
    Thinned p (timerHeapPopMin p).2 ∧ (timerHeapPopMin p).2.Loose (p.heap 0) := by
  have hr := timerHeapPopMin_removed h h0
  exact ⟨hr.thinned h, hr.index⟩

/-! ## The dates -/

/-- Timers lie in the array and in queued insertions at their dates modulo 2^64; those of
queued insertions and of the callback that runs have no index. -/
structure Dated (due : Nat → Nat) (p : TimerHeap) (next : Nat) (firing : Option Nat)
    (tasks : List TimerTask) : Prop where
  indexed : p.Indexed
  member : ∀ t, p.Mem t → t < next ∧ (p.timer t).deadlineMs = due t % 2 ^ 64
  queued : ∀ t d, .delayInsert t d ∈ tasks →
    t < next ∧ p.Loose t ∧ firing ≠ some t ∧ d = due t % 2 ^ 64
  once : (tasks.filterMap TimerTask.insertion).Nodup
  fired : ∀ t, firing = some t → t < next ∧ p.Loose t

namespace Dated

variable {due : Nat → Nat} {p : TimerHeap} {next t : Nat} {firing : Option Nat}
  {tasks : List TimerTask}

/-- Timers leave the array. -/
theorem thin {q : TimerHeap} (h : Dated due p next firing tasks) (hq : Thinned p q) :
    Dated due q next firing tasks where
  indexed := hq.indexed
  member := fun t ht => by
    rw [hq.deadline t]
    exact h.member t (hq.mem t ht)
  queued := fun t d ht => by
    obtain ⟨hlt, hloose, hrest⟩ := h.queued t d ht
    exact ⟨hlt, hq.loose t hloose, hrest⟩
  once := h.once
  fired := fun t ht => ⟨(h.fired t ht).1, hq.loose t (h.fired t ht).2⟩

/-- A timer that is nowhere gets another date. -/
theorem redate (h : Dated due p next firing tasks) (ht : ¬ p.Mem t)
    (hi : ∀ d, .delayInsert t d ∉ tasks) (x : Nat) :
    Dated (Function.update due t x) p next firing tasks where
  indexed := h.indexed
  member := fun u hu => by
    have hut : u ≠ t := fun he => ht (he ▸ hu)
    rw [Function.update_of_ne hut]
    exact h.member u hu
  queued := fun u d hu => by
    have hut : u ≠ t := fun he => hi d (he ▸ hu)
    rw [Function.update_of_ne hut]
    exact h.queued u d hu
  once := h.once
  fired := h.fired

/-- Nobody has the next timer yet. -/
theorem next_nowhere (h : Dated due p next firing tasks) :
    ¬ p.Mem next ∧ (∀ d, .delayInsert next d ∉ tasks) ∧ firing ≠ some next :=
  ⟨fun hm => Nat.lt_irrefl _ (h.member next hm).1,
    fun d hd => Nat.lt_irrefl _ (h.queued next d hd).1,
    fun hf => Nat.lt_irrefl _ (h.fired next hf).1⟩

theorem calloc_loose (p : TimerHeap) (t u : Nat) (h : p.Loose u ∨ u = t) :
    (p.calloc t).Loose u := by
  by_cases hut : u = t
  · simp [Loose, TimerHeap.calloc, hut]
  · rw [Loose, calloc_timer p hut]
    exact h.resolve_right hut

/-- A new timer gets the next name. -/
theorem calloc (h : Dated due p next firing tasks) :
    Dated due (p.calloc next) (next + 1) firing tasks where
  indexed := calloc_indexed h.indexed h.next_nowhere.1
  member := fun t ht => by
    obtain ⟨hlt, hd⟩ := h.member t ht
    rw [calloc_timer p (Nat.ne_of_lt hlt)]
    exact ⟨Nat.lt_succ_of_lt hlt, hd⟩
  queued := fun t d ht => by
    obtain ⟨hlt, hloose, hrest⟩ := h.queued t d ht
    exact ⟨Nat.lt_succ_of_lt hlt, calloc_loose p next t (.inl hloose), hrest⟩
  once := h.once
  fired := fun t ht => by
    obtain ⟨hlt, hloose⟩ := h.fired t ht
    exact ⟨Nat.lt_succ_of_lt hlt, calloc_loose p next t (.inl hloose)⟩

/-- The store to `cancelled`. -/
theorem setCancelled (h : Dated due p next firing tasks) (t : Nat) :
    Dated due (p.setCancelled t) next firing tasks := by
  refine h.thin ⟨setCancelled_indexed h.indexed t, fun _ => id, fun u => ?_, fun u hu => ?_⟩
  · by_cases hut : u = t
    · simp [TimerHeap.setCancelled, hut]
    · simp [TimerHeap.setCancelled, hut]
  · exact (setCancelled_index p t u).trans hu

/-- A timer goes into the array at its date, if the array can grow. -/
theorem insert (h : Dated due p next firing tasks) (realloc : Bool) (ht : t < next)
    (hloose : p.Loose t) (hi : ∀ d, .delayInsert t d ∉ tasks) (hf : firing ≠ some t) :
    Dated due (pollerTimerInsertLocked realloc p t (due t % 2 ^ 64)) next firing tasks := by
  have hins := insertLocked_inserted realloc (d := due t % 2 ^ 64) h.indexed hloose.placed
  have hstay : ∀ u, u ≠ t → p.Loose u →
      (pollerTimerInsertLocked realloc p t (due t % 2 ^ 64)).Loose u := by
    intro u hut hu
    refine (hins.placed u hu.placed).index_none fun hm => ?_
    exact h.indexed.not_mem hu ((hins.mem u hut).mp hm)
  refine ⟨hins.indexed, fun u hu => ?_, fun u d hu => ?_, h.once, fun u hu => ?_⟩
  · rw [hins.deadline u]
    by_cases hut : u = t
    · rw [if_pos hut, hut]
      exact ⟨ht, rfl⟩
    · rw [if_neg hut]
      exact h.member u ((hins.mem u hut).mp hu)
  · obtain ⟨hlt, hul, hrest⟩ := h.queued u d hu
    refine ⟨hlt, hstay u ?_ hul, hrest⟩
    rintro rfl
    exact hi d hu
  · obtain ⟨hlt, hul⟩ := h.fired u hu
    refine ⟨hlt, hstay u ?_ hul⟩
    rintro rfl
    exact hf hu

/-- Other pending tasks in another order. -/
theorem perm {tasks' : List TimerTask} (h : Dated due p next firing tasks)
    (hp : tasks'.Perm tasks) : Dated due p next firing tasks' where
  indexed := h.indexed
  member := h.member
  queued := fun t d ht => h.queued t d (hp.mem_iff.mp ht)
  once := (hp.filterMap TimerTask.insertion).nodup_iff.mpr h.once
  fired := h.fired

/-- Fewer pending tasks. -/
theorem sublist {tasks' : List TimerTask} (h : Dated due p next firing tasks)
    (hs : tasks'.Sublist tasks) : Dated due p next firing tasks' where
  indexed := h.indexed
  member := h.member
  queued := fun t d ht => h.queued t d (hs.subset ht)
  once := h.once.sublist (hs.filterMap TimerTask.insertion)
  fired := h.fired

/-- An insertion is queued. -/
theorem queue (h : Dated due p next firing tasks) (ht : t < next) (hloose : p.Loose t)
    (hi : ∀ d, .delayInsert t d ∉ tasks) (hf : firing ≠ some t) :
    Dated due p next firing (.delayInsert t (due t % 2 ^ 64) :: tasks) where
  indexed := h.indexed
  member := h.member
  queued := fun u d hu => by
    rcases List.mem_cons.mp hu with he | hu
    · cases he
      exact ⟨ht, hloose, hf, rfl⟩
    · exact h.queued u d hu
  once := by
    refine List.nodup_cons.mpr ⟨fun hm => ?_, h.once⟩
    obtain ⟨d, hd⟩ := mem_insertions.mp hm
    exact hi d hd
  fired := h.fired

/-- A cancel is queued. -/
theorem queueCancel (h : Dated due p next firing tasks) (t : Nat) :
    Dated due p next firing (.timerCancel t :: tasks) where
  indexed := h.indexed
  member := h.member
  queued := fun u d hu => by
    rcases List.mem_cons.mp hu with he | hu
    · cases he
    · exact h.queued u d hu
  once := h.once
  fired := h.fired

/-- An insertion leaves the queue. -/
theorem unqueue {d : Nat} (h : Dated due p next firing (.delayInsert t d :: tasks)) :
    Dated due p next firing tasks ∧ t < next ∧ p.Loose t ∧ firing ≠ some t ∧
      d = due t % 2 ^ 64 ∧ ∀ d', .delayInsert t d' ∉ tasks := by
  obtain ⟨hlt, hloose, hf, hd⟩ := h.queued t d List.mem_cons_self
  refine ⟨h.sublist (List.sublist_cons_self _ _), hlt, hloose, hf, hd, fun d' hm => ?_⟩
  exact (List.nodup_cons.mp h.once).1 (mem_insertions.mpr ⟨d', hm⟩)

/-- A callback starts. -/
theorem startFiring (h : Dated due p next none tasks) (ht : t < next) (hloose : p.Loose t)
    (hi : ∀ d, .delayInsert t d ∉ tasks) : Dated due p next (some t) tasks where
  indexed := h.indexed
  member := h.member
  queued := fun u d hu => by
    obtain ⟨hlt, hul, -, hd⟩ := h.queued u d hu
    refine ⟨hlt, hul, fun he => ?_, hd⟩
    cases he
    exact hi d hu
  once := h.once
  fired := fun u hu => by
    cases hu
    exact ⟨ht, hloose⟩

/-- The callback has returned. -/
theorem stopFiring (h : Dated due p next (some t) tasks) :
    Dated due p next none tasks ∧ t < next ∧ p.Loose t ∧ ∀ d, .delayInsert t d ∉ tasks := by
  obtain ⟨hlt, hloose⟩ := h.fired t rfl
  refine ⟨⟨h.indexed, h.member, fun u d hu => ?_, h.once, fun u hu => by cases hu⟩, hlt, hloose,
    fun d hd => (h.queued t d hd).2.2.1 rfl⟩
  obtain ⟨hlt, hul, -, hd⟩ := h.queued u d hu
  exact ⟨hlt, hul, (fun he => by cases he), hd⟩

end Dated

/-! ## Along a run -/

/-- The dates after a step: a call sets that of its timer, and a callback that asks for
another turn that of the timer it was called for. -/
def dueAfter (s : TimerState) (due : Nat → Nat) : TimerAct → Nat → Nat
  | .doDelay env _ delayMs => Function.update due s.next (env.nowMs + delayMs)
  | .cbReturn _ nextMs =>
      match s.firing with
      | none => due
      | some (t, now) => if 0 < nextMs then Function.update due t (now + nextMs) else due
  | .bind _ | .cancel _ _ | .cancelPost _ _ _ | .drain | .next _ | .flush _ | .timerFini => due

/-- The timers of a poller are on their dates. -/
structure Dates (due : Nat → Nat) (s : TimerState) : Prop where
  dated : Dated due s.heap s.next s.firingTimer s.pendingTasks
  linked : s.tasks.Linked

theorem Dates.start (due : Nat → Nat) (tasks : TaskPoller TimerTask) (timerMtx : Bool) :
    Dates due (.start tasks timerMtx) where
  dated :=
    { indexed := fun _ hi => absurd hi (Nat.not_lt_zero _)
      member := by
        rintro t ⟨i, hi, -⟩
        exact absurd hi (Nat.not_lt_zero i)
      queued := fun _ _ hm => by cases hm
      once := List.nodup_nil
      fired := fun _ hf => by cases hf }
  linked := TaskPoller.linked_empty rfl

namespace Dates

variable {due : Nat → Nat} {s u : TimerState}

/-- A call of `ztk_poller_do_delay`, where the sum is `x`. -/
theorem delayed (h : Dates due s) {env : DelayEnv} {cb : Bool} {x : Nat} {r : Option Nat}
    (hd : Delayed s env cb (x % 2 ^ 64) r u) : Dates (Function.update due s.next x) u := by
  obtain ⟨hm, hi, hf⟩ := h.dated.next_nowhere
  have hx : Function.update due s.next x s.next % 2 ^ 64 = x % 2 ^ 64 := by
    rw [Function.update_self]
  have hold := h.dated.redate hm hi x
  have hnew := hold.calloc
  have hloose : (s.heap.calloc s.next).Loose s.next := Dated.calloc_loose _ _ _ (.inr rfl)
  have hqueue := hnew.queue (Nat.lt_succ_self _) hloose hi hf
  rw [hx] at hqueue
  have hpush := pending_push (s := s) h.linked true (.delayInsert s.next (x % 2 ^ 64))
  cases hd with
  | refused _ => exact ⟨hold, h.linked⟩
  | owner _ _ =>
      have hins := hnew.insert env.realloc (Nat.lt_succ_self _) hloose hi hf
      rw [hx] at hins
      exact ⟨hins, h.linked⟩
  | noctx _ _ _ => exact ⟨hnew, h.linked⟩
  | nomem _ _ _ => exact ⟨hnew, h.linked.counted⟩
  | queued _ _ _ => exact ⟨hqueue.perm hpush, h.linked.push _ _⟩
  | unwoken _ _ _ => exact ⟨hqueue.perm hpush, h.linked.push _ _⟩

theorem doDelay (h : Dates due s) {env : DelayEnv} {cb : Bool} {delayMs : Nat}
    (hs : stepDoDelay s env cb delayMs = some u) :
    Dates (Function.update due s.next (env.nowMs + delayMs)) u := by
  have hd := h.delayed (pollerDoDelay_delayed s env cb delayMs)
  rcases stepDoDelay_eq_some hs with ⟨-, rfl⟩ | ⟨t, -, rfl, -⟩
  · exact hd
  · exact ⟨hd.dated, hd.linked⟩

theorem cancel (h : Dates due s) {self t : Nat} (hs : stepCancel s self t = some u) :
    Dates due u := by
  have hmark := h.dated.setCancelled t
  rw [stepCancel] at hs
  split at hs
  · cases hs
  · split at hs
    · cases hs
      exact ⟨hmark, h.linked⟩
    · split at hs
      · obtain ⟨-, rfl⟩ := locked_eq_some.mp hs
        exact ⟨hmark.thin (timerHeapRemove_thinned hmark.indexed t), h.linked⟩
      · cases hs
        exact ⟨hmark, h.linked⟩

theorem cancelPost (h : Dates due s) {env : AsyncEnv} {callocCtx : Bool} {t : Nat}
    (hs : stepCancelPost s env callocCtx t = some u) : Dates due u := by
  have hqueue := (h.dated.queueCancel t).perm (pending_push h.linked false (.timerCancel t))
  cases (stepCancelPost_eq_some hs).2 with
  | noctx => exact ⟨h.dated, h.linked⟩
  | nomem => exact ⟨h.dated, h.linked.counted⟩
  | queued => exact ⟨hqueue, h.linked.push _ _⟩
  | unwoken _ => exact ⟨hqueue, h.linked.push _ _⟩

theorem drain (h : Dates due s) (hl : s.list = []) :
    Dates due { s with
      list := s.tasks.tasks.nodes, tasks := { s.tasks with tasks := Chain.empty } } := by
  refine ⟨?_, TaskPoller.linked_empty rfl⟩
  rw [pending_drain hl]
  exact h.dated

theorem next (h : Dates due s) {n : Nat × TimerTask} {rest : List (Nat × TimerTask)}
    (hl : s.list = n :: rest) (realloc : Bool) :
    Dates due (({ s with list := rest }.runTask realloc n.2).takeCtx n.1) := by
  have hd := h.dated
  rw [pending_head hl] at hd
  obtain ⟨addr, task⟩ := n
  cases task with
  | delayInsert t d =>
      obtain ⟨hrest, hlt, hloose, hf, rfl, hi⟩ := hd.unqueue
      exact ⟨hrest.insert realloc hlt hloose hi hf, h.linked⟩
  | timerCancel t =>
      have hrest := hd.sublist (List.sublist_cons_self _ _)
      exact ⟨hrest.thin (timerHeapRemove_thinned hrest.indexed t), h.linked⟩

/-- The first timer leaves the array and is freed or called. -/
theorem popFire (h : Dates due s) (h0 : s.heap.count ≠ 0) (hf : s.firing = none) (now : Nat)
    (m : Lifetime) : Dates due ({ s with mem := m }.popMin.fire (s.heap.heap 0) now) := by
  obtain ⟨hthin, hloose⟩ := timerHeapPopMin_thinned h.dated.indexed (Nat.pos_of_ne_zero h0)
  have hmem : s.heap.Mem (s.heap.heap 0) := ⟨0, Nat.pos_of_ne_zero h0, rfl⟩
  have hpop := h.dated.thin hthin
  simp only [TimerState.fire]
  split
  · exact ⟨hpop, h.linked⟩
  · have hnone : s.firingTimer = none := by simp [TimerState.firingTimer, hf]
    rw [hnone] at hpop
    refine ⟨hpop.startFiring (h.dated.member _ hmem).1 hloose fun d hd => ?_, h.linked⟩
    exact h.dated.indexed.not_mem (h.dated.queued _ d hd).2.1 hmem

theorem flush (h : Dates due s) {now : Nat} (hs : stepFlush s now = some u) : Dates due u := by
  rw [stepFlush] at hs
  split at hs
  · cases hs
  · split at hs
    · obtain ⟨-, rfl⟩ := locked_eq_some.mp hs
      exact h
    · next h0 =>
        simp only at hs
        split at hs
        · obtain ⟨hf, rfl⟩ := locked_eq_some.mp hs
          exact h.popFire h0 hf now _
        · obtain ⟨-, rfl⟩ := locked_eq_some.mp hs
          exact ⟨h.dated, h.linked⟩

/-- The callback asks for another turn. -/
theorem again (h : Dates due s) {t now : Nat} (hf : s.firing = some (t, now)) (realloc : Bool)
    (x : Nat) : Dates (Function.update due t x) (s.again realloc t (x % 2 ^ 64)) := by
  have hd := h.dated
  have hfire : s.firingTimer = some t := by simp [TimerState.firingTimer, hf]
  rw [hfire] at hd
  obtain ⟨hstop, hlt, hloose, hi⟩ := hd.stopFiring
  have hnew := hstop.redate (hstop.indexed.not_mem hloose) hi x
  simp only [TimerState.again]
  split
  · exact ⟨hnew, h.linked⟩
  · have hins := hnew.insert realloc hlt hloose hi fun he => by cases he
    rw [Function.update_self] at hins
    exact ⟨hins, h.linked⟩

theorem retire (h : Dates due s) {t now : Nat} (hf : s.firing = some (t, now)) :
    Dates due (s.retire t) := by
  have hd := h.dated
  have hfire : s.firingTimer = some t := by simp [TimerState.firingTimer, hf]
  rw [hfire] at hd
  exact ⟨hd.stopFiring.1, h.linked⟩

theorem timerFini (h : Dates due s) : Dates due s.timerFini := by
  refine ⟨h.dated.thin ⟨fun i hi => absurd hi (Nat.not_lt_zero i), ?_, fun _ => rfl,
    fun _ => id⟩, h.linked⟩
  rintro t ⟨i, hi, -⟩
  exact absurd hi (Nat.not_lt_zero i)

/-- Every step keeps the timers on their dates. -/
theorem step (h : Dates due s) {a : TimerAct} (hs : timerMachine.step s a = some u) :
    Dates (dueAfter s due a) u := by
  cases a with
  | bind self =>
      cases hs
      exact ⟨h.dated, ⟨h.linked.wf, h.linked.below⟩⟩
  | doDelay env cb delayMs => exact h.doDelay hs
  | cancel self t => exact h.cancel hs
  | cancelPost env callocCtx t => exact h.cancelPost hs
  | drain =>
      simp only [timerMachine, timerStep] at hs
      split at hs
      · next hl =>
          obtain ⟨-, rfl⟩ := locked_eq_some.mp hs
          split
          · exact h.drain hl
          · exact h
      · cases hs
  | next realloc =>
      simp only [timerMachine, timerStep] at hs
      split at hs
      · cases hs
      · next hl =>
          obtain ⟨-, rfl⟩ := locked_eq_some.mp hs
          exact h.next hl realloc
  | flush now => exact h.flush hs
  | cbReturn realloc nextMs =>
      simp only [timerMachine, timerStep] at hs
      cases hf : s.firing with
      | none =>
          rw [hf] at hs
          cases hs
      | some f =>
          obtain ⟨t, now⟩ := f
          simp only [hf] at hs
          simp only [dueAfter, hf]
          split at hs
          · next hpos =>
              cases hs
              rw [if_pos hpos]
              exact h.again hf realloc _
          · next hpos =>
              cases hs
              rw [if_neg hpos]
              exact h.retire hf
  | timerFini =>
      simp only [timerMachine, timerStep] at hs
      split at hs
      · obtain ⟨-, rfl⟩ := locked_eq_some.mp hs
        exact h.timerFini
      · cases hs

end Dates

end Ztk.Poller
