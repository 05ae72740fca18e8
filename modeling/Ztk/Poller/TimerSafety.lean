import Ztk.Poller.TimerCancel

/-!
# No use of a freed timer

A timer can be reached from the array, from a queued task, from a thread inside
`ztk_poller_timer_cancel`, and from the flush that runs its callback.  The invariant
`TimerInv` says that whatever can be reached is live, and that the timers of pending
insertions are apart from the array and from each other, so that a timer taken out of
the array, or back from its callback, is reached by nobody but pending cancels.  A
queued task reaches its timer through its context, and `ContextInv` says that the
contexts of queued tasks are live.

Pending cancels are where the source goes wrong.  `flush_expired_timers` frees a
marked timer, and a timer whose callback returns 0, without regard to a
`timer_cancel_async` that is still to run and reads it; `ztk_poller_timer_fini`
does the same.  And where the wake fails with the task queued,
`ztk_poller_do_delay` frees its timer and the context, and
`ztk_poller_timer_cancel` the context, in which the next drain looks for its timer.
`Quiet` excludes exactly these steps.
-/

namespace Ztk.Poller

open Ztk.Lib TimerHeap

/-! ## Who can reach a timer -/

namespace TimerState

/-- The tasks still to run: the rest of the drain, then the queue. -/
def pendingTasks (s : TimerState) : List TimerTask :=
  (s.list ++ s.tasks.tasks.nodes).map Prod.snd

/-- Their contexts. -/
def pendingCtxs (s : TimerState) : List Nat := (s.list ++ s.tasks.tasks.nodes).map Prod.fst

/-- The timer whose callback runs. -/
def firingTimer (s : TimerState) : Option Nat := s.firing.map Prod.fst

end TimerState

/-- The timer a task inserts. -/
def TimerTask.insertion : TimerTask → Option Nat
  | .delayInsert t _ => some t
  | .timerCancel _ => none

/-- The timers of the pending insertions. -/
def TimerState.inserts (s : TimerState) : List Nat := s.pendingTasks.filterMap TimerTask.insertion

/-- A cancel by another thread has still to read the timer. -/
def CancelPending (s : TimerState) (t : Nat) : Prop :=
  t ∈ s.cancelling ∨ .timerCancel t ∈ s.pendingTasks

/-- Nobody can read the timer but through its handle. -/
structure Unreached (s : TimerState) (t : Nat) : Prop where
  heap : ¬ s.heap.Mem t
  tasks : ∀ task ∈ s.pendingTasks, task.timer ≠ t
  cancelling : t ∉ s.cancelling
  firing : s.firingTimer ≠ some t

/-- The timers a step frees, other than those of a failed `ztk_poller_do_delay`. -/
def frees (s : TimerState) : TimerAct → List Nat
  | .flush now =>
      let top := s.heap.heap 0
      if s.heap.count ≠ 0 ∧ (s.heap.timer top).deadlineMs ≤ now ∧
        (s.heap.timer top).cancelled = true then [top] else []
  | .cbReturn _ nextMs =>
      match s.firing with
      | some (t, _) => if nextMs = 0 ∨ (s.heap.timer t).cancelled = true then [t] else []
      | none => []
  | .timerFini => s.heap.members
  | _ => []

/-- The calls a client may make: a handle is cancelled at most once, never after
its callback returned 0, and everything is over before `ztk_poller_task_fini`. -/
def Legal (s : TimerState) : TimerAct → Prop
  | .cancel _ t => s.timerMtx = true ∧ s.handed t = true ∧ s.called t = false ∧
      s.returnedZero t = false
  | .timerFini => s.cancelling = []
  | _ => True

/-- The call does not queue its task and then fail. -/
def TaskWoken (s : TimerState) : TimerAct → Prop
  | .doDelay env cb _ => ¬ delayUnwoken s env cb
  | .cancelPost env callocCtx _ => ¬ cancelUnwoken s env callocCtx
  | _ => True

/-- The steps on which the source keeps its promise: no timer is freed that a
pending cancel has still to read, and no task is queued by a call that fails. -/
def Quiet (s : TimerState) (a : TimerAct) : Prop :=
  (∀ t ∈ frees s a, ¬ CancelPending s t) ∧ TaskWoken s a

instance decidableCancelPending (s : TimerState) (t : Nat) : Decidable (CancelPending s t) :=
  inferInstanceAs (Decidable (_ ∨ _))

instance decidableLegal (s : TimerState) : ∀ a, Decidable (Legal s a)
  | .cancel _ _ => inferInstanceAs (Decidable (_ ∧ _ ∧ _ ∧ _))
  | .timerFini => inferInstanceAs (Decidable (s.cancelling = []))
  | .bind _ | .doDelay _ _ _ | .cancelPost _ _ _ | .drain | .next _ | .flush _
  | .cbReturn _ _ => isTrue trivial

instance decidableTaskWoken (s : TimerState) : ∀ a, Decidable (TaskWoken s a)
  | .doDelay _ _ _ => inferInstanceAs (Decidable (¬ (_ ∧ _ ∧ _ ∧ _ ∧ _ ∧ _ ∧ _ ∧ _)))
  | .cancelPost _ _ _ => inferInstanceAs (Decidable (¬ (_ ∧ _ ∧ _ ∧ _)))
  | .bind _ | .cancel _ _ | .drain | .next _ | .flush _ | .cbReturn _ _
  | .timerFini => isTrue trivial

instance decidableQuiet (s : TimerState) (a : TimerAct) : Decidable (Quiet s a) :=
  inferInstanceAs (Decidable (_ ∧ _))

theorem mem_insertions {tasks : List TimerTask} {t : Nat} :
    t ∈ tasks.filterMap TimerTask.insertion ↔ ∃ d, .delayInsert t d ∈ tasks := by
  rw [List.mem_filterMap]
  constructor
  · rintro ⟨task, hm, ht⟩
    cases task with
    | delayInsert u d =>
        cases ht
        exact ⟨d, hm⟩
    | timerCancel u => cases ht
  · rintro ⟨d, hm⟩
    exact ⟨_, hm, rfl⟩

theorem mem_inserts {s : TimerState} {t : Nat} :
    t ∈ s.inserts ↔ ∃ d, .delayInsert t d ∈ s.pendingTasks := mem_insertions

/-- The pending tasks of a timer are its insertion and its cancel. -/
theorem tasks_ne {s : TimerState} {t : Nat} (hi : t ∉ s.inserts) (hc : ¬ CancelPending s t) :
    ∀ task ∈ s.pendingTasks, task.timer ≠ t := by
  rintro task hm rfl
  cases task with
  | delayInsert u d => exact hi (mem_inserts.mpr ⟨d, hm⟩)
  | timerCancel u => exact hc (Or.inr hm)

/-- The task at the head of the list is the first one pending. -/
theorem pending_head {s : TimerState} {n : Nat × TimerTask} {rest : List (Nat × TimerTask)}
    (hl : s.list = n :: rest) : s.pendingTasks = n.2 :: { s with list := rest }.pendingTasks := by
  simp [TimerState.pendingTasks, hl]

/-- A drain takes the queue as its list. -/
theorem pending_drain {s : TimerState} (hl : s.list = []) :
    { s with list := s.tasks.tasks.nodes, tasks := { s.tasks with
      tasks := Chain.empty } }.pendingTasks = s.pendingTasks := by
  simp [TimerState.pendingTasks, hl, Chain.empty]

/-- A push adds one node to those still to run. -/
theorem pending_nodes_push {s : TimerState} (h : s.tasks.Linked) (front : Bool)
    (task : TimerTask) :
    (s.list ++ (asyncPush s.tasks front task).tasks.nodes).Perm
      ((s.tasks.calls, task) :: (s.list ++ s.tasks.tasks.nodes)) := by
  rw [h.push_nodes]
  cases front with
  | true => exact List.perm_middle
  | false =>
      simp only [Bool.false_eq_true, if_false, ← List.append_assoc]
      exact List.perm_append_singleton _ _

theorem pending_push {s : TimerState} (h : s.tasks.Linked) (front : Bool) (task : TimerTask) :
    ({ s with tasks := asyncPush s.tasks front task }.pendingTasks).Perm
      (task :: s.pendingTasks) :=
  (pending_nodes_push h front task).map Prod.snd

theorem inserts_push {s : TimerState} (h : s.tasks.Linked) (front : Bool) (task : TimerTask) :
    ({ s with tasks := asyncPush s.tasks front task }.inserts).Perm
      ((task :: s.pendingTasks).filterMap TimerTask.insertion) :=
  (pending_push h front task).filterMap TimerTask.insertion

/-! ## The invariant -/

/-- Every timer that can be reached is live. -/
structure TimerInv (s : TimerState) : Prop where
  sound : s.mem.Sound
  indexed : s.heap.Indexed
  placed : ∀ t, s.mem.Live t → s.heap.Placed t
  members : ∀ t, s.heap.Mem t → s.mem.Live t ∧ t < s.next
  pending : ∀ task ∈ s.pendingTasks, s.mem.Live task.timer ∧ task.timer < s.next
  marking : ∀ t ∈ s.cancelling, s.mem.Live t ∧ t < s.next
  fired : ∀ t, s.firingTimer = some t → s.mem.Live t ∧ t < s.next
  fresh : ∀ t, s.next ≤ t → s.mem.Live t
  once : s.inserts.Nodup
  apart : ∀ t ∈ s.inserts, ¬ s.heap.Mem t ∧ s.firingTimer ≠ some t
  out : ∀ t, s.firingTimer = some t → ¬ s.heap.Mem t
  linked : s.tasks.Linked
  handed : ∀ t, s.handed t = true → t < s.next ∧ (s.timerMtx = true → s.called t = false →
    s.returnedZero t = false → s.mem.Live t)
  cancelled : ∀ t, (s.heap.timer t).cancelled = true → s.called t = true

theorem TimerInv.start (tasks : TaskPoller TimerTask) (timerMtx : Bool) :
    TimerInv (.start tasks timerMtx) where
  sound := Lifetime.sound_start
  indexed := fun _ hi => absurd hi (Nat.not_lt_zero _)
  placed := fun _ _ _ hi => by cases hi
  members := by
    rintro t ⟨i, hi, -⟩
    exact absurd hi (Nat.not_lt_zero i)
  pending := fun _ hm => by cases hm
  marking := fun _ hm => by cases hm
  fired := fun _ hf => by cases hf
  fresh := fun _ _ => rfl
  once := List.nodup_nil
  apart := fun _ ht => by cases ht
  out := fun _ hf => by cases hf
  linked := TaskPoller.linked_empty rfl
  handed := fun _ ht => by cases ht
  cancelled := fun _ hc => by cases hc

namespace TimerInv

variable {s : TimerState}

theorem members_live (h : TimerInv s) : ∀ t ∈ s.heap.members, s.mem.Live t :=
  fun t ht => (h.members t (mem_members.mp ht)).1

/-- Uses of live timers. -/
theorem setMem (h : TimerInv s) {m : Lifetime} (hf : m.freed = s.mem.freed) (hm : m.Sound) :
    TimerInv { s with mem := m } := by
  have hl : ∀ t, m.Live t ↔ s.mem.Live t := fun t => by rw [Lifetime.Live, hf]; rfl
  exact
    { h with
      sound := hm
      placed := fun t ht => h.placed t ((hl t).mp ht)
      members := fun t ht => ⟨(hl t).mpr (h.members t ht).1, (h.members t ht).2⟩
      pending := fun x hx => ⟨(hl _).mpr (h.pending x hx).1, (h.pending x hx).2⟩
      marking := fun t ht => ⟨(hl t).mpr (h.marking t ht).1, (h.marking t ht).2⟩
      fired := fun t ht => ⟨(hl t).mpr (h.fired t ht).1, (h.fired t ht).2⟩
      fresh := fun t ht => (hl t).mpr (h.fresh t ht)
      handed := fun t ht => ⟨(h.handed t ht).1, fun hx hc hr =>
        (hl t).mpr ((h.handed t ht).2 hx hc hr)⟩ }

theorem use (h : TimerInv s) {t : Nat} (ht : s.mem.Live t) :
    TimerInv { s with mem := s.mem.use t } :=
  h.setMem rfl (h.sound.use ht)

/-- An operation of the heap on a live timer uses live timers only. -/
theorem useHeap_sound (h : TimerInv s) {t : Nat} (ht : s.mem.Live t) :
    ((s.mem.use t).useAll s.heap.members).Sound :=
  (h.sound.use ht).useAll h.members_live

/-- Another array, with timers that nobody else puts in. -/
theorem setHeap (h : TimerInv s) {p : TimerHeap} (hi : p.Indexed)
    (hp : ∀ t, s.mem.Live t → p.Placed t)
    (hm : ∀ t, p.Mem t → s.heap.Mem t ∨
      (s.mem.Live t ∧ t < s.next ∧ t ∉ s.inserts ∧ s.firingTimer ≠ some t))
    (hc : ∀ t, (p.timer t).cancelled = (s.heap.timer t).cancelled) :
    TimerInv { s with heap := p } :=
  { h with
    indexed := hi
    placed := hp
    members := fun t ht => by
      rcases hm t ht with ht | ⟨hl, ho, -, -⟩
      · exact h.members t ht
      · exact ⟨hl, ho⟩
    apart := fun t ht => ⟨fun hx => by
      rcases hm t hx with hx | ⟨-, -, hn, -⟩
      · exact (h.apart t ht).1 hx
      · exact hn ht, (h.apart t ht).2⟩
    out := fun t ht hx => by
      rcases hm t hx with hx | ⟨-, -, -, hf⟩
      · exact h.out t ht hx
      · exact hf ht
    cancelled := fun t ht => h.cancelled t ((hc t).symm.trans ht) }

/-- A timer that nobody can reach is freed. -/
theorem free (h : TimerInv s) {t : Nat} (hl : s.mem.Live t) (ho : t < s.next)
    (hk : Unreached s t)
    (hh : s.handed t = true → s.called t = true ∨ s.returnedZero t = true) :
    TimerInv (s.freeTimer t) := by
  have hlive : ∀ {u}, s.mem.Live u → u ≠ t → (s.mem.free t).Live u :=
    fun hu hne => Lifetime.free_live.mpr ⟨hu, hne⟩
  exact
    { h with
      sound := h.sound.free hl
      placed := fun u hu => h.placed u (Lifetime.free_live.mp hu).1
      members := fun u hu => ⟨hlive (h.members u hu).1 fun he => hk.heap (he ▸ hu),
        (h.members u hu).2⟩
      pending := fun x hx => ⟨hlive (h.pending x hx).1 (hk.tasks x hx), (h.pending x hx).2⟩
      marking := fun u hu => ⟨hlive (h.marking u hu).1 fun he => hk.cancelling (he ▸ hu),
        (h.marking u hu).2⟩
      fired := fun u hu => ⟨hlive (h.fired u hu).1 fun he => hk.firing (he ▸ hu),
        (h.fired u hu).2⟩
      fresh := fun u hu => hlive (h.fresh u hu) (by
        have : s.next ≤ u := hu
        omega)
      handed := fun u hu => ⟨(h.handed u hu).1, fun hx hc hr => by
        refine hlive ((h.handed u hu).2 hx hc hr) ?_
        rintro rfl
        have hc : s.called u = false := hc
        have hr : s.returnedZero u = false := hr
        rcases hh hu with h' | h'
        · rw [hc] at h'
          cases h'
        · rw [hr] at h'
          cases h'⟩ }

/-- Other pending tasks. -/
theorem setTasks (h : TimerInv s) {list : List (Nat × TimerTask)} {tasks : TaskPoller TimerTask}
    (hl : tasks.Linked)
    (hk : ∀ task ∈ { s with list := list, tasks := tasks }.pendingTasks,
      task ∈ s.pendingTasks ∨ (s.mem.Live task.timer ∧ task.timer < s.next))
    (ho : { s with list := list, tasks := tasks }.inserts.Nodup)
    (ha : ∀ t ∈ { s with list := list, tasks := tasks }.inserts,
      t ∈ s.inserts ∨ (¬ s.heap.Mem t ∧ s.firingTimer ≠ some t)) :
    TimerInv { s with list := list, tasks := tasks } :=
  { h with
    pending := fun x hx => by
      rcases hk x hx with hx | hn
      · exact h.pending x hx
      · exact hn
    once := ho
    apart := fun t ht => by
      rcases ha t ht with ht | hn
      · exact h.apart t ht
      · exact hn
    linked := hl }

/-- The same pending tasks, or fewer. -/
theorem dropTasks (h : TimerInv s) {list : List (Nat × TimerTask)} {tasks : TaskPoller TimerTask}
    (hl : tasks.Linked)
    (hs : ({ s with list := list, tasks := tasks }.pendingTasks).Sublist s.pendingTasks) :
    TimerInv { s with list := list, tasks := tasks } := by
  have hsub := hs.filterMap TimerTask.insertion
  exact h.setTasks hl (fun _ ht => Or.inl (hs.subset ht)) (h.once.sublist hsub)
    fun _ ht => Or.inl (hsub.subset ht)

theorem stopFiring (h : TimerInv s) : TimerInv { s with firing := none } :=
  { h with
    fired := fun t hf => by cases hf
    apart := fun t ht => ⟨(h.apart t ht).1, fun hf => by cases hf⟩
    out := fun t hf => by cases hf }

theorem startFiring (h : TimerInv s) {t : Nat} (now : Nat) (hl : s.mem.Live t) (ho : t < s.next)
    (hm : ¬ s.heap.Mem t) (hi : t ∉ s.inserts) : TimerInv { s with firing := some (t, now) } :=
  { h with
    fired := fun u hf => by
      cases hf
      exact ⟨hl, ho⟩
    apart := fun u hu => ⟨(h.apart u hu).1, fun hf => by
      cases hf
      exact hi hu⟩
    out := fun u hf => by
      cases hf
      exact hm }

/-- What becomes of the contexts. -/
theorem setCtxs (h : TimerInv s) (m : Lifetime) : TimerInv { s with ctxs := m } := { h with }

/-! ## The operations -/

/-- A new timer is known to nobody. -/
theorem unreached_next (h : TimerInv s) : Unreached s s.next where
  heap := fun hm => Nat.lt_irrefl _ (h.members _ hm).2
  tasks := fun x hx he => by
    have := (h.pending x hx).2
    omega
  cancelling := fun hm => Nat.lt_irrefl _ (h.marking _ hm).2
  firing := fun hf => Nat.lt_irrefl _ (h.fired _ hf).2

theorem newTimer (h : TimerInv s) : TimerInv s.newTimer := by
  exact
    { h with
      indexed := calloc_indexed h.indexed h.unreached_next.heap
      placed := fun t ht => calloc_placed (h.placed t ht) s.next
      members := fun t ht => ⟨(h.members t ht).1, Nat.lt_succ_of_lt (h.members t ht).2⟩
      pending := fun x hx => ⟨(h.pending x hx).1, Nat.lt_succ_of_lt (h.pending x hx).2⟩
      marking := fun t ht => ⟨(h.marking t ht).1, Nat.lt_succ_of_lt (h.marking t ht).2⟩
      fired := fun t ht => ⟨(h.fired t ht).1, Nat.lt_succ_of_lt (h.fired t ht).2⟩
      fresh := fun t ht => h.fresh t (Nat.le_of_succ_le ht)
      handed := fun t ht => ⟨Nat.lt_succ_of_lt (h.handed t ht).1, (h.handed t ht).2⟩
      cancelled := fun t hc => by
        have hc : ((s.heap.calloc s.next).timer t).cancelled = true := hc
        by_cases htn : t = s.next
        · simp [TimerHeap.calloc, htn] at hc
        · rw [calloc_timer s.heap htn] at hc
          exact h.cancelled t hc }

theorem hand (h : TimerInv s) {t : Nat} (hl : s.mem.Live t) (ho : t < s.next) :
    TimerInv (s.hand t) :=
  { h with
    handed := fun u hu => by
      by_cases hut : u = t
      · rw [hut]
        exact ⟨ho, fun _ _ _ => hl⟩
      · have hu : Function.update s.handed t true u = true := hu
        rw [Function.update_of_ne hut] at hu
        exact h.handed u hu }

theorem timerInsertLocked (h : TimerInv s) (realloc : Bool) {t : Nat} (d : Nat)
    (hl : s.mem.Live t) (ho : t < s.next) (hi : t ∉ s.inserts) (hf : s.firingTimer ≠ some t) :
    TimerInv (s.timerInsertLocked realloc t d) := by
  have hins := insertLocked_inserted realloc (d := d) h.indexed (h.placed t hl)
  refine (h.setHeap hins.indexed (fun u hu => hins.placed u (h.placed u hu)) ?_
    hins.cancelled).setMem (Lifetime.useAll_freed _ _) (h.useHeap_sound hl)
  intro u hu
  by_cases hut : u = t
  · rw [hut]
    exact Or.inr ⟨hl, ho, hi, hf⟩
  · exact Or.inl ((hins.mem u hut).mp hu)

theorem unlinkTimer (h : TimerInv s) {t : Nat} (hl : s.mem.Live t) :
    TimerInv (s.unlinkTimer t) := by
  refine TimerInv.setMem (s := { s with heap := timerHeapRemove s.heap t }) ?_
    (Lifetime.useAll_freed _ _) (h.useHeap_sound hl)
  by_cases hm : s.heap.Mem t
  · have hr := timerHeapRemove_removed h.indexed hm
    exact h.setHeap hr.indexed (fun u hu => hr.placed u (h.placed u hu))
      (fun u hu => Or.inl ((hr.mem u).mp hu).1) hr.cancelled
  · rw [timerHeapRemove_not_mem (h.placed t hl) hm]
    exact h

theorem markCancelled (h : TimerInv s) {t : Nat} (hl : s.mem.Live t) :
    TimerInv (s.markCancelled t) := by
  have hu := h.use hl
  exact
    { hu with
      indexed := setCancelled_indexed h.indexed t
      placed := fun u hl => setCancelled_placed (h.placed u hl) t
      handed := fun u hd => ⟨(h.handed u hd).1, fun hx hc hr => by
        have hc : Function.update s.called t true u = false := hc
        by_cases hut : u = t
        · simp [hut] at hc
        · rw [Function.update_of_ne hut] at hc
          exact (h.handed u hd).2 hx hc hr⟩
      cancelled := fun u hc => by
        show Function.update s.called t true u = true
        by_cases hut : u = t
        · simp [hut]
        · rw [Function.update_of_ne hut]
          have hc : ((s.heap.setCancelled t).timer u).cancelled = true := hc
          rw [setCancelled_cancelled, if_neg hut] at hc
          exact h.cancelled u hc }

theorem pushTask (h : TimerInv s) (front : Bool) (task : TimerTask) (hl : s.mem.Live task.timer)
    (ho : task.timer < s.next)
    (hi : ∀ t, task.insertion = some t →
      t ∉ s.inserts ∧ ¬ s.heap.Mem t ∧ s.firingTimer ≠ some t) :
    TimerInv { s with tasks := asyncPush s.tasks front task } := by
  have hperm := pending_push h.linked front task
  have hins := inserts_push h.linked front task
  refine h.setTasks (h.linked.push front task) ?_ ?_ ?_
  · intro x hx
    rcases List.mem_cons.mp (hperm.mem_iff.mp hx) with rfl | hx
    · exact Or.inr ⟨hl, ho⟩
    · exact Or.inl hx
  · refine hins.nodup_iff.mpr ?_
    cases ht : task.insertion with
    | none =>
        rw [List.filterMap_cons_none ht]
        exact h.once
    | some t =>
        rw [List.filterMap_cons_some ht]
        exact List.nodup_cons.mpr ⟨(hi t ht).1, h.once⟩
  · intro t ht
    obtain ⟨x, hx, hxt⟩ := List.mem_filterMap.mp (hins.mem_iff.mp ht)
    rcases List.mem_cons.mp hx with rfl | hx
    · exact Or.inr (hi t hxt).2
    · exact Or.inl (List.mem_filterMap.mpr ⟨x, hx, hxt⟩)

/-- Counting a call changes nothing. -/
theorem counted (h : TimerInv s) : TimerInv { s with tasks := s.tasks.counted } :=
  h.dropTasks h.linked.counted (List.Sublist.refl _)

/-! ## The steps -/

theorem doDelay (h : TimerInv s) {env : DelayEnv} {cb : Bool} {u : TimerState}
    (he : DelayEnds s env cb u) (hw : ¬ delayUnwoken s env cb) : TimerInv u := by
  have hn := h.newTimer
  have hk := h.unreached_next
  have hi : s.next ∉ s.inserts := by
    intro hm
    obtain ⟨d, hm⟩ := mem_inserts.mp hm
    exact hk.tasks _ hm rfl
  have hl : s.mem.Live s.next := h.fresh _ (Nat.le_refl _)
  have hnh : s.handed s.next = true → False := fun hh => Nat.lt_irrefl _ (h.handed _ hh).1
  cases he with
  | refused => exact h
  | owner d hf hm =>
      have hins := hn.timerInsertLocked env.realloc d hl (Nat.lt_succ_self _) hi hk.firing
      refine hins.hand ?_ (Nat.lt_succ_self _)
      exact (congrFun (Lifetime.useAll_freed _ _) _).trans hl
  | noctx =>
      refine hn.free hl (Nat.lt_succ_self _) ?_ fun hh => (hnh hh).elim
      exact ⟨hk.heap, hk.tasks, hk.cancelling, hk.firing⟩
  | nomem =>
      refine (hn.counted.setCtxs _).free hl (Nat.lt_succ_self _) ?_ fun hh => (hnh hh).elim
      exact ⟨hk.heap, hk.tasks, hk.cancelling, hk.firing⟩
  | queued d hm =>
      refine (hn.pushTask true (.delayInsert s.next d) hl (Nat.lt_succ_self _) ?_).hand hl
        (Nat.lt_succ_self _)
      intro t ht
      cases ht
      exact ⟨hi, hk.heap, hk.firing⟩
  | unwoken d hu => exact absurd hu hw

theorem cancel (h : TimerInv s) {self t : Nat} {u : TimerState}
    (hlegal : Legal s (.cancel self t)) (hs : stepCancel s self t = some u) : TimerInv u := by
  obtain ⟨hm, hh, hc, hr⟩ := hlegal
  obtain ⟨ho, hl⟩ := h.handed t hh
  have hl := hl hm hc hr
  have hmark := h.markCancelled hl
  simp only [stepCancel] at hs
  rw [if_neg (by omega), hm] at hs
  simp only [Bool.not_true, Bool.false_eq_true, if_false] at hs
  split at hs
  · obtain ⟨-, rfl⟩ := locked_eq_some.mp hs
    exact hmark.unlinkTimer hl
  · cases hs
    exact
      { hmark with
        marking := fun v hv => by
          rcases List.mem_cons.mp hv with rfl | hv
          · exact ⟨hl, ho⟩
          · exact hmark.marking v hv }

theorem cancelPost (h : TimerInv s) {env : AsyncEnv} {callocCtx : Bool} {t : Nat} {u : TimerState}
    (hs : stepCancelPost s env callocCtx t = some u) (hw : ¬ cancelUnwoken s env callocCtx) :
    TimerInv u := by
  obtain ⟨hm, he⟩ := stepCancelPost_eq_some hs
  obtain ⟨hl, ho⟩ := h.marking t hm
  have hused := h.use hl
  have hinv : TimerInv { s with cancelling := s.cancelling.erase t, mem := s.mem.use t } :=
    { hused with
      marking := fun v hv => hused.marking v (List.mem_of_mem_erase hv) }
  cases he with
  | noctx => exact hinv
  | nomem => exact hinv.counted.setCtxs _
  | queued => exact hinv.pushTask false (.timerCancel t) hl ho fun v hv => by cases hv
  | unwoken hu => exact absurd hu hw

theorem drain (h : TimerInv s) (hl : s.list = []) :
    TimerInv { s with
      list := s.tasks.tasks.nodes, tasks := { s.tasks with tasks := Chain.empty } } := by
  refine h.dropTasks (TaskPoller.linked_empty rfl) ?_
  rw [pending_drain hl]

theorem next (h : TimerInv s) {n : Nat × TimerTask} {rest : List (Nat × TimerTask)}
    (hl : s.list = n :: rest) (realloc : Bool) :
    TimerInv (({ s with list := rest }.runTask realloc n.2).takeCtx n.1) := by
  refine TimerInv.setCtxs ?_ _
  have hp := pending_head hl
  have hrest : TimerInv { s with list := rest } := by
    refine h.dropTasks h.linked ?_
    rw [hp]
    exact List.sublist_cons_self _ _
  have hmem : n.2 ∈ s.pendingTasks := by
    rw [hp]
    exact List.mem_cons_self
  obtain ⟨hlive, hold⟩ := h.pending _ hmem
  obtain ⟨addr, task⟩ := n
  cases task with
  | delayInsert t d =>
      have hi : (t :: { s with list := rest }.inserts).Nodup := by
        have hi := h.once
        rw [TimerState.inserts, hp] at hi
        exact hi
      have hap := h.apart t (mem_inserts.mpr ⟨d, hmem⟩)
      exact hrest.timerInsertLocked realloc d hlive hold (List.nodup_cons.mp hi).1 hap.2
  | timerCancel t => exact (hrest.use hlive).unlinkTimer hlive

/-- Popping takes a live timer out of the array. -/
theorem popMin (h : TimerInv s) (h0 : s.heap.count ≠ 0) :
    TimerInv s.popMin ∧ ¬ s.popMin.heap.Mem (s.heap.heap 0) := by
  have hr := timerHeapPopMin_removed h.indexed (Nat.pos_of_ne_zero h0)
  refine ⟨?_, fun hm => ((hr.mem _).mp hm).2 rfl⟩
  exact (h.setHeap hr.indexed (fun u hu => hr.placed u (h.placed u hu))
    (fun u hu => Or.inl ((hr.mem u).mp hu).1) hr.cancelled).setMem (Lifetime.useAll_freed _ _)
      (h.sound.useAll h.members_live)

/-- The popped timer is freed or called. -/
theorem fire (h : TimerInv s) {t now : Nat} (hl : s.mem.Live t) (ho : t < s.next)
    (hm : ¬ s.heap.Mem t) (hi : t ∉ s.inserts) (hf : s.firing = none)
    (hq : (s.heap.timer t).cancelled = true → ¬ CancelPending s t) :
    TimerInv (s.fire t now) := by
  have hu := h.use hl
  simp only [TimerState.fire]
  split
  · next hc =>
      have hq := hq hc
      refine hu.free hl ho ⟨hm, tasks_ne hi hq, fun hx => hq (Or.inl hx), ?_⟩
        fun _ => Or.inl (h.cancelled t hc)
      simp [TimerState.firingTimer, hf]
  · exact { hu.startFiring now hl ho hm hi with }

theorem flush (h : TimerInv s) {now : Nat} {u : TimerState} (hs : stepFlush s now = some u)
    (hq : Quiet s (.flush now)) : TimerInv u := by
  rw [stepFlush] at hs
  split at hs
  · cases hs
  · split at hs
    · obtain ⟨-, rfl⟩ := locked_eq_some.mp hs
      exact h
    · next h0 =>
        have hmem : s.heap.Mem (s.heap.heap 0) := ⟨0, Nat.pos_of_ne_zero h0, rfl⟩
        obtain ⟨hl, ho⟩ := h.members _ hmem
        have hu := h.use hl
        simp only at hs
        split at hs
        · next hd =>
            obtain ⟨hf, rfl⟩ := locked_eq_some.mp hs
            obtain ⟨hpop, hout⟩ := hu.popMin h0
            refine hpop.fire ((congrFun (Lifetime.useAll_freed _ _) _).trans hl) ho hout
              (fun hi => (h.apart _ hi).1 hmem) hf fun hc => hq.1 _ ?_
            have hc := (timerHeapPopMin_cancelled s.heap _).symm.trans hc
            simp [frees, h0, hd, hc]
        · obtain ⟨-, rfl⟩ := locked_eq_some.mp hs
          exact hu

theorem retire (h : TimerInv s) {t : Nat} (hf : s.firingTimer = some t)
    (hq : ¬ CancelPending s t) : TimerInv (s.retire t) := by
  obtain ⟨hl, ho⟩ := h.fired t hf
  have hi : t ∉ s.inserts := fun hi => (h.apart t hi).2 hf
  have hstop := h.stopFiring
  have hinv : TimerInv
      { s with firing := none, returnedZero := Function.update s.returnedZero t true } :=
    { hstop with
      handed := fun u hu => ⟨(h.handed u hu).1, fun hx hc hr => by
        have hr : Function.update s.returnedZero t true u = false := hr
        by_cases hut : u = t
        · simp [hut] at hr
        · rw [Function.update_of_ne hut] at hr
          exact (h.handed u hu).2 hx hc hr⟩ }
  refine hinv.free hl ho
    ⟨h.out t hf, tasks_ne hi hq, fun hx => hq (Or.inl hx), fun hx => by cases hx⟩ fun _ => ?_
  exact Or.inr (Function.update_self ..)

theorem again (h : TimerInv s) {t : Nat} (realloc : Bool) (d : Nat)
    (hf : s.firingTimer = some t)
    (hq : (s.heap.timer t).cancelled = true → ¬ CancelPending s t) :
    TimerInv (s.again realloc t d) := by
  obtain ⟨hl, ho⟩ := h.fired t hf
  have hi : t ∉ s.inserts := fun hi => (h.apart t hi).2 hf
  have hu := h.stopFiring.use hl
  simp only [TimerState.again]
  split
  · next hc =>
      have hq := hq hc
      exact hu.free hl ho
        ⟨h.out t hf, tasks_ne hi hq, fun hx => hq (Or.inl hx), fun hx => by cases hx⟩
        fun _ => Or.inl (h.cancelled t hc)
  · have hr : TimerInv { s with
        firing := none, mem := s.mem.use t,
        rearms := Function.update s.rearms t (s.rearms t + 1) } := { hu with }
    exact hr.timerInsertLocked realloc d hl ho hi fun hx => by cases hx

theorem timerFini (h : TimerInv s) (hq : Quiet s .timerFini) (hf : s.firing = none) :
    TimerInv s.timerFini := by
  have hlive : ∀ {t}, s.mem.Live t → ¬ s.heap.Mem t → (s.mem.freeAll s.heap.members).Live t :=
    fun hl hm => Lifetime.freeAll_live.mpr ⟨hl, fun hx => hm (mem_members.mp hx)⟩
  have hempty : ∀ t, ¬ s.timerFini.heap.Mem t := by
    rintro t ⟨i, hi, -⟩
    exact absurd hi (Nat.not_lt_zero i)
  exact
    { h with
      sound := h.sound.freeAll (members_nodup h.indexed) h.members_live
      indexed := fun i hi => absurd hi (Nat.not_lt_zero i)
      placed := fun t ht i hi => by
        obtain ⟨hl, hm⟩ := Lifetime.freeAll_live.mp ht
        have hnone := (h.placed t hl).index_none fun hx => hm (mem_members.mpr hx)
        have hi : (s.heap.timer t).heapIndex = some i := hi
        rw [hnone] at hi
        cases hi
      members := fun t ht => absurd ht (hempty t)
      pending := fun x hx => by
        refine ⟨hlive (h.pending x hx).1 fun hm => ?_, (h.pending x hx).2⟩
        exact tasks_ne (fun hi => (h.apart _ hi).1 hm) (hq.1 _ (mem_members.mpr hm)) x hx rfl
      marking := fun t ht => by
        refine ⟨hlive (h.marking t ht).1 fun hm => ?_, (h.marking t ht).2⟩
        exact hq.1 t (mem_members.mpr hm) (Or.inl ht)
      fired := fun t ht => by
        have ht : s.firingTimer = some t := ht
        simp [TimerState.firingTimer, hf] at ht
      fresh := fun t ht => by
        have ht : s.next ≤ t := ht
        refine hlive (h.fresh t ht) fun hm => ?_
        have := (h.members t hm).2
        omega
      apart := fun t ht => ⟨hempty t, (h.apart t ht).2⟩
      out := fun t _ => hempty t
      handed := fun t ht => ⟨(h.handed t ht).1, fun hx => by cases hx⟩ }

theorem step (h : TimerInv s) {a : TimerAct} {u : TimerState} (hlegal : Legal s a)
    (hq : Quiet s a) (hs : timerMachine.step s a = some u) : TimerInv u := by
  cases a with
  | bind self =>
      cases hs
      exact { h with linked := ⟨h.linked.wf, h.linked.below⟩ }
  | doDelay env cb delayMs => exact h.doDelay (stepDoDelay_ends hs) hq.2
  | cancel self t => exact h.cancel hlegal hs
  | cancelPost env callocCtx t => exact h.cancelPost hs hq.2
  | drain =>
      simp only [timerMachine, timerStep] at hs
      split at hs
      · next hl =>
          obtain ⟨-, rfl⟩ := locked_eq_some.mp hs
          split
          · exact h.drain hl
          · exact h
      · cases hs
  | next realloc =>
      simp only [timerMachine, timerStep] at hs
      split at hs
      · cases hs
      · next hl =>
          obtain ⟨-, rfl⟩ := locked_eq_some.mp hs
          exact h.next hl realloc
  | flush now => exact h.flush hs hq
  | cbReturn realloc nextMs =>
      simp only [timerMachine, timerStep] at hs
      split at hs
      · cases hs
      · next t now hf =>
          have ht : s.firingTimer = some t := by simp [TimerState.firingTimer, hf]
          split at hs
          · cases hs
            exact h.again realloc _ ht fun hc => hq.1 t (by simp [frees, hf, hc])
          · next hz =>
              cases hs
              exact h.retire ht (hq.1 t (by simp [frees, hf, Nat.eq_zero_of_not_pos hz]))
  | timerFini =>
      simp only [timerMachine, timerStep] at hs
      split at hs
      · obtain ⟨hf, rfl⟩ := locked_eq_some.mp hs
        exact h.timerFini hq hf
      · cases hs

end TimerInv

/-! ## The contexts -/

/-- The contexts of the tasks still to run are live, and apart from each other. -/
structure ContextInv (s : TimerState) : Prop where
  sound : s.ctxs.Sound
  live : ∀ c ∈ s.pendingCtxs, s.ctxs.Live c
  once : s.pendingCtxs.Nodup
  below : ∀ c ∈ s.pendingCtxs, c < s.tasks.calls
  fresh : ∀ c, s.tasks.calls ≤ c → s.ctxs.Live c

theorem ContextInv.start (tasks : TaskPoller TimerTask) (timerMtx : Bool) :
    ContextInv (.start tasks timerMtx) where
  sound := Lifetime.sound_start
  live := fun _ hc => by cases hc
  once := List.nodup_nil
  below := fun _ hc => by cases hc
  fresh := fun _ _ => rfl

namespace ContextInv

variable {s u : TimerState}

/-- A step that posts no task and runs none. -/
theorem frame (h : ContextInv s) (hl : u.list = s.list) (ht : u.tasks = s.tasks)
    (hc : u.ctxs = s.ctxs) : ContextInv u := by
  have hp : u.pendingCtxs = s.pendingCtxs := by
    rw [TimerState.pendingCtxs, hl, ht]
    rfl
  exact
    { sound := by
        rw [hc]
        exact h.sound
      live := by
        rw [hp, hc]
        exact h.live
      once := by
        rw [hp]
        exact h.once
      below := by
        rw [hp, ht]
        exact h.below
      fresh := by
        rw [ht, hc]
        exact h.fresh }

theorem push (h : ContextInv s) (hk : s.tasks.Linked) (front : Bool) (task : TimerTask) :
    ContextInv { s with tasks := asyncPush s.tasks front task } := by
  have hperm : ({ s with tasks := asyncPush s.tasks front task }.pendingCtxs).Perm
      (s.tasks.calls :: s.pendingCtxs) := (pending_nodes_push hk front task).map Prod.fst
  exact
    { sound := h.sound
      live := fun c hc => by
        rcases List.mem_cons.mp (hperm.mem_iff.mp hc) with rfl | hc
        · exact h.fresh _ (Nat.le_refl _)
        · exact h.live c hc
      once := by
        refine hperm.nodup_iff.mpr (List.nodup_cons.mpr ⟨fun hc => ?_, h.once⟩)
        exact Nat.lt_irrefl _ (h.below _ hc)
      below := fun c hc => by
        rcases List.mem_cons.mp (hperm.mem_iff.mp hc) with rfl | hc
        · exact Nat.lt_succ_self _
        · exact Nat.lt_succ_of_lt (h.below c hc)
      fresh := fun c hc => h.fresh c (Nat.le_of_succ_le hc) }

/-- A call that links no task frees the context that it made. -/
theorem refused (h : ContextInv s) :
    ContextInv ({ s with tasks := s.tasks.counted }.freeCtx s.tasks.calls) where
  sound := h.sound.free (h.fresh _ (Nat.le_refl _))
  live := fun c hc => Lifetime.free_live.mpr ⟨h.live c hc, Nat.ne_of_lt (h.below c hc)⟩
  once := h.once
  below := fun c hc => Nat.lt_succ_of_lt (h.below c hc)
  fresh := fun c hc =>
    Lifetime.free_live.mpr ⟨h.fresh c (Nat.le_of_succ_le hc), Nat.ne_of_gt hc⟩

/-- A task takes its own context. -/
theorem take (h : ContextInv s) {n : Nat × TimerTask} {rest : List (Nat × TimerTask)}
    (hl : s.list = n :: rest) : ContextInv ({ s with list := rest }.takeCtx n.1) := by
  have hp : s.pendingCtxs = n.1 :: { s with list := rest }.pendingCtxs := by
    simp [TimerState.pendingCtxs, hl]
  have hin : ∀ {c}, c ∈ { s with list := rest }.pendingCtxs → c ∈ s.pendingCtxs := by
    intro c hc
    rw [hp]
    exact List.mem_cons_of_mem _ hc
  have hmem : n.1 ∈ s.pendingCtxs := by
    rw [hp]
    exact List.mem_cons_self
  have hlive : s.ctxs.Live n.1 := h.live _ hmem
  obtain ⟨hout, honce⟩ := List.nodup_cons.mp (hp ▸ h.once)
  exact
    { sound := (h.sound.use hlive).free hlive
      live := fun c hc =>
        Lifetime.free_live.mpr ⟨h.live c (hin hc), fun he => hout (he ▸ hc)⟩
      once := honce
      below := fun c hc => h.below c (hin hc)
      fresh := fun c hc => by
        refine Lifetime.free_live.mpr ⟨h.fresh c hc, Nat.ne_of_gt ?_⟩
        exact Nat.lt_of_lt_of_le (h.below _ hmem) hc }

theorem doDelay (h : ContextInv s) (hk : s.tasks.Linked) {env : DelayEnv} {cb : Bool}
    (he : DelayEnds s env cb u) (hw : ¬ delayUnwoken s env cb) : ContextInv u := by
  have hn : ContextInv s.newTimer := h.frame rfl rfl rfl
  cases he with
  | refused => exact h
  | owner d hf hm => exact h.frame rfl rfl rfl
  | noctx => exact h.frame rfl rfl rfl
  | nomem => exact hn.refused.frame rfl rfl rfl
  | queued d hm => exact (hn.push hk true _).frame rfl rfl rfl
  | unwoken d hu => exact absurd hu hw

theorem cancel (h : ContextInv s) {self t : Nat} (hs : stepCancel s self t = some u) :
    ContextInv u := by
  simp only [stepCancel] at hs
  split at hs
  · cases hs
  · split at hs
    · cases hs
      exact h.frame rfl rfl rfl
    · split at hs
      · obtain ⟨-, rfl⟩ := locked_eq_some.mp hs
        exact h.frame rfl rfl rfl
      · cases hs
        exact h.frame rfl rfl rfl

theorem cancelPost (h : ContextInv s) (hk : s.tasks.Linked) {env : AsyncEnv} {callocCtx : Bool}
    {t : Nat} (hs : stepCancelPost s env callocCtx t = some u)
    (hw : ¬ cancelUnwoken s env callocCtx) : ContextInv u := by
  have hn : ContextInv { s with cancelling := s.cancelling.erase t, mem := s.mem.use t } :=
    h.frame rfl rfl rfl
  cases (stepCancelPost_eq_some hs).2 with
  | noctx => exact hn
  | nomem => exact hn.refused
  | queued => exact hn.push hk false _
  | unwoken hu => exact absurd hu hw

theorem next (h : ContextInv s) {n : Nat × TimerTask} {rest : List (Nat × TimerTask)}
    (hl : s.list = n :: rest) (realloc : Bool) :
    ContextInv (({ s with list := rest }.runTask realloc n.2).takeCtx n.1) := by
  obtain ⟨addr, task⟩ := n
  cases task with
  | delayInsert t d => exact (h.take hl).frame rfl rfl rfl
  | timerCancel t => exact (h.take hl).frame rfl rfl rfl

theorem flush (h : ContextInv s) {now : Nat} (hs : stepFlush s now = some u) : ContextInv u := by
  rw [stepFlush] at hs
  split at hs
  · cases hs
  · split at hs
    · obtain ⟨-, rfl⟩ := locked_eq_some.mp hs
      exact h
    · simp only at hs
      split at hs
      · obtain ⟨-, rfl⟩ := locked_eq_some.mp hs
        simp only [TimerState.fire]
        split
        · exact h.frame rfl rfl rfl
        · exact h.frame rfl rfl rfl
      · obtain ⟨-, rfl⟩ := locked_eq_some.mp hs
        exact h.frame rfl rfl rfl

theorem again (h : ContextInv s) (realloc : Bool) (t d : Nat) :
    ContextInv (s.again realloc t d) := by
  simp only [TimerState.again]
  split
  · exact h.frame rfl rfl rfl
  · exact h.frame rfl rfl rfl

/-- A call that fails leaves no task behind, so no task finds its context freed. -/
theorem step (h : ContextInv s) (hk : s.tasks.Linked) {a : TimerAct} (hw : TaskWoken s a)
    (hs : timerMachine.step s a = some u) : ContextInv u := by
  cases a with
  | bind self =>
      cases hs
      exact { h with }
  | doDelay env cb delayMs => exact h.doDelay hk (stepDoDelay_ends hs) hw
  | cancel self t => exact h.cancel hs
  | cancelPost env callocCtx t => exact h.cancelPost hk hs hw
  | drain =>
      simp only [timerMachine, timerStep] at hs
      split at hs
      · next hl =>
          obtain ⟨-, rfl⟩ := locked_eq_some.mp hs
          split
          · have hp : { s with list := s.tasks.tasks.nodes, tasks := { s.tasks with
                tasks := Chain.empty } }.pendingCtxs = s.pendingCtxs := by
              simp [TimerState.pendingCtxs, hl, Chain.empty]
            exact
              { sound := h.sound
                live := hp ▸ h.live
                once := hp ▸ h.once
                below := hp ▸ h.below
                fresh := h.fresh }
          · exact h
      · cases hs
  | next realloc =>
      simp only [timerMachine, timerStep] at hs
      split at hs
      · cases hs
      · next hl =>
          obtain ⟨-, rfl⟩ := locked_eq_some.mp hs
          exact h.next hl realloc
  | flush now => exact h.flush hs
  | cbReturn realloc nextMs =>
      simp only [timerMachine, timerStep] at hs
      split at hs
      · cases hs
      · split at hs
        · cases hs
          exact h.again realloc _ _
        · cases hs
          exact h.frame rfl rfl rfl
  | timerFini =>
      simp only [timerMachine, timerStep] at hs
      split at hs
      · obtain ⟨-, rfl⟩ := locked_eq_some.mp hs
        exact h.frame rfl rfl rfl
      · cases hs

end ContextInv

/-- No freed timer is used and no timer is freed twice in a run in which no
timer is freed under a pending cancel and no failed call leaves its task
queued.  Nor does a task find its timer in a freed context. -/
theorem timer_lifecycle_safe (tasks : TaskPoller TimerTask) (timerMtx : Bool) (s : TimerState)
    (h : timerMachine.Leads (fun s a => Legal s a ∧ Quiet s a) (.start tasks timerMtx) s) :
    (s.mem.usedFreed = false ∧ s.mem.freedTwice = false) ∧
      s.ctxs.usedFreed = false ∧ s.ctxs.freedTwice = false := by
  have hinv : TimerInv s ∧ ContextInv s :=
    h.invariant (I := fun s => TimerInv s ∧ ContextInv s)
      (fun _ _ _ hi hc hs => ⟨hi.1.step hc.1 hc.2 hs, hi.2.step hi.1.linked hc.2.2 hs⟩)
      ⟨.start tasks timerMtx, .start tasks timerMtx⟩
  exact ⟨⟨hinv.1.sound.usedFreed, hinv.1.sound.freedTwice⟩, hinv.2.sound.usedFreed,
    hinv.2.sound.freedTwice⟩

/-- Thread 2 asks for a delay and cancels it.  The owner unlinks the timer, and
everything is torn down. -/
def cancelRun : List TimerAct :=
  [.doDelay otherThread true 5, .drain, .next true, .cancel 2 0, .cancelPost ⟨2, true, .ok⟩ true 0,
    .drain, .next true, .flush 100, .timerFini, .drain]

theorem timer_lifecycle_cancelled :
    ∃ s, timerMachine.run (.start ⟨true, Chain.empty, 1, 4, 0⟩ true) cancelRun = some s ∧
      (s.mem.usedFreed = false ∧ s.mem.freedTwice = false) ∧
        s.ctxs.usedFreed = false ∧ s.ctxs.freedTwice = false := by
  have hrun : (timerMachine.run (.start ⟨true, Chain.empty, 1, 4, 0⟩ true) cancelRun).isSome
      = true := by decide +kernel
  obtain ⟨s, hs⟩ := Option.isSome_iff_exists.mp hrun
  refine ⟨s, hs, timer_lifecycle_safe ⟨true, Chain.empty, 1, 4, 0⟩ true s ?_⟩
  exact Machine.leads_of_run cancelRun _ _ hs (by decide +kernel)

/-- The same, but the flush comes between the post of the cancel and its task. -/
def flushedEarly : List TimerAct :=
  [.doDelay otherThread true 5, .drain, .next true, .cancel 2 0, .cancelPost ⟨2, true, .ok⟩ true 0,
    .flush 100, .drain, .next true]

/-- `timer_cancel_async` reads a timer that the flush has freed. -/
theorem timer_used_after_free :
    ∃ s, timerMachine.Leads Legal (.start ⟨true, Chain.empty, 1, 4, 0⟩ true) s ∧
      s.mem.usedFreed = true := by
  have hrun : ((timerMachine.run (.start ⟨true, Chain.empty, 1, 4, 0⟩ true) flushedEarly).map
      fun s => s.mem.usedFreed) = some true := by decide +kernel
  obtain ⟨s, hs, hu⟩ := Option.map_eq_some_iff.mp hrun
  exact ⟨s, Machine.leads_of_run flushedEarly _ _ hs (by decide +kernel), hu⟩

/-- The wake of the cancel fails, and its task is run nevertheless. -/
def unwokenCancel : List TimerAct :=
  [.doDelay otherThread true 5, .drain, .next true, .cancel 2 0,
    .cancelPost ⟨2, true, .error⟩ true 0, .drain, .next true]

example : ((timerMachine.run (.start ⟨true, Chain.empty, 1, 4, 0⟩ true) unwokenCancel).map
    fun s => (s.ctxs.usedFreed, s.ctxs.freedTwice)) = some (true, true) := by
  decide +kernel

end Ztk.Poller
