import Ztk.Poller.TimerEarly

/-!
# What a handle of `ztk_poller_do_delay` stands for

A returned timer should be on its way: in the array, or in a queued insertion that puts it
there.  `ztk_poller_timer_insert_locked` discards the result of `timer_heap_push`, so where
the array cannot grow the timer is nowhere, at once on the owner, later for a queued
insertion.  A call that links its insertion and then cannot wake the poller returns null and
leaves the insertion behind.

The machine is the one of all steps, with every failure of an allocation.
-/

namespace Ztk.Poller

open Ztk.Lib TimerHeap

/-! ## The promise, step by step -/

/-- The timer is in the array at the deadline, or its insertion is queued. -/
def Scheduled (s : TimerState) (t d : Nat) : Prop :=
  (s.heap.Mem t ∧ (s.heap.timer t).deadlineMs = d) ∨ .delayInsert t d ∈ s.pendingTasks

/-- A handle returned is scheduled for the time asked for; without one, nothing is left of
the call in the array or the queue. -/
def CallKept (s : TimerState) (env : DelayEnv) (cb : Bool) (delayMs : Nat) : Prop :=
  match pollerDoDelay s env cb delayMs with
  | (some t, u) => Scheduled u t (env.nowMs + delayMs)
  | (none, u) => u.heap.members = s.heap.members ∧ u.pendingTasks = s.pendingTasks

/-- An insertion that runs puts its timer into the array. -/
def InsertKept (s : TimerState) (realloc : Bool) : Prop :=
  ∀ addr t d rest, s.list = (addr, .delayInsert t d) :: rest →
    (({ s with list := rest }.runTask realloc (.delayInsert t d)).heap.Mem t ∧
      (({ s with list := rest }.runTask realloc (.delayInsert t d)).heap.timer t).deadlineMs = d)

/-- A queued insertion stays queued until it runs. -/
def QueueKept (s : TimerState) (a : TimerAct) : Prop :=
  ∀ u, timerMachine.step s a = some u → ∀ t d, .delayInsert t d ∈ s.pendingTasks →
    .delayInsert t d ∈ u.pendingTasks ∨
      ∃ realloc addr rest, a = .next realloc ∧ s.list = (addr, .delayInsert t d) :: rest

/-- What `ztk_poller_do_delay` and the tasks it posts owe to a handle in one step. -/
def HandleKept (s : TimerState) (a : TimerAct) : Prop :=
  QueueKept s a ∧
    match a with
    | .doDelay env cb delayMs => CallKept s env cb delayMs
    | .next realloc => InsertKept s realloc
    | _ => True

/-- The array has room for one more timer, or can grow. -/
def Room (s : TimerState) (realloc : Bool) : Prop := realloc = true ∨ s.heap.count < s.heap.cap

/-- The call finds room on the owner, can wake the poller elsewhere, and forms no sum from
2^64 on. -/
def CallFits (s : TimerState) (env : DelayEnv) (cb : Bool) (delayMs : Nat) : Prop :=
  delayTaken s env cb →
    (isOwner s.tasks env.self = true → Room s env.realloc ∧ env.nowMs + delayMs < 2 ^ 64) ∧
    (delayLinks s env → pollerWake s.tasks.wakeW env.write = .ok ∧
      env.nowMs + delayMs < 2 ^ 64)

/-- The insertion at the head of the list, if any, finds room. -/
def InsertFits (s : TimerState) (realloc : Bool) : Prop :=
  ∀ addr t d rest, s.list = (addr, .delayInsert t d) :: rest → Room s realloc

/-- The conditions of the two kinds of steps. -/
def HandleFits (s : TimerState) : TimerAct → Prop
  | .doDelay env cb delayMs => CallFits s env cb delayMs
  | .next realloc => InsertFits s realloc
  | _ => True

/-! ## Insertion with and without room -/

/-- Without room a push changes nothing. -/
theorem timerHeapPush_refused {realloc : Bool} {p : TimerHeap} {t : Nat}
    (h : ¬ (realloc = true ∨ p.count < p.cap)) : timerHeapPush realloc p t = (false, p) := by
  obtain ⟨hr, hfull⟩ := not_or.mp h
  have hneed : ¬ p.count + 1 ≤ p.cap := hfull
  simp [timerHeapPush, timerHeapReserve, hr, hneed]

/-- A timer without an index comes into the array exactly where there is room. -/
theorem insertLocked_mem_iff (realloc : Bool) {p : TimerHeap} {t : Nat} (d : Nat)
    (h : p.Indexed) (ht : p.Loose t) :
    (pollerTimerInsertLocked realloc p t d).Mem t ↔ realloc = true ∨ p.count < p.cap := by
  refine ⟨fun hm => ?_, insertLocked_mem d h ht.placed⟩
  by_contra hfull
  obtain ⟨q, hq, -, hnm, hcase⟩ := insertLocked_taken (d := d) h ht.placed
  have hqp : q = p.setDeadline t d := by
    rcases hcase with ⟨-, hqp⟩ | ⟨hp, -⟩
    · exact hqp
    · exact absurd hp (h.not_mem ht)
  have hrefused : timerHeapPush realloc q t = (false, q) := by
    refine timerHeapPush_refused ?_
    rw [hqp]
    exact hfull
  rw [hq realloc, hrefused] at hm
  exact hnm hm

theorem insertLocked_deadline (realloc : Bool) {p : TimerHeap} {t : Nat} (d : Nat)
    (h : p.Indexed) (ht : p.Loose t) :
    ((pollerTimerInsertLocked realloc p t d).timer t).deadlineMs = d := by
  rw [(insertLocked_inserted realloc (d := d) h ht.placed).deadline t, if_pos rfl]

/-! ## The steps -/

section
variable {due : Nat → Nat} {s u : TimerState}

/-- A timer that the owner inserts at once. -/
theorem scheduled_owner (h : Dates due s) (realloc : Bool) (x : Nat) :
    Scheduled (s.newTimer.timerInsertLocked realloc s.next (x % 2 ^ 64)) s.next x ↔
      Room s realloc ∧ x < 2 ^ 64 := by
  have hnone : ∀ d, .delayInsert s.next d ∉ s.pendingTasks := h.dated.next_nowhere.2.1
  have hcalloc := h.dated.calloc
  have hloose : (s.heap.calloc s.next).Loose s.next := Dated.calloc_loose _ _ _ (.inr rfl)
  have hmem := insertLocked_mem_iff realloc (x % 2 ^ 64) hcalloc.indexed hloose
  have hdl := insertLocked_deadline realloc (x % 2 ^ 64) hcalloc.indexed hloose
  have hkept : Scheduled (s.newTimer.timerInsertLocked realloc s.next (x % 2 ^ 64)) s.next x ↔
      Room s realloc ∧ x % 2 ^ 64 = x :=
    (or_iff_left (hnone x)).trans (and_congr hmem (Eq.congr_left hdl))
  rw [hkept, Nat.mod_eq_iff_lt (Nat.two_pow_pos 64).ne']

/-- A timer whose insertion is queued. -/
theorem scheduled_queued (h : Dates due s) (x : Nat) :
    Scheduled { s.newTimer with
      tasks := asyncPush s.tasks true (.delayInsert s.next (x % 2 ^ 64)) } s.next x ↔
      x < 2 ^ 64 := by
  have hnone := h.dated.next_nowhere.2.1
  have hcalloc := h.dated.calloc
  have hloose : (s.heap.calloc s.next).Loose s.next := Dated.calloc_loose _ _ _ (.inr rfl)
  have htask : TimerTask.delayInsert s.next x ∈
      .delayInsert s.next (x % 2 ^ 64) :: s.pendingTasks ↔ x % 2 ^ 64 = x := by
    rw [List.mem_cons, or_iff_left (hnone x), TimerTask.delayInsert.injEq]
    exact ⟨fun he => he.2.symm, fun he => ⟨rfl, he.symm⟩⟩
  rw [Nat.mod_eq_iff_lt (Nat.two_pow_pos 64).ne'] at htask
  have hpush := pending_push h.linked true (.delayInsert s.next (x % 2 ^ 64))
  exact (or_iff_right fun hx => hcalloc.indexed.not_mem hloose hx.1).trans
    (hpush.mem_iff.trans htask)

theorem callKept_iff (h : Dates due s) (env : DelayEnv) (cb : Bool) (delayMs : Nat) :
    CallKept s env cb delayMs ↔ CallFits s env cb delayMs := by
  have hd := pollerDoDelay_delayed s env cb delayMs
  rw [CallKept, CallFits]
  generalize env.nowMs + delayMs = x at hd ⊢
  generalize pollerDoDelay s env cb delayMs = r at hd ⊢
  obtain ⟨timer, v⟩ := r
  cases hd with
  | refused hn => exact iff_of_true ⟨rfl, rfl⟩ fun ht => absurd ht hn
  | owner ht ho =>
      have hlinks : ¬ delayLinks s env := by
        rintro ⟨ho', -⟩
        rw [ho] at ho'
        cases ho'
      exact (scheduled_owner h env.realloc x).trans
        ⟨fun hr _ => ⟨fun _ => hr, fun hl => absurd hl hlinks⟩, fun hr => (hr ht).1 ho⟩
  | noctx ht ho hl =>
      refine iff_of_true ⟨rfl, rfl⟩ fun _ => ⟨fun ho' => ?_, fun hl' => absurd hl' hl⟩
      rw [ho] at ho'
      cases ho'
  | nomem ht ho hl =>
      refine iff_of_true ⟨rfl, rfl⟩ fun _ => ⟨fun ho' => ?_, fun hl' => absurd hl' hl⟩
      rw [ho] at ho'
      cases ho'
  | queued ht hl hw =>
      refine (scheduled_queued h x).trans
        ⟨fun hx _ => ⟨fun ho => ?_, fun _ => ⟨hw, hx⟩⟩, fun hr => ((hr ht).2 hl).2⟩
      rw [hl.1] at ho
      cases ho
  | unwoken ht hl hw =>
      -- the task that was linked makes the queue longer
      refine iff_of_false (fun hx => ?_) fun hr => hw ((hr ht).2 hl).1
      have hpush := pending_push h.linked true (.delayInsert s.next (x % 2 ^ 64))
      have hsame := congrArg List.length hx.2
      exact absurd (hsame.symm.trans hpush.length_eq) (by simp)

/-- An insertion puts its timer into the array exactly where there is room. -/
theorem insertKept_iff (h : Dates due s) (realloc : Bool) :
    InsertKept s realloc ↔ InsertFits s realloc := by
  refine forall_congr' fun addr => forall_congr' fun t => forall_congr' fun d =>
    forall_congr' fun rest => imp_congr_right fun hl => ?_
  have hd := h.dated
  rw [pending_head hl] at hd
  obtain ⟨hrest, -, hloose, -⟩ := hd.unqueue
  have hmem := insertLocked_mem_iff realloc d hrest.indexed hloose
  have hdl := insertLocked_deadline realloc d hrest.indexed hloose
  exact (and_iff_left hdl).trans hmem

/-- No step loses a queued insertion. -/
theorem queueKept (h : Dates due s) (a : TimerAct) : QueueKept s a := by
  intro u hs t d hm
  cases step_tasks h.linked hs with
  | same he => exact Or.inl (he ▸ hm)
  | posted task hp => exact Or.inl (hp.mem_iff.mpr (List.mem_cons_of_mem _ hm))
  | @ran realloc addr task rest ha hl hp =>
      rw [hp] at hm
      rcases List.mem_cons.mp hm with he | hrest
      · exact Or.inr ⟨realloc, addr, rest, ha, by rw [he]; exact hl⟩
      · exact Or.inl hrest

/-- What one step owes and what it needs. -/
theorem handleKept_iff (h : Dates due s) (a : TimerAct) : HandleKept s a ↔ HandleFits s a := by
  refine (and_iff_right (queueKept h a)).trans ?_
  cases a with
  | doDelay env cb delayMs => exact callKept_iff h env cb delayMs
  | next realloc => exact insertKept_iff h realloc
  | bind | cancel | cancelPost | drain | flush | cbReturn | timerFini => exact Iff.rfl

end

/-- The handles of a run are kept exactly when every call and every insertion finds room for
its timer, every call that links its insertion wakes the poller, and no sum wraps. -/
theorem handles_scheduled_iff (tasks : TaskPoller TimerTask) (timerMtx : Bool)
    (as : List TimerAct) :
    timerMachine.RunMeets HandleKept (.start tasks timerMtx) as ↔
      timerMachine.RunMeets HandleFits (.start tasks timerMtx) as :=
  Machine.runMeets_iff (M := timerMachine) (J := fun s => ∃ due, Dates due s)
    (fun _ _ _ ⟨_, h⟩ _ hs => ⟨_, h.step hs⟩) (fun _ a ⟨_, h⟩ => handleKept_iff h a) as _
    ⟨fun _ => 0, Dates.start _ tasks timerMtx⟩

/-- A call of the owner that finds memory for the timer and none for the array. -/
def fullCall : DelayEnv := { ownerCall 10 with realloc := false }

/-- A call of thread 2 whose write to the wake pipe fails. -/
def unwokenCall : DelayEnv := ⟨⟨2, true, .error⟩, 10, true, true, true⟩

/-- The owner gets a handle to a timer that is nowhere, and thread 2 gets none while its
insertion stays queued. -/
theorem handle_of_no_timer :
    (∃ u, pollerDoDelay (.start ownedTasks true) fullCall true 5 = (some 0, u) ∧
      u.heap.members = [] ∧ u.pendingTasks = []) ∧
    ∃ u, pollerDoDelay (.start ownedTasks true) unwokenCall true 5 = (none, u) ∧
      u.pendingTasks = [.delayInsert 0 15] :=
  ⟨⟨_, rfl, by decide, by decide⟩, ⟨_, rfl, by decide⟩⟩

end Ztk.Poller
