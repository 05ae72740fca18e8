import Ztk.Err
import Ztk.Thread.ThreadPool

/-!
# Starting the thread pool

`ztk_thread_pool_start` and `join_workers` of `thread_pool.c`, on a pool that is not
started, together with the workers that it has created.  The pool comes from
`ztk_thread_pool_create` or `ztk_thread_pool_fini`, so its semaphore is 0 and its list
empty; submissions are refused until `started` is set.  Which allocation or which thread
is not to be had is decided for each worker.

Joining waits for workers to leave their loops, and nobody tells them to: the tokens are
posted by `ztk_thread_pool_fini`, which does nothing before `started` is set.
-/

namespace Ztk.Thread

open Ztk.Lib

/-! ## State -/

/-- What is not to be had for a worker. -/
inductive StartFailure where
  /-- The `calloc` of its context. -/
  | context
  /-- Its thread, in `ztk_thread_create_ex`. -/
  | thread
deriving DecidableEq

/-- What `ztk_thread_pool_start` returns then. -/
def StartFailure.err : StartFailure → Err
  | .context => .nomem
  | .thread => .platform

/-- A thread in `pool_worker`. -/
inductive PoolThread where
  /-- Before its loop. -/
  | entering
  | looping (w : Worker)
deriving DecidableEq

inductive StartPc where
  /-- About to create a worker. -/
  | creating (i : Nat)
  /-- In `join_workers(pool, created)`, at worker `i`. -/
  | joining (created i : Nat) (err : Err)
  | returned (err : Err)
deriving DecidableEq

/-- `ztk_thread_pool` while it is started. -/
structure PoolStart where
  sem : Nat
  queue : List Nat
  /-- The threads of `workers`, where it is not null. -/
  workers : Nat → Option PoolThread
  started : Bool
  pc : StartPc

inductive StartAct where
  | create
  | enter (i : Nat)
  | wait (i : Nat)
  | pop (i : Nat)
  | finish (i : Nat)
  | join

namespace PoolStart

/-- When `ztk_thread_pool_start` is called. -/
def fresh : PoolStart where
  sem := 0
  queue := []
  workers _ := none
  started := false
  pc := .creating 0

/-! ## The functions of the source -/

def setThread (s : PoolStart) (i : Nat) (t : Option PoolThread) : PoolStart :=
  { s with workers := Function.update s.workers i t }

/-- One iteration of the loop of `ztk_thread_pool_start`, or its end. -/
def createWorker (n : Nat) (fails : Nat → Option StartFailure) (s : PoolStart) (i : Nat) :
    PoolStart :=
  if i < n then
    match fails i with
    | none => { s.setThread i (some .entering) with pc := .creating (i + 1) }
    | some f => { s with pc := .joining i 0 f.err }
  else { s with started := true, pc := .returned .ok }

/-- One iteration of the loop of `join_workers`, or its end. -/
def joinWorker (s : PoolStart) (created i : Nat) (err : Err) : Option PoolStart :=
  if i < created then
    match s.workers i with
    | none => some { s with pc := .joining created (i + 1) err }
    | some (.looping .exited) =>
        some { s.setThread i none with pc := .joining created (i + 1) err }
    | some _ => none
  else some { s with pc := .returned err }

/-- `pop_task` by a worker, which runs the task or leaves its loop. -/
def popBy (s : PoolStart) (i : Nat) : PoolStart :=
  match ThreadPool.popTask s.queue with
  | none => s.setThread i (some (.looping .exited))
  | some (t, ts) => { s.setThread i (some (.looping (.running [t] none))) with queue := ts }

/-- A step of the starter or of a worker. -/
def step (n : Nat) (fails : Nat → Option StartFailure) (s : PoolStart) :
    StartAct → Option PoolStart
  | .create =>
      match s.pc with
      | .creating i => some (s.createWorker n fails i)
      | _ => none
  | .enter i =>
      if s.workers i = some .entering then some (s.setThread i (some (.looping .waiting))) else none
  | .wait i =>
      if s.workers i = some (.looping .waiting) ∧ 0 < s.sem then
        some { s.setThread i (some (.looping .awake)) with sem := s.sem - 1 }
      else none
  | .pop i => if s.workers i = some (.looping .awake) then some (s.popBy i) else none
  | .finish i =>
      match s.workers i with
      | some (.looping (.running [_] none)) => some (s.setThread i (some (.looping .waiting)))
      | _ => none
  | .join =>
      match s.pc with
      | .joining created i err => s.joinWorker created i err
      | _ => none

/-- The starter waits for a worker that waits for a token, and nobody can go on. -/
structure Hangs (n : Nat) (fails : Nat → Option StartFailure) (s : PoolStart) : Prop where
  joins : ∃ created i err, s.pc = .joining created i err ∧ i < created ∧
    s.workers i = some (.looping .waiting)
  noToken : s.sem = 0
  stuck : ∀ a, s.step n fails a = none

end PoolStart

def poolStartMachine (n : Nat) (fails : Nat → Option StartFailure) :
    Machine PoolStart StartAct := ⟨PoolStart.step n fails⟩

namespace PoolStart

variable {n : Nat} {fails : Nat → Option StartFailure} {s s' : PoolStart} {a : StartAct} {k : Nat}

/-! ## What the starter has done -/

/-- The first worker that cannot be created. -/
def FirstFailure (n : Nat) (fails : Nat → Option StartFailure) (k : Nat) : Prop :=
  k < n ∧ fails k ≠ none ∧ ∀ j < k, fails j = none

/-- The first `k` workers are there, on their way to `ztk_sem_wait` or in it. -/
def Workers (s : PoolStart) (k : Nat) : Prop :=
  (∀ i < k, s.workers i = some .entering ∨ s.workers i = some (.looping .waiting)) ∧
    ∀ i, k ≤ i → s.workers i = none

/-- Where the starter is, and the workers that it has created. -/
def Progress (n : Nat) (fails : Nat → Option StartFailure) (s : PoolStart) : StartPc → Prop
  | .creating k => k ≤ n ∧ (∀ j < k, fails j = none) ∧ s.Workers k
  | .joining k i err => FirstFailure n fails k ∧ i = 0 ∧ err ≠ .ok ∧ s.Workers k
  | .returned err =>
      if err = .ok then (∀ j < n, fails j = none) ∧ s.Workers n ∧ s.started = true
      else FirstFailure n fails 0 ∧ s.Workers 0

/-- No token is there and no worker has left its loop. -/
structure Quiet (n : Nat) (fails : Nat → Option StartFailure) (s : PoolStart) : Prop where
  sem : s.sem = 0
  queue : s.queue = []
  progress : Progress n fails s s.pc

theorem Workers.cases (h : s.Workers k) {i : Nat} {t : PoolThread} (hi : s.workers i = some t) :
    t = .entering ∨ t = .looping .waiting := by
  by_cases hik : i < k
  · rcases h.1 i hik with he | he
    · exact Or.inl (Option.some.inj (hi.symm.trans he))
    · exact Or.inr (Option.some.inj (hi.symm.trans he))
  · rw [h.2 i (Nat.not_lt.mp hik)] at hi
    cases hi

theorem Workers.lt (h : s.Workers k) {i : Nat} {t : PoolThread} (hi : s.workers i = some t) :
    i < k := by
  by_contra hik
  rw [h.2 i (Nat.not_lt.mp hik)] at hi
  cases hi

theorem Workers.enter (h : s.Workers k) {i : Nat} (hi : i < k) :
    (s.setThread i (some (.looping .waiting))).Workers k := by
  refine ⟨fun j hj => ?_, fun j hj => ?_⟩
  · by_cases hji : j = i
    · subst hji
      exact Or.inr (Function.update_self ..)
    · simp only [setThread, Function.update_of_ne hji]
      exact h.1 j hj
  · simp only [setThread, Function.update_of_ne (show j ≠ i by omega)]
    exact h.2 j hj

theorem Workers.create (h : s.Workers k) : (s.setThread k (some .entering)).Workers (k + 1) := by
  refine ⟨fun j hj => ?_, fun j hj => ?_⟩
  · by_cases hjk : j = k
    · subst hjk
      exact Or.inl (Function.update_self ..)
    · simp only [setThread, Function.update_of_ne hjk]
      exact h.1 j (by omega)
  · simp only [setThread, Function.update_of_ne (show j ≠ k by omega)]
    exact h.2 j (by omega)

/-- In every state the workers are some of those that may have been created. -/
theorem Progress.workers {pc : StartPc} (h : Progress n fails s pc) : ∃ k, s.Workers k := by
  cases pc with
  | creating k => exact ⟨k, h.2.2⟩
  | joining k i err => exact ⟨k, h.2.2.2⟩
  | returned err =>
      rw [Progress] at h
      split at h
      · exact ⟨n, h.2.1⟩
      · exact ⟨0, h.2⟩

/-- What matters of a state besides where the starter is. -/
theorem Progress.enter {pc : StartPc} (h : Progress n fails s pc) {i : Nat}
    (hi : s.workers i = some .entering) :
    Progress n fails (s.setThread i (some (.looping .waiting))) pc := by
  cases pc with
  | creating k => exact ⟨h.1, h.2.1, h.2.2.enter (h.2.2.lt hi)⟩
  | joining k j err => exact ⟨h.1, h.2.1, h.2.2.1, h.2.2.2.enter (h.2.2.2.lt hi)⟩
  | returned err =>
      rw [Progress] at h ⊢
      split at h
      · next hok =>
          rw [if_pos hok]
          exact ⟨h.1, h.2.1.enter (h.2.1.lt hi), h.2.2⟩
      · exact absurd (h.2.lt hi) (Nat.not_lt_zero i)

theorem Quiet.create (h : s.Quiet n fails) (hpc : s.pc = .creating k) :
    (s.createWorker n fails k).Quiet n fails := by
  obtain ⟨hsem, hqueue, hprog⟩ := h
  rw [hpc] at hprog
  obtain ⟨hle, hnone, hw⟩ := hprog
  simp only [createWorker]
  split
  · next hlt =>
      split
      · next hk =>
          refine ⟨hsem, hqueue, hlt, fun j hj => ?_, hw.create⟩
          rcases Nat.lt_succ_iff_lt_or_eq.mp hj with hj | rfl
          · exact hnone j hj
          · exact hk
      · next f hk =>
          refine ⟨hsem, hqueue, ⟨hlt, ?_, hnone⟩, rfl, ?_, hw⟩
          · rw [hk]
            exact Option.some_ne_none f
          · cases f with
            | context => exact Err.noConfusion
            | thread => exact Err.noConfusion
  · next hge =>
      have hkn : k = n := Nat.le_antisymm hle (Nat.not_lt.mp hge)
      subst hkn
      exact ⟨hsem, hqueue, hnone, hw, rfl⟩

/-- The first worker to join is in `ztk_sem_wait` or about to be, so joining ends only
where there is none. -/
theorem Quiet.join (h : s.Quiet n fails) {i : Nat} {err : Err} (hpc : s.pc = .joining k i err)
    (hs : s.joinWorker k i err = some s') : s'.Quiet n fails := by
  obtain ⟨hsem, hqueue, hprog⟩ := h
  rw [hpc] at hprog
  obtain ⟨hfirst, rfl, herr, hw⟩ := hprog
  simp only [joinWorker] at hs
  split at hs
  · next hk =>
      rcases hw.1 0 hk with he | he
      · rw [he] at hs
        cases hs
      · rw [he] at hs
        cases hs
  · next hk =>
      have hk0 : k = 0 := Nat.le_zero.mp (Nat.not_lt.mp hk)
      subst hk0
      cases hs
      refine ⟨hsem, hqueue, ?_⟩
      simp only [Progress, if_neg herr]
      exact ⟨hfirst, hw⟩

theorem Quiet.step (h : s.Quiet n fails) (hs : s.step n fails a = some s') :
    s'.Quiet n fails := by
  obtain ⟨k, hw⟩ := h.progress.workers
  cases a with
  | create =>
      rw [PoolStart.step] at hs
      split at hs
      · next hpc =>
          cases hs
          exact h.create hpc
      · cases hs
  | enter i =>
      rw [PoolStart.step, Option.ite_none_right_eq_some] at hs
      obtain ⟨hi, hs⟩ := hs
      cases hs
      exact ⟨h.sem, h.queue, h.progress.enter hi⟩
  | wait i =>
      rw [PoolStart.step, Option.ite_none_right_eq_some] at hs
      have hsem := hs.1.2
      rw [h.sem] at hsem
      cases hsem
  | pop i =>
      rw [PoolStart.step, Option.ite_none_right_eq_some] at hs
      rcases hw.cases hs.1 with ht | ht
      · cases ht
      · cases ht
  | finish i =>
      rw [PoolStart.step] at hs
      split at hs
      · next hi =>
          rcases hw.cases hi with ht | ht
          · cases ht
          · cases ht
      · cases hs
  | join =>
      rw [PoolStart.step] at hs
      split at hs
      · next hpc => exact h.join hpc hs
      · cases hs

theorem fresh_quiet : fresh.Quiet n fails :=
  ⟨rfl, rfl, Nat.zero_le n, fun _ hj => absurd hj (Nat.not_lt_zero _),
    fun _ hj => absurd hj (Nat.not_lt_zero _), fun _ _ => rfl⟩

theorem quiet_of_leads (h : (poolStartMachine n fails).Leads Machine.Any fresh s) :
    s.Quiet n fails :=
  h.invariant (I := Quiet n fails) (fun _ _ _ hi _ hs => hi.step hs) fresh_quiet

/-! ## The run that hangs -/

/-- After `k` workers, all of them in `ztk_sem_wait`. -/
def waitingFor (k : Nat) (pc : StartPc) : PoolStart where
  sem := 0
  queue := []
  workers i := if i < k then some (.looping .waiting) else none
  started := false
  pc := pc

theorem waitingFor_enter :
    ((waitingFor k (.creating (k + 1))).setThread k (some .entering)).setThread k
      (some (.looping .waiting)) = waitingFor (k + 1) (.creating (k + 1)) := by
  simp only [waitingFor, setThread, Function.update_idem, PoolStart.mk.injEq, true_and, and_true]
  funext j
  by_cases hj : j = k
  · subst hj
    rw [Function.update_self, if_pos (Nat.lt_succ_self j)]
  · rw [Function.update_of_ne hj]
    have : j < k ↔ j < k + 1 := by omega
    simp only [this]

/-- Each worker goes to `ztk_sem_wait` before the next one is created. -/
theorem leads_waitingFor (hnone : ∀ j < k, fails j = none) (hk : k ≤ n) :
    (poolStartMachine n fails).Leads Machine.Any fresh (waitingFor k (.creating k)) := by
  induction k with
  | zero => exact .refl
  | succ k ih =>
      have hrun := ih (fun j hj => hnone j (Nat.lt_succ_of_lt hj)) (Nat.le_of_succ_le hk)
      have hcreate : (poolStartMachine n fails).step (waitingFor k (.creating k)) .create =
          some ((waitingFor k (.creating (k + 1))).setThread k (some .entering)) := by
        show some ((waitingFor k (.creating k)).createWorker n fails k) = _
        rw [createWorker, if_pos (Nat.lt_of_succ_le hk), hnone k (Nat.lt_succ_self k)]
        rfl
      refine (hrun.tail trivial hcreate).tail (a := .enter k) trivial ?_
      exact (if_pos (Function.update_self ..)).trans (congrArg some waitingFor_enter)

theorem hangs_waitingFor (hk : 0 < k) (err : Err) :
    (waitingFor k (.joining k 0 err)).Hangs n fails := by
  have hw : (waitingFor k (.joining k 0 err)).workers 0 = some (.looping .waiting) := if_pos hk
  refine ⟨⟨k, 0, err, rfl, hk, hw⟩, rfl, fun a => ?_⟩
  have hne : ∀ i t, t ≠ .looping .waiting →
      (waitingFor k (.joining k 0 err)).workers i ≠ some t := by
    intro i t ht hi
    simp only [waitingFor, Option.ite_none_right_eq_some, Option.some.injEq] at hi
    exact ht hi.2.symm
  cases a with
  | create => rfl
  | enter i => exact if_neg (hne i _ PoolThread.noConfusion)
  | wait i => exact if_neg fun h => absurd h.2 (Nat.lt_irrefl 0)
  | pop i => exact if_neg (hne i _ (by decide))
  | finish i =>
      rw [PoolStart.step]
      split
      · next hi => exact absurd hi (hne i _ (by simp))
      · rfl
  | join =>
      show joinWorker _ k 0 err = none
      rw [joinWorker, if_pos hk, hw]

end PoolStart

open PoolStart

/-- No run of `ztk_thread_pool_start` and its workers hangs exactly when the first worker
that cannot be created, if there is one, is the first of all. -/
theorem thread_pool_start_hangs_iff (n : Nat) (fails : Nat → Option StartFailure) :
    (∀ s, (poolStartMachine n fails).Leads Machine.Any fresh s → ¬ s.Hangs n fails) ↔
      ∀ k, FirstFailure n fails k → k = 0 := by
  constructor
  · intro h k hk
    by_contra hpos
    have hpos : 0 < k := Nat.pos_of_ne_zero hpos
    obtain ⟨f, hf⟩ := Option.ne_none_iff_exists'.mp hk.2.1
    refine h _ ?_ (hangs_waitingFor hpos f.err)
    refine (leads_waitingFor hk.2.2 hk.1.le).tail (a := .create) trivial ?_
    show some ((waitingFor k (.creating k)).createWorker n fails k) = _
    rw [createWorker, if_pos hk.1, hf]
    rfl
  · intro h s hs hh
    obtain ⟨created, i, err, hpc, hi, -⟩ := hh.joins
    have hprog := (quiet_of_leads hs).progress
    rw [hpc] at hprog
    rw [h created hprog.1] at hi
    exact absurd hi (Nat.not_lt_zero i)

/-- The second of two threads is not to be had while the first waits for a token. -/
theorem thread_pool_start_second_fails :
    (poolStartMachine 2 fun i => if i = 1 then some .thread else none).Leads Machine.Any fresh
      (waitingFor 1 (.joining 1 0 .platform)) ∧
      (waitingFor 1 (.joining 1 0 .platform)).Hangs 2
        (fun i => if i = 1 then some .thread else none) :=
  ⟨(leads_waitingFor (k := 1) (by decide) (by decide)).tail (a := .create) trivial rfl,
    hangs_waitingFor Nat.one_pos _⟩

end Ztk.Thread
