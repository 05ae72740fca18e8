import Ztk.Lib.Machine

/-!
# The threads of a poller pool

`ztk_poller_pool_start`, `ztk_poller_pool_stop` and `ztk_poller_pool_destroy` of
`poller_pool.c` with the worker threads, the local buffer pools and the deferred
releases that are queued on the pollers.  Slot `i` has the `i`-th poller.

One thread calls the functions of the pool, one after the other, and the workers go
on between its steps.  A worker leaves `ztk_poller_run` when it sees the stop flag of
its slot, or when a poll fails.  `ztk_thread_create_ex` may fail for any slot.

Of the tasks of a poller only the `pool_release_deferred` are kept, each as the name
of its buffer pool.  The blocks are left out.

A start that fails calls `ztk_poller_pool_stop`, which finds `started` not set and
returns at once.
-/

namespace Ztk.Poller

open Ztk.Lib

/-! ## State -/

/-- Where a thread is in `pool_worker`. -/
inductive WorkerPhase where
  | created
  | looping
  | left
deriving DecidableEq

/-- A thread that runs `pool_worker`. -/
structure PoolWorker where
  slot : Nat
  phase : WorkerPhase
  /-- What `ztk_poller_drain_tasks` has unlinked and not run yet. -/
  list : List Nat

/-- The thread has not come back from `ztk_poller_run`. -/
def PoolWorker.running (w : PoolWorker) : Bool := decide (w.phase ≠ .left)

/-- `ztk_poller_pool_slot`, without the poller. -/
structure PoolSlot where
  thread : Option Nat
  stop : Bool
  bufPool : Option Nat

/-- Who has destroyed a buffer pool: the caller with `ztk_poller_pool_detach_buf_pools`, or
`ztk_poller_pool_destroy`.  Before the first it is for the caller to drain the queues. -/
inductive BufLife where
  | live
  | detached
  | destroyed
deriving DecidableEq

/-- `ztk_buf_pool`, without its freelists. -/
structure LocalPool where
  threadSafe : Bool
  owner : Option Nat
  life : BufLife

/-- Who has called `ztk_poller_pool_stop`.  A start tells the number of the first
thread that it could create. -/
inductive StopCaller where
  | stop
  | start (first : Nat)
  | destroy
deriving DecidableEq

/-- Where the thread is that calls the functions of the pool.  `idle (some first)`:
a start has returned `ZTK_ERR_PLATFORM`. -/
inductive PoolPc where
  | idle (failed : Option Nat)
  | starting (i first : Nat)
  | setting (caller : StopCaller) (i : Nat)
  | joining (caller : StopCaller) (i : Nat)
  | detaching (i : Nat)
  | destroying (i : Nat)
  | gone
deriving DecidableEq

/-- `ztk_poller_pool` with its threads, pollers and buffer pools. -/
structure PollerPool where
  count : Nat
  started : Bool
  slots : Nat → PoolSlot
  /-- The deferred releases in the queue of a poller. -/
  tasks : Nat → List Nat
  /-- `owner_thread` of a poller. -/
  ownerThread : Nat → Option Nat
  workers : Nat → Option PoolWorker
  nextWorker : Nat
  bufs : Nat → Option LocalPool
  nextBuf : Nat
  pc : PoolPc
  /-- A deferred release has run on a buffer pool that `ztk_poller_pool_destroy` had
  destroyed.  Those that the caller left behind when it detached the pools are not counted. -/
  ranDestroyed : Bool

/-- The functions of the pool.  `alloc i` says whether there is memory for the buffer
pool of slot `i`. -/
inductive PoolCall where
  | start
  | stop
  | destroy
  | attachBufPools (threadSafe : Bool) (alloc : Nat → Bool)
  | detachBufPools

inductive PoolAct where
  | call (c : PoolCall)
  | create (ok : Bool)
  | advance
  | bind (t : Nat)
  | drain (t : Nat)
  | runTask (t : Nat)
  | leave (t : Nat) (pollFailed : Bool)
  | release (k self : Nat) (posted : Bool)

namespace PollerPool

/-- `ztk_poller_pool_create`. -/
def create (count : Nat) : PollerPool where
  count := count
  started := false
  slots _ := ⟨none, false, none⟩
  tasks _ := []
  ownerThread _ := none
  workers _ := none
  nextWorker := 0
  bufs _ := none
  nextBuf := 0
  pc := .idle none
  ranDestroyed := false

/-! ## The functions of the source -/

def goto (s : PollerPool) (pc : PoolPc) : PollerPool := { s with pc := pc }

def setSlot (s : PollerPool) (i : Nat) (slot : PoolSlot) : PollerPool :=
  { s with slots := Function.update s.slots i slot }

def setWorker (s : PollerPool) (t : Nat) (w : PoolWorker) : PollerPool :=
  { s with workers := Function.update s.workers t (some w) }

/-- What follows `ztk_poller_pool_stop`. -/
def afterStop (s : PollerPool) : StopCaller → PollerPool
  | .stop => s.goto (.idle none)
  | .start first => s.goto (.idle (some first))
  | .destroy => s.goto (.detaching 0)

/-- `ztk_poller_pool_stop`, up to its loops. -/
def poolStop (s : PollerPool) (caller : StopCaller) : PollerPool :=
  if s.started then s.goto (.setting caller 0) else s.afterStop caller

/-- The thread of slot `i` is created. -/
def spawn (s : PollerPool) (i : Nat) : PollerPool :=
  { s.setSlot i { s.slots i with stop := false, thread := some s.nextWorker } with
    workers := Function.update s.workers s.nextWorker (some ⟨i, .created, []⟩)
    nextWorker := s.nextWorker + 1 }

/-- `ztk_buf_pool_create` and `ztk_poller_attach_buf_pool` for slot `i`. -/
def attachSlot (s : PollerPool) (threadSafe : Bool) (i : Nat) : PollerPool :=
  { s.setSlot i { s.slots i with bufPool := some s.nextBuf } with
    bufs := Function.update s.bufs s.nextBuf (some ⟨threadSafe, some i, .live⟩)
    nextBuf := s.nextBuf + 1 }

/-- The body of the loop of `ztk_poller_pool_detach_buf_pools`. -/
def detachSlot (life : BufLife) (s : PollerPool) (i : Nat) : PollerPool :=
  match (s.slots i).bufPool with
  | none => s
  | some k =>
      { s.setSlot i { s.slots i with bufPool := none } with
        bufs := Function.update s.bufs k
          ((s.bufs k).map fun b => { b with owner := none, life := life }) }

/-- `ztk_poller_pool_detach_buf_pools`, not called from `ztk_poller_pool_destroy`. -/
def detachBufPools (s : PollerPool) : PollerPool :=
  (List.range s.count).foldl (detachSlot .detached) s

/-- The loop of `ztk_poller_pool_attach_buf_pools`. -/
def attachBufPools (threadSafe : Bool) (alloc : Nat → Bool) (s : PollerPool) :
    List Nat → PollerPool
  | [] => s
  | i :: is =>
      if (s.slots i).bufPool.isSome then attachBufPools threadSafe alloc s is
      else if alloc i then attachBufPools threadSafe alloc (s.attachSlot threadSafe i) is
      else s.detachBufPools

/-- The buffer pool was destroyed by `ztk_poller_pool_destroy`. -/
def isDestroyed (s : PollerPool) (k : Nat) : Bool :=
  match s.bufs k with
  | none => false
  | some b => decide (b.life = .destroyed)

/-- `ztk_poller_destroy` of the poller of slot `i`, which runs the tasks that are left. -/
def destroyPoller (s : PollerPool) (i : Nat) : PollerPool :=
  { s with
    tasks := Function.update s.tasks i []
    ranDestroyed := s.ranDestroyed || (s.tasks i).any s.isDestroyed }

/-- A call of a function of the pool. -/
def call (s : PollerPool) : PoolCall → PollerPool
  | .start => if s.started then s.goto (.idle none) else s.goto (.starting 0 s.nextWorker)
  | .stop => s.poolStop .stop
  | .destroy => s.poolStop .destroy
  | .attachBufPools threadSafe alloc =>
      (s.attachBufPools threadSafe alloc (List.range s.count)).goto (.idle none)
  | .detachBufPools => s.detachBufPools.goto (.idle none)

/-- The thread of a slot can be joined. -/
def joinable (s : PollerPool) (i : Nat) : Bool :=
  match (s.slots i).thread with
  | none => true
  | some t => (s.workers t).all fun w => decide (w.phase = .left)

/-- The next step of the calling thread, at any place but `idle`. -/
def advance (s : PollerPool) : Option PollerPool :=
  match s.pc with
  | .idle _ | .gone => none
  | .starting i _ => if i < s.count then none else some ({ s with started := true }.goto (.idle none))
  | .setting caller i =>
      if i < s.count then
        some ((s.setSlot i { s.slots i with stop := true }).goto (.setting caller (i + 1)))
      else some (s.goto (.joining caller 0))
  | .joining caller i =>
      if i < s.count then
        if s.joinable i then
          some ((s.setSlot i { s.slots i with thread := none }).goto (.joining caller (i + 1)))
        else none
      else some ({ s with started := false }.afterStop caller)
  | .detaching i =>
      if i < s.count then some ((s.detachSlot .destroyed i).goto (.detaching (i + 1)))
      else some (s.goto (.destroying 0))
  | .destroying i =>
      if i < s.count then some ((s.destroyPoller i).goto (.destroying (i + 1)))
      else some (s.goto .gone)

/-- `ztk_poller_pool_destroy` was called. -/
def tearsDown (s : PollerPool) : Bool :=
  match s.pc with
  | .setting .destroy _ | .joining .destroy _ | .detaching _ | .destroying _ | .gone => true
  | _ => false

/-- `ztk_buf_pool_release` posts a task for the owner. -/
def defers (s : PollerPool) (b : LocalPool) (self : Nat) : Option Nat :=
  if b.threadSafe then none
  else b.owner.filter fun i => s.ownerThread i ≠ some self

/-- `ztk_buf_pool_release` by the thread `self`.  Where it posts nothing it touches
blocks only. -/
def release (s : PollerPool) (k : Nat) (b : LocalPool) (self : Nat) (posted : Bool) : PollerPool :=
  match s.defers b self with
  | none => s
  | some i => if posted then { s with tasks := Function.update s.tasks i (s.tasks i ++ [k]) } else s

/-- The worker `t`, if it is in the loop of `ztk_poller_run`. -/
def looping (s : PollerPool) (t : Nat) : Option PoolWorker :=
  (s.workers t).filter fun w => w.phase = .looping

/-- A step of the calling thread, a worker, or a thread that releases a block. -/
def step (s : PollerPool) : PoolAct → Option PollerPool
  | .call c =>
      match s.pc with
      | .idle _ => some (s.call c)
      | _ => none
  | .create ok =>
      match s.pc with
      | .starting i first =>
          if i < s.count then
            if ok then some ((s.spawn i).goto (.starting (i + 1) first))
            else some ((s.setSlot i { s.slots i with stop := false, thread := none }).poolStop
              (.start first))
          else none
      | _ => none
  | .advance => s.advance
  | .bind t =>
      ((s.workers t).filter fun w => w.phase = .created).map fun w =>
        { s.setWorker t { w with phase := .looping } with
          ownerThread := Function.update s.ownerThread w.slot (some t) }
  | .drain t =>
      ((s.looping t).filter fun w => w.list = []).map fun w =>
        { s.setWorker t { w with list := s.tasks w.slot } with
          tasks := Function.update s.tasks w.slot [] }
  | .runTask t =>
      (s.looping t).bind fun w =>
        match w.list with
        | [] => none
        | k :: ks => some { s.setWorker t { w with list := ks } with
            ranDestroyed := s.ranDestroyed || s.isDestroyed k }
  | .leave t pollFailed =>
      ((s.looping t).filter fun w => w.list = [] ∧ ((s.slots w.slot).stop || pollFailed)).map fun w =>
        { s.setWorker t { w with phase := .left } with
          ownerThread := Function.update s.ownerThread w.slot none }
  | .release k self posted =>
      if s.tearsDown then none
      else ((s.bufs k).filter fun b => b.life = .live).map fun b => s.release k b self posted

end PollerPool

def pollerPoolMachine : Machine PollerPool PoolAct := ⟨PollerPool.step⟩

/-- A thread cannot be created, and it is not the first one. -/
def PollerPool.lateFailure (s : PollerPool) : PoolAct → Bool
  | .create false =>
      match s.pc with
      | .starting i _ => decide (0 < i)
      | _ => false
  | _ => false

namespace PollerPool

variable {s s' : PollerPool} {a : PoolAct}

/-! ## What a step does -/

/-- The steps of the source, one by one. -/
inductive Move (s : PollerPool) : PoolAct → PollerPool → Prop where
  | call (c : PoolCall) {r : Option Nat} (hpc : s.pc = .idle r) : Move s (.call c) (s.call c)
  | spawn {i first : Nat} (hpc : s.pc = .starting i first) (hi : i < s.count) :
      Move s (.create true) ((s.spawn i).goto (.starting (i + 1) first))
  | refuse {i first : Nat} (hpc : s.pc = .starting i first) (hi : i < s.count) :
      Move s (.create false)
        ((s.setSlot i { s.slots i with stop := false, thread := none }).poolStop (.start first))
  | allStarted {i first : Nat} (hpc : s.pc = .starting i first) :
      Move s .advance ({ s with started := true }.goto (.idle none))
  | setStop {caller : StopCaller} {i : Nat} (hpc : s.pc = .setting caller i) (hi : i < s.count) :
      Move s .advance
        ((s.setSlot i { s.slots i with stop := true }).goto (.setting caller (i + 1)))
  | allSet {caller : StopCaller} {i : Nat} (hpc : s.pc = .setting caller i) :
      Move s .advance (s.goto (.joining caller 0))
  | join {caller : StopCaller} {i : Nat} (hpc : s.pc = .joining caller i) (hi : i < s.count)
      (hj : s.joinable i = true) :
      Move s .advance
        ((s.setSlot i { s.slots i with thread := none }).goto (.joining caller (i + 1)))
  | allJoined {caller : StopCaller} {i : Nat} (hpc : s.pc = .joining caller i)
      (hi : s.count ≤ i) : Move s .advance ({ s with started := false }.afterStop caller)
  | detach {i : Nat} (hpc : s.pc = .detaching i) (hi : i < s.count) :
      Move s .advance ((s.detachSlot .destroyed i).goto (.detaching (i + 1)))
  | allDetached {i : Nat} (hpc : s.pc = .detaching i) (hi : s.count ≤ i) :
      Move s .advance (s.goto (.destroying 0))
  | destroy {i : Nat} (hpc : s.pc = .destroying i) (hi : i < s.count) :
      Move s .advance ((s.destroyPoller i).goto (.destroying (i + 1)))
  | allDestroyed {i : Nat} (hpc : s.pc = .destroying i) : Move s .advance (s.goto .gone)
  | bind {t : Nat} {w : PoolWorker} (hw : s.workers t = some w) (hp : w.phase = .created) :
      Move s (.bind t) { s.setWorker t { w with phase := .looping } with
        ownerThread := Function.update s.ownerThread w.slot (some t) }
  | drain {t : Nat} {w : PoolWorker} (hw : s.workers t = some w) (hp : w.phase = .looping)
      (hl : w.list = []) :
      Move s (.drain t) { s.setWorker t { w with list := s.tasks w.slot } with
        tasks := Function.update s.tasks w.slot [] }
  | runTask {t k : Nat} {ks : List Nat} {w : PoolWorker} (hw : s.workers t = some w)
      (hp : w.phase = .looping) (hl : w.list = k :: ks) :
      Move s (.runTask t) { s.setWorker t { w with list := ks } with
        ranDestroyed := s.ranDestroyed || s.isDestroyed k }
  | leave {t : Nat} {w : PoolWorker} {pollFailed : Bool} (hw : s.workers t = some w)
      (hp : w.phase = .looping) (hl : w.list = []) :
      Move s (.leave t pollFailed) { s.setWorker t { w with phase := .left } with
        ownerThread := Function.update s.ownerThread w.slot none }
  | release {k self : Nat} {posted : Bool} {b : LocalPool} (hd : s.tearsDown = false)
      (hb : s.bufs k = some b) (hlive : b.life = .live) :
      Move s (.release k self posted) (s.release k b self posted)

theorem looping_eq_some {t : Nat} {w : PoolWorker} :
    s.looping t = some w ↔ s.workers t = some w ∧ w.phase = .looping := by
  rw [looping, Option.filter_eq_some_iff, decide_eq_true_eq]

theorem advance_move (h : s.advance = some s') : s.Move .advance s' := by
  simp only [advance] at h
  split at h
  · cases h
  · cases h
  · next i first hpc =>
      split at h
      · cases h
      · cases h
        exact .allStarted hpc
  · next caller i hpc =>
      split at h
      · next hi =>
          cases h
          exact .setStop hpc hi
      · cases h
        exact .allSet hpc
  · next caller i hpc =>
      split at h
      · next hi =>
          split at h
          · next hj =>
              cases h
              exact .join hpc hi hj
          · cases h
      · next hi =>
          cases h
          exact .allJoined hpc (Nat.not_lt.mp hi)
  · next i hpc =>
      split at h
      · next hi =>
          cases h
          exact .detach hpc hi
      · next hi =>
          cases h
          exact .allDetached hpc (Nat.not_lt.mp hi)
  · next i hpc =>
      split at h
      · next hi =>
          cases h
          exact .destroy hpc hi
      · cases h
        exact .allDestroyed hpc

theorem step_move (h : s.step a = some s') : s.Move a s' := by
  cases a with
  | call c =>
      rw [step] at h
      split at h
      · next r hpc =>
          cases h
          exact .call c hpc
      · cases h
  | create ok =>
      rw [step] at h
      split at h
      · next i first hpc =>
          split at h
          · next hi =>
              cases ok with
              | true =>
                  cases h
                  exact .spawn hpc hi
              | false =>
                  cases h
                  exact .refuse hpc hi
          · cases h
      · cases h
  | advance => exact advance_move h
  | bind t =>
      obtain ⟨w, hw, rfl⟩ := Option.map_eq_some_iff.mp h
      rw [Option.filter_eq_some_iff, decide_eq_true_eq] at hw
      exact .bind hw.1 hw.2
  | drain t =>
      obtain ⟨w, hw, rfl⟩ := Option.map_eq_some_iff.mp h
      rw [Option.filter_eq_some_iff, looping_eq_some, decide_eq_true_eq] at hw
      exact .drain hw.1.1 hw.1.2 hw.2
  | runTask t =>
      obtain ⟨w, hw, h⟩ := Option.bind_eq_some_iff.mp h
      rw [looping_eq_some] at hw
      split at h
      · cases h
      · next k ks hl =>
          cases h
          exact .runTask hw.1 hw.2 hl
  | leave t pollFailed =>
      obtain ⟨w, hw, rfl⟩ := Option.map_eq_some_iff.mp h
      rw [Option.filter_eq_some_iff, looping_eq_some, decide_eq_true_eq] at hw
      exact .leave hw.1.1 hw.1.2 hw.2.1
  | release k self posted =>
      rw [step] at h
      split at h
      · cases h
      · next hd =>
          obtain ⟨b, hb, rfl⟩ := Option.map_eq_some_iff.mp h
          rw [Option.filter_eq_some_iff, decide_eq_true_eq] at hb
          exact .release (Bool.eq_false_iff.mpr hd) hb.1 hb.2

/-- Buffer pools come and go, and nothing is done to the threads. -/
structure SameThreads (s s' : PollerPool) : Prop where
  count : s'.count = s.count
  started : s'.started = s.started
  pc : s'.pc = s.pc
  workers : s'.workers = s.workers
  nextWorker : s'.nextWorker = s.nextWorker
  thread : ∀ i, (s'.slots i).thread = (s.slots i).thread
  ran : s'.ranDestroyed = s.ranDestroyed

theorem SameThreads.rfl (s : PollerPool) : s.SameThreads s :=
  ⟨Eq.refl _, Eq.refl _, Eq.refl _, Eq.refl _, Eq.refl _, fun _ => Eq.refl _, Eq.refl _⟩

theorem SameThreads.trans {s'' : PollerPool} (h : s.SameThreads s') (h' : s'.SameThreads s'') :
    s.SameThreads s'' where
  count := h'.count.trans h.count
  started := h'.started.trans h.started
  pc := h'.pc.trans h.pc
  workers := h'.workers.trans h.workers
  nextWorker := h'.nextWorker.trans h.nextWorker
  thread i := (h'.thread i).trans (h.thread i)
  ran := h'.ran.trans h.ran

/-- An assignment to a slot, but not to its thread. -/
theorem setSlot_thread (s : PollerPool) {i : Nat} {v : PoolSlot}
    (h : v.thread = (s.slots i).thread) (j : Nat) :
    ((s.setSlot i v).slots j).thread = (s.slots j).thread := by
  show (Function.update s.slots i v j).thread = _
  by_cases hj : j = i
  · rw [hj, Function.update_self, h]
  · rw [Function.update_of_ne hj]

theorem attachSlot_sameThreads (s : PollerPool) (threadSafe : Bool) (i : Nat) :
    s.SameThreads (s.attachSlot threadSafe i) :=
  ⟨rfl, rfl, rfl, rfl, rfl, s.setSlot_thread rfl, rfl⟩

theorem detachSlot_sameThreads (life : BufLife) (s : PollerPool) (i : Nat) :
    s.SameThreads (s.detachSlot life i) := by
  simp only [detachSlot]
  split
  · exact .rfl s
  · exact ⟨rfl, rfl, rfl, rfl, rfl, s.setSlot_thread rfl, rfl⟩

theorem detachBufPools_sameThreads (s : PollerPool) : s.SameThreads s.detachBufPools := by
  simp only [detachBufPools]
  generalize List.range s.count = l
  induction l generalizing s with
  | nil => exact .rfl s
  | cons i is ih => exact (detachSlot_sameThreads .detached s i).trans (ih _)

theorem attachBufPools_sameThreads (threadSafe : Bool) (alloc : Nat → Bool) (l : List Nat)
    (s : PollerPool) : s.SameThreads (s.attachBufPools threadSafe alloc l) := by
  induction l generalizing s with
  | nil => exact .rfl s
  | cons i is ih =>
      rw [attachBufPools]
      split
      · exact ih s
      · split
        · exact (attachSlot_sameThreads s threadSafe i).trans (ih _)
        · exact detachBufPools_sameThreads s

/-! ## Threads and the slots that hold them -/

/-- No thread is bound to slot `i` at this place. -/
def Vacant (s : PollerPool) (i : Nat) : Prop :=
  s.count ≤ i ∨
    match s.pc with
    | .idle _ => s.started = false
    | .starting j _ => j ≤ i
    | .setting _ _ => False
    | .joining _ j => i < j
    | .detaching _ | .destroying _ | .gone => True

/-- A start is going on, or has failed. -/
def Unstarted (s : PollerPool) : Prop :=
  match s.pc with
  | .idle (some _) | .starting _ _ => True
  | _ => False

/-- Every running worker is the thread of its slot. -/
structure Joined (s : PollerPool) : Prop where
  owned : ∀ t w, s.workers t = some w → w.running = true → (s.slots w.slot).thread = some t
  vacant : ∀ i, s.Vacant i → (s.slots i).thread = none
  unstarted : s.Unstarted → s.started = false

theorem create_joined (count : Nat) : (create count).Joined where
  owned _ _ hw := by cases hw
  vacant _ _ := rfl
  unstarted := False.elim

/-- A thread that can be joined has come to its end. -/
theorem running_of_joinable {i t : Nat} {w : PoolWorker} (hj : s.joinable i = true)
    (ht : (s.slots i).thread = some t) (hw : s.workers t = some w) : w.running = false := by
  simp only [joinable] at hj
  rw [ht] at hj
  simp only [hw, Option.all_some, decide_eq_true_eq] at hj
  simp only [PoolWorker.running]
  rw [hj]
  rfl

namespace Joined

/-- Where no slot holds a thread, none is running. -/
theorem stopped (h : s.Joined) (hv : ∀ i, (s.slots i).thread = none) {t : Nat} {w : PoolWorker}
    (hw : s.workers t = some w) : w.running = false := by
  by_contra hr
  have ht := h.owned t w hw (eq_true_of_ne_false hr)
  rw [hv] at ht
  cases ht

theorem none_of_tearing (h : s.Joined)
    (hpc : match s.pc with
      | .detaching _ | .destroying _ | .gone => True
      | _ => False) (i : Nat) : (s.slots i).thread = none := by
  refine h.vacant i (Or.inr ?_)
  cases hp : s.pc with
  | detaching | destroying | gone => trivial
  | idle | starting | setting | joining =>
      rw [hp] at hpc
      exact hpc.elim

/-- The workers go on, and the calling thread stays where it is. -/
theorem frame (h : s.Joined) (hcount : s'.count = s.count) (hstarted : s'.started = s.started)
    (hpc : s'.pc = s.pc) (hthread : ∀ i, (s'.slots i).thread = (s.slots i).thread)
    (hworkers : ∀ t w', s'.workers t = some w' → w'.running = true →
      ∃ w, s.workers t = some w ∧ w.running = true ∧ w.slot = w'.slot) : s'.Joined where
  owned t w' hw' hr' := by
    obtain ⟨w, hw, hr, hslot⟩ := hworkers t w' hw' hr'
    rw [hthread, ← hslot]
    exact h.owned t w hw hr
  vacant i hi := by
    rw [hthread]
    refine h.vacant i ?_
    simp only [Vacant] at hi ⊢
    rwa [hcount, hpc, hstarted] at hi
  unstarted hu := by
    rw [hstarted]
    refine h.unstarted ?_
    simp only [Unstarted] at hu ⊢
    rwa [hpc] at hu

/-- A worker changes its phase or its list, and the queue it serves. -/
theorem setWorker (h : s.Joined) {t : Nat} {w v : PoolWorker} (hw : s.workers t = some w)
    (hslot : v.slot = w.slot) (hrun : v.running = true → w.running = true)
    {tasks : Nat → List Nat} {owner : Nat → Option Nat} {ran : Bool} :
    Joined { s.setWorker t v with
      tasks := tasks, ownerThread := owner, ranDestroyed := ran } := by
  refine h.frame rfl rfl rfl (fun _ => rfl) fun u x hx hr => ?_
  by_cases hut : u = t
  · subst hut
    have hx : Function.update s.workers u (some v) u = some x := hx
    rw [Function.update_self, Option.some.injEq] at hx
    subst hx
    exact ⟨w, hw, hrun hr, hslot.symm⟩
  · have hx : Function.update s.workers t (some v) u = some x := hx
    rw [Function.update_of_ne hut] at hx
    exact ⟨x, hx, hr, rfl⟩

/-- The calling thread goes on. -/
theorem goto (h : s.Joined) {pc : PoolPc}
    (hv : ∀ i, i < s.count → (s.goto pc).Vacant i → (s.slots i).thread = none)
    (hu : (s.goto pc).Unstarted → s.started = false) : (s.goto pc).Joined where
  owned := h.owned
  vacant i hi := by
    by_cases hc : i < s.count
    · exact hv i hc hi
    · exact h.vacant i (Or.inl (Nat.not_lt.mp hc))
  unstarted := hu

/-- `ztk_poller_pool_stop`, when it finds a pool that has no thread or is started. -/
theorem poolStop (h : s.Joined) (hv : s.started = false → ∀ i, (s.slots i).thread = none)
    (caller : StopCaller) : (s.poolStop caller).Joined := by
  simp only [PollerPool.poolStop]
  split
  · refine h.goto (fun i hc hi => ?_) False.elim
    exact (hi.resolve_left (Nat.not_le.mpr hc)).elim
  · next hs =>
      rw [Bool.not_eq_true] at hs
      cases caller with
      | stop => exact h.goto (fun i _ _ => hv hs i) fun _ => hs
      | start first => exact h.goto (fun i _ _ => hv hs i) fun _ => hs
      | destroy => exact h.goto (fun i _ _ => hv hs i) False.elim

/-- The thread of slot `i` is created, where the slot holds none. -/
theorem spawn (h : s.Joined) {i first : Nat} (hpc : s.pc = .starting i first)
    (hi : i < s.count) :
    ((s.spawn i).goto (.starting (i + 1) first)).Joined := by
  have hvac : ∀ j, i ≤ j → (s.slots j).thread = none := by
    intro j hj
    refine h.vacant j (Or.inr ?_)
    rw [hpc]
    exact hj
  have hstarted : s.started = false := by
    refine h.unstarted ?_
    simp only [Unstarted]
    rw [hpc]
    trivial
  constructor
  · intro t w hw hr
    have hw : Function.update s.workers s.nextWorker (some ⟨i, .created, []⟩) t = some w := hw
    show (Function.update s.slots i _ w.slot).thread = some t
    by_cases ht : t = s.nextWorker
    · subst ht
      rw [Function.update_self, Option.some.injEq] at hw
      subst hw
      rw [Function.update_self]
    · rw [Function.update_of_ne ht] at hw
      have hold := h.owned t w hw hr
      have hne : w.slot ≠ i := by
        intro hi
        rw [hi, hvac i le_rfl] at hold
        cases hold
      rw [Function.update_of_ne hne]
      exact hold
  · intro j hj
    have hij : i < j := hj.elim (fun hj => hi.trans_le hj) id
    show (Function.update s.slots i _ j).thread = none
    rw [Function.update_of_ne (Nat.ne_of_gt hij)]
    exact hvac j hij.le
  · exact fun _ => hstarted

/-- The thread of slot `i` has been joined. -/
theorem join (h : s.Joined) {caller : StopCaller} {i : Nat} (hpc : s.pc = .joining caller i)
    (hj : s.joinable i = true) :
    ((s.setSlot i { s.slots i with thread := none }).goto (.joining caller (i + 1))).Joined := by
  have hvac : ∀ j, j < i → (s.slots j).thread = none := by
    intro j hj
    refine h.vacant j (Or.inr ?_)
    rw [hpc]
    exact hj
  constructor
  · intro t w hw hr
    have hold := h.owned t w hw hr
    show (Function.update s.slots i _ w.slot).thread = some t
    have hne : w.slot ≠ i := by
      intro hwi
      cases hr.symm.trans (running_of_joinable hj (hwi ▸ hold) hw)
    rw [Function.update_of_ne hne]
    exact hold
  · intro j hj
    show (Function.update s.slots i _ j).thread = none
    by_cases hji : j = i
    · rw [hji, Function.update_self]
    · rw [Function.update_of_ne hji]
      rcases hj with hj | hj
      · exact h.vacant j (Or.inl hj)
      · exact hvac j (Nat.lt_of_le_of_ne (Nat.lt_succ_iff.mp hj) hji)
  · exact False.elim

/-- A call of a function of the pool. -/
theorem call (h : s.Joined) {r : Option Nat} (hpc : s.pc = .idle r) (c : PoolCall) :
    (s.call c).Joined := by
  have hv : s.started = false → ∀ i, (s.slots i).thread = none := by
    intro hs i
    refine h.vacant i (Or.inr ?_)
    rw [hpc]
    exact hs
  have hsame : ∀ {v : PollerPool}, s.SameThreads v → (v.goto (.idle none)).Joined := by
    intro v hsame
    have hjv : v.Joined := h.frame hsame.count hsame.started hsame.pc hsame.thread
      fun t w hw hr => ⟨w, by rw [hsame.workers] at hw; exact hw, hr, rfl⟩
    refine hjv.goto (fun i hc hi => ?_) False.elim
    rw [hsame.thread]
    exact hv (hsame.started.symm.trans (hi.resolve_left (Nat.not_le.mpr hc))) i
  cases c with
  | start =>
      rw [PollerPool.call]
      split
      · exact hsame (.rfl s)
      · next hs =>
          rw [Bool.not_eq_true] at hs
          exact h.goto (fun i _ _ => hv hs i) fun _ => hs
  | stop => exact h.poolStop hv .stop
  | destroy => exact h.poolStop hv .destroy
  | attachBufPools threadSafe alloc => exact hsame (attachBufPools_sameThreads threadSafe alloc _ s)
  | detachBufPools => exact hsame (detachBufPools_sameThreads s)

/-- The first thread cannot be created. -/
theorem refuse (h : s.Joined) {first : Nat} (hpc : s.pc = .starting 0 first) :
    ((s.setSlot 0 { s.slots 0 with stop := false, thread := none }).poolStop
      (.start first)).Joined := by
  -- no slot of the pool holds a thread
  have hv : ∀ j, (s.slots j).thread = none := by
    intro j
    refine h.vacant j (Or.inr ?_)
    rw [hpc]
    exact Nat.zero_le j
  have hset : (s.setSlot 0 { s.slots 0 with stop := false, thread := none }).Joined :=
    h.frame rfl rfl rfl (s.setSlot_thread (hv 0).symm) fun t w hw hr => ⟨w, hw, hr, rfl⟩
  exact hset.poolStop (fun _ j => (s.setSlot_thread (hv 0).symm j).trans (hv j)) _

/-- All threads have been joined. -/
theorem allJoined (h : s.Joined) {caller : StopCaller} {i : Nat} (hpc : s.pc = .joining caller i)
    (hi : s.count ≤ i) : ({ s with started := false }.afterStop caller).Joined := by
  have hv : ∀ j, (s.slots j).thread = none := by
    intro j
    refine h.vacant j ?_
    by_cases hc : j < s.count
    · refine Or.inr ?_
      rw [hpc]
      exact hc.trans_le hi
    · exact Or.inl (Nat.not_lt.mp hc)
  have hset : { s with started := false }.Joined := ⟨h.owned, fun j _ => hv j, fun _ => rfl⟩
  have hstop := hset.poolStop (fun _ => hv) caller
  exact hstop

/-- One step. -/
theorem step (h : s.Joined) (hc : s.lateFailure a = false) (hm : s.Move a s') : s'.Joined := by
  have hrun : ∀ t w, s.workers t = some w → w.running = true →
      ∃ w', s.workers t = some w' ∧ w'.running = true ∧ w'.slot = w.slot :=
    fun t w hw hr => ⟨w, hw, hr, rfl⟩
  cases hm with
  | call c hpc => exact h.call hpc c
  | spawn hpc hi => exact h.spawn hpc hi
  | refuse hpc hi =>
      simp only [lateFailure] at hc
      rw [hpc] at hc
      cases Nat.eq_zero_of_not_pos (of_decide_eq_false hc)
      exact h.refuse hpc
  | allStarted hpc =>
      exact ⟨h.owned, fun i hi => h.vacant i (Or.inl (hi.resolve_right Bool.noConfusion)),
        False.elim⟩
  | @setStop caller i hpc hi =>
      have hset : (s.setSlot i { s.slots i with stop := true }).Joined :=
        h.frame rfl rfl rfl (s.setSlot_thread rfl) hrun
      exact hset.goto (fun j hc hj => (hj.resolve_left (Nat.not_le.mpr hc)).elim) False.elim
  | allSet hpc =>
      refine h.goto (fun j hc hj => ?_) False.elim
      exact absurd (hj.resolve_left (Nat.not_le.mpr hc)) (Nat.not_lt_zero j)
  | join hpc hi hj => exact h.join hpc hj
  | allJoined hpc hi => exact h.allJoined hpc hi
  | @detach i hpc hi =>
      have hsame := detachSlot_sameThreads .destroyed s i
      have hdet : (s.detachSlot .destroyed i).Joined :=
        h.frame hsame.count hsame.started hsame.pc hsame.thread (hsame.workers ▸ hrun)
      refine hdet.goto (fun j _ _ => (hsame.thread j).trans ?_) False.elim
      exact h.none_of_tearing (by rw [hpc]; trivial) j
  | allDetached hpc hi =>
      exact h.goto (fun j _ _ => h.none_of_tearing (by rw [hpc]; trivial) j) False.elim
  | @destroy i hpc hi =>
      have hdes : (s.destroyPoller i).Joined := h.frame rfl rfl rfl (fun _ => rfl) hrun
      exact hdes.goto (fun j _ _ => h.none_of_tearing (by rw [hpc]; trivial) j) False.elim
  | allDestroyed hpc =>
      exact h.goto (fun j _ _ => h.none_of_tearing (by rw [hpc]; trivial) j) False.elim
  | @bind t w hw hp =>
      refine h.setWorker (v := { w with phase := .looping }) hw rfl fun _ => ?_
      simp only [PoolWorker.running]
      rw [hp]
      decide
  | @drain t w hw hp hl =>
      exact h.setWorker (v := { w with list := s.tasks w.slot }) hw rfl id
  | @runTask t k ks w hw hp hl =>
      exact h.setWorker (v := { w with list := ks }) hw rfl id
  | @leave t w pollFailed hw hp hl =>
      refine h.setWorker (v := { w with phase := .left }) hw rfl fun hr => ?_
      cases hr
  | release hd hb hlive =>
      simp only [release]
      split
      · exact h
      · split
        · exact h.frame rfl rfl rfl (fun _ => rfl) hrun
        · exact h

end Joined

end PollerPool

/-- A start that has failed leaves none of its workers running, and no poller is
destroyed while its worker runs. -/
structure PollerPool.WorkersStopped (s : PollerPool) : Prop where
  failed : ∀ first, s.pc = .idle (some first) →
    ∀ t w, first ≤ t → s.workers t = some w → w.running = false
  destroyed : ∀ i, s.pc = .destroying i →
    ∀ t w, s.workers t = some w → w.slot = i → w.running = false

/-- Where no thread but the first of a start fails to be created, the workers are
stopped in every state that is reached. -/
theorem pool_workers_stopped (count : Nat) {s : PollerPool}
    (hl : pollerPoolMachine.Leads (fun s a => s.lateFailure a = false) (.create count) s) :
    s.WorkersStopped := by
  have h : s.Joined := hl.invariant (fun s a s' h hc hs => h.step hc (PollerPool.step_move hs))
    (PollerPool.create_joined count)
  constructor
  · intro first hpc t w _ hw
    refine h.stopped (fun i => h.vacant i (Or.inr ?_)) hw
    rw [hpc]
    refine h.unstarted ?_
    simp only [PollerPool.Unstarted]
    rw [hpc]
    trivial
  · intro i hpc t w hw _
    exact h.stopped (h.none_of_tearing (by rw [hpc]; trivial)) hw

/-- Two slots.  The first thread cannot be created, the pool is started again, and it
is destroyed up to its first poller. -/
def restartedRun : List PoolAct :=
  [.call .start, .create false, .call .start, .create true, .create true, .advance, .bind 0, .bind 1,
    .call .destroy, .advance, .advance, .advance, .leave 0 false, .leave 1 false, .advance, .advance,
    .advance, .advance, .advance, .advance]

theorem pool_workers_stopped_restarted :
    ∃ s, pollerPoolMachine.Leads (fun s a => s.lateFailure a = false) (.create 2) s ∧
      s.pc = .destroying 0 ∧ s.WorkersStopped := by
  have hrun : (pollerPoolMachine.run (.create 2) restartedRun).map
      (fun s => decide (s.pc = .destroying 0)) = some true := by
    decide +kernel
  obtain ⟨s, hs, hpc⟩ := Machine.exists_run hrun
  have hl : pollerPoolMachine.Leads (fun s a => s.lateFailure a = false) (.create 2) s :=
    Machine.leads_of_run restartedRun _ s hs (by decide +kernel)
  exact ⟨s, hl, hpc, pool_workers_stopped 2 hl⟩

/-- Two slots, and the second thread cannot be created. -/
def lateFailureRun : List PoolAct := [.call .start, .create true, .create false]

/-- The start fails and its first worker goes on; `ztk_poller_pool_destroy` comes to the
poller of this worker. -/
theorem pool_workers_left_running :
    (∃ s, pollerPoolMachine.Leads Machine.Any (.create 2) s ∧ s.pc = .idle (some 0) ∧
        (s.workers 0).map PoolWorker.running = some true ∧ ¬ s.WorkersStopped) ∧
      ∃ s, pollerPoolMachine.Leads Machine.Any (.create 2) s ∧ s.pc = .destroying 0 ∧
        (s.workers 0).map PoolWorker.running = some true ∧ ¬ s.WorkersStopped := by
  have hfirst : (pollerPoolMachine.run (.create 2) lateFailureRun).map (fun s =>
      decide (s.pc = .idle (some 0) ∧ (s.workers 0).map PoolWorker.running = some true)) =
        some true := by
    decide +kernel
  have hnext : (pollerPoolMachine.run (.create 2)
      (lateFailureRun ++ [PoolAct.call .destroy, .advance, .advance, .advance])).map (fun s =>
        decide (s.pc = .destroying 0 ∧ (s.workers 0).map PoolWorker.running = some true ∧
          (s.workers 0).map PoolWorker.slot = some 0)) = some true := by
    decide +kernel
  obtain ⟨s, hs, hpc, hr⟩ := Machine.exists_run hfirst
  obtain ⟨w, hw, hwr⟩ := Option.map_eq_some_iff.mp hr
  obtain ⟨s', hs', hpc', hr', hslot'⟩ := Machine.exists_run hnext
  obtain ⟨w', hw', hwr'⟩ := Option.map_eq_some_iff.mp hr'
  rw [hw', Option.map_some, Option.some.injEq] at hslot'
  refine ⟨⟨s, Machine.leads_of_run _ _ s hs (Machine.runMeets_any _ _), hpc, hr, fun h => ?_⟩,
    ⟨s', Machine.leads_of_run _ _ s' hs' (Machine.runMeets_any _ _), hpc', hr', fun h => ?_⟩⟩
  · have hstop := h.failed 0 hpc 0 w le_rfl hw
    rw [hwr] at hstop
    cases hstop
  · have hstop := h.destroyed 0 hpc' 0 w' hw' hslot'
    rw [hwr'] at hstop
    cases hstop

end Ztk.Poller
