import Ztk.Lib.Machine
import Ztk.Lib.Tally

/-!
# The thread pool

`thread_pool.c`: the task list, the semaphore and the workers of a `ztk_thread_pool`
that is started, with any number of threads that submit tasks and one call of
`ztk_thread_pool_fini`.  The semaphore operations do not fail.

A push links the task and posts the semaphore in two steps, and others go on in
between.  A worker waits, pops, and runs the task it got; it leaves its loop when it
gets none.  A task may submit tasks from its worker: with `may_sync` set they run at
once, on top of it, else they are pushed.  `ztk_thread_pool_fini` posts one token for
each worker, one after the other, and joins the workers in order.

A task is named by the number of its submission.  It is accepted when the call that
submits it returns `ZTK_OK`, and executed when its function has returned.
-/

namespace Ztk.Thread

open Ztk.Lib

/-! ## State -/

/-- A thread in the loop of `pool_worker`. -/
inductive Worker where
  /-- In `ztk_sem_wait`. -/
  | waiting
  /-- Back from `ztk_sem_wait`, with a token. -/
  | awake
  /-- In the functions of tasks, the innermost first.  `pushed` is a task that it has
  linked and not posted for yet. -/
  | running (stack : List Nat) (pushed : Option Nat)
  | exited
deriving DecidableEq

/-- The tokens that a worker has taken, or owes for a task it has linked. -/
def Worker.tokens : Worker → Nat
  | .awake | .exited | .running _ (some _) => 1
  | .waiting | .running _ none => 0

/-- One if the worker has left its loop. -/
def Worker.left : Worker → Nat
  | .exited => 1
  | .waiting | .awake | .running _ _ => 0

/-- How often a task is on the stack of a worker. -/
def Worker.runs (t : Nat) : Worker → Nat
  | .running ts _ => ts.count t
  | .waiting | .awake | .exited => 0

/-- The steps that a worker has to make for what it has begun. -/
def Worker.rank : Worker → Nat
  | .running ts (some _) => ts.length + 3
  | .running ts none => ts.length
  | .awake => 1
  | .waiting | .exited => 0

theorem Worker.left_le_one (w : Worker) : w.left ≤ 1 := by
  cases w with
  | exited => exact le_rfl
  | waiting | awake | running => exact Nat.zero_le 1

theorem Worker.left_le_tokens (w : Worker) : w.left ≤ w.tokens := by
  cases w with
  | exited => exact le_rfl
  | waiting | awake | running => exact Nat.zero_le _

/-- `ztk_thread_pool_fini`: the tokens posted so far, or the worker to join. -/
inductive FiniPc where
  | notCalled
  | posting (k : Nat)
  | joining (i : Nat)
  | returned
deriving DecidableEq

/-- `ztk_thread_pool` with `n` workers. -/
structure ThreadPool (n : Nat) where
  queue : List Nat
  sem : Nat
  workers : Fin n → Worker
  started : Bool
  /-- Tasks that other threads have linked and not posted for yet. -/
  pushed : List Nat
  /-- The number of the next submission. -/
  next : Nat
  accepted : List Nat
  executed : List Nat
  fini : FiniPc

inductive ThreadAct (n : Nat) where
  | push (first : Bool)
  | post (t : Nat)
  | wait (i : Fin n)
  | pop (i : Fin n)
  | pushFrom (i : Fin n) (first : Bool)
  | postFrom (i : Fin n)
  | runSync (i : Fin n)
  | finish (i : Fin n)
  | fini
  | finiPost
  | join

/-- The step goes on with what has begun, and submits nothing. -/
def ThreadAct.completes {n : Nat} : ThreadAct n → Bool
  | .post _ | .wait _ | .pop _ | .postFrom _ | .finish _ | .finiPost | .join => true
  | .push _ | .pushFrom _ _ | .runSync _ | .fini => false

/-- `worker_count`. -/
def workerCount (threadCount hardwareConcurrency : Nat) : Nat :=
  let n := if threadCount ≠ 0 then threadCount else hardwareConcurrency
  if n < 1 then 1 else n

namespace ThreadPool

variable {n : Nat}

/-- After `ztk_thread_pool_start`. -/
def start (n : Nat) : ThreadPool n where
  queue := []
  sem := 0
  workers _ := .waiting
  started := true
  pushed := []
  next := 0
  accepted := []
  executed := []
  fini := .notCalled

/-! ## The functions of the source -/

/-- The list of `push_task`. -/
def linkTask (queue : List Nat) (t : Nat) (first : Bool) : List Nat :=
  if first then t :: queue else queue ++ [t]

/-- `pop_task`. -/
def popTask : List Nat → Option (Nat × List Nat)
  | [] => none
  | t :: ts => some (t, ts)

def setWorker (s : ThreadPool n) (i : Fin n) (w : Worker) : ThreadPool n :=
  { s with workers := Function.update s.workers i w }

/-- `push_task`, up to the semaphore. -/
def pushTask (s : ThreadPool n) (first : Bool) : ThreadPool n :=
  { s with queue := linkTask s.queue s.next first, next := s.next + 1 }

/-- `ztk_sem_post` of `push_task`, after which the call returns. -/
def postTask (s : ThreadPool n) (t : Nat) : ThreadPool n :=
  { s with sem := s.sem + 1, accepted := t :: s.accepted }

/-- `pop_task` by a worker, which runs the task or leaves its loop. -/
def popBy (s : ThreadPool n) (i : Fin n) : ThreadPool n :=
  match popTask s.queue with
  | none => s.setWorker i .exited
  | some (t, ts) => { s.setWorker i (.running [t] none) with queue := ts }

/-- The function of a task returns.  Below it is the task that ran it, or the loop. -/
def finishTask (s : ThreadPool n) (i : Fin n) (t : Nat) : List Nat → ThreadPool n
  | [] => { s.setWorker i .waiting with executed := t :: s.executed }
  | u :: us => { s.setWorker i (.running (u :: us) none) with
      executed := t :: s.executed
      accepted := t :: s.accepted }

/-- The next step of `ztk_thread_pool_fini` in its loop over the workers. -/
def joinNext (s : ThreadPool n) (i : Nat) : Option (ThreadPool n) :=
  if h : i < n then
    if s.workers ⟨i, h⟩ = .exited then some { s with fini := .joining (i + 1) } else none
  else some { s with fini := .returned, started := false }

/-- A step of a thread that submits, of a worker, or of `ztk_thread_pool_fini`, which is
called once and when no other call is going on but those from the workers. -/
def step (s : ThreadPool n) : ThreadAct n → Option (ThreadPool n)
  | .push first =>
      if s.started = true ∧ s.fini = .notCalled then
        some { s.pushTask first with pushed := s.next :: s.pushed }
      else none
  | .post t =>
      if t ∈ s.pushed then some { s.postTask t with pushed := s.pushed.erase t } else none
  | .wait i =>
      if s.workers i = .waiting ∧ 0 < s.sem then
        some { s.setWorker i .awake with sem := s.sem - 1 }
      else none
  | .pop i => if s.workers i = .awake then some (s.popBy i) else none
  | .pushFrom i first =>
      match s.workers i with
      | .running ts none =>
          if s.started then some ((s.pushTask first).setWorker i (.running ts (some s.next)))
          else none
      | _ => none
  | .postFrom i =>
      match s.workers i with
      | .running ts (some t) => some ((s.postTask t).setWorker i (.running ts none))
      | _ => none
  | .runSync i =>
      match s.workers i with
      | .running ts none =>
          if s.started then
            some { s.setWorker i (.running (s.next :: ts) none) with next := s.next + 1 }
          else none
      | _ => none
  | .finish i =>
      match s.workers i with
      | .running (t :: ts) none => some (s.finishTask i t ts)
      | _ => none
  | .fini =>
      if s.started = true ∧ s.fini = .notCalled ∧ s.pushed = [] then
        some { s with fini := .posting 0 }
      else none
  | .finiPost =>
      match s.fini with
      | .posting k =>
          if k < n then some { s with sem := s.sem + 1, fini := .posting (k + 1) }
          else some { s with fini := .joining 0 }
      | _ => none
  | .join =>
      match s.fini with
      | .joining i => s.joinNext i
      | _ => none

end ThreadPool

def threadPoolMachine (n : Nat) : Machine (ThreadPool n) (ThreadAct n) := ⟨ThreadPool.step⟩

namespace ThreadPool

variable {n : Nat} {s s' : ThreadPool n} {a : ThreadAct n}

/-! ## What a step does -/

/-- The steps of the source, one by one. -/
inductive Move (s : ThreadPool n) : ThreadAct n → ThreadPool n → Prop where
  | push (first : Bool) (hf : s.fini = .notCalled) :
      Move s (.push first) { s.pushTask first with pushed := s.next :: s.pushed }
  | post {t : Nat} (ht : t ∈ s.pushed) :
      Move s (.post t) { s.postTask t with pushed := s.pushed.erase t }
  | wait {i : Fin n} (hw : s.workers i = .waiting) (hs : 0 < s.sem) :
      Move s (.wait i) { s.setWorker i .awake with sem := s.sem - 1 }
  | leave {i : Fin n} (hw : s.workers i = .awake) (hq : s.queue = []) :
      Move s (.pop i) (s.setWorker i .exited)
  | pop {i : Fin n} {t : Nat} {ts : List Nat} (hw : s.workers i = .awake)
      (hq : s.queue = t :: ts) :
      Move s (.pop i) { s.setWorker i (.running [t] none) with queue := ts }
  | pushFrom {i : Fin n} {ts : List Nat} (first : Bool) (hw : s.workers i = .running ts none) :
      Move s (.pushFrom i first) ((s.pushTask first).setWorker i (.running ts (some s.next)))
  | postFrom {i : Fin n} {t : Nat} {ts : List Nat} (hw : s.workers i = .running ts (some t)) :
      Move s (.postFrom i) ((s.postTask t).setWorker i (.running ts none))
  | runSync {i : Fin n} {ts : List Nat} (hw : s.workers i = .running ts none) :
      Move s (.runSync i) { s.setWorker i (.running (s.next :: ts) none) with next := s.next + 1 }
  | finish {i : Fin n} {t : Nat} (hw : s.workers i = .running [t] none) :
      Move s (.finish i) { s.setWorker i .waiting with executed := t :: s.executed }
  | finishSync {i : Fin n} {t u : Nat} {us : List Nat}
      (hw : s.workers i = .running (t :: u :: us) none) :
      Move s (.finish i) { s.setWorker i (.running (u :: us) none) with
        executed := t :: s.executed
        accepted := t :: s.accepted }
  | fini (hf : s.fini = .notCalled) (hp : s.pushed = []) :
      Move s .fini { s with fini := .posting 0 }
  | finiPost {k : Nat} (hf : s.fini = .posting k) (hk : k < n) :
      Move s .finiPost { s with sem := s.sem + 1, fini := .posting (k + 1) }
  | allPosted {k : Nat} (hf : s.fini = .posting k) (hk : n ≤ k) :
      Move s .finiPost { s with fini := .joining 0 }
  | join {i : Fin n} (hf : s.fini = .joining i) (hw : s.workers i = .exited) :
      Move s .join { s with fini := .joining (i + 1) }
  | allJoined {i : Nat} (hf : s.fini = .joining i) (hi : n ≤ i) :
      Move s .join { s with fini := .returned, started := false }

theorem step_move (h : s.step a = some s') : s.Move a s' := by
  cases a with
  | push first =>
      rw [step, Option.ite_none_right_eq_some] at h
      obtain ⟨⟨-, hf⟩, h⟩ := h
      cases h
      exact .push first hf
  | post t =>
      rw [step, Option.ite_none_right_eq_some] at h
      obtain ⟨ht, h⟩ := h
      cases h
      exact .post ht
  | wait i =>
      rw [step, Option.ite_none_right_eq_some] at h
      obtain ⟨⟨hw, hs⟩, h⟩ := h
      cases h
      exact .wait hw hs
  | pop i =>
      rw [step, Option.ite_none_right_eq_some] at h
      obtain ⟨hw, h⟩ := h
      cases h
      simp only [popBy]
      cases hq : s.queue with
      | nil => exact .leave hw hq
      | cons t ts => exact .pop hw hq
  | pushFrom i first =>
      rw [step] at h
      split at h
      · next ts hw =>
          rw [Option.ite_none_right_eq_some] at h
          cases h.2
          exact .pushFrom first hw
      · cases h
  | postFrom i =>
      rw [step] at h
      split at h
      · next ts t hw =>
          cases h
          exact .postFrom hw
      · cases h
  | runSync i =>
      rw [step] at h
      split at h
      · next ts hw =>
          rw [Option.ite_none_right_eq_some] at h
          cases h.2
          exact .runSync hw
      · cases h
  | finish i =>
      rw [step] at h
      split at h
      · next t ts hw =>
          cases h
          cases ts with
          | nil => exact .finish hw
          | cons u us => exact .finishSync hw
      · cases h
  | fini =>
      rw [step, Option.ite_none_right_eq_some] at h
      obtain ⟨⟨-, hf, hp⟩, h⟩ := h
      cases h
      exact .fini hf hp
  | finiPost =>
      rw [step] at h
      split at h
      · next k hf =>
          split at h
          · next hk =>
              cases h
              exact .finiPost hf hk
          · next hk =>
              cases h
              exact .allPosted hf (Nat.not_lt.mp hk)
      · cases h
  | join =>
      rw [step] at h
      split at h
      · next i hf =>
          simp only [joinNext] at h
          split at h
          · next hi =>
              rw [Option.ite_none_right_eq_some] at h
              obtain ⟨hw, h⟩ := h
              cases h
              exact .join (i := ⟨i, hi⟩) hf hw
          · next hi =>
              cases h
              exact .allJoined hf (Nat.not_lt.mp hi)
      · cases h

/-! ## Tokens -/

/-- The tokens that `ztk_thread_pool_fini` has posted. -/
def posted (s : ThreadPool n) : Nat :=
  match s.fini with
  | .notCalled => 0
  | .posting k => k
  | .joining _ | .returned => n

/-- The workers that have left their loops. -/
def left (s : ThreadPool n) : Nat := ∑ i, (s.workers i).left

/-- Every token that is posted, taken or owed is there for a task in the queue or
comes from `ztk_thread_pool_fini`. -/
structure Balanced (s : ThreadPool n) : Prop where
  tokens : s.sem + (∑ i, (s.workers i).tokens) + s.pushed.length = s.queue.length + s.posted
  left_le : s.left ≤ s.posted
  posted_le : s.posted ≤ n
  drained : s.left = n → s.queue = []
  closed : s.fini ≠ .notCalled → s.pushed = []

theorem length_linkTask (queue : List Nat) (t : Nat) (first : Bool) :
    (linkTask queue t first).length = queue.length + 1 := by
  simp only [linkTask]
  split
  · rfl
  · simp

/-- A worker that has not left its loop is not counted. -/
theorem left_lt {i : Fin n} (h : (s.workers i).left = 0) : s.left < n := by
  have hlt := sum_lt_card (fun j => (s.workers j).left_le_one) h
  rwa [Fintype.card_fin] at hlt

namespace Balanced

/-- A worker goes on, and stays in its loop. -/
theorem setWorker (h : s.Balanced) {i : Fin n} {v : Worker} {queue accepted executed : List Nat}
    {sem next : Nat} (hw : (s.workers i).left = 0) (hv : v.left = 0)
    (htok : sem + v.tokens + s.queue.length = s.sem + (s.workers i).tokens + queue.length) :
    Balanced { s.setWorker i v with
      queue := queue, sem := sem, next := next, accepted := accepted, executed := executed } := by
  have htally := sum_update s.workers i v Worker.tokens
  have hltally := sum_update s.workers i v Worker.left
  have hlt := left_lt hw
  obtain ⟨htokens, hleft, hpost, -, hclosed⟩ := h
  refine ⟨?_, ?_, hpost, fun hl => ?_, hclosed⟩
  · simp only [ThreadPool.setWorker, posted] at htokens ⊢
    omega
  · simp only [ThreadPool.setWorker, left, posted] at hleft ⊢
    omega
  · simp only [ThreadPool.setWorker, left] at hl hlt
    omega

/-- A worker leaves its loop: the queue is empty, so its token is one of
`ztk_thread_pool_fini`. -/
theorem leave (h : s.Balanced) {i : Fin n} (hw : s.workers i = .awake) (hq : s.queue = []) :
    (s.setWorker i .exited).Balanced := by
  have htally := sum_update s.workers i .exited Worker.tokens
  have hle : ∑ j, (Function.update s.workers i .exited j).left ≤
      ∑ j, (Function.update s.workers i .exited j).tokens :=
    Finset.sum_le_sum fun j _ => Worker.left_le_tokens _
  have hawake : Worker.awake.tokens = Worker.exited.tokens := rfl
  rw [hw, hawake] at htally
  have htokens := h.tokens
  rw [hq, List.length_nil] at htokens
  refine ⟨?_, ?_, h.posted_le, fun _ => hq, h.closed⟩
  · simp only [ThreadPool.setWorker, posted, hq, List.length_nil] at htokens ⊢
    omega
  · simp only [ThreadPool.setWorker, left, posted] at htokens ⊢
    omega

theorem step (hn : 0 < n) (h : s.Balanced) (hm : s.Move a s') : s'.Balanced := by
  cases hm with
  | push first hf =>
      obtain ⟨htok, hleft, hpost, hdrained, hclosed⟩ := h
      have hp : s.posted = 0 := by rw [posted, hf]
      refine ⟨?_, hleft, hpost, fun hl => ?_, fun hne => absurd hf hne⟩
      · have hlen := length_linkTask s.queue s.next first
        simp only [pushTask, posted, List.length_cons] at htok ⊢
        omega
      · have hl : s.left = n := hl
        omega
  | @post t ht =>
      obtain ⟨htok, hleft, hpost, hdrained, hclosed⟩ := h
      refine ⟨?_, hleft, hpost, hdrained, fun hne => ?_⟩
      · have hlen := List.length_erase_of_mem ht
        have hpos := List.length_pos_of_mem ht
        simp only [postTask, posted] at htok ⊢
        omega
      · rw [hclosed hne] at ht
        cases ht
  | wait hw hs =>
      refine h.setWorker (by rw [hw]; rfl) rfl ?_
      rw [hw]
      simp only [Worker.tokens, ThreadPool.setWorker]
      omega
  | leave hw hq => exact h.leave hw hq
  | pop hw hq =>
      refine h.setWorker (by rw [hw]; rfl) rfl ?_
      rw [hw, hq]
      simp only [Worker.tokens, ThreadPool.setWorker, List.length_cons]
      omega
  | pushFrom first hw =>
      refine h.setWorker (by rw [hw]; rfl) rfl ?_
      rw [hw]
      simp only [Worker.tokens, pushTask, length_linkTask]
      omega
  | postFrom hw =>
      refine h.setWorker (by rw [hw]; rfl) rfl ?_
      rw [hw]
      simp only [Worker.tokens, postTask]
  | runSync hw => exact h.setWorker (by rw [hw]; rfl) rfl (by rw [hw]; rfl)
  | finish hw => exact h.setWorker (by rw [hw]; rfl) rfl (by rw [hw]; rfl)
  | finishSync hw => exact h.setWorker (by rw [hw]; rfl) rfl (by rw [hw]; rfl)
  | fini hf hp =>
      obtain ⟨htok, hleft, hpost, hdrained, -⟩ := h
      simp only [posted, hf] at htok hleft
      exact ⟨htok, hleft, Nat.zero_le n, hdrained, fun _ => hp⟩
  | finiPost hf hk =>
      obtain ⟨htok, hleft, hpost, hdrained, hclosed⟩ := h
      simp only [posted, hf] at htok hleft
      refine ⟨?_, hleft.trans (Nat.le_succ _), hk, hdrained, fun _ => hclosed (by rw [hf]; simp)⟩
      simp only [posted]
      omega
  | allPosted hf hk =>
      obtain ⟨htok, hleft, hpost, hdrained, hclosed⟩ := h
      simp only [posted, hf] at htok hleft hpost
      cases Nat.le_antisymm hpost hk
      exact ⟨htok, hleft, le_rfl, hdrained, fun _ => hclosed (by rw [hf]; simp)⟩
  | join hf hw =>
      obtain ⟨htok, hleft, hpost, hdrained, hclosed⟩ := h
      simp only [posted, hf] at htok hleft
      exact ⟨htok, hleft, le_rfl, hdrained, fun _ => hclosed (by rw [hf]; simp)⟩
  | allJoined hf hi =>
      obtain ⟨htok, hleft, hpost, hdrained, hclosed⟩ := h
      simp only [posted, hf] at htok hleft
      exact ⟨htok, hleft, le_rfl, hdrained, fun _ => hclosed (by rw [hf]; simp)⟩

end Balanced

/-! ## Tasks -/

/-- One for a task that was submitted. -/
def submitted (next t : Nat) : Nat := if t < next then 1 else 0

/-- Every task that was submitted is in one place: the queue, the stack of a worker, or
the executed ones. -/
structure Placed (s : ThreadPool n) : Prop where
  places : ∀ t, s.queue.count t + (∑ i, (s.workers i).runs t) + s.executed.count t =
    submitted s.next t
  pushed : ∀ t ∈ s.pushed, t < s.next
  accepted : ∀ t ∈ s.accepted, t < s.next
  onStack : ∀ i ts p, s.workers i = .running ts p → ts ≠ [] ∧ ∀ t, p = some t → t < s.next

theorem count_cons (u : Nat) (ts : List Nat) (t : Nat) :
    (u :: ts).count t = ts.count t + [u].count t := by
  rw [← List.singleton_append, List.count_append, Nat.add_comm]

theorem count_linkTask (queue : List Nat) (u : Nat) (first : Bool) (t : Nat) :
    (linkTask queue u first).count t = queue.count t + [u].count t := by
  simp only [linkTask]
  split
  · exact count_cons u queue t
  · rw [List.count_append]

/-- The task that is submitted is new. -/
theorem submitted_succ (next t : Nat) :
    submitted (next + 1) t = submitted next t + [next].count t := by
  rw [submitted, submitted, List.count_singleton]
  by_cases ht : next = t
  · simp [ht]
  · have hlt : t < next + 1 ↔ t < next := by omega
    simp [hlt, ht]

namespace Placed

/-- A worker goes on. -/
theorem setWorker (h : s.Placed) {i : Fin n} {v : Worker} {queue accepted executed : List Nat}
    {sem next : Nat} (hnext : s.next ≤ next)
    (hplaces : ∀ t, queue.count t + v.runs t + executed.count t + submitted s.next t =
      s.queue.count t + (s.workers i).runs t + s.executed.count t + submitted next t)
    (haccepted : ∀ t ∈ accepted, t < next)
    (hv : ∀ ts p, v = .running ts p → ts ≠ [] ∧ ∀ t, p = some t → t < next) :
    Placed { s.setWorker i v with
      queue := queue, sem := sem, next := next, accepted := accepted, executed := executed } := by
  refine ⟨fun t => ?_, fun t ht => (h.pushed t ht).trans_le hnext, haccepted, fun j ts p hj => ?_⟩
  · have htally := sum_update s.workers i v (Worker.runs t)
    have hold := h.places t
    have hnew := hplaces t
    simp only [ThreadPool.setWorker]
    omega
  · have hj : Function.update s.workers i v j = .running ts p := hj
    by_cases hji : j = i
    · rw [hji, Function.update_self] at hj
      exact hv ts p hj
    · rw [Function.update_of_ne hji] at hj
      obtain ⟨hne, hp⟩ := h.onStack j ts p hj
      exact ⟨hne, fun t ht => (hp t ht).trans_le hnext⟩

/-- Nothing happens but to the semaphore and to `ztk_thread_pool_fini`. -/
theorem frame (h : s.Placed) (hqueue : s'.queue = s.queue) (hworkers : s'.workers = s.workers)
    (hexecuted : s'.executed = s.executed) (hnext : s'.next = s.next)
    (hpushed : ∀ t ∈ s'.pushed, t < s.next) (haccepted : ∀ t ∈ s'.accepted, t < s.next) :
    s'.Placed where
  places t := by
    rw [hqueue, hworkers, hexecuted, hnext]
    exact h.places t
  pushed := by
    rw [hnext]
    exact hpushed
  accepted := by
    rw [hnext]
    exact haccepted
  onStack := by
    rw [hworkers, hnext]
    exact h.onStack

/-- A task that a worker runs was submitted. -/
theorem lt_of_runs (h : s.Placed) {i : Fin n} {t : Nat} (hi : (s.workers i).runs t ≠ 0) :
    t < s.next := by
  by_contra hn
  have hp := h.places t
  rw [submitted, if_neg hn] at hp
  have hzero := (Nat.add_eq_zero_iff.mp (Nat.add_eq_zero_iff.mp hp).1).2
  rw [Finset.sum_eq_zero_iff] at hzero
  exact hi (hzero i (Finset.mem_univ i))

theorem step (h : s.Placed) (hm : s.Move a s') : s'.Placed := by
  cases hm with
  | push first hf =>
      refine ⟨fun t => ?_, ?_, fun t ht => Nat.lt_succ_of_lt (h.accepted t ht), fun i ts p hw => ?_⟩
      · have hold := h.places t
        simp only [pushTask, count_linkTask, submitted_succ]
        omega
      · exact List.forall_mem_cons.mpr ⟨Nat.lt_succ_self _,
          fun t ht => Nat.lt_succ_of_lt (h.pushed t ht)⟩
      · obtain ⟨hne, hp⟩ := h.onStack i ts p hw
        exact ⟨hne, fun t ht => Nat.lt_succ_of_lt (hp t ht)⟩
  | post ht =>
      exact h.frame rfl rfl rfl rfl (fun u hu => h.pushed u (List.mem_of_mem_erase hu))
        (List.forall_mem_cons.mpr ⟨h.pushed _ ht, h.accepted⟩)
  | wait hw hs =>
      refine h.setWorker le_rfl (fun t => ?_) h.accepted fun _ _ hv => by cases hv
      rw [hw]
      rfl
  | leave hw hq =>
      refine h.setWorker le_rfl (fun t => ?_) h.accepted fun _ _ hv => by cases hv
      rw [hw]
      rfl
  | pop hw hq =>
      refine h.setWorker le_rfl (fun t => ?_) h.accepted fun _ _ hv => ?_
      · rw [hw, hq, count_cons]
        simp only [Worker.runs, ThreadPool.setWorker]
        omega
      · cases hv
        exact ⟨List.cons_ne_nil _ _, fun _ hn => by cases hn⟩
  | @pushFrom i ts first hw =>
      refine h.setWorker (Nat.le_succ _) (fun t => ?_)
        (fun t ht => Nat.lt_succ_of_lt (h.accepted t ht)) fun _ _ hv => ?_
      · rw [hw]
        simp only [Worker.runs, pushTask, count_linkTask, submitted_succ]
        omega
      · cases hv
        refine ⟨(h.onStack i ts none hw).1, fun t ht => ?_⟩
        cases ht
        exact Nat.lt_succ_self _
  | @postFrom i t ts hw =>
      obtain ⟨hne, ht⟩ := h.onStack i ts (some t) hw
      refine h.setWorker le_rfl (fun u => ?_)
        (List.forall_mem_cons.mpr ⟨ht t rfl, h.accepted⟩) fun _ _ hv => ?_
      · rw [hw]
        rfl
      · cases hv
        exact ⟨hne, fun _ hn => by cases hn⟩
  | @runSync i ts hw =>
      refine h.setWorker (Nat.le_succ _) (fun t => ?_)
        (fun t ht => Nat.lt_succ_of_lt (h.accepted t ht)) fun _ _ hv => ?_
      · rw [hw, submitted_succ]
        simp only [Worker.runs, ThreadPool.setWorker]
        rw [count_cons s.next ts]
        omega
      · cases hv
        exact ⟨List.cons_ne_nil _ _, fun _ hn => by cases hn⟩
  | @finish i t hw =>
      refine h.setWorker le_rfl (fun u => ?_) h.accepted fun _ _ hv => by cases hv
      rw [hw, count_cons]
      simp only [Worker.runs, ThreadPool.setWorker]
      omega
  | @finishSync i t u us hw =>
      have ht : t < s.next := by
        refine h.lt_of_runs (i := i) fun hi => ?_
        rw [hw, Worker.runs, List.count_cons_self] at hi
        cases hi
      refine h.setWorker le_rfl (fun x => ?_)
        (List.forall_mem_cons.mpr ⟨ht, h.accepted⟩) fun _ _ hv => ?_
      · rw [hw]
        simp only [Worker.runs, ThreadPool.setWorker]
        rw [count_cons t (u :: us), count_cons t s.executed]
        omega
      · cases hv
        exact ⟨List.cons_ne_nil _ _, fun _ hn => by cases hn⟩
  | fini | finiPost | allPosted | join | allJoined =>
      exact h.frame rfl rfl rfl rfl h.pushed h.accepted

end Placed

/-! ## The end -/

/-- The number of workers that `ztk_thread_pool_fini` has joined. -/
def joined (s : ThreadPool n) : Nat :=
  match s.fini with
  | .notCalled | .posting _ => 0
  | .joining i => i
  | .returned => n

/-- A worker that was joined has left its loop. -/
def JoinedLeft (s : ThreadPool n) : Prop := ∀ i : Fin n, i < s.joined → s.workers i = .exited

/-- A worker that has left its loop does nothing. -/
theorem exited_stays (hm : s.Move a s') {j : Fin n} (hj : s.workers j = .exited) :
    s'.workers j = .exited := by
  have hset : ∀ {i : Fin n} {w v : Worker}, s.workers i = w → w ≠ .exited →
      Function.update s.workers i v j = .exited := by
    intro i w v hw hne
    have hji : j ≠ i := by
      rintro rfl
      exact hne (hw.symm.trans hj)
    rw [Function.update_of_ne hji, hj]
  cases hm with
  | push | post | fini | finiPost | allPosted | join | allJoined => exact hj
  | wait hw | leave hw | pop hw | pushFrom first hw | postFrom hw | runSync hw | finish hw
  | finishSync hw => exact hset hw fun hn => by cases hn

theorem JoinedLeft.step (h : s.JoinedLeft) (hm : s.Move a s') : s'.JoinedLeft := by
  have hkeep : s'.joined = s.joined → s'.JoinedLeft := by
    intro hj i hi
    rw [hj] at hi
    exact exited_stays hm (h i hi)
  cases hm with
  | push | post | wait | leave | pop | pushFrom | postFrom | runSync | finish | finishSync =>
      exact hkeep rfl
  | fini | finiPost | allPosted => exact fun i hi => absurd hi (Nat.not_lt_zero _)
  | @join k hf hw =>
      intro i hi
      have hi : (i : Nat) < k + 1 := hi
      by_cases hik : i = k
      · exact hik ▸ hw
      · refine h i ?_
        simp only [joined, hf]
        omega
  | @allJoined k hf hk =>
      intro i _
      refine h i ?_
      rw [joined, hf]
      exact i.isLt.trans_le hk

/-- After `ztk_thread_pool_fini` all workers have left their loops. -/
theorem JoinedLeft.returned (h : s.JoinedLeft) (hf : s.fini = .returned) :
    (∀ i, s.workers i = .exited) ∧ s.left = n := by
  have hexit : ∀ i, s.workers i = .exited := by
    intro i
    refine h i ?_
    rw [joined, hf]
    exact i.isLt
  refine ⟨hexit, ?_⟩
  rw [left, Finset.sum_congr rfl fun i _ => congrArg Worker.left (hexit i)]
  simp [Worker.left]

/-- The steps that `ztk_thread_pool_fini` has to make. -/
def finiRank (n : Nat) : FiniPc → Nat
  | .notCalled => 0
  | .posting k => 3 * (n - k) + n + 2
  | .joining i => n - i + 1
  | .returned => 0

/-- The number of steps that are left if no more tasks are submitted. -/
def rank (s : ThreadPool n) : Nat :=
  2 * s.sem + s.queue.length + (∑ i, (s.workers i).rank) + 3 * s.pushed.length + finiRank n s.fini

/-- A step that goes on with what has begun lowers the rank. -/
theorem rank_lt (hm : s.Move a s') (ha : a.completes = true) : s'.rank < s.rank := by
  have hset : ∀ (x y : Nat) {i : Fin n} {w v : Worker}, s.workers i = w → w.rank = x → v.rank = y →
      (∑ j, (Function.update s.workers i v j).rank) + x = (∑ j, (s.workers j).rank) + y := by
    rintro x y i w v hw rfl rfl
    rw [← hw]
    exact sum_update s.workers i v Worker.rank
  cases hm with
  | push | pushFrom | runSync | fini => cases ha
  | @post t ht =>
      have hlen := List.length_erase_of_mem ht
      have hpos := List.length_pos_of_mem ht
      simp only [rank, postTask]
      omega
  | wait hw hs =>
      have htally := hset 0 1 (v := .awake) hw rfl rfl
      simp only [rank, setWorker]
      omega
  | leave hw hq =>
      have htally := hset 1 0 (v := .exited) hw rfl rfl
      simp only [rank, setWorker]
      omega
  | @pop i t ts hw hq =>
      have htally := hset 1 1 (v := .running [t] none) hw rfl rfl
      simp only [rank, setWorker, hq, List.length_cons]
      omega
  | @postFrom i t ts hw =>
      have htally := hset (ts.length + 3) ts.length (v := .running ts none) hw rfl rfl
      simp only [rank, setWorker, postTask]
      omega
  | @finish i t hw =>
      have htally := hset 1 0 (v := .waiting) hw rfl rfl
      simp only [rank, setWorker]
      omega
  | @finishSync i t u us hw =>
      have htally := hset (us.length + 2) (us.length + 1) (v := .running (u :: us) none) hw rfl rfl
      simp only [rank, setWorker]
      omega
  | finiPost hf hk =>
      simp only [rank, hf, finiRank]
      omega
  | allPosted hf hk =>
      simp only [rank, hf, finiRank]
      omega
  | @join i hf hw =>
      have hi := i.isLt
      simp only [rank, hf, finiRank]
      omega
  | allJoined hf hi =>
      simp only [rank, hf, finiRank]
      omega

/-- A worker that does not wait for a token can go on. -/
theorem worker_goes_on (h : s.Placed) {i : Fin n} (hwait : s.workers i ≠ .waiting)
    (hexit : s.workers i ≠ .exited) : ∃ a t, a.completes = true ∧ s.step a = some t := by
  cases hw : s.workers i with
  | waiting => exact absurd hw hwait
  | exited => exact absurd hw hexit
  | awake => exact ⟨.pop i, _, rfl, if_pos hw⟩
  | running ts p =>
      cases p with
      | some t => exact ⟨.postFrom i, _, rfl, by rw [step, hw]⟩
      | none =>
          cases ts with
          | nil => exact absurd rfl (h.onStack i [] none hw).1
          | cons t ts => exact ⟨.finish i, _, rfl, by rw [step, hw]⟩

/-- The shutdown is not stuck: where a worker waits in vain and all others do nothing,
its token is there. -/
theorem goes_on (hb : s.Balanced) (hp : s.Placed) (hc : s.fini ≠ .notCalled)
    (hr : s.fini ≠ .returned) : ∃ a t, a.completes = true ∧ s.step a = some t := by
  cases hf : s.fini with
  | notCalled => exact absurd hf hc
  | returned => exact absurd hf hr
  | posting k =>
      by_cases hk : k < n
      · exact ⟨.finiPost, _, rfl, by rw [step, hf]; exact if_pos hk⟩
      · exact ⟨.finiPost, _, rfl, by rw [step, hf]; exact if_neg hk⟩
  | joining k =>
      by_cases hk : k < n
      · by_cases hexit : s.workers ⟨k, hk⟩ = .exited
        · have hjoin : s.joinNext k = some { s with fini := .joining (k + 1) } := by
            rw [joinNext, dif_pos hk, if_pos hexit]
          exact ⟨.join, _, rfl, by rw [step, hf]; exact hjoin⟩
        · by_cases hall : ∀ j, s.workers j = .waiting ∨ s.workers j = .exited
          · have hwait := (hall ⟨k, hk⟩).resolve_right hexit
            -- the others hold no token, so one is left in the semaphore
            have hsum : (∑ j, (s.workers j).tokens) = s.left := by
              refine Finset.sum_congr rfl fun j _ => ?_
              rcases hall j with hj | hj
              · rw [hj]; rfl
              · rw [hj]; rfl
            have hlt : s.left < n := left_lt (i := ⟨k, hk⟩) (by rw [hwait]; rfl)
            have htok := hb.tokens
            rw [hsum, hb.closed hc, posted, hf] at htok
            simp only [List.length_nil] at htok
            have hsem : 0 < s.sem := by omega
            exact ⟨.wait ⟨k, hk⟩, _, rfl, if_pos ⟨hwait, hsem⟩⟩
          · obtain ⟨j, hj⟩ := not_forall.mp hall
            rw [not_or] at hj
            exact worker_goes_on hp hj.1 hj.2
      · have hjoin : s.joinNext k = some { s with fini := .returned, started := false } := by
          rw [joinNext, dif_neg hk]
        exact ⟨.join, _, rfl, by rw [step, hf]; exact hjoin⟩

/-- What is promised for a call of `ztk_thread_pool_fini`. -/
structure ShutsDown (s : ThreadPool n) : Prop where
  /-- A worker leaves its loop only after a token of `ztk_thread_pool_fini`. -/
  afterTokens : s.left ≤ s.posted
  beforeCall : s.fini = .notCalled → ∀ i, s.workers i ≠ .exited
  goesOn : s.fini ≠ .notCalled → s.fini ≠ .returned →
    ∃ a t, a.completes = true ∧ s.step a = some t
  ends : ∀ as t, (∀ a ∈ as, a.completes = true) → (threadPoolMachine n).run s as = some t →
    as.length ≤ s.rank
  complete : s.fini = .returned →
    s.queue = [] ∧ ∀ t ∈ s.accepted, s.executed.count t = 1

theorem shutsDown (hb : s.Balanced) (hp : s.Placed) (hj : s.JoinedLeft) : s.ShutsDown where
  afterTokens := hb.left_le
  beforeCall hf i hi := by
    have hzero := hb.left_le
    rw [posted, hf, Nat.le_zero, left, Finset.sum_eq_zero_iff] at hzero
    have h := hzero i (Finset.mem_univ i)
    rw [hi] at h
    cases h
  goesOn := goes_on hb hp
  ends as t has hrun := by
    have hlen := Machine.length_le_of_rank (M := threadPoolMachine n) (r := rank)
      (P := fun a => a.completes = true) (fun s a t ha hs => rank_lt (step_move hs) ha) as s t has hrun
    omega
  complete hf := by
    obtain ⟨hexit, hleft⟩ := hj.returned hf
    have hq := hb.drained hleft
    refine ⟨hq, fun t ht => ?_⟩
    have hplaces := hp.places t
    rw [hq, Finset.sum_congr rfl fun i _ => congrArg (Worker.runs t) (hexit i), submitted,
      if_pos (hp.accepted t ht)] at hplaces
    simpa [Worker.runs] using hplaces

theorem start_balanced : (start n).Balanced where
  tokens := by simp [start, Worker.tokens, posted]
  left_le := by simp [start, left, Worker.left]
  posted_le := Nat.zero_le n
  drained _ := rfl
  closed _ := rfl

theorem start_placed : (start n).Placed where
  places t := by simp [start, Worker.runs, submitted]
  pushed _ ht := by cases ht
  accepted _ ht := by cases ht
  onStack _ _ _ hw := by cases hw

end ThreadPool

theorem workerCount_pos (threadCount hardwareConcurrency : Nat) :
    0 < workerCount threadCount hardwareConcurrency := by
  unfold workerCount
  generalize (if threadCount ≠ 0 then threadCount else hardwareConcurrency) = n
  simp only
  split
  · exact Nat.one_pos
  · next hn => exact Nat.lt_of_lt_of_le Nat.one_pos (Nat.not_lt.mp hn)

/-- In every run the shutdown waits for the tokens, cannot get stuck, and is over only
when every task that was accepted has been executed once. -/
theorem thread_pool_shutdown (threadCount hardwareConcurrency : Nat)
    {s : ThreadPool (workerCount threadCount hardwareConcurrency)}
    (hl : (threadPoolMachine _).Leads Machine.Any (.start _) s) : s.ShutsDown := by
  have hn := workerCount_pos threadCount hardwareConcurrency
  have h := hl.invariant (I := fun s => s.Balanced ∧ s.Placed ∧ s.JoinedLeft)
    (fun s a t h _ hs => ?_)
    ⟨ThreadPool.start_balanced, ThreadPool.start_placed, fun i hi => absurd hi (Nat.not_lt_zero _)⟩
  · exact ThreadPool.shutsDown h.1 h.2.1 h.2.2
  · have hm := ThreadPool.step_move hs
    exact ⟨h.1.step hn hm, h.2.1.step hm, h.2.2.step hm⟩

/-- Two workers.  A task from outside runs, it runs a second one at once, and it pushes
a third one while `ztk_thread_pool_fini` posts its tokens. -/
def nestedRun : List (ThreadAct 2) :=
  [.push false, .post 0, .wait 0, .pop 0, .runSync 0, .finish 0, .fini, .finiPost, .pushFrom 0 true,
    .wait 1, .pop 1, .postFrom 0, .finish 0, .finiPost, .finiPost, .finish 1, .wait 0, .pop 0, .wait 1,
    .pop 1, .join, .join, .join]

/-- At its end all three are accepted, and they have been executed once. -/
theorem thread_pool_shutdown_nested :
    ∃ s, (threadPoolMachine (workerCount 2 8)).Leads Machine.Any (.start _) s ∧
      s.fini = .returned ∧ s.accepted = [2, 1, 0] ∧ ∀ t ∈ s.accepted, s.executed.count t = 1 := by
  have hrun : ((threadPoolMachine 2).run (.start 2) nestedRun).map
      (fun s => decide (s.fini = .returned ∧ s.accepted = [2, 1, 0])) = some true := by
    decide +kernel
  obtain ⟨s, hs, hf, ha⟩ := Machine.exists_run hrun
  have hl := Machine.leads_of_run nestedRun _ s hs (Machine.runMeets_any _ _)
  exact ⟨s, hl, hf, ha, ((thread_pool_shutdown 2 8 hl).complete hf).2⟩

end Ztk.Thread
