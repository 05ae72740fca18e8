import Ztk.Lib.Ledger
import Ztk.Thread.ThreadPool

/-!
# The nodes of the thread pool

`thread_pool.c`: the `ztk_thread_pool_task` nodes of a pool over its whole life.  One
thread, which is not a worker, calls `ztk_thread_pool_start`, `ztk_thread_pool_fini` and
`ztk_thread_pool_destroy`, in any order; any number of others submit tasks, and are done
before the pool is destroyed.  Allocations, threads and the semaphore may fail at any time.

A node is numbered when `push_task` allocates it.  Nobody else has it before it is linked, so
both are one step; the semaphore is posted in another.  A task that a worker runs at once, with
`may_sync` set, has no node.
-/

namespace Ztk.Thread

open Ztk.Lib

/-! ## State -/

/-- A thread in `pool_worker`. -/
inductive NodeWorker where
  /-- Before its loop. -/
  | entering
  /-- In `ztk_sem_wait`. -/
  | waiting
  /-- Back from `ztk_sem_wait`, with a token. -/
  | awake
  /-- In the function of a node it has popped, and in `depth` others that run on top of it.
  With `pushing` it has linked a node and not posted for it yet. -/
  | running (node depth : Nat) (pushing : Bool)
  | exited
deriving DecidableEq

/-- The `task` of `pool_worker`, while it runs. -/
def NodeWorker.node : NodeWorker → Option Nat
  | .running t _ _ => some t
  | .entering | .waiting | .awake | .exited => none

/-- The functions that end in `join_workers`. -/
inductive JoinCaller where
  | start
  | fini
  | destroy
deriving DecidableEq

/-- Where the thread is that starts and destroys the pool. -/
inductive NodePc where
  /-- In no call. -/
  | idle
  /-- In `ztk_thread_pool_start`, about to create a worker. -/
  | starting (k : Nat)
  /-- In the `ztk_sem_post` of `ztk_thread_pool_fini`, with `k` tokens posted. -/
  | posting (k : Nat) (caller : JoinCaller)
  /-- In `join_workers(pool, count)`, at worker `i`. -/
  | joining (count i : Nat) (caller : JoinCaller)
  /-- In the loop of `ztk_thread_pool_destroy`. -/
  | freeing
  | destroyed
deriving DecidableEq

/-- `ztk_thread_pool_destroy` has been called. -/
def NodePc.destroys : NodePc → Bool
  | .posting _ caller | .joining _ _ caller => decide (caller = .destroy)
  | .freeing | .destroyed => true
  | .idle | .starting _ => false

/-- `ztk_thread_pool` with `worker_count` `n`. -/
structure PoolNodes (n : Nat) where
  queue : List Nat
  sem : Nat
  /-- The threads of `workers`, where it is not null. -/
  workers : Fin n → Option NodeWorker
  started : Bool
  pc : NodePc
  /-- Calls from outside that have found the pool started, and not linked their node yet. -/
  callers : Nat
  /-- Calls from outside that have linked their node, and not posted for it yet. -/
  pushed : Nat
  freed : List Nat
  /-- The number of the next node. -/
  next : Nat

inductive NodeAct (n : Nat) where
  | start
  | create (ok : Bool)
  | fini
  | destroy
  | finiPost (ok : Bool)
  | join
  | free
  | call
  | noMem
  | push (first : Bool)
  | post (ok : Bool)
  | enter (i : Fin n)
  | wait (i : Fin n) (ok : Bool)
  | pop (i : Fin n)
  | pushFrom (i : Fin n) (first : Bool)
  | postFrom (i : Fin n) (ok : Bool)
  | runSync (i : Fin n)
  | finish (i : Fin n)

namespace PoolNodes

variable {n : Nat}

/-- After `ztk_thread_pool_create`. -/
def created (n : Nat) : PoolNodes n where
  queue := []
  sem := 0
  workers _ := none
  started := false
  pc := .idle
  callers := 0
  pushed := 0
  freed := []
  next := 0

/-! ## The functions of the source -/

def setWorker (s : PoolNodes n) (i : Fin n) (w : Option NodeWorker) : PoolNodes n :=
  { s with workers := Function.update s.workers i w }

/-- The semaphore after `ztk_sem_post(sem, 1)`. -/
def semPost (sem : Nat) (ok : Bool) : Nat := if ok then sem + 1 else sem

/-- `push_task`, up to the semaphore. -/
def pushTask (s : PoolNodes n) (first : Bool) : PoolNodes n :=
  { s with queue := ThreadPool.linkTask s.queue s.next first, next := s.next + 1 }

/-- One iteration of the loop of `ztk_thread_pool_start`, or its end. -/
def createWorker (s : PoolNodes n) (ok : Bool) (k : Nat) : PoolNodes n :=
  if h : k < n then
    if ok then { s.setWorker ⟨k, h⟩ (some .entering) with pc := .starting (k + 1) }
    else { s with pc := .joining k 0 .start }
  else { s with started := true, pc := .idle }

/-- One iteration of the loop of `ztk_sem_post(sem, worker_count)`, or its end. -/
def finiPost (s : PoolNodes n) (ok : Bool) (k : Nat) (caller : JoinCaller) : PoolNodes n :=
  if k < n ∧ ok = true then { s with sem := s.sem + 1, pc := .posting (k + 1) caller }
  else { s with pc := .joining n 0 caller }

/-- After `join_workers`. -/
def joined (s : PoolNodes n) : JoinCaller → PoolNodes n
  | .start => { s with pc := .idle }
  | .fini => { s with started := false, pc := .idle }
  | .destroy => { s with started := false, pc := .freeing }

/-- One iteration of the loop of `join_workers`, or its end. -/
def joinWorker (s : PoolNodes n) (count i : Nat) (caller : JoinCaller) : Option (PoolNodes n) :=
  if i < count then
    if h : i < n then
      match s.workers ⟨i, h⟩ with
      | none => some { s with pc := .joining count (i + 1) caller }
      | some .exited => some { s.setWorker ⟨i, h⟩ none with pc := .joining count (i + 1) caller }
      | some _ => none
    else none
  else some (s.joined caller)

/-- One iteration of the loop of `ztk_thread_pool_destroy`, or its end.  What is left of the
list is in `queue`. -/
def freeNext (s : PoolNodes n) : PoolNodes n :=
  match s.queue with
  | [] => { s with pc := .destroyed }
  | t :: ts => { s with queue := ts, freed := s.freed ++ [t] }

/-- `pop_task` by a worker, which runs the task or leaves its loop. -/
def popBy (s : PoolNodes n) (i : Fin n) : PoolNodes n :=
  match ThreadPool.popTask s.queue with
  | none => s.setWorker i (some .exited)
  | some (t, ts) => { s.setWorker i (some (.running t 0 false)) with queue := ts }

/-- A function returns in a worker: that of the popped node to the loop of `pool_worker`,
which has no more use for it, another one to the task that called it. -/
def finishBy (s : PoolNodes n) (i : Fin n) (t : Nat) : Nat → PoolNodes n
  | 0 => s.setWorker i (some .waiting)
  | depth + 1 => s.setWorker i (some (.running t depth false))

/-- A step of the thread that starts and destroys the pool, of a thread that submits, or of a
worker. -/
def step (s : PoolNodes n) : NodeAct n → Option (PoolNodes n)
  | .start =>
      if s.pc = .idle then some (if s.started then s else { s with pc := .starting 0 }) else none
  | .create ok =>
      match s.pc with
      | .starting k => some (s.createWorker ok k)
      | _ => none
  | .fini =>
      if s.pc = .idle then some (if s.started then { s with pc := .posting 0 .fini } else s)
      else none
  | .destroy =>
      if s.pc = .idle ∧ s.callers = 0 ∧ s.pushed = 0 then
        some { s with pc := if s.started then .posting 0 .destroy else .freeing }
      else none
  | .finiPost ok =>
      match s.pc with
      | .posting k caller => some (s.finiPost ok k caller)
      | _ => none
  | .join =>
      match s.pc with
      | .joining count i caller => s.joinWorker count i caller
      | _ => none
  | .free => if s.pc = .freeing then some s.freeNext else none
  | .call =>
      if s.started = true ∧ s.pc.destroys = false then some { s with callers := s.callers + 1 }
      else none
  | .noMem => if 0 < s.callers then some { s with callers := s.callers - 1 } else none
  | .push first =>
      if 0 < s.callers then
        some { s.pushTask first with callers := s.callers - 1, pushed := s.pushed + 1 }
      else none
  | .post ok =>
      if 0 < s.pushed then some { s with sem := semPost s.sem ok, pushed := s.pushed - 1 }
      else none
  | .enter i =>
      if s.workers i = some .entering then some (s.setWorker i (some .waiting)) else none
  | .wait i ok =>
      if s.workers i ≠ some .waiting then none
      else if ok = false then some (s.setWorker i (some .exited))
      else if 0 < s.sem then some { s.setWorker i (some .awake) with sem := s.sem - 1 }
      else none
  | .pop i => if s.workers i = some .awake then some (s.popBy i) else none
  | .pushFrom i first =>
      match s.workers i with
      | some (.running t depth false) =>
          if s.started then
            some ((s.pushTask first).setWorker i (some (.running t depth true)))
          else none
      | _ => none
  | .postFrom i ok =>
      match s.workers i with
      | some (.running t depth true) =>
          some { s.setWorker i (some (.running t depth false)) with sem := semPost s.sem ok }
      | _ => none
  | .runSync i =>
      match s.workers i with
      | some (.running t depth false) =>
          if s.started then some (s.setWorker i (some (.running t (depth + 1) false))) else none
      | _ => none
  | .finish i =>
      match s.workers i with
      | some (.running t depth false) => some (s.finishBy i t depth)
      | _ => none

/-- The step is the return of `task->fn(task->user)` in `pool_worker`. -/
def returns (s : PoolNodes n) : NodeAct n → Bool
  | .finish i =>
      match s.workers i with
      | some (.running _ 0 false) => true
      | _ => false
  | _ => false

end PoolNodes

def poolNodesMachine (n : Nat) : Machine (PoolNodes n) (NodeAct n) := ⟨PoolNodes.step⟩

namespace PoolNodes

variable {n : Nat} {s s' : PoolNodes n} {a : NodeAct n} {d : Bool}

/-! ## What a step does -/

/-- The steps of the source, grouped by what they do to nodes and workers; the flag says
whether the function of a node returns. -/
inductive Move (s : PoolNodes n) : Bool → PoolNodes n → Prop where
  | stay : Move s false s
  | outside {sem callers pushed : Nat} (h : s.pc.destroys = true → callers ≤ s.callers) :
      Move s false { s with sem := sem, callers := callers, pushed := pushed }
  | push (first : Bool) {callers pushed : Nat} (h : 0 < s.callers) (hle : callers ≤ s.callers) :
      Move s false { s.pushTask first with callers := callers, pushed := pushed }
  | work {i : Fin n} {w w' : NodeWorker} {sem : Nat} (hw : s.workers i = some w)
      (hnode : w'.node = w.node) : Move s false { s.setWorker i (some w') with sem := sem }
  | pop {i : Fin n} {w : NodeWorker} {t : Nat} {ts : List Nat} (hw : s.workers i = some w)
      (hnode : w.node = none) (hq : s.queue = t :: ts) :
      Move s false { s.setWorker i (some (.running t 0 false)) with queue := ts }
  | pushFrom (first : Bool) {i : Fin n} {w w' : NodeWorker} (hw : s.workers i = some w)
      (hnode : w'.node = w.node) : Move s false ((s.pushTask first).setWorker i (some w'))
  | finish {i : Fin n} {t : Nat} (hw : s.workers i = some (.running t 0 false)) :
      Move s true (s.setWorker i (some .waiting))
  | start (hpc : s.pc = .idle) (hs : s.started = false) : Move s false { s with pc := .starting 0 }
  | create {k : Nat} (hpc : s.pc = .starting k) (hk : k < n) :
      Move s false { s.setWorker ⟨k, hk⟩ (some .entering) with pc := .starting (k + 1) }
  | createFails {k : Nat} (hpc : s.pc = .starting k) :
      Move s false { s with pc := .joining k 0 .start }
  | allCreated {k : Nat} (hpc : s.pc = .starting k) :
      Move s false { s with started := true, pc := .idle }
  | fini (hpc : s.pc = .idle) : Move s false { s with pc := .posting 0 .fini }
  | destroy (hpc : s.pc = .idle) (hc : s.callers = 0) :
      Move s false { s with pc := if s.started then .posting 0 .destroy else .freeing }
  | finiPost {k : Nat} {caller : JoinCaller} (hpc : s.pc = .posting k caller) :
      Move s false { s with sem := s.sem + 1, pc := .posting (k + 1) caller }
  | allPosted {k : Nat} {caller : JoinCaller} (hpc : s.pc = .posting k caller) :
      Move s false { s with pc := .joining n 0 caller }
  | join {count : Nat} {i : Fin n} {caller : JoinCaller} (hpc : s.pc = .joining count i caller)
      (hnode : (s.workers i).bind NodeWorker.node = none) :
      Move s false { s.setWorker i none with pc := .joining count (i + 1) caller }
  | allJoined {count i : Nat} {caller : JoinCaller} (hpc : s.pc = .joining count i caller)
      (hi : count ≤ i) : Move s false (s.joined caller)
  | free {t : Nat} {ts : List Nat} (hpc : s.pc = .freeing) (hq : s.queue = t :: ts) :
      Move s false { s with queue := ts, freed := s.freed ++ [t] }
  | allFreed (hpc : s.pc = .freeing) (hq : s.queue = []) :
      Move s false { s with pc := .destroyed }

theorem joinWorker_move {count i : Nat} {caller : JoinCaller} (hpc : s.pc = .joining count i caller)
    (h : s.joinWorker count i caller = some s') : s.Move false s' := by
  rw [joinWorker] at h
  split at h
  · next hic =>
      split at h
      · next hi =>
          split at h
          · next hw =>
              cases h
              have hm := Move.join (i := ⟨i, hi⟩) hpc (by rw [hw]; rfl)
              rwa [setWorker, ← hw, Function.update_eq_self] at hm
          · next hw =>
              cases h
              exact .join (i := ⟨i, hi⟩) hpc (by rw [hw]; rfl)
          · cases h
      · cases h
  · next hic =>
      cases h
      exact .allJoined hpc (Nat.not_lt.mp hic)

theorem popBy_move {i : Fin n} (hw : s.workers i = some .awake) : s.Move false (s.popBy i) := by
  simp only [popBy]
  cases hq : s.queue with
  | nil => exact .work hw rfl
  | cons t ts => exact .pop hw rfl hq

theorem step_move (h : s.step a = some s') : s.Move (s.returns a) s' := by
  cases a with
  | start =>
      rw [step, Option.ite_none_right_eq_some] at h
      obtain ⟨hpc, h⟩ := h
      cases h
      split
      · exact .stay
      · next hs => exact .start hpc (Bool.not_eq_true _ ▸ hs)
  | create ok =>
      rw [step] at h
      split at h
      · next k hpc =>
          cases h
          rw [createWorker]
          split
          · next hk =>
              split
              · exact .create hpc hk
              · exact .createFails hpc
          · exact .allCreated hpc
      · cases h
  | fini =>
      rw [step, Option.ite_none_right_eq_some] at h
      obtain ⟨hpc, h⟩ := h
      cases h
      split
      · exact .fini hpc
      · exact .stay
  | destroy =>
      rw [step, Option.ite_none_right_eq_some] at h
      obtain ⟨⟨hpc, hc, -⟩, h⟩ := h
      cases h
      exact .destroy hpc hc
  | finiPost ok =>
      rw [step] at h
      split at h
      · next k caller hpc =>
          cases h
          rw [PoolNodes.finiPost]
          split
          · exact .finiPost hpc
          · exact .allPosted hpc
      · cases h
  | join =>
      rw [step] at h
      split at h
      · next count i caller hpc => exact joinWorker_move hpc h
      · cases h
  | free =>
      rw [step, Option.ite_none_right_eq_some] at h
      obtain ⟨hpc, h⟩ := h
      cases h
      rw [freeNext]
      split
      · next hq => exact .allFreed hpc hq
      · next hq => exact .free hpc hq
  | call =>
      rw [step, Option.ite_none_right_eq_some] at h
      obtain ⟨⟨-, hd⟩, h⟩ := h
      cases h
      exact .outside fun hd' => absurd hd' (Bool.not_eq_true _ ▸ hd)
  | noMem =>
      rw [step, Option.ite_none_right_eq_some] at h
      cases h.2
      exact .outside fun _ => Nat.sub_le _ _
  | push first =>
      rw [step, Option.ite_none_right_eq_some] at h
      obtain ⟨hc, h⟩ := h
      cases h
      exact .push first hc (Nat.sub_le _ _)
  | post ok =>
      rw [step, Option.ite_none_right_eq_some] at h
      cases h.2
      exact .outside fun _ => le_rfl
  | enter i =>
      rw [step, Option.ite_none_right_eq_some] at h
      obtain ⟨hw, h⟩ := h
      cases h
      exact .work hw rfl
  | wait i ok =>
      rw [step] at h
      split at h
      · cases h
      · next hw =>
          have hw := not_not.mp hw
          split at h
          · cases h
            exact .work hw rfl
          · rw [Option.ite_none_right_eq_some] at h
            cases h.2
            exact .work hw rfl
  | pop i =>
      rw [step, Option.ite_none_right_eq_some] at h
      obtain ⟨hw, h⟩ := h
      cases h
      exact popBy_move hw
  | pushFrom i first =>
      rw [step] at h
      split at h
      · next t depth hw =>
          rw [Option.ite_none_right_eq_some] at h
          cases h.2
          exact .pushFrom first hw rfl
      · cases h
  | postFrom i ok =>
      rw [step] at h
      split at h
      · next t depth hw =>
          cases h
          exact .work hw rfl
      · cases h
  | runSync i =>
      rw [step] at h
      split at h
      · next t depth hw =>
          rw [Option.ite_none_right_eq_some] at h
          cases h.2
          exact .work hw rfl
      · cases h
  | finish i =>
      rw [step] at h
      split at h
      · next t depth hw =>
          cases h
          rw [returns, hw]
          cases depth with
          | zero => exact .finish hw
          | succ depth => exact .work hw rfl
      · cases h

/-! ## Workers and calls -/

/-- Where there may be a thread. -/
def MayLive (started : Bool) (j : Nat) : NodePc → Prop
  | .idle => started = true
  | .starting k => j < k
  | .posting _ _ => True
  | .joining count i _ => i ≤ j ∧ j < count
  | .freeing | .destroyed => False

/-- What the thread that starts and destroys the pool relies on. -/
structure Managed (s : PoolNodes n) : Prop where
  live : ∀ j : Fin n, s.workers j ≠ none → MayLive s.started j s.pc
  calls : s.pc.destroys = true → s.callers = 0
  emptied : s.pc = .destroyed → s.queue = []

theorem Managed.not_live (h : s.Managed) {j : Fin n} (hj : ¬ MayLive s.started j s.pc) :
    s.workers j = none := by
  by_contra hw
  exact hj (h.live j hw)

/-- A worker that changes was there, and no worker is there once the list is being freed. -/
theorem Managed.work (h : s.Managed) {i : Fin n} {w : NodeWorker} (hw : s.workers i = some w)
    (w' : NodeWorker) {queue : List Nat} {sem next : Nat} :
    Managed { s.setWorker i (some w') with queue := queue, sem := sem, next := next } := by
  have hi : MayLive s.started i s.pc := h.live i (by rw [hw]; exact Option.some_ne_none w)
  refine ⟨fun j hj => ?_, h.calls, fun hpc => ?_⟩
  · by_cases hji : j = i
    · exact hji ▸ hi
    · simp only [setWorker, Function.update_of_ne hji] at hj
      exact h.live j hj
  · rw [show s.pc = .destroyed from hpc] at hi
    exact hi.elim

theorem Managed.join (h : s.Managed) {count : Nat} {i : Fin n} {caller : JoinCaller}
    (hpc : s.pc = .joining count i caller) :
    Managed { s.setWorker i none with pc := .joining count (i + 1) caller } := by
  refine ⟨fun j hj => ?_, fun hd => h.calls (by rw [hpc]; exact hd), NodePc.noConfusion⟩
  have hji : j ≠ i := by
    rintro rfl
    exact hj (Function.update_self ..)
  have hl := h.live j (by simpa only [setWorker, Function.update_of_ne hji] using hj)
  rw [hpc, MayLive] at hl
  have hne : (j : Nat) ≠ i := fun he => hji (Fin.ext he)
  exact ⟨by omega, hl.2⟩

/-- `join_workers` leaves no thread. -/
theorem Managed.joined (h : s.Managed) {count i : Nat} {caller : JoinCaller}
    (hpc : s.pc = .joining count i caller) (hi : count ≤ i) : (s.joined caller).Managed := by
  have hgone : ∀ j, s.workers j = none := fun j => h.not_live fun hl => by
    rw [hpc, MayLive] at hl
    omega
  have hcalls : caller = .destroy → s.callers = 0 := fun hc =>
    h.calls (by rw [hpc]; exact decide_eq_true hc)
  cases caller with
  | start | fini =>
      exact ⟨fun j hj => absurd (hgone j) hj, fun hd => Bool.noConfusion hd, NodePc.noConfusion⟩
  | destroy =>
      exact ⟨fun j hj => absurd (hgone j) hj, fun _ => hcalls rfl, NodePc.noConfusion⟩

theorem Managed.step (h : s.Managed) (hm : s.Move d s') : s'.Managed := by
  cases hm with
  | stay => exact h
  | outside hc => exact ⟨h.live, fun hd => Nat.le_zero.mp (h.calls hd ▸ hc hd), h.emptied⟩
  | push first hc hle =>
      have hpc : s.pc.destroys ≠ true := fun hd => absurd (h.calls hd) (Nat.ne_of_gt hc)
      refine ⟨h.live, fun hd => absurd hd hpc, fun he => absurd ?_ hpc⟩
      rw [show s.pc = .destroyed from he]
      rfl
  | work hw | pop hw | pushFrom _ hw | finish hw => exact h.work hw _
  | start hpc hs =>
      refine ⟨fun j hj => ?_, fun hd => Bool.noConfusion hd, NodePc.noConfusion⟩
      have hl := h.live j hj
      rw [hpc, MayLive, hs] at hl
      cases hl
  | @create k hpc hk =>
      refine ⟨fun j hj => ?_, fun hd => Bool.noConfusion hd, NodePc.noConfusion⟩
      by_cases hjk : j = ⟨k, hk⟩
      · subst hjk
        exact Nat.lt_succ_self k
      · have hl := h.live j (by simpa only [setWorker, Function.update_of_ne hjk] using hj)
        rw [hpc] at hl
        exact Nat.lt_succ_of_lt hl
  | createFails hpc =>
      refine ⟨fun j hj => ?_, fun hd => Bool.noConfusion hd, NodePc.noConfusion⟩
      have hl := h.live j hj
      rw [hpc] at hl
      exact ⟨Nat.zero_le _, hl⟩
  | allCreated hpc => exact ⟨fun j _ => rfl, fun hd => Bool.noConfusion hd, NodePc.noConfusion⟩
  | fini hpc => exact ⟨fun j _ => trivial, fun hd => Bool.noConfusion hd, NodePc.noConfusion⟩
  | destroy hpc hc =>
      refine ⟨fun j hj => ?_, fun _ => hc, fun he => ?_⟩
      · have hl : s.started = true := by
          have hl := h.live j hj
          rwa [hpc] at hl
        simp only [hl, if_true]
        trivial
      · simp only at he
        split at he
        · cases he
        · cases he
  | finiPost hpc =>
      exact ⟨fun j _ => trivial, fun hd => h.calls (by rw [hpc]; exact hd), NodePc.noConfusion⟩
  | allPosted hpc =>
      exact ⟨fun j _ => ⟨Nat.zero_le _, j.isLt⟩, fun hd => h.calls (by rw [hpc]; exact hd),
        NodePc.noConfusion⟩
  | join hpc hnode => exact h.join hpc
  | allJoined hpc hi => exact h.joined hpc hi
  | free hpc hq =>
      refine ⟨h.live, h.calls, fun he => ?_⟩
      rw [show s.pc = .destroyed from he] at hpc
      cases hpc
  | allFreed hpc hq =>
      refine ⟨fun j hj => ?_, fun _ => h.calls (by rw [hpc]; rfl), fun _ => hq⟩
      have hl := h.live j hj
      rwa [hpc] at hl

/-! ## The ledger of the nodes -/

/-- Where the nodes are: in the list, with the worker that runs them, or freed. -/
def ledger (s : PoolNodes n) : Ledger (Fin n) where
  queue := s.queue
  held i := (s.workers i).bind NodeWorker.node
  freed := s.freed
  next := s.next

theorem ledger_held (i : Fin n) : s.ledger.held i = (s.workers i).bind NodeWorker.node := rfl

theorem held_setWorker (i : Fin n) (w : Option NodeWorker) :
    (s.setWorker i w).ledger.held = Function.update s.ledger.held i (w.bind NodeWorker.node) := by
  funext j
  simp only [ledger, setWorker, Function.update_apply]
  split
  · rfl
  · rfl

/-- A worker that runs the node it ran before, or none as before. -/
theorem held_setWorker_same {i : Fin n} {w : Option NodeWorker}
    (h : w.bind NodeWorker.node = (s.workers i).bind NodeWorker.node) :
    (s.setWorker i w).ledger.held = s.ledger.held := by
  rw [held_setWorker, h]
  exact Function.update_eq_self i _

theorem perm_linkTask (queue : List Nat) (t : Nat) (first : Bool) :
    (ThreadPool.linkTask queue t first).Perm (t :: queue) := by
  rw [ThreadPool.linkTask]
  split
  · exact List.Perm.refl _
  · exact List.perm_append_singleton t queue

theorem Move.ledger (h : s.Move d s') (hm : s.Managed) : s.ledger.Move d s'.ledger := by
  cases h with
  | stay | outside | start | createFails | allCreated | fini | destroy | finiPost | allPosted
  | allFreed => exact .stay
  | push first => exact .make (perm_linkTask ..)
  | @work i w w' sem hw hnode =>
      show s.ledger.Move false { s.ledger with held := (s.setWorker i (some w')).ledger.held }
      rw [held_setWorker_same (hw ▸ hnode)]
      exact .stay
  | @pop i w t ts hw hnode hq =>
      show s.ledger.Move false { s.ledger with
        queue := ts, held := (s.setWorker i (some (.running t 0 false))).ledger.held }
      rw [held_setWorker]
      exact .take hq (by rw [ledger_held, hw]; exact hnode)
  | @pushFrom first i w w' hw hnode =>
      show s.ledger.Move false { s.ledger with
        queue := ThreadPool.linkTask s.queue s.next first
        held := (s.setWorker i (some w')).ledger.held
        next := s.next + 1 }
      rw [held_setWorker_same (hw ▸ hnode)]
      exact .make (perm_linkTask ..)
  | @finish i t hw =>
      show s.ledger.Move true { s.ledger with
        held := (s.setWorker i (some .waiting)).ledger.held }
      rw [held_setWorker]
      exact .drop (t := t) (by rw [ledger_held, hw]; rfl)
  | @create k hpc hk =>
      show s.ledger.Move false { s.ledger with
        held := (s.setWorker ⟨k, hk⟩ (some .entering)).ledger.held }
      rw [held_setWorker_same (by rw [hm.not_live (j := ⟨k, hk⟩) (by simp [MayLive, hpc])]; rfl)]
      exact .stay
  | @join count i caller hpc hnode =>
      show s.ledger.Move false { s.ledger with held := (s.setWorker i none).ledger.held }
      rw [held_setWorker_same (w := none) hnode.symm]
      exact .stay
  | @allJoined count i caller =>
      cases caller with
      | start | fini | destroy => exact .stay
  | free hpc hq => exact .free hq

/-! ## One end -/

/-- Every node is in the list, with the one worker that runs it, or freed, and freed once
when `ztk_thread_pool_destroy` returns. -/
structure OneEnd (s : PoolNodes n) : Prop where
  complete : s.ledger.Complete
  destroyed : s.pc = .destroyed → ∀ t < s.next, s.freed.count t = 1

/-- A destroyed pool has no list and no workers. -/
theorem Managed.freed_once (h : s.Managed) (hc : s.ledger.Complete) (hpc : s.pc = .destroyed)
    {t : Nat} (ht : t < s.next) : s.freed.count t = 1 := by
  have hgone : ∀ j, s.ledger.held j = none := fun j => by
    rw [ledger_held, h.not_live (by rw [hpc]; exact id)]
    rfl
  have hone : s.queue.count t + (∑ j, Ledger.has t (s.ledger.held j)) + s.freed.count t = 1 :=
    hc t ht
  rw [h.emptied hpc, Finset.sum_eq_zero fun j _ => by rw [hgone j]; rfl] at hone
  simpa using hone

theorem created_managed : (created n).Managed :=
  ⟨fun _ hj => absurd rfl hj, fun _ => rfl, NodePc.noConfusion⟩

theorem created_one_end : (created n).OneEnd :=
  ⟨Ledger.complete_start, fun _ _ ht => absurd ht (Nat.not_lt_zero _)⟩

end PoolNodes

open PoolNodes

/-- In a run every node has one end exactly when the function of no node returns to
`pool_worker`. -/
theorem node_one_end_iff {n : Nat} {as : List (NodeAct n)} {s : PoolNodes n}
    (hrun : (poolNodesMachine n).run (created n) as = some s) :
    (poolNodesMachine n).Throughout OneEnd (created n) as ↔
      (poolNodesMachine n).RunMeets (fun s a => s.returns a = false) (created n) as := by
  refine Machine.throughout_iff (D := Machine.Any) (I := fun s => s.Managed ∧ s.ledger.Sound)
    (fun s a t hi _ hs => ?_) (fun s a t hi _ ho hs => ?_) as (created n) s
    ⟨created_managed, Ledger.sound_start⟩ created_one_end (Machine.runMeets_any _ _) hrun
  · have hm := step_move hs
    exact ⟨hi.1.step hm, (hm.ledger hi.1).sound hi.2⟩
  · have hm := step_move hs
    have hiff := (hm.ledger hi.1).complete_iff hi.2 ho.complete
    rw [← hiff]
    exact ⟨OneEnd.complete, fun hc => ⟨hc, fun hpc _ ht => (hi.1.step hm).freed_once hc hpc ht⟩⟩

/-- Two tasks on a pool of one worker, one of which is submitted after the worker has left
its loop; `ztk_thread_pool_destroy` frees both. -/
def leftOverRun : List (NodeAct 1) :=
  [.start, .create true, .create true, .enter 0, .call, .fini, .finiPost true, .finiPost true,
    .wait 0 true, .pop 0, .call, .push false, .join, .post true, .join, .push true, .post false,
    .destroy, .free, .free, .free]

theorem node_one_end_left_over :
    ∃ s, (poolNodesMachine 1).run (created 1) leftOverRun = some s ∧ s.pc = .destroyed ∧
      s.freed = [1, 0] ∧ (poolNodesMachine 1).Throughout OneEnd (created 1) leftOverRun := by
  have hrun : ((poolNodesMachine 1).run (created 1) leftOverRun).map
      (fun s => decide (s.pc = .destroyed ∧ s.freed = [1, 0])) = some true := by
    decide +kernel
  obtain ⟨s, hs, hpc, hfreed⟩ := Machine.exists_run hrun
  refine ⟨s, hs, hpc, hfreed, (node_one_end_iff hs).mpr ?_⟩
  exact of_decide_eq_true (by decide +kernel)

/-- One task, run and returned before `ztk_thread_pool_destroy`. -/
def returnedRun : List (NodeAct 1) :=
  [.start, .create true, .create true, .call, .push false, .post true, .enter 0, .wait 0 true,
    .pop 0, .finish 0, .destroy, .finiPost true, .finiPost true, .wait 0 true, .pop 0, .join, .join,
    .free]

/-- Its node is never freed. -/
theorem node_leaked :
    ∃ s, (poolNodesMachine 1).run (created 1) returnedRun = some s ∧ s.pc = .destroyed ∧
      s.next = 1 ∧ s.freed = [] ∧ ¬ s.OneEnd := by
  have hrun : ((poolNodesMachine 1).run (created 1) returnedRun).map
      (fun s => decide (s.pc = .destroyed ∧ s.next = 1 ∧ s.freed = [])) = some true := by
    decide +kernel
  obtain ⟨s, hs, hpc, hnext, hfreed⟩ := Machine.exists_run hrun
  refine ⟨s, hs, hpc, hnext, hfreed, fun h => ?_⟩
  have hone := h.destroyed hpc 0 (by rw [hnext]; exact Nat.one_pos)
  rw [hfreed] at hone
  cases hone

end Ztk.Thread
