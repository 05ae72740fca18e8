import Ztk.Err
import Ztk.Lib.Chain
import Ztk.Lib.Machine

/-!
# The task queue of a poller

`poller_task.c`.  A task is a call `fn(user)`; the model keeps the call as a
value of a type `τ` and never looks inside it.  `ztk_poller_async_impl` links a
new node under `task_mtx` and then writes to the wake pipe; what it returns is
the result of that write.  `ztk_poller_drain_tasks` detaches the whole list
under the mutex and then runs its nodes one by one without it.

Every call of `ztk_poller_async_impl` has a serial number (`TaskPoller.calls`),
and a node's address is the serial number of the call that allocated it.  So
an address names a call, also when the call allocates nothing.

`taskMachine` runs the queue in steps: one call of `ztk_poller_async_impl`, the
snapshot of a drain, and one iteration of its loop.  Calls made by a running
task, or by other threads, are steps between two iterations.  The histories
`pushed` and `ran` record what was linked in and what was run.
-/

namespace Ztk.Poller

open Ztk.Lib

/-! ## Waking the poller -/

/-- The outcome of `write(p->wake_w, &c, 1)`. -/
inductive WriteResult where
  | ok
  /-- Negative, with `errno == EAGAIN`. -/
  | eagain
  /-- Negative, with another `errno`. -/
  | error
deriving DecidableEq, Repr

/-- `ztk_poller_wake`. -/
def pollerWake (wakeW : Int) (write : WriteResult) : Err :=
  if wakeW < 0 then .invalid
  else
    match write with
    | .ok => .ok
    | .eagain => .ok
    | .error => .platform

/-! ## The queue -/

/-- The fields of `ztk_poller` that `poller_task.c` uses. -/
structure TaskPoller (τ : Type) where
  /-- `task_mtx` is not null. -/
  taskMtx : Bool
  /-- `task_head` and `task_tail`. -/
  tasks : Chain τ
  /-- The thread bound to the poller, 0 for none. -/
  ownerThread : Nat
  /-- The write end of the wake pipe. -/
  wakeW : Int
  /-- Calls of `ztk_poller_async_impl` so far. -/
  calls : Nat

/-- What the surroundings decide in one call of `ztk_poller_async_impl`. -/
structure AsyncEnv where
  /-- `ztk_thread_self_id()`. -/
  self : Nat
  /-- `calloc` returns a node. -/
  calloc : Bool
  /-- The outcome of the write to the wake pipe. -/
  write : WriteResult

/-- The result of one call of `ztk_poller_async_impl`. -/
structure AsyncResult (τ : Type) where
  /-- The code returned. -/
  err : Err
  /-- The poller after the call. -/
  poller : TaskPoller τ
  /-- The node linked into the queue, if any. -/
  node : Option (Nat × τ)
  /-- `fn(user)` was run by the call itself. -/
  ranNow : Bool

variable {τ : Type}

/-- The section of `ztk_poller_async_impl` under `task_mtx`. -/
def asyncPush (p : TaskPoller τ) (pushFront : Bool) (task : τ) : TaskPoller τ :=
  { p with
    tasks := if pushFront then p.tasks.pushFront (p.calls, task)
      else p.tasks.pushBack (p.calls, task)
    calls := p.calls + 1 }

/-- The queue is untouched, and the call is counted. -/
def TaskPoller.counted (p : TaskPoller τ) : TaskPoller τ := { p with calls := p.calls + 1 }

/-- The call runs `fn(user)` itself. -/
def runsNow (p : TaskPoller τ) (env : AsyncEnv) (maySync : Bool) : Bool :=
  maySync && p.ownerThread != 0 && p.ownerThread == env.self

/-- `ztk_poller_async_impl`.  A null `fn` is `none`. -/
def pollerAsyncImpl (p : TaskPoller τ) (env : AsyncEnv) (fn : Option τ)
    (maySync pushFront : Bool) : AsyncResult τ :=
  match fn with
  | none => ⟨.invalid, p.counted, none, false⟩
  | some task =>
      if runsNow p env maySync then ⟨.ok, p.counted, none, true⟩
      else if !p.taskMtx then ⟨.state, p.counted, none, false⟩
      else if !env.calloc then ⟨.nomem, p.counted, none, false⟩
      else
        -- the node stays linked whatever the write to the pipe returns
        ⟨pollerWake p.wakeW env.write, asyncPush p pushFront task, some (p.calls, task), false⟩

/-- `ztk_poller_async`. -/
def pollerAsync (p : TaskPoller τ) (env : AsyncEnv) (fn : Option τ) (maySync : Bool) :
    AsyncResult τ :=
  pollerAsyncImpl p env fn maySync false

/-- `ztk_poller_async_first`. -/
def pollerAsyncFirst (p : TaskPoller τ) (env : AsyncEnv) (fn : Option τ) (maySync : Bool) :
    AsyncResult τ :=
  pollerAsyncImpl p env fn maySync true

/-- A call links a node when it gets past every early return. -/
def links (p : TaskPoller τ) (env : AsyncEnv) (fn : Option τ) (maySync : Bool) : Bool :=
  fn.isSome && !runsNow p env maySync && p.taskMtx && env.calloc

/-- What one call does: it counts itself, and links a node or leaves the queue
alone. -/
theorem pollerAsyncImpl_cases (p : TaskPoller τ) (env : AsyncEnv) (fn : Option τ)
    (maySync pushFront : Bool) :
    (∃ task, fn = some task ∧ links p env fn maySync = true ∧
      pollerAsyncImpl p env fn maySync pushFront =
        ⟨pollerWake p.wakeW env.write, asyncPush p pushFront task, some (p.calls, task), false⟩) ∨
    (links p env fn maySync = false ∧
      (pollerAsyncImpl p env fn maySync pushFront).poller = p.counted ∧
      (pollerAsyncImpl p env fn maySync pushFront).node = none ∧
      (maySync = false → (pollerAsyncImpl p env fn maySync pushFront).err ≠ .ok)) := by
  cases fn with
  | none => exact Or.inr ⟨rfl, rfl, rfl, fun _ h => by cases h⟩
  | some task =>
      simp only [pollerAsyncImpl, links, Option.isSome_some, Bool.true_and]
      cases hr : runsNow p env maySync with
      | true =>
          refine Or.inr ⟨rfl, rfl, rfl, fun hm => ?_⟩
          rw [hm] at hr
          simp [runsNow] at hr
      | false =>
          cases hmtx : p.taskMtx with
          | false => exact Or.inr ⟨rfl, rfl, rfl, fun _ h => by cases h⟩
          | true =>
              cases hc : env.calloc with
              | false => exact Or.inr ⟨rfl, rfl, rfl, fun _ h => by cases h⟩
              | true => exact Or.inl ⟨task, rfl, rfl, rfl⟩

@[simp] theorem asyncPush_calls (p : TaskPoller τ) (pushFront : Bool) (task : τ) :
    (asyncPush p pushFront task).calls = p.calls + 1 := rfl

theorem asyncPush_subset (p : TaskPoller τ) (pushFront : Bool) (task : τ) :
    ∀ m ∈ (asyncPush p pushFront task).tasks.nodes, m ∈ p.tasks.nodes ∨ m = (p.calls, task) := by
  intro m hm
  cases pushFront with
  | true => exact (List.mem_cons.mp hm).symm
  | false => exact Chain.pushBack_subset p.tasks (p.calls, task) m hm

/-- The queue is well linked, and its addresses are those of earlier calls. -/
structure TaskPoller.Linked (p : TaskPoller τ) : Prop where
  wf : p.tasks.WF
  below : ∀ n ∈ p.tasks.nodes, n.1 < p.calls

theorem TaskPoller.Linked.fresh {p : TaskPoller τ} (h : p.Linked) : p.calls ∉ p.tasks.addrs := by
  intro hm
  obtain ⟨n, hn, he⟩ := List.mem_map.mp hm
  have := h.below n hn
  omega

/-- The nodes after a push at either end. -/
theorem TaskPoller.Linked.push_nodes {p : TaskPoller τ} (h : p.Linked) (pushFront : Bool)
    (task : τ) :
    (asyncPush p pushFront task).tasks.nodes =
      if pushFront then (p.calls, task) :: p.tasks.nodes
      else p.tasks.nodes ++ [(p.calls, task)] := by
  cases pushFront with
  | true => rfl
  | false => exact h.wf.pushBack_nodes _

theorem TaskPoller.Linked.push {p : TaskPoller τ} (h : p.Linked) (pushFront : Bool) (task : τ) :
    (asyncPush p pushFront task).Linked where
  wf := by
    cases pushFront with
    | true => exact h.wf.pushFront h.fresh
    | false => exact h.wf.pushBack h.fresh
  below := by
    intro m hm
    rw [asyncPush_calls]
    rcases asyncPush_subset p pushFront task m hm with hm | rfl
    · exact Nat.lt_succ_of_lt (h.below m hm)
    · exact Nat.lt_succ_self _

theorem TaskPoller.Linked.counted {p : TaskPoller τ} (h : p.Linked) : p.counted.Linked :=
  ⟨h.wf, fun n hn => Nat.lt_succ_of_lt (h.below n hn)⟩

/-- A detached queue is empty. -/
theorem TaskPoller.linked_empty {p : TaskPoller τ} (h : p.tasks = Chain.empty) : p.Linked where
  wf := by
    rw [h]
    exact Chain.wf_empty
  below := by
    intro n hn
    rw [h] at hn
    cases hn

/-! ## The machine -/

/-- A task linked into the queue. -/
structure Push (τ : Type) where
  /-- The number of snapshots taken before it was linked. -/
  epoch : Nat
  /-- It was linked at the front. -/
  front : Bool
  /-- The node. -/
  node : Nat × τ

/-- A task run by a drain. -/
structure Ran (τ : Type) where
  /-- The number of the drain, counted from 1. -/
  drain : Nat
  /-- The node. -/
  node : Nat × τ

/-- The queue, the drain in progress, and the history of both. -/
structure TaskState (τ : Type) where
  /-- The poller. -/
  poller : TaskPoller τ
  /-- The local variable `list` of the drain in progress. -/
  list : Option (List (Nat × τ))
  /-- Snapshots taken so far. -/
  snapshots : Nat
  /-- The tasks linked in, oldest first. -/
  pushed : List (Push τ)
  /-- The tasks run, oldest first. -/
  ran : List (Ran τ)

/-- Before any call. -/
def TaskState.start (p : TaskPoller τ) : TaskState τ := ⟨p, none, 0, [], []⟩

/-- The steps of the queue. -/
inductive TaskAct (τ : Type) where
  /-- A call of `ztk_poller_async` or `ztk_poller_async_first`. -/
  | async (env : AsyncEnv) (fn : Option τ) (maySync pushFront : Bool)
  /-- `ztk_poller_drain_tasks` up to its unlock. -/
  | drain
  /-- One iteration of the loop of `ztk_poller_drain_tasks`, or its return. -/
  | next

/-- One call of `ztk_poller_async_impl`. -/
def TaskState.async (s : TaskState τ) (env : AsyncEnv) (fn : Option τ)
    (maySync pushFront : Bool) : TaskState τ :=
  let r := pollerAsyncImpl s.poller env fn maySync pushFront
  { s with
    poller := r.poller
    pushed :=
      match r.node with
      | some n => s.pushed ++ [⟨s.snapshots, pushFront, n⟩]
      | none => s.pushed }

/-- The snapshot: `list = p->task_head; p->task_head = NULL; p->task_tail = NULL;`. -/
def TaskState.snapshot (s : TaskState τ) : TaskState τ :=
  { s with
    poller := { s.poller with tasks := Chain.empty }
    list := some s.poller.tasks.nodes
    snapshots := s.snapshots + 1 }

/-- One step.  A drain begins only when none is in progress. -/
def taskStep (s : TaskState τ) : TaskAct τ → Option (TaskState τ)
  | .async env fn maySync pushFront => some (s.async env fn maySync pushFront)
  | .drain =>
      match s.list with
      | some _ => none
      | none => if s.poller.taskMtx then some s.snapshot else some s
  | .next =>
      match s.list with
      | none => none
      | some [] => some { s with list := none }
      | some (n :: rest) =>
          some { s with list := some rest, ran := s.ran ++ [⟨s.snapshots, n⟩] }

/-- The task queue as a machine. -/
def taskMachine (τ : Type) : Machine (TaskState τ) (TaskAct τ) := ⟨taskStep⟩

/-- What a step can do: link a node, only count a call, take a snapshot, run a
node, return from the drain, or nothing. -/
theorem taskStep_cases {s t : TaskState τ} {a : TaskAct τ}
    (h : (taskMachine τ).step s a = some t) :
    (∃ front task, t = { s with
        poller := asyncPush s.poller front task
        pushed := s.pushed ++ [⟨s.snapshots, front, (s.poller.calls, task)⟩] }) ∨
    (t = { s with poller := s.poller.counted }) ∨
    (s.list = none ∧ t = s.snapshot) ∨
    (∃ n rest, s.list = some (n :: rest) ∧
      t = { s with list := some rest, ran := s.ran ++ [⟨s.snapshots, n⟩] }) ∨
    (s.list = some [] ∧ t = { s with list := none }) ∨
    t = s := by
  cases a with
  | async env fn maySync pushFront =>
      simp only [taskMachine, taskStep, Option.some.injEq] at h
      subst h
      rcases pollerAsyncImpl_cases s.poller env fn maySync pushFront with
        ⟨task, _, _, hr⟩ | ⟨_, hp, hn, _⟩
      · exact Or.inl ⟨pushFront, task, by simp [TaskState.async, hr]⟩
      · exact Or.inr (Or.inl (by simp [TaskState.async, hp, hn]))
  | drain =>
      simp only [taskMachine, taskStep] at h
      cases hl : s.list with
      | some l => rw [hl] at h; cases h
      | none =>
          rw [hl] at h
          simp only at h
          split at h
          · exact Or.inr (Or.inr (Or.inl ⟨rfl, (Option.some.inj h).symm⟩))
          · exact Or.inr (Or.inr (Or.inr (Or.inr (Or.inr (Option.some.inj h).symm))))
  | next =>
      simp only [taskMachine, taskStep] at h
      cases hl : s.list with
      | none => rw [hl] at h; cases h
      | some l =>
          rw [hl] at h
          cases l with
          | nil => exact Or.inr (Or.inr (Or.inr (Or.inr (Or.inl ⟨rfl, (Option.some.inj h).symm⟩))))
          | cons n rest =>
              exact Or.inr (Or.inr (Or.inr (Or.inl ⟨n, rest, rfl, (Option.some.inj h).symm⟩)))

end Ztk.Poller
