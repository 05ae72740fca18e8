import Ztk.Poller.Task

/-!
# No lost wake-up

`ztk_poller_poll` of `poller_epoll.c` against any number of threads in
`ztk_poller_async`.  A thread links its task under `task_mtx` and then writes
one byte to the wake pipe, and the two are separate steps.  A full pipe drops
the byte and the write counts as done.  The poller thread goes through turns:
it waits, walks the reported events, empties the wake pipe and drains the tasks
where it meets the wake descriptor, and looks at the queue once more at the end
of the turn.

The program points of the poller thread are `TurnPc`.  A drain can be called
from three places, and `After` says where it returns to.  What the kernel
reports is a choice of the run: any list of descriptors, a timeout, or an
interrupted wait.  Tasks and callbacks run by the poller thread may call
`ztk_poller_async` too, so a thread may be the poller thread.

The invariant is `Woken`.  Only `run _ .leave` and `wait` are points from which
no drain follows in the same turn, and there every task that is queued behind a
finished call has a byte in the pipe: the pipe is emptied only at points from
which a drain follows.
-/

namespace Ztk.Poller

open Ztk.Lib

variable {τ : Type}

/-! ## The pipe -/

/-- The wake pipe: the bytes in it and its size. -/
structure Pipe where
  bytes : Nat
  size : Nat
  size_pos : 0 < size
  bytes_le : bytes ≤ size

namespace Pipe

/-- A non-blocking write of one byte.  On a full pipe it fails with `EAGAIN`. -/
def write (p : Pipe) : WriteResult × Pipe :=
  if h : p.bytes < p.size then (.ok, { p with bytes := p.bytes + 1, bytes_le := h })
  else (.eagain, p)

/-- One `read` of `drain_wake_pipe`, with a buffer of 256 bytes. -/
def read (p : Pipe) : Pipe :=
  { p with bytes := p.bytes - 256, bytes_le := Nat.le_trans (Nat.sub_le _ _) p.bytes_le }

/-- After a write the pipe is not empty, whether or not the byte went in. -/
theorem write_pos (p : Pipe) : 0 < p.write.2.bytes := by
  simp only [write]
  split
  · exact Nat.succ_pos _
  · next h =>
      have := p.size_pos
      have := p.bytes_le
      simp only
      omega

end Pipe

/-! ## The turn -/

/-- Where a call of `ztk_poller_drain_tasks` returns to. -/
inductive After where
  /-- The event loop, with the events left. -/
  | events (evs : List Int)
  /-- The event loop of a wait that timed out: it has no events. -/
  | endOfTurn
  /-- The end of `ztk_poller_poll`. -/
  | leave

/-- Program points of `ztk_poller_poll`. -/
inductive TurnPc (τ : Type) where
  /-- In `epoll_wait`. -/
  | wait
  /-- `epoll_wait` returned 0. -/
  | timedOut
  /-- The event loop. -/
  | dispatch (evs : List Int)
  /-- `drain_wake_pipe`. -/
  | drainPipe (evs : List Int)
  /-- At the call of `ztk_poller_drain_tasks`. -/
  | drain (after : After)
  /-- In the loop of `ztk_poller_drain_tasks`. -/
  | run (list : List (Nat × τ)) (after : After)
  /-- The look at the queue that ends the turn. -/
  | endCheck

/-- The poller thread, the threads that call it, and the pipe between them. -/
structure TurnState (τ : Type) where
  poller : TaskPoller τ
  wakeR : Int
  pipe : Pipe
  pc : TurnPc τ
  /-- The threads between their push and their write. -/
  pushed : Nat → Bool
  /-- Snapshots taken so far. -/
  drains : Nat

/-- The steps of all threads. -/
inductive TurnAct (τ : Type) where
  /-- Thread `i` links a task. -/
  | push (i : Nat) (pushFront : Bool) (task : τ)
  /-- Thread `i` writes to the wake pipe and returns. -/
  | wake (i : Nat)
  /-- `epoll_wait` reports events, none after a timeout. -/
  | waitReturns (evs : List Int)
  /-- `epoll_wait` fails and the turn is over. -/
  | waitFails
  /-- A `read` of the wake pipe fails. -/
  | readFails
  /-- The next step of the poller thread elsewhere. -/
  | turn

/-- The point after a drain. -/
def After.pc : After → TurnPc τ
  | .events evs => .dispatch evs
  | .endOfTurn => .endCheck
  | .leave => .wait

/-- `p->task_mtx` is there and, under it, `p->task_head != NULL`. -/
def TaskPoller.pending (p : TaskPoller τ) : Bool := p.taskMtx && !p.tasks.nodes.isEmpty

/-- A step of the poller thread outside `epoll_wait`. -/
def turnStep (s : TurnState τ) : TurnPc τ → Option (TurnState τ)
  | .wait => none
  | .timedOut =>
      if s.poller.pending then some { s with pc := .drain .endOfTurn }
      else some { s with pc := .endCheck }
  | .dispatch [] => some { s with pc := .endCheck }
  | .dispatch (fd :: evs) =>
      -- the callback of the entry may only push, which is a step of its own
      if fd = s.wakeR then some { s with pc := .drainPipe evs }
      else some { s with pc := .dispatch evs }
  | .drainPipe evs =>
      if s.pipe.bytes = 0 then some { s with pc := .drain (.events evs) }
      else some { s with pipe := s.pipe.read }
  | .drain after =>
      if s.poller.taskMtx then
        some { s with
          poller := { s.poller with tasks := Chain.empty }
          pc := .run s.poller.tasks.nodes after
          drains := s.drains + 1 }
      else some { s with pc := after.pc }
  | .run [] after => some { s with pc := after.pc }
  | .run (_ :: list) after => some { s with pc := .run list after }
  | .endCheck =>
      if s.poller.pending then some { s with pc := .drain .leave }
      else some { s with pc := .wait }

/-- One step of one thread. -/
def turnsStep (s : TurnState τ) : TurnAct τ → Option (TurnState τ)
  | .push i pushFront task =>
      if s.pushed i || !s.poller.taskMtx then none
      else some { s with
        poller := asyncPush s.poller pushFront task
        pushed := Function.update s.pushed i true }
  | .wake i =>
      if s.pushed i then
        some { s with pipe := s.pipe.write.2, pushed := Function.update s.pushed i false }
      else none
  | .waitReturns evs =>
      match s.pc with
      | .wait => some { s with pc := if evs.isEmpty then .timedOut else .dispatch evs }
      | _ => none
  | .waitFails =>
      match s.pc with
      | .wait => some s
      | _ => none
  | .readFails =>
      match s.pc with
      | .drainPipe evs => some { s with pc := .drain (.events evs) }
      | _ => none
  | .turn => turnStep s s.pc

/-- The poller and its callers as a machine. -/
def turnMachine (τ : Type) : Machine (TurnState τ) (TurnAct τ) := ⟨turnsStep⟩

/-- Before any call: the poller is about to wait, and nothing is queued. -/
def TurnState.start (p : TaskPoller τ) (wakeR : Int) (pipe : Pipe) : TurnState τ :=
  ⟨{ p with tasks := Chain.empty }, wakeR, pipe, .wait, fun _ => false, 0⟩

/-! ## The invariant -/

/-- The points of a turn from which a drain follows when something is queued. -/
def TurnPc.DrainsLater : TurnPc τ → Prop
  | .wait => False
  | .run _ .leave => False
  | _ => True

/-- A queued task is announced: some thread has still to write, a byte is in
the pipe, or a drain follows in this turn. -/
def Woken (s : TurnState τ) : Prop :=
  s.poller.tasks.nodes ≠ [] → s.poller.taskMtx = true ∧
    ((∃ i, s.pushed i = true) ∨ 0 < s.pipe.bytes ∨ s.pc.DrainsLater)

theorem asyncPush_ne_nil (p : TaskPoller τ) (pushFront : Bool) (task : τ)
    (h : p.tasks.nodes ≠ []) : (asyncPush p pushFront task).tasks.nodes ≠ [] := by
  cases pushFront with
  | true => exact List.cons_ne_nil _ _
  | false =>
      simp only [asyncPush, Bool.false_eq_true, if_false]
      simp only [Chain.pushBack]
      cases p.tasks.tail with
      | none => exact List.cons_ne_nil _ _
      | some a =>
          cases hn : p.tasks.nodes with
          | nil => exact absurd hn h
          | cons m ms =>
              simp only [Chain.linkAfter]
              split <;> exact List.cons_ne_nil _ _

theorem pending_eq_true {p : TaskPoller τ} (hm : p.taskMtx = true) (h : p.tasks.nodes ≠ []) :
    p.pending = true := by
  simp [TaskPoller.pending, hm, h]

/-- A turn step outside the drain itself keeps the queue and the threads, and
empties the pipe only where a drain follows. -/
theorem turnStep_cases {s t : TurnState τ} (h : turnStep s s.pc = some t) :
    (∃ after, s.pc = .drain after ∧ s.poller.taskMtx = true ∧
      t.poller = { s.poller with tasks := Chain.empty } ∧ t.drains = s.drains + 1) ∨
    (t.poller = s.poller ∧ t.pushed = s.pushed ∧ t.drains = s.drains ∧
      (t.pipe = s.pipe ∨ t.pc.DrainsLater) ∧
      (s.pc.DrainsLater → s.poller.pending = true → t.pc.DrainsLater)) := by
  cases hpc : s.pc with
  | wait => rw [hpc] at h; cases h
  | timedOut =>
      rw [hpc, turnStep] at h
      right
      split at h
      · cases h
        exact ⟨rfl, rfl, rfl, Or.inl rfl, fun _ _ => trivial⟩
      · cases h
        exact ⟨rfl, rfl, rfl, Or.inl rfl, fun _ _ => trivial⟩
  | dispatch evs =>
      right
      cases evs with
      | nil =>
          rw [hpc, turnStep] at h
          cases h
          exact ⟨rfl, rfl, rfl, Or.inl rfl, fun _ _ => trivial⟩
      | cons fd evs =>
          rw [hpc, turnStep] at h
          split at h
          · cases h
            exact ⟨rfl, rfl, rfl, Or.inl rfl, fun _ _ => trivial⟩
          · cases h
            exact ⟨rfl, rfl, rfl, Or.inl rfl, fun _ _ => trivial⟩
  | drainPipe evs =>
      rw [hpc, turnStep] at h
      right
      split at h
      · cases h
        exact ⟨rfl, rfl, rfl, Or.inl rfl, fun _ _ => trivial⟩
      · cases h
        refine ⟨rfl, rfl, rfl, Or.inr ?_, fun _ _ => ?_⟩
        · simp only [hpc]
          trivial
        · simp only [hpc]
          trivial
  | drain after =>
      rw [hpc, turnStep] at h
      split at h
      · next hm =>
          cases h
          exact Or.inl ⟨after, rfl, hm, rfl, rfl⟩
      · next hm =>
          cases h
          refine Or.inr ⟨rfl, rfl, rfl, Or.inl rfl, fun _ hp => ?_⟩
          simp [TaskPoller.pending, hm] at hp
  | run list after =>
      right
      cases list with
      | nil =>
          rw [hpc, turnStep] at h
          cases h
          refine ⟨rfl, rfl, rfl, Or.inl rfl, fun hd _ => ?_⟩
          cases after with
          | events evs => trivial
          | endOfTurn => trivial
          | leave => exact hd.elim
      | cons n list =>
          rw [hpc, turnStep] at h
          cases h
          refine ⟨rfl, rfl, rfl, Or.inl rfl, fun hd _ => ?_⟩
          cases after with
          | events evs => trivial
          | endOfTurn => trivial
          | leave => exact hd.elim
  | endCheck =>
      rw [hpc, turnStep] at h
      right
      split at h
      · cases h
        exact ⟨rfl, rfl, rfl, Or.inl rfl, fun _ _ => trivial⟩
      · next hp =>
          cases h
          exact ⟨rfl, rfl, rfl, Or.inl rfl, fun _ hp' => absurd hp' hp⟩

/-- The steps of the other threads and of the kernel. -/
theorem turnsStep_cases {s t : TurnState τ} {a : TurnAct τ}
    (h : (turnMachine τ).step s a = some t) :
    (∃ i front task, s.poller.taskMtx = true ∧ t = { s with
      poller := asyncPush s.poller front task
      pushed := Function.update s.pushed i true }) ∨
    (∃ i, t = { s with pipe := s.pipe.write.2, pushed := Function.update s.pushed i false }) ∨
    (s.pc = .wait ∧ ∃ pc : TurnPc τ, pc.DrainsLater ∧ t = { s with pc := pc }) ∨
    (s.pc = .wait ∧ t = s) ∨
    (∃ evs, s.pc = .drainPipe evs ∧ t = { s with pc := .drain (.events evs) }) ∨
    turnStep s s.pc = some t := by
  cases a with
  | push i front task =>
      simp only [turnMachine, turnsStep] at h
      split at h
      · cases h
      · next hc =>
          simp only [Bool.or_eq_true, Bool.not_eq_true', not_or, Bool.not_eq_false] at hc
          exact Or.inl ⟨i, front, task, hc.2, (Option.some.inj h).symm⟩
  | wake i =>
      simp only [turnMachine, turnsStep] at h
      split at h
      · exact Or.inr (Or.inl ⟨i, (Option.some.inj h).symm⟩)
      · cases h
  | waitReturns evs =>
      simp only [turnMachine, turnsStep] at h
      split at h
      · next hpc =>
          refine Or.inr (Or.inr (Or.inl ⟨hpc, _, ?_, (Option.some.inj h).symm⟩))
          split <;> trivial
      · cases h
  | waitFails =>
      simp only [turnMachine, turnsStep] at h
      split at h
      · next hpc => exact Or.inr (Or.inr (Or.inr (Or.inl ⟨hpc, (Option.some.inj h).symm⟩)))
      · cases h
  | readFails =>
      simp only [turnMachine, turnsStep] at h
      split at h
      · next evs hpc =>
          exact Or.inr (Or.inr (Or.inr (Or.inr (Or.inl ⟨evs, hpc, (Option.some.inj h).symm⟩))))
      · cases h
  | turn => exact Or.inr (Or.inr (Or.inr (Or.inr (Or.inr h))))

/-- Every step keeps queued tasks announced. -/
theorem Woken.step {s t : TurnState τ} {a : TurnAct τ} (h : Woken s)
    (hs : (turnMachine τ).step s a = some t) : Woken t := by
  rcases turnsStep_cases hs with ⟨i, front, task, hm, rfl⟩ | ⟨i, rfl⟩ | ⟨-, pc, hpc, rfl⟩ |
    ⟨-, rfl⟩ | ⟨evs, -, rfl⟩ | hturn
  · -- the thread that pushed has still to write
    intro _
    exact ⟨hm, Or.inl ⟨i, Function.update_self ..⟩⟩
  · intro hne
    exact ⟨(h hne).1, Or.inr (Or.inl s.pipe.write_pos)⟩
  · intro hne
    exact ⟨(h hne).1, Or.inr (Or.inr hpc)⟩
  · exact h
  · intro hne
    exact ⟨(h hne).1, Or.inr (Or.inr trivial)⟩
  · rcases turnStep_cases hturn with ⟨after, -, -, hp, -⟩ | ⟨hp, hpushed, -, hpipe, hlater⟩
    · intro hne
      rw [hp] at hne
      exact absurd rfl hne
    · intro hne
      rw [hp] at hne ⊢
      obtain ⟨hm, hi | hb | hd⟩ := h hne
      · exact ⟨hm, Or.inl (hpushed ▸ hi)⟩
      · rcases hpipe with hpipe | hd
        · exact ⟨hm, Or.inr (Or.inl (hpipe ▸ hb))⟩
        · exact ⟨hm, Or.inr (Or.inr hd)⟩
      · exact ⟨hm, Or.inr (Or.inr (hlater hd (pending_eq_true hm hne)))⟩

/-! ## Points from which a drain follows -/

/-- The run has drained since the count `n`, or something is queued at a point
from which a drain follows. -/
def DrainDue (n : Nat) (s : TurnState τ) : Prop :=
  n < s.drains ∨
    (s.drains = n ∧ s.poller.tasks.nodes ≠ [] ∧ s.poller.taskMtx = true ∧ s.pc.DrainsLater)

theorem DrainDue.step {n : Nat} {s t : TurnState τ} {a : TurnAct τ} (h : DrainDue n s)
    (hs : (turnMachine τ).step s a = some t) : DrainDue n t := by
  rcases turnsStep_cases hs with ⟨i, front, task, -, rfl⟩ | ⟨i, rfl⟩ | ⟨hw, pc, hpc, rfl⟩ |
    ⟨-, rfl⟩ | ⟨evs, -, rfl⟩ | hturn
  · exact h.imp id fun ⟨hn, hne, hm, hd⟩ => ⟨hn, asyncPush_ne_nil _ _ _ hne, hm, hd⟩
  · exact h
  · exact h.imp id fun ⟨hn, hne, hm, _⟩ => ⟨hn, hne, hm, hpc⟩
  · exact h
  · exact h.imp id fun ⟨hn, hne, hm, _⟩ => ⟨hn, hne, hm, trivial⟩
  · rcases turnStep_cases hturn with ⟨after, -, -, -, hd⟩ | ⟨hp, -, hdr, -, hlater⟩
    · left
      rcases h with h | ⟨h, -⟩
      · omega
      · omega
    · rcases h with h | ⟨hn, hne, hm, hd⟩
      · left
        omega
      · right
        refine ⟨by omega, by rw [hp]; exact hne, by rw [hp]; exact hm, ?_⟩
        exact hlater hd (pending_eq_true hm hne)

/-- No lost wake-up: while something is queued and no thread is between its push
and its write, the pipe has a byte, or the poller is inside a turn and reaches
its next wait only after another drain. -/
theorem no_lost_wakeup (p : TaskPoller τ) (wakeR : Int) (pipe : Pipe) (s : TurnState τ)
    (h : (turnMachine τ).Leads Machine.Any (TurnState.start p wakeR pipe) s)
    (hne : s.poller.tasks.nodes ≠ []) (hidle : ∀ i, s.pushed i = false) :
    0 < s.pipe.bytes ∨
      (s.pc ≠ .wait ∧
        ∀ t, (turnMachine τ).Leads Machine.Any s t → t.pc = .wait → s.drains < t.drains) := by
  have hw : Woken s :=
    h.invariant (fun _ _ _ hi _ hs => hi.step hs) (fun hne => absurd rfl hne)
  obtain ⟨hm, ⟨i, hi⟩ | hb | hd⟩ := hw hne
  · rw [hidle i] at hi
    cases hi
  · exact Or.inl hb
  · right
    refine ⟨fun hpc => ?_, fun t ht hpc => ?_⟩
    · rw [hpc] at hd
      exact hd
    · have hdue : DrainDue s.drains t :=
        ht.invariant (I := DrainDue s.drains) (fun _ _ _ hi _ hs => hi.step hs)
          (Or.inr ⟨rfl, hne, hm, hd⟩)
      rcases hdue with hlt | ⟨-, -, -, hd'⟩
      · exact hlt
      · rw [hpc] at hd'
        exact hd'.elim

/-- Two threads push and both write, into a pipe of one byte: the second byte is
dropped and the pipe is not empty. -/
def coalescedWakes : List (TurnAct Nat) :=
  [.push 1 false 10, .push 2 false 20, .wake 1, .wake 2]

theorem no_lost_wakeup_coalesced :
    ∃ s, (turnMachine Nat).run
        (TurnState.start ⟨true, Chain.empty, 0, 4, 0⟩ 3 ⟨0, 1, by decide, by decide⟩)
          coalescedWakes = some s ∧
      s.poller.tasks.nodes = [(0, 10), (1, 20)] ∧ s.pc = .wait ∧ 0 < s.pipe.bytes := by
  refine ⟨_, rfl, rfl, rfl, ?_⟩
  have h := no_lost_wakeup ⟨true, Chain.empty, 0, 4, 0⟩ 3 ⟨0, 1, by decide, by decide⟩ _
    (Machine.leads_of_run coalescedWakes _ _ rfl (Machine.runMeets_any _ _))
    (List.cons_ne_nil _ _) (by
      intro i
      by_cases h2 : i = 2
      · subst h2
        rfl
      · by_cases h1 : i = 1
        · subst h1
          rfl
        · simp [TurnState.start, Function.update, h1, h2])
  rcases h with h | ⟨hpc, -⟩
  · exact h
  · exact absurd rfl hpc

end Ztk.Poller
