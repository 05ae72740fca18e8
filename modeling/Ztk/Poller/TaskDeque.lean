import Ztk.Lib.Trace
import Ztk.Poller.Task

/-!
# The task queue is an exactly-once deque

The abstract queue is the history of pushes.  The pushes of an epoch, the time
between two snapshots, give a list: those at the front in reverse order, then
those at the back in order (`deque`).  `Refines` says that the pointer queue
holds the deque of the current epoch, and that every drain so far has run, or
still has to run, exactly the deque of the epoch its snapshot ended.

Addresses are the serial numbers of calls, so they grow along the history and
a node is pushed once.  That no task runs twice is then a matter of the order
of the drains alone.

The last section is about calls that report failure.  A call that links its
node and then fails to wake the poller returns the error of the write, and the
node stays in the queue.
-/

namespace Ztk.Poller

open Ztk.Lib

variable {τ : Type}

/-! ## The abstract queue -/

/-- The pushes of an epoch, at one end. -/
def pushedAt (front : Bool) (d : Nat) (ps : List (Push τ)) : List (Nat × τ) :=
  (ps.filter fun q => q.epoch == d && q.front == front).map Push.node

/-- The order in which the tasks pushed in an epoch are to run. -/
def deque (d : Nat) (ps : List (Push τ)) : List (Nat × τ) :=
  (pushedAt true d ps).reverse ++ pushedAt false d ps

/-- The nodes a drain has run. -/
def runsOf (d : Nat) (rs : List (Ran τ)) : List (Nat × τ) :=
  (rs.filter fun r => r.drain == d).map Ran.node

/-- The nodes a drain still has to run. -/
def TaskState.remaining (s : TaskState τ) (d : Nat) : List (Nat × τ) :=
  if d = s.snapshots then s.list.getD [] else []

theorem mem_pushedAt {front : Bool} {d : Nat} {ps : List (Push τ)} {n : Nat × τ} :
    n ∈ pushedAt front d ps ↔ ∃ q ∈ ps, q.epoch = d ∧ q.front = front ∧ q.node = n := by
  simp [pushedAt, and_assoc]

theorem mem_deque {d : Nat} {ps : List (Push τ)} {n : Nat × τ} :
    n ∈ deque d ps ↔ ∃ q ∈ ps, q.epoch = d ∧ q.node = n := by
  rw [deque, List.mem_append, List.mem_reverse, mem_pushedAt, mem_pushedAt]
  constructor
  · rintro (⟨q, hq, hd, -, hn⟩ | ⟨q, hq, hd, -, hn⟩)
    · exact ⟨q, hq, hd, hn⟩
    · exact ⟨q, hq, hd, hn⟩
  · rintro ⟨q, hq, hd, hn⟩
    cases hf : q.front with
    | true => exact Or.inl ⟨q, hq, hd, hf, hn⟩
    | false => exact Or.inr ⟨q, hq, hd, hf, hn⟩

theorem mem_runsOf {d : Nat} {rs : List (Ran τ)} {n : Nat × τ} :
    n ∈ runsOf d rs ↔ ∃ r ∈ rs, r.drain = d ∧ r.node = n := by
  simp [runsOf, and_assoc]

/-- A push at the front of the current epoch. -/
theorem deque_push_front (d : Nat) (ps : List (Push τ)) (n : Nat × τ) :
    deque d (ps ++ [⟨d, true, n⟩]) = n :: deque d ps := by
  simp [deque, pushedAt]

/-- A push at the back of the current epoch. -/
theorem deque_push_back (d : Nat) (ps : List (Push τ)) (n : Nat × τ) :
    deque d (ps ++ [⟨d, false, n⟩]) = deque d ps ++ [n] := by
  simp [deque, pushedAt]

/-- A push leaves the other epochs alone. -/
theorem deque_push_ne {d : Nat} (ps : List (Push τ)) {q : Push τ} (h : q.epoch ≠ d) :
    deque d (ps ++ [q]) = deque d ps := by
  simp [deque, pushedAt, h]

/-- No push belongs to an epoch that has not begun. -/
theorem deque_future {d : Nat} {ps : List (Push τ)} (h : ∀ q ∈ ps, q.epoch < d) :
    deque d ps = [] := by
  rw [List.eq_nil_iff_forall_not_mem]
  intro n hn
  obtain ⟨q, hq, hd, -⟩ := mem_deque.mp hn
  exact absurd hd (Nat.ne_of_lt (h q hq))

theorem runsOf_append (d : Nat) (rs : List (Ran τ)) (n : Nat × τ) :
    runsOf d (rs ++ [⟨d, n⟩]) = runsOf d rs ++ [n] := by
  simp [runsOf]

theorem runsOf_append_ne {d : Nat} (rs : List (Ran τ)) {r : Ran τ} (h : r.drain ≠ d) :
    runsOf d (rs ++ [r]) = runsOf d rs := by
  simp [runsOf, h]

/-! ## The invariant -/

/-- The pointer queue and the drains agree with the history of pushes. -/
structure Refines (s : TaskState τ) : Prop where
  wf : s.poller.tasks.WF
  queue : s.poller.tasks.nodes = deque s.snapshots s.pushed
  drained : ∀ d < s.snapshots, runsOf (d + 1) s.ran ++ s.remaining (d + 1) = deque d s.pushed
  sorted : s.pushed.Pairwise fun q r => q.node.1 < r.node.1
  below : ∀ q ∈ s.pushed, q.node.1 < s.poller.calls
  epochs : ∀ q ∈ s.pushed, q.epoch ≤ s.snapshots
  drains : ∀ r ∈ s.ran, 0 < r.drain ∧ r.drain ≤ s.snapshots
  idle : s.snapshots = 0 → s.list = none

theorem Refines.start {p : TaskPoller τ} (h : p.tasks = Chain.empty) :
    Refines (TaskState.start p) where
  wf := by rw [TaskState.start, h]; exact Chain.wf_empty
  queue := by rw [TaskState.start, h]; rfl
  drained := by intro d hd; exact absurd hd (Nat.not_lt_zero d)
  sorted := List.Pairwise.nil
  below := by intro q hq; cases hq
  epochs := by intro q hq; cases hq
  drains := by intro r hr; cases hr
  idle := by intro _; rfl

/-- Every queued node was pushed, so its address is below the next one. -/
theorem Refines.queued_below {s : TaskState τ} (h : Refines s) {n : Nat × τ}
    (hn : n ∈ s.poller.tasks.nodes) : n.1 < s.poller.calls := by
  rw [h.queue] at hn
  obtain ⟨q, hq, -, rfl⟩ := mem_deque.mp hn
  exact h.below q hq

theorem Refines.linked {s : TaskState τ} (h : Refines s) : s.poller.Linked :=
  ⟨h.wf, fun _ hn => h.queued_below hn⟩

theorem Refines.push_queue {s : TaskState τ} (h : Refines s) (front : Bool) (task : τ) :
    (asyncPush s.poller front task).tasks.nodes =
      deque s.snapshots (s.pushed ++ [⟨s.snapshots, front, (s.poller.calls, task)⟩]) := by
  rw [h.linked.push_nodes]
  cases front with
  | true =>
      rw [deque_push_front, ← h.queue]
      rfl
  | false =>
      rw [deque_push_back, ← h.queue]
      rfl

/-- Linking a node extends the deque of the current epoch at one end. -/
theorem Refines.push {s : TaskState τ} (h : Refines s) (front : Bool) (task : τ) :
    Refines { s with
      poller := asyncPush s.poller front task
      pushed := s.pushed ++ [⟨s.snapshots, front, (s.poller.calls, task)⟩] } where
  wf := (h.linked.push front task).wf
  queue := h.push_queue front task
  drained := by
    intro d hd
    rw [deque_push_ne _ (Nat.ne_of_gt hd)]
    exact h.drained d hd
  sorted := Trace.pairwise_concat.mpr ⟨h.sorted, fun q hq => h.below q hq⟩
  below := by
    intro q hq
    rcases List.mem_append.mp hq with hq | hq
    · exact Nat.lt_succ_of_lt (h.below q hq)
    · rw [List.mem_singleton.mp hq]
      exact Nat.lt_succ_self _
  epochs := by
    intro q hq
    rcases List.mem_append.mp hq with hq | hq
    · exact h.epochs q hq
    · obtain rfl := List.mem_singleton.mp hq
      exact Nat.le_refl _
  drains := h.drains
  idle := h.idle

theorem Refines.counted {s : TaskState τ} (h : Refines s) :
    Refines { s with poller := s.poller.counted } :=
  { h with below := fun q hq => Nat.lt_succ_of_lt (h.below q hq) }

/-- The snapshot hands the deque of the epoch it ends to the new drain. -/
theorem Refines.snapshot {s : TaskState τ} (h : Refines s) (hl : s.list = none) :
    Refines s.snapshot where
  wf := Chain.wf_empty
  queue := by
    refine (deque_future ?_).symm
    intro q hq
    exact Nat.lt_succ_of_le (h.epochs q hq)
  drained := by
    intro d hd
    simp only [TaskState.snapshot] at hd
    by_cases he : d = s.snapshots
    · subst he
      have hnone : runsOf (s.snapshots + 1) s.ran = [] := by
        rw [List.eq_nil_iff_forall_not_mem]
        intro n hn
        obtain ⟨r, hr, hd, -⟩ := mem_runsOf.mp hn
        have := (h.drains r hr).2
        omega
      simp [TaskState.snapshot, TaskState.remaining, hnone, h.queue]
    · -- a finished drain has nothing left, before and after the snapshot
      have hold := h.drained d (by omega)
      have hrem : s.remaining (d + 1) = [] := by simp [TaskState.remaining, hl]
      have hrem' : s.snapshot.remaining (d + 1) = [] := by
        rw [TaskState.remaining, if_neg]
        simp only [TaskState.snapshot]
        omega
      rw [hrem', ← hrem]
      exact hold
  sorted := h.sorted
  below := h.below
  epochs := fun q hq => Nat.le_succ_of_le (h.epochs q hq)
  drains := fun r hr => ⟨(h.drains r hr).1, Nat.le_succ_of_le (h.drains r hr).2⟩
  idle := by intro h0; simp [TaskState.snapshot] at h0

/-- An iteration moves the first remaining node to the history of runs. -/
theorem Refines.next {s : TaskState τ} (h : Refines s) {n : Nat × τ} {rest : List (Nat × τ)}
    (hl : s.list = some (n :: rest)) :
    Refines { s with list := some rest, ran := s.ran ++ [⟨s.snapshots, n⟩] } where
  wf := h.wf
  queue := h.queue
  drained := by
    intro d hd
    have hold := h.drained d hd
    by_cases he : d + 1 = s.snapshots
    · rw [← he, runsOf_append, List.append_assoc]
      simpa [TaskState.remaining, he, hl] using hold
    · rw [runsOf_append_ne _ (Ne.symm he)]
      simpa [TaskState.remaining, he] using hold
  sorted := h.sorted
  below := h.below
  epochs := h.epochs
  drains := by
    intro r hr
    rcases List.mem_append.mp hr with hr | hr
    · exact h.drains r hr
    · rw [List.mem_singleton.mp hr]
      refine ⟨Nat.pos_of_ne_zero fun h0 => ?_, Nat.le_refl _⟩
      exact absurd (h.idle h0) (by rw [hl]; exact Option.some_ne_none _)
  idle := fun h0 => absurd (h.idle h0) (by rw [hl]; exact Option.some_ne_none _)

theorem Refines.finish {s : TaskState τ} (h : Refines s) (hl : s.list = some []) :
    Refines { s with list := none } :=
  { h with
    drained := by
      intro d hd
      have hold := h.drained d hd
      simpa [TaskState.remaining, hl] using hold
    idle := fun _ => rfl }

/-- Every step keeps the agreement. -/
theorem Refines.step {s t : TaskState τ} {a : TaskAct τ} (h : Refines s)
    (hs : (taskMachine τ).step s a = some t) : Refines t := by
  rcases taskStep_cases hs with ⟨front, task, rfl⟩ | rfl | ⟨hl, rfl⟩ | ⟨n, rest, hl, rfl⟩ |
    ⟨hl, rfl⟩ | rfl
  · exact h.push front task
  · exact h.counted
  · exact h.snapshot hl
  · exact h.next hl
  · exact h.finish hl
  · exact h

theorem Refines.leads {p : TaskPoller τ} {s : TaskState τ} (h₀ : p.tasks = Chain.empty)
    (h : (taskMachine τ).Leads Machine.Any (TaskState.start p) s) : Refines s :=
  h.invariant (fun _ _ _ hi _ hs => hi.step hs) (Refines.start h₀)

/-! ## Consequences -/

/-- Two pushes with one address are the same push. -/
theorem Refines.push_unique {s : TaskState τ} (h : Refines s) {q r : Push τ}
    (hq : q ∈ s.pushed) (hr : r ∈ s.pushed) (he : q.node.1 = r.node.1) : q = r := by
  have hnd : (s.pushed.map fun q => q.node.1).Nodup := by
    rw [List.Nodup, List.pairwise_map]
    exact h.sorted.imp fun hlt => Nat.ne_of_lt hlt
  exact List.inj_on_of_nodup_map hnd hq hr he

/-- A task that a drain ran was pushed in the epoch before its snapshot. -/
theorem Refines.ran_pushed {s : TaskState τ} (h : Refines s) {r : Ran τ} (hr : r ∈ s.ran) :
    ∃ q ∈ s.pushed, q.epoch + 1 = r.drain ∧ q.node = r.node := by
  obtain ⟨hpos, hle⟩ := h.drains r hr
  have hd := h.drained (r.drain - 1) (by omega)
  rw [Nat.sub_add_cancel hpos] at hd
  have hm : r.node ∈ deque (r.drain - 1) s.pushed := by
    rw [← hd]
    exact List.mem_append_left _ (mem_runsOf.mpr ⟨r, hr, rfl, rfl⟩)
  obtain ⟨q, hq, he, hn⟩ := mem_deque.mp hm
  exact ⟨q, hq, by omega, hn⟩

theorem pushedAt_nodup {front : Bool} {d : Nat} {ps : List (Push τ)}
    (h : ps.Pairwise fun q r => q.node.1 < r.node.1) :
    ((pushedAt front d ps).map Prod.fst).Nodup := by
  rw [pushedAt, List.map_map, List.Nodup, List.pairwise_map]
  exact (h.filter _).imp fun hlt => Nat.ne_of_lt hlt

/-- The addresses of a deque are distinct. -/
theorem Refines.deque_nodup {s : TaskState τ} (h : Refines s) (d : Nat) :
    ((deque d s.pushed).map Prod.fst).Nodup := by
  rw [deque, List.map_append, List.map_reverse]
  refine List.Nodup.append (List.nodup_reverse.mpr (pushedAt_nodup h.sorted))
    (pushedAt_nodup h.sorted) ?_
  intro a ha hb
  rw [List.mem_reverse] at ha
  obtain ⟨n, hn, rfl⟩ := List.mem_map.mp ha
  obtain ⟨m, hm, he⟩ := List.mem_map.mp hb
  obtain ⟨q, hq, -, hf, rfl⟩ := mem_pushedAt.mp hn
  obtain ⟨r, hr, -, hf', rfl⟩ := mem_pushedAt.mp hm
  rw [h.push_unique hr hq he, hf] at hf'
  cases hf'

/-- No task is run twice. -/
theorem Refines.ran_nodup {s : TaskState τ} (h : Refines s) :
    (s.ran.map fun r => r.node.1).Nodup := by
  rw [List.Nodup, List.pairwise_map]
  rw [List.pairwise_iff_forall_sublist]
  intro r r' hsub he
  have hr : r ∈ s.ran := hsub.subset (by simp)
  have hr' : r' ∈ s.ran := hsub.subset (by simp)
  obtain ⟨q, hq, hd, hn⟩ := h.ran_pushed hr
  obtain ⟨q', hq', hd', hn'⟩ := h.ran_pushed hr'
  have hqq : q = q' := h.push_unique hq hq' (by rw [hn, hn']; exact he)
  subst hqq
  -- both runs belong to one drain, whose nodes have distinct addresses
  have hdr : r.drain = r'.drain := hd.symm.trans hd'
  obtain ⟨hpos, hle⟩ := h.drains r hr
  have hdrain := h.drained (r.drain - 1) (by omega)
  rw [Nat.sub_add_cancel hpos] at hdrain
  have hnd : ((runsOf r.drain s.ran).map Prod.fst).Nodup := by
    have := h.deque_nodup (r.drain - 1)
    rw [← hdrain, List.map_append] at this
    exact this.of_append_left
  have hs2 : [r.node, r'.node].Sublist (runsOf r.drain s.ran) := by
    have := (hsub.filter fun x => x.drain == r.drain).map Ran.node
    simpa [runsOf, hdr] using this
  have := (hs2.map Prod.fst).nodup hnd
  simp [he] at this

/-- A finished drain has run every task pushed in the epoch before it. -/
theorem Refines.pushed_ran {s : TaskState τ} (h : Refines s) {q : Push τ} (hq : q ∈ s.pushed)
    (hlt : q.epoch < s.snapshots) (hdone : s.remaining (q.epoch + 1) = []) :
    ⟨q.epoch + 1, q.node⟩ ∈ s.ran := by
  have hd := h.drained q.epoch hlt
  rw [hdone, List.append_nil] at hd
  have hm : q.node ∈ runsOf (q.epoch + 1) s.ran := by
    rw [hd]
    exact mem_deque.mpr ⟨q, hq, rfl, rfl⟩
  obtain ⟨r, hr, hrd, hrn⟩ := mem_runsOf.mp hm
  have : r = ⟨q.epoch + 1, q.node⟩ := by
    cases r
    simp only at hrd hrn
    rw [hrd, hrn]
  exact this ▸ hr

/-- The task queue is an exactly-once deque, for every sequence of calls and
drains and every interleaving of calls with the iterations of a drain. -/
theorem task_queue_exactly_once (p : TaskPoller τ) (h₀ : p.tasks = Chain.empty)
    (s : TaskState τ) (h : (taskMachine τ).Leads Machine.Any (TaskState.start p) s) :
    (s.poller.tasks.tail = s.poller.tasks.nodes.getLast?.map Prod.fst ∧
      (s.poller.tasks.tail = none ↔ s.poller.tasks.nodes = [])) ∧
    s.poller.tasks.nodes = deque s.snapshots s.pushed ∧
    (∀ d < s.snapshots, runsOf (d + 1) s.ran ++ s.remaining (d + 1) = deque d s.pushed) ∧
    (s.ran.map fun r => r.node.1).Nodup ∧
    (∀ q ∈ s.pushed, ∀ r ∈ s.ran, r.node.1 = q.node.1 → r = ⟨q.epoch + 1, q.node⟩) ∧
    (∀ q ∈ s.pushed, q.epoch < s.snapshots → s.remaining (q.epoch + 1) = [] →
      ⟨q.epoch + 1, q.node⟩ ∈ s.ran) ∧
    (∀ env task front, (pollerAsyncImpl s.poller env (some task) false front).err = .ok →
      (s.async env (some task) false front).pushed =
        s.pushed ++ [⟨s.snapshots, front, (s.poller.calls, task)⟩]) := by
  have hi := Refines.leads h₀ h
  refine ⟨⟨hi.wf.tail_eq, hi.wf.tail_eq_none⟩, hi.queue, hi.drained, hi.ran_nodup, ?_,
    fun q hq => hi.pushed_ran hq, ?_⟩
  · intro q hq r hr he
    obtain ⟨q', hq', hd, hn⟩ := hi.ran_pushed hr
    have hqq : q' = q := hi.push_unique hq' hq (by rw [hn]; exact he)
    subst hqq
    cases r
    simp only at hd hn
    rw [hd, hn]
  · intro env task front hok
    rcases pollerAsyncImpl_cases s.poller env (some task) false front with
      ⟨task', ht, -, hr⟩ | ⟨-, -, -, hne⟩
    · cases ht
      simp [TaskState.async, hr]
    · exact absurd hok (hne rfl)

/-- A poller with an open wake pipe and nothing queued. -/
def idlePoller (τ : Type) : TaskPoller τ := ⟨true, Chain.empty, 0, 4, 0⟩

/-- Push a task at the back, push another at the front, drain. -/
def firstOrder : List (TaskAct Nat) :=
  [.async ⟨1, true, .ok⟩ (some 2) false false, .async ⟨1, true, .ok⟩ (some 1) false true,
    .drain, .next, .next, .next]

/-- A task pushed at the front runs before the one pushed earlier at the back. -/
theorem task_queue_first_order :
    ∃ s, (taskMachine Nat).run (TaskState.start (idlePoller Nat)) firstOrder = some s ∧
      s.ran.map Ran.node = [(1, 1), (0, 2)] ∧ (s.ran.map fun r => r.node.1).Nodup := by
  refine ⟨_, rfl, rfl, ?_⟩
  exact (task_queue_exactly_once (idlePoller Nat) rfl _
    (Machine.leads_of_run firstOrder _ _ rfl (Machine.runMeets_any _ _))).2.2.2.1

/-! ## Calls that report failure -/

/-- The task of the call `a` is not queued and no later drain runs it. -/
def NeverRuns (a : Nat) (s : TaskState τ) : Prop :=
  a ∉ s.poller.tasks.addrs ∧
    ∀ t, (taskMachine τ).Leads Machine.Any s t → ∀ r ∈ t.ran, r.node.1 ≠ a

/-- The call `a` is over and its task is nowhere. -/
structure Absent (a : Nat) (s : TaskState τ) : Prop where
  past : a < s.poller.calls
  queue : ∀ n ∈ s.poller.tasks.nodes, n.1 ≠ a
  list : ∀ l, s.list = some l → ∀ n ∈ l, n.1 ≠ a
  ran : ∀ r ∈ s.ran, r.node.1 ≠ a

theorem Absent.step {a : Nat} {s t : TaskState τ} {act : TaskAct τ} (h : Absent a s)
    (hs : (taskMachine τ).step s act = some t) : Absent a t := by
  rcases taskStep_cases hs with ⟨front, task, rfl⟩ | rfl | ⟨-, rfl⟩ | ⟨n, rest, hl, rfl⟩ |
    ⟨-, rfl⟩ | rfl
  · refine ⟨Nat.lt_succ_of_lt h.past, ?_, h.list, h.ran⟩
    intro n hn
    rcases asyncPush_subset s.poller front task n hn with hn | rfl
    · exact h.queue n hn
    · exact Nat.ne_of_gt h.past
  · exact ⟨Nat.lt_succ_of_lt h.past, h.queue, h.list, h.ran⟩
  · refine ⟨h.past, fun n hn => (by cases hn), ?_, h.ran⟩
    intro l hl
    cases hl
    exact h.queue
  · refine ⟨h.past, h.queue, ?_, ?_⟩
    · intro l hl' m hm
      cases hl'
      exact h.list _ hl m (List.mem_cons_of_mem _ hm)
    · intro r hr
      rcases List.mem_append.mp hr with hr | hr
      · exact h.ran r hr
      · rw [List.mem_singleton.mp hr]
        exact h.list _ hl n (List.mem_cons_self ..)
  · exact ⟨h.past, h.queue, fun l hl => (by cases hl), h.ran⟩
  · exact h

theorem Absent.neverRuns {a : Nat} {s : TaskState τ} (h : Absent a s) : NeverRuns a s := by
  refine ⟨fun hm => ?_, fun t ht => ?_⟩
  · obtain ⟨n, hn, he⟩ := List.mem_map.mp hm
    exact h.queue n hn he
  · exact (ht.invariant (I := Absent a) (fun _ _ _ hi _ hs => hi.step hs) h).ran

/-- A node of the drain in progress was pushed by an earlier call. -/
theorem Refines.list_below {s : TaskState τ} (h : Refines s) {l : List (Nat × τ)}
    (hl : s.list = some l) {n : Nat × τ} (hn : n ∈ l) : n.1 < s.poller.calls := by
  have hpos : 0 < s.snapshots := by
    refine Nat.pos_of_ne_zero fun h0 => ?_
    rw [h.idle h0] at hl
    cases hl
  have hd := h.drained (s.snapshots - 1) (by omega)
  rw [Nat.sub_add_cancel hpos] at hd
  have hm : n ∈ deque (s.snapshots - 1) s.pushed := by
    rw [← hd]
    refine List.mem_append_right _ ?_
    simpa [TaskState.remaining, hl] using hn
  obtain ⟨q, hq, -, rfl⟩ := mem_deque.mp hm
  exact h.below q hq

/-- A call that links nothing leaves no trace of its task. -/
theorem Refines.counted_absent {s : TaskState τ} (h : Refines s) :
    Absent s.poller.calls { s with poller := s.poller.counted } where
  past := Nat.lt_succ_self _
  queue := fun _ hn => Nat.ne_of_lt (h.queued_below hn)
  list := fun _ hl _ hn => Nat.ne_of_lt (h.list_below hl hn)
  ran := by
    intro r hr
    obtain ⟨q, hq, -, hn⟩ := h.ran_pushed hr
    rw [← hn]
    exact Nat.ne_of_lt (h.below q hq)

theorem asyncPush_mem {s : TaskState τ} (h : Refines s) (front : Bool) (task : τ) :
    s.poller.calls ∈ (asyncPush s.poller front task).tasks.addrs := by
  refine List.mem_map.mpr ⟨(s.poller.calls, task), ?_, rfl⟩
  rw [h.push_queue front task]
  exact mem_deque.mpr ⟨_, List.mem_append_right _ (List.mem_singleton.mpr rfl), rfl, rfl⟩

/-- A failed call never runs its task exactly when the call links no node or
wakes the poller. -/
theorem failed_async_never_runs_iff (p : TaskPoller τ) (h₀ : p.tasks = Chain.empty)
    (s : TaskState τ) (h : (taskMachine τ).Leads Machine.Any (TaskState.start p) s)
    (env : AsyncEnv) (fn : Option τ) (maySync front : Bool) :
    ((pollerAsyncImpl s.poller env fn maySync front).err ≠ .ok →
        NeverRuns s.poller.calls (s.async env fn maySync front)) ↔
      (links s.poller env fn maySync = true → pollerWake s.poller.wakeW env.write = .ok) := by
  have hi := Refines.leads h₀ h
  rcases pollerAsyncImpl_cases s.poller env fn maySync front with
    ⟨task, -, hlinks, hr⟩ | ⟨hlinks, hp, hn, -⟩
  · have hasync : (s.async env fn maySync front).poller = asyncPush s.poller front task := by
      simp [TaskState.async, hr]
    rw [hr]
    constructor
    · intro himp _
      by_contra hne
      refine (himp hne).1 ?_
      rw [hasync]
      exact asyncPush_mem hi front task
    · intro hw hne
      exact absurd (hw hlinks) hne
  · have hasync : s.async env fn maySync front = { s with poller := s.poller.counted } := by
      simp [TaskState.async, hp, hn]
    rw [hasync, hlinks]
    exact ⟨fun _ hf => (by cases hf), fun _ _ => hi.counted_absent.neverRuns⟩

/-- A failed call whose write succeeded did not happen. -/
theorem failed_async_never_runs_nomem :
    (pollerAsync (idlePoller Unit) ⟨1, false, .ok⟩ (some ()) false).err = .nomem ∧
      NeverRuns 0 ((TaskState.start (idlePoller Unit)).async ⟨1, false, .ok⟩ (some ()) false false) :=
  ⟨rfl, (failed_async_never_runs_iff (idlePoller Unit) rfl _ .refl ⟨1, false, .ok⟩ (some ()) false
    false).mpr (fun _ => rfl) (by decide)⟩

/-- A write to the wake pipe that fails makes the call return an error, and the
next drain runs the task. -/
theorem failed_async_runs :
    (pollerAsync (idlePoller Unit) ⟨1, true, .error⟩ (some ()) false).err = .platform ∧
      ∃ t, (taskMachine Unit).Leads Machine.Any
          ((TaskState.start (idlePoller Unit)).async ⟨1, true, .error⟩ (some ()) false false) t ∧
        ∃ r ∈ t.ran, r.node.1 = 0 := by
  refine ⟨rfl, _, Machine.leads_of_run [.drain, .next] _ _ rfl (Machine.runMeets_any _ _), ?_⟩
  exact ⟨⟨1, (0, ())⟩, List.mem_singleton.mpr rfl, rfl⟩

end Ztk.Poller
