import Ztk.Poller.FdRegistry

/-!
# A turn of the two backends

`ztk_poller_poll` of `poller_epoll.c` and of `poller_select.c`, from the return of
the wait to the end of the turn, over one list of registrations.  No descriptor
has an error or a hang-up, and callbacks and tasks leave the registrations alone.
They may post tasks: `cbPosts` and `taskPosts` say which.

The kernel reports descriptors to epoll in any order, at most 64 of them.  To
select it reports urgent data as an exceptional condition; epoll was not asked for
it.

The backends differ in four ways.  Select drains the tasks only where nothing is
ready or the wake pipe is readable, and only once.  It skips the callback of the
wake descriptor.  It asks for input where only `ZTK_POLL_HUP` is wanted, and then
reports `ZTK_POLL_IN`.  And it reports urgent data as `ZTK_POLL_ERR`.
-/

namespace Ztk.Poller

open Ztk.Lib

variable {κ υ τ : Type}

/-! ## State -/

/-- What a descriptor without an error or a hang-up is ready for. -/
structure Readiness where
  readable : Bool
  writable : Bool
  urgent : Bool

def Readiness.any (r : Readiness) : Bool := r.readable || r.writable || r.urgent

/-- `FD_SETSIZE`. -/
def fdSetsize : Int := 1024

/-- The start of a turn: what is registered, queued and ready. -/
structure Turn (κ υ τ : Type) where
  poller : Epoll κ υ
  tasks : List τ
  ready : Int → Readiness
  /-- The tasks that a callback posts. -/
  cbPosts : κ → Int → BitVec 32 → Option υ → List τ
  /-- The tasks that a task posts. -/
  taskPosts : τ → List τ
  matched : poller.Matched
  inSet : ∀ e ∈ poller.entries, 0 ≤ e.fd ∧ e.fd < fdSetsize
  few : (poller.entries.filter fun e => (ready e.fd).any).length ≤ 64

/-- The call of a callback. -/
structure CbCall (υ : Type) where
  fd : Int
  events : BitVec 32
  user : Option υ
deriving DecidableEq

/-- The task queue during a turn, and what was called and run so far. -/
structure TurnLog (υ τ : Type) where
  queue : List τ
  calls : List (CbCall υ)
  ran : List τ

variable (t : Turn κ υ τ)

/-- `ztk_poller_drain_tasks`. -/
def TurnLog.drainTasks (log : TurnLog υ τ) : TurnLog υ τ :=
  { log with queue := log.queue.flatMap t.taskPosts, ran := log.ran ++ log.queue }

/-- The tasks are drained if there are any. -/
def TurnLog.drainPending (log : TurnLog υ τ) : TurnLog υ τ :=
  if log.queue.isEmpty then log else log.drainTasks t

/-- `cb(fd, events, user)`. -/
def TurnLog.callback (log : TurnLog υ τ) (cb : κ) (fd : Int) (events : BitVec 32)
    (user : Option υ) : TurnLog υ τ :=
  { log with
    calls := log.calls ++ [⟨fd, events, user⟩]
    queue := log.queue ++ t.cbPosts cb fd events user }

namespace Turn

def start : TurnLog υ τ := ⟨t.tasks, [], []⟩

/-! ## `poller_epoll.c` -/

/-- The events of a descriptor. -/
def epollReady (r : Readiness) : BitVec 32 :=
  (if r.readable then epollIn else 0) ||| (if r.writable then epollOut else 0)

/-- What the kernel reports for an entry. -/
def report (e : FdEntry κ υ) : Option (Int × BitVec 32) :=
  let revents := (t.poller.interest e.fd).getD 0 &&& epollReady (t.ready e.fd)
  if revents = 0 then none else some (e.fd, revents)

/-- `epoll_wait` returns these events. -/
def EpollWait (evs : List (Int × BitVec 32)) : Prop :=
  ∃ l : List (Int × BitVec 32), l.Perm (t.poller.entries.filterMap t.report) ∧ evs = l.take 64

/-- The mask that a callback gets. -/
def fromEpoll (revents : BitVec 32) : BitVec 32 :=
  orIf revents epollHup pollHup <| orIf revents epollErr pollErr <|
    orIf revents epollOut pollOut <| orIf revents epollIn pollIn 0

/-- An iteration of the event loop. -/
def epollEvent (log : TurnLog υ τ) (ev : Int × BitVec 32) : TurnLog υ τ :=
  let log := if ev.1 = t.poller.wakeR then log.drainTasks t else log
  match t.poller.findEntry ev.1 with
  | none => log
  | some e =>
      match e.cb with
      | none => log
      | some cb => log.callback t cb ev.1 (fromEpoll ev.2) e.user

/-- `ztk_poller_poll` after `epoll_wait`. -/
def pollEpoll (evs : List (Int × BitVec 32)) : TurnLog υ τ :=
  let log := if evs.isEmpty then t.start.drainPending t else t.start
  (evs.foldl t.epollEvent log).drainPending t

/-! ## `poller_select.c` -/

/-- The entry is looked at. -/
def selectable (e : FdEntry κ υ) : Bool := 0 ≤ e.fd && e.fd < fdSetsize

/-- The descriptor is put into a set for its interest in one of the bits. -/
def fdSet (bits : BitVec 32) (fd : Int) : Bool :=
  t.poller.entries.any fun e => selectable e && e.fd == fd && e.events &&& bits != 0

/-- `FD_ISSET(fd, &rfds)` after `select`. -/
def rfds (fd : Int) : Bool := t.fdSet (pollIn ||| pollHup) fd && (t.ready fd).readable

/-- `FD_ISSET(fd, &wfds)` after `select`. -/
def wfds (fd : Int) : Bool := t.fdSet pollOut fd && (t.ready fd).writable

/-- `FD_ISSET(fd, &efds)` after `select`. -/
def efds (fd : Int) : Bool := t.fdSet pollErr fd && (t.ready fd).urgent

/-- `select` returns a positive number. -/
def selectAny : Bool :=
  t.poller.entries.any fun e => t.rfds e.fd || t.wfds e.fd || t.efds e.fd

/-- `ready_ev`. -/
structure ReadyEv (κ υ : Type) where
  fd : Int
  out : BitVec 32
  cb : κ
  user : Option υ

/-- The mask of the sets that have the descriptor. -/
def selectOut (fd : Int) : BitVec 32 :=
  (if t.rfds fd then pollIn else 0) ||| (if t.wfds fd then pollOut else 0) |||
    (if t.efds fd then pollErr else 0)

/-- An iteration of the loop over the entries. -/
def selectEntry (s : TurnLog υ τ × List (ReadyEv κ υ)) (e : FdEntry κ υ) :
    TurnLog υ τ × List (ReadyEv κ υ) :=
  if !selectable e then s
  else if e.fd = t.poller.wakeR ∧ t.rfds e.fd then (s.1.drainTasks t, s.2)
  else if t.selectOut e.fd = 0 then s
  else
    match e.cb with
    | none => s
    | some cb => (s.1, s.2 ++ [⟨e.fd, t.selectOut e.fd, cb, e.user⟩])

/-- The call that a `ready_ev` stands for. -/
def readyCall (log : TurnLog υ τ) (r : ReadyEv κ υ) : TurnLog υ τ :=
  log.callback t r.cb r.fd r.out r.user

/-- `ztk_poller_poll` after `select`. -/
def pollSelect : TurnLog υ τ :=
  if !t.selectAny then t.start.drainPending t
  else
    let (log, ready) := t.poller.entries.foldl t.selectEntry (t.start, [])
    (ready.take 64).foldl t.readyCall log

/-! ## Masks -/

/-- The bit is in the mask. -/
def has (events bit : BitVec 32) : Bool := events &&& bit != 0

/-- A mask by its bits, without `ZTK_POLL_HUP`. -/
def mask (i o x : Bool) : BitVec 32 :=
  (if i then pollIn else 0) ||| (if o then pollOut else 0) ||| (if x then pollErr else 0)

theorem orIf_eq (events bit out ev : BitVec 32) :
    orIf events bit out ev = if has events bit then ev ||| out else ev := by
  simp [orIf, has]

theorem has_or (events b c : BitVec 32) : has events (b ||| c) = (has events b || has events c) := by
  rw [has, has, has, BitVec.and_or_distrib_left, Bool.eq_iff_iff, Bool.or_eq_true, bne_iff_ne,
    bne_iff_ne, bne_iff_ne, ← not_and_or]
  exact not_congr BitVec.or_eq_zero_iff

/-- What the kernel takes from a mask and a callback gets back. -/
theorem fromEpoll_toEpoll (events : BitVec 32) (r : Readiness) :
    fromEpoll (toEpoll events &&& epollReady r) =
      mask (has events pollIn && r.readable) (has events pollOut && r.writable) false := by
  rw [toEpoll, orIf_eq, orIf_eq, orIf_eq, orIf_eq, epollReady]
  generalize has events pollIn = i, has events pollOut = o, has events pollErr = x,
    has events pollHup = h, r.readable = rd, r.writable = wr
  revert i o x h rd wr
  decide

/-- The kernel reports nothing exactly when nothing asked for is ready. -/
theorem toEpoll_ready_eq_zero (events : BitVec 32) (r : Readiness) :
    toEpoll events &&& epollReady r = 0 ↔
      (has events pollIn && r.readable || has events pollOut && r.writable) = false := by
  rw [toEpoll, orIf_eq, orIf_eq, orIf_eq, orIf_eq, epollReady]
  generalize has events pollIn = i, has events pollOut = o, has events pollErr = x,
    has events pollHup = h, r.readable = rd, r.writable = wr
  revert i o x h rd wr
  decide

theorem mask_eq_iff : ∀ i o x i' o' x' : Bool,
    mask i o x = mask i' o' x' ↔ i = i' ∧ o = o' ∧ x = x' := by
  decide

/-! ## What is reported -/

/-- The descriptor has input that the entry asks for. -/
def readyIn (e : FdEntry κ υ) : Bool := has e.events pollIn && (t.ready e.fd).readable

def readyOut (e : FdEntry κ υ) : Bool := has e.events pollOut && (t.ready e.fd).writable

/-- The descriptor has input, and the entry asks for input or for hang-ups. -/
def readyInHup (e : FdEntry κ υ) : Bool :=
  (has e.events pollIn || has e.events pollHup) && (t.ready e.fd).readable

def readyUrgent (e : FdEntry κ υ) : Bool := has e.events pollErr && (t.ready e.fd).urgent

variable {t} {e : FdEntry κ υ}

theorem findEntry_eq (he : e ∈ t.poller.entries) : t.poller.findEntry e.fd = some e :=
  find?_key t.matched.once he

/-- With one entry for each descriptor, a set tells about the entry. -/
theorem fdSet_eq (he : e ∈ t.poller.entries) (bits : BitVec 32) :
    t.fdSet bits e.fd = has e.events bits := by
  rw [fdSet, Bool.eq_iff_iff, List.any_eq_true]
  constructor
  · rintro ⟨e', he', hset⟩
    simp only [Bool.and_eq_true, beq_iff_eq] at hset
    rw [List.inj_on_of_nodup_map t.matched.once he he' hset.1.2.symm]
    exact hset.2
  · intro hset
    refine ⟨e, he, ?_⟩
    have hsel : selectable e = true := by
      simp only [selectable, Bool.and_eq_true, decide_eq_true_eq]
      exact t.inSet e he
    simp only [hsel, Bool.true_and, beq_self_eq_true]
    exact hset

theorem rfds_eq (he : e ∈ t.poller.entries) : t.rfds e.fd = t.readyInHup e := by
  rw [rfds, fdSet_eq he, has_or, readyInHup]

theorem wfds_eq (he : e ∈ t.poller.entries) : t.wfds e.fd = t.readyOut e := by
  rw [wfds, fdSet_eq he, readyOut]

theorem efds_eq (he : e ∈ t.poller.entries) : t.efds e.fd = t.readyUrgent e := by
  rw [efds, fdSet_eq he, readyUrgent]

theorem selectOut_eq (he : e ∈ t.poller.entries) :
    t.selectOut e.fd = mask (t.readyInHup e) (t.readyOut e) (t.readyUrgent e) := by
  rw [selectOut, rfds_eq he, wfds_eq he, efds_eq he, mask]

/-- The mask that epoll hands to a callback. -/
theorem fromEpoll_revents (he : e ∈ t.poller.entries) :
    fromEpoll ((t.poller.interest e.fd).getD 0 &&& epollReady (t.ready e.fd)) =
      mask (t.readyIn e) (t.readyOut e) false := by
  rw [t.matched.agrees e he, Option.getD_some, fromEpoll_toEpoll, readyIn, readyOut]

theorem report_eq (he : e ∈ t.poller.entries) :
    t.report e = if t.readyIn e || t.readyOut e then
      some (e.fd, (t.poller.interest e.fd).getD 0 &&& epollReady (t.ready e.fd)) else none := by
  have hzero := toEpoll_ready_eq_zero e.events (t.ready e.fd)
  simp only [report, t.matched.agrees e he, Option.getD_some, hzero, readyIn, readyOut]
  cases has e.events pollIn && (t.ready e.fd).readable ||
    has e.events pollOut && (t.ready e.fd).writable <;> rfl

/-! ## Callbacks -/

/-- The call that epoll makes for an event. -/
def eventCall (t : Turn κ υ τ) (ev : Int × BitVec 32) : Option (CbCall υ) :=
  (t.poller.findEntry ev.1).bind fun e => e.cb.map fun _ => ⟨ev.1, fromEpoll ev.2, e.user⟩

/-- The call that epoll makes for an entry. -/
def epollCall (t : Turn κ υ τ) (e : FdEntry κ υ) : Option (CbCall υ) :=
  if t.readyIn e || t.readyOut e then
    e.cb.map fun _ => ⟨e.fd, mask (t.readyIn e) (t.readyOut e) false, e.user⟩
  else none

/-- The call that select makes for an entry. -/
def selectCall (t : Turn κ υ τ) (e : FdEntry κ υ) : Option (CbCall υ) :=
  if e.fd = t.poller.wakeR ∧ t.readyInHup e then none
  else if t.readyInHup e || t.readyOut e || t.readyUrgent e then
    e.cb.map fun _ => ⟨e.fd, mask (t.readyInHup e) (t.readyOut e) (t.readyUrgent e), e.user⟩
  else none

theorem epollEvent_calls (log : TurnLog υ τ) (ev : Int × BitVec 32) :
    (t.epollEvent log ev).calls = log.calls ++ (t.eventCall ev).toList := by
  have hdrain : (if ev.1 = t.poller.wakeR then log.drainTasks t else log).calls = log.calls := by
    split <;> rfl
  simp only [epollEvent, eventCall]
  cases t.poller.findEntry ev.1 with
  | none => simp [hdrain]
  | some e =>
      cases hcb : e.cb with
      | none => simp [hdrain, hcb]
      | some cb => simp [hdrain, hcb, TurnLog.callback]

theorem epollEvents_calls (evs : List (Int × BitVec 32)) (log : TurnLog υ τ) :
    (evs.foldl t.epollEvent log).calls = log.calls ++ evs.filterMap t.eventCall := by
  induction evs generalizing log with
  | nil => simp
  | cons ev evs ih =>
      rw [List.foldl_cons, ih, epollEvent_calls, List.append_assoc, List.filterMap_cons]
      cases t.eventCall ev <;> rfl

theorem drainPending_calls (log : TurnLog υ τ) : (log.drainPending t).calls = log.calls := by
  simp only [TurnLog.drainPending]
  split <;> rfl

/-- What is told about descriptors that are ready is told about at most 64. -/
theorem filterMap_length_le {β : Type} {f : FdEntry κ υ → Option β}
    (h : ∀ e ∈ t.poller.entries, (f e).isSome = true → (t.ready e.fd).any = true) :
    (t.poller.entries.filterMap f).length ≤ 64 := by
  refine Nat.le_trans ?_ t.few
  rw [List.length_filterMap_eq_countP, ← List.countP_eq_length_filter]
  exact List.countP_mono_left h

/-- At most 64 descriptors are reported, so no event is left for the next turn. -/
theorem epollWait_perm {evs : List (Int × BitVec 32)} (h : t.EpollWait evs) :
    evs.Perm (t.poller.entries.filterMap t.report) := by
  obtain ⟨l, hl, rfl⟩ := h
  have hlen : l.length ≤ 64 := by
    rw [hl.length_eq]
    refine filterMap_length_le fun e he hsome => ?_
    rw [report_eq he] at hsome
    rw [Readiness.any]
    cases hr : (t.ready e.fd).readable <;> cases hw : (t.ready e.fd).writable <;>
      simp [readyIn, readyOut, hr, hw] at hsome ⊢
  rwa [List.take_of_length_le hlen]

/-- The callbacks of a turn of epoll, in some order. -/
theorem pollEpoll_calls {evs : List (Int × BitVec 32)} (h : t.EpollWait evs) :
    (t.pollEpoll evs).calls.Perm (t.poller.entries.filterMap t.epollCall) := by
  have hcall : ∀ e ∈ t.poller.entries, (t.report e).bind t.eventCall = t.epollCall e := by
    intro e he
    rw [report_eq he, epollCall]
    split
    · rw [Option.bind_some, eventCall, findEntry_eq he, Option.bind_some, fromEpoll_revents he]
    · rfl
  have hstart : (if evs.isEmpty then t.start.drainPending t else t.start).calls = [] := by
    split
    · exact drainPending_calls _
    · rfl
  rw [pollEpoll, drainPending_calls, epollEvents_calls, hstart, List.nil_append,
    ← List.filterMap_congr hcall, ← List.filterMap_filterMap]
  exact (epollWait_perm h).filterMap _

/-- The entry is kept for its callback. -/
def selectReady (t : Turn κ υ τ) (e : FdEntry κ υ) : Option (ReadyEv κ υ) :=
  if e.fd = t.poller.wakeR ∧ t.rfds e.fd ∨ t.selectOut e.fd = 0 then none
  else e.cb.map fun cb => ⟨e.fd, t.selectOut e.fd, cb, e.user⟩

/-- The wake pipe is readable, and select was asked about it. -/
def WakeRead (t : Turn κ υ τ) : Prop := ∃ e ∈ t.poller.entries, e.fd = t.poller.wakeR ∧ t.readyInHup e

instance : Decidable t.WakeRead := inferInstanceAs (Decidable (∃ e ∈ _, _))

theorem selectable_eq (he : e ∈ t.poller.entries) : selectable e = true := by
  simp only [selectable, Bool.and_eq_true, decide_eq_true_eq]
  exact t.inSet e he

theorem selectEntry_ready (s : TurnLog υ τ × List (ReadyEv κ υ)) (hsel : selectable e = true) :
    (t.selectEntry s e).2 = s.2 ++ (t.selectReady e).toList := by
  rw [selectEntry, hsel, Bool.not_true, if_neg Bool.false_ne_true]
  simp only [selectReady]
  by_cases hw : e.fd = t.poller.wakeR ∧ t.rfds e.fd = true
  · rw [if_pos hw, if_pos (Or.inl hw), Option.toList_none, List.append_nil]
  · rw [if_neg hw]
    by_cases ho : t.selectOut e.fd = 0
    · rw [if_pos ho, if_pos (Or.inr ho), Option.toList_none, List.append_nil]
    · rw [if_neg ho, if_neg (not_or.mpr ⟨hw, ho⟩)]
      cases e.cb <;> simp

/-- The log after an iteration: only the wake entry touches it. -/
theorem selectEntry_log (s : TurnLog υ τ × List (ReadyEv κ υ)) (hsel : selectable e = true) :
    (t.selectEntry s e).1 =
      if e.fd = t.poller.wakeR ∧ t.rfds e.fd then s.1.drainTasks t else s.1 := by
  rw [selectEntry, hsel, Bool.not_true, if_neg Bool.false_ne_true]
  by_cases hw : e.fd = t.poller.wakeR ∧ t.rfds e.fd = true
  · rw [if_pos hw, if_pos hw]
  · rw [if_neg hw, if_neg hw]
    split
    · rfl
    · cases e.cb <;> rfl

theorem selectEntries_ready (es : List (FdEntry κ υ)) (hsel : ∀ e ∈ es, selectable e = true)
    (s : TurnLog υ τ × List (ReadyEv κ υ)) :
    (es.foldl t.selectEntry s).2 = s.2 ++ es.filterMap t.selectReady := by
  induction es generalizing s with
  | nil => simp
  | cons e es ih =>
      rw [List.foldl_cons, ih fun e he => hsel e (List.mem_cons_of_mem _ he),
        selectEntry_ready s (hsel e List.mem_cons_self), List.append_assoc, List.filterMap_cons]
      cases t.selectReady e <;> rfl

/-- The wake entry is met once, so the tasks are drained once. -/
theorem selectEntries_log (es : List (FdEntry κ υ)) (hsel : ∀ e ∈ es, selectable e = true)
    (hn : (es.map FdEntry.fd).Nodup) (s : TurnLog υ τ × List (ReadyEv κ υ)) :
    (es.foldl t.selectEntry s).1 =
      if ∃ e ∈ es, e.fd = t.poller.wakeR ∧ t.rfds e.fd then s.1.drainTasks t else s.1 := by
  induction es generalizing s with
  | nil => simp
  | cons e es ih =>
      rw [List.map_cons, List.nodup_cons] at hn
      rw [List.foldl_cons, ih (fun e he => hsel e (List.mem_cons_of_mem _ he)) hn.2,
        selectEntry_log s (hsel e List.mem_cons_self)]
      by_cases hw : e.fd = t.poller.wakeR ∧ t.rfds e.fd = true
      · have hnone : ¬ ∃ e' ∈ es, e'.fd = t.poller.wakeR ∧ t.rfds e'.fd = true := by
          rintro ⟨e', he', hfd, -⟩
          exact hn.1 (hw.1 ▸ hfd ▸ List.mem_map_of_mem he')
        rw [if_neg hnone, if_pos hw, if_pos ⟨e, List.mem_cons_self, hw⟩]
      · rw [if_neg hw]
        refine if_congr ?_ rfl rfl
        simp only [List.mem_cons, exists_eq_or_imp]
        exact (or_iff_right hw).symm

theorem readyCalls (rs : List (ReadyEv κ υ)) (log : TurnLog υ τ) :
    (rs.foldl t.readyCall log).calls = log.calls ++ rs.map (fun r => ⟨r.fd, r.out, r.user⟩) ∧
      (rs.foldl t.readyCall log).ran = log.ran := by
  induction rs generalizing log with
  | nil => simp
  | cons r rs ih =>
      obtain ⟨hcalls, hran⟩ := ih (t.readyCall log r)
      rw [List.foldl_cons, hcalls, hran]
      exact ⟨by simp [readyCall, TurnLog.callback], rfl⟩

theorem selectReady_call (he : e ∈ t.poller.entries) :
    (t.selectReady e).map (fun r => ⟨r.fd, r.out, r.user⟩) = t.selectCall e := by
  rw [selectReady, selectCall, rfds_eq he, selectOut_eq he]
  by_cases hw : e.fd = t.poller.wakeR ∧ t.readyInHup e = true
  · rw [if_pos hw, if_pos (Or.inl hw), Option.map_none]
  · have hzero : mask (t.readyInHup e) (t.readyOut e) (t.readyUrgent e) = 0 ↔
        ¬ (t.readyInHup e || t.readyOut e || t.readyUrgent e) = true := by
      rw [show (0 : BitVec 32) = mask false false false from rfl, mask_eq_iff]
      simp [and_assoc]
    rw [if_neg hw]
    simp only [hw, false_or, hzero, ite_not]
    cases e.cb <;> split <;> simp_all

/-- Select sees nothing. -/
def Quiet (t : Turn κ υ τ) : Prop :=
  ∀ e ∈ t.poller.entries, (t.readyInHup e || t.readyOut e || t.readyUrgent e) = false

instance : Decidable t.Quiet := inferInstanceAs (Decidable (∀ e ∈ _, _))

theorem selectAny_eq : t.selectAny = false ↔ t.Quiet := by
  rw [selectAny, List.any_eq_false]
  refine forall_congr' fun e => imp_congr_right fun he => ?_
  rw [rfds_eq he, wfds_eq he, efds_eq he, Bool.not_eq_true]

theorem drainPending_ran (log : TurnLog υ τ) : (log.drainPending t).ran = log.ran ++ log.queue := by
  simp only [TurnLog.drainPending]
  split
  · next h => rw [List.isEmpty_iff.mp h, List.append_nil]
  · rfl

/-- The loop over the entries, when something is ready. -/
theorem selectEntries_eq :
    t.poller.entries.foldl t.selectEntry (t.start, []) =
      (if t.WakeRead then t.start.drainTasks t else t.start,
        t.poller.entries.filterMap t.selectReady) := by
  have hsel : ∀ e ∈ t.poller.entries, selectable e = true := fun e he => selectable_eq he
  refine Prod.ext ?_ (selectEntries_ready _ hsel _)
  rw [selectEntries_log _ hsel t.matched.once]
  refine if_congr (exists_congr fun e => and_congr_right fun he => ?_) rfl rfl
  rw [rfds_eq he]

/-- A turn of select: what is called, and whether the queue is run. -/
theorem pollSelect_eq :
    t.pollSelect.calls = t.poller.entries.filterMap t.selectCall ∧
      t.pollSelect.ran = if t.Quiet ∨ t.WakeRead then t.tasks else [] := by
  have hcall : ∀ e ∈ t.poller.entries,
      (t.selectReady e).map (fun r => (⟨r.fd, r.out, r.user⟩ : CbCall υ)) = t.selectCall e :=
    fun e he => selectReady_call he
  simp only [pollSelect]
  cases hany : t.selectAny with
  | false =>
      have hquiet := selectAny_eq.mp hany
      rw [Bool.not_false, if_pos rfl, drainPending_calls, drainPending_ran, if_pos (Or.inl hquiet)]
      refine ⟨(List.filterMap_eq_nil_iff.mpr fun e he => ?_).symm, List.nil_append _⟩
      rw [selectCall, hquiet e he]
      simp
  | true =>
      have hquiet : ¬ t.Quiet := fun hq => by
        rw [selectAny_eq.mpr hq] at hany
        cases hany
      have hlen : (t.poller.entries.filterMap t.selectReady).length ≤ 64 := by
        refine filterMap_length_le fun e he hsome => ?_
        rw [← Option.isSome_map (f := fun r => (⟨r.fd, r.out, r.user⟩ : CbCall υ)), hcall e he] at hsome
        rw [Readiness.any]
        cases hr : (t.ready e.fd).readable <;> cases hw : (t.ready e.fd).writable <;>
          cases hu : (t.ready e.fd).urgent <;>
          simp [selectCall, readyInHup, readyOut, readyUrgent, hr, hw, hu] at hsome ⊢
      rw [Bool.not_true, if_neg Bool.false_ne_true, selectEntries_eq]
      simp only [hquiet, false_or, List.take_of_length_le hlen]
      obtain ⟨hcalls, hran⟩ := readyCalls (t := t) (t.poller.entries.filterMap t.selectReady)
        (if t.WakeRead then t.start.drainTasks t else t.start)
      rw [hcalls, hran, List.map_filterMap, List.filterMap_congr hcall]
      by_cases hw : t.WakeRead
      · rw [if_pos hw, if_pos hw]
        exact ⟨List.nil_append _, List.nil_append _⟩
      · rw [if_neg hw, if_neg hw]
        exact ⟨List.nil_append _, rfl⟩

/-! ## Tasks -/

/-- The tasks that the callback of an event posts. -/
def eventPosts (t : Turn κ υ τ) (ev : Int × BitVec 32) : List τ :=
  ((t.poller.findEntry ev.1).bind fun e =>
    e.cb.map fun cb => t.cbPosts cb ev.1 (fromEpoll ev.2) e.user).getD []

/-- An iteration without the wake descriptor. -/
theorem epollEvent_other (log : TurnLog υ τ) {ev : Int × BitVec 32} (hw : ev.1 ≠ t.poller.wakeR) :
    (t.epollEvent log ev).ran = log.ran ∧
      (t.epollEvent log ev).queue = log.queue ++ t.eventPosts ev := by
  simp only [epollEvent, eventPosts]
  rw [if_neg hw]
  cases t.poller.findEntry ev.1 with
  | none => simp
  | some e =>
      cases hcb : e.cb with
      | none => simp [hcb]
      | some cb => simp [hcb, TurnLog.callback]

/-- An iteration with the wake descriptor. -/
theorem epollEvent_wake (log : TurnLog υ τ) {ev : Int × BitVec 32} (hw : ev.1 = t.poller.wakeR) :
    (t.epollEvent log ev).ran = log.ran ++ log.queue ∧
      (t.epollEvent log ev).queue = log.queue.flatMap t.taskPosts ++ t.eventPosts ev := by
  simp only [epollEvent, eventPosts]
  rw [if_pos hw]
  cases t.poller.findEntry ev.1 with
  | none => simp [TurnLog.drainTasks]
  | some e =>
      cases hcb : e.cb with
      | none => simp [hcb, TurnLog.drainTasks]
      | some cb => simp [hcb, TurnLog.callback, TurnLog.drainTasks]

/-- The events add tasks to those known, and they add none exactly when no callback
posts one and no task that is drained does. -/
theorem epollEvents_known (evs : List (Int × BitVec 32)) (log : TurnLog υ τ) :
    ∃ more, (evs.foldl t.epollEvent log).ran ++ (evs.foldl t.epollEvent log).queue =
        log.ran ++ log.queue ++ more ∧
      (more = [] ↔ (∀ ev ∈ evs, t.eventPosts ev = []) ∧
        (t.poller.wakeR ∈ evs.map Prod.fst → log.queue.flatMap t.taskPosts = [])) := by
  induction evs generalizing log with
  | nil => exact ⟨[], by simp, by simp⟩
  | cons ev evs ih =>
      obtain ⟨more, hmore, hiff⟩ := ih (t.epollEvent log ev)
      rw [List.foldl_cons, hmore]
      by_cases hw : ev.1 = t.poller.wakeR
      · obtain ⟨hran, hqueue⟩ := epollEvent_wake log hw
        refine ⟨log.queue.flatMap t.taskPosts ++ t.eventPosts ev ++ more, ?_, ?_⟩
        · rw [hran, hqueue, List.append_assoc (log.ran ++ log.queue)]
        · rw [List.append_eq_nil_iff, List.append_eq_nil_iff, hiff, hqueue]
          simp only [List.forall_mem_cons, List.map_cons, hw, List.mem_cons_self, forall_const]
          constructor
          · rintro ⟨⟨hq, hp⟩, hevs, -⟩
            exact ⟨⟨hp, hevs⟩, hq⟩
          · rintro ⟨⟨hp, hevs⟩, hq⟩
            refine ⟨⟨hq, hp⟩, hevs, fun _ => ?_⟩
            rw [hq, hp]
            rfl
      · obtain ⟨hran, hqueue⟩ := epollEvent_other log hw
        refine ⟨t.eventPosts ev ++ more, ?_, ?_⟩
        · rw [hran, hqueue, List.append_assoc, List.append_assoc, List.append_assoc]
        · rw [List.append_eq_nil_iff, hiff, hqueue, List.forall_mem_cons, List.map_cons,
            List.mem_cons, or_iff_right (Ne.symm hw), and_assoc]
          refine and_congr_right fun hp => ?_
          rw [hp, List.append_nil]

/-- The tasks that a turn of epoll runs. -/
theorem pollEpoll_ran (t : Turn κ υ τ) (evs : List (Int × BitVec 32)) :
    ∃ more, (t.pollEpoll evs).ran = t.tasks ++ more ∧
      (more = [] ↔ (∀ ev ∈ evs, t.eventPosts ev = []) ∧
        (evs = [] ∨ t.poller.wakeR ∈ evs.map Prod.fst → t.tasks.flatMap t.taskPosts = [])) := by
  rw [pollEpoll, drainPending_ran]
  cases evs with
  | nil =>
      refine ⟨t.tasks.flatMap t.taskPosts, ?_, by simp⟩
      rw [List.isEmpty_nil, if_pos rfl, List.foldl_nil, TurnLog.drainPending]
      split
      · next h =>
          have h : t.tasks = [] := List.isEmpty_iff.mp h
          simp [start, h]
      · rfl
  | cons ev evs =>
      obtain ⟨more, hmore, hiff⟩ := epollEvents_known (t := t) (ev :: evs) t.start
      refine ⟨more, hmore, ?_⟩
      rw [hiff, or_iff_right (List.cons_ne_nil ev evs)]
      rfl

/-! ## Agreement -/

/-- Epoll is told about the entry. -/
def readyEpoll (t : Turn κ υ τ) (e : FdEntry κ υ) : Bool := t.readyIn e || t.readyOut e

/-- The two backends make the same call for an entry that has a callback.  For the
wake descriptor with its pipe readable, they make none. -/
def SameReport (t : Turn κ υ τ) (e : FdEntry κ υ) : Prop :=
  if e.fd = t.poller.wakeR ∧ t.readyInHup e then t.readyEpoll e = false
  else t.readyInHup e = t.readyIn e ∧ t.readyUrgent e = false

/-- When the two backends dispatch alike. -/
structure Alike (t : Turn κ υ τ) : Prop where
  /-- The callbacks are told the same. -/
  reports : ∀ e ∈ t.poller.entries, e.cb.isSome = true → t.SameReport e
  /-- Select drains the tasks, or there are none. -/
  drained : t.tasks = [] ∨ t.Quiet ∨ t.WakeRead
  /-- The callbacks post nothing, which only epoll would run. -/
  callbacks : ∀ e ∈ t.poller.entries, ∀ cb ∈ e.cb, t.readyEpoll e = true →
    t.cbPosts cb e.fd (mask (t.readyIn e) (t.readyOut e) false) e.user = []
  /-- Where epoll drains before the end of the turn, the tasks post nothing. -/
  posts : (∀ e ∈ t.poller.entries, t.readyEpoll e = false) ∨
      (∃ e ∈ t.poller.entries, e.fd = t.poller.wakeR ∧ t.readyEpoll e = true) →
    ∀ x ∈ t.tasks, t.taskPosts x = []

theorem epollCall_eq_selectCall (t : Turn κ υ τ) (e : FdEntry κ υ) :
    t.epollCall e = t.selectCall e ↔ (e.cb.isSome = true → t.SameReport e) := by
  simp only [epollCall, selectCall, SameReport, readyEpoll]
  cases e.cb with
  | none => simp
  | some cb =>
      by_cases hw : e.fd = t.poller.wakeR ∧ t.readyInHup e = true
      · simp only [if_pos hw, Option.map_some, Option.isSome_some, forall_const]
        cases t.readyIn e || t.readyOut e <;> simp
      · simp only [if_neg hw, Option.map_some, Option.isSome_some, forall_const]
        generalize t.readyIn e = i, t.readyOut e = o, t.readyInHup e = h, t.readyUrgent e = x
        cases i <;> cases o <;> cases h <;> cases x <;> simp [mask_eq_iff]

theorem epollCall_fd {c : CbCall υ} (h : t.epollCall e = some c) : c.fd = e.fd := by
  simp only [epollCall] at h
  split at h
  · obtain ⟨cb, -, rfl⟩ := Option.map_eq_some_iff.mp h
    rfl
  · cases h

theorem selectCall_fd {c : CbCall υ} (h : t.selectCall e = some c) : c.fd = e.fd := by
  simp only [selectCall] at h
  split at h
  · cases h
  · split at h
    · obtain ⟨cb, -, rfl⟩ := Option.map_eq_some_iff.mp h
      rfl
    · cases h

variable {evs : List (Int × BitVec 32)}

/-- An event is the report of an entry. -/
theorem mem_evs (h : t.EpollWait evs) {ev : Int × BitVec 32} :
    ev ∈ evs ↔ ∃ e ∈ t.poller.entries, t.readyEpoll e = true ∧
      ev = (e.fd, (t.poller.interest e.fd).getD 0 &&& epollReady (t.ready e.fd)) := by
  rw [(epollWait_perm h).mem_iff, List.mem_filterMap]
  refine exists_congr fun e => and_congr_right fun he => ?_
  rw [report_eq he, readyEpoll]
  split
  · next hr => rw [Option.some.injEq, hr, and_iff_right rfl, eq_comm]
  · next hr => exact iff_of_false (by intro hn; cases hn) fun hn => hr hn.1

theorem evs_eq_nil (h : t.EpollWait evs) :
    evs = [] ↔ ∀ e ∈ t.poller.entries, t.readyEpoll e = false := by
  constructor
  · intro hnil e he
    by_contra hr
    have hm := (mem_evs h).mpr ⟨e, he, eq_true_of_ne_false hr, rfl⟩
    rw [hnil] at hm
    cases hm
  · intro hall
    refine List.eq_nil_iff_forall_not_mem.mpr fun ev hev => ?_
    obtain ⟨e, he, hr, -⟩ := (mem_evs h).mp hev
    rw [hall e he] at hr
    cases hr

theorem wake_mem_evs (h : t.EpollWait evs) :
    t.poller.wakeR ∈ evs.map Prod.fst ↔
      ∃ e ∈ t.poller.entries, e.fd = t.poller.wakeR ∧ t.readyEpoll e = true := by
  rw [List.mem_map]
  constructor
  · rintro ⟨ev, hev, hfd⟩
    obtain ⟨e, he, hr, rfl⟩ := (mem_evs h).mp hev
    exact ⟨e, he, hfd, hr⟩
  · rintro ⟨e, he, hfd, hr⟩
    exact ⟨_, (mem_evs h).mpr ⟨e, he, hr, rfl⟩, hfd⟩

theorem eventPosts_eq_nil (h : t.EpollWait evs) :
    (∀ ev ∈ evs, t.eventPosts ev = []) ↔
      ∀ e ∈ t.poller.entries, ∀ cb ∈ e.cb, t.readyEpoll e = true →
        t.cbPosts cb e.fd (mask (t.readyIn e) (t.readyOut e) false) e.user = [] := by
  have hposts : ∀ e ∈ t.poller.entries,
      t.eventPosts (e.fd, (t.poller.interest e.fd).getD 0 &&& epollReady (t.ready e.fd)) =
        (e.cb.map fun cb =>
          t.cbPosts cb e.fd (mask (t.readyIn e) (t.readyOut e) false) e.user).getD [] := by
    intro e he
    rw [eventPosts, findEntry_eq he, Option.bind_some, fromEpoll_revents he]
  constructor
  · intro hall e he cb hcb hr
    have hnil := hall _ ((mem_evs h).mpr ⟨e, he, hr, rfl⟩)
    rwa [hposts e he, Option.mem_def.mp hcb] at hnil
  · intro hall ev hev
    obtain ⟨e, he, hr, rfl⟩ := (mem_evs h).mp hev
    rw [hposts e he]
    cases hcb : e.cb with
    | none => rfl
    | some cb => exact hall e he cb hcb hr

/-- The backends run the same tasks exactly when select drains the queue and
nothing is posted that epoll runs in the same turn. -/
theorem ran_perm_iff :
    (t.pollEpoll evs).ran.Perm t.pollSelect.ran ↔
      (t.tasks = [] ∨ t.Quiet ∨ t.WakeRead) ∧ (∀ ev ∈ evs, t.eventPosts ev = []) ∧
        (evs = [] ∨ t.poller.wakeR ∈ evs.map Prod.fst → t.tasks.flatMap t.taskPosts = []) := by
  obtain ⟨more, hran, hiff⟩ := pollEpoll_ran t evs
  rw [hran, pollSelect_eq.2, ← hiff]
  by_cases hd : t.Quiet ∨ t.WakeRead
  · rw [if_pos hd, and_iff_right (Or.inr hd)]
    constructor
    · intro hp
      have hlen := hp.length_eq
      rw [List.length_append] at hlen
      exact List.length_eq_zero_iff.mp (by omega)
    · intro hm
      rw [hm, List.append_nil]
  · rw [if_neg hd, or_iff_left hd, List.perm_nil, List.append_eq_nil_iff]

/-- For every registration, every readiness and every order in which the kernel
reports: a turn makes the same calls and runs the same tasks in both backends
exactly when they are alike. -/
theorem dispatch_alike_iff (t : Turn κ υ τ) {evs : List (Int × BitVec 32)} (h : t.EpollWait evs) :
    (t.pollEpoll evs).calls.Perm t.pollSelect.calls ∧ (t.pollEpoll evs).ran.Perm t.pollSelect.ran ↔
      t.Alike := by
  have hcalls : (t.pollEpoll evs).calls.Perm t.pollSelect.calls ↔
      ∀ e ∈ t.poller.entries, e.cb.isSome = true → t.SameReport e := by
    rw [(pollEpoll_calls h).congr_left, pollSelect_eq.1]
    rw [filterMap_perm_iff t.matched.once CbCall.fd (fun _ _ => epollCall_fd)
      fun _ _ => selectCall_fd]
    exact forall_congr' fun e => imp_congr_right fun _ => epollCall_eq_selectCall t e
  have hflat : t.tasks.flatMap t.taskPosts = [] ↔ ∀ x ∈ t.tasks, t.taskPosts x = [] :=
    List.flatMap_eq_nil_iff
  rw [hcalls, ran_perm_iff, eventPosts_eq_nil h, evs_eq_nil h, wake_mem_evs h, hflat]
  exact ⟨fun ⟨h₁, h₂, h₃, h₄⟩ => ⟨h₁, h₂, h₃, h₄⟩, fun ⟨h₁, h₂, h₃, h₄⟩ => ⟨h₁, h₂, h₃, h₄⟩⟩

/-- A socket with input and a task behind a byte in the wake pipe. -/
def readableTurn : Turn Nat Nat Nat where
  poller :=
    { wakeR := 3
      entries := [⟨5, pollIn ||| pollErr ||| pollHup, some 1, some 2⟩, ⟨3, pollIn, none, none⟩]
      interest := fun fd => if fd = 3 then some 1 else if fd = 5 then some 25 else none }
  tasks := [7]
  ready := fun _ => ⟨true, false, false⟩
  cbPosts := fun _ _ _ _ => []
  taskPosts := fun _ => []
  matched := ⟨by decide, by decide, by decide⟩
  inSet := by decide
  few := by decide

theorem dispatch_alike_readable :
    readableTurn.EpollWait [(3, 1), (5, 1)] ∧
      (readableTurn.pollEpoll [(3, 1), (5, 1)]).calls.Perm readableTurn.pollSelect.calls ∧
      (readableTurn.pollEpoll [(3, 1), (5, 1)]).ran.Perm readableTurn.pollSelect.ran := by
  have hwait : readableTurn.EpollWait [(3, 1), (5, 1)] :=
    ⟨[(3, 1), (5, 1)], List.Perm.swap _ _ _, rfl⟩
  refine ⟨hwait, (dispatch_alike_iff readableTurn hwait).mpr ⟨?_, ?_, ?_, ?_⟩⟩
  · intro e he hcb
    rcases List.mem_pair.mp he with rfl | rfl
    · exact ⟨rfl, rfl⟩
    · cases hcb
  · exact Or.inr (Or.inr (by decide))
  · intro e _ cb _ _
    rfl
  · intro _ x _
    rfl

/-- A callback on the wake descriptor, and a byte in the pipe. -/
def wakeCallbackTurn : Turn Nat Nat Nat where
  poller :=
    { wakeR := 3
      entries := [⟨3, pollIn, some 1, none⟩]
      interest := fun fd => if fd = 3 then some 1 else none }
  tasks := []
  ready := fun _ => ⟨true, false, false⟩
  cbPosts := fun _ _ _ _ => []
  taskPosts := fun _ => []
  matched := ⟨by decide, by decide, by decide⟩
  inSet := by decide
  few := by decide

/-- Epoll makes the call and select does not. -/
theorem dispatch_wake_callback :
    wakeCallbackTurn.EpollWait [(3, 1)] ∧
      (wakeCallbackTurn.pollEpoll [(3, 1)]).calls = [⟨3, pollIn, none⟩] ∧
      wakeCallbackTurn.pollSelect.calls = [] ∧
      ¬ (wakeCallbackTurn.pollEpoll [(3, 1)]).calls.Perm wakeCallbackTurn.pollSelect.calls := by
  have hepoll : (wakeCallbackTurn.pollEpoll [(3, 1)]).calls = [⟨3, pollIn, none⟩] := by decide
  have hselect : wakeCallbackTurn.pollSelect.calls = [] := by decide
  refine ⟨⟨[(3, 1)], List.Perm.refl _, rfl⟩, hepoll, hselect, ?_⟩
  rw [hepoll, hselect]
  decide

end Turn

end Ztk.Poller
