import Ztk.Lib.Lifetime
import Ztk.Lib.Machine
import Ztk.Wepoll.Events
import Ztk.Wepoll.PollGroup

/-!
# Epoll ports

`port_state_t` and `sock_state_t` of `wepoll.c`: a socket in the epoll set has a poll request
with the AFD driver; a completed request comes back through the completion port; and a socket
that needs a new request waits in the update queue.  All of it stands under the lock of the
port, which `port__poll` gives up while it waits for packets, so a step is what one thread
does between taking the lock and giving it up.

The driver and the kernel are free: a request may complete at any time with any answer, also
after it was cancelled, and `afd_poll` and `afd_cancel_poll` may fail as `AfdAnswer` says.
`CancelIoEx` does not free the block of a request; only its completion does.

A `sock_state_t` is named by the order of its creation, and `sock_tree` is the list of those
that are registered.  A node is in one queue at most, so taking it out of its queue takes it
out of both.  `port_delete` is a number of steps, taken when no thread is in `port_wait`; what
becomes of the requests that it leaves with the driver is not followed.  Nor are the packets of
another port, which a thread in `port__poll` may be handed after `port_close`: these are the
subject of `EpollHandles`.
-/

namespace Ztk.Wepoll

open Ztk.Lib

/-! ## Data -/

/-- `sock__poll_status_t`. -/
inductive PollStatus where
  | idle
  | pending
  | cancelled
deriving DecidableEq

/-- `sock_state_t`. -/
structure SockState where
  /-- `io_status_block.Status`. -/
  status : BitVec 32
  /-- `poll_info.NumberOfHandles`. -/
  numberOfHandles : Nat
  /-- `poll_info.Handles[0].Events`. -/
  events : BitVec 32
  /-- `tree_node.key`. -/
  socket : BitVec 64
  pollGroup : Nat
  userData : Nat
  userEvents : BitVec 32
  pendingEvents : BitVec 32
  pollStatus : PollStatus
  deletePending : Bool
  /-- How often `EPOLLONESHOT` was asked for. -/
  oneshotsAsked : Nat
  /-- The events reported because of this. -/
  oneshots : Nat

namespace SockState

/-- `memset` to zero. -/
def zero : SockState where
  status := 0
  numberOfHandles := 0
  events := 0
  socket := 0
  pollGroup := 0
  userData := 0
  userEvents := 0
  pendingEvents := 0
  pollStatus := .idle
  deletePending := false
  oneshotsAsked := 0
  oneshots := 0

/-- The pending poll monitors all known events that the user wants. -/
def Monitored (x : SockState) : Prop :=
  Covered (x.userEvents &&& sockKnownEpollEvents) x.pendingEvents

instance (x : SockState) : Decidable x.Monitored := inferInstanceAs (Decidable (Covered _ _))

/-- What `sock_set_event` writes. -/
def setEvent (x : SockState) (ev : BitVec 32) (data : Nat) : SockState :=
  let events := sockSetEvents ev
  { x with
    userEvents := events
    userData := data
    oneshotsAsked := x.oneshotsAsked + if Shares events epolloneshot then 1 else 0 }

/-- What `sock__cancel_poll` writes. -/
def cancelPoll (x : SockState) : SockState :=
  { x with pollStatus := .cancelled, pendingEvents := 0 }

/-- What `sock_update` writes before `afd_poll`. -/
def pollInfo (x : SockState) : SockState :=
  { x with numberOfHandles := 1, events := sockEpollEventsToAfdEvents x.userEvents }

/-- What `sock_update` writes after `afd_poll`. -/
def submitted (x : SockState) : SockState :=
  { x with pollStatus := .pending, pendingEvents := x.userEvents }

/-- What `sock_feed_event` writes first. -/
def completed (x : SockState) : SockState := { x with pollStatus := .idle, pendingEvents := 0 }

/-- What `sock_feed_event` writes after an event, if `EPOLLONESHOT` was asked for. -/
def disarm (x : SockState) : SockState :=
  { x with userEvents := 0, oneshots := x.oneshots + 1 }

end SockState

/-- `struct epoll_event`, and the events that were asked for when it was made. -/
structure EpollEvent where
  events : BitVec 32
  data : Nat
  asked : BitVec 32

/-- Where the poll request of a socket is. -/
inductive Request where
  | none
  /-- With the driver, which looks for these events. -/
  | driver (events : BitVec 32)
  /-- Completed, with its packet in the completion port. -/
  | completed
  /-- Its packet was taken by a thread. -/
  | taken (t : Nat)
deriving DecidableEq

/-- A call of `port_wait`. -/
structure PortWait where
  maxevents : Nat
  timeout : Int
  due : Nat

/-- Where a thread is. -/
inductive WaitPhase where
  | idle
  /-- In `GetQueuedCompletionStatusEx`. -/
  | polling (w : PortWait)
  /-- This has returned: packets, or an error. -/
  | polled (w : PortWait) (r : Except Nat (List Nat))
  /-- `port_wait` has returned. -/
  | returned (maxevents r : Int) (events : List EpollEvent)

/-- What the driver answers for one socket. -/
structure AfdAnswer where
  /-- The error of `afd_poll`, if any. -/
  poll : Option Nat
  /-- The error of `NtCancelIoFileEx`, if any. -/
  cancel : Option Nat

def statusPending : BitVec 32 := 0x00000103
def statusCancelled : BitVec 32 := 0xC0000120

/-- `NT_SUCCESS`. -/
def ntSuccess (status : BitVec 32) : Bool := !status.msb

def errorInvalidHandle : Nat := 6
def errorIoPending : Nat := 997
def waitTimeout : Nat := 258

/-- `port_state_t`, the driver and the threads. -/
structure Port where
  /-- Whether `iocp_handle` is not `NULL`. -/
  iocp : Bool
  sockTree : List Nat
  sockUpdateQueue : List Nat
  sockDeletedQueue : List Nat
  pollGroups : PollGroups
  activePollCount : Nat
  sock : Nat → SockState
  next : Nat
  /-- The `sock_state_t` that are allocated. -/
  socks : List Nat
  life : Lifetime
  request : Nat → Request
  /-- The completion port. -/
  packets : List Nat
  wait : Nat → WaitPhase
  /-- The threads between the two halves of `port__poll`. -/
  polling : List Nat
  /-- `GetLastError` of the thread that has the lock. -/
  lastError : Nat
  /-- The last `port__update_events` reached the end of the queue. -/
  updated : Bool
  /-- `port_delete` has begun. -/
  deleting : Bool
  deleted : Bool
  /-- A request was made in a block that the driver had. -/
  overwritten : Bool
  /-- An assertion about `iocp_handle` did not hold. -/
  iocpFailed : Bool
  /-- Another assertion did not hold. -/
  failed : Bool

namespace Port

/-- `port_new`. -/
def new : Port where
  iocp := true
  sockTree := []
  sockUpdateQueue := []
  sockDeletedQueue := []
  pollGroups := .empty
  activePollCount := 0
  sock _ := .zero
  next := 0
  socks := []
  life := .start
  request _ := .none
  packets := []
  wait _ := .idle
  polling := []
  lastError := 0
  updated := true
  deleting := false
  deleted := false
  overwritten := false
  iocpFailed := false
  failed := false

/-- `assert`. -/
def check (s : Port) (c : Bool) : Port := { s with failed := s.failed || !c }

/-- `assert`, of `port_get_iocp_handle` and at the beginning of `port_delete`. -/
def checkIocp (s : Port) (c : Bool) : Port := { s with iocpFailed := s.iocpFailed || !c }

/-- Write the fields of a `sock_state_t`. -/
def setSock (s : Port) (k : Nat) (x : SockState) : Port :=
  { s with sock := Function.update s.sock k x, life := s.life.use k }

/-! ## The queues and the tree -/

/-- `queue_is_enqueued`. -/
def isEnqueued (s : Port) (k : Nat) : Bool := k ∈ s.sockUpdateQueue ∨ k ∈ s.sockDeletedQueue

/-- `queue_remove`. -/
def queueRemove (s : Port) (k : Nat) : Port :=
  { s with
    sockUpdateQueue := s.sockUpdateQueue.erase k
    sockDeletedQueue := s.sockDeletedQueue.erase k }

/-- `port_request_socket_update`. -/
def requestSocketUpdate (s : Port) (k : Nat) : Port :=
  if s.isEnqueued k then s else { s with sockUpdateQueue := s.sockUpdateQueue ++ [k] }

/-- `port_cancel_socket_update`. -/
def cancelSocketUpdate (s : Port) (k : Nat) : Port :=
  if s.isEnqueued k then s.queueRemove k else s

/-- `port_add_deleted_socket`. -/
def addDeletedSocket (s : Port) (k : Nat) : Port :=
  if s.isEnqueued k then s else { s with sockDeletedQueue := s.sockDeletedQueue ++ [k] }

/-- `port_remove_deleted_socket`. -/
def removeDeletedSocket (s : Port) (k : Nat) : Port :=
  if s.isEnqueued k then s.queueRemove k else s

/-- `port_find_socket`. -/
def findSocket (s : Port) (socket : BitVec 64) : Option Nat :=
  s.sockTree.find? fun k => (s.sock k).socket = socket

/-! ## The driver -/

/-- `afd_poll`: the request is with the driver unless it fails. -/
def afdPoll (s : Port) (k : Nat) (answer : Option Nat) : Port :=
  let s := s.setSock k { s.sock k with status := statusPending }
  let submitted := { s with
    request := Function.update s.request k (.driver (s.sock k).events)
    overwritten := s.overwritten || !decide (s.request k = .none) }
  match answer with
  | none => submitted
  | some e =>
      if e = errorIoPending then { submitted with lastError := e } else { s with lastError := e }

/-- `afd_cancel_poll`. -/
def afdCancelPoll (s : Port) (k : Nat) (answer : Option Nat) : Port × Bool :=
  if (s.sock k).status ≠ statusPending then (s, true)
  else
    match answer with
    | none => (s, true)
    | some e => ({ s with lastError := e }, false)

/-! ## Sockets -/

/-- `sock__cancel_poll`. -/
def sockCancelPoll (s : Port) (k : Nat) (answer : AfdAnswer) : Port × Bool :=
  let s := s.check ((s.sock k).pollStatus = .pending)
  match s.afdCancelPoll k answer.cancel with
  | (s, false) => (s, false)
  | (s, true) =>
      (s.setSock k (s.sock k).cancelPoll, true)

/-- The first part of `sock__delete`. -/
def sockUnregister (s : Port) (k : Nat) (answer : AfdAnswer) : Port :=
  let s := if (s.sock k).pollStatus = .pending then (s.sockCancelPoll k answer).1 else s
  let s := s.cancelSocketUpdate k
  let s := { s with sockTree := s.sockTree.erase k }
  s.setSock k { s.sock k with deletePending := true }

/-- `poll_group_release` and `sock__free`. -/
def sockFree (s : Port) (k : Nat) : Port :=
  { s with
    pollGroups := s.pollGroups.release (s.sock k).pollGroup
    socks := s.socks.erase k
    life := s.life.free k }

/-- The second part of `sock__delete`. -/
def sockRelease (s : Port) (k : Nat) (force : Bool) : Port :=
  if force ∨ (s.sock k).pollStatus = .idle then (s.removeDeletedSocket k).sockFree k
  else s.addDeletedSocket k

/-- `sock__delete`. -/
def sockDelete (s : Port) (k : Nat) (force : Bool) (answer : AfdAnswer) : Port :=
  let s := { s with life := s.life.use k }
  (if (s.sock k).deletePending then s else s.sockUnregister k answer).sockRelease k force

/-- `sock_set_event`. -/
def sockSetEvent (s : Port) (k : Nat) (ev : BitVec 32) (data : Nat) : Port :=
  let s := s.setSock k ((s.sock k).setEvent ev data)
  if ¬ (s.sock k).Monitored then s.requestSocketUpdate k else s

/-- A new `sock_state_t`, after `port_register_socket`. -/
def register (s : Port) (socket : BitVec 64) (g : Nat) : Port :=
  { s with
    sockTree := s.next :: s.sockTree
    sock := Function.update s.sock s.next { SockState.zero with socket := socket, pollGroup := g }
    next := s.next + 1
    socks := s.next :: s.socks }

/-- `sock_new`, for a socket that has a base socket. -/
def sockNew (s : Port) (socket : BitVec 64) (canCreate canAlloc : Bool) : Port × Option Nat :=
  -- `poll_group__new` is given the handle of the completion port.
  let s := if s.pollGroups.lastWithRoom = none then s.checkIocp s.iocp else s
  match s.pollGroups.acquire canCreate with
  | none => (s, none)
  | some (g, groups) =>
      let s := { s with pollGroups := groups }
      if canAlloc then
        if (s.findSocket socket).isSome then
          ({ s with pollGroups := s.pollGroups.release g }, none)
        else (s.register socket g, some s.next)
      else ({ s with pollGroups := s.pollGroups.release g }, none)

/-- `sock_update`, and whether it succeeds. -/
def sockUpdate (s : Port) (k : Nat) (answer : AfdAnswer) : Port × Bool :=
  let s := { s with life := s.life.use k }.check (!(s.sock k).deletePending)
  match (s.sock k).pollStatus with
  | .pending =>
      if (s.sock k).Monitored then (s.cancelSocketUpdate k, true)
      else
        match s.sockCancelPoll k answer with
        | (s, false) => (s, false)
        | (s, true) => (s.cancelSocketUpdate k, true)
  | .cancelled => (s.cancelSocketUpdate k, true)
  | .idle =>
      let s := s.setSock k (s.sock k).pollInfo
      let s := s.afdPoll k answer.poll
      if answer.poll = none ∨ answer.poll = some errorIoPending then
        ((s.setSock k (s.sock k).submitted).cancelSocketUpdate k, true)
      else if answer.poll = some errorInvalidHandle then (s.sockDelete k false answer, true)
      else (s, false)

/-- The epoll events of a completed request, for a socket that stays; nothing where the
socket was closed. -/
def sockEvents (x : SockState) : Option (BitVec 32) :=
  if x.status = statusCancelled then some 0
  else if !ntSuccess x.status then some epollerr
  else if x.numberOfHandles < 1 then some 0
  else if Shares x.events afdPollLocalClose then none
  else some (sockAfdEventsToEpollEvents x.events)

/-- The beginning of `sock_feed_event`. -/
def feedStart (s : Port) (k : Nat) : Port :=
  { s with request := Function.update s.request k .none }.setSock k (s.sock k).completed

/-- The end of `sock_feed_event`, for a socket that stays. -/
def feedReport (s : Port) (k : Nat) (epollEvents : BitVec 32) : Port × List EpollEvent :=
  let s := s.requestSocketUpdate k
  let x := s.sock k
  let events := epollEvents &&& x.userEvents
  if events = 0 then (s, [])
  else
    (if Shares x.userEvents epolloneshot then s.setSock k x.disarm else s,
      [⟨events, x.userData, x.userEvents⟩])

/-- `sock_feed_event`. -/
def sockFeedEvent (s : Port) (k : Nat) : Port × List EpollEvent :=
  let s := s.feedStart k
  if (s.sock k).deletePending then (s.sockDelete k false ⟨none, none⟩, [])
  else
    match sockEvents (s.sock k) with
    | none => (s.sockDelete k false ⟨none, none⟩, [])
    | some epollEvents => s.feedReport k epollEvents

/-! ## The port -/

/-- The loop of `port__update_events`; every turn takes a socket out of the queue. -/
def updateLoop (answers : Nat → AfdAnswer) : Nat → Port → Port × Bool
  | 0, s => (s, true)
  | n + 1, s =>
      match s.sockUpdateQueue with
      | [] => (s, true)
      | k :: _ =>
          match s.sockUpdate k (answers k) with
          | (s, true) => updateLoop answers n s
          | (s, false) => (s, false)

/-- `port__update_events`. -/
def updateEvents (s : Port) (answers : Nat → AfdAnswer) : Port × Bool :=
  let (s, ok) := updateLoop answers s.sockUpdateQueue.length s
  ({ s with updated := ok }, ok)

/-- `port__update_events_if_polling`. -/
def updateEventsIfPolling (s : Port) (answers : Nat → AfdAnswer) : Port :=
  if s.activePollCount > 0 then (s.updateEvents answers).1 else s

/-- `port__feed_events`. -/
def feedEvents : List Nat → Port → Port × List EpollEvent
  | [], s => (s, [])
  | k :: ks, s =>
      let (s, ev) := s.sockFeedEvent k
      let (s, evs) := feedEvents ks s
      (s, ev ++ evs)

/-- The end of `port_wait`, after its loop. -/
def waitExit (s : Port) (t : Nat) (maxevents result : Int) (events : List EpollEvent)
    (answers : Nat → AfdAnswer) : Port :=
  let s := s.updateEventsIfPolling answers
  let result := if result ≥ 0 then result else if s.lastError = waitTimeout then 0 else -1
  { s with wait := Function.update s.wait t (.returned maxevents result events) }

/-- The first half of `port__poll`. -/
def pollEnter (s : Port) (t : Nat) (w : PortWait) (answers exitAnswers : Nat → AfdAnswer) : Port :=
  match s.updateEvents answers with
  | (s, false) => s.waitExit t w.maxevents (-1) [] exitAnswers
  | (s, true) =>
      { s with
        activePollCount := s.activePollCount + 1
        polling := t :: s.polling
        wait := Function.update s.wait t (.polling w) }

/-- `PORT__MAX_ON_STACK_COMPLETIONS`. -/
def portMaxOnStackCompletions : Nat := 256

/-- `port_wait`, up to the packets of the first `port__poll`. -/
def portWait (s : Port) (t : Nat) (maxevents timeout : Int) (canAlloc : Bool) (now : Nat)
    (answers exitAnswers : Nat → AfdAnswer) : Port :=
  if maxevents ≤ 0 then
    { s with wait := Function.update s.wait t (.returned maxevents (-1) []) }
  else
    let maxevents :=
      if maxevents.toNat ≤ portMaxOnStackCompletions ∨ canAlloc then maxevents.toNat
      else portMaxOnStackCompletions
    let due := if timeout > 0 then now + timeout.toNat else 0
    s.pollEnter t ⟨maxevents, timeout, due⟩ answers exitAnswers

/-- The second half of `port__poll`, up to the packets. -/
def pollReturned (s : Port) (t : Nat) : Port :=
  { s with
    activePollCount := s.activePollCount - 1
    polling := s.polling.erase t }

/-- The second half of `port__poll`, and what the loop of `port_wait` does with it. -/
def pollLeave (s : Port) (t : Nat) (w : PortWait) (r : Except Nat (List Nat)) (now : Nat)
    (answers exitAnswers : Nat → AfdAnswer) : Port :=
  match r with
  | .error e =>
      { s.pollReturned t with lastError := e }.waitExit t w.maxevents (-1) [] exitAnswers
  | .ok ks =>
      let (s, events) := feedEvents ks (s.pollReturned t)
      if events ≠ [] then s.waitExit t w.maxevents events.length events exitAnswers
      else if w.timeout < 0 then s.pollEnter t w answers exitAnswers
      else if now ≥ w.due then
        { s with lastError := waitTimeout }.waitExit t w.maxevents 0 [] exitAnswers
      else s.pollEnter t w answers exitAnswers

/-- `port__ctl_add`. -/
def ctlAdd (s : Port) (socket : BitVec 64) (ev : BitVec 32) (data : Nat)
    (hasBase canCreate canAlloc : Bool) (answers : Nat → AfdAnswer) : Port :=
  if socket = 0 ∨ socket = BitVec.allOnes 64 ∨ !hasBase then s
  else
    match s.sockNew socket canCreate canAlloc with
    | (s, none) => s
    | (s, some k) => (s.sockSetEvent k ev data).updateEventsIfPolling answers

/-- `port__ctl_mod`. -/
def ctlMod (s : Port) (socket : BitVec 64) (ev : BitVec 32) (data : Nat)
    (answers : Nat → AfdAnswer) : Port :=
  match s.findSocket socket with
  | none => s
  | some k => (s.sockSetEvent k ev data).updateEventsIfPolling answers

/-- `port__ctl_del`. -/
def ctlDel (s : Port) (socket : BitVec 64) (answer : AfdAnswer) : Port :=
  match s.findSocket socket with
  | none => s
  | some k => s.sockDelete k false answer

/-- `GetQueuedCompletionStatusEx` takes packets. -/
def dequeue (s : Port) (t : Nat) (w : PortWait) (n : Nat) : Port :=
  { s with
    packets := s.packets.drop n
    request := fun k => if k ∈ s.packets.take n then .taken t else s.request k
    wait := Function.update s.wait t (.polled w (.ok (s.packets.take n))) }

/-- The driver completes a request. -/
def complete (s : Port) (k : Nat) (status : BitVec 32) (numberOfHandles : Nat)
    (events : BitVec 32) : Port :=
  let s := s.setSock k { s.sock k with
    status := status, numberOfHandles := numberOfHandles, events := events }
  { s with
    request := Function.update s.request k .completed
    packets := s.packets ++ [k] }

end Port

/-! ## The machine -/

inductive PortAct where
  | ctlAdd (socket : BitVec 64) (ev : BitVec 32) (data : Nat)
      (hasBase canCreate canAlloc : Bool) (answers : Nat → AfdAnswer)
  | ctlMod (socket : BitVec 64) (ev : BitVec 32) (data : Nat) (answers : Nat → AfdAnswer)
  | ctlDel (socket : BitVec 64) (answer : AfdAnswer)
  | wait (t : Nat) (maxevents timeout : Int) (canAlloc : Bool) (now : Nat)
      (answers exitAnswers : Nat → AfdAnswer)
  /-- Packets are taken from the completion port. -/
  | dequeue (t n : Nat)
  /-- `GetQueuedCompletionStatusEx` fails. -/
  | timeOut (t e : Nat)
  | leave (t now : Nat) (answers exitAnswers : Nat → AfdAnswer)
  | complete (k : Nat) (status : BitVec 32) (numberOfHandles : Nat) (events : BitVec 32)
  | close
  /-- `port_delete` begins. -/
  | delete
  /-- A turn of its first loop. -/
  | deleteRoot (k : Nat) (answer : AfdAnswer)
  /-- A turn of its second loop. -/
  | deleteFirst
  /-- A turn of its third loop. -/
  | deleteGroup
  /-- The end of `port_delete`. -/
  | free

def portStep (s : Port) : PortAct → Option Port
  | .ctlAdd socket ev data hasBase canCreate canAlloc answers =>
      if s.deleting then none
      else some (s.ctlAdd socket ev data hasBase canCreate canAlloc answers)
  | .ctlMod socket ev data answers =>
      if s.deleting then none else some (s.ctlMod socket ev data answers)
  | .ctlDel socket answer => if s.deleting then none else some (s.ctlDel socket answer)
  | .wait t maxevents timeout canAlloc now answers exitAnswers =>
      if s.deleting then none
      else
        match s.wait t with
        | .idle | .returned _ _ _ =>
            some (s.portWait t maxevents timeout canAlloc now answers exitAnswers)
        | _ => none
  | .dequeue t n =>
      match s.wait t with
      | .polling w =>
          if 0 < n ∧ n ≤ w.maxevents ∧ n ≤ s.packets.length then some (s.dequeue t w n) else none
      | _ => none
  | .timeOut t e =>
      match s.wait t with
      | .polling w => some { s with wait := Function.update s.wait t (.polled w (.error e)) }
      | _ => none
  | .leave t now answers exitAnswers =>
      match s.wait t with
      | .polled w r => some (s.pollLeave t w r now answers exitAnswers)
      | _ => none
  | .complete k status numberOfHandles events =>
      match s.deleting, s.request k with
      | false, .driver _ => some (s.complete k status numberOfHandles events)
      | _, _ => none
  | .close => some { s with iocp := false }
  | .delete =>
      if s.deleting = false ∧ s.polling = [] then
        some ({ s with deleting := true }.checkIocp !s.iocp)
      else none
  | .deleteRoot k answer =>
      if s.deleting ∧ k ∈ s.sockTree then some (s.sockDelete k true answer) else none
  | .deleteFirst =>
      if s.deleting ∧ s.sockTree = [] then
        s.sockDeletedQueue.head?.map fun k => s.sockDelete k true ⟨none, none⟩
      else none
  | .deleteGroup =>
      if s.deleting ∧ s.sockTree = [] ∧ s.sockDeletedQueue = [] then
        s.pollGroups.queue.head?.map fun g => { s with pollGroups := s.pollGroups.delete g }
      else none
  | .free =>
      if s.deleting ∧ s.deleted = false ∧ s.sockTree = [] ∧ s.sockDeletedQueue = [] ∧
          s.pollGroups.queue = [] then
        some ({ s with deleted := true }.check (s.sockUpdateQueue = []))
      else none

/-- A port, the driver and the threads as a machine. -/
def portMachine : Machine Port PortAct := ⟨portStep⟩

/-- What the assertions about `iocp_handle` ask for: `epoll_close` closes the port before it
deletes it, and nobody adds a socket in between that would need a new poll group. -/
def PortUse (s : Port) : PortAct → Prop
  | .ctlAdd _ _ _ _ _ _ _ => s.pollGroups.lastWithRoom = none → s.iocp = true
  | .delete => s.iocp = false
  | _ => True

instance (s : Port) (a : PortAct) : Decidable (PortUse s a) :=
  match a with
  | .ctlAdd _ _ _ _ _ _ _ =>
      inferInstanceAs (Decidable (s.pollGroups.lastWithRoom = none → s.iocp = true))
  | .delete => inferInstanceAs (Decidable (s.iocp = false))
  | .ctlMod _ _ _ _ | .ctlDel _ _ | .wait _ _ _ _ _ _ _ | .dequeue _ _ | .timeOut _ _
  | .leave _ _ _ _ | .complete _ _ _ _ | .close | .deleteRoot _ _ | .deleteFirst | .deleteGroup
  | .free => isTrue trivial

end Ztk.Wepoll
