import Ztk.Net.SessionWorld
import Ztk.Net.Socket

/-!
# The TCP server and its manager timers

`ztk_tcp_server_create`, `ztk_tcp_server_start`, `ztk_tcp_server_stop`,
`listen_attach_manager`, `manager_timer_cb`, `run_manager_on_poller`,
`choose_poller`, `session_create` and `session_attach` of `tcp_server.c`, over
any number of sessions (`World`).  A poller is named by its place in the pool; a
name that is no place is a poller of somebody else, which `pick_poller` may
return.

The pollers are modelled as far as the server uses them: which of them have the
listening socket, and the manager timers with their state.  A timer that
`ztk_poller_do_delay` returns is in the heap, on its way there as a task, or in
neither when the array could not grow.  After its callback a timer goes back
into the heap when the callback returned a delay: the array has room for a timer
that was just taken out of it.

The option `manager_interval_sec` is a float.  The code compares it with 0 and
converts it to milliseconds, and nothing else is kept of it.

A round of the manager is a step for each session that it flushes, so calls of
the application come between them.  `ztk_tcp_server_start`,
`ztk_tcp_server_stop` and the acceptance of one connection are one step each.
-/

namespace Ztk.Net

open Ztk.Lib Ztk.Util

/-! ## State -/

/-- A value of `manager_interval_sec`: its sign and, where it is positive,
`(uint64_t)(manager_interval_sec * ZTK_MS_PER_SEC)`. -/
inductive IntervalSec where
  | neg
  | zero
  | pos (ms : Nat)
deriving DecidableEq

/-- `ztk_tcp_server_opts_t`, with `session_ops->on_manager`. -/
structure TcpServerOpts where
  pollerCount : Nat
  onManager : Bool
  pickPoller : Bool
  managerIntervalSec : IntervalSec
  outHighwaterBytes : Nat

/-- Where a timer is. -/
inductive TimerPhase where
  /-- In a task that will insert it. -/
  | posted
  /-- In the heap. -/
  | armed
  /-- Its callback runs. -/
  | firing
  /-- Not in the heap. -/
  | lost
deriving DecidableEq

/-- A timer of `listen_attach_manager`. -/
structure ManagerTimer where
  poller : Nat
  phase : TimerPhase
  cancelled : Bool

/-- The functions that sessions install on their sockets. -/
inductive SessionHandler where
  | sessionOnReadable
  | sessionOnError
deriving DecidableEq

/-- The handler calls `session_out_flush`. -/
def SessionHandler.flushes : SessionHandler → Bool
  | .sessionOnReadable => false
  | .sessionOnError => false

/-- `ztk_socket_callbacks_t`. -/
structure SocketCallbacks where
  onReadable : Option SessionHandler
  onWritable : Option SessionHandler
  onError : Option SessionHandler

/-- The poller of a session, and its socket with the callbacks. -/
structure Conn where
  poller : Nat
  sock : Sock
  cb : SocketCallbacks

/-- `ztk_tcp_server`. -/
structure TcpServer where
  pollerCount : Nat
  onManager : Bool
  pickPoller : Bool
  managerIntervalSec : IntervalSec
  outHighwaterBytes : Nat
  started : Bool
  /-- The pollers that have the listening socket. -/
  listening : Nat → Bool
  /-- `listen_bindings[i].manager_timer`. -/
  bindings : Nat → Option Nat
  timers : Nat → Option ManagerTimer
  nextTimer : Nat
  world : World
  conns : Nat → Conn

/-- What `ztk_poller_do_delay` does. -/
inductive DoDelay where
  | null
  /-- From another thread. -/
  | posted
  /-- From the thread of the poller, where the array can grow or not. -/
  | inserted (realloc : Bool)

/-! ## The functions of the source -/

/-- `ztk_tcp_server_create`. -/
def tcpServerCreate (opts : TcpServerOpts) : Option TcpServer :=
  if opts.pollerCount = 0 then none
  else
    some
      { pollerCount := opts.pollerCount
        onManager := opts.onManager
        pickPoller := opts.pickPoller
        managerIntervalSec :=
          match opts.managerIntervalSec with
          | .neg => .neg
          | .pos ms => .pos ms
          | .zero => if opts.onManager then .pos 2000 else .neg
        outHighwaterBytes := opts.outHighwaterBytes
        started := false
        listening := fun _ => false
        bindings := fun _ => none
        timers := fun _ => none
        nextTimer := 0
        world := .start
        conns := fun _ => ⟨0, .create 0, ⟨none, none, none⟩⟩ }

namespace TcpServer

/-- The phase of a timer that `ztk_poller_do_delay` returns. -/
def delayPhase : DoDelay → Option TimerPhase
  | .null => none
  | .posted => some .posted
  | .inserted true => some .armed
  | .inserted false => some .lost

/-- `listen_attach_manager`. -/
def listenAttachManager (srv : TcpServer) (i : Nat) (delay : DoDelay) : Err × TcpServer :=
  match srv.managerIntervalSec with
  | .neg | .zero => (.ok, srv)
  | .pos _ =>
      if !srv.onManager then (.ok, srv)
      else
        match delayPhase delay with
        | none => (.nomem, { srv with bindings := Function.update srv.bindings i none })
        | some phase =>
            (.ok, { srv with
              bindings := Function.update srv.bindings i (some srv.nextTimer)
              timers := Function.update srv.timers srv.nextTimer (some ⟨i, phase, false⟩)
              nextTimer := srv.nextTimer + 1 })

/-- `ztk_poller_timer_cancel`.  A timer that has ended is freed, and the source would use it
here; this use is left out, and nothing changes. -/
def timerCancel (srv : TcpServer) (t : Nat) : TcpServer :=
  { srv with
    timers := Function.update srv.timers t
      ((srv.timers t).map fun m => { m with cancelled := true }) }

/-- The iteration of `ztk_tcp_server_stop` for a poller. -/
def stopPoller (srv : TcpServer) (i : Nat) : TcpServer :=
  let srv := match srv.bindings i with
    | none => srv
    | some t =>
        { srv.timerCancel t with bindings := Function.update srv.bindings i none }
  { srv with listening := Function.update srv.listening i false }

/-- `ztk_tcp_server_stop`. -/
def stop (srv : TcpServer) : TcpServer :=
  if !srv.started then srv
  else { (List.range srv.pollerCount).foldl stopPoller srv with started := false }

/-- The loop of `ztk_tcp_server_start`. -/
def startPollers (add : Nat → Err) (delay : Nat → DoDelay) (srv : TcpServer) :
    List Nat → Err × TcpServer
  | [] => (.ok, { srv with started := true })
  | i :: is =>
      if add i = .ok then
        match { srv with
          listening := Function.update srv.listening i true }.listenAttachManager i (delay i) with
        | (.ok, srv) => startPollers add delay srv is
        | (err, srv) => (err, srv.stop)
      else (add i, srv.stop)

/-- `ztk_tcp_server_start`, where `ztk_socket_listen` returns `listen` and
`ztk_poller_add` returns `add`. -/
def start (srv : TcpServer) (listen : Err) (add : Nat → Err) (delay : Nat → DoDelay) :
    Err × TcpServer :=
  if srv.started then (.state, srv)
  else if listen = .ok then startPollers add delay srv (List.range srv.pollerCount)
  else (listen, srv)

/-- `choose_poller`, where `pick_poller` returns `pick` and
`ztk_tcp_pick_poller_from_pool` returns `pool`. -/
def choosePoller (srv : TcpServer) (acceptPoller : Nat) (pick pool : Option Nat) : Nat :=
  if srv.pickPoller then pick.getD acceptPoller else pool.getD acceptPoller

/-- `session_attach`, for a socket that `ztk_socket_accept` has made. -/
def sessionAttach (fd : Nat) (poller : Nat) (add : Err) : Err × Conn :=
  let (err, sock) := Sock.attachPoller { Sock.create fd with fd := fd } add
  (err, ⟨poller, sock, ⟨some .sessionOnReadable, none, some .sessionOnError⟩⟩)

/-- The body of the loop of `listen_on_readable`, after `ztk_socket_accept`.  The
flags say whether `session_create` and `session_list_add` get their memory. -/
def acceptClient (srv : TcpServer) (fd poller : Nat) (memory listed : Bool) (add : Err) : TcpServer :=
  if !memory then srv
  else
    match sessionAttach fd poller add with
    | (.ok, conn) =>
        if !listed then srv
        else
          { srv with
            world :=
              { srv.world with
                ses := Function.update srv.world.ses srv.world.count
                  (some (newSession (some fd) srv.outHighwaterBytes))
                count := srv.world.count + 1 }
            conns := Function.update srv.conns srv.world.count conn }
    | (_, _) => srv

/-- `ztk_socket_mod_events` on the socket of a session. -/
def modEvents (srv : TcpServer) (i : Nat) (ev : PollEvents) : TcpServer :=
  { srv with
    conns := Function.update srv.conns i
      { srv.conns i with sock := (srv.conns i).sock.modEvents ev } }

/-- A timer moves to another phase. -/
def setPhase (srv : TcpServer) (t : Nat) (m : ManagerTimer) (phase : TimerPhase) : TcpServer :=
  { srv with timers := Function.update srv.timers t (some { m with phase := phase }) }

/-- The result of `manager_timer_cb`. -/
def managerTimerCb (srv : TcpServer) : Nat :=
  match srv.managerIntervalSec with
  | .neg | .zero => 0
  | .pos ms => ms

/-- `flush_expired_timers` after the callback: the timer is armed again or freed. -/
def managerDone (srv : TcpServer) (t : Nat) (m : ManagerTimer) : TcpServer :=
  if 0 < srv.managerTimerCb ∧ !m.cancelled then srv.setPhase t m .armed
  else { srv with timers := Function.update srv.timers t none }

end TcpServer

/-! ## The machine -/

inductive ServerLabel where
  | start (listen : Err) (add : Nat → Err) (delay : Nat → DoDelay)
  | stop
  /-- A connection arrives on a poller. -/
  | accept (on fd : Nat) (pick pool : Option Nat) (memory listed : Bool) (add : Err)
  /-- A call on a session, or an operation on buffers. -/
  | call (a : WorldLabel)
  | modEvents (i : Nat) (ev : PollEvents)
  /-- `delay_insert_async`. -/
  | insert (t : Nat) (realloc : Bool)
  /-- A timer is due, and its callback starts. -/
  | fire (t : Nat)
  /-- The callback flushes a session. -/
  | managerFlush (t i : Nat)
  | managerDone (t : Nat)
  /-- A cancelled timer is unlinked. -/
  | unlink (t : Nat)

variable (env : Nat → NetEnv)

def serverStep (srv : TcpServer) : ServerLabel → Option TcpServer
  | .start listen add delay => some (srv.start listen add delay).2
  | .stop => some srv.stop
  | .accept on fd pick pool memory listed add =>
      if on < srv.pollerCount ∧ srv.listening on ∧ ∀ p, pool = some p → p < srv.pollerCount then
        some (srv.acceptClient fd (srv.choosePoller on pick pool) memory listed add)
      else none
  | .call (.accept _ _) => none
  | .call a => (worldStep env srv.world a).map fun w => { srv with world := w }
  | .modEvents i ev => some (srv.modEvents i ev)
  | .insert t realloc =>
      (srv.timers t).bind fun m =>
        if m.phase = .posted then some (srv.setPhase t m (if realloc then .armed else .lost))
        else none
  | .fire t =>
      (srv.timers t).bind fun m =>
        if m.phase = .armed ∧ m.cancelled = false then some (srv.setPhase t m .firing) else none
  | .managerFlush t i =>
      (srv.timers t).bind fun m =>
        if m.phase = .firing ∧ m.poller = (srv.conns i).poller ∧
            (srv.world.session i).map Session.closing = some false then
          (worldStep env srv.world (.flush i)).map fun w => { srv with world := w }
        else none
  | .managerDone t =>
      (srv.timers t).bind fun m =>
        if m.phase = .firing then some (srv.managerDone t m) else none
  | .unlink t =>
      (srv.timers t).bind fun m =>
        if m.cancelled = true ∧ m.phase ≠ .firing then
          some { srv with timers := Function.update srv.timers t none }
        else none

def serverMachine : Machine TcpServer ServerLabel := ⟨serverStep env⟩

end Ztk.Net
