import Ztk.Lib.Machine
import Ztk.Net.Socket

/-!
# The TLS client

`tls_client.c` with the dispatch of `socket_poller_cb` above it, as a machine with
a stack.  The stack holds what is still to be done: the SSL or platform call that
is due, the functions that run after it, the callback of the application that has
not returned.  A label carries the answer to the call on top of the stack, or a
call of the application, which may come between events and from inside a callback.
So a run covers every result of SSL, every nesting of calls and callbacks, and
every order of events.

OpenSSL is a parameter: `SslRet` is what `SSL_connect`, `SSL_read` and `SSL_write`
return and what `SSL_get_error` says about it.  Only two things are assumed:
`SSL_write` takes no more than it is offered, and `SSL_connect` returns at most 1.
A call on a handle that is null has no successor.

Recorded for the statements, and read by no function: the plaintext accepted by
`SSL_write`, the result of every send, and the error of the last `SSL_write` on
bytes that are pending.
-/

namespace Ztk.Net

open Ztk.Lib

/-! ## State -/

/-- `tls_state_t`. -/
inductive TlsState where
  | tcp
  | handshake
  | ready
deriving DecidableEq

/-- What `SSL_get_error` tells. -/
inductive SslErr where
  | wantRead
  | wantWrite
  | other
deriving DecidableEq

/-- The result of an SSL call. -/
structure SslRet where
  ret : Int
  err : SslErr
deriving DecidableEq

/-- `SSL`, with the server name that was set on it. -/
structure SslHandle where
  sni : Option (List UInt8)
deriving DecidableEq

/-- Which callbacks are set in `opts.ops`. -/
structure TlsOps where
  onConnect : Bool
  onRecv : Bool
  onError : Bool
deriving DecidableEq

/-- `TLS_SEND_BUF`. -/
def tlsSendBuf : Nat := 65536

/-- `ztk_tls_client`.  `pending` is `pending[0..pending_len)`. -/
structure TlsClient where
  ops : TlsOps
  sock : Option Sock
  sslHandle : Option SslHandle
  state : TlsState
  tcpConnected : Bool
  closing : Bool
  readySent : Bool
  hostForConnect : List UInt8
  sniName : List UInt8
  pending : List UInt8
deriving DecidableEq

/-- What is still to be done. -/
inductive TlsFrame where
  /-- The platform's check of the connection in `socket_poller_cb`. -/
  | pollCheck (ev : PollEvents)
  /-- `on_readable` in `socket_poller_cb`, on the socket with this serial. -/
  | pollIn (serial : Nat)
  /-- The platform's check of the connection in `sock_on_writable`. -/
  | checkWritable
  /-- The rest of `sock_on_readable` after `sock_on_writable`. -/
  | readableRest
  /-- `SSL_new` and `SSL_set_fd` in `tls_start_ssl`. -/
  | startSsl
  /-- `SSL_connect` in `tls_do_handshake`. -/
  | handshake
  /-- The call of `tls_flush_pending`. -/
  | flushPending
  /-- `SSL_write` at `off` in `tls_flush_pending`. -/
  | flush (off : Nat)
  /-- The call of `tls_drain_plain`. -/
  | drainPlain
  /-- `SSL_read` in `tls_drain_plain`. -/
  | read
  /-- `SSL_write` at `off` in `ztk_tls_client_send`. -/
  | send (data : List UInt8) (off : Nat)
  /-- The return of a failed `ztk_tls_client_send`. -/
  | sendIo (data : List UInt8)
  /-- Code of the application. -/
  | callback
deriving DecidableEq

structure TlsRun where
  c : TlsClient
  stack : List TlsFrame
  /-- The number of sockets created so far. -/
  socks : Nat
  /-- The plaintext accepted by `SSL_write`. -/
  written : List UInt8
  /-- The result and the payload of every send. -/
  sends : List (Err × List UInt8)
  /-- The error of the last `SSL_write` on pending bytes. -/
  lastWrite : Option SslErr
deriving DecidableEq

inductive TlsLabel where
  | connect (host : Option (List UInt8)) (plat : PlatConnect) (add : Err)
  | send (data : Option (List UInt8))
  | close (alloc : Bool)
  | event (fd : Int) (ev : PollEvents)
  | checkConnect (plat : Err)
  | sslNew (new setFd : Bool)
  | ssl (x : SslRet)
  | go

/-- `ztk_tls_client_create`, with a poller, callbacks and a context. -/
def tlsClientCreate (ops : TlsOps) (sniHost : Option (List UInt8)) : TlsRun where
  c :=
    { ops := ops, sock := some (.create 0), sslHandle := none, state := .tcp
      tcpConnected := false, closing := false, readySent := false, hostForConnect := []
      sniName := (sniHost.getD []).take 255, pending := [] }
  stack := []
  socks := 1
  written := []
  sends := []
  lastWrite := none

/-! ## Parts of the source -/

/-- The conversion `(int)n` of a `size_t`. -/
def toInt32 (n : Nat) : Int := (BitVec.ofNat 32 n).toInt

/-- The frame of a callback, if it is set. -/
def callback (set : Bool) : List TlsFrame := if set then [.callback] else []

/-- `tls_mod_poll`. -/
def tlsModPoll (r : TlsRun) (wantWrite : Bool) : TlsRun :=
  { r with
    c := { r.c with
      sock := r.c.sock.map fun s =>
        s.modEvents ⟨true, wantWrite || !r.c.tcpConnected, true, true⟩ } }

/-- The assignments that `tls_fire_error`, `ztk_tls_client_connect` and
`ztk_tls_client_close` share. -/
def tlsReset (r : TlsRun) : TlsRun :=
  { r with
    c := { r.c with
      sslHandle := none, state := .tcp, tcpConnected := false, readySent := false, pending := [] }
    lastWrite := none }

/-- The client's socket leaves the poller. -/
def tlsDetach (r : TlsRun) : TlsRun :=
  { r with c := { r.c with sock := r.c.sock.map Sock.detachPoller } }

/-- `tls_fire_error`. -/
def tlsFireError (r : TlsRun) : TlsRun :=
  if r.c.closing then r
  else
    let r := tlsReset (tlsDetach { r with c := { r.c with closing := true } })
    { r with stack := callback r.c.ops.onError ++ r.stack }

/-- `tls_ssl_error`. -/
def tlsSslError (r : TlsRun) (err : SslErr) : Err × TlsRun :=
  match err with
  | .wantRead => (.again, tlsModPoll r false)
  | .wantWrite => (.again, tlsModPoll r true)
  | .other => (.io, tlsFireError r)

/-- `tls_do_handshake` up to `SSL_connect`. -/
def tlsDoHandshake (r : TlsRun) : TlsRun :=
  if r.c.sslHandle = none then r else { r with stack := .handshake :: r.stack }

/-- `tls_do_handshake` from `SSL_connect`. -/
def tlsHandshakeDone (r : TlsRun) (x : SslRet) : TlsRun :=
  if x.ret = 1 then
    let r := tlsModPoll { r with c := { r.c with state := .ready } } false
    let cb := callback (!r.c.readySent && r.c.ops.onConnect)
    { r with
      c := { r.c with readySent := true }
      stack := cb ++ .flushPending :: .drainPlain :: r.stack }
  else (tlsSslError r x.err).2

/-- `tls_drain_plain` up to the loop. -/
def tlsDrainPlain (r : TlsRun) : TlsRun :=
  if r.c.state ≠ .ready ∨ r.c.sslHandle = none ∨ r.c.closing then r
  else { r with stack := .read :: r.stack }

/-- An iteration of `tls_drain_plain` from `SSL_read`. -/
def tlsDrainRead (r : TlsRun) (x : SslRet) : TlsRun :=
  if 0 < x.ret then { r with stack := callback r.c.ops.onRecv ++ .read :: r.stack }
  else if x.ret = 0 then tlsFireError r
  else
    match x.err with
    | .wantRead => tlsModPoll r false
    | .wantWrite => tlsModPoll r true
    | .other => (tlsSslError r .other).2

/-- `tls_flush_pending` up to the loop. -/
def tlsFlushPending (r : TlsRun) : TlsRun :=
  if r.c.pending = [] ∨ r.c.state ≠ .ready ∨ r.c.sslHandle = none then r
  else { r with stack := .flush 0 :: r.stack }

/-- An iteration of `tls_flush_pending` from `SSL_write`. -/
def tlsFlushWrite (r : TlsRun) (off : Nat) (x : SslRet) : TlsRun :=
  if 0 < x.ret then
    let r := { r with written := r.written ++ (r.c.pending.drop off).take x.ret.toNat }
    if off + x.ret.toNat < r.c.pending.length then
      { r with stack := .flush (off + x.ret.toNat) :: r.stack }
    else { r with c := { r.c with pending := [] } }
  else
    match tlsSslError r x.err with
    | (.again, r) =>
        { r with c := { r.c with pending := r.c.pending.drop off }, lastWrite := some x.err }
    | (_, r) => r

/-- `tls_start_ssl` up to `SSL_new`. -/
def tlsStartSsl (r : TlsRun) : TlsRun := { r with stack := .startSsl :: r.stack }

/-- `tls_start_ssl` from `SSL_new`. -/
def tlsSslStarted (r : TlsRun) (new setFd : Bool) : TlsRun :=
  if !new then tlsFireError { r with c := { r.c with sslHandle := none } }
  else if !setFd then tlsFireError { r with c := { r.c with sslHandle := some ⟨none⟩ } }
  else
    let sni := if r.c.sniName ≠ [] then r.c.sniName else r.c.hostForConnect
    let handle : SslHandle := ⟨if sni ≠ [] then some sni else none⟩
    let c := { r.c with sslHandle := some handle, state := .handshake, readySent := false }
    tlsDoHandshake (tlsModPoll { r with c := c } true)

/-- The branch of `sock_on_writable` where the TCP connection is there. -/
def tlsTcpConnected (r : TlsRun) : TlsRun :=
  tlsStartSsl { r with c := { r.c with tcpConnected := true } }

/-- `sock_on_writable`, up to the platform's check of the connection. -/
def tlsSockOnWritable (r : TlsRun) : TlsRun :=
  if r.c.closing then r
  else if !r.c.tcpConnected then
    match r.c.sock with
    | none => tlsFireError r
    | some s =>
        if s.fd < 0 then tlsFireError r
        else if !s.connectPending then tlsTcpConnected r
        else { r with stack := .checkWritable :: r.stack }
  else
    match r.c.state with
    | .tcp => r
    | .handshake => tlsDoHandshake r
    | .ready => { r with stack := .flushPending :: .drainPlain :: r.stack }

/-- `sock_on_writable` from the platform's check. -/
def tlsWritableChecked (r : TlsRun) (plat : Err) : TlsRun :=
  match r.c.sock with
  | none => tlsFireError r
  | some s =>
      let (err, s) := s.checkConnect plat
      let r := { r with c := { r.c with sock := some s } }
      if err = .ok then tlsTcpConnected r
      else if err ≠ .again then tlsFireError r
      else r

/-- The end of `sock_on_readable`. -/
def tlsReadable (r : TlsRun) : TlsRun :=
  match r.c.state with
  | .tcp => r
  | .handshake => tlsDoHandshake r
  | .ready => tlsDrainPlain r

/-- `sock_on_readable`, up to `sock_on_writable`. -/
def tlsSockOnReadable (r : TlsRun) : TlsRun :=
  if r.c.closing then r
  else if !r.c.tcpConnected then tlsSockOnWritable { r with stack := .readableRest :: r.stack }
  else tlsReadable r

/-- The end of `socket_poller_cb`: `on_writable`, then `on_readable`. -/
def tlsPollerRest (r : TlsRun) (s : Sock) (ev : PollEvents) : TlsRun :=
  if ev.pollOut then
    tlsSockOnWritable
      { r with stack := if ev.pollIn then .pollIn s.serial :: r.stack else r.stack }
  else if ev.pollIn then tlsSockOnReadable r
  else r

/-- `socket_poller_cb`, up to the platform's check of the connection. -/
def tlsPollerCb (r : TlsRun) (s : Sock) (fd : Int) (ev : PollEvents) : TlsRun :=
  if s.fd ≠ fd then r
  else if ev.pollErr || ev.pollHup then tlsFireError r
  else if ev.pollOut && s.connectPending then { r with stack := .pollCheck ev :: r.stack }
  else tlsPollerRest r s ev

/-- `socket_poller_cb` from the platform's check. -/
def tlsPollerChecked (r : TlsRun) (s : Sock) (ev : PollEvents) (plat : Err) : TlsRun :=
  let (err, s) := s.checkConnect plat
  if err = .ok then
    let s := { s with connectPending := false }
    let s := if s.attached then s.modEvents s.defaultPollEvents else s
    tlsPollerRest { r with c := { r.c with sock := some s } } s ev
  else tlsFireError { r with c := { r.c with sock := some s } }

/-! ## The interface -/

/-- A send returns. -/
def TlsRun.sent (r : TlsRun) (err : Err) (data : List UInt8) : TlsRun :=
  { r with sends := r.sends ++ [(err, data)] }

/-- The bytes do not fit behind the pending ones, in the arithmetic of `size_t`. -/
def TlsClient.overflows (c : TlsClient) (n : Nat) : Prop :=
  tlsSendBuf < (c.pending.length + n) % 2 ^ 64

instance (c : TlsClient) (n : Nat) : Decidable (c.overflows n) :=
  inferInstanceAs (Decidable (_ < _))

/-- `ztk_tls_client_send` up to `SSL_write`. -/
def tlsClientSend (r : TlsRun) (data : Option (List UInt8)) : TlsRun :=
  match data with
  | none => r.sent .invalid []
  | some data =>
      if r.c.closing ∨ data = [] then r.sent .invalid data
      else if r.c.state ≠ .ready ∨ r.c.sslHandle = none then
        if r.c.overflows data.length then r.sent .bufferTooSmall data
        else
          { r with c := { r.c with pending := r.c.pending ++ data } }.sent .again data
      else { r with stack := .send data 0 :: r.stack }

/-- An iteration of `ztk_tls_client_send` from `SSL_write`. -/
def tlsSendWrite (r : TlsRun) (data : List UInt8) (off : Nat) (x : SslRet) : TlsRun :=
  if 0 < x.ret then
    let r := { r with written := r.written ++ (data.drop off).take x.ret.toNat }
    if off + x.ret.toNat < data.length then
      { r with stack := .send data (off + x.ret.toNat) :: r.stack }
    else r.sent .ok data
  else
    -- `sendIo` is under the callback that `tls_fire_error` may push
    match tlsSslError { r with stack := .sendIo data :: r.stack } x.err with
    | (.again, t) =>
        let t := { t with stack := r.stack }
        if t.c.overflows (data.length - off) then t.sent .bufferTooSmall data
        else
          { t with
            c := { t.c with pending := t.c.pending ++ data.drop off }
            lastWrite := some x.err }.sent .again data
    | (_, t) => t

/-- The assignments of `ztk_tls_client_connect`, with the socket it leaves. -/
def tlsAttempt (r : TlsRun) (sock : Option Sock) (host : List UInt8) : TlsRun :=
  let r := tlsReset r
  { r with
    c := { r.c with
      sock := sock
      hostForConnect := host.take 255
      sniName := if r.c.sniName = [] then host.take 255 else r.c.sniName } }

/-- `ztk_tls_client_connect` up to `SSL_new`. -/
def tlsClientConnect (r : TlsRun) (host : Option (List UInt8)) (plat : PlatConnect) (add : Err) :
    TlsRun :=
  match host with
  | none => r
  | some host =>
      if r.c.closing then r
      else
        match r.c.sock.map Sock.detachPoller with
        | none => tlsAttempt r none host
        | some s =>
            match s.connect plat with
            | (.ok, s) =>
                match s.attachPoller add with
                | (.ok, s) =>
                    let r := tlsAttempt r (some s) host
                    if plat.pending then r else tlsTcpConnected r
                | (_, s) => tlsAttempt r (some s) host
            | (_, s) => tlsAttempt r (some s) host

/-- `ztk_tls_client_close`.  The old socket is destroyed, and `alloc` says whether
there is memory for a new one. -/
def tlsClientClose (r : TlsRun) (alloc : Bool) : TlsRun :=
  if r.c.closing then r
  else
    let r := tlsReset r
    { r with
      c := { r.c with sock := if alloc then some (.create r.socks) else none }
      socks := r.socks + 1 }

/-! ## The machine -/

/-- The application has control: between events, or in a callback. -/
def TlsRun.idle (r : TlsRun) : Prop := r.stack = [] ∨ r.stack.head? = some .callback

instance (r : TlsRun) : Decidable r.idle := inferInstanceAs (Decidable (_ ∨ _))

/-- The answer to the call that is due, with the stack below it. -/
def tlsAnswer (r : TlsRun) (x : SslRet) : TlsFrame → Option TlsRun
  | .handshake => if x.ret ≤ 1 then some (tlsHandshakeDone r x) else none
  | .read => some (tlsDrainRead r x)
  | .flush off =>
      if x.ret ≤ toInt32 (r.c.pending.length - off) then some (tlsFlushWrite r off x) else none
  | .send data off =>
      if x.ret ≤ toInt32 (data.length - off) then some (tlsSendWrite r data off x) else none
  | _ => none

/-- The code goes on, with the stack below the frame.  Where a callback has destroyed the
socket of the dispatch, the source would go on with freed memory, and the run ends. -/
def tlsGo (r : TlsRun) : TlsFrame → Option TlsRun
  | .pollIn serial =>
      if r.c.sock.map Sock.serial = some serial then some (tlsSockOnReadable r) else none
  | .readableRest => some (if !r.c.tcpConnected || r.c.closing then r else tlsReadable r)
  | .flushPending => some (tlsFlushPending r)
  | .drainPlain => some (tlsDrainPlain r)
  | .sendIo data => some (r.sent .io data)
  | .callback => some r
  | _ => none

def tlsStep (r : TlsRun) : TlsLabel → Option TlsRun
  | .connect host plat add => if r.idle then some (tlsClientConnect r host plat add) else none
  | .send data =>
      if r.idle ∧ (data.getD []).length < 2 ^ 64 then some (tlsClientSend r data) else none
  | .close alloc => if r.idle then some (tlsClientClose r alloc) else none
  | .event fd ev =>
      match r.stack, r.c.sock with
      | [], some s => if s.attached then some (tlsPollerCb r s fd ev) else none
      | _, _ => none
  | .checkConnect plat =>
      match r.stack, r.c.sock with
      | .pollCheck ev :: k, some s => some (tlsPollerChecked { r with stack := k } s ev plat)
      | .checkWritable :: k, _ => some (tlsWritableChecked { r with stack := k } plat)
      | _, _ => none
  | .sslNew new setFd =>
      match r.stack with
      | .startSsl :: k => some (tlsSslStarted { r with stack := k } new setFd)
      | _ => none
  | .ssl x =>
      match r.stack with
      | f :: k => if r.c.sslHandle = none then none else tlsAnswer { r with stack := k } x f
      | [] => none
  | .go =>
      match r.stack with
      | f :: k => tlsGo { r with stack := k } f
      | [] => none

def tlsMachine : Machine TlsRun TlsLabel := ⟨tlsStep⟩

/-! ## What a step does -/

/-- The steps, one rule for each function that a label reaches. -/
inductive TlsTrans (r : TlsRun) : TlsLabel → TlsRun → Prop where
  | connect (host plat add) : r.idle →
      TlsTrans r (.connect host plat add) (tlsClientConnect r host plat add)
  | send (data) : r.idle → TlsTrans r (.send data) (tlsClientSend r data)
  | close (alloc) : r.idle → TlsTrans r (.close alloc) (tlsClientClose r alloc)
  | event (fd ev) {s : Sock} : r.stack = [] → r.c.sock = some s → s.attached = true →
      TlsTrans r (.event fd ev) (tlsPollerCb r s fd ev)
  | pollChecked (ev k plat) {s : Sock} : r.stack = .pollCheck ev :: k → r.c.sock = some s →
      TlsTrans r (.checkConnect plat) (tlsPollerChecked { r with stack := k } s ev plat)
  | writableChecked (k plat) : r.stack = .checkWritable :: k →
      TlsTrans r (.checkConnect plat) (tlsWritableChecked { r with stack := k } plat)
  | sslStarted (k new setFd) : r.stack = .startSsl :: k →
      TlsTrans r (.sslNew new setFd) (tlsSslStarted { r with stack := k } new setFd)
  | handshakeDone (k) {x : SslRet} : r.stack = .handshake :: k → r.c.sslHandle ≠ none →
      x.ret ≤ 1 → TlsTrans r (.ssl x) (tlsHandshakeDone { r with stack := k } x)
  | drainRead (k) {x : SslRet} : r.stack = .read :: k → r.c.sslHandle ≠ none →
      TlsTrans r (.ssl x) (tlsDrainRead { r with stack := k } x)
  | flushWrite (off k) {x : SslRet} : r.stack = .flush off :: k → r.c.sslHandle ≠ none →
      x.ret ≤ toInt32 (r.c.pending.length - off) →
      TlsTrans r (.ssl x) (tlsFlushWrite { r with stack := k } off x)
  | sendWrite (data off k) {x : SslRet} : r.stack = .send data off :: k →
      r.c.sslHandle ≠ none → x.ret ≤ toInt32 (data.length - off) →
      TlsTrans r (.ssl x) (tlsSendWrite { r with stack := k } data off x)
  | pollIn (serial k) : r.stack = .pollIn serial :: k → r.c.sock.map Sock.serial = some serial →
      TlsTrans r .go (tlsSockOnReadable { r with stack := k })
  | readableReturn (k) : r.stack = .readableRest :: k → TlsTrans r .go { r with stack := k }
  | readableRest (k) : r.stack = .readableRest :: k →
      TlsTrans r .go (tlsReadable { r with stack := k })
  | flushPending (k) : r.stack = .flushPending :: k →
      TlsTrans r .go (tlsFlushPending { r with stack := k })
  | drainPlain (k) : r.stack = .drainPlain :: k →
      TlsTrans r .go (tlsDrainPlain { r with stack := k })
  | sendIo (data k) : r.stack = .sendIo data :: k →
      TlsTrans r .go (TlsRun.sent { r with stack := k } .io data)
  | callback (k) : r.stack = .callback :: k → TlsTrans r .go { r with stack := k }

theorem tlsAnswer_trans {r t : TlsRun} {x : SslRet} {f : TlsFrame} {k : List TlsFrame}
    (hs : r.stack = f :: k) (hssl : r.c.sslHandle ≠ none)
    (h : tlsAnswer { r with stack := k } x f = some t) : TlsTrans r (.ssl x) t := by
  cases f with
  | handshake =>
      obtain ⟨hle, h⟩ := Option.ite_none_right_eq_some.mp h
      cases h
      exact .handshakeDone k hs hssl hle
  | read =>
      cases h
      exact .drainRead k hs hssl
  | flush off =>
      obtain ⟨hle, h⟩ := Option.ite_none_right_eq_some.mp h
      cases h
      exact .flushWrite off k hs hssl hle
  | send data off =>
      obtain ⟨hle, h⟩ := Option.ite_none_right_eq_some.mp h
      cases h
      exact .sendWrite data off k hs hssl hle
  | _ => cases h

theorem tlsGo_trans {r t : TlsRun} {f : TlsFrame} {k : List TlsFrame} (hs : r.stack = f :: k)
    (h : tlsGo { r with stack := k } f = some t) : TlsTrans r .go t := by
  cases f with
  | pollIn serial =>
      obtain ⟨hserial, h⟩ := Option.ite_none_right_eq_some.mp h
      cases h
      exact .pollIn serial k hs hserial
  | readableRest =>
      cases h
      split
      · exact .readableReturn k hs
      · exact .readableRest k hs
  | flushPending =>
      cases h
      exact .flushPending k hs
  | drainPlain =>
      cases h
      exact .drainPlain k hs
  | sendIo data =>
      cases h
      exact .sendIo data k hs
  | callback =>
      cases h
      exact .callback k hs
  | _ => cases h

theorem tlsStep_trans {r t : TlsRun} {a : TlsLabel} (h : tlsStep r a = some t) :
    TlsTrans r a t := by
  cases a with
  | connect host plat add =>
      obtain ⟨hi, h⟩ := Option.ite_none_right_eq_some.mp h
      cases h
      exact .connect host plat add hi
  | send data =>
      obtain ⟨⟨hi, -⟩, h⟩ := Option.ite_none_right_eq_some.mp h
      cases h
      exact .send data hi
  | close alloc =>
      obtain ⟨hi, h⟩ := Option.ite_none_right_eq_some.mp h
      cases h
      exact .close alloc hi
  | event fd ev =>
      simp only [tlsStep] at h
      split at h
      · next s hstack hsock =>
          obtain ⟨hatt, h⟩ := Option.ite_none_right_eq_some.mp h
          cases h
          exact .event fd ev hstack hsock hatt
      · cases h
  | checkConnect plat =>
      simp only [tlsStep] at h
      split at h
      · next ev k s hstack hsock =>
          cases h
          exact .pollChecked ev k plat hstack hsock
      · next k hstack =>
          cases h
          exact .writableChecked k plat hstack
      · cases h
  | sslNew new setFd =>
      simp only [tlsStep] at h
      split at h
      · next k hstack =>
          cases h
          exact .sslStarted k new setFd hstack
      · cases h
  | ssl x =>
      simp only [tlsStep] at h
      split at h
      · next f k hstack =>
          obtain ⟨hssl, h⟩ := Option.ite_none_left_eq_some.mp h
          exact tlsAnswer_trans hstack hssl h
      · cases h
  | go =>
      simp only [tlsStep] at h
      split at h
      · next f k hstack => exact tlsGo_trans hstack h
      · cases h

/-- The frame is a call of SSL. -/
def TlsFrame.calls : TlsFrame → Bool
  | .handshake | .read | .flush _ | .send _ _ => true
  | _ => false

/-- Where the application has control, a callback of it is on top. -/
theorem TlsRun.idle_head {r : TlsRun} (h : r.idle) : ∀ f ∈ r.stack.head?, f = .callback := by
  intro f hf
  rcases h with h | h
  · rw [h] at hf
    cases hf
  · rw [h] at hf
    cases hf
    rfl

/-- SSL answers only what it was asked. -/
theorem tlsStep_ssl {r t : TlsRun} {x : SslRet} (h : tlsStep r (.ssl x) = some t) :
    ∃ f k, r.stack = f :: k ∧ f.calls = true ∧ r.c.sslHandle ≠ none := by
  cases tlsStep_trans h with
  | handshakeDone k hs hssl => exact ⟨_, k, hs, rfl, hssl⟩
  | drainRead k hs hssl => exact ⟨_, k, hs, rfl, hssl⟩
  | flushWrite off k hs hssl => exact ⟨_, k, hs, rfl, hssl⟩
  | sendWrite data off k hs hssl => exact ⟨_, k, hs, rfl, hssl⟩

/-! ## What a send does with the rest -/

/-- `SSL_write` waits: the rest of the payload is refused or pending. -/
theorem tlsSendWrite_wait (r : TlsRun) (data : List UInt8) (off : Nat) {x : SslRet}
    (hx : x.ret ≤ 0) (he : x.err ≠ .other) :
    tlsSendWrite r data off x =
      let t := tlsModPoll r (decide (x.err = .wantWrite))
      if r.c.overflows (data.length - off) then t.sent .bufferTooSmall data
      else
        { t with
          c := { t.c with pending := r.c.pending ++ data.drop off }
          lastWrite := some x.err }.sent .again data := by
  obtain ⟨ret, err⟩ := x
  rw [tlsSendWrite, if_neg (Int.not_lt.mpr hx)]
  cases err with
  | wantRead => rfl
  | wantWrite => rfl
  | other => exact absurd rfl he

/-- `SSL_write` fails: the error is fired, and the send returns after its callback. -/
theorem tlsSendWrite_fail (r : TlsRun) (data : List UInt8) (off : Nat) {x : SslRet}
    (hx : x.ret ≤ 0) (he : x.err = .other) :
    tlsSendWrite r data off x = tlsFireError { r with stack := .sendIo data :: r.stack } := by
  obtain ⟨ret, err⟩ := x
  cases he
  rw [tlsSendWrite, if_neg (Int.not_lt.mpr hx)]
  rfl

/-! ## What connecting does -/

/-- The socket after `ztk_tls_client_connect`, and whether TLS starts at once. -/
inductive ConnectEnds (plat : PlatConnect) (add : Err) : Option Sock → Bool → Prop where
  | none : ConnectEnds plat add none false
  | refused {s : Sock} : plat.err ≠ .ok → s.fd < 0 → ConnectEnds plat add (some s) false
  | unregistered {s : Sock} : add ≠ .ok → s.attached = false → ConnectEnds plat add (some s) false
  | pending {s : Sock} : s.attached = true → 0 ≤ s.fd → ConnectEnds plat add (some s) false
  | done {s : Sock} : s.attached = true → 0 ≤ s.fd → s.connectPending = false →
      ConnectEnds plat add (some s) true

theorem tlsClientConnect_cases (r : TlsRun) (host : Option (List UInt8)) (plat : PlatConnect)
    (add : Err) :
    tlsClientConnect r host plat add = r ∨
      ∃ sock start name, ConnectEnds plat add sock start ∧ r.c.closing = false ∧
        tlsClientConnect r host plat add =
          if start then tlsTcpConnected (tlsAttempt r sock name) else tlsAttempt r sock name := by
  cases host with
  | none => exact Or.inl rfl
  | some host =>
      cases hc : r.c.closing with
      | true =>
          left
          simp only [tlsClientConnect, hc, if_true]
      | false =>
          right
          simp only [tlsClientConnect, hc, Bool.false_eq_true, if_false]
          cases r.c.sock with
          | none => exact ⟨none, false, host, .none, trivial, rfl⟩
          | some s =>
              simp only [Option.map_some]
              by_cases hp : plat.err = .ok
              · obtain ⟨t, ht, hfd, hpend⟩ := s.detachPoller.connect_ok hp
                have hopen : 0 ≤ t.fd := by
                  rw [hfd]
                  exact Int.natCast_nonneg _
                simp only [ht]
                by_cases ha : add = .ok
                · subst ha
                  obtain ⟨u, hu, hatt, hufd, hupend⟩ := Sock.attachPoller_ok hopen
                  simp only [hu]
                  cases hpp : plat.pending with
                  | true =>
                      exact ⟨some u, false, host, .pending hatt (by rw [hufd]; exact hopen), trivial,
                        by simp⟩
                  | false =>
                      exact ⟨some u, true, host,
                        .done hatt (by rw [hufd]; exact hopen) (by rw [hupend, hpend, hpp]), trivial,
                        by simp⟩
                · obtain ⟨u, hu, hatt⟩ := Sock.attachPoller_err hopen ha
                  refine ⟨some u, false, host, .unregistered ha hatt, trivial, ?_⟩
                  rw [hu]
                  cases add <;> first | rfl | exact absurd rfl ha
              · obtain ⟨t, ht, hfd⟩ := s.detachPoller.connect_err hp
                refine ⟨some t, false, host, .refused hp hfd, trivial, ?_⟩
                rw [ht]
                cases he : plat.err <;> first | rfl | exact absurd he hp

end Ztk.Net
