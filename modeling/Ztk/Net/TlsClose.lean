import Ztk.Net.TlsClient

/-!
# Closing the TLS client

`ztk_tls_client_close` returns at once when `closing` is set, and `tls_fire_error` is
what leaves it set.  So the question for a close is whether an error was fired
before.  `firesError` tells it for one step from the state before the step, and
`tlsTrans_closing` says that `closing` is set by such steps and never reset; over
runs this is `tlsMachine_closing`.
-/

namespace Ztk.Net

open Ztk.Lib

/-! ## The steps that fire an error -/

/-- TCP is not connected, and there is no open socket to check. -/
def TlsRun.socketLost (r : TlsRun) : Bool :=
  !r.c.tcpConnected &&
    match r.c.sock with
    | none => true
    | some s => s.fd < 0

/-- The event that is delivered to the socket is an error, or it is handled on a socket
that is lost. -/
def TlsRun.eventFails (r : TlsRun) (s : Sock) (fd : Int) (ev : PollEvents) : Bool :=
  decide (s.fd = fd) &&
    (ev.pollErr || ev.pollHup ||
      !(ev.pollOut && s.connectPending) && ((ev.pollOut || ev.pollIn) && r.socketLost))

/-- The platform's check of the connection fails in `sock_on_writable`. -/
def TlsRun.checkFails (r : TlsRun) (plat : Err) : Bool :=
  match r.c.sock with
  | none => true
  | some s => decide ((s.checkConnect plat).1 ≠ .ok ∧ (s.checkConnect plat).1 ≠ .again)

/-- The result of an SSL call is an error, for the frame that made the call. -/
def TlsFrame.sslFails (x : SslRet) : TlsFrame → Bool
  | .handshake => decide (x.ret ≠ 1 ∧ x.err = .other)
  | .read => decide (x.ret = 0 ∨ x.ret < 0 ∧ x.err = .other)
  | .flush _ => decide (x.ret ≤ 0 ∧ x.err = .other)
  | .send _ _ => decide (x.ret ≤ 0 ∧ x.err = .other)
  | _ => false

/-- The step fires an error, on a client that is not closing. -/
def firesError (r : TlsRun) : TlsLabel → Bool
  | .event fd ev =>
      match r.c.sock with
      | some s => r.eventFails s fd ev
      | none => false
  | .checkConnect plat =>
      match r.stack, r.c.sock with
      | .pollCheck _ :: _, some s => decide ((s.checkConnect plat).1 ≠ .ok)
      | .checkWritable :: _, _ => r.checkFails plat
      | _, _ => false
  | .sslNew new setFd => !new || !setFd
  | .ssl x =>
      match r.stack with
      | f :: _ => f.sslFails x
      | [] => false
  | .go =>
      match r.stack with
      | .pollIn _ :: _ => r.socketLost
      | _ => false
  | _ => false

/-! ## Where `closing` is set -/

@[simp] theorem tlsModPoll_closing (r : TlsRun) (want : Bool) :
    (tlsModPoll r want).c.closing = r.c.closing := rfl

@[simp] theorem tlsReset_closing (r : TlsRun) : (tlsReset r).c.closing = r.c.closing := rfl

@[simp] theorem tlsStartSsl_closing (r : TlsRun) : (tlsStartSsl r).c.closing = r.c.closing := rfl

@[simp] theorem tlsTcpConnected_closing (r : TlsRun) :
    (tlsTcpConnected r).c.closing = r.c.closing := rfl

@[simp] theorem tlsAttempt_closing (r : TlsRun) (sock : Option Sock) (host : List UInt8) :
    (tlsAttempt r sock host).c.closing = r.c.closing := rfl

@[simp] theorem tlsFireError_closing (r : TlsRun) : (tlsFireError r).c.closing = true := by
  simp only [tlsFireError]
  split
  · assumption
  · rfl

@[simp] theorem tlsSslError_closing (r : TlsRun) (err : SslErr) :
    (tlsSslError r err).2.c.closing = (r.c.closing || decide (err = .other)) := by
  cases err <;> simp [tlsSslError]

@[simp] theorem tlsDoHandshake_closing (r : TlsRun) :
    (tlsDoHandshake r).c.closing = r.c.closing := by
  simp only [tlsDoHandshake]
  split <;> rfl

@[simp] theorem tlsDrainPlain_closing (r : TlsRun) :
    (tlsDrainPlain r).c.closing = r.c.closing := by
  simp only [tlsDrainPlain]
  split <;> rfl

@[simp] theorem tlsFlushPending_closing (r : TlsRun) :
    (tlsFlushPending r).c.closing = r.c.closing := by
  simp only [tlsFlushPending]
  split <;> rfl

@[simp] theorem tlsReadable_closing (r : TlsRun) : (tlsReadable r).c.closing = r.c.closing := by
  simp only [tlsReadable]
  split
  · rfl
  · exact tlsDoHandshake_closing r
  · exact tlsDrainPlain_closing r

theorem tlsHandshakeDone_closing (r : TlsRun) (x : SslRet) :
    (tlsHandshakeDone r x).c.closing = (r.c.closing || TlsFrame.sslFails x .handshake) := by
  simp only [tlsHandshakeDone]
  split
  · next h => simp [TlsFrame.sslFails, h]
  · next h => simp [TlsFrame.sslFails, h]

theorem tlsDrainRead_closing (r : TlsRun) (x : SslRet) :
    (tlsDrainRead r x).c.closing = (r.c.closing || TlsFrame.sslFails x .read) := by
  simp only [tlsDrainRead]
  split
  · next h => simp [TlsFrame.sslFails, h.ne', not_lt.mpr h.le]
  split
  · next h => simp [TlsFrame.sslFails, h]
  · next h h0 =>
      have hneg : x.ret < 0 := by omega
      cases hx : x.err <;> simp [TlsFrame.sslFails, hx, h0, hneg]

theorem tlsFlushWrite_closing (r : TlsRun) (off : Nat) (x : SslRet) :
    (tlsFlushWrite r off x).c.closing = (r.c.closing || TlsFrame.sslFails x (.flush off)) := by
  rw [tlsFlushWrite]
  split
  · next h =>
      dsimp only
      split <;> simp [TlsFrame.sslFails, not_le.mpr h]
  · next h =>
      cases hx : x.err <;> simp [TlsFrame.sslFails, hx, not_lt.mp h, tlsSslError]

theorem tlsSendWrite_closing (r : TlsRun) (data : List UInt8) (off : Nat) (x : SslRet) :
    (tlsSendWrite r data off x).c.closing =
      (r.c.closing || TlsFrame.sslFails x (.send data off)) := by
  simp only [tlsSendWrite]
  split
  · next h => split <;> simp [TlsFrame.sslFails, not_le.mpr h, TlsRun.sent]
  · next h =>
      cases hx : x.err with
      | other => simp [TlsFrame.sslFails, hx, not_lt.mp h, tlsSslError]
      | _ => simp [TlsFrame.sslFails, hx, tlsSslError, TlsRun.sent, apply_ite]

theorem tlsSslStarted_closing (r : TlsRun) (new setFd : Bool) :
    (tlsSslStarted r new setFd).c.closing = (r.c.closing || (!new || !setFd)) := by
  simp only [tlsSslStarted]
  cases new <;> cases setFd <;> simp

theorem tlsSockOnWritable_closing (r : TlsRun) :
    (tlsSockOnWritable r).c.closing = (r.c.closing || r.socketLost) := by
  simp only [tlsSockOnWritable, TlsRun.socketLost]
  cases hc : r.c.closing with
  | true => simp [hc]
  | false =>
      cases ht : r.c.tcpConnected with
      | true =>
          simp only [Bool.false_eq_true, if_false, Bool.not_true, Bool.false_and, Bool.or_false]
          cases r.c.state <;> simp [hc]
      | false =>
          cases hs : r.c.sock with
          | none => simp
          | some s =>
              by_cases hfd : s.fd < 0
              · simp [hfd]
              · cases hp : s.connectPending <;> simp [hfd, hp, hc]

theorem tlsSockOnReadable_closing (r : TlsRun) :
    (tlsSockOnReadable r).c.closing = (r.c.closing || r.socketLost) := by
  simp only [tlsSockOnReadable]
  cases hc : r.c.closing with
  | true => simp [hc]
  | false =>
      cases ht : r.c.tcpConnected with
      | true => simp [hc, ht, TlsRun.socketLost]
      | false =>
          simp only [Bool.false_eq_true, if_false, Bool.not_false, if_true,
            tlsSockOnWritable_closing, hc]
          rfl

theorem tlsPollerRest_closing (r : TlsRun) (s : Sock) (ev : PollEvents) :
    (tlsPollerRest r s ev).c.closing =
      (r.c.closing || ((ev.pollOut || ev.pollIn) && r.socketLost)) := by
  simp only [tlsPollerRest]
  cases ev.pollOut with
  | true =>
      rw [if_pos rfl, tlsSockOnWritable_closing]
      simp [TlsRun.socketLost]
  | false =>
      cases ev.pollIn with
      | true => simp [tlsSockOnReadable_closing]
      | false => simp

theorem tlsPollerCb_closing (r : TlsRun) (s : Sock) (fd : Int) (ev : PollEvents) :
    (tlsPollerCb r s fd ev).c.closing = (r.c.closing || r.eventFails s fd ev) := by
  simp only [tlsPollerCb, TlsRun.eventFails]
  by_cases hfd : s.fd = fd
  · cases ev.pollErr || ev.pollHup with
    | true => simp [hfd]
    | false =>
        cases ev.pollOut && s.connectPending with
        | true => simp [hfd]
        | false => simp [hfd, tlsPollerRest_closing]
  · simp [hfd]

/-- A check that succeeds leaves the socket open. -/
theorem checkConnect_open {s : Sock} {plat : Err} (h : (s.checkConnect plat).1 = .ok) :
    0 ≤ (s.checkConnect plat).2.fd := by
  simp only [Sock.checkConnect] at h ⊢
  split at h
  · cases h
  · next hfd =>
      rw [if_neg hfd]
      split
      · exact Int.not_lt.mp hfd
      · split <;> exact Int.not_lt.mp hfd

theorem tlsPollerChecked_closing (r : TlsRun) (s : Sock) (ev : PollEvents) (plat : Err) :
    (tlsPollerChecked r s ev plat).c.closing =
      (r.c.closing || decide ((s.checkConnect plat).1 ≠ .ok)) := by
  simp only [tlsPollerChecked]
  by_cases h : (s.checkConnect plat).1 = .ok
  · have hopen := Int.not_lt.mpr (checkConnect_open h)
    simp only [h, if_true, tlsPollerRest_closing, TlsRun.socketLost]
    split <;> simp [hopen]
  · simp [h]

theorem tlsWritableChecked_closing (r : TlsRun) (plat : Err) :
    (tlsWritableChecked r plat).c.closing = (r.c.closing || r.checkFails plat) := by
  simp only [tlsWritableChecked, TlsRun.checkFails]
  cases r.c.sock with
  | none => simp
  | some s =>
      by_cases h : (s.checkConnect plat).1 = .ok
      · simp [h]
      · by_cases ha : (s.checkConnect plat).1 = .again
        · simp [ha]
        · simp [h, ha]

theorem tlsClientSend_closing (r : TlsRun) (data : Option (List UInt8)) :
    (tlsClientSend r data).c.closing = r.c.closing := by
  simp only [tlsClientSend]
  split
  · rfl
  split
  · rfl
  split
  · split <;> rfl
  · rfl

theorem tlsClientConnect_closing (r : TlsRun) (host : Option (List UInt8)) (plat : PlatConnect)
    (add : Err) : (tlsClientConnect r host plat add).c.closing = r.c.closing := by
  rcases tlsClientConnect_cases r host plat add with h | ⟨sock, start, name, -, -, h⟩
  · rw [h]
  · rw [h]
    cases start <;> rfl

theorem tlsClientClose_closing (r : TlsRun) (alloc : Bool) :
    (tlsClientClose r alloc).c.closing = r.c.closing := by
  simp only [tlsClientClose]
  split <;> rfl

/-- A step sets `closing` exactly if it fires an error, and no step resets it. -/
theorem tlsTrans_closing {r t : TlsRun} {a : TlsLabel} (h : TlsTrans r a t) :
    t.c.closing = (r.c.closing || firesError r a) := by
  cases h with
  | connect host plat add _ => simp [tlsClientConnect_closing, firesError]
  | send data _ => simp [tlsClientSend_closing, firesError]
  | close alloc _ => simp [tlsClientClose_closing, firesError]
  | event fd ev _ hs _ => simp [tlsPollerCb_closing, firesError, hs]
  | pollChecked ev k plat hk hs => simp [tlsPollerChecked_closing, firesError, hk, hs]
  | writableChecked k plat hk =>
      simp [tlsWritableChecked_closing, firesError, hk, TlsRun.checkFails]
  | sslStarted k new setFd hk => simp [tlsSslStarted_closing, firesError]
  | handshakeDone k hk _ _ => simp [tlsHandshakeDone_closing, firesError, hk]
  | drainRead k hk _ => simp [tlsDrainRead_closing, firesError, hk]
  | flushWrite off k hk _ _ => simp [tlsFlushWrite_closing, firesError, hk]
  | sendWrite data off k hk _ _ => simp [tlsSendWrite_closing, firesError, hk]
  | pollIn serial k hk _ =>
      simp [tlsSockOnReadable_closing, firesError, hk, TlsRun.socketLost]
  | readableReturn k hk => simp [firesError, hk]
  | readableRest k hk => simp [firesError, hk]
  | flushPending k hk => simp [firesError, hk]
  | drainPlain k hk => simp [firesError, hk]
  | sendIo data k hk => simp [firesError, hk, TlsRun.sent]
  | callback k hk => simp [firesError, hk]

/-! ## Runs -/

/-- The step fires no error. -/
def Unfailing (r : TlsRun) (a : TlsLabel) : Prop := firesError r a = false

instance (r : TlsRun) (a : TlsLabel) : Decidable (Unfailing r a) :=
  inferInstanceAs (Decidable (_ = _))

/-- A client is closing exactly if an error was fired, however often it was closed. -/
theorem tlsMachine_closing {ops : TlsOps} {sniHost : Option (List UInt8)} {as : List TlsLabel}
    {r : TlsRun} (h : tlsMachine.run (tlsClientCreate ops sniHost) as = some r) :
    r.c.closing = false ↔ tlsMachine.RunMeets Unfailing (tlsClientCreate ops sniHost) as := by
  have hstep : ∀ s a t, tlsMachine.step s a = some t →
      t.c.closing = (s.c.closing || firesError s a) :=
    fun _ _ _ hs => tlsTrans_closing (tlsStep_trans hs)
  rw [← Bool.not_eq_true]
  refine Machine.run_faultless_iff (F := fun r => r.c.closing = true) ?_ ?_ as _ r Bool.false_ne_true h
  · intro s a t hs hst
    rw [hstep s a t hst, hs, Bool.true_or]
  · intro s a t hs hst
    rw [hstep s a t hst, Bool.eq_false_of_not_eq_true hs, Bool.false_or, Bool.not_eq_true]
    rfl

/-! ## Reuse -/

/-- What `ztk_tls_client_connect` returns. -/
def tlsClientConnectErr (c : TlsClient) (host : Option (List UInt8)) (plat : PlatConnect)
    (add : Err) : Err :=
  match host with
  | none => .invalid
  | some _ =>
      if c.closing then .invalid
      else
        match c.sock.map Sock.detachPoller with
        | none => .invalid
        | some s =>
            match s.connect plat with
            | (.ok, s) => (s.attachPoller add).1
            | (err, _) => err

/-- The client as `ztk_tls_client_create` leaves it with this socket, apart from the
host names. -/
def TlsClient.Created (c : TlsClient) (serial : Nat) : Prop :=
  c = { (tlsClientCreate c.ops none).c with
    sock := some (.create serial), hostForConnect := c.hostForConnect, sniName := c.sniName }

/-- A close leaves the client as it was created, with a new socket, and the next connect
goes to the platform and the poller, whose result it returns. -/
structure TlsRun.Reopens (r : TlsRun) (alloc : Bool) : Prop where
  created : (tlsClientClose r alloc).c.Created r.socks
  connects : ∀ host plat add,
    tlsClientConnectErr (tlsClientClose r alloc).c (some host) plat add =
      if plat.err = .ok then add else plat.err

/-- A client that was just created is connected as the platform and the poller say. -/
theorem TlsClient.Created.connects {c : TlsClient} {serial : Nat} (h : c.Created serial)
    (host : List UInt8) (plat : PlatConnect) (add : Err) :
    tlsClientConnectErr c (some host) plat add = if plat.err = .ok then add else plat.err := by
  have hc : c.closing = false := by rw [h]; rfl
  have hs : c.sock = some (.create serial) := by rw [h]
  simp only [tlsClientConnectErr, hc, hs, Bool.false_eq_true, if_false, Option.map_some]
  split_ifs with hp
  · obtain ⟨t, ht, hfd, -⟩ := (Sock.create serial).detachPoller.connect_ok hp
    have hopen : 0 ≤ t.fd := hfd ▸ Int.natCast_nonneg plat.fd
    simp only [ht]
    by_cases ha : add = .ok
    · obtain ⟨u, hu, -⟩ := Sock.attachPoller_ok hopen
      rw [ha, hu]
    · obtain ⟨u, hu, -⟩ := Sock.attachPoller_err hopen ha
      rw [hu]
  · obtain ⟨t, ht, -⟩ := (Sock.create serial).detachPoller.connect_err hp
    simp only [ht]

/-- On a client that is closing a close does nothing, and a connect is rejected. -/
theorem tlsClientClose_of_closing {r : TlsRun} (hc : r.c.closing = true) (alloc : Bool) :
    tlsClientClose r alloc = r ∧
      ∀ host plat add, tlsClientConnectErr (tlsClientClose r alloc).c host plat add = .invalid := by
  have hr : tlsClientClose r alloc = r := by rw [tlsClientClose, if_pos hc]
  refine ⟨hr, fun host plat add => ?_⟩
  rw [hr]
  cases host with
  | none => rfl
  | some host => simp only [tlsClientConnectErr, hc, if_true]

theorem reopens_iff (r : TlsRun) (alloc : Bool) :
    r.Reopens alloc ↔ r.c.closing = false ∧ alloc = true := by
  constructor
  · intro h
    have hclosing : (tlsClientClose r alloc).c.closing = false := by
      rw [h.created]
      rfl
    have hsock : (tlsClientClose r alloc).c.sock = some (.create r.socks) := by
      rw [h.created]
    rw [tlsClientClose_closing] at hclosing
    refine ⟨hclosing, ?_⟩
    rw [tlsClientClose, if_neg (by rw [hclosing]; decide)] at hsock
    cases alloc with
    | true => rfl
    | false => cases hsock
  · rintro ⟨hc, rfl⟩
    have hcreated : (tlsClientClose r true).c.Created r.socks := by
      rw [tlsClientClose, if_neg (by rw [hc]; decide)]
      simp only [TlsClient.Created, tlsReset, tlsClientCreate]
      simp [hc]
    exact ⟨hcreated, hcreated.connects⟩

/-- In every run a close makes the client reusable exactly if no error was fired before,
and there is memory for the new socket. -/
theorem tls_close_reopens_iff {ops : TlsOps} {sniHost : Option (List UInt8)}
    {as : List TlsLabel} {r : TlsRun}
    (h : tlsMachine.run (tlsClientCreate ops sniHost) as = some r) (alloc : Bool) :
    r.Reopens alloc ↔
      tlsMachine.RunMeets Unfailing (tlsClientCreate ops sniHost) as ∧ alloc = true := by
  rw [reopens_iff, tlsMachine_closing h]

/-- The TLS connection is there, and the application has control in `on_connect`. -/
def tlsReadyRun : List TlsLabel :=
  [.connect (some [104]) ⟨.ok, 5, true⟩ .ok, .event 5 ⟨false, true, false, false⟩,
    .checkConnect .ok, .sslNew true true, .ssl ⟨-1, .wantRead⟩, .event 5 ⟨true, false, false, false⟩,
    .ssl ⟨1, .other⟩]

theorem tls_close_reopens_ready :
    ∃ r, tlsMachine.run (tlsClientCreate ⟨true, true, true⟩ none) tlsReadyRun = some r ∧
      r.idle ∧ r.c.state = .ready ∧ r.Reopens true := by
  have hrun : ∃ r, tlsMachine.run (tlsClientCreate ⟨true, true, true⟩ none) tlsReadyRun = some r ∧
      r.idle ∧ r.c.state = .ready :=
    ⟨_, rfl, by decide, rfl⟩
  obtain ⟨r, hr, hidle, hready⟩ := hrun
  exact ⟨r, hr, hidle, hready, (tls_close_reopens_iff hr true).mpr ⟨by decide, rfl⟩⟩

/-- The peer refuses the connection. -/
def tlsRefusedRun : List TlsLabel :=
  [.connect (some [104]) ⟨.ok, 5, true⟩ .ok, .event 5 ⟨false, false, true, false⟩]

theorem tls_close_stays_closing :
    ∃ r, tlsMachine.run (tlsClientCreate ⟨false, false, false⟩ none) tlsRefusedRun = some r ∧
      r.stack = [] ∧ tlsClientClose r true = r ∧ r.c.closing = true ∧ ¬ r.Reopens true ∧
      tlsClientConnectErr (tlsClientClose r true).c (some [104]) ⟨.ok, 6, false⟩ .ok = .invalid := by
  have hrun : ∃ r,
      tlsMachine.run (tlsClientCreate ⟨false, false, false⟩ none) tlsRefusedRun = some r ∧
      r.stack = [] ∧ r.c.closing = true :=
    ⟨_, rfl, rfl, rfl⟩
  obtain ⟨r, hr, hstack, hc⟩ := hrun
  obtain ⟨hsame, hrejected⟩ := tlsClientClose_of_closing hc true
  have hnot : ¬ r.Reopens true := by
    rw [reopens_iff, hc]
    decide
  exact ⟨r, hr, hstack, hsame, hc, hnot, hrejected _ _ _⟩

end Ztk.Net
