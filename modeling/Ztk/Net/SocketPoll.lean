import Ztk.Lib.Trace
import Ztk.Net.TcpClient
import Ztk.Net.TlsClient

/-!
# The dispatch of poll events

`socket_poller_cb` above callbacks that do what they like: a callback changes the state of
its owner and the socket, and may destroy the socket.  The trace has what the dispatch does
with the socket, so the dispatch is safe when nothing follows the event that destroys it.
A socket that is gone is still read and called; what the callback does then is not known,
and not followed.

The check of a pending connection is recorded with its result, and whether `on_error` is
called for it.  `on_writable` of both clients takes `ZTK_ERR_AGAIN` for no error, and the
dispatch above them does not.
-/

namespace Ztk.Net

open Ztk.Lib

namespace SocketPoll

/-! ## The dispatch -/

/-- A callback of `ztk_socket_callbacks_t`. -/
inductive SockCallback where
  | onReadable
  | onWritable
  | onError
deriving DecidableEq

/-- A socket, and which of its callbacks are set. -/
structure Watched where
  sock : Sock
  cb : SockCallback → Bool

/-- What happens to the socket in the dispatch. -/
inductive SockEvent where
  /-- A field of the socket is read or written. -/
  | access
  | call (cb : SockCallback)
  /-- A callback destroyed the socket. -/
  | destroyed
deriving DecidableEq

/-- What the callbacks do: the state they leave, and the socket, unless it is destroyed. -/
abbrev SockUser (σ : Type) := SockCallback → σ → Watched → σ × Option Watched

/-- The state around a dispatch. -/
structure Dispatch (σ : Type) where
  app : σ
  obj : Option Watched
  trace : List SockEvent
  /-- The results of the connection checks, and whether `on_error` was called for them. -/
  checks : List (Err × Bool)

variable {σ : Type} (user : SockUser σ)

/-- A callback is called, if it is set. -/
def Dispatch.invoke (d : Dispatch σ) (cb : SockCallback) : Dispatch σ :=
  match d.obj with
  | none => { d with trace := d.trace ++ [.access] }
  | some w =>
      if w.cb cb then
        let (app, obj) := user cb d.app w
        { d with
          app := app, obj := obj
          trace := d.trace ++ [.access, .call cb] ++ if obj.isNone then [.destroyed] else [] }
      else { d with trace := d.trace ++ [.access] }

/-- `ztk_socket_check_connect` as `socket_poller_cb` calls it, with the assignments after a
connection that is there. -/
def Watched.checked (w : Watched) (plat : Err) : Err × Watched :=
  let (err, s) := w.sock.checkConnect plat
  if err = .ok then
    let s := { s with connectPending := false }
    (err, { w with sock := if s.attached then s.modEvents s.defaultPollEvents else s })
  else (err, { w with sock := s })

/-- The end of `socket_poller_cb`: `on_writable`, then `on_readable`. -/
def Dispatch.rest (d : Dispatch σ) (ev : PollEvents) : Dispatch σ :=
  let d := if ev.pollOut then d.invoke user .onWritable else d
  if ev.pollIn then d.invoke user .onReadable else d

/-- `socket_poller_cb` on the socket `w`. -/
def socketPollerCb (d : Dispatch σ) (w : Watched) (fd : Int) (ev : PollEvents) (plat : Err) :
    Dispatch σ :=
  let d := { d with trace := d.trace ++ [SockEvent.access] }
  if w.sock.fd ≠ fd then d
  else if ev.pollErr || ev.pollHup then d.invoke user .onError
  else if ev.pollOut && w.sock.connectPending then
    let (err, w) := w.checked plat
    let d := { d with obj := some w, trace := d.trace ++ [SockEvent.access] }
    if err = .ok then { d with checks := d.checks ++ [(err, false)] }.rest user ev
    else if w.cb .onError then
      { d with checks := d.checks ++ [(err, true)] }.invoke user .onError
    else { d with checks := d.checks ++ [(err, false)] }.rest user ev
  else d.rest user ev

/-! ## A destroyed socket -/

/-- Nothing happens to the socket after it is destroyed. -/
def Dispatch.Safe (d : Dispatch σ) : Prop :=
  Trace.Closed (fun _ : Unit => SockEvent.destroyed) (fun _ e => e ≠ .destroyed) d.trace

/-- The socket `w` is there. -/
structure Dispatch.Live (d : Dispatch σ) (w : Watched) : Prop where
  obj : d.obj = some w
  undestroyed : .destroyed ∉ d.trace

variable {user} {d : Dispatch σ} {w : Watched}

namespace Dispatch

theorem Live.safe (h : d.Live w) : d.Safe := Trace.closed_of_not_mem fun _ => h.undestroyed

theorem invoke_unset (ho : d.obj = some w) {cb : SockCallback} (hset : w.cb cb = false) :
    d.invoke user cb = { d with trace := d.trace ++ [.access] } := by
  rw [Dispatch.invoke, ho]
  simp only [hset, Bool.false_eq_true, if_false]

theorem invoke_set (ho : d.obj = some w) {cb : SockCallback} (hset : w.cb cb = true) :
    d.invoke user cb =
      { d with
        app := (user cb d.app w).1, obj := (user cb d.app w).2
        trace := d.trace ++ [.access, .call cb] ++
          if (user cb d.app w).2.isNone then [.destroyed] else [] } := by
  rw [Dispatch.invoke, ho]
  simp only [hset, if_true]

variable (user) in
/-- A callback leaves the socket, or destroys it and nothing follows. -/
theorem Live.invoke (h : d.Live w) (cb : SockCallback) :
    (∃ v, (d.invoke user cb).Live v) ∧
        ¬ (w.cb cb = true ∧ (user cb d.app w).2 = none) ∨
      ((d.invoke user cb).obj = none ∧ (d.invoke user cb).Safe ∧
          .destroyed ∈ (d.invoke user cb).trace) ∧
        w.cb cb = true ∧ (user cb d.app w).2 = none := by
  have hu := h.undestroyed
  cases hset : w.cb cb with
  | false =>
      left
      rw [invoke_unset h.obj hset]
      exact ⟨⟨w, h.obj, by simpa using hu⟩, fun hn => absurd hn.1 Bool.false_ne_true⟩
  | true =>
      rw [invoke_set h.obj hset]
      cases hobj : (user cb d.app w).2 with
      | some v =>
          left
          exact ⟨⟨v, rfl, by simpa using hu⟩, by simp⟩
      | none =>
          right
          refine ⟨⟨rfl, Trace.closed_concat.mpr ⟨?_, fun _ _ hne => hne rfl⟩, by simp⟩, rfl, rfl⟩
          exact Trace.closed_of_not_mem fun _ => by simpa using hu

/-- To call on a socket that is gone is to touch it. -/
theorem not_safe_invoke (ho : d.obj = none) (hd : .destroyed ∈ d.trace) (cb : SockCallback) :
    ¬ (d.invoke user cb).Safe := by
  rw [Dispatch.invoke, ho]
  intro hs
  exact (Trace.closed_concat.mp hs).2 () hd SockEvent.noConfusion

theorem Live.safe_invoke (h : d.Live w) (cb : SockCallback) : (d.invoke user cb).Safe := by
  rcases h.invoke user cb with ⟨⟨_, hl⟩, -⟩ | ⟨⟨-, hs, -⟩, -⟩
  · exact hl.safe
  · exact hs

/-- `on_writable` destroys the socket, and `on_readable` is next. -/
def Ruins (user : SockUser σ) (app : σ) (w : Watched) (ev : PollEvents) : Prop :=
  ev.pollOut = true ∧ ev.pollIn = true ∧ w.cb .onWritable = true ∧
    (user .onWritable app w).2 = none

theorem Live.safe_rest_iff (h : d.Live w) (ev : PollEvents) :
    (d.rest user ev).Safe ↔ ¬ Ruins user d.app w ev := by
  simp only [Dispatch.rest, Ruins]
  cases hin : ev.pollIn with
  | false =>
      simp only [Bool.false_eq_true, if_false, false_and, and_false, not_false_iff, iff_true]
      split
      · exact h.safe_invoke .onWritable
      · exact h.safe
  | true =>
      cases hout : ev.pollOut with
      | false => simpa using h.safe_invoke .onReadable
      | true =>
          simp only [if_true, true_and]
          rcases h.invoke user .onWritable with ⟨⟨v, hl⟩, hn⟩ | ⟨⟨ho, -, hd⟩, hy⟩
          · exact iff_of_true (hl.safe_invoke .onReadable) hn
          · exact iff_of_false (not_safe_invoke ho hd .onReadable) fun hn => hn hy

theorem Live.access (h : d.Live w) (v : Watched) (checks : List (Err × Bool)) :
    Live { d with obj := some v, trace := d.trace ++ [.access], checks := checks } v :=
  ⟨rfl, by simpa using h.undestroyed⟩

end Dispatch

/-- The socket as `on_writable` finds it, unless `on_error` is called for the check. -/
def Watched.writable (w : Watched) (plat : Err) : Option Watched :=
  if w.sock.connectPending then
    let (err, v) := w.checked plat
    if err ≠ .ok ∧ v.cb .onError then none else some v
  else some w

/-- The event gets to `on_writable`, which destroys the socket, and asks for `on_readable`. -/
def DestroyedEarly (user : SockUser σ) (app : σ) (w : Watched) (fd : Int) (ev : PollEvents)
    (plat : Err) : Prop :=
  w.sock.fd = fd ∧ ev.pollErr = false ∧ ev.pollHup = false ∧
    ∃ v ∈ w.writable plat, Dispatch.Ruins user app v ev

theorem socketPollerCb_safe_iff (h : d.Live w) (fd : Int) (ev : PollEvents) (plat : Err) :
    (socketPollerCb user d w fd ev plat).Safe ↔ ¬ DestroyedEarly user d.app w fd ev plat := by
  have hw : Dispatch.Live { d with trace := d.trace ++ [SockEvent.access] } w :=
    h.obj ▸ h.access w d.checks
  simp only [socketPollerCb, DestroyedEarly]
  by_cases hfd : w.sock.fd = fd
  case neg => exact iff_of_true (by rw [if_pos hfd]; exact hw.safe) fun hn => hfd hn.1
  rw [if_neg (not_not_intro hfd)]
  by_cases herr : (ev.pollErr || ev.pollHup) = true
  case pos =>
    refine iff_of_true (by rw [if_pos herr]; exact hw.safe_invoke .onError) fun hn => ?_
    rw [hn.2.1, hn.2.2.1] at herr
    exact Bool.false_ne_true herr
  rw [if_neg herr]
  simp only [Bool.or_eq_true, not_or, Bool.not_eq_true] at herr
  simp only [hfd, herr, true_and]
  by_cases hp : (ev.pollOut && w.sock.connectPending) = true
  case neg =>
    rw [if_neg hp, hw.safe_rest_iff]
    refine not_congr ⟨fun hr => ⟨w, ?_, hr⟩, ?_⟩
    · simp only [hr.1, Bool.true_and] at hp
      rw [Watched.writable, if_neg hp]
      rfl
    · rintro ⟨v, hv, hr⟩
      simp only [hr.1, Bool.true_and] at hp
      rw [Watched.writable, if_neg hp] at hv
      cases hv
      exact hr
  rw [if_pos hp]
  simp only [Bool.and_eq_true] at hp
  simp only [Watched.writable, hp.2, if_true]
  obtain ⟨err, v⟩ := w.checked plat
  by_cases hok : err = .ok
  · simp only [hok, if_true, ne_eq, not_true_eq_false, false_and, if_false, Option.mem_some_iff,
      exists_eq_left']
    exact (hw.access v _).safe_rest_iff ev
  cases v.cb .onError with
  | true =>
      simp only [hok, if_true, if_false, ne_eq, not_false_eq_true, and_self, Option.mem_def,
        reduceCtorEq, false_and, exists_false, iff_true]
      exact (hw.access v _).safe_invoke .onError
  | false =>
      simp only [hok, Bool.false_eq_true, if_false, and_false, Option.mem_some_iff,
        exists_eq_left']
      exact (hw.access v _).safe_rest_iff ev

/-- The state before the first event. -/
def Dispatch.start (app : σ) (w : Watched) : Dispatch σ := ⟨app, some w, [], []⟩

/-- A dispatch touches no socket that is gone and calls nothing on it, exactly when
`on_writable` does not destroy the socket before `on_readable`. -/
theorem no_access_after_destroy_iff (user : SockUser σ) (app : σ) (w : Watched) (fd : Int)
    (ev : PollEvents) (plat : Err) :
    (socketPollerCb user (.start app w) w fd ev plat).Safe ↔
      ¬ DestroyedEarly user app w fd ev plat :=
  socketPollerCb_safe_iff ⟨rfl, List.not_mem_nil⟩ fd ev plat

/-! ## The TCP client -/

/-- What the application does in the callbacks of a TCP client: nothing, or
`ztk_tcp_client_close`, with the answer of the allocator. -/
abbrev TcpApp := TcpEvent → Option Bool

namespace TcpApp

variable (app : TcpApp)

/-- A callback is called. -/
def call (c : TcpClient) (e : TcpEvent) : TcpClient :=
  match app e with
  | none => c.fire e
  | some alloc => tcpClientClose (c.fire e) alloc

/-- `fire_error`. -/
def fireError (c : TcpClient) : TcpClient :=
  if c.closing then c
  else
    let c := app.call { c with closing := true } .onError
    { c with sock := c.sock.map Sock.detachPoller }

/-- `client_on_writable`. -/
def clientOnWritable (c : TcpClient) (plat : Err) : TcpClient :=
  if c.closing || c.connected then c
  else
    let (err, c) := c.checkConnect plat
    if err = .ok then app.call { c with connected := true } .onConnect
    else if err ≠ .again then app.fireError c
    else c

/-- `client_on_readable` from `ztk_socket_recv`. -/
def clientRecv (c : TcpClient) (recv : PlatRecv) : TcpClient :=
  let n := c.recv recv
  if 0 < n then app.call c (.onRecv (recv.buf.take n.toNat))
  else if n = 0 ∨ n < 0 ∧ n ≠ Err.again.code then app.fireError c
  else c

/-- `client_on_readable`. -/
def clientOnReadable (c : TcpClient) (plat : Err) (recv : PlatRecv) : TcpClient :=
  if c.closing then c
  else if !c.connected then
    let c := app.clientOnWritable c plat
    if !c.connected || c.closing then c else app.clientRecv c recv
  else app.clientRecv c recv

/-- The callbacks of the client on its socket. -/
def callback (c : TcpClient) (plat : Err) (recv : PlatRecv) : SockCallback → TcpClient
  | .onReadable => app.clientOnReadable c plat recv
  | .onWritable => app.clientOnWritable c plat
  | .onError => app.fireError c

/-- The client above its socket.  The socket is gone when the client has another one. -/
def sockUser (plat : Err) (recv : PlatRecv) : SockUser TcpClient := fun cb c w =>
  let c := app.callback { c with sock := some w.sock } plat recv cb
  (c, (c.sock.filter fun s => s.serial = w.sock.serial).map fun s => { w with sock := s })

/-- A socket with the callbacks of the client. -/
def watched (s : Sock) : Watched := ⟨s, fun _ => true⟩

/-- The application does nothing. -/
def silent : TcpApp := fun _ => none

/-- The two clients have the same socket object. -/
def SameSock (c d : TcpClient) : Prop := d.sock.map Sock.serial = c.sock.map Sock.serial

theorem sameSock_fireError (c : TcpClient) : SameSock c (silent.fireError c) := by
  simp only [fireError, SameSock]
  split
  · rfl
  · simp only [call, silent, TcpClient.fire, Option.map_map]
    congr 1
    funext s
    exact s.detachPoller_serial

theorem sameSock_clientOnWritable (c : TcpClient) (plat : Err) :
    SameSock c (silent.clientOnWritable c plat) := by
  have hc : SameSock c (c.checkConnect plat).2 := by
    simp only [TcpClient.checkConnect, SameSock]
    split
    · rfl
    · next s hs =>
        rw [hs]
        exact congrArg some (s.checkConnect_serial plat)
  rw [clientOnWritable]
  split
  · rfl
  · simp only
    split
    · exact hc
    · split
      · exact (sameSock_fireError _).trans hc
      · exact hc

theorem sameSock_clientRecv (c : TcpClient) (recv : PlatRecv) :
    SameSock c (silent.clientRecv c recv) := by
  simp only [clientRecv]
  split
  · rfl
  · split
    · exact sameSock_fireError c
    · rfl

theorem sameSock_callback (c : TcpClient) (plat : Err) (recv : PlatRecv) (cb : SockCallback) :
    SameSock c (silent.callback c plat recv cb) := by
  cases cb with
  | onWritable => exact sameSock_clientOnWritable c plat
  | onError => exact sameSock_fireError c
  | onReadable =>
      simp only [callback, clientOnReadable]
      split
      · rfl
      · split
        · split
          · exact sameSock_clientOnWritable c plat
          · exact (sameSock_clientRecv _ recv).trans (sameSock_clientOnWritable c plat)
        · exact sameSock_clientRecv c recv

/-- The client and its socket after part of a dispatch.  The copy of the socket in the client
may be behind. -/
structure Synced (d : Dispatch TcpClient) (c : TcpClient) (s : Sock) : Prop where
  sock : c.sock = some s
  obj : d.obj = some (watched s)
  app : { d.app with sock := some s } = c

theorem Synced.invoke {d : Dispatch TcpClient} {c : TcpClient} {s : Sock} (h : Synced d c s)
    (plat : Err) (recv : PlatRecv) (cb : SockCallback) :
    ∃ t, Synced (d.invoke (silent.sockUser plat recv) cb) (silent.callback c plat recv cb) t := by
  have hsame := sameSock_callback c plat recv cb
  simp only [SameSock] at hsame
  rw [h.sock, Option.map_some, Option.map_eq_some_iff] at hsame
  obtain ⟨t, ht, hserial⟩ := hsame
  refine ⟨t, ht, ?_, ?_⟩
  · rw [Dispatch.invoke_set h.obj rfl]
    simp only [sockUser, watched, h.app, ht, Option.filter_some, hserial, decide_true, if_true,
      Option.map_some]
  · rw [Dispatch.invoke_set h.obj rfl]
    simp only [sockUser, watched, h.app]
    rw [← ht]

theorem Synced.rest {d : Dispatch TcpClient} {c : TcpClient} {s : Sock} (h : Synced d c s)
    (ev : PollEvents) (plat : Err) (recv : PlatRecv) :
    ∃ t, Synced (d.rest (silent.sockUser plat recv) ev) (clientPollerRest c ev plat recv) t := by
  have hw : ∃ t, Synced (if ev.pollOut then d.invoke (silent.sockUser plat recv) .onWritable else d)
      (if ev.pollOut then Net.clientOnWritable c plat else c) t := by
    split
    · exact h.invoke plat recv .onWritable
    · exact ⟨s, h⟩
  obtain ⟨t, hw⟩ := hw
  unfold Dispatch.rest clientPollerRest
  simp only
  split
  · exact hw.invoke plat recv .onReadable
  · exact ⟨t, hw⟩

/-- Below a client whose application does nothing the dispatch is `clientPollerCb`. -/
theorem socketPollerCb_silent {d : Dispatch TcpClient} {c : TcpClient} {s : Sock}
    (h : Synced d c s) (fd : Int) (ev : PollEvents) (plat : Err) (recv : PlatRecv) :
    ∃ t, Synced (socketPollerCb (silent.sockUser plat recv) d (watched s) fd ev plat)
      (clientPollerCb c s fd ev plat recv) t := by
  have hs : Synced { d with trace := d.trace ++ [SockEvent.access] } c s := { h with }
  have hput : ∀ t trace checks,
      Synced { d with obj := some (watched t), trace := trace, checks := checks }
        { c with sock := some t } t := fun t _ _ => ⟨rfl, rfl, by rw [← h.app]⟩
  simp only [socketPollerCb, clientPollerCb]
  by_cases hfd : s.fd = fd
  case neg =>
    simp only [watched, ne_eq, hfd, not_false_eq_true, if_true]
    exact ⟨s, hs⟩
  simp only [watched, ne_eq, hfd, not_true_eq_false, if_false]
  by_cases herr : (ev.pollErr || ev.pollHup) = true
  · simp only [herr, if_true]
    exact hs.invoke plat recv .onError
  simp only [herr]
  by_cases hp : (ev.pollOut && s.connectPending) = true
  · simp only [hp, if_true, Watched.checked]
    obtain ⟨err, t⟩ := s.checkConnect plat
    by_cases hok : err = .ok
    · simp only [hok, if_true]
      exact (hput _ _ _).rest ev plat recv
    · simp only [hok, if_false, if_true]
      exact (hput _ _ _).invoke plat recv .onError
  · simp only [hp]
    exact hs.rest ev plat recv

/-- The machine of the client, with the dispatch in the place of `clientPollerCb`. -/
def dispatchStep (c : TcpClient) : TcpLabel → Option TcpClient
  | .event fd ev plat recv =>
      match c.sock with
      | some s =>
          if s.attached then
            let d := socketPollerCb (silent.sockUser plat recv) (.start c (watched s)) (watched s)
              fd ev plat
            some { d.app with sock := d.obj.map Watched.sock }
          else none
      | none => none
  | .connect host plat add => tcpStep c (.connect host plat add)
  | .send data sent => tcpStep c (.send data sent)
  | .close alloc => tcpStep c (.close alloc)

def dispatchMachine : Machine TcpClient TcpLabel := ⟨dispatchStep⟩

theorem dispatchStep_eq (c : TcpClient) (a : TcpLabel) : dispatchStep c a = tcpStep c a := by
  cases a with
  | event fd ev plat recv =>
      cases hs : c.sock with
      | none => simp only [dispatchStep, tcpStep, hs]
      | some s =>
          have hstart : Synced (.start c (watched s)) c s := ⟨hs, rfl, by rw [← hs]; rfl⟩
          obtain ⟨t, -, hobj, happ⟩ := socketPollerCb_silent hstart fd ev plat recv
          simp only [dispatchStep, tcpStep, hs]
          generalize socketPollerCb (silent.sockUser plat recv) (.start c (watched s)) (watched s)
            fd ev plat = d at hobj happ ⊢
          rw [hobj, Option.map_some, ← happ]
          rfl
  | connect | send | close => rfl

/-- `on_writable` on a connection that is there calls `on_connect`. -/
theorem clientOnWritable_connected {c : TcpClient} {s : Sock} (hs : c.sock = some s)
    (hfd : 0 ≤ s.fd) (hp : s.connectPending = false) (plat : Err) :
    app.clientOnWritable c plat =
      if c.closing || c.connected then c else app.call { c with connected := true } .onConnect := by
  have hok : c.checkConnect plat = (.ok, c) := by
    rw [TcpClient.checkConnect, hs]
    simp only [Sock.checkConnect, Int.not_lt.mpr hfd, hp, if_false, Bool.not_false, if_true]
    rw [← hs]
  simp only [clientOnWritable, hok, if_true]

/-- It keeps the socket, if `on_connect` does not close the client. -/
theorem sameSock_connected (h : app .onConnect = none) {c : TcpClient} {s : Sock}
    (hs : c.sock = some s) (hfd : 0 ≤ s.fd) (hp : s.connectPending = false) (plat : Err) :
    SameSock c (app.clientOnWritable c plat) := by
  rw [app.clientOnWritable_connected hs hfd hp, call, h]
  split
  · rfl
  · rfl

/-- The socket that `on_writable` finds has no connection pending. -/
theorem writable_connected {s : Sock} {plat : Err} {v : Watched} (hfd : 0 ≤ s.fd)
    (h : v ∈ (watched s).writable plat) : v.sock.connectPending = false ∧ v.sock.fd = s.fd := by
  rw [Watched.writable] at h
  split at h
  · obtain hok | ⟨hne, herr⟩ := Sock.checkConnect_cases hfd plat
    · simp only [Watched.checked, watched, hok, if_true, ne_eq, not_true_eq_false, false_and,
        if_false, Option.mem_some_iff] at h
      rw [← h]
      dsimp only
      split
      · exact ⟨Sock.modEvents_connectPending .., Sock.modEvents_fd ..⟩
      · exact ⟨rfl, rfl⟩
    · simp only [Watched.checked, watched, herr, hne, if_false, ne_eq, not_false_eq_true, and_self,
        if_true] at h
      cases h
  · next hp =>
      cases h
      exact ⟨Bool.eq_false_iff.mpr hp, rfl⟩

/-- The dispatch of a client that is not closed in `on_connect` is safe. -/
theorem safe_of_onConnect (h : app .onConnect = none) {c : TcpClient} {s : Sock}
    (hfd : 0 ≤ s.fd) (fd : Int) (ev : PollEvents) (plat : Err) (recv : PlatRecv) :
    (socketPollerCb (app.sockUser plat recv) (.start c (watched s)) (watched s) fd ev plat).Safe := by
  refine (socketPollerCb_safe_iff ⟨rfl, List.not_mem_nil⟩ fd ev plat).mpr ?_
  rintro ⟨-, -, -, v, hv, -, -, -, hnone⟩
  obtain ⟨hpending, hfd'⟩ := writable_connected hfd hv
  have hsame := app.sameSock_connected h (c := { c with sock := some v.sock }) rfl
    (hfd' ▸ hfd) hpending plat
  obtain ⟨t, ht, hserial⟩ := Option.map_eq_some_iff.mp hsame
  simp only [sockUser, callback, ht, Option.filter_some, hserial, decide_true, if_true,
    Option.map_some, reduceCtorEq, Dispatch.start] at hnone

end TcpApp

/-- A client that waits for its connection, on descriptor 5. -/
def pendingClient : TcpClient :=
  (tcpClientConnect tcpClientCreate (some [104]) ⟨.ok, 5, true⟩ .ok).2

def pendingSock : Sock := ⟨0, 5, ⟨true, true, true, true⟩, true, true⟩

/-- The same socket when the connection is there. -/
def connectedSock : Sock := ⟨0, 5, ⟨true, false, true, true⟩, true, false⟩

/-- `on_connect` closes the client. -/
def closeOnConnect : TcpApp := fun e => if e = .onConnect then some true else none

/-- The connection is there, with data: `on_readable` is looked up in the old socket. -/
theorem no_access_after_destroy_fails :
    pendingClient.sock = some pendingSock ∧
      ¬ (socketPollerCb (closeOnConnect.sockUser .ok ⟨1, [7]⟩)
          (.start pendingClient (TcpApp.watched pendingSock)) (TcpApp.watched pendingSock) 5
          ⟨true, true, false, false⟩ .ok).Safe := by
  refine ⟨by decide, fun hs => ?_⟩
  have htrace : (socketPollerCb (closeOnConnect.sockUser .ok ⟨1, [7]⟩)
      (.start pendingClient (TcpApp.watched pendingSock)) (TcpApp.watched pendingSock) 5
      ⟨true, true, false, false⟩ .ok).trace =
        [.access, .access, .access, .call .onWritable, .destroyed, .access] := by
    decide
  simp only [Dispatch.Safe] at hs
  rw [htrace] at hs
  have hclosed : Trace.Closed (fun _ : Unit => SockEvent.destroyed) (fun _ e => e ≠ .destroyed)
      (([.access, .access, .access, .call .onWritable, .destroyed] : List SockEvent) ++
        [.access]) := hs
  exact hclosed.not_ended (x := ()) SockEvent.noConfusion (by decide)

/-- `on_connect` that closes the client destroys the socket before `on_readable`. -/
theorem not_safe_of_onConnect {app : TcpApp} {alloc : Bool} (h : app .onConnect = some alloc) :
    ¬ (socketPollerCb (app.sockUser .ok ⟨1, [7]⟩)
        (.start pendingClient (TcpApp.watched pendingSock)) (TcpApp.watched pendingSock) 5
        ⟨true, true, false, false⟩ .ok).Safe := by
  rw [socketPollerCb_safe_iff ⟨rfl, List.not_mem_nil⟩, not_not]
  refine ⟨rfl, rfl, rfl, TcpApp.watched connectedSock, rfl, rfl, rfl, rfl, ?_⟩
  have hcall := app.clientOnWritable_connected
    (c := { pendingClient with sock := some connectedSock }) rfl (by decide) rfl .ok
  simp only [TcpApp.sockUser, TcpApp.callback, Dispatch.start, TcpApp.watched, hcall,
    TcpApp.call, h]
  cases alloc with
  | false => rfl
  | true => rfl

/-- Over the dispatch, too, the runs of a client whose callbacks call nothing are those of its
machine.  In every state of these runs that has an open socket, an application may close the
client in any callback but `on_connect`: then no event makes the dispatch touch a socket that is
gone. -/
theorem tcp_client_dispatch (app : TcpApp) :
    (∀ c as, TcpApp.dispatchMachine.run c as = tcpMachine.run c as) ∧
      ((∀ c, tcpMachine.Leads Machine.Any tcpClientCreate c →
        ∀ s, c.sock = some s → 0 ≤ s.fd → ∀ fd ev plat recv,
          (socketPollerCb (app.sockUser plat recv) (.start c (TcpApp.watched s))
            (TcpApp.watched s) fd ev plat).Safe) ↔ app .onConnect = none) := by
  have hmachine : TcpApp.dispatchMachine = tcpMachine :=
    congrArg Machine.mk (funext fun c => funext fun a => TcpApp.dispatchStep_eq c a)
  refine ⟨fun c as => by rw [hmachine], fun h => ?_, fun h c _ s _ hfd fd ev plat recv =>
    app.safe_of_onConnect h hfd fd ev plat recv⟩
  by_contra hne
  obtain ⟨alloc, ha⟩ := Option.ne_none_iff_exists'.mp hne
  have hpending : tcpMachine.Leads Machine.Any tcpClientCreate pendingClient :=
    .single (a := .connect (some [104]) ⟨.ok, 5, true⟩ .ok) trivial rfl
  exact not_safe_of_onConnect ha (h pendingClient hpending pendingSock rfl (by decide) 5 _ .ok _)

/-! ## A connection in progress -/

/-- An event, or something else that the owner does, with the socket or another one. -/
inductive WatchLabel (σ : Type) where
  | event (fd : Int) (ev : PollEvents) (plat : Err)
  | act (app : σ) (obj : Option Watched)

def watchStep (user : SockUser σ) (d : Dispatch σ) : WatchLabel σ → Option (Dispatch σ)
  | .event fd ev plat => d.obj.map fun w => socketPollerCb user d w fd ev plat
  | .act app obj => some { d with app := app, obj := obj }

def watchMachine (user : SockUser σ) : Machine (Dispatch σ) (WatchLabel σ) := ⟨watchStep user⟩

/-- `on_error` was called for a check only if the check failed. -/
def Dispatch.OnlyFailures (d : Dispatch σ) : Prop :=
  ∀ err, (err, true) ∈ d.checks → err ≠ .ok ∧ err ≠ .again

/-- The event makes the dispatch check the connection. -/
def Checks (w : Watched) (fd : Int) (ev : PollEvents) : Prop :=
  w.sock.fd = fd ∧ ev.pollErr = false ∧ ev.pollHup = false ∧ ev.pollOut = true ∧
    w.sock.connectPending = true

instance (w : Watched) (fd : Int) (ev : PollEvents) : Decidable (Checks w fd ev) :=
  inferInstanceAs (Decidable (_ ∧ _))

/-- The platform answers the check that the connection is still in progress, and `on_error`
is set. -/
def Spurious (w : Watched) (fd : Int) (ev : PollEvents) (plat : Err) : Prop :=
  Checks w fd ev ∧ 0 ≤ fd ∧ plat = .again ∧ w.cb .onError = true

instance (w : Watched) (fd : Int) (ev : PollEvents) (plat : Err) :
    Decidable (Spurious w fd ev plat) :=
  inferInstanceAs (Decidable (_ ∧ _))

def NotSpurious (d : Dispatch σ) : WatchLabel σ → Prop
  | .event fd ev plat => ∀ w ∈ d.obj, ¬ Spurious w fd ev plat
  | .act _ _ => True

instance (d : Dispatch σ) (a : WatchLabel σ) : Decidable (NotSpurious d a) :=
  match a with
  | .event _ _ _ => inferInstanceAs (Decidable (∀ w ∈ d.obj, _))
  | .act _ _ => isTrue trivial

@[simp] theorem Dispatch.invoke_checks (cb : SockCallback) :
    (d.invoke user cb).checks = d.checks := by
  simp only [Dispatch.invoke]
  split
  · rfl
  · split <;> rfl

@[simp] theorem Dispatch.rest_checks (ev : PollEvents) : (d.rest user ev).checks = d.checks := by
  simp only [Dispatch.rest]
  split <;> split <;> simp only [Dispatch.invoke_checks]

@[simp] theorem Watched.checked_fst (w : Watched) (plat : Err) :
    (w.checked plat).1 = (w.sock.checkConnect plat).1 := by
  simp only [Watched.checked]
  split <;> rfl

@[simp] theorem Watched.checked_cb (w : Watched) (plat : Err) : (w.checked plat).2.cb = w.cb := by
  simp only [Watched.checked]
  split <;> rfl

variable (user) in
theorem socketPollerCb_checks (d : Dispatch σ) (w : Watched) (fd : Int) (ev : PollEvents)
    (plat : Err) :
    (socketPollerCb user d w fd ev plat).checks = d.checks ++
      if Checks w fd ev then
        [((w.sock.checkConnect plat).1,
          decide ((w.sock.checkConnect plat).1 ≠ .ok) && w.cb .onError)]
      else [] := by
  simp only [socketPollerCb, Checks]
  by_cases hfd : w.sock.fd = fd
  case neg => simp [hfd]
  by_cases herr : (ev.pollErr || ev.pollHup) = true
  · have hn : ¬ (ev.pollErr = false ∧ ev.pollHup = false) := fun hn => by simp [hn] at herr
    simp [hfd, herr, ← and_assoc, hn]
  simp only [Bool.or_eq_true, not_or, Bool.not_eq_true] at herr
  by_cases hp : (ev.pollOut && w.sock.connectPending) = true
  case neg =>
    simp only [Bool.and_eq_true] at hp
    simp [hfd, herr, hp]
  simp only [Bool.and_eq_true] at hp
  simp only [hfd, herr, hp, ne_eq, not_true_eq_false, if_false, Bool.or_self, Bool.false_eq_true,
    Bool.and_self, if_true, Watched.checked_fst, Watched.checked_cb, and_self]
  by_cases hok : (w.sock.checkConnect plat).1 = .ok
  · simp [hok]
  · cases hon : w.cb .onError <;> simp [hok]

theorem onlyFailures_concat_iff {err : Err} {called : Bool} {checks : List (Err × Bool)}
    (h : d.OnlyFailures) (hc : checks = d.checks ++ [(err, called)]) :
    (∀ e, (e, true) ∈ checks → e ≠ .ok ∧ e ≠ .again) ↔
      (called = true → err ≠ .ok ∧ err ≠ .again) := by
  subst hc
  constructor
  · intro hall hcall
    exact hall err (by rw [hcall]; exact List.mem_append_right _ (List.mem_singleton_self _))
  · intro hnew e he
    rcases List.mem_append.mp he with he | he
    · exact h e he
    · cases List.mem_singleton.mp he
      exact hnew rfl

/-- An event keeps `on_error` to failures exactly when it is not spurious. -/
theorem socketPollerCb_onlyFailures_iff (h : d.OnlyFailures) (w : Watched) (fd : Int)
    (ev : PollEvents) (plat : Err) :
    (socketPollerCb user d w fd ev plat).OnlyFailures ↔ ¬ Spurious w fd ev plat := by
  have heq := socketPollerCb_checks user d w fd ev plat
  simp only [Spurious]
  by_cases hc : Checks w fd ev
  case neg =>
    rw [if_neg hc, List.append_nil] at heq
    refine iff_of_true (fun e he => h e (heq ▸ he)) fun hs => hc hs.1
  rw [if_pos hc, Sock.checkConnect_pending hc.2.2.2.2, hc.1] at heq
  rw [Dispatch.OnlyFailures, onlyFailures_concat_iff h heq]
  by_cases hfd : fd < 0
  · simp [hfd, Int.not_le.mpr hfd]
  · simp only [hfd, if_false, Bool.and_eq_true, decide_eq_true_eq, hc, Int.not_lt.mp hfd, true_and,
      not_and]
    constructor
    · intro hall ha hon
      exact (hall ⟨by rw [ha]; decide, hon⟩).2 ha
    · intro hall hn
      exact ⟨hn.1, fun ha => hall ha hn.2⟩

theorem watchStep_checks {e : Dispatch σ} {a : WatchLabel σ} (hs : watchStep user d a = some e) :
    d.checks <+: e.checks := by
  cases a with
  | event fd ev plat =>
      obtain ⟨w, -, rfl⟩ := Option.map_eq_some_iff.mp hs
      rw [socketPollerCb_checks]
      exact List.prefix_append _ _
  | act app obj =>
      cases hs
      exact List.prefix_rfl

theorem watchStep_onlyFailures_iff {e : Dispatch σ} {a : WatchLabel σ} (h : d.OnlyFailures)
    (hs : watchStep user d a = some e) : e.OnlyFailures ↔ NotSpurious d a := by
  cases a with
  | event fd ev plat =>
      obtain ⟨w, hw, rfl⟩ := Option.map_eq_some_iff.mp hs
      rw [socketPollerCb_onlyFailures_iff h, NotSpurious, hw]
      exact ⟨fun hn v hv => Option.some.inj hv ▸ hn, fun hall => hall w rfl⟩
  | act app obj =>
      cases hs
      exact iff_of_true h trivial

/-- Over a run `on_error` is called for failed checks only, exactly when no event is
spurious. -/
theorem watch_onlyFailures_iff (h : d.OnlyFailures) (as : List (WatchLabel σ)) {e : Dispatch σ}
    (hr : (watchMachine user).run d as = some e) :
    e.OnlyFailures ↔ (watchMachine user).RunMeets NotSpurious d as := by
  have hiff := Machine.run_faultless_iff (M := watchMachine user) (C := NotSpurious)
    (F := fun d => ¬ d.OnlyFailures)
    (fun d a e hd hs hn => hd fun err herr => hn err ((watchStep_checks hs).subset herr))
    (fun d a e hd hs => by
      rw [not_not] at hd ⊢
      exact watchStep_onlyFailures_iff hd hs) as d e (not_not_intro h) hr
  rwa [not_not] at hiff

/-! ## The clients while they connect -/

/-- An event that reports no error. -/
def Mild (ev : PollEvents) : Prop := ev.pollErr = false ∧ ev.pollHup = false

instance (ev : PollEvents) : Decidable (Mild ev) := inferInstanceAs (Decidable (_ ∧ _))

/-- The TCP client waits for the connection of its socket `s`. -/
structure TcpWaits (c : TcpClient) (s : Sock) : Prop where
  sock : c.sock = some s
  attached : s.attached = true
  opened : 0 ≤ s.fd
  pending : s.connectPending = true
  connected : c.connected = false
  closing : c.closing = false

/-- The events of a pending connection, and the platform that says `ZTK_ERR_AGAIN`. -/
def tcpAgain (s : Sock) (evs : List (PollEvents × PlatRecv)) : List TcpLabel :=
  evs.map fun e => .event s.fd e.1 .again e.2

/-- The client stays as it is, and a later `ZTK_OK` is answered with `on_connect`. -/
def TcpPersists (c : TcpClient) (s : Sock) (evs : List (PollEvents × PlatRecv)) : Prop :=
  tcpMachine.run c (tcpAgain s evs) = some c ∧
    ∀ ev recv, Mild ev → (ev.pollOut || ev.pollIn) = true →
      ∃ d, tcpMachine.run c (tcpAgain s evs ++ [.event s.fd ev .ok recv]) = some d ∧
        c.log ++ [.onConnect] <+: d.log

namespace TcpWaits

variable {c : TcpClient} {s : Sock}

theorem checkConnect_again (h : TcpWaits c s) : c.checkConnect .again = (.again, c) := by
  simp only [TcpClient.checkConnect]
  rw [h.sock]
  simp only [Sock.checkConnect_again h.opened h.pending]
  rw [← h.sock]

theorem step_event (h : TcpWaits c s) (ev : PollEvents) (plat : Err) (recv : PlatRecv) :
    tcpMachine.step c (.event s.fd ev plat recv) =
      some (clientPollerCb c s s.fd ev plat recv) := by
  show tcpStep c (.event s.fd ev plat recv) = _
  simp only [tcpStep, h.sock, h.attached, if_true]

/-- The dispatch takes `ZTK_ERR_AGAIN` for an error, and the callbacks do not. -/
theorem pollerCb_again (h : TcpWaits c s) {ev : PollEvents} (hm : Mild ev) (recv : PlatRecv) :
    clientPollerCb c s s.fd ev .again recv = if ev.pollOut then Net.fireError c else c := by
  have hs := Sock.checkConnect_again h.opened h.pending
  have hw : Net.clientOnWritable c .again = c := by
    simp [Net.clientOnWritable, h.closing, h.connected, h.checkConnect_again]
  simp only [clientPollerCb]
  simp only [hm.1, hm.2, h.pending, ne_eq, not_true_eq_false, if_false, Bool.or_self,
    Bool.false_eq_true, Bool.and_true, hs]
  split
  · rw [if_neg (by decide), clientOnError, ← h.sock]
  · next hout =>
      simp only [clientPollerRest, hout]
      split
      · simp [Net.clientOnReadable, h.closing, h.connected, hw]
      · rfl

/-- After the error the socket is not registered. -/
theorem run_fireError (h : TcpWaits c s) (evs : List (PollEvents × PlatRecv)) :
    tcpMachine.run (Net.fireError c) (tcpAgain s evs) ≠ some c := by
  have hsock : (Net.fireError c).sock = some s.detachPoller := by
    simp [Net.fireError, h.closing, TcpClient.fire, h.sock]
  cases evs with
  | nil =>
      intro hr
      have hc : (Net.fireError c).closing = true := by
        simp [Net.fireError, h.closing, TcpClient.fire]
      rw [Option.some.inj hr, h.closing] at hc
      cases hc
  | cons e evs =>
      intro hr
      have hn : tcpMachine.step (Net.fireError c) (.event s.fd e.1 .again e.2) = none := by
        show tcpStep (Net.fireError c) (.event s.fd e.1 .again e.2) = _
        simp only [tcpStep, hsock, Sock.detachPoller_attached h.opened, Bool.false_eq_true, if_false]
      rw [tcpAgain, List.map_cons, Machine.run, hn] at hr
      cases hr

theorem run_again_iff (h : TcpWaits c s) : ∀ evs : List (PollEvents × PlatRecv),
    (∀ e ∈ evs, Mild e.1) →
      (tcpMachine.run c (tcpAgain s evs) = some c ↔ ∀ e ∈ evs, e.1.pollOut = false)
  | [], _ => iff_of_true rfl fun _ he => absurd he List.not_mem_nil
  | e :: evs, hm => by
      rw [List.forall_mem_cons] at hm ⊢
      rw [tcpAgain, List.map_cons, Machine.run, h.step_event, h.pollerCb_again hm.1,
        Option.bind_some]
      cases e.1.pollOut with
      | true => exact iff_of_false (h.run_fireError evs) fun hn => Bool.noConfusion hn.1
      | false => exact (run_again_iff h evs hm.2).trans (by simp)

theorem log_fire (c : TcpClient) (e : TcpEvent) : c.log <+: (c.fire e).log :=
  List.prefix_append _ _

theorem log_fireError (c : TcpClient) : c.log <+: (Net.fireError c).log := by
  simp only [Net.fireError]
  split
  · exact List.prefix_rfl
  · exact log_fire _ _

theorem log_clientRecv (c : TcpClient) (recv : PlatRecv) : c.log <+: (Net.clientRecv c recv).log := by
  simp only [Net.clientRecv]
  split
  · exact log_fire _ _
  · split
    · exact log_fireError c
    · exact List.prefix_rfl

/-- `client_on_writable` on a connection that is there. -/
theorem clientOnWritable_ok (h : TcpWaits c s) {t : Sock} (hfd : t.fd = s.fd) :
    ∃ d, Net.clientOnWritable { c with sock := some t } .ok = d ∧ d.log = c.log ++ [.onConnect] ∧
      d.connected = true ∧ d.closing = false := by
  have hok : (t.checkConnect .ok).1 = .ok := by
    rw [Sock.checkConnect_ok (hfd ▸ h.opened)]
  refine ⟨_, rfl, ?_⟩
  simp [Net.clientOnWritable, h.closing, h.connected, TcpClient.checkConnect, hok, TcpClient.fire]

theorem log_clientOnReadable {c : TcpClient} (hc : c.connected = true) (hn : c.closing = false)
    (plat : Err) (recv : PlatRecv) : c.log <+: (Net.clientOnReadable c plat recv).log := by
  simp only [Net.clientOnReadable, hc, hn, Bool.false_eq_true, Bool.not_true, if_false]
  exact log_clientRecv c recv

theorem pollerCb_ok (h : TcpWaits c s) {ev : PollEvents} (hm : Mild ev)
    (hev : (ev.pollOut || ev.pollIn) = true) (recv : PlatRecv) :
    c.log ++ [.onConnect] <+: (clientPollerCb c s s.fd ev .ok recv).log := by
  simp only [clientPollerCb]
  simp only [hm.1, hm.2, h.pending, ne_eq, not_true_eq_false, if_false, Bool.or_self,
    Bool.false_eq_true, Bool.and_true]
  split
  · next hout =>
      simp only [Sock.checkConnect_ok h.opened, if_true, clientPollerRest, hout]
      obtain ⟨d, hd, hlog, hcon, hclos⟩ := h.clientOnWritable_ok
        (t := if s.attached then { s with connectPending := false }.modEvents
          { s with connectPending := false }.defaultPollEvents
          else { s with connectPending := false }) (by split <;> simp)
      rw [hd, ← hlog]
      split
      · exact log_clientOnReadable hcon hclos .ok recv
      · exact List.prefix_rfl
  · next hout =>
      have hin : ev.pollIn = true := by simpa [hout] using hev
      obtain ⟨d, hd, hlog, hcon, hclos⟩ := h.clientOnWritable_ok (t := s) rfl
      rw [← h.sock] at hd
      simp only [clientPollerRest, hout, hin, Bool.false_eq_true, if_false, if_true,
        Net.clientOnReadable, h.closing, h.connected, Bool.not_false, hd, hcon, hclos,
        Bool.not_true, Bool.or_self, ← hlog]
      exact log_clientRecv d recv

/-- The client waits for as long as it takes exactly when it is not told that its socket is
writable. -/
theorem persists_iff (h : TcpWaits c s) {evs : List (PollEvents × PlatRecv)}
    (hm : ∀ e ∈ evs, Mild e.1) : TcpPersists c s evs ↔ ∀ e ∈ evs, e.1.pollOut = false := by
  rw [TcpPersists, h.run_again_iff evs hm, and_iff_left_iff_imp]
  intro hout ev recv hev hio
  refine ⟨_, ?_, h.pollerCb_ok hev hio recv⟩
  rw [Machine.run_concat]
  exact ⟨c, (h.run_again_iff evs hm).mpr hout, h.step_event ev .ok recv⟩

end TcpWaits

/-- The TLS client waits for the connection of its socket `s`, between events. -/
structure TlsWaits (r : TlsRun) (s : Sock) : Prop where
  between : r.stack = []
  sock : r.c.sock = some s
  attached : s.attached = true
  opened : 0 ≤ s.fd
  pending : s.connectPending = true
  tcpConnected : r.c.tcpConnected = false
  closing : r.c.closing = false

/-- An event of a pending connection, the platform that says `ZTK_ERR_AGAIN`, and what is
left of the dispatch. -/
def tlsAgainTurn (r : TlsRun) (s : Sock) (ev : PollEvents) : List TlsLabel :=
  .event s.fd ev ::
    if ev.pollOut then .checkConnect .again :: if r.c.ops.onError then [.go] else []
    else if ev.pollIn then [.checkConnect .again, .go]
    else []

def tlsAgain (r : TlsRun) (s : Sock) (evs : List PollEvents) : List TlsLabel :=
  evs.flatMap (tlsAgainTurn r s)

/-- An event that the platform answers with `ZTK_OK`, and an SSL that connects at once. -/
def tlsConnected (s : Sock) (ev : PollEvents) (err : SslErr) : List TlsLabel :=
  [.event s.fd ev, .checkConnect .ok, .sslNew true true, .ssl ⟨1, err⟩]

/-- The client stays as it is, and a later `ZTK_OK` starts TLS and leads to `on_connect`. -/
def TlsPersists (r : TlsRun) (s : Sock) (evs : List PollEvents) : Prop :=
  tlsMachine.run r (tlsAgain r s evs) = some r ∧
    ∀ ev err, Mild ev → (ev.pollOut || ev.pollIn) = true →
      ∃ t, tlsMachine.run r (tlsAgain r s evs ++ tlsConnected s ev err) = some t ∧
        t.c.state = .ready ∧ callback r.c.ops.onConnect <+: t.stack

namespace TlsWaits

variable {r : TlsRun} {s : Sock}

theorem step_event (h : TlsWaits r s) (ev : PollEvents) :
    tlsStep r (.event s.fd ev) = some (tlsPollerCb r s s.fd ev) := by
  simp only [tlsStep, h.between, h.sock, h.attached, if_true]

theorem pollerCb (h : TlsWaits r s) {ev : PollEvents} (hm : Mild ev) :
    tlsPollerCb r s s.fd ev =
      if ev.pollOut then { r with stack := [.pollCheck ev] }
      else if ev.pollIn then { r with stack := [.checkWritable, .readableRest] }
      else r := by
  simp only [tlsPollerCb, hm.1, hm.2, h.pending, h.between, ne_eq, not_true_eq_false, if_false,
    Bool.or_self, Bool.false_eq_true, Bool.and_true]
  split
  · rfl
  · next hout =>
      simp [tlsPollerRest, hout, tlsSockOnReadable, h.closing, h.tcpConnected, tlsSockOnWritable,
        h.sock, Int.not_lt.mpr h.opened, h.pending, h.between]

/-- A readable event changes nothing. -/
theorem run_turn_in (h : TlsWaits r s) {ev : PollEvents} (hm : Mild ev) (hout : ev.pollOut = false) :
    tlsMachine.run r (tlsAgainTurn r s ev) = some r := by
  have he : tlsMachine.step r (.event s.fd ev) = some (tlsPollerCb r s s.fd ev) := h.step_event ev
  rw [tlsAgainTurn, Machine.run, he, h.pollerCb hm, hout]
  cases ev.pollIn with
  | false => rfl
  | true =>
      have hc : tlsWritableChecked { r with stack := [.readableRest] } .again =
          { r with stack := [.readableRest] } := by
        simp only [tlsWritableChecked, h.sock, Sock.checkConnect_again h.opened h.pending]
        rw [← h.sock]
        rfl
      have hcheck : tlsMachine.step { r with stack := [.checkWritable, .readableRest] }
          (.checkConnect .again) = some { r with stack := [.readableRest] } := by
        show some (tlsWritableChecked { r with stack := [.readableRest] } .again) = _
        rw [hc]
      have hgo : tlsMachine.step { r with stack := [.readableRest] } .go = some r := by
        show some (if !r.c.tcpConnected || r.c.closing then { r with stack := [] } else _) = _
        rw [h.tcpConnected, ← h.between]
        rfl
      simp only [Bool.false_eq_true, if_false, if_true, Option.bind_some, Machine.run, hcheck, hgo]

/-- The client after `on_error`. -/
def failed (r : TlsRun) (s : Sock) : TlsRun :=
  { tlsReset r with
    c := { (tlsReset r).c with closing := true, sock := some s.detachPoller } }

/-- A writable event ends in `on_error`. -/
theorem run_turn_out (h : TlsWaits r s) {ev : PollEvents} (hm : Mild ev) (hout : ev.pollOut = true) :
    tlsMachine.run r (tlsAgainTurn r s ev) = some (failed r s) := by
  have he : tlsMachine.step r (.event s.fd ev) = some (tlsPollerCb r s s.fd ev) := h.step_event ev
  rw [tlsAgainTurn, Machine.run, he, h.pollerCb hm, hout]
  have hcheck : tlsMachine.step { r with stack := [.pollCheck ev] } (.checkConnect .again) =
      some { failed r s with stack := callback r.c.ops.onError } := by
    show tlsStep { r with stack := [.pollCheck ev] } (.checkConnect .again) = _
    simp only [tlsStep, h.sock, tlsPollerChecked,
      Sock.checkConnect_again h.opened h.pending]
    rw [if_neg (by decide)]
    simp only [tlsFireError, h.closing, failed, tlsReset, tlsDetach, List.append_nil]
    rfl
  simp only [if_true, Option.bind_some, Machine.run, hcheck]
  cases r.c.ops.onError with
  | false => simp [callback, Machine.run, failed, tlsReset, h.between]
  | true =>
      simp only [callback, if_true, failed, tlsReset, h.between]
      rfl

theorem run_failed (h : TlsWaits r s) (evs : List PollEvents) :
    tlsMachine.run (failed r s) (tlsAgain r s evs) ≠ some r := by
  cases evs with
  | nil =>
      intro hr
      have hc : r.c.closing = true := congrArg (fun r : TlsRun => r.c.closing) (Option.some.inj hr).symm
      rw [h.closing] at hc
      cases hc
  | cons ev evs =>
      intro hr
      have hn : tlsMachine.step (failed r s) (.event s.fd ev) = none := by
        show tlsStep (failed r s) (.event s.fd ev) = none
        simp only [tlsStep, failed, tlsReset, h.between, Sock.detachPoller_attached h.opened,
          Bool.false_eq_true, if_false]
      rw [tlsAgain, List.flatMap_cons, tlsAgainTurn, List.cons_append, Machine.run, hn] at hr
      cases hr

theorem run_again_iff (h : TlsWaits r s) : ∀ evs : List PollEvents, (∀ ev ∈ evs, Mild ev) →
    (tlsMachine.run r (tlsAgain r s evs) = some r ↔ ∀ ev ∈ evs, ev.pollOut = false)
  | [], _ => iff_of_true rfl fun _ he => absurd he List.not_mem_nil
  | ev :: evs, hm => by
      rw [List.forall_mem_cons] at hm ⊢
      rw [tlsAgain, List.flatMap_cons, Machine.run_append]
      cases hout : ev.pollOut with
      | true =>
          rw [h.run_turn_out hm.1 hout]
          exact iff_of_false (h.run_failed evs) fun hn => Bool.noConfusion hn.1
      | false =>
          rw [h.run_turn_in hm.1 hout]
          exact (run_again_iff h evs hm.2).trans (by simp)

/-- The check succeeds, whether the event is writable or only readable. -/
theorem run_started (h : TlsWaits r s) {ev : PollEvents} (hm : Mild ev)
    (hev : (ev.pollOut || ev.pollIn) = true) :
    ∃ t k, tlsMachine.run r [.event s.fd ev, .checkConnect .ok] = some t ∧
      t.stack = .startSsl :: k ∧ t.c.ops = r.c.ops := by
  have he : tlsMachine.step r (.event s.fd ev) = some (tlsPollerCb r s s.fd ev) := h.step_event ev
  rw [Machine.run, he, h.pollerCb hm, Option.bind_some]
  have heq := Sock.checkConnect_ok h.opened
  cases hout : ev.pollOut with
  | true =>
      rw [if_pos rfl]
      have hstep : tlsMachine.step { r with stack := [.pollCheck ev] } (.checkConnect .ok) =
          some (tlsPollerChecked { r with stack := [] } s ev .ok) := by
        show tlsStep { r with stack := [.pollCheck ev] } (.checkConnect .ok) = _
        simp only [tlsStep, h.sock]
      rw [Machine.run, hstep]
      simp [tlsPollerChecked, heq, tlsPollerRest, hout, tlsSockOnWritable, h.closing,
        h.tcpConnected, h.attached, Int.not_lt.mpr h.opened, tlsTcpConnected, tlsStartSsl,
        Machine.run]
  | false =>
      have hin : ev.pollIn = true := by simpa [hout] using hev
      rw [if_neg Bool.false_ne_true, if_pos hin]
      have hstep : tlsMachine.step { r with stack := [.checkWritable, .readableRest] }
          (.checkConnect .ok) = some (tlsWritableChecked { r with stack := [.readableRest] } .ok) :=
        rfl
      rw [Machine.run, hstep]
      simp [tlsWritableChecked, h.sock, heq, tlsTcpConnected, tlsStartSsl, Machine.run]

/-- TLS starts, and the handshake is done at once. -/
theorem run_ready {r : TlsRun} {k : List TlsFrame} (hs : r.stack = .startSsl :: k) (err : SslErr) :
    ∃ t, tlsMachine.run r [.sslNew true true, .ssl ⟨1, err⟩] = some t ∧ t.c.state = .ready ∧
      callback r.c.ops.onConnect <+: t.stack := by
  have hstep : tlsMachine.step r (.sslNew true true) =
      some (tlsSslStarted { r with stack := k } true true) := by
    show tlsStep r (.sslNew true true) = _
    simp only [tlsStep, hs]
  rw [Machine.run, hstep, Option.bind_some]
  simp only [tlsSslStarted, Bool.not_true, Bool.false_eq_true, if_false, tlsDoHandshake, tlsModPoll,
    reduceCtorEq, Machine.run]
  refine ⟨_, rfl, rfl, ?_⟩
  exact List.prefix_append _ _

theorem persists_iff (h : TlsWaits r s) {evs : List PollEvents} (hm : ∀ ev ∈ evs, Mild ev) :
    TlsPersists r s evs ↔ ∀ ev ∈ evs, ev.pollOut = false := by
  rw [TlsPersists, h.run_again_iff evs hm, and_iff_left_iff_imp]
  intro hout ev err hev hio
  obtain ⟨u, k, hu, hk, hops⟩ := h.run_started hev hio
  obtain ⟨t, ht, hready, hcb⟩ := run_ready hk err
  refine ⟨t, ?_, hready, hops ▸ hcb⟩
  rw [Machine.run_append, (h.run_again_iff evs hm).mpr hout, Option.bind_some]
  have hsplit : tlsConnected s ev err =
      [TlsLabel.event s.fd ev, .checkConnect .ok].append [.sslNew true true, .ssl ⟨1, err⟩] := rfl
  rw [hsplit, List.append_eq, Machine.run_append, hu]
  exact ht

end TlsWaits

/-- `on_error` is for connections that failed, and both clients wait for the others, exactly
where the platform's `ZTK_ERR_AGAIN` does not meet a writable event. -/
theorem connect_check_again_iff (user : SockUser σ) (app : σ) (w : Watched)
    (as : List (WatchLabel σ)) (d : Dispatch σ) (c : TcpClient) (s : Sock)
    (evs : List (PollEvents × PlatRecv)) (r : TlsRun) (s' : Sock) (evs' : List PollEvents) :
    ((watchMachine user).run (.start app w) as = some d →
      (d.OnlyFailures ↔ (watchMachine user).RunMeets NotSpurious (.start app w) as)) ∧
    (TcpWaits c s → (∀ e ∈ evs, Mild e.1) →
      (TcpPersists c s evs ↔ ∀ e ∈ evs, e.1.pollOut = false)) ∧
    (TlsWaits r s' → (∀ ev ∈ evs', Mild ev) →
      (TlsPersists r s' evs' ↔ ∀ ev ∈ evs', ev.pollOut = false)) := by
  refine ⟨fun hr => ?_, fun hw hm => hw.persists_iff hm, fun hw hm => hw.persists_iff hm⟩
  exact watch_onlyFailures_iff (fun _ he => absurd he List.not_mem_nil) as hr

/-- Two events that only say readable, and a writable one that the platform confirms. -/
def patientRun : List (WatchLabel TcpClient) :=
  [.event 5 ⟨true, false, false, false⟩ .again, .event 5 ⟨true, false, false, false⟩ .again,
    .event 5 ⟨false, true, false, false⟩ .ok]

/-- A TLS client that waits for its connection, on descriptor 5. -/
def pendingTls : TlsRun :=
  tlsClientConnect (tlsClientCreate ⟨true, true, true⟩ none) (some [104]) ⟨.ok, 5, true⟩ .ok

theorem connect_check_again_patient :
    (∃ d, (watchMachine (TcpApp.silent.sockUser .again ⟨0, []⟩)).run
        (.start pendingClient (TcpApp.watched pendingSock)) patientRun = some d ∧
        d.OnlyFailures) ∧
      TcpPersists pendingClient pendingSock [(⟨true, false, false, false⟩, ⟨0, []⟩)] ∧
      TlsPersists pendingTls pendingSock [⟨true, false, false, false⟩] := by
  have hrun : ∃ d, (watchMachine (TcpApp.silent.sockUser .again ⟨0, []⟩)).run
      (.start pendingClient (TcpApp.watched pendingSock)) patientRun = some d := ⟨_, rfl⟩
  obtain ⟨d, hd⟩ := hrun
  obtain ⟨hfail, htcp, htls⟩ := connect_check_again_iff (TcpApp.silent.sockUser .again ⟨0, []⟩)
    pendingClient (TcpApp.watched pendingSock) patientRun d pendingClient pendingSock
    [(⟨true, false, false, false⟩, ⟨0, []⟩)] pendingTls pendingSock [⟨true, false, false, false⟩]
  refine ⟨⟨d, hd, (hfail hd).mpr (by decide +kernel)⟩, ?_, ?_⟩
  · refine (htcp ⟨?_, ?_, ?_, ?_, ?_, ?_⟩ ?_).mpr ?_ <;> decide
  · refine (htls ⟨?_, ?_, ?_, ?_, ?_, ?_, ?_⟩ ?_).mpr ?_ <;> decide

/-- The connection is still in progress, and the client is told of an error. -/
theorem connect_check_again_fails :
    pendingClient.sock = some pendingSock ∧
      (socketPollerCb (TcpApp.silent.sockUser .again ⟨0, []⟩)
        (.start pendingClient (TcpApp.watched pendingSock)) (TcpApp.watched pendingSock) 5
        ⟨false, true, false, false⟩ .again).checks = [(.again, true)] ∧
      (clientPollerCb pendingClient pendingSock 5 ⟨false, true, false, false⟩ .again
        ⟨0, []⟩).log = [.onError] := by
  decide

end SocketPoll

end Ztk.Net
