import Ztk.Lib.Machine
import Ztk.Net.Socket

/-!
# The TCP client

`tcp_client.c` with the dispatch of `socket_poller_cb` above it.  The callbacks of
the application do not call back into the client, so each call and each event is one
step, and a callback leaves a mark in the log and nothing else; one that is not set
counts as one that does nothing.  The answers of the platform, the poller and the
allocator are arguments.

A connect that is not refused begins an attempt.  Recorded for the statements, and
read by no function: the callbacks of the current attempt, those of the attempts
before it, and whether the client was closed since it began.
-/

namespace Ztk.Net

open Ztk.Lib

/-! ## State -/

/-- A callback of the application. -/
inductive TcpEvent where
  | onConnect
  | onRecv (data : List UInt8)
  | onError
deriving DecidableEq

/-- What `ztk_sockplat_recv` returns, and the buffer it leaves. -/
structure PlatRecv where
  ret : Int
  buf : List UInt8

/-- `ztk_tcp_client`. -/
structure TcpClient where
  sock : Option Sock
  connected : Bool
  closing : Bool
  /-- The number of sockets created so far. -/
  socks : Nat
  /-- The callbacks of the current attempt. -/
  log : List TcpEvent
  /-- The callbacks of the attempts before it. -/
  past : List (List TcpEvent)
  /-- The client was closed after the current attempt began. -/
  closed : Bool
deriving DecidableEq

/-- `ztk_tcp_client_create`, with a poller and callbacks. -/
def tcpClientCreate : TcpClient where
  sock := some (.create 0)
  connected := false
  closing := false
  socks := 1
  log := []
  past := []
  closed := false

/-! ## Events -/

/-- A callback is called. -/
def TcpClient.fire (c : TcpClient) (e : TcpEvent) : TcpClient := { c with log := c.log ++ [e] }

/-- `fire_error`. -/
def fireError (c : TcpClient) : TcpClient :=
  if c.closing then c
  else
    let c := { c with closing := true }.fire .onError
    { c with sock := c.sock.map Sock.detachPoller }

/-- `ztk_socket_check_connect` on the client's socket. -/
def TcpClient.checkConnect (c : TcpClient) (plat : Err) : Err × TcpClient :=
  match c.sock with
  | none => (.invalid, c)
  | some s =>
      let (err, s) := s.checkConnect plat
      (err, { c with sock := some s })

/-- `client_on_writable`. -/
def clientOnWritable (c : TcpClient) (plat : Err) : TcpClient :=
  if c.closing || c.connected then c
  else
    let (err, c) := c.checkConnect plat
    if err = .ok then { c with connected := true }.fire .onConnect
    else if err ≠ .again then fireError c
    else c

/-- `ztk_socket_recv` on the client's socket. -/
def TcpClient.recv (c : TcpClient) (plat : PlatRecv) : Int :=
  match c.sock with
  | none => Err.invalid.code
  | some s => if s.fd < 0 then Err.invalid.code else plat.ret

/-- `client_on_readable` from `ztk_socket_recv`. -/
def clientRecv (c : TcpClient) (recv : PlatRecv) : TcpClient :=
  let n := c.recv recv
  if 0 < n then c.fire (.onRecv (recv.buf.take n.toNat))
  else if n = 0 ∨ n < 0 ∧ n ≠ Err.again.code then fireError c
  else c

/-- `client_on_readable`. -/
def clientOnReadable (c : TcpClient) (plat : Err) (recv : PlatRecv) : TcpClient :=
  if c.closing then c
  else if !c.connected then
    let c := clientOnWritable c plat
    if !c.connected || c.closing then c else clientRecv c recv
  else clientRecv c recv

/-- `client_on_error`. -/
def clientOnError (c : TcpClient) : TcpClient := fireError c

/-- The end of `socket_poller_cb`: `on_writable`, then `on_readable`. -/
def clientPollerRest (c : TcpClient) (ev : PollEvents) (plat : Err) (recv : PlatRecv) :
    TcpClient :=
  let c := if ev.pollOut then clientOnWritable c plat else c
  if ev.pollIn then clientOnReadable c plat recv else c

/-- `socket_poller_cb` on the client's socket `s`.  The platform checks the connection
at most once in it: after a check that succeeds no connection is pending. -/
def clientPollerCb (c : TcpClient) (s : Sock) (fd : Int) (ev : PollEvents) (plat : Err)
    (recv : PlatRecv) : TcpClient :=
  if s.fd ≠ fd then c
  else if ev.pollErr || ev.pollHup then clientOnError c
  else if ev.pollOut && s.connectPending then
    let (err, s) := s.checkConnect plat
    if err = .ok then
      let s := { s with connectPending := false }
      let s := if s.attached then s.modEvents s.defaultPollEvents else s
      clientPollerRest { c with sock := some s } ev plat recv
    else clientOnError { c with sock := some s }
  else clientPollerRest c ev plat recv

/-! ## The interface -/

/-- `ztk_tcp_client_connect`. -/
def tcpClientConnect (c : TcpClient) (host : Option (List UInt8)) (plat : PlatConnect)
    (add : Err) : Err × TcpClient :=
  if c.closing then (.invalid, c)
  else
    let c :=
      { c with
        sock := c.sock.map Sock.detachPoller, connected := false
        log := [], past := c.past ++ [c.log], closed := false }
    match c.sock, host with
    | some s, some _ =>
        match s.connect plat with
        | (.ok, s) =>
            match s.attachPoller add with
            | (.ok, s) =>
                let c := { c with sock := some s }
                (.ok, if plat.pending then c else { c with connected := true }.fire .onConnect)
            | (err, s) => (err, { c with sock := some s })
        | (err, s) => (err, { c with sock := some s })
    | _, _ => (.invalid, c)

/-- `ztk_tcp_client_is_connected`. -/
def tcpClientIsConnected (c : TcpClient) : Bool := c.connected && !c.closing

/-- The loop of `ztk_tcp_client_send`, on what the calls of `ztk_socket_send` return. -/
def tcpSendLoop (len : Nat) : List Int → Nat → Nat → Option Err
  | [], off, _ => if off < len then none else some .ok
  | n :: ns, off, spin =>
      if off < len then
        if 0 < n then tcpSendLoop len ns (off + n.toNat) 0
        else if n = Err.again.code then
          if 64 < spin + 1 then some .again else tcpSendLoop len ns off (spin + 1)
        else if n < 0 then some (.ofCode n)
        else some .io
      else some .ok

/-- `ztk_tcp_client_send`.  It leaves the client as it is. -/
def tcpClientSend (c : TcpClient) (data : Option (List UInt8)) (sent : List Int) : Option Err :=
  match data with
  | none => some .state
  | some data =>
      if !c.connected || c.closing || data = [] then some .state
      else tcpSendLoop data.length sent 0 0

/-- `ztk_tcp_client_close`.  The old socket is destroyed, and `alloc` says whether
there is memory for a new one. -/
def tcpClientClose (c : TcpClient) (alloc : Bool) : TcpClient :=
  { c with
    sock := if alloc then some (.create c.socks) else none
    socks := c.socks + 1, connected := false, closing := false, closed := true }

/-! ## The machine -/

inductive TcpLabel where
  | connect (host : Option (List UInt8)) (plat : PlatConnect) (add : Err)
  | send (data : Option (List UInt8)) (sent : List Int)
  | close (alloc : Bool)
  | event (fd : Int) (ev : PollEvents) (plat : Err) (recv : PlatRecv)

def tcpStep (c : TcpClient) : TcpLabel → Option TcpClient
  | .connect host plat add => some (tcpClientConnect c host plat add).2
  | .send data sent => (tcpClientSend c data sent).map fun _ => c
  | .close alloc => some (tcpClientClose c alloc)
  | .event fd ev plat recv =>
      match c.sock with
      | some s => if s.attached then some (clientPollerCb c s fd ev plat recv) else none
      | none => none

def tcpMachine : Machine TcpClient TcpLabel := ⟨tcpStep⟩

/-! ## The protocol -/

/-- The words of a single `on_recv`. -/
def onRecvs : Language TcpEvent := {w | ∃ data, w = [.onRecv data]}

/-- `(on_connect on_recv*)? on_error?`. -/
def callbackWords : Language TcpEvent :=
  (1 + {[TcpEvent.onConnect]} * KStar.kstar onRecvs) * (1 + {[TcpEvent.onError]})

/-- Where an attempt is: before `on_connect`, after it, or after `on_error`. -/
inductive Phase where
  | idle
  | up
  | failed
deriving DecidableEq

/-- The callbacks of an attempt, last one first: an automaton with the phases for
states. -/
inductive Spoken : Phase → List TcpEvent → Prop where
  | start : Spoken .idle []
  | connect {l : List TcpEvent} : Spoken .idle l → Spoken .up (l ++ [.onConnect])
  | recv {l : List TcpEvent} (data : List UInt8) : Spoken .up l →
      Spoken .up (l ++ [.onRecv data])
  | error {p : Phase} {l : List TcpEvent} : p ≠ .failed → Spoken p l →
      Spoken .failed (l ++ [.onError])

/-- The words that lead to a phase. -/
def Phase.words : Phase → Language TcpEvent
  | .idle => 1
  | .up => {[TcpEvent.onConnect]} * KStar.kstar onRecvs
  | .failed => (1 + {[TcpEvent.onConnect]} * KStar.kstar onRecvs) * {[TcpEvent.onError]}

theorem kstar_concat {w : List TcpEvent} (h : w ∈ KStar.kstar onRecvs) (data : List UInt8) :
    w ++ [.onRecv data] ∈ KStar.kstar onRecvs := by
  have hd : [.onRecv data] ∈ onRecvs := ⟨data, rfl⟩
  have hle : KStar.kstar onRecvs * onRecvs ≤ KStar.kstar onRecvs := kstar_mul_le_kstar
  exact hle (Language.append_mem_mul h hd)

theorem Spoken.mem_words {p : Phase} {l : List TcpEvent} (h : Spoken p l) : l ∈ p.words := by
  induction h with
  | start => exact Language.nil_mem_one
  | connect h ih =>
      rw [(Language.mem_one _).mp ih]
      exact Language.append_mem_mul (a := [TcpEvent.onConnect]) (b := []) rfl (Language.nil_mem_kstar _)
  | recv data h ih =>
      obtain ⟨a, ha, w, hw, rfl⟩ := Language.mem_mul.mp ih
      rw [List.append_assoc]
      exact Language.append_mem_mul ha (kstar_concat hw data)
  | error hp h ih =>
      next p l =>
      refine Language.append_mem_mul ?_ rfl
      cases p with
      | idle => exact Or.inl ih
      | up => exact Or.inr ih
      | failed => exact absurd rfl hp

/-- The automaton accepts only words of the protocol. -/
theorem Spoken.mem_callbackWords {p : Phase} {l : List TcpEvent} (h : Spoken p l) :
    l ∈ callbackWords := by
  have hw := h.mem_words
  cases p with
  | idle =>
      rw [(Language.mem_one _).mp hw]
      exact Language.append_mem_mul (a := []) (b := []) (Or.inl rfl) (Or.inl rfl)
  | up =>
      rw [← List.append_nil l]
      exact Language.append_mem_mul (Or.inr hw) (Or.inl rfl)
  | failed =>
      obtain ⟨a, ha, b, hb, rfl⟩ := Language.mem_mul.mp hw
      exact Language.append_mem_mul ha (Or.inr hb)

theorem Spoken.onError_mem {p : Phase} {l : List TcpEvent} (h : Spoken p l) :
    .onError ∈ l ↔ p = .failed := by
  induction h with
  | start => simp
  | connect h ih => simpa using ih
  | recv data h ih => simpa using ih
  | error hp h ih => simp

theorem Spoken.up_iff {p : Phase} {l : List TcpEvent} (h : Spoken p l) :
    p = .up ↔ .onConnect ∈ l ∧ .onError ∉ l := by
  rw [h.onError_mem]
  induction h with
  | start => simp
  | connect h ih => simp
  | recv data h ih => simpa using ih
  | error hp h ih => simp

/-! ## What the client says -/

/-- The phase of a client that was not closed. -/
def TcpClient.phase (c : TcpClient) : Phase :=
  if c.closing then .failed else if c.connected then .up else .idle

/-- The client keeps to the protocol from one state to the next. -/
structure Speaks (c d : TcpClient) : Prop where
  past : d.past = c.past
  closed : d.closed = c.closed
  spoken : Spoken c.phase c.log → Spoken d.phase d.log

theorem Speaks.refl (c : TcpClient) : Speaks c c := ⟨rfl, rfl, id⟩

theorem Speaks.trans {c d e : TcpClient} (h : Speaks c d) (k : Speaks d e) : Speaks c e :=
  ⟨k.past.trans h.past, k.closed.trans h.closed, k.spoken ∘ h.spoken⟩

/-- The socket says nothing. -/
theorem Speaks.sock (c : TcpClient) (s : Option Sock) : Speaks c { c with sock := s } :=
  ⟨rfl, rfl, id⟩

theorem Speaks.connect {c : TcpClient} (hc : c.closing = false) (hn : c.connected = false) :
    Speaks c ({ c with connected := true }.fire .onConnect) := by
  refine ⟨rfl, rfl, fun h => ?_⟩
  have hp : c.phase = .idle := by simp [TcpClient.phase, hc, hn]
  have hq : ({ c with connected := true }.fire .onConnect).phase = .up := by
    simp [TcpClient.phase, TcpClient.fire, hc]
  rw [hp] at h
  rw [hq]
  exact .connect h

theorem Speaks.recv {c : TcpClient} (hc : c.closing = false) (hn : c.connected = true)
    (data : List UInt8) : Speaks c (c.fire (.onRecv data)) := by
  refine ⟨rfl, rfl, fun h => ?_⟩
  have hp : c.phase = .up := by simp [TcpClient.phase, hc, hn]
  have hq : (c.fire (.onRecv data)).phase = .up := hp
  rw [hp] at h
  rw [hq]
  exact .recv data h

theorem fireError_speaks (c : TcpClient) : Speaks c (fireError c) := by
  simp only [fireError]
  split
  · exact .refl c
  · next hc =>
      refine ⟨rfl, rfl, fun h => ?_⟩
      have hp : c.phase ≠ .failed := by
        simp only [TcpClient.phase]
        rw [if_neg hc]
        split <;> decide
      exact .error hp h

theorem checkConnect_sock (c : TcpClient) (plat : Err) :
    ∃ sock, (c.checkConnect plat).2 = { c with sock := sock } := by
  simp only [TcpClient.checkConnect]
  split
  · exact ⟨c.sock, rfl⟩
  · exact ⟨_, rfl⟩

theorem clientOnWritable_speaks (c : TcpClient) (plat : Err) :
    Speaks c (clientOnWritable c plat) := by
  simp only [clientOnWritable]
  split
  · exact .refl c
  · next h =>
      obtain ⟨hc, hn⟩ : c.closing = false ∧ c.connected = false := by simpa using h
      obtain ⟨sock, hsock⟩ := checkConnect_sock c plat
      simp only [hsock]
      split
      · exact (Speaks.sock c sock).trans (.connect hc hn)
      · split
        · exact (Speaks.sock c sock).trans (fireError_speaks _)
        · exact .sock c sock

theorem clientRecv_speaks {c : TcpClient} (hc : c.closing = false) (hn : c.connected = true)
    (recv : PlatRecv) : Speaks c (clientRecv c recv) := by
  simp only [clientRecv]
  split
  · exact .recv hc hn _
  · split
    · exact fireError_speaks c
    · exact .refl c

theorem clientOnReadable_speaks (c : TcpClient) (plat : Err) (recv : PlatRecv) :
    Speaks c (clientOnReadable c plat recv) := by
  simp only [clientOnReadable]
  split
  · exact .refl c
  · next hc =>
      split
      · have hw := clientOnWritable_speaks c plat
        split
        · exact hw
        · next h =>
            obtain ⟨hn, hc⟩ : (clientOnWritable c plat).connected = true ∧
              (clientOnWritable c plat).closing = false := by simpa using h
            exact hw.trans (clientRecv_speaks hc hn recv)
      · next hn => exact clientRecv_speaks (by simpa using hc) (by simpa using hn) recv

theorem clientPollerRest_speaks (c : TcpClient) (ev : PollEvents) (plat : Err)
    (recv : PlatRecv) : Speaks c (clientPollerRest c ev plat recv) := by
  have hw : Speaks c (if ev.pollOut then clientOnWritable c plat else c) := by
    split
    · exact clientOnWritable_speaks c plat
    · exact .refl c
  simp only [clientPollerRest]
  generalize (if ev.pollOut then clientOnWritable c plat else c) = d at hw ⊢
  split
  · exact hw.trans (clientOnReadable_speaks d plat recv)
  · exact hw

theorem clientPollerCb_speaks (c : TcpClient) (s : Sock) (fd : Int) (ev : PollEvents)
    (plat : Err) (recv : PlatRecv) : Speaks c (clientPollerCb c s fd ev plat recv) := by
  simp only [clientPollerCb, clientOnError]
  split
  · exact .refl c
  split
  · exact fireError_speaks c
  split
  · split
    · exact (Speaks.sock c _).trans (clientPollerRest_speaks _ ev plat recv)
    · exact (Speaks.sock c _).trans (fireError_speaks _)
  · exact clientPollerRest_speaks c ev plat recv

/-! ## What connecting does -/

/-- There is a socket and a host, the platform connects it or begins to, and the
poller takes it. -/
def TcpClient.Accepts (c : TcpClient) (host : Option (List UInt8)) (plat : PlatConnect)
    (add : Err) : Prop :=
  c.sock ≠ none ∧ host ≠ none ∧ plat.err = .ok ∧ add = .ok

/-- The client at the begin of an attempt, with the socket that connecting leaves. -/
def TcpClient.attempt (c : TcpClient) (sock : Option Sock) : TcpClient :=
  { c with
    sock := sock, connected := false, log := [], past := c.past ++ [c.log], closed := false }

/-- The results of a connect that is not refused. -/
inductive Connects (c : TcpClient) (host : Option (List UInt8)) (plat : PlatConnect)
    (add : Err) : Err × TcpClient → Prop where
  | failed {err : Err} (sock : Option Sock) : err ≠ .ok → ¬ c.Accepts host plat add →
      Connects c host plat add (err, c.attempt sock)
  | pending (sock : Option Sock) : c.Accepts host plat add →
      Connects c host plat add (.ok, c.attempt sock)
  | done (sock : Option Sock) : c.Accepts host plat add →
      Connects c host plat add (.ok, { c.attempt sock with connected := true }.fire .onConnect)

theorem tcpClientConnect_connects {c : TcpClient} (hc : c.closing = false)
    (host : Option (List UInt8)) (plat : PlatConnect) (add : Err) :
    Connects c host plat add (tcpClientConnect c host plat add) := by
  have hinv : Err.invalid ≠ .ok := by decide
  rw [tcpClientConnect, if_neg (by rw [hc]; decide)]
  cases hs : c.sock with
  | none => exact .failed none hinv fun h => h.1 hs
  | some s =>
      cases host with
      | none => exact .failed (some s.detachPoller) hinv fun h => h.2.1 rfl
      | some name =>
          simp only [Option.map_some]
          by_cases hp : plat.err = .ok
          · obtain ⟨t, ht, hfd, -⟩ := s.detachPoller.connect_ok hp
            have hopen : 0 ≤ t.fd := hfd ▸ Int.natCast_nonneg plat.fd
            simp only [ht]
            by_cases ha : add = .ok
            · subst ha
              obtain ⟨u, hu, -⟩ := Sock.attachPoller_ok hopen
              have hacc : c.Accepts (some name) plat .ok :=
                ⟨by simp [hs], by simp, hp, rfl⟩
              simp only [hu]
              cases plat.pending with
              | true => exact .pending (some u) hacc
              | false => exact .done (some u) hacc
            · obtain ⟨u, hu, -⟩ := Sock.attachPoller_err hopen ha
              simp only [hu]
              exact .failed (some u) ha fun h => ha h.2.2.2
          · obtain ⟨t, ht, -⟩ := s.detachPoller.connect_err hp
            simp only [ht]
            exact .failed (some t) hp fun h => hp h.2.2.1

theorem tcpClientConnect_closing {c : TcpClient} (hc : c.closing = true)
    (host : Option (List UInt8)) (plat : PlatConnect) (add : Err) :
    tcpClientConnect c host plat add = (.invalid, c) := by
  simp only [tcpClientConnect, hc, if_true]

/-! ## Runs -/

/-- The callbacks so far keep to the protocol, and the flags tell the phase of the
current attempt. -/
structure TcpClient.Kept (c : TcpClient) : Prop where
  past : ∀ l ∈ c.past, ∃ p, Spoken p l
  live : c.closed = false → Spoken c.phase c.log
  shut : c.closed = true → c.closing = false ∧ c.connected = false ∧ ∃ p, Spoken p c.log
  held : ∀ s, c.sock = some s → s.attached = true → c.closed = false

theorem tcpClientCreate_kept : tcpClientCreate.Kept where
  past l h := absurd h List.not_mem_nil
  live _ := .start
  shut h := by cases h
  held _ _ _ := rfl

theorem TcpClient.Kept.now {c : TcpClient} (h : c.Kept) : ∃ p, Spoken p c.log := by
  cases hc : c.closed with
  | false => exact ⟨_, h.live hc⟩
  | true => exact (h.shut hc).2.2

theorem Speaks.kept {c d : TcpClient} (hs : Speaks c d) (h : c.Kept) (hc : c.closed = false) :
    d.Kept where
  past := by
    rw [hs.past]
    exact h.past
  live _ := hs.spoken (h.live hc)
  shut hd := by
    rw [hs.closed, hc] at hd
    cases hd
  held _ _ _ := hs.closed.trans hc

theorem TcpClient.Kept.attempt {c : TcpClient} (h : c.Kept) (hc : c.closing = false)
    (sock : Option Sock) : (c.attempt sock).Kept where
  past l hl := by
    rcases List.mem_append.mp hl with hl | hl
    · exact h.past l hl
    · exact List.mem_singleton.mp hl ▸ h.now
  live _ := by
    have hp : (c.attempt sock).phase = .idle := by
      simp [TcpClient.phase, TcpClient.attempt, hc]
    rw [hp]
    exact .start
  shut hd := by cases hd
  held _ _ _ := rfl

theorem TcpClient.Kept.connect {c : TcpClient} (h : c.Kept) (host : Option (List UInt8))
    (plat : PlatConnect) (add : Err) : (tcpClientConnect c host plat add).2.Kept := by
  cases hc : c.closing with
  | true =>
      rw [tcpClientConnect_closing hc]
      exact h
  | false =>
      have hk := tcpClientConnect_connects hc host plat add
      generalize tcpClientConnect c host plat add = r at hk
      cases hk with
      | failed sock _ _ => exact h.attempt hc sock
      | pending sock _ => exact h.attempt hc sock
      | done sock _ => exact (Speaks.connect (c := c.attempt sock) hc rfl).kept (h.attempt hc sock) rfl

theorem TcpClient.Kept.close {c : TcpClient} (h : c.Kept) (alloc : Bool) :
    (tcpClientClose c alloc).Kept where
  past := h.past
  live hd := by cases hd
  shut _ := ⟨rfl, rfl, h.now⟩
  held s hs ha := by
    cases alloc with
    | false => cases hs
    | true =>
        cases hs
        cases ha

theorem tcpStep_kept {c d : TcpClient} {a : TcpLabel} (h : c.Kept) (hs : tcpStep c a = some d) :
    d.Kept := by
  cases a with
  | connect host plat add =>
      cases hs
      exact h.connect host plat add
  | send data sent =>
      obtain ⟨_, -, rfl⟩ := Option.map_eq_some_iff.mp hs
      exact h
  | close alloc =>
      cases hs
      exact h.close alloc
  | event fd ev plat recv =>
      simp only [tcpStep] at hs
      split at hs
      · next s hsock =>
          obtain ⟨ha, hs⟩ := Option.ite_none_right_eq_some.mp hs
          cases hs
          exact (clientPollerCb_speaks c s fd ev plat recv).kept h (h.held s hsock ha)
      · cases hs

theorem tcpMachine_kept {c : TcpClient} (h : tcpMachine.Leads Machine.Any tcpClientCreate c) :
    c.Kept :=
  h.invariant (fun _ _ _ hc _ hs => tcpStep_kept hc hs) tcpClientCreate_kept

/-- `on_error` was called in the current attempt and the client not closed since. -/
def TcpClient.Failed (c : TcpClient) : Prop := .onError ∈ c.log ∧ c.closed = false

theorem TcpClient.Kept.failed_iff {c : TcpClient} (h : c.Kept) :
    c.Failed ↔ c.closing = true := by
  simp only [TcpClient.Failed]
  cases hc : c.closed with
  | true =>
      rw [(h.shut hc).1]
      simp
  | false =>
      rw [(h.live hc).onError_mem, TcpClient.phase]
      cases c.closing <;> cases c.connected <;> simp

theorem TcpClient.Kept.isConnected_iff {c : TcpClient} (h : c.Kept) :
    tcpClientIsConnected c = true ↔
      .onConnect ∈ c.log ∧ .onError ∉ c.log ∧ c.closed = false := by
  simp only [tcpClientIsConnected]
  cases hc : c.closed with
  | true => simp [(h.shut hc).2.1]
  | false =>
      rw [← and_assoc, ← (h.live hc).up_iff, TcpClient.phase]
      cases c.closing <;> cases c.connected <;> simp

/-- The protocol of the client's callbacks. -/
structure TcpClient.Protocol (c : TcpClient) : Prop where
  /-- The callbacks of every attempt are a word of the protocol. -/
  words : ∀ l ∈ c.past ++ [c.log], l ∈ callbackWords
  connected : tcpClientIsConnected c = true ↔
    .onConnect ∈ c.log ∧ .onError ∉ c.log ∧ c.closed = false
  /-- After an error a connect is refused and does nothing. -/
  refused : c.Failed → ∀ host plat add, tcpClientConnect c host plat add = (.invalid, c)
  /-- Any other connect is an attempt, and it fails only in the socket layer. -/
  accepted : ¬ c.Failed → ∀ host plat add,
    ((tcpClientConnect c host plat add).1 = .ok ↔ c.Accepts host plat add) ∧
      (tcpClientConnect c host plat add).2.past = c.past ++ [c.log]
  /-- Closing ends the failure, and leaves a new socket if there is memory for one. -/
  closes : ∀ alloc, ¬ (tcpClientClose c alloc).Failed ∧
    ∀ host plat add, (tcpClientConnect (tcpClientClose c alloc) host plat add).1 = .ok ↔
      alloc = true ∧ host ≠ none ∧ plat.err = .ok ∧ add = .ok

theorem TcpClient.Kept.connect_ok_iff {c : TcpClient} (h : c.Kept) (hf : ¬ c.Failed)
    (host : Option (List UInt8)) (plat : PlatConnect) (add : Err) :
    ((tcpClientConnect c host plat add).1 = .ok ↔ c.Accepts host plat add) ∧
      (tcpClientConnect c host plat add).2.past = c.past ++ [c.log] := by
  rw [h.failed_iff, Bool.not_eq_true] at hf
  have hk := tcpClientConnect_connects hf host plat add
  generalize tcpClientConnect c host plat add = r at hk
  cases hk with
  | failed sock he ha => exact ⟨iff_of_false he ha, rfl⟩
  | pending sock ha => exact ⟨iff_of_true rfl ha, rfl⟩
  | done sock ha => exact ⟨iff_of_true rfl ha, rfl⟩

/-- In every run of connects, closes, sends and events the client's callbacks keep
to the protocol. -/
theorem tcp_client_protocol {c : TcpClient}
    (h : tcpMachine.Leads Machine.Any tcpClientCreate c) : c.Protocol where
  words l hl := by
    have hk := tcpMachine_kept h
    have hp : ∃ p, Spoken p l := by
      rcases List.mem_append.mp hl with hl | hl
      · exact hk.past l hl
      · exact List.mem_singleton.mp hl ▸ hk.now
    obtain ⟨p, hp⟩ := hp
    exact hp.mem_callbackWords
  connected := (tcpMachine_kept h).isConnected_iff
  refused hf := tcpClientConnect_closing ((tcpMachine_kept h).failed_iff.mp hf)
  accepted hf := (tcpMachine_kept h).connect_ok_iff hf
  closes alloc := by
    have hf : ¬ (tcpClientClose c alloc).Failed := by
      rintro ⟨-, hc⟩
      cases hc
    refine ⟨hf, fun host plat add => ?_⟩
    rw [(((tcpMachine_kept h).close alloc).connect_ok_iff hf host plat add).1]
    cases alloc <;> simp [TcpClient.Accepts, tcpClientClose]

/-- A pending connect completes on `POLL_OUT`, data arrives, the peer hangs up.  After a
refused connect the client is closed and connects at once. -/
def reconnectRun : List TcpLabel :=
  [.connect (some [104]) ⟨.ok, 5, true⟩ .ok,
    .event 5 ⟨true, true, false, false⟩ .ok ⟨2, [1, 2, 3]⟩,
    .event 5 ⟨true, false, false, true⟩ .ok ⟨0, []⟩,
    .connect (some [104]) ⟨.ok, 5, false⟩ .ok, .close true,
    .connect (some [104]) ⟨.ok, 6, false⟩ .ok]

theorem tcp_client_protocol_reconnect :
    ∃ c, tcpMachine.Leads Machine.Any tcpClientCreate c ∧
      c.past = [[], [.onConnect, .onRecv [1, 2], .onError]] ∧ c.log = [.onConnect] ∧
      tcpClientIsConnected c = true ∧ c.Protocol := by
  have hrun : ∃ c, tcpMachine.run tcpClientCreate reconnectRun = some c ∧
      c.past = [[], [.onConnect, .onRecv [1, 2], .onError]] ∧ c.log = [.onConnect] ∧
      tcpClientIsConnected c = true :=
    ⟨_, rfl, rfl, rfl, rfl⟩
  obtain ⟨c, hc, hpast, hlog, hcon⟩ := hrun
  have hl := Machine.leads_of_run _ _ _ hc (Machine.runMeets_any _ _)
  exact ⟨c, hl, hpast, hlog, hcon, tcp_client_protocol hl⟩

end Ztk.Net
