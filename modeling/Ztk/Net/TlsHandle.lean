import Ztk.Net.TlsClient

/-!
# The SSL handle across callbacks

Every function of `tls_client.c` looks at `ssl_handle` before its first SSL call, and sets
it to null where it frees it.  `tls_drain_plain` calls `SSL_read` again after `on_recv`
returns, and looks at nothing; what the callback may have closed is read from then.

The stack says where that can happen.  A call of SSL is due only on top, and the one frame
that a callback can uncover is the `SSL_read` that it was called from (`Sheltered`).
-/

namespace Ztk.Net

open Ztk.Lib

namespace TlsHandle

/-- No call of SSL is due, and none is uncovered except the `SSL_read` below a callback. -/
inductive Sheltered : List TlsFrame → Prop where
  | nil : Sheltered []
  | cons {f : TlsFrame} {k : List TlsFrame} : f.calls = false → Sheltered k → Sheltered (f :: k)
  | read {k : List TlsFrame} : Sheltered k → Sheltered (.callback :: .read :: k)

/-- A call of SSL is at most due on top. -/
inductive Held (r : TlsRun) : Prop where
  | rest : Sheltered r.stack → Held r
  | call (f : TlsFrame) (k : List TlsFrame) : r.stack = f :: k → f.calls = true → Sheltered k →
      Held r

/-- The SSL call that is due has a handle that is not null. -/
def CallsAlive (r : TlsRun) : Prop := ∀ f ∈ r.stack.head?, f.calls = true → r.c.sslHandle ≠ none

/-- When a callback returns to the loop of `tls_drain_plain` there is a handle. -/
def ReturnsAlive (r : TlsRun) : TlsLabel → Prop
  | .go => r.stack.take 2 = [.callback, .read] → r.c.sslHandle ≠ none
  | _ => True

instance (r : TlsRun) (a : TlsLabel) : Decidable (ReturnsAlive r a) :=
  match a with
  | .go => inferInstanceAs (Decidable (_ → _))
  | .connect _ _ _ | .send _ | .close _ | .event _ _ | .checkConnect _ | .sslNew _ _ | .ssl _ =>
      isTrue trivial

/-- Both. -/
structure Alive (r : TlsRun) : Prop where
  held : Held r
  calls : CallsAlive r

variable {r t : TlsRun} {f : TlsFrame} {k : List TlsFrame}

namespace Sheltered

theorem callback_append (h : Sheltered k) (set : Bool) : Sheltered (callback set ++ k) := by
  cases set with
  | false => exact h
  | true => exact .cons rfl h

theorem head_calls (h : Sheltered k) : ∀ f ∈ k.head?, f.calls = false := by
  rintro f hf
  cases h with
  | nil => cases hf
  | cons hc _ =>
      cases hf
      exact hc
  | read _ =>
      cases hf
      rfl

theorem alive (h : Sheltered r.stack) : Alive r :=
  ⟨.rest h, fun f hf hc => by rw [h.head_calls f hf] at hc; cases hc⟩

/-- A call is due, on a handle that was looked at. -/
theorem call (h : Sheltered k) (hs : r.stack = f :: k) (hc : f.calls = true)
    (hssl : r.c.sslHandle ≠ none) : Alive r :=
  ⟨.call f k hs hc h, fun _ _ _ => hssl⟩

/-! ### What the functions leave -/

theorem fireError (h : Sheltered r.stack) : Sheltered (tlsFireError r).stack := by
  simp only [tlsFireError]
  split
  · exact h
  · exact h.callback_append _

theorem sslError (h : Sheltered r.stack) (err : SslErr) : Sheltered (tlsSslError r err).2.stack := by
  cases err with
  | wantRead => exact h
  | wantWrite => exact h
  | other => exact h.fireError

theorem doHandshake (h : Sheltered r.stack) : Alive (tlsDoHandshake r) := by
  simp only [tlsDoHandshake]
  split
  · exact h.alive
  · next hssl => exact h.call rfl rfl hssl

theorem handshakeDone (h : Sheltered r.stack) (x : SslRet) : Alive (tlsHandshakeDone r x) := by
  simp only [tlsHandshakeDone]
  split
  · exact alive (callback_append (.cons rfl (.cons rfl h)) _)
  · exact (h.sslError x.err).alive

theorem drainPlain (h : Sheltered r.stack) : Alive (tlsDrainPlain r) := by
  simp only [tlsDrainPlain]
  split
  · exact h.alive
  · next hn => exact h.call rfl rfl fun hssl => hn (Or.inr (Or.inl hssl))

theorem drainRead (h : Sheltered r.stack) (hssl : r.c.sslHandle ≠ none) (x : SslRet) :
    Alive (tlsDrainRead r x) := by
  simp only [tlsDrainRead]
  split
  · cases r.c.ops.onRecv with
    | false => exact h.call rfl rfl hssl
    | true => exact alive (.read h)
  split
  · exact h.fireError.alive
  split
  · exact alive (r := tlsModPoll r false) h
  · exact alive (r := tlsModPoll r true) h
  · exact h.fireError.alive

theorem flushPending (h : Sheltered r.stack) : Alive (tlsFlushPending r) := by
  simp only [tlsFlushPending]
  split
  · exact h.alive
  · next hn => exact h.call rfl rfl fun hssl => hn (Or.inr (Or.inr hssl))

theorem flushWrite (h : Sheltered r.stack) (hssl : r.c.sslHandle ≠ none) (off : Nat) (x : SslRet) :
    Alive (tlsFlushWrite r off x) := by
  rw [tlsFlushWrite]
  split
  · simp only
    split
    · exact h.call rfl rfl hssl
    · exact alive h
  · cases x.err with
    | wantRead => exact alive h
    | wantWrite => exact alive h
    | other => exact h.fireError.alive

theorem sendWrite (h : Sheltered r.stack) (hssl : r.c.sslHandle ≠ none) (data : List UInt8)
    (off : Nat) (x : SslRet) : Alive (tlsSendWrite r data off x) := by
  rcases Int.lt_or_le 0 x.ret with hx | hx
  · rw [tlsSendWrite, if_pos hx]
    simp only
    split
    · exact h.call rfl rfl hssl
    · exact alive h
  by_cases he : x.err = .other
  · rw [tlsSendWrite_fail r data off hx he]
    exact (fireError (r := { r with stack := .sendIo data :: r.stack }) (.cons rfl h)).alive
  · rw [tlsSendWrite_wait r data off hx he]
    simp only
    split <;> exact alive h

theorem sslStarted (h : Sheltered r.stack) (new setFd : Bool) : Alive (tlsSslStarted r new setFd) := by
  simp only [tlsSslStarted]
  split
  · exact (fireError (r := { r with c := { r.c with sslHandle := none } }) h).alive
  split
  · exact (fireError (r := { r with c := { r.c with sslHandle := some ⟨none⟩ } }) h).alive
  · exact doHandshake h

theorem tcpConnected (h : Sheltered r.stack) : Sheltered (tlsTcpConnected r).stack := .cons rfl h

theorem sockOnWritable (h : Sheltered r.stack) : Alive (tlsSockOnWritable r) := by
  simp only [tlsSockOnWritable]
  split
  · exact h.alive
  split
  · split
    · exact h.fireError.alive
    split
    · exact h.fireError.alive
    split
    · exact h.tcpConnected.alive
    · exact alive (.cons rfl h)
  · split
    · exact h.alive
    · exact h.doHandshake
    · exact alive (.cons rfl (.cons rfl h))

theorem writableChecked (h : Sheltered r.stack) (plat : Err) : Alive (tlsWritableChecked r plat) := by
  rw [tlsWritableChecked]
  split
  · exact h.fireError.alive
  · next s _ =>
      have h' : Sheltered { r with c := { r.c with sock := some (s.checkConnect plat).2 } }.stack := h
      simp only
      split
      · exact h'.tcpConnected.alive
      split
      · exact h'.fireError.alive
      · exact h'.alive

theorem readable (h : Sheltered r.stack) : Alive (tlsReadable r) := by
  simp only [tlsReadable]
  split
  · exact h.alive
  · exact h.doHandshake
  · exact h.drainPlain

theorem sockOnReadable (h : Sheltered r.stack) : Alive (tlsSockOnReadable r) := by
  simp only [tlsSockOnReadable]
  split
  · exact h.alive
  split
  · exact sockOnWritable (.cons rfl h)
  · exact h.readable

theorem pollerRest (h : Sheltered r.stack) (s : Sock) (ev : PollEvents) :
    Alive (tlsPollerRest r s ev) := by
  simp only [tlsPollerRest]
  split
  · refine sockOnWritable ?_
    split
    · exact .cons rfl h
    · exact h
  split
  · exact h.sockOnReadable
  · exact h.alive

theorem pollerCb (h : Sheltered r.stack) (s : Sock) (fd : Int) (ev : PollEvents) :
    Alive (tlsPollerCb r s fd ev) := by
  simp only [tlsPollerCb]
  split
  · exact h.alive
  split
  · exact h.fireError.alive
  split
  · exact alive (.cons rfl h)
  · exact h.pollerRest s ev

theorem pollerChecked (h : Sheltered r.stack) (s : Sock) (ev : PollEvents) (plat : Err) :
    Alive (tlsPollerChecked r s ev plat) := by
  simp only [tlsPollerChecked]
  split
  · refine pollerRest ?_ _ ev
    exact h
  · refine (fireError ?_).alive
    exact h

theorem clientSend (h : Sheltered r.stack) (data : Option (List UInt8)) :
    Alive (tlsClientSend r data) := by
  cases data with
  | none => exact alive h
  | some data =>
      simp only [tlsClientSend]
      split
      · exact alive h
      split
      · split <;> exact alive h
      · next hn => exact h.call rfl rfl fun hssl => hn (Or.inr hssl)

theorem clientConnect (h : Sheltered r.stack) (host : Option (List UInt8)) (plat : PlatConnect)
    (add : Err) : Alive (tlsClientConnect r host plat add) := by
  rcases tlsClientConnect_cases r host plat add with heq | ⟨sock, start, name, -, -, heq⟩
  · rw [heq]
    exact h.alive
  · rw [heq]
    split
    · exact (tcpConnected (r := tlsAttempt r sock name) h).alive
    · exact alive h

theorem clientClose (h : Sheltered r.stack) (alloc : Bool) : Alive (tlsClientClose r alloc) := by
  simp only [tlsClientClose]
  split
  · exact h.alive
  · exact alive h

end Sheltered

/-! ## Steps and runs -/

/-- What is left when a frame is taken off, other than a callback. -/
theorem Held.pop (h : Held r) (hs : r.stack = f :: k) (hf : f ≠ .callback) :
    Sheltered ({ r with stack := k } : TlsRun).stack := by
  cases h with
  | rest h =>
      rw [hs] at h
      cases h with
      | cons _ h => exact h
      | read _ => exact absurd rfl hf
  | call f' k' hs' _ h =>
      rw [hs] at hs'
      cases hs'
      exact h

theorem Held.sheltered (h : Held r) (hc : ∀ f ∈ r.stack.head?, f.calls = false) :
    Sheltered r.stack := by
  cases h with
  | rest h => exact h
  | call f k hs hf _ =>
      have hn := hc f (by rw [hs]; rfl)
      rw [hf] at hn
      cases hn

theorem Held.sheltered_idle (h : Held r) (hi : r.idle) : Sheltered r.stack := by
  refine h.sheltered fun f hf => ?_
  rw [TlsRun.idle_head hi f hf]
  rfl

/-- A callback that returns uncovers at most an `SSL_read`. -/
theorem Held.pop_callback (h : Held r) (hs : r.stack = .callback :: k) :
    Held { r with stack := k } ∧
      (CallsAlive { r with stack := k } ↔ ReturnsAlive r .go) := by
  have hsh := h.sheltered fun f hf => by rw [hs] at hf; cases hf; rfl
  rw [ReturnsAlive, hs]
  rw [hs] at hsh
  cases hsh with
  | read hk =>
      refine ⟨.call .read _ rfl rfl hk, ?_⟩
      constructor
      · exact fun hc _ => hc .read rfl rfl
      · exact fun hr _ _ _ => hr rfl
  | cons _ hk =>
      have ha : Alive { r with stack := k } := Sheltered.alive hk
      refine ⟨ha.held, iff_of_true ha.calls fun htake => ?_⟩
      cases k with
      | nil => cases htake
      | cons g k =>
          have hg := hk.head_calls g rfl
          have hread : g = .read := by simpa using htake
          rw [hread] at hg
          cases hg

theorem Held.step {a : TlsLabel} (h : Held r) (hs : tlsStep r a = some t) :
    Held t ∧ (CallsAlive t ↔ ReturnsAlive r a) := by
  have hgo : ∀ {g k}, r.stack = g :: k → g ≠ .callback → ReturnsAlive r .go := by
    intro g k hs hg htake
    rw [hs, List.take_succ_cons, List.cons.injEq] at htake
    exact absurd htake.1 hg
  have halive : ∀ {a}, Alive t → ReturnsAlive r a → Held t ∧ (CallsAlive t ↔ ReturnsAlive r a) :=
    fun ha hr => ⟨ha.held, iff_of_true ha.calls hr⟩
  cases tlsStep_trans hs with
  | connect host plat add hi => exact halive ((h.sheltered_idle hi).clientConnect host plat add) trivial
  | send data hi => exact halive ((h.sheltered_idle hi).clientSend data) trivial
  | close alloc hi => exact halive ((h.sheltered_idle hi).clientClose alloc) trivial
  | event fd ev hstack => exact halive ((h.sheltered_idle (Or.inl hstack)).pollerCb _ fd ev) trivial
  | pollChecked ev k plat hstack =>
      exact halive ((h.pop hstack TlsFrame.noConfusion).pollerChecked _ ev plat) trivial
  | writableChecked k plat hstack =>
      exact halive ((h.pop hstack TlsFrame.noConfusion).writableChecked plat) trivial
  | sslStarted k new setFd hstack =>
      exact halive ((h.pop hstack TlsFrame.noConfusion).sslStarted new setFd) trivial
  | handshakeDone k hstack =>
      exact halive ((h.pop hstack TlsFrame.noConfusion).handshakeDone _) trivial
  | drainRead k hstack hssl =>
      exact halive ((h.pop hstack TlsFrame.noConfusion).drainRead hssl _) trivial
  | flushWrite off k hstack hssl =>
      exact halive ((h.pop hstack TlsFrame.noConfusion).flushWrite hssl off _) trivial
  | sendWrite data off k hstack hssl =>
      exact halive ((h.pop hstack TlsFrame.noConfusion).sendWrite hssl data off _) trivial
  | pollIn serial k hstack =>
      exact halive (h.pop hstack TlsFrame.noConfusion).sockOnReadable (hgo hstack TlsFrame.noConfusion)
  | readableReturn k hstack =>
      exact halive (h.pop hstack TlsFrame.noConfusion).alive (hgo hstack TlsFrame.noConfusion)
  | readableRest k hstack =>
      exact halive (h.pop hstack TlsFrame.noConfusion).readable (hgo hstack TlsFrame.noConfusion)
  | flushPending k hstack =>
      exact halive (h.pop hstack TlsFrame.noConfusion).flushPending (hgo hstack TlsFrame.noConfusion)
  | drainPlain k hstack =>
      exact halive (h.pop hstack TlsFrame.noConfusion).drainPlain (hgo hstack TlsFrame.noConfusion)
  | sendIo data k hstack =>
      exact halive (Sheltered.alive (h.pop hstack TlsFrame.noConfusion)) (hgo hstack TlsFrame.noConfusion)
  | callback k hstack => exact h.pop_callback hstack

/-- In every run no SSL call is made on a handle that is null or freed, exactly when every
callback that returns to the loop of `tls_drain_plain` returns with a handle. -/
theorem tls_handle_alive_iff (ops : TlsOps) (sniHost : Option (List UInt8)) (as : List TlsLabel)
    {r : TlsRun} (hr : tlsMachine.run (tlsClientCreate ops sniHost) as = some r) :
    tlsMachine.Throughout CallsAlive (tlsClientCreate ops sniHost) as ↔
      tlsMachine.RunMeets ReturnsAlive (tlsClientCreate ops sniHost) as := by
  have h0 : Alive (tlsClientCreate ops sniHost) := Sheltered.alive .nil
  exact Machine.throughout_iff (D := Machine.Any) (I := Held)
    (fun _ _ _ h _ hs => (h.step hs).1) (fun _ _ _ h _ _ hs => (h.step hs).2) as _ r h0.held
    h0.calls (Machine.runMeets_any as _) hr

/-- A client that is ready gets data. -/
def recvRun : List TlsLabel :=
  [.connect (some [104]) ⟨.ok, 3, false⟩ .ok, .sslNew true true, .ssl ⟨1, .other⟩, .go, .go, .go,
    .ssl ⟨-1, .wantRead⟩, .event 3 ⟨true, false, false, false⟩, .ssl ⟨5, .other⟩]

/-- `on_recv` sends an answer. -/
def answerRun : List TlsLabel :=
  recvRun ++
    ([.send (some [1, 2]), .ssl ⟨2, .other⟩, .go, .ssl ⟨-1, .wantRead⟩] : List TlsLabel)

theorem tls_handle_alive_answer :
    tlsMachine.Throughout CallsAlive (tlsClientCreate ⟨true, true, true⟩ none) answerRun := by
  have hrun : (tlsMachine.run (tlsClientCreate ⟨true, true, true⟩ none) answerRun).isSome = true := by
    decide +kernel
  obtain ⟨r, hr⟩ := Option.isSome_iff_exists.mp hrun
  exact (tls_handle_alive_iff ⟨true, true, true⟩ none answerRun hr).mpr (by decide +kernel)

/-- `on_recv` closes the client. -/
def closingRun : List TlsLabel := recvRun ++ ([.close true, .go] : List TlsLabel)

/-- The next `SSL_read` is on no handle. -/
theorem tls_handle_alive_fails :
    ¬ tlsMachine.Throughout CallsAlive (tlsClientCreate ⟨true, true, true⟩ none) closingRun := by
  have hrun : (tlsMachine.run (tlsClientCreate ⟨true, true, true⟩ none) closingRun).map
      (fun r => decide (r.stack = [.read] ∧ r.c.sslHandle = none)) = some true := by
    decide +kernel
  obtain ⟨r, hr, hstack, hssl⟩ := Machine.exists_run hrun
  intro hall
  exact hall _ r List.prefix_rfl hr .read (by rw [hstack]; rfl) rfl hssl

end TlsHandle

end Ztk.Net
