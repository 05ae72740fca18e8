import Ztk.Net.TlsClient

/-!
# The poll mask of pending output

When `SSL_write` reports `WANT_WRITE`, `tls_mod_poll` asks for `ZTK_POLL_OUT`.  The
next call of `tls_mod_poll` replaces the mask, whatever it is about: after a flush
that still waits, `tls_drain_plain` reads until `WANT_READ` and takes
`ZTK_POLL_OUT` back.  In every run where no such answer comes while output waits,
the mask is kept.

A second way to lose the mask is a socket that is not registered.  The client
never starts TLS on one, unless `ztk_tls_client_connect` is called from a callback
and `ztk_poller_add` fails there.
-/

namespace Ztk.Net

open Ztk.Lib

/-- Bytes are pending, and the last `SSL_write` on them reported `WANT_WRITE`. -/
def TlsRun.Waiting (r : TlsRun) : Prop := r.c.pending ≠ [] ∧ r.lastWrite = some .wantWrite

instance (r : TlsRun) : Decidable r.Waiting := inferInstanceAs (Decidable (_ ∧ _))

/-- No `WANT_READ` about other bytes comes while output waits. -/
def TlsFrame.KeepsOut (r : TlsRun) (x : SslRet) : TlsFrame → Prop
  | .read => x.ret < 0 → x.err = .wantRead → ¬ r.Waiting
  | .send data off =>
      x.ret ≤ 0 → x.err = .wantRead → r.c.overflows (data.length - off) → ¬ r.Waiting
  | _ => True

def KeepsOut (r : TlsRun) : TlsLabel → Prop
  | .connect _ _ add => r.stack = [] ∨ add = .ok
  | .ssl x => ∀ f ∈ r.stack.head?, f.KeepsOut r x
  | _ => True

instance (r : TlsRun) (x : SslRet) (f : TlsFrame) : Decidable (f.KeepsOut r x) :=
  match f with
  | .read => inferInstanceAs (Decidable (_ → _))
  | .send _ _ => inferInstanceAs (Decidable (_ → _))
  | .pollCheck _ | .pollIn _ | .checkWritable | .readableRest | .startSsl | .handshake
  | .flushPending | .flush _ | .drainPlain | .sendIo _ | .callback => isTrue trivial

instance (r : TlsRun) (a : TlsLabel) : Decidable (KeepsOut r a) :=
  match a with
  | .connect _ _ _ => inferInstanceAs (Decidable (_ ∨ _))
  | .ssl x => inferInstanceAs (Decidable (∀ f ∈ r.stack.head?, f.KeepsOut r x))
  | .send _ | .close _ | .event _ _ | .checkConnect _ | .sslNew _ _ | .go => isTrue trivial

/-! ## The invariant -/

/-- An open socket is registered, unless the client is closing. -/
def TlsClient.Registered (c : TlsClient) : Prop :=
  c.closing = false → ∀ s, c.sock = some s → 0 ≤ s.fd → s.attached = true

/-- What holds in every state. -/
structure Core (r : TlsRun) : Prop where
  connected : r.c.state ≠ .tcp → r.c.tcpConnected = true
  handle : r.c.state = .ready → r.c.sslHandle ≠ none
  attached : r.c.tcpConnected = true →
    ∃ s, r.c.sock = some s ∧ s.attached = true ∧ s.connectPending = false
  untried : r.c.state ≠ .ready → r.lastWrite = none
  out : r.Waiting → ∃ s, r.c.sock = some s ∧ s.pollEvents.pollOut = true

/-- An answer is due that only comes while the client stays as it is. -/
def TlsFrame.due : TlsFrame → Bool
  | .pollCheck _ | .checkWritable | .startSsl | .handshake | .flush _ | .send _ _ => true
  | _ => false

/-- How the client is while the answer is due. -/
def TlsFrame.Due (c : TlsClient) : TlsFrame → Prop
  | .pollCheck _ => c.tcpConnected = false
  | .checkWritable => c.closing = false ∧ c.tcpConnected = false
  | .startSsl => c.tcpConnected = true ∧ c.state = .tcp
  | .handshake => c.tcpConnected = true ∧ c.state = .handshake ∧ c.sslHandle ≠ none
  | .flush _ | .send _ _ => c.state = .ready
  | _ => True

/-- The client runs, with nothing due. -/
structure Steady (r : TlsRun) : Prop where
  core : Core r
  registered : r.c.Registered
  frames : ∀ f ∈ r.stack, f.due = false

/-- The client is where the application or the poller may call it. -/
structure Rest (r : TlsRun) : Prop where
  core : Core r
  registered : r.stack ≠ [] → r.c.Registered
  frames : ∀ f ∈ r.stack, f.due = false

inductive Polled (r : TlsRun) : Prop where
  | rest : Rest r → Polled r
  | due (f : TlsFrame) (k : List TlsFrame) : r.stack = f :: k → f.due = true → f.Due r.c →
      Steady { r with stack := k } → Polled r

theorem Steady.polled {r : TlsRun} (h : Steady r) : Polled r :=
  .rest ⟨h.core, fun _ => h.registered, h.frames⟩

theorem Polled.core {r : TlsRun} (h : Polled r) : Core r := by
  cases h with
  | rest h => exact h.core
  | due f k _ _ _ h => exact { h.core with }

/-- `tls_mod_poll` on a registered socket. -/
theorem tlsModPoll_sock {r : TlsRun} {s : Sock} (hs : r.c.sock = some s) (ha : s.attached = true)
    (want : Bool) :
    ∃ t, (tlsModPoll r want).c.sock = some t ∧ t.attached = true ∧
      t.connectPending = s.connectPending ∧
      t.pollEvents.pollOut = (want || !r.c.tcpConnected) := by
  refine ⟨s.modEvents ⟨true, want || !r.c.tcpConnected, true, true⟩, ?_, ?_, ?_, ?_⟩
  · simp only [tlsModPoll, hs, Option.map_some]
  · rw [Sock.modEvents_attached, ha]
  · rw [Sock.modEvents_connectPending]
  · rw [Sock.modEvents_of_attached ha]

namespace Core

variable {r : TlsRun}

/-- On a client without a TCP connection there is little to say. -/
theorem of_tcp (hs : r.c.state = .tcp) (ht : r.c.tcpConnected = false)
    (hl : r.lastWrite = none) : Core r where
  connected := fun h => absurd hs h
  handle := fun h => by rw [hs] at h; cases h
  attached := fun h => by rw [ht] at h; cases h
  untried := fun _ => hl
  out := fun h => by
    have := h.2
    rw [hl] at this
    cases this

theorem not_waiting (h : Core r) (hs : r.c.state ≠ .ready) : ¬ r.Waiting := by
  intro hw
  have := hw.2
  rw [h.untried hs] at this
  cases this

theorem state_tcp (h : Core r) (ht : r.c.tcpConnected = false) : r.c.state = .tcp := by
  by_contra hne
  rw [h.connected hne] at ht
  cases ht

/-- Output waits only on a client that is ready, so its socket is registered. -/
theorem attached_of_waiting (h : Core r) (hw : r.Waiting) :
    ∃ s, r.c.sock = some s ∧ s.attached = true := by
  have hready : r.c.state = .ready := by
    by_contra hne
    exact h.not_waiting hne hw
  obtain ⟨s, hs, ha, -⟩ := h.attached (h.connected (by rw [hready]; nofun))
  exact ⟨s, hs, ha⟩

/-- The mask after `tls_mod_poll`. -/
theorem modPoll (h : Core r) (want : Bool) (hw : r.Waiting → want = true) :
    Core (tlsModPoll r want) where
  connected := h.connected
  handle := h.handle
  attached := fun ht => by
    obtain ⟨s, hs, ha, hp⟩ := h.attached ht
    obtain ⟨t, hsock, hatt, hpend, -⟩ := tlsModPoll_sock hs ha want
    exact ⟨t, hsock, hatt, hpend.trans hp⟩
  untried := h.untried
  out := fun hwait => by
    obtain ⟨s, hs, ha⟩ := h.attached_of_waiting hwait
    obtain ⟨t, hsock, -, -, hout⟩ := tlsModPoll_sock hs ha want
    exact ⟨t, hsock, by rw [hout, hw hwait, Bool.true_or]⟩

/-- The mask after an `SSL_write` whose bytes are left pending. -/
theorem wrote (h : Core r) (hready : r.c.state = .ready) (want : Bool) (err : SslErr)
    (he : err = .wantWrite → want = true) (pending : List UInt8) :
    Core { tlsModPoll r want with
      c := { (tlsModPoll r want).c with pending := pending }, lastWrite := some err } := by
  obtain ⟨s, hs, ha, hp⟩ := h.attached (h.connected (by rw [hready]; nofun))
  obtain ⟨t, hsock, hatt, hpend, hout⟩ := tlsModPoll_sock hs ha want
  exact
    { connected := h.connected
      handle := h.handle
      attached := fun _ => ⟨t, hsock, hatt, hpend.trans hp⟩
      untried := fun hne => absurd hready hne
      out := fun hw => ⟨t, hsock, by rw [hout, he (Option.some.inj hw.2), Bool.true_or]⟩ }

end Core

theorem tlsModPoll_registered {r : TlsRun} (h : r.c.Registered) (want : Bool) :
    (tlsModPoll r want).c.Registered := by
  intro hc s hs hfd
  obtain ⟨s', hs', rfl⟩ := Option.map_eq_some_iff.mp hs
  rw [Sock.modEvents_attached]
  rw [Sock.modEvents_fd] at hfd
  exact h hc s' hs' hfd

namespace Steady

variable {r : TlsRun}

theorem push (h : Steady r) {f : TlsFrame} (hf : f.due = false) :
    Steady { r with stack := f :: r.stack } where
  core := { h.core with }
  registered := h.registered
  frames := fun g hg => by
    rcases List.mem_cons.mp hg with rfl | hg
    · exact hf
    · exact h.frames g hg

theorem pushCallback (h : Steady r) (set : Bool) :
    Steady { r with stack := callback set ++ r.stack } := by
  cases set with
  | false => exact h
  | true => exact h.push rfl

theorem pushDue (h : Steady r) {f : TlsFrame} (hf : f.due = true) (hd : f.Due r.c) :
    Polled { r with stack := f :: r.stack } :=
  .due f r.stack rfl hf hd h

theorem modPoll (h : Steady r) (want : Bool) (hw : r.Waiting → want = true) :
    Steady (tlsModPoll r want) :=
  ⟨h.core.modPoll want hw, tlsModPoll_registered h.registered want, h.frames⟩

theorem fireError (h : Steady r) : Steady (tlsFireError r) := by
  simp only [tlsFireError]
  split
  · exact h
  · have hreset : Steady (tlsReset (tlsDetach { r with c := { r.c with closing := true } })) :=
      ⟨Core.of_tcp rfl rfl rfl, nofun, h.frames⟩
    exact hreset.pushCallback _

/-- `tls_ssl_error` while no output waits. -/
theorem sslError (h : Steady r) (hw : ¬ r.Waiting) (err : SslErr) :
    Steady (tlsSslError r err).2 := by
  cases err with
  | wantRead => exact h.modPoll false fun hwait => absurd hwait hw
  | wantWrite => exact h.modPoll true fun _ => rfl
  | other => exact h.fireError

theorem doHandshake (h : Steady r) (hs : r.c.state = .handshake) : Polled (tlsDoHandshake r) := by
  simp only [tlsDoHandshake]
  split
  · exact h.polled
  · next hssl =>
      exact h.pushDue rfl ⟨h.core.connected (by rw [hs]; nofun), hs, hssl⟩

theorem drainPlain (h : Steady r) : Steady (tlsDrainPlain r) := by
  simp only [tlsDrainPlain]
  split
  · exact h
  · exact h.push rfl

theorem flushPending (h : Steady r) : Polled (tlsFlushPending r) := by
  simp only [tlsFlushPending]
  split
  · exact h.polled
  · next hn =>
      exact h.pushDue rfl (by
        by_contra hne
        exact hn (Or.inr (Or.inl hne)))

/-- After the handshake no `SSL_write` has been tried yet. -/
theorem handshakeDone (h : Steady r) (hd : TlsFrame.Due r.c .handshake) (x : SslRet) :
    Steady (tlsHandshakeDone r x) := by
  obtain ⟨ht, hs, hssl⟩ := hd
  have hwait : ¬ r.Waiting := h.core.not_waiting (by rw [hs]; nofun)
  simp only [tlsHandshakeDone]
  split
  · have h₁ : Steady { r with c := { r.c with state := .ready } } :=
      { h with
        core :=
          { connected := fun _ => ht
            handle := fun _ => hssl
            attached := h.core.attached
            untried := fun hne => absurd rfl hne
            out := fun hw => absurd hw hwait } }
    have h₂ := h₁.modPoll false fun hw => absurd hw hwait
    have h₃ := ((h₂.push (f := .drainPlain) rfl).push (f := .flushPending) rfl).pushCallback
      (!r.c.readySent && r.c.ops.onConnect)
    exact { h₃ with core := { h₃.core with } }
  · exact h.sslError hwait x.err

theorem drainRead (h : Steady r) {x : SslRet} (hk : x.ret < 0 → x.err = .wantRead → ¬ r.Waiting) :
    Steady (tlsDrainRead r x) := by
  simp only [tlsDrainRead]
  split
  · exact (h.push (f := .read) rfl).pushCallback r.c.ops.onRecv
  · split
    · exact h.fireError
    · split
      · next he => exact h.modPoll false fun hw => absurd hw (hk (by omega) he)
      · exact h.modPoll true fun _ => rfl
      · exact h.fireError

theorem flushWrite (h : Steady r) (hs : r.c.state = .ready) (off : Nat) (x : SslRet) :
    Polled (tlsFlushWrite r off x) := by
  rw [tlsFlushWrite]
  split
  · simp only
    split
    · exact .due _ r.stack rfl rfl hs { h with core := { h.core with } }
    · refine polled { h with core := { h.core with out := fun hw => ?_ } }
      exact absurd rfl hw.1
  · cases he : x.err with
    | wantRead =>
        have hc := h.core.wrote hs false .wantRead nofun (r.c.pending.drop off)
        exact polled ⟨hc, tlsModPoll_registered h.registered false, h.frames⟩
    | wantWrite =>
        have hc := h.core.wrote hs true .wantWrite (fun _ => rfl) (r.c.pending.drop off)
        exact polled ⟨hc, tlsModPoll_registered h.registered true, h.frames⟩
    | other => exact h.fireError.polled

theorem sendWrite (h : Steady r) (hs : r.c.state = .ready) (data : List UInt8) (off : Nat)
    {x : SslRet}
    (hk : x.ret ≤ 0 → x.err = .wantRead → r.c.overflows (data.length - off) → ¬ r.Waiting) :
    Polled (tlsSendWrite r data off x) := by
  rcases Int.lt_or_le 0 x.ret with hpos | hpos
  · rw [tlsSendWrite, if_pos hpos]
    simp only
    split
    · exact .due _ r.stack rfl rfl hs { h with core := { h.core with } }
    · exact polled { h with core := { h.core with } }
  by_cases he : x.err = .other
  · rw [tlsSendWrite_fail r data off hpos he]
    exact (h.push (f := .sendIo data) rfl).fireError.polled
  · -- what is left of the payload is refused or pending
    rw [tlsSendWrite_wait r data off hpos he]
    simp only
    split
    · next ho =>
        have hm := h.modPoll (decide (x.err = .wantWrite)) fun hw => by
          cases hx : x.err with
          | wantRead => exact absurd hw (hk hpos hx ho)
          | wantWrite => rfl
          | other => exact absurd hx he
        exact polled { hm with core := { hm.core with } }
    · have hc := h.core.wrote hs (decide (x.err = .wantWrite)) x.err decide_eq_true
        (r.c.pending ++ data.drop off)
      exact polled ⟨{ hc with }, tlsModPoll_registered h.registered _, h.frames⟩

/-- Before the TCP connection is there, only the registration matters. -/
theorem setSock (h : Steady r) (ht : r.c.tcpConnected = false) {s : Sock}
    (hreg : r.c.closing = false → 0 ≤ s.fd → s.attached = true) :
    Steady { r with c := { r.c with sock := some s } } := by
  have hs := h.core.state_tcp ht
  refine ⟨Core.of_tcp hs ht (h.core.untried (by rw [hs]; nofun)), fun hc s' hs' hfd => ?_, h.frames⟩
  cases hs'
  exact hreg hc hfd

theorem tcpConnected (h : Steady r) (ht : r.c.tcpConnected = false) {s : Sock}
    (hs : r.c.sock = some s) (ha : s.attached = true) (hp : s.connectPending = false) :
    Polled (tlsTcpConnected r) := by
  have hstate := h.core.state_tcp ht
  have h' : Steady { r with c := { r.c with tcpConnected := true } } :=
    { h with
      core :=
        { h.core with
          connected := fun _ => rfl
          attached := fun _ => ⟨s, hs, ha, hp⟩ } }
  exact h'.pushDue rfl ⟨rfl, hstate⟩

theorem sslStarted (h : Steady r) (hd : TlsFrame.Due r.c .startSsl) (new setFd : Bool) :
    Polled (tlsSslStarted r new setFd) := by
  obtain ⟨ht, hs⟩ := hd
  have hne : r.c.state ≠ .ready := by rw [hs]; nofun
  have hssl : ∀ handle, Steady { r with c := { r.c with sslHandle := handle } } := fun handle =>
    { h with core := { h.core with handle := fun hr => absurd hr hne } }
  simp only [tlsSslStarted]
  split
  · exact (hssl _).fireError.polled
  · split
    · exact (hssl _).fireError.polled
    · refine doHandshake (modPoll ?_ true fun _ => rfl) rfl
      exact
        { h with
          core :=
            { connected := fun _ => ht
              handle := nofun
              attached := h.core.attached
              untried := fun _ => h.core.untried hne
              out := fun hw => absurd hw (h.core.not_waiting hne) } }

theorem sockOnWritable (h : Steady r) : Polled (tlsSockOnWritable r) := by
  simp only [tlsSockOnWritable]
  split
  · exact h.polled
  · next hc =>
      have hc : r.c.closing = false := by simpa using hc
      split
      · next ht =>
          have ht : r.c.tcpConnected = false := by simpa using ht
          split
          · exact h.fireError.polled
          · next s hs =>
              split
              · exact h.fireError.polled
              · next hfd =>
                  split
                  · next hp =>
                      exact h.tcpConnected ht hs (h.registered hc s hs (by omega)) (by simpa using hp)
                  · exact h.pushDue rfl ⟨hc, ht⟩
      · split
        · exact h.polled
        · next hs => exact h.doHandshake hs
        · exact ((h.push (f := .drainPlain) rfl).push rfl).polled

theorem writableChecked (h : Steady r) (hd : TlsFrame.Due r.c .checkWritable) (plat : Err) :
    Polled (tlsWritableChecked r plat) := by
  obtain ⟨hc, ht⟩ := hd
  simp only [tlsWritableChecked]
  split
  · exact h.fireError.polled
  · next s hs =>
      have hsame : Steady { r with c := { r.c with sock := some s } } :=
        h.setSock ht fun hc hfd => h.registered hc s hs hfd
      by_cases hfd : 0 ≤ s.fd
      · have ha := h.registered hc s hs hfd
        rcases Sock.checkConnect_cases hfd plat with heq | ⟨hne, heq⟩
        · simp only [heq, if_true]
          exact (h.setSock (s := { s with connectPending := false }) ht fun _ _ => ha).tcpConnected
            ht rfl ha rfl
        · simp only [heq, if_neg hne]
          split
          · exact hsame.fireError.polled
          · exact hsame.polled
      · simp only [Sock.checkConnect, if_pos (Int.not_le.mp hfd)]
        exact hsame.fireError.polled

theorem readable (h : Steady r) : Polled (tlsReadable r) := by
  simp only [tlsReadable]
  split
  · exact h.polled
  · next hs => exact h.doHandshake hs
  · exact h.drainPlain.polled

theorem sockOnReadable (h : Steady r) : Polled (tlsSockOnReadable r) := by
  simp only [tlsSockOnReadable]
  split
  · exact h.polled
  · split
    · exact (h.push (f := .readableRest) rfl).sockOnWritable
    · exact h.readable

theorem pollerRest (h : Steady r) (s : Sock) (ev : PollEvents) : Polled (tlsPollerRest r s ev) := by
  simp only [tlsPollerRest]
  split
  · refine sockOnWritable ?_
    split
    · exact h.push rfl
    · exact h
  · split
    · exact h.sockOnReadable
    · exact h.polled

/-- A connection that is pending is not there yet. -/
theorem pollerCb (h : Steady r) {s : Sock} (hs : r.c.sock = some s) (fd : Int) (ev : PollEvents) :
    Polled (tlsPollerCb r s fd ev) := by
  simp only [tlsPollerCb]
  split
  · exact h.polled
  · split
    · exact h.fireError.polled
    · split
      · next hp =>
          simp only [Bool.and_eq_true] at hp
          refine h.pushDue rfl ?_
          show r.c.tcpConnected = false
          by_contra hne
          obtain ⟨s', hs', -, hpend⟩ := h.core.attached (by simpa using hne)
          rw [hs] at hs'
          cases hs'
          rw [hp.2] at hpend
          cases hpend
      · exact h.pollerRest s ev

theorem pollerChecked (h : Steady r) (ht : r.c.tcpConnected = false) {s : Sock}
    (hs : r.c.sock = some s) (ev : PollEvents) (plat : Err) :
    Polled (tlsPollerChecked r s ev plat) := by
  have hsame : Steady { r with c := { r.c with sock := some s } } :=
    h.setSock ht fun hc hfd => h.registered hc s hs hfd
  simp only [tlsPollerChecked]
  by_cases hfd : 0 ≤ s.fd
  · rcases Sock.checkConnect_cases hfd plat with heq | ⟨hne, heq⟩
    · simp only [heq, if_true]
      refine pollerRest (h.setSock ht fun hc _ => ?_) _ ev
      have ha := h.registered hc s hs hfd
      simp only [ha, if_true, Sock.modEvents_attached]
    · simp only [heq, if_neg hne]
      exact hsame.fireError.polled
  · simp only [Sock.checkConnect, if_pos (Int.not_le.mp hfd)]
    exact hsame.fireError.polled

end Steady

/-! ## Calls of the application -/

namespace Rest

variable {r : TlsRun}

theorem steady (h : Rest r) (hr : r.c.Registered) : Steady r := ⟨h.core, hr, h.frames⟩

theorem clientSend (h : Rest r) (data : Option (List UInt8)) : Polled (tlsClientSend r data) := by
  have hsent : ∀ (err : Err) (data : List UInt8), Polled (r.sent err data) := fun err data =>
    .rest { h with core := { h.core with } }
  cases data with
  | none => exact hsent _ _
  | some data =>
      simp only [tlsClientSend]
      split
      · exact hsent _ _
      · split
        · next hn =>
            split
            · exact hsent _ _
            · -- what was tried before is gone with the connection
              have hne : r.c.state ≠ .ready := by
                rcases hn with hn | hn
                · exact hn
                · exact fun hr => h.core.handle hr hn
              refine .rest { h with core := { h.core with out := fun hw => ?_ } }
              have hl := hw.2
              rw [show _ = r.lastWrite from rfl, h.core.untried hne] at hl
              cases hl
        · next hn =>
            have hready : r.c.state = .ready := by
              by_contra hne
              exact hn (Or.inl hne)
            have hreg : r.c.Registered := by
              intro _ s hs _
              obtain ⟨s', hs', ha, -⟩ := h.core.attached (h.core.connected (by rw [hready]; nofun))
              rw [hs] at hs'
              cases hs'
              exact ha
            exact (h.steady hreg).pushDue rfl hready

theorem clientClose (h : Rest r) (alloc : Bool) : Polled (tlsClientClose r alloc) := by
  simp only [tlsClientClose]
  split
  · exact .rest h
  · refine .rest ⟨Core.of_tcp rfl rfl rfl, fun _ _ s hs hfd => ?_, h.frames⟩
    cases alloc with
    | false => cases hs
    | true =>
        cases hs
        have hfd : (0 : Int) ≤ -1 := hfd
        omega

theorem clientConnect (h : Rest r) (host : Option (List UInt8)) (plat : PlatConnect) {add : Err}
    (hk : r.stack = [] ∨ add = .ok) : Polled (tlsClientConnect r host plat add) := by
  have hattempt : ∀ sock name,
      (r.stack ≠ [] → ∀ s, sock = some s → 0 ≤ s.fd → s.attached = true) →
      Rest (tlsAttempt r sock name) := fun sock name hreg =>
    ⟨Core.of_tcp rfl rfl rfl, fun hne _ s hs hfd => hreg hne s hs hfd, h.frames⟩
  rcases tlsClientConnect_cases r host plat add with heq | ⟨sock, start, name, hend, -, heq⟩
  · rw [heq]
    exact .rest h
  · rw [heq]
    cases hend with
    | none => exact .rest (hattempt none name nofun)
    | refused _ hfd =>
        refine .rest (hattempt _ name fun _ s hs hle => ?_)
        cases hs
        omega
    | unregistered ha _ =>
        exact .rest (hattempt _ name fun hne => absurd (hk.resolve_left hne) ha)
    | pending hatt _ =>
        refine .rest (hattempt _ name fun _ s hs _ => ?_)
        cases hs
        exact hatt
    | done hatt _ hpend =>
        refine Steady.tcpConnected ((hattempt _ name ?_).steady ?_) rfl rfl hatt hpend
        · intro _ s hs _
          cases hs
          exact hatt
        · intro _ s hs _
          cases hs
          exact hatt

end Rest

/-! ## Steps and runs -/

namespace Polled

variable {r t : TlsRun} {f : TlsFrame} {k : List TlsFrame}

theorem toRest (h : Polled r) (hf : ∀ f ∈ r.stack.head?, f.due = false) : Rest r := by
  cases h with
  | rest h => exact h
  | due f k hs hd _ _ =>
      have := hf f (by rw [hs]; rfl)
      rw [hd] at this
      cases this

theorem toRest_idle (h : Polled r) (hi : r.idle) : Rest r := by
  refine h.toRest fun f hf => ?_
  rw [TlsRun.idle_head hi f hf]
  rfl

/-- What is left when a frame is taken off. -/
theorem pop (h : Polled r) (hs : r.stack = f :: k) :
    Steady { r with stack := k } ∧ f.Due r.c := by
  cases h with
  | rest h =>
      have hf := h.frames f (by rw [hs]; exact List.mem_cons_self)
      refine ⟨⟨{ h.core with }, h.registered (by rw [hs]; nofun), fun g hg =>
        h.frames g (by rw [hs]; exact List.mem_cons_of_mem _ hg)⟩, ?_⟩
      cases f <;> trivial
  | due f' k' hs' _ hd h =>
      rw [hs] at hs'
      cases hs'
      exact ⟨h, hd⟩

theorem step {a : TlsLabel} (h : Polled r) (hk : KeepsOut r a) (hs : tlsStep r a = some t) :
    Polled t := by
  cases tlsStep_trans hs with
  | connect host plat add hi => exact (h.toRest_idle hi).clientConnect host plat hk
  | send data hi => exact (h.toRest_idle hi).clientSend data
  | close alloc hi => exact (h.toRest_idle hi).clientClose alloc
  | event fd ev hstack hsock hatt =>
      refine ((h.toRest_idle (Or.inl hstack)).steady fun _ s' hs' _ => ?_).pollerCb hsock fd ev
      rw [hsock] at hs'
      cases hs'
      exact hatt
  | pollChecked ev k plat hstack hsock =>
      obtain ⟨hp, hd⟩ := h.pop hstack
      exact hp.pollerChecked hd hsock ev plat
  | writableChecked k plat hstack =>
      obtain ⟨hp, hd⟩ := h.pop hstack
      exact hp.writableChecked hd plat
  | sslStarted k new setFd hstack =>
      obtain ⟨hp, hd⟩ := h.pop hstack
      exact hp.sslStarted hd new setFd
  | @handshakeDone k x hstack =>
      obtain ⟨hp, hd⟩ := h.pop hstack
      exact (hp.handshakeDone hd x).polled
  | drainRead k hstack =>
      exact ((h.pop hstack).1.drainRead (hk .read (by rw [hstack]; rfl))).polled
  | @flushWrite off k x hstack =>
      obtain ⟨hp, hd⟩ := h.pop hstack
      exact hp.flushWrite hd off x
  | sendWrite data off k hstack =>
      obtain ⟨hp, hd⟩ := h.pop hstack
      exact hp.sendWrite hd data off (hk (.send data off) (by rw [hstack]; rfl))
  | pollIn serial k hstack => exact (h.pop hstack).1.sockOnReadable
  | readableReturn k hstack => exact (h.pop hstack).1.polled
  | readableRest k hstack => exact (h.pop hstack).1.readable
  | flushPending k hstack => exact (h.pop hstack).1.flushPending
  | drainPlain k hstack => exact (h.pop hstack).1.drainPlain.polled
  | sendIo data k hstack =>
      have hp := (h.pop hstack).1
      exact Steady.polled { hp with core := { hp.core with } }
  | callback k hstack => exact (h.pop hstack).1.polled

end Polled

theorem Polled.create (ops : TlsOps) (sniHost : Option (List UInt8)) :
    Polled (tlsClientCreate ops sniHost) :=
  .rest ⟨Core.of_tcp rfl rfl rfl, fun hne => absurd rfl hne, nofun⟩

/-- In every run where no `WANT_READ` about other bytes comes while output waits,
and where a client that reconnects from a callback is registered, the mask has
`ZTK_POLL_OUT` while output waits, between events and during them. -/
theorem tls_pending_has_driver {ops : TlsOps} {sniHost : Option (List UInt8)} {r : TlsRun}
    (h : tlsMachine.Leads KeepsOut (tlsClientCreate ops sniHost) r) (hpending : r.c.pending ≠ [])
    (hlast : r.lastWrite = some .wantWrite) :
    ∃ s, r.c.sock = some s ∧ s.pollEvents.pollOut = true := by
  have hp : Polled r :=
    h.invariant (fun _ _ _ hi hc hs => hi.step hc hs) (Polled.create ops sniHost)
  exact hp.core.out ⟨hpending, hlast⟩

/-- A client that is ready, and a send that SSL does not take. -/
def tlsBlockedSend : List TlsLabel :=
  [.connect (some [104]) ⟨.ok, 3, false⟩ .ok, .sslNew true true, .ssl ⟨1, .other⟩, .go, .go, .go,
    .ssl ⟨-1, .wantRead⟩, .send (some [1, 2]), .ssl ⟨-1, .wantWrite⟩]

theorem tls_pending_has_driver_blocked :
    ∃ r s, tlsMachine.Leads KeepsOut (tlsClientCreate ⟨true, true, true⟩ none) r ∧
      r.stack = [] ∧ r.c.state = .ready ∧ r.c.closing = false ∧ r.c.pending = [1, 2] ∧
      r.c.sock = some s ∧ s.pollEvents.pollOut = true := by
  have hrun : (tlsMachine.run (tlsClientCreate ⟨true, true, true⟩ none) tlsBlockedSend).map
      (fun r => decide (r.stack = [] ∧ r.c.state = .ready ∧ r.c.closing = false ∧
        r.c.pending = [1, 2] ∧ r.lastWrite = some .wantWrite)) = some true := by
    decide +kernel
  obtain ⟨r, hr, hstack, hstate, hclosing, hpending, hlast⟩ := Machine.exists_run hrun
  have hl := Machine.leads_of_run (C := KeepsOut) tlsBlockedSend _ r hr (by decide +kernel)
  obtain ⟨s, hs, hout⟩ := tls_pending_has_driver hl (by rw [hpending]; nofun) hlast
  exact ⟨r, s, hl, hstack, hstate, hclosing, hpending, hs, hout⟩

/-- The socket is writable, SSL takes nothing, and there is nothing to read. -/
def tlsStrandedRun : List TlsLabel :=
  tlsBlockedSend ++
    [.event 3 ⟨false, true, false, false⟩, .go, .ssl ⟨-1, .wantWrite⟩, .go, .ssl ⟨-1, .wantRead⟩]

/-- The pending bytes wait, and no event will send them. -/
theorem tls_pending_stranded :
    ∃ r s, tlsMachine.Leads Machine.Any (tlsClientCreate ⟨true, true, true⟩ none) r ∧
      r.stack = [] ∧ r.c.state = .ready ∧ r.c.closing = false ∧ r.c.pending = [1, 2] ∧
      r.lastWrite = some .wantWrite ∧ r.c.sock = some s ∧ s.pollEvents.pollOut = false := by
  have hrun : (tlsMachine.run (tlsClientCreate ⟨true, true, true⟩ none) tlsStrandedRun).map
      (fun r => decide (r.stack = [] ∧ r.c.state = .ready ∧ r.c.closing = false ∧
        r.c.pending = [1, 2] ∧ r.lastWrite = some .wantWrite ∧
        r.c.sock = some ⟨0, 3, ⟨true, false, true, true⟩, true, false⟩)) = some true := by
    decide +kernel
  obtain ⟨r, hr, hstack, hstate, hclosing, hpending, hlast, hsock⟩ := Machine.exists_run hrun
  exact ⟨r, _, Machine.leads_of_run tlsStrandedRun _ r hr (Machine.runMeets_any _ _), hstack,
    hstate, hclosing, hpending, hlast, hsock, rfl⟩

end Ztk.Net
