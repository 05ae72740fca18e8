import Ztk.Net.TlsClient

/-!
# The order of the plaintext

`ztk_tls_client_send` writes to SSL whenever the handshake is done, also while
bytes are pending, so later bytes can overtake earlier ones.  And when a part of
the payload was taken and the rest does not fit, it returns
`ZTK_ERR_BUFFER_TOO_SMALL` with that part sent.  In every run without these two
kinds of steps the plaintext is in order.

The invariant is about the frame on top of the stack: only there can an
`SSL_write` be due.  Below it, and in every other state, the bytes accepted by
SSL and then the pending ones are the payloads.
-/

namespace Ztk.Net

open Ztk.Lib

/-! ## What runs and steps are about -/

/-- The payloads of the sends that returned `ZTK_OK` or `ZTK_ERR_AGAIN`. -/
def payloads (sends : List (Err × List UInt8)) : List UInt8 :=
  (sends.filter fun c => c.1 = .ok ∨ c.1 = .again).flatMap fun c => c.2

/-- An `SSL_write` is due. -/
def TlsFrame.writes : TlsFrame → Bool
  | .flush _ | .send _ _ => true
  | _ => false

/-- The client connects before the first send and is not closed, and neither the
connection nor SSL fails. -/
def Errorless (r : TlsRun) : TlsLabel → Prop
  | .connect _ plat add => r.stack = [] ∧ r.sends = [] ∧ plat.err = .ok ∧ add = .ok
  | .send _ => True
  | .close _ => False
  | .event _ ev => ev.pollErr = false ∧ ev.pollHup = false
  | .checkConnect plat => plat = .ok ∨ plat = .again ∧ r.stack.head? = some .checkWritable
  | .sslNew new setFd => new = true ∧ setFd = true
  | .ssl x => 0 < x.ret ∨ x.err ≠ .other ∧ (x.ret ≠ 0 ∨ r.stack.head? ≠ some .read)
  | .go => True

/-- A send hands bytes to SSL only while nothing is pending, and has handed over
nothing when there is no room for the rest. -/
def TlsFrame.InOrder (c : TlsClient) (x : SslRet) : TlsFrame → Prop
  | .send data off =>
      (0 < x.ret → c.pending = []) ∧ (x.ret ≤ 0 → c.overflows (data.length - off) → off = 0)
  | _ => True

def InOrder (r : TlsRun) : TlsLabel → Prop
  | .ssl x => ∀ f ∈ r.stack.head?, f.InOrder r.c x
  | _ => True

instance (r : TlsRun) (a : TlsLabel) : Decidable (Errorless r a) :=
  match a with
  | .connect _ _ _ => inferInstanceAs (Decidable (_ ∧ _ ∧ _ ∧ _))
  | .close _ => inferInstanceAs (Decidable False)
  | .event _ _ | .sslNew _ _ => inferInstanceAs (Decidable (_ ∧ _))
  | .checkConnect _ | .ssl _ => inferInstanceAs (Decidable (_ ∨ _))
  | .send _ | .go => isTrue trivial

instance (c : TlsClient) (x : SslRet) (f : TlsFrame) : Decidable (f.InOrder c x) :=
  match f with
  | .send _ _ => inferInstanceAs (Decidable (_ ∧ _))
  | .pollCheck _ | .pollIn _ | .checkWritable | .readableRest | .startSsl | .handshake
  | .flushPending | .flush _ | .drainPlain | .read | .sendIo _ | .callback => isTrue trivial

instance (r : TlsRun) (a : TlsLabel) : Decidable (InOrder r a) :=
  match a with
  | .ssl x => inferInstanceAs (Decidable (∀ f ∈ r.stack.head?, f.InOrder r.c x))
  | .connect _ _ _ | .send _ | .close _ | .event _ _ | .checkConnect _ | .sslNew _ _ | .go =>
      isTrue trivial

/-! ## The invariant -/

/-- The descriptor and the registration of the socket. -/
def TlsClient.reg (c : TlsClient) : Option (Int × Bool) := c.sock.map fun s => (s.fd, s.attached)

def TlsClient.Open (c : TlsClient) : Prop := ∃ p, c.reg = some p ∧ 0 ≤ p.1

/-- The frame goes on to look at the connection. -/
def TlsFrame.polls : TlsFrame → Bool
  | .pollCheck _ | .pollIn _ | .checkWritable => true
  | _ => false

/-- No write is due, and the bytes are accounted for. -/
structure Calm (r : TlsRun) : Prop where
  attached : ∀ p, r.c.reg = some p → p.2 = true → 0 ≤ p.1
  frames : ∀ f ∈ r.stack, f.writes = false ∧ (f.polls = true → r.c.Open)
  bytes : r.written ++ r.c.pending = payloads r.sends

/-- A write that is due leaves the bytes accounted for, when it stops. -/
inductive Ordered (r : TlsRun) : Prop where
  | calm : Calm r → Ordered r
  | flush (off : Nat) (k : List TlsFrame) : r.stack = .flush off :: k →
      Calm { r with stack := k, c := { r.c with pending := r.c.pending.drop off } } → Ordered r
  | send (data : List UInt8) (off : Nat) (k : List TlsFrame) : r.stack = .send data off :: k →
      Calm { r with stack := k, sends := r.sends ++ [(.ok, data.take off)] } → Ordered r

theorem payloads_taken (sends : List (Err × List UInt8)) {err : Err} (data : List UInt8)
    (h : err = .ok ∨ err = .again) : payloads (sends ++ [(err, data)]) = payloads sends ++ data := by
  simp [payloads, h]

theorem payloads_refused (sends : List (Err × List UInt8)) {err : Err} (data : List UInt8)
    (h : ¬ (err = .ok ∨ err = .again)) : payloads (sends ++ [(err, data)]) = payloads sends := by
  simp [payloads, h]

@[simp] theorem tlsModPoll_reg (r : TlsRun) (want : Bool) :
    (tlsModPoll r want).c.reg = r.c.reg := by
  simp only [tlsModPoll, TlsClient.reg]
  cases r.c.sock <;> simp

namespace Calm

variable {r t : TlsRun}

/-- What the invariant depends on. -/
theorem congr (h : Calm r) (hreg : t.c.reg = r.c.reg) (hstack : t.stack = r.stack)
    (hbytes : t.written ++ t.c.pending = payloads t.sends) : Calm t where
  attached := by
    rw [hreg]
    exact h.attached
  frames := by
    rw [hstack, TlsClient.Open, hreg]
    exact h.frames
  bytes := hbytes

theorem push (h : Calm r) {f : TlsFrame} (hw : f.writes = false)
    (hp : f.polls = true → r.c.Open) : Calm { r with stack := f :: r.stack } where
  attached := h.attached
  frames := fun g hg => by
    rcases List.mem_cons.mp hg with rfl | hg
    · exact ⟨hw, hp⟩
    · exact h.frames g hg
  bytes := h.bytes

theorem pushCallback (h : Calm r) (set : Bool) :
    Calm { r with stack := callback set ++ r.stack } := by
  cases set with
  | false => exact h
  | true => exact h.push rfl nofun

theorem modPoll (h : Calm r) (want : Bool) : Calm (tlsModPoll r want) :=
  h.congr (tlsModPoll_reg r want) rfl h.bytes

theorem sslError (h : Calm r) {err : SslErr} (he : err ≠ .other) :
    (tlsSslError r err).1 = .again ∧ Calm (tlsSslError r err).2 := by
  cases err with
  | wantRead => exact ⟨rfl, h.modPoll false⟩
  | wantWrite => exact ⟨rfl, h.modPoll true⟩
  | other => exact absurd rfl he

theorem doHandshake (h : Calm r) : Calm (tlsDoHandshake r) := by
  simp only [tlsDoHandshake]
  split
  · exact h
  · exact h.push rfl nofun

theorem drainPlain (h : Calm r) : Calm (tlsDrainPlain r) := by
  simp only [tlsDrainPlain]
  split
  · exact h
  · exact h.push rfl nofun

theorem flushPending (h : Calm r) : Ordered (tlsFlushPending r) := by
  simp only [tlsFlushPending]
  split
  · exact .calm h
  · refine .flush 0 r.stack rfl ?_
    rw [List.drop_zero]
    exact h

theorem handshakeDone (h : Calm r) {x : SslRet} (hle : x.ret ≤ 1)
    (hx : 0 < x.ret ∨ x.err ≠ .other) : Calm (tlsHandshakeDone r x) := by
  simp only [tlsHandshakeDone]
  split
  · have h₁ : Calm (tlsModPoll { r with c := { r.c with state := .ready } } false) := by
      refine modPoll ?_ false
      exact h.congr rfl rfl h.bytes
    have h₂ := (h₁.push (f := .drainPlain) rfl nofun).push (f := .flushPending) rfl nofun
    exact (h₂.pushCallback _).congr rfl rfl h₂.bytes
  · next hne =>
      rcases hx with hx | hx
      · omega
      · exact (h.sslError hx).2

theorem drainRead (h : Calm r) {x : SslRet} (hx : 0 < x.ret ∨ x.err ≠ .other ∧ x.ret ≠ 0) :
    Calm (tlsDrainRead r x) := by
  simp only [tlsDrainRead]
  split
  · exact (h.push (f := .read) rfl nofun).pushCallback r.c.ops.onRecv
  · next hpos =>
      obtain ⟨he, hz⟩ := hx.resolve_left hpos
      rw [if_neg hz]
      split
      · exact h.modPoll false
      · exact h.modPoll true
      · next ho => exact absurd ho he

theorem tcpConnected (h : Calm r) : Calm (tlsTcpConnected r) :=
  Calm.push (r := { r with c := { r.c with tcpConnected := true } })
    (h.congr rfl rfl h.bytes) rfl nofun

theorem sslStarted (h : Calm r) : Calm (tlsSslStarted r true true) := by
  simp only [tlsSslStarted, Bool.not_true, Bool.false_eq_true, if_false]
  refine doHandshake (modPoll ?_ true)
  exact h.congr rfl rfl h.bytes

theorem sockOnWritable (h : Calm r) (ho : r.c.Open) : Calm (tlsSockOnWritable r) := by
  obtain ⟨p, hp, hfd⟩ := ho
  obtain ⟨s, hs, rfl⟩ := Option.map_eq_some_iff.mp hp
  simp only [tlsSockOnWritable]
  split
  · exact h
  · split
    · simp only [hs]
      rw [if_neg (by simpa using hfd)]
      split
      · exact h.tcpConnected
      · exact h.push rfl fun _ => ⟨_, hp, hfd⟩
    · split
      · exact h
      · exact h.doHandshake
      · exact (h.push (f := .drainPlain) rfl nofun).push rfl nofun

theorem readable (h : Calm r) : Calm (tlsReadable r) := by
  simp only [tlsReadable]
  split
  · exact h
  · exact h.doHandshake
  · exact h.drainPlain

theorem sockOnReadable (h : Calm r) (ho : r.c.Open) : Calm (tlsSockOnReadable r) := by
  simp only [tlsSockOnReadable]
  split
  · exact h
  · split
    · exact sockOnWritable (h.push rfl nofun) ho
    · exact h.readable

theorem pollerRest (h : Calm r) (ho : r.c.Open) (s : Sock) (ev : PollEvents) :
    Calm (tlsPollerRest r s ev) := by
  simp only [tlsPollerRest]
  split
  · refine sockOnWritable ?_ ho
    split
    · exact h.push rfl fun _ => ho
    · exact h
  · split
    · exact h.sockOnReadable ho
    · exact h

theorem pollerCb (h : Calm r) (ho : r.c.Open) (s : Sock) (fd : Int) {ev : PollEvents}
    (he : ev.pollErr = false) (hh : ev.pollHup = false) : Calm (tlsPollerCb r s fd ev) := by
  simp only [tlsPollerCb]
  split
  · exact h
  · rw [he, hh, Bool.or_false, if_neg Bool.false_ne_true]
    split
    · exact h.push rfl fun _ => ho
    · exact h.pollerRest ho s ev

/-- A check of the connection leaves descriptor and registration alone. -/
theorem checked (h : Calm r) {s : Sock} (s' : Sock) (hs : r.c.sock = some s) (hfd : s'.fd = s.fd)
    (hatt : s'.attached = s.attached) : Calm { r with c := { r.c with sock := some s' } } :=
  h.congr (by simp [TlsClient.reg, hs, hfd, hatt]) rfl h.bytes

theorem writableChecked (h : Calm r) (ho : r.c.Open) {plat : Err}
    (hplat : plat = .ok ∨ plat = .again) : Calm (tlsWritableChecked r plat) := by
  obtain ⟨p, hp, hfd⟩ := ho
  obtain ⟨s, hs, rfl⟩ := Option.map_eq_some_iff.mp hp
  rcases Sock.checkConnect_cases hfd plat with hc | ⟨hne, hc⟩
  · simp only [tlsWritableChecked, hs, hc, if_true]
    exact (h.checked { s with connectPending := false } hs rfl rfl).tcpConnected
  · obtain rfl := hplat.resolve_left hne
    simp only [tlsWritableChecked, hs, hc, reduceCtorEq, if_false, ne_eq, not_true]
    exact h.checked s hs rfl rfl

theorem pollerChecked (h : Calm r) (ho : r.c.Open) {s : Sock} (hs : r.c.sock = some s)
    (ev : PollEvents) : Calm (tlsPollerChecked r s ev .ok) := by
  have hfd : 0 ≤ s.fd := by
    obtain ⟨p, hp, hfd⟩ := ho
    rw [TlsClient.reg, hs] at hp
    cases hp
    exact hfd
  have hc := (Sock.checkConnect_cases hfd .ok).resolve_right fun h => h.1 rfl
  simp only [tlsPollerChecked, hc, if_true]
  refine pollerRest (h.checked _ hs ?_ ?_) ⟨_, rfl, ?_⟩ _ ev
  · split <;> simp
  · split <;> simp
  · split <;> simpa using hfd

end Calm

/-! ## Writing -/

/-- An iteration of `tls_flush_pending` moves bytes from the buffer to SSL. -/
theorem Ordered.flushWrite {r : TlsRun} {off : Nat} {x : SslRet}
    (h : Calm { r with c := { r.c with pending := r.c.pending.drop off } })
    (hx : 0 < x.ret ∨ x.err ≠ .other) : Ordered (tlsFlushWrite r off x) := by
  have hbytes : r.written ++ r.c.pending.drop off = payloads r.sends := h.bytes
  rw [tlsFlushWrite]
  split
  · have hmove : r.written ++ (r.c.pending.drop off).take x.ret.toNat ++
        r.c.pending.drop (off + x.ret.toNat) = payloads r.sends := by
      rw [← hbytes, ← List.drop_drop, List.append_assoc, List.take_append_drop]
    simp only
    split
    · exact .flush _ r.stack rfl (h.congr rfl rfl hmove)
    · next hlt =>
        rw [List.drop_of_length_le (Nat.le_of_not_lt hlt)] at hmove
        exact .calm (h.congr rfl rfl hmove)
  · next hpos =>
      have he := hx.resolve_left hpos
      cases hr : x.err with
      | wantRead => exact .calm (h.congr (tlsModPoll_reg r _) rfl hbytes)
      | wantWrite => exact .calm (h.congr (tlsModPoll_reg r _) rfl hbytes)
      | other => exact absurd hr he

/-- An iteration of `ztk_tls_client_send`. -/
theorem Ordered.sendWrite {r : TlsRun} {data : List UInt8} {off : Nat} {x : SslRet}
    (h : Calm { r with sends := r.sends ++ [(.ok, data.take off)] })
    (hx : 0 < x.ret ∨ x.err ≠ .other) (hempty : 0 < x.ret → r.c.pending = [])
    (hroom : x.ret ≤ 0 → r.c.overflows (data.length - off) → off = 0) :
    Ordered (tlsSendWrite r data off x) := by
  have hbytes : r.written ++ r.c.pending = payloads r.sends ++ data.take off :=
    h.bytes.trans (payloads_taken _ _ (Or.inl rfl))
  rcases Int.lt_or_le 0 x.ret with hpos | hpos
  · have hmove : r.written ++ (data.drop off).take x.ret.toNat ++ r.c.pending =
        payloads r.sends ++ data.take (off + x.ret.toNat) := by
      rw [hempty hpos, List.append_nil] at hbytes
      rw [hempty hpos, List.append_nil, hbytes, List.append_assoc, ← List.take_add]
    rw [tlsSendWrite, if_pos hpos]
    simp only
    split
    · refine .send data _ r.stack rfl (h.congr rfl rfl ?_)
      exact hmove.trans (payloads_taken _ _ (Or.inl rfl)).symm
    · next hlt =>
        rw [List.take_of_length_le (Nat.le_of_not_lt hlt)] at hmove
        refine .calm (h.congr rfl rfl ?_)
        exact hmove.trans (payloads_taken _ _ (Or.inl rfl)).symm
  · rw [tlsSendWrite_wait r data off hpos (hx.resolve_left (Int.not_lt.mpr hpos))]
    simp only
    split
    · next hover =>
        rw [hroom hpos hover, List.take_zero, List.append_nil] at hbytes
        refine .calm (h.congr (tlsModPoll_reg r _) rfl ?_)
        exact hbytes.trans (payloads_refused _ _ (by decide)).symm
    · refine .calm (h.congr (tlsModPoll_reg r _) rfl ?_)
      calc r.written ++ (r.c.pending ++ data.drop off)
          = payloads r.sends ++ (data.take off ++ data.drop off) := by
            rw [← List.append_assoc, hbytes, List.append_assoc]
        _ = payloads (r.sends ++ [(.again, data)]) := by
            rw [List.take_append_drop, payloads_taken _ _ (Or.inr rfl)]

theorem Ordered.clientSend {r : TlsRun} (h : Calm r) (data : Option (List UInt8)) :
    Ordered (tlsClientSend r data) := by
  have hrefused : ∀ (err : Err) (data : List UInt8), ¬ (err = .ok ∨ err = .again) →
      Ordered (r.sent err data) := fun err data he =>
    .calm (h.congr rfl rfl (h.bytes.trans (payloads_refused _ _ he).symm))
  cases data with
  | none => exact hrefused .invalid [] (by decide)
  | some data =>
      simp only [tlsClientSend]
      split
      · exact hrefused .invalid data (by decide)
      · split
        · split
          · exact hrefused .bufferTooSmall data (by decide)
          · refine .calm (h.congr rfl rfl ?_)
            calc r.written ++ (r.c.pending ++ data) = payloads r.sends ++ data := by
                  rw [← List.append_assoc, h.bytes]
              _ = payloads (r.sends ++ [(.again, data)]) :=
                  (payloads_taken _ _ (Or.inr rfl)).symm
        · refine .send data 0 r.stack rfl (h.congr rfl rfl ?_)
          rw [List.take_zero, payloads_taken _ _ (Or.inl rfl), List.append_nil]
          exact h.bytes

/-- Connecting drops what is pending, and before the first send nothing is. -/
theorem Ordered.clientConnect {r : TlsRun} (h : Calm r) (hstack : r.stack = [])
    (hsends : r.sends = []) (host : Option (List UInt8)) {plat : PlatConnect}
    (hplat : plat.err = .ok) : Ordered (tlsClientConnect r host plat .ok) := by
  have hwritten : r.written = [] := by
    have hnil : r.written ++ r.c.pending = [] := by
      rw [h.bytes, hsends]
      rfl
    exact (List.append_eq_nil_iff.mp hnil).1
  have hattempt : ∀ sock name, (∀ s, sock = some s → 0 ≤ s.fd) →
      Calm (tlsAttempt r sock name) := by
    intro sock name hfd
    refine ⟨fun p hp _ => ?_, fun f hf => ?_, ?_⟩
    · obtain ⟨s, hs, rfl⟩ := Option.map_eq_some_iff.mp hp
      exact hfd s hs
    · have hf : f ∈ r.stack := hf
      rw [hstack] at hf
      cases hf
    · show r.written ++ [] = payloads r.sends
      rw [hwritten, hsends]
      rfl
  rcases tlsClientConnect_cases r host plat .ok with heq | ⟨sock, start, name, hend, -, heq⟩
  · rw [heq]
    exact .calm h
  · rw [heq]
    cases hend with
    | none => exact .calm (hattempt none name nofun)
    | refused he => exact absurd hplat he
    | unregistered ha => exact absurd rfl ha
    | pending ha hfd => exact .calm (hattempt _ name fun s hs => by cases hs; exact hfd)
    | done ha hfd => exact .calm (hattempt _ name fun s hs => by cases hs; exact hfd).tcpConnected

/-! ## Steps and runs -/

theorem Calm.pop {r : TlsRun} {f : TlsFrame} {k : List TlsFrame} (h : Calm r)
    (hs : r.stack = f :: k) : Calm { r with stack := k } where
  attached := h.attached
  frames := fun g hg => h.frames g (by rw [hs]; exact List.mem_cons_of_mem _ hg)
  bytes := h.bytes

/-- Where no write is due the bytes are accounted for. -/
theorem Ordered.toCalm {r : TlsRun} (h : Ordered r)
    (hw : ∀ f ∈ r.stack.head?, f.writes = false) : Calm r := by
  cases h with
  | calm h => exact h
  | flush off k hs _ =>
      have := hw (.flush off) (by rw [hs]; rfl)
      cases this
  | send data off k hs _ =>
      have := hw (.send data off) (by rw [hs]; rfl)
      cases this

theorem Ordered.toCalm_idle {r : TlsRun} (h : Ordered r) (hi : r.idle) : Calm r := by
  refine h.toCalm fun f hf => ?_
  rw [TlsRun.idle_head hi f hf]
  rfl

/-- What is left when a frame without a write is taken off. -/
theorem Ordered.pop {r : TlsRun} {f : TlsFrame} {k : List TlsFrame} (h : Ordered r)
    (hs : r.stack = f :: k) (hw : f.writes = false) :
    Calm { r with stack := k } ∧ (f.polls = true → r.c.Open) := by
  have hc := h.toCalm fun g hg => by
    rw [hs] at hg
    cases hg
    exact hw
  exact ⟨hc.pop hs, (hc.frames f (by rw [hs]; exact List.mem_cons_self)).2⟩

theorem Ordered.flush_top {r : TlsRun} {off : Nat} {k : List TlsFrame} (h : Ordered r)
    (hs : r.stack = .flush off :: k) :
    Calm { r with stack := k, c := { r.c with pending := r.c.pending.drop off } } := by
  cases h with
  | calm hc =>
      have := (hc.frames (.flush off) (by rw [hs]; exact List.mem_cons_self)).1
      cases this
  | flush off' k' hs' hc =>
      rw [hs] at hs'
      cases hs'
      exact hc
  | send data off' k' hs' hc =>
      rw [hs] at hs'
      cases hs'

theorem Ordered.send_top {r : TlsRun} {data : List UInt8} {off : Nat} {k : List TlsFrame}
    (h : Ordered r) (hs : r.stack = .send data off :: k) :
    Calm { r with stack := k, sends := r.sends ++ [(.ok, data.take off)] } := by
  cases h with
  | calm hc =>
      have := (hc.frames (.send data off) (by rw [hs]; exact List.mem_cons_self)).1
      cases this
  | flush off' k' hs' hc =>
      rw [hs] at hs'
      cases hs'
  | send data' off' k' hs' hc =>
      rw [hs] at hs'
      cases hs'
      exact hc

theorem Ordered.step {r t : TlsRun} {a : TlsLabel} (h : Ordered r) (he : Errorless r a)
    (ho : InOrder r a) (hs : tlsStep r a = some t) : Ordered t := by
  cases tlsStep_trans hs with
  | connect host plat add hi =>
      obtain ⟨hstack, hsends, hplat, rfl⟩ := he
      exact Ordered.clientConnect (h.toCalm_idle hi) hstack hsends host hplat
  | send data hi => exact Ordered.clientSend (h.toCalm_idle hi) data
  | close alloc hi => exact absurd he id
  | @event fd ev s hstack hsock hatt =>
      have hc := h.toCalm_idle (Or.inl hstack)
      have hreg : r.c.reg = some (s.fd, s.attached) := by rw [TlsClient.reg, hsock]; rfl
      exact .calm (hc.pollerCb ⟨_, hreg, hc.attached _ hreg hatt⟩ s fd he.1 he.2)
  | pollChecked ev k plat hstack hsock =>
      obtain ⟨hc, hopen⟩ := h.pop hstack rfl
      obtain rfl : plat = .ok := he.resolve_right fun hn => by
        rw [hstack] at hn
        cases hn.2
      exact .calm (hc.pollerChecked (hopen rfl) hsock ev)
  | writableChecked k plat hstack =>
      obtain ⟨hc, hopen⟩ := h.pop hstack rfl
      exact .calm (hc.writableChecked (hopen rfl) (he.imp_right fun hn => hn.1))
  | sslStarted k new setFd hstack =>
      obtain ⟨rfl, rfl⟩ := he
      exact .calm (h.pop hstack rfl).1.sslStarted
  | handshakeDone k hstack _ hle =>
      exact .calm ((h.pop hstack rfl).1.handshakeDone hle (he.imp_right fun he => he.1))
  | drainRead k hstack =>
      refine .calm ((h.pop hstack rfl).1.drainRead
        (he.imp_right fun he => ⟨he.1, he.2.resolve_right ?_⟩))
      rw [hstack]
      exact fun hne => hne rfl
  | flushWrite off k hstack =>
      exact Ordered.flushWrite (h.flush_top hstack) (he.imp_right fun he => he.1)
  | sendWrite data off k hstack =>
      have ho := ho (.send data off) (by rw [hstack]; rfl)
      exact Ordered.sendWrite (h.send_top hstack) (he.imp_right fun he => he.1) ho.1 ho.2
  | pollIn serial k hstack =>
      obtain ⟨hc, hopen⟩ := h.pop hstack rfl
      exact .calm (hc.sockOnReadable (hopen rfl))
  | readableReturn k hstack => exact .calm (h.pop hstack rfl).1
  | readableRest k hstack => exact .calm (h.pop hstack rfl).1.readable
  | flushPending k hstack => exact (h.pop hstack rfl).1.flushPending
  | drainPlain k hstack => exact .calm (h.pop hstack rfl).1.drainPlain
  | sendIo data k hstack =>
      have hc := (h.pop hstack rfl).1
      exact .calm (hc.congr rfl rfl (hc.bytes.trans (payloads_refused _ _ (by decide)).symm))
  | callback k hstack => exact .calm (h.pop hstack rfl).1

theorem Ordered.create (ops : TlsOps) (sniHost : Option (List UInt8)) :
    Ordered (tlsClientCreate ops sniHost) := by
  refine .calm ⟨fun p hp ha => ?_, nofun, rfl⟩
  cases hp
  cases ha

/-- In every run without errors, where sends hand bytes to SSL only while nothing
is pending and none of a payload that does not fit, the bytes accepted by SSL and
then the pending ones are the payloads, whenever no write is due. -/
theorem tls_plaintext_order {ops : TlsOps} {sniHost : Option (List UInt8)} {r : TlsRun}
    (h : tlsMachine.Leads (fun r a => Errorless r a ∧ InOrder r a) (tlsClientCreate ops sniHost) r)
    (hw : ∀ f ∈ r.stack.head?, f.writes = false) :
    r.written ++ r.c.pending =
      (r.sends.filter fun c => c.1 = .ok ∨ c.1 = .again).flatMap fun c => c.2 := by
  have ho : Ordered r :=
    h.invariant (fun _ _ _ hi hc hs => hi.step hc.1 hc.2 hs) (Ordered.create ops sniHost)
  exact (ho.toCalm hw).bytes

/-- A connection that is there at once, with a handshake that waits for the peer. -/
def tlsGreeting : List TlsLabel :=
  [.connect (some [104]) ⟨.ok, 3, false⟩ .ok, .sslNew true true, .ssl ⟨-1, .wantRead⟩]

/-- A send before the end of the handshake, which the flush after it takes in two
parts, then a send of which SSL takes a part. -/
def tlsPatientRun : List TlsLabel :=
  tlsGreeting ++
    [.send (some [1, 2]), .event 3 ⟨true, false, false, false⟩, .ssl ⟨1, .other⟩, .go, .go,
      .ssl ⟨1, .other⟩, .ssl ⟨1, .other⟩, .go, .ssl ⟨-1, .wantRead⟩, .send (some [3, 4]),
      .ssl ⟨1, .other⟩, .ssl ⟨-1, .wantWrite⟩]

theorem tls_plaintext_order_flushed :
    ∃ r, tlsMachine.Leads (fun r a => Errorless r a ∧ InOrder r a)
        (tlsClientCreate ⟨true, true, true⟩ none) r ∧
      r.stack = [] ∧ r.written = [1, 2, 3] ∧ r.c.pending = [4] ∧
      r.written ++ r.c.pending =
        (r.sends.filter fun c => c.1 = .ok ∨ c.1 = .again).flatMap fun c => c.2 := by
  have hrun : (tlsMachine.run (tlsClientCreate ⟨true, true, true⟩ none) tlsPatientRun).map
      (fun r => (r.stack, r.written, r.c.pending)) = some ([], [1, 2, 3], [4]) := by
    decide +kernel
  obtain ⟨r, hr, hv⟩ := Option.map_eq_some_iff.mp hrun
  have hl := Machine.leads_of_run (C := fun r a => Errorless r a ∧ InOrder r a)
    tlsPatientRun _ r hr (by decide +kernel)
  simp only [Prod.mk.injEq] at hv
  exact ⟨r, hl, hv.1, hv.2.1, hv.2.2, tls_plaintext_order hl (by rw [hv.1]; exact nofun)⟩

/-- A send before the end of the handshake and one from inside `on_connect`. -/
def tlsOvertakingRun : List TlsLabel :=
  tlsGreeting ++
    [.send (some [1]), .event 3 ⟨true, false, false, false⟩, .ssl ⟨1, .other⟩, .send (some [2]),
      .ssl ⟨1, .other⟩, .go, .go, .ssl ⟨1, .other⟩, .go, .ssl ⟨-1, .wantRead⟩]

/-- The second send overtakes the first. -/
theorem tls_send_overtakes :
    ∃ r, tlsMachine.Leads Errorless (tlsClientCreate ⟨true, true, true⟩ none) r ∧
      r.stack = [] ∧ r.sends = [(.again, [1]), (.ok, [2])] ∧ r.written = [2, 1] ∧
      r.written ++ r.c.pending ≠
        (r.sends.filter fun c => c.1 = .ok ∨ c.1 = .again).flatMap fun c => c.2 := by
  have hrun : (tlsMachine.run (tlsClientCreate ⟨true, true, true⟩ none) tlsOvertakingRun).map
      (fun r => (r.stack, r.sends, r.written, r.c.pending)) =
        some ([], [(.again, [1]), (.ok, [2])], [2, 1], []) := by
    decide +kernel
  obtain ⟨r, hr, hv⟩ := Option.map_eq_some_iff.mp hrun
  simp only [Prod.mk.injEq] at hv
  refine ⟨r, Machine.leads_of_run tlsOvertakingRun _ r hr (by decide +kernel), hv.1, hv.2.1,
    hv.2.2.1, ?_⟩
  rw [hv.2.1, hv.2.2.1, hv.2.2.2]
  decide

end Ztk.Net
