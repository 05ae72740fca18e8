import Ztk.Net.TlsClient

/-!
# Sends of the TLS client

What `ztk_tls_client_send` does with each byte of the payload: handed to `SSL_write`, put
behind the pending bytes, or neither.  The test of the capacity comes after `SSL_write` may
have taken a part, and it adds in the arithmetic of `size_t`, so a sum past `2 ^ 64` passes
it.  `Fits` excludes the two, from the state before the send and the results of `SSL_write`.

All other code only takes bytes away from the front of the pending ones (`Sheds`), so along
a run without such sums they stay within `TLS_SEND_BUF`.
-/

namespace Ztk.Net

open Ztk.Lib

namespace TlsSend

/-! ## The pending bytes -/

/-- The pending bytes after it are what is left of those before. -/
def Sheds (r t : TlsRun) : Prop := t.c.pending <:+ r.c.pending

namespace Sheds

variable {r s t : TlsRun}

theorem refl (r : TlsRun) : Sheds r r := List.suffix_rfl

/-- The bytes are thrown away. -/
theorem reset (ht : t.c.pending = []) : Sheds r t := by
  simp only [Sheds]
  rw [ht]
  exact List.nil_suffix

theorem length_le (h : Sheds r t) : t.c.pending.length ≤ r.c.pending.length :=
  List.IsSuffix.length_le h

theorem fireError (r : TlsRun) : Sheds r (tlsFireError r) := by
  simp only [tlsFireError]
  split
  · exact refl r
  · exact reset rfl

theorem sslError (r : TlsRun) (err : SslErr) : Sheds r (tlsSslError r err).2 := by
  cases err with
  | wantRead => exact refl r
  | wantWrite => exact refl r
  | other => exact fireError r

theorem doHandshake (r : TlsRun) : Sheds r (tlsDoHandshake r) := by
  simp only [tlsDoHandshake]
  split <;> exact refl r

theorem handshakeDone (r : TlsRun) (x : SslRet) : Sheds r (tlsHandshakeDone r x) := by
  simp only [tlsHandshakeDone]
  split
  · exact refl r
  · exact sslError r x.err

theorem drainPlain (r : TlsRun) : Sheds r (tlsDrainPlain r) := by
  simp only [tlsDrainPlain]
  split <;> exact refl r

theorem drainRead (r : TlsRun) (x : SslRet) : Sheds r (tlsDrainRead r x) := by
  simp only [tlsDrainRead]
  split
  · exact refl r
  split
  · exact fireError r
  split
  · exact refl r
  · exact refl r
  · exact fireError r

theorem flushPending (r : TlsRun) : Sheds r (tlsFlushPending r) := by
  simp only [tlsFlushPending]
  split <;> exact refl r

theorem flushWrite (r : TlsRun) (off : Nat) (x : SslRet) : Sheds r (tlsFlushWrite r off x) := by
  rw [tlsFlushWrite]
  split
  · simp only
    split
    · exact refl r
    · exact reset rfl
  · cases x.err with
    | wantRead => exact List.drop_suffix off _
    | wantWrite => exact List.drop_suffix off _
    | other => exact fireError r

theorem sslStarted (r : TlsRun) (new setFd : Bool) : Sheds r (tlsSslStarted r new setFd) := by
  simp only [tlsSslStarted]
  split
  · exact fireError { r with c := { r.c with sslHandle := none } }
  split
  · exact fireError { r with c := { r.c with sslHandle := some ⟨none⟩ } }
  · exact doHandshake (tlsModPoll { r with c := { r.c with
      sslHandle := some _, state := .handshake, readySent := false } } true)

theorem sockOnWritable (r : TlsRun) : Sheds r (tlsSockOnWritable r) := by
  simp only [tlsSockOnWritable]
  split
  · exact refl r
  split
  · split
    · exact fireError r
    split
    · exact fireError r
    split <;> exact refl r
  · split
    · exact refl r
    · exact doHandshake r
    · exact refl r

theorem writableChecked (r : TlsRun) (plat : Err) : Sheds r (tlsWritableChecked r plat) := by
  rw [tlsWritableChecked]
  split
  · exact fireError r
  · next s _ =>
      simp only
      split
      · exact refl r
      split
      · exact fireError { r with c := { r.c with sock := some (s.checkConnect plat).2 } }
      · exact refl r

theorem readable (r : TlsRun) : Sheds r (tlsReadable r) := by
  simp only [tlsReadable]
  split
  · exact refl r
  · exact doHandshake r
  · exact drainPlain r

theorem sockOnReadable (r : TlsRun) : Sheds r (tlsSockOnReadable r) := by
  simp only [tlsSockOnReadable]
  split
  · exact refl r
  split
  · exact sockOnWritable { r with stack := .readableRest :: r.stack }
  · exact readable r

theorem pollerRest (r : TlsRun) (s : Sock) (ev : PollEvents) : Sheds r (tlsPollerRest r s ev) := by
  simp only [tlsPollerRest]
  split
  · exact sockOnWritable { r with stack := _ }
  split
  · exact sockOnReadable r
  · exact refl r

theorem pollerCb (r : TlsRun) (s : Sock) (fd : Int) (ev : PollEvents) :
    Sheds r (tlsPollerCb r s fd ev) := by
  simp only [tlsPollerCb]
  split
  · exact refl r
  split
  · exact fireError r
  split
  · exact refl r
  · exact pollerRest r s ev

theorem pollerChecked (r : TlsRun) (s : Sock) (ev : PollEvents) (plat : Err) :
    Sheds r (tlsPollerChecked r s ev plat) := by
  simp only [tlsPollerChecked]
  split
  · exact pollerRest { r with c := { r.c with sock := _ } } _ ev
  · exact fireError { r with c := { r.c with sock := _ } }

theorem clientConnect (r : TlsRun) (host : Option (List UInt8)) (plat : PlatConnect) (add : Err) :
    Sheds r (tlsClientConnect r host plat add) := by
  rcases tlsClientConnect_cases r host plat add with heq | ⟨sock, start, name, -, -, heq⟩
  · rw [heq]
    exact refl r
  · rw [heq]
    split <;> exact reset rfl

theorem clientClose (r : TlsRun) (alloc : Bool) : Sheds r (tlsClientClose r alloc) := by
  simp only [tlsClientClose]
  split
  · exact refl r
  · exact reset rfl

end Sheds

/-! ## The capacity -/

/-- The sum that is tested wraps around, and looks as if the bytes would fit. -/
def Wraps (c : TlsClient) (n : Nat) : Prop :=
  tlsSendBuf < c.pending.length + n ∧ ¬ c.overflows n

instance (c : TlsClient) (n : Nat) : Decidable (Wraps c n) := inferInstanceAs (Decidable (_ ∧ _))

/-- No bytes that are put behind the pending ones wrap around. -/
def AnswerNoWrap (c : TlsClient) (x : SslRet) : TlsFrame → Prop
  | .send data off => x.ret ≤ 0 → x.err ≠ .other → ¬ Wraps c (data.length - off)
  | _ => True

def NoWrap (r : TlsRun) : TlsLabel → Prop
  | .send (some data) =>
      r.c.closing = false → (r.c.state ≠ .ready ∨ r.c.sslHandle = none) → ¬ Wraps r.c data.length
  | .ssl x => ∀ f ∈ r.stack.head?, AnswerNoWrap r.c x f
  | _ => True

instance (c : TlsClient) (x : SslRet) (f : TlsFrame) : Decidable (AnswerNoWrap c x f) :=
  match f with
  | .send _ _ => inferInstanceAs (Decidable (_ → _))
  | .pollCheck _ | .pollIn _ | .checkWritable | .readableRest | .startSsl | .handshake
  | .flushPending | .flush _ | .drainPlain | .read | .sendIo _ | .callback => isTrue trivial

instance (r : TlsRun) (a : TlsLabel) : Decidable (NoWrap r a) :=
  match a with
  | .send (some _) => inferInstanceAs (Decidable (_ → _))
  | .ssl x => inferInstanceAs (Decidable (∀ f ∈ r.stack.head?, AnswerNoWrap r.c x f))
  | .send none | .connect _ _ _ | .close _ | .event _ _ | .checkConnect _ | .sslNew _ _ | .go =>
      isTrue trivial

/-- The pending bytes are within the buffer. -/
def Room (r : TlsRun) : Prop := r.c.pending.length ≤ tlsSendBuf

namespace Room

variable {r t : TlsRun}

theorem sheds (h : Room r) (hs : Sheds r t) : Room t := Nat.le_trans hs.length_le h

theorem append (c : TlsClient) {n : Nat} (hw : ¬ Wraps c n) (ho : ¬ c.overflows n) :
    c.pending.length + n ≤ tlsSendBuf := by
  by_contra hlt
  exact hw ⟨Nat.not_le.mp hlt, ho⟩

theorem clientSend (h : Room r) {data : Option (List UInt8)} (hw : NoWrap r (.send data)) :
    Room (tlsClientSend r data) := by
  cases data with
  | none => exact h
  | some data =>
      simp only [tlsClientSend]
      split
      · exact h
      · next hc =>
          split
          · next hn =>
              split
              · exact h
              · next ho =>
                  have hclos : r.c.closing = false := by
                    rw [not_or, Bool.not_eq_true] at hc
                    exact hc.1
                  have hle := append r.c (hw hclos hn) ho
                  show (r.c.pending ++ data).length ≤ tlsSendBuf
                  rwa [List.length_append]
          · exact h

theorem sendWrite (h : Room r) {data : List UInt8} {off : Nat} {x : SslRet}
    (hw : AnswerNoWrap r.c x (.send data off)) : Room (tlsSendWrite r data off x) := by
  rcases Int.lt_or_le 0 x.ret with hx | hx
  · rw [tlsSendWrite, if_pos hx]
    simp only
    split <;> exact h
  by_cases he : x.err = .other
  · rw [tlsSendWrite_fail r data off hx he]
    exact h.sheds (.fireError { r with stack := .sendIo data :: r.stack })
  · rw [tlsSendWrite_wait r data off hx he]
    simp only
    split
    · exact h
    · next ho =>
        have hle := append r.c (hw hx he) ho
        show (r.c.pending ++ data.drop off).length ≤ tlsSendBuf
        rwa [List.length_append, List.length_drop]

theorem step {a : TlsLabel} (h : Room r) (hw : NoWrap r a) (hs : tlsStep r a = some t) : Room t := by
  cases tlsStep_trans hs with
  | connect host plat add => exact h.sheds (.clientConnect r host plat add)
  | send data => exact h.clientSend hw
  | close alloc => exact h.sheds (.clientClose r alloc)
  | event fd ev => exact h.sheds (.pollerCb r _ fd ev)
  | pollChecked ev k plat => exact h.sheds (.pollerChecked { r with stack := k } _ ev plat)
  | writableChecked k plat => exact h.sheds (.writableChecked { r with stack := k } plat)
  | sslStarted k new setFd => exact h.sheds (.sslStarted { r with stack := k } new setFd)
  | @handshakeDone k x => exact h.sheds (.handshakeDone { r with stack := k } x)
  | @drainRead k x => exact h.sheds (.drainRead { r with stack := k } x)
  | @flushWrite off k x => exact h.sheds (.flushWrite { r with stack := k } off x)
  | sendWrite data off k hstack =>
      exact sendWrite (r := { r with stack := k }) h (hw _ (by rw [hstack]; rfl))
  | pollIn serial k => exact h.sheds (.sockOnReadable { r with stack := k })
  | readableReturn k => exact h
  | readableRest k => exact h.sheds (.readable { r with stack := k })
  | flushPending k => exact h.sheds (.flushPending { r with stack := k })
  | drainPlain k => exact h.sheds (.drainPlain { r with stack := k })
  | sendIo data k => exact h
  | callback k => exact h

end Room

theorem room_of_leads {ops : TlsOps} {sniHost : Option (List UInt8)} {r : TlsRun}
    (h : tlsMachine.Leads NoWrap (tlsClientCreate ops sniHost) r) : Room r :=
  h.invariant (I := Room) (fun _ _ _ hr hw hs => hr.step hw hs) (Nat.zero_le _)

/-! ## One send -/

/-- The bytes that `SSL_write` took. -/
def taken (xs : List SslRet) : Nat := (xs.map fun x => x.ret.toNat).sum

/-- An `SSL_write` failed. -/
def Fatal (xs : List SslRet) : Prop := ∃ x ∈ xs, x.ret ≤ 0 ∧ x.err = .other

instance (xs : List SslRet) : Decidable (Fatal xs) :=
  inferInstanceAs (Decidable (∃ x ∈ xs, x.ret ≤ 0 ∧ x.err = .other))

/-- A send of `data` has returned `err` in `t`, with the bytes that it wrote and those that are
pending then. -/
structure Ended (u t : TlsRun) (k : List TlsFrame) (err : Err) (data bytes pending : List UInt8) :
    Prop where
  stack : t.stack = k
  sends : t.sends = u.sends ++ [(err, data)]
  written : t.written = u.written ++ bytes
  pending : t.c.pending = pending
  closing : t.c.closing = u.c.closing

/-- Where the loop of a send is, from `off` in `u`, when SSL has answered `xs`. -/
inductive Loops (u : TlsRun) (data : List UInt8) (off : Nat) (k : List TlsFrame)
    (xs : List SslRet) (t : TlsRun) : Prop where
  | due : t.stack = .send data (off + taken xs) :: k → Loops u data off k xs t
  | done : off + taken xs = data.length →
      Ended u t k .ok data (data.drop off) u.c.pending → Loops u data off k xs t
  | again : off + taken xs < data.length → ¬ Fatal xs →
      ¬ u.c.overflows (data.length - (off + taken xs)) →
      Ended u t k .again data ((data.drop off).take (taken xs))
        (u.c.pending ++ data.drop (off + taken xs)) → Loops u data off k xs t
  | small : off + taken xs < data.length → ¬ Fatal xs →
      u.c.overflows (data.length - (off + taken xs)) →
      Ended u t k .bufferTooSmall data ((data.drop off).take (taken xs)) u.c.pending →
      Loops u data off k xs t
  | fatal : Fatal xs → t.stack = callback u.c.ops.onError ++ .sendIo data :: k →
      t.c.closing = true → t.c.pending = [] → Loops u data off k xs t

theorem toInt32_le (n : Nat) : toInt32 n ≤ n := by
  simp only [toInt32]
  rw [BitVec.toInt_eq_toNat_cond, BitVec.toNat_ofNat]
  have := Nat.mod_le n (2 ^ 32)
  split <;> omega

theorem toInt32_of_lt {n : Nat} (h : n < 2 ^ 31) : toInt32 n = n := by
  simp only [toInt32]
  rw [BitVec.toInt_eq_toNat_cond, BitVec.toNat_ofNat, Nat.mod_eq_of_lt (by omega),
    if_pos (by omega)]

/-- SSL is not asked again. -/
theorem run_ssl_nil {u t : TlsRun} (hf : ∀ f ∈ u.stack.head?, f.calls = false) {xs : List SslRet}
    (h : tlsMachine.run u (xs.map .ssl) = some t) : xs = [] ∧ t = u := by
  cases xs with
  | nil => exact ⟨rfl, (Option.some.inj h).symm⟩
  | cons x xs =>
      rw [List.map_cons, Machine.run, Option.bind_eq_some_iff] at h
      obtain ⟨v, hv, -⟩ := h
      obtain ⟨f, k, hs, hcall, -⟩ := tlsStep_ssl hv
      have hn := hf f (by rw [hs]; rfl)
      rw [hcall] at hn
      cases hn

section Loop

variable {u v t : TlsRun} {data : List UInt8} {off : Nat} {k : List TlsFrame} {x : SslRet}
  {xs : List SslRet}

theorem Ended.before {err : Err} {bytes bytes' pending : List UInt8}
    (h : Ended v t k err data bytes pending) (hwritten : v.written ++ bytes = u.written ++ bytes')
    (hsends : v.sends = u.sends) (hc : v.c = u.c) : Ended u t k err data bytes' pending where
  stack := h.stack
  sends := hsends ▸ h.sends
  written := h.written.trans hwritten
  pending := h.pending
  closing := hc ▸ h.closing

/-- A part more is taken. -/
theorem Loops.cons (hpos : 0 < x.ret)
    (hwritten : v.written = u.written ++ (data.drop off).take x.ret.toNat) (hsends : v.sends = u.sends)
    (hc : v.c = u.c) (h : Loops v data (off + x.ret.toNat) k xs t) :
    Loops u data off k (x :: xs) t := by
  have htaken : taken (x :: xs) = x.ret.toNat + taken xs := rfl
  have hoff : off + x.ret.toNat + taken xs = off + taken (x :: xs) := by rw [htaken, Nat.add_assoc]
  have hfatal : Fatal (x :: xs) ↔ Fatal xs := by
    simp only [Fatal]
    rw [List.exists_mem_cons_iff]
    exact or_iff_right fun hx => absurd hx.1 (Int.not_le.mpr hpos)
  have hpart : v.written ++ (data.drop (off + x.ret.toNat)).take (taken xs) =
      u.written ++ (data.drop off).take (taken (x :: xs)) := by
    rw [hwritten, htaken, List.take_add, List.drop_drop, List.append_assoc]
  have hall : v.written ++ data.drop (off + x.ret.toNat) = u.written ++ data.drop off := by
    rw [hwritten, ← List.drop_drop, List.append_assoc, List.take_append_drop]
  cases h with
  | due hstack => exact .due (hoff ▸ hstack)
  | done hlen he => exact .done (hoff ▸ hlen) (hc ▸ he.before hall hsends hc)
  | again hlen hn ho he =>
      exact .again (hoff ▸ hlen) (hfatal.not.mpr hn) (hoff ▸ hc ▸ ho)
        (hoff ▸ hc ▸ he.before hpart hsends hc)
  | small hlen hn ho he =>
      exact .small (hoff ▸ hlen) (hfatal.not.mpr hn) (hoff ▸ hc ▸ ho)
        (hc ▸ he.before hpart hsends hc)
  | fatal hf hstack hclos hpend => exact .fatal (hfatal.mpr hf) (hc ▸ hstack) hclos hpend

theorem not_fatal_singleton (he : x.err ≠ .other) : ¬ Fatal [x] := by
  rintro ⟨y, hy, -, hother⟩
  exact he (List.mem_singleton.mp hy ▸ hother)

theorem callback_calls (set : Bool) (data : List UInt8) :
    ∀ f ∈ (callback set ++ TlsFrame.sendIo data :: k).head?, f.calls = false := by
  cases set <;> simp [callback, TlsFrame.calls]

/-- The answer that ends a send. -/
theorem loops_last (hx : x.ret ≤ 0) (hoff : off < data.length) (hclos : u.c.closing = false)
    (hk : ∀ f ∈ k.head?, f.calls = false) :
    Loops u data off k [x] (tlsSendWrite { u with stack := k } data off x) ∧
      ∀ f ∈ (tlsSendWrite { u with stack := k } data off x).stack.head?, f.calls = false := by
  have htaken : off + taken [x] = off := by
    simp [taken, Int.toNat_of_nonpos hx]
  have hnone : (data.drop off).take (taken [x]) = [] := by
    simp [taken, Int.toNat_of_nonpos hx]
  by_cases he : x.err = .other
  · rw [tlsSendWrite_fail _ data off hx he]
    simp only [tlsFireError, hclos, Bool.false_eq_true, if_false]
    exact ⟨.fatal ⟨x, List.mem_singleton_self x, hx, he⟩ rfl rfl rfl, callback_calls _ data⟩
  · rw [tlsSendWrite_wait _ data off hx he]
    simp only
    by_cases ho : u.c.overflows (data.length - off)
    · rw [if_pos ho]
      refine ⟨.small (by rwa [htaken]) (not_fatal_singleton he) (by rwa [htaken]) ?_, hk⟩
      rw [hnone]
      exact ⟨rfl, rfl, (List.append_nil _).symm, rfl, rfl⟩
    · rw [if_neg ho]
      refine ⟨.again (by rwa [htaken]) (not_fatal_singleton he) (by rwa [htaken]) ?_, hk⟩
      rw [hnone, htaken]
      exact ⟨rfl, rfl, (List.append_nil _).symm, rfl, rfl⟩

theorem send_answer (hs : u.stack = .send data off :: k)
    (hv : tlsMachine.step u (.ssl x) = some v) :
    tlsSendWrite { u with stack := k } data off x = v ∧ x.ret ≤ (data.length - off : Nat) := by
  have hv : tlsStep u (.ssl x) = some v := hv
  simp only [tlsStep, hs] at hv
  obtain ⟨-, hv⟩ := Option.ite_none_left_eq_some.mp hv
  obtain ⟨hle, hv⟩ := Option.ite_none_right_eq_some.mp hv
  exact ⟨Option.some.inj hv, Int.le_trans hle (toInt32_le _)⟩

end Loop

/-- A send that is due, whatever SSL answers. -/
theorem loops {data : List UInt8} {k : List TlsFrame} (hk : ∀ f ∈ k.head?, f.calls = false)
    {t : TlsRun} : ∀ (xs : List SslRet) (u : TlsRun) (off : Nat), u.stack = .send data off :: k →
      off < data.length → u.c.closing = false → tlsMachine.run u (xs.map .ssl) = some t →
      Loops u data off k xs t
  | [], u, off, hs, hoff, hclos, hr => by
      cases hr
      exact .due hs
  | x :: xs, u, off, hs, hoff, hclos, hr => by
      rw [List.map_cons, Machine.run, Option.bind_eq_some_iff] at hr
      obtain ⟨v, hv, hr⟩ := hr
      obtain ⟨hv, hle⟩ := send_answer hs hv
      rcases Int.lt_or_le 0 x.ret with hx | hx
      case inr =>
        obtain ⟨hlast, hstop⟩ := loops_last hx hoff hclos hk
        rw [hv] at hlast hstop
        obtain ⟨rfl, rfl⟩ := run_ssl_nil hstop hr
        exact hlast
      rw [tlsSendWrite, if_pos hx] at hv
      by_cases hlt : off + x.ret.toNat < data.length
      · simp only [hlt, if_true] at hv
        have hs' : v.stack = .send data (off + x.ret.toNat) :: k := hv ▸ rfl
        have hc : v.c = u.c := hv ▸ rfl
        have hloops := loops hk xs v _ hs' hlt (hc ▸ hclos) hr
        exact .cons hx (hv ▸ rfl) (hv ▸ rfl) hc hloops
      · simp only [hlt, if_false] at hv
        subst hv
        obtain ⟨rfl, rfl⟩ := run_ssl_nil hk hr
        have hend : off + taken [x] = data.length := by
          simp only [taken, List.map_cons, List.map_nil, List.sum_cons, List.sum_nil]
          omega
        refine .done hend ⟨rfl, rfl, ?_, rfl, rfl⟩
        have hm : x.ret.toNat = (data.drop off).length := by
          rw [List.length_drop]
          omega
        show u.written ++ (data.drop off).take x.ret.toNat = u.written ++ data.drop off
        rw [hm, List.take_length]

/-! ## Where the bytes are -/

/-- The send that was called in `r` has returned `err` in `t`, or is about to, after the callback
of the error that closed the client. -/
def Returns (r t : TlsRun) (data : List UInt8) (err : Err) : Prop :=
  t.stack = r.stack ∧ t.sends = r.sends ++ [(err, data)] ∨
    err = .io ∧ t.stack = callback r.c.ops.onError ++ .sendIo data :: r.stack

/-- Every byte of the payload is accounted for by the result. -/
def Accounts (r t : TlsRun) (data : List UInt8) (err : Err) : Prop :=
  t.c.pending.length ≤ tlsSendBuf ∧
    match err with
    | .ok => t.written = r.written ++ data ∧ t.c.pending = r.c.pending
    | .again => ∃ n, t.written = r.written ++ data.take n ∧ t.c.pending = r.c.pending ++ data.drop n
    | _ =>
        -- the client was closed by a fatal error, or nothing happened to the payload
        r.c.closing = false ∧ t.c.closing = true ∨
          t.written = r.written ∧ t.c.pending = r.c.pending

/-- What `SSL_write` does not take fits behind the pending bytes; or it takes nothing, and the
test of the capacity says that the payload does not fit. -/
def Fits (c : TlsClient) (data : List UInt8) (xs : List SslRet) : Prop :=
  c.closing = false → ¬ Fatal xs → taken xs < data.length →
    c.pending.length + (data.length - taken xs) ≤ tlsSendBuf ∨
      taken xs = 0 ∧ c.overflows data.length

section Results

variable {r t : TlsRun} {data : List UInt8} {err : Err} {xs : List SslRet}

theorem callback_append_ne (set : Bool) {f : TlsFrame} {k : List TlsFrame} :
    callback set ++ f :: k ≠ k := by
  intro h
  have hlen := congrArg List.length h
  rw [List.length_append, List.length_cons] at hlen
  omega

theorem Returns.eq_of_ended {e : Err} {bytes pending : List UInt8}
    (hret : Returns r t data err) (he : Ended r t r.stack e data bytes pending) : err = e := by
  rcases hret with ⟨-, hs⟩ | ⟨-, hs⟩
  · rw [he.sends, List.append_cancel_left_eq, List.singleton_inj] at hs
    exact (congrArg Prod.fst hs).symm
  · exact absurd (hs.symm.trans he.stack) (callback_append_ne _)

theorem not_overflows {c : TlsClient} {n : Nat} (h : c.pending.length + n ≤ tlsSendBuf) :
    ¬ c.overflows n := by
  simp only [TlsClient.overflows]
  have := Nat.mod_le (c.pending.length + n) (2 ^ 64)
  omega

theorem accounts_again (hf : ¬ Fatal xs) (hclos : r.c.closing = false)
    (hlt : taken xs < data.length) (ho : ¬ r.c.overflows (data.length - taken xs))
    (he : Ended r t r.stack .again data (data.take (taken xs))
      (r.c.pending ++ data.drop (taken xs))) :
    Accounts r t data .again ↔ Fits r.c data xs := by
  have hlen : t.c.pending.length = r.c.pending.length + (data.length - taken xs) := by
    rw [he.pending, List.length_append, List.length_drop]
  rw [Accounts, hlen]
  constructor
  · exact fun ha _ _ _ => Or.inl ha.1
  · intro hfit
    refine ⟨(hfit hclos hf hlt).resolve_right fun hn => ho ?_, taken xs, he.written, he.pending⟩
    rw [hn.1, Nat.sub_zero]
    exact hn.2

theorem accounts_small (hroom : Room r) (hf : ¬ Fatal xs) (hclos : r.c.closing = false)
    (hlt : taken xs < data.length) (ho : r.c.overflows (data.length - taken xs))
    (he : Ended r t r.stack .bufferTooSmall data (data.take (taken xs)) r.c.pending) :
    Accounts r t data .bufferTooSmall ↔ Fits r.c data xs := by
  have hroom : t.c.pending.length ≤ tlsSendBuf := by
    rw [he.pending]
    exact hroom
  constructor
  · rintro ⟨-, hsame⟩ _ _ _
    right
    rcases hsame with ⟨-, hc⟩ | ⟨hw, -⟩
    · rw [he.closing, hclos] at hc
      cases hc
    · have hnil : data.take (taken xs) = [] := by
        rw [he.written] at hw
        exact List.append_right_eq_self.mp hw
      have hzero : taken xs = 0 := by
        have hlen := congrArg List.length hnil
        rw [List.length_take, List.length_nil] at hlen
        omega
      rw [hzero, Nat.sub_zero] at ho
      exact ⟨hzero, ho⟩
  · intro hfit
    refine ⟨hroom, Or.inr ⟨?_, he.pending⟩⟩
    have hzero := ((hfit hclos hf hlt).resolve_left fun hle => not_overflows hle ho).1
    rw [he.written, hzero, List.take_zero, List.append_nil]

/-- A send whose loop SSL has answered. -/
theorem accounts_loops (hroom : Room r) (hclos : r.c.closing = false) {s : List TlsFrame}
    (h : Loops { r with stack := s } data 0 r.stack xs t) (hret : Returns r t data err) :
    Accounts r t data err ↔ Fits r.c data xs := by
  cases h with
  | due hs =>
      rcases hret with ⟨hs', -⟩ | ⟨-, hs'⟩
      · have hlen := congrArg List.length (hs.symm.trans hs')
        rw [List.length_cons] at hlen
        omega
      · rw [hs] at hs'
        generalize r.c.ops.onError = set at hs'
        cases set <;> cases hs'
  | done hlen he =>
      rw [Nat.zero_add] at hlen
      rw [hret.eq_of_ended { he with }]
      refine iff_of_true ⟨?_, he.written, he.pending⟩ fun _ _ hlt => absurd hlt (by omega)
      rw [he.pending]
      exact hroom
  | again hlt hf ho he =>
      rw [Nat.zero_add] at hlt ho he
      rw [hret.eq_of_ended { he with }]
      exact accounts_again hf hclos hlt ho { he with }
  | small hlt hf ho he =>
      rw [Nat.zero_add] at hlt ho
      rw [hret.eq_of_ended { he with }]
      exact accounts_small hroom hf hclos hlt ho { he with }
  | fatal hf hs hc hpend =>
      have hio : err = .io := by
        rcases hret with ⟨hs', -⟩ | ⟨hio, -⟩
        · exact absurd (hs.symm.trans hs') (callback_append_ne _)
        · exact hio
      rw [hio]
      refine iff_of_true ⟨?_, Or.inl ⟨hclos, hc⟩⟩ fun _ hn => absurd hf hn
      rw [hpend]
      exact Nat.zero_le _

/-- A send that returns at once, with the client as `c`. -/
theorem ended_at_once (hidle : ∀ f ∈ r.stack.head?, f.calls = false) {c : TlsClient} {e : Err}
    (hc : c.closing = r.c.closing)
    (hr : tlsMachine.run { r with c := c, sends := r.sends ++ [(e, data)] } (xs.map .ssl) = some t) :
    xs = [] ∧ Ended r t r.stack e data [] c.pending := by
  obtain ⟨hxs, rfl⟩ :=
    run_ssl_nil (u := { r with c := c, sends := r.sends ++ [(e, data)] }) hidle hr
  exact ⟨hxs, rfl, rfl, (List.append_nil _).symm, rfl, hc⟩

/-- A send on an idle client, by the branches of `ztk_tls_client_send`. -/
theorem accounts_clientSend (hroom : Room r) (hidle : ∀ f ∈ r.stack.head?, f.calls = false)
    (hr : tlsMachine.run (tlsClientSend r (some data)) (xs.map .ssl) = some t)
    (hret : Returns r t data err) : Accounts r t data err ↔ Fits r.c data xs := by
  simp only [tlsClientSend] at hr
  by_cases hbad : r.c.closing ∨ data = []
  · rw [if_pos hbad] at hr
    obtain ⟨rfl, he⟩ := ended_at_once hidle rfl hr
    rw [hret.eq_of_ended he]
    refine iff_of_true ⟨?_, Or.inr ⟨he.written.trans (List.append_nil _), he.pending⟩⟩ ?_
    · rw [he.pending]
      exact hroom
    · intro hclos _ hlt
      rcases hbad with hc | rfl
      · rw [hc] at hclos
        cases hclos
      · exact absurd hlt (Nat.not_lt_zero _)
  rw [if_neg hbad] at hr
  rw [not_or, Bool.not_eq_true] at hbad
  obtain ⟨hclos, hdata⟩ := hbad
  have hlt : taken [] < data.length := List.length_pos_iff.mpr hdata
  have hnf : ¬ Fatal [] := by
    rintro ⟨x, hx, -⟩
    cases hx
  by_cases hn : r.c.state ≠ .ready ∨ r.c.sslHandle = none
  case neg =>
    rw [if_neg hn] at hr
    exact accounts_loops hroom hclos (loops hidle xs _ 0 rfl hlt hclos hr) hret
  rw [if_pos hn] at hr
  by_cases ho : r.c.overflows data.length
  · rw [if_pos ho] at hr
    obtain ⟨rfl, he⟩ := ended_at_once hidle rfl hr
    rw [hret.eq_of_ended he]
    exact accounts_small hroom hnf hclos hlt ho he
  · rw [if_neg ho] at hr
    obtain ⟨rfl, he⟩ := ended_at_once (c := { r.c with pending := r.c.pending ++ data }) hidle rfl hr
    rw [hret.eq_of_ended he]
    exact accounts_again hnf hclos hlt ho he

end Results

theorem tlsClientSend_getD (r : TlsRun) (data : Option (List UInt8)) :
    tlsClientSend r data = tlsClientSend r (some (data.getD [])) := by
  cases data with
  | none => simp [tlsClientSend]
  | some data => rfl

/-- In every run without a sum that wraps around, the next send accounts for every byte of its
payload exactly when the payload fits. -/
theorem tls_send_accounts_iff {ops : TlsOps} {sniHost : Option (List UInt8)} {r t : TlsRun}
    (h : tlsMachine.Leads NoWrap (tlsClientCreate ops sniHost) r) {data : Option (List UInt8)}
    {xs : List SslRet} (hr : tlsMachine.run r (.send data :: xs.map .ssl) = some t) {err : Err}
    (hret : Returns r t (data.getD []) err) :
    Accounts r t (data.getD []) err ↔ Fits r.c (data.getD []) xs := by
  rw [Machine.run, Option.bind_eq_some_iff] at hr
  obtain ⟨v, hv, hr⟩ := hr
  have hv : tlsStep r (.send data) = some v := hv
  obtain ⟨⟨hi, -⟩, hv⟩ := Option.ite_none_right_eq_some.mp hv
  rw [Option.some.injEq, tlsClientSend_getD] at hv
  subst hv
  refine accounts_clientSend (room_of_leads h) (fun f hf => ?_) hr hret
  rw [TlsRun.idle_head hi f hf]
  rfl

/-- A client that connects at once and is ready. -/
def readyRun : List TlsLabel :=
  [.connect (some [104]) ⟨.ok, 3, false⟩ .ok, .sslNew true true, .ssl ⟨1, .other⟩, .go, .go, .go,
    .ssl ⟨-1, .wantRead⟩]

/-- A client between events, with nothing pending. -/
structure Clear (r : TlsRun) : Prop where
  stack : r.stack = []
  state : r.c.state = .ready
  handle : r.c.sslHandle ≠ none
  closing : r.c.closing = false
  pending : r.c.pending = []

theorem exists_clear : ∃ r, tlsMachine.Leads NoWrap (tlsClientCreate ⟨true, true, true⟩ none) r ∧
    Clear r := by
  have hrun : (tlsMachine.run (tlsClientCreate ⟨true, true, true⟩ none) readyRun).map
      (fun r => decide (r.stack = [] ∧ r.c.state = .ready ∧ r.c.sslHandle ≠ none ∧
        r.c.closing = false ∧ r.c.pending = [])) = some true := by
    decide +kernel
  obtain ⟨r, hr, hstack, hstate, hhandle, hclosing, hpending⟩ := Machine.exists_run hrun
  exact ⟨r, Machine.leads_of_run (C := NoWrap) readyRun _ r hr (by decide +kernel),
    hstack, hstate, hhandle, hclosing, hpending⟩

/-- One byte is taken, and then SSL waits. -/
def oneByte : List SslRet := [⟨1, .other⟩, ⟨-1, .wantWrite⟩]

theorem Clear.run {r : TlsRun} (h : Clear r) (data : List UInt8) (h1 : 1 < data.length)
    (hlen : data.length < 2 ^ 31) :
    ∃ t, tlsMachine.run r (.send (some data) :: oneByte.map .ssl) = some t ∧ t.stack = [] ∧
      t.written = r.written ++ data.take 1 ∧ t.c.closing = false ∧
      if r.c.overflows (data.length - 1) then
        t.c.pending = [] ∧ t.sends = r.sends ++ [(.bufferTooSmall, data)]
      else t.c.pending = data.drop 1 ∧ t.sends = r.sends ++ [(.again, data)] := by
  have hdata : data ≠ [] := by
    rintro rfl
    simp at h1
  have hsend : tlsMachine.step r (.send (some data)) = some { r with stack := [.send data 0] } := by
    show tlsStep r (.send (some data)) = _
    have hl : data.length < 18446744073709551616 := by omega
    simp [tlsStep, TlsRun.idle, h.stack, hl, tlsClientSend, h.closing, hdata, h.state, h.handle]
  have hpart : tlsMachine.step { r with stack := [.send data 0] } (.ssl ⟨1, .other⟩) =
      some { r with written := r.written ++ data.take 1, stack := [.send data 1] } := by
    show tlsStep { r with stack := [.send data 0] } (.ssl ⟨1, .other⟩) = _
    have hle : (1 : Int) ≤ data.length := by omega
    simp [tlsStep, h.handle, tlsAnswer, toInt32_of_lt hlen, hle, tlsSendWrite, h1]
  have hwait : ∃ t, tlsMachine.step
      { r with written := r.written ++ data.take 1, stack := [.send data 1] }
      (.ssl ⟨-1, .wantWrite⟩) = some t ∧ t.stack = [] ∧ t.written = r.written ++ data.take 1 ∧
      t.c.closing = false ∧
      if r.c.overflows (data.length - 1) then
        t.c.pending = [] ∧ t.sends = r.sends ++ [(.bufferTooSmall, data)]
      else t.c.pending = data.drop 1 ∧ t.sends = r.sends ++ [(.again, data)] := by
    refine ⟨tlsSendWrite { r with written := r.written ++ data.take 1, stack := [] } data 1
      ⟨-1, .wantWrite⟩, ?_, ?_⟩
    · show tlsStep { r with written := r.written ++ data.take 1, stack := [.send data 1] }
        (.ssl ⟨-1, .wantWrite⟩) = _
      have hle : (-1 : Int) ≤ toInt32 (data.length - 1) := by
        rw [toInt32_of_lt (by omega)]
        omega
      simp [tlsStep, h.handle, tlsAnswer, hle]
    · rw [tlsSendWrite_wait _ data 1 (by decide) SslErr.noConfusion]
      by_cases ho : r.c.overflows (data.length - 1)
      · simp only [ho, if_true]
        exact ⟨rfl, rfl, h.closing, h.pending, rfl⟩
      · simp only [ho, if_false]
        exact ⟨rfl, rfl, h.closing, by rw [TlsRun.sent, h.pending]; rfl, rfl⟩
  obtain ⟨t, ht, hrest⟩ := hwait
  refine ⟨t, ?_, hrest⟩
  simp only [oneByte, List.map_cons, List.map_nil, Machine.run, hsend, hpart, ht, Option.bind_some]

theorem tls_send_accounts_two :
    ∃ r t, tlsMachine.Leads NoWrap (tlsClientCreate ⟨true, true, true⟩ none) r ∧
      tlsMachine.run r (.send (some [1, 2]) :: oneByte.map .ssl) = some t ∧ t.c.pending = [2] ∧
      Accounts r t [1, 2] .again := by
  obtain ⟨r, hl, hr⟩ := exists_clear
  have ho : ¬ r.c.overflows (([1, 2] : List UInt8).length - 1) :=
    not_overflows (by rw [hr.pending]; decide)
  obtain ⟨t, ht, hstack, -, -, hend⟩ := hr.run [1, 2] (by decide) (by decide)
  rw [if_neg ho] at hend
  refine ⟨r, t, hl, ht, hend.1, ?_⟩
  refine (tls_send_accounts_iff hl ht (Or.inl ⟨hstack.trans hr.stack.symm, hend.2⟩)).mpr ?_
  intro _ _ _
  rw [hr.pending]
  exact Or.inl (by decide)

/-- The first of 65538 bytes is sent, and the caller is told that there is no room for them. -/
theorem tls_send_accounts_fails :
    ∃ r t, tlsMachine.Leads NoWrap (tlsClientCreate ⟨true, true, true⟩ none) r ∧
      tlsMachine.run r (.send (some (List.replicate 65538 0)) :: oneByte.map .ssl) = some t ∧
      Returns r t (List.replicate 65538 0) .bufferTooSmall ∧ t.written = r.written ++ [0] ∧
      ¬ Accounts r t (List.replicate 65538 0) .bufferTooSmall := by
  obtain ⟨r, hl, hr⟩ := exists_clear
  have hlen : (List.replicate 65538 (0 : UInt8)).length = 65538 := List.length_replicate
  generalize hdata : List.replicate 65538 (0 : UInt8) = data at hlen ⊢
  have ho : r.c.overflows (data.length - 1) := by
    simp only [TlsClient.overflows]
    rw [hr.pending, hlen]
    decide
  obtain ⟨t, ht, hstack, hwritten, hclosing, hend⟩ := hr.run data (by omega) (by omega)
  rw [if_pos ho] at hend
  have htake : data.take 1 = [0] := by
    rw [← hdata, List.take_replicate]
    rfl
  rw [htake] at hwritten
  refine ⟨r, t, hl, ht, Or.inl ⟨hstack.trans hr.stack.symm, hend.2⟩, hwritten, ?_⟩
  rintro ⟨-, ⟨-, hc⟩ | ⟨hw, -⟩⟩
  · rw [hclosing] at hc
    cases hc
  · rw [hwritten] at hw
    exact absurd (List.append_right_eq_self.mp hw) (by decide)

end TlsSend

end Ztk.Net
