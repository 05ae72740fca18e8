import Ztk.Net.SessionStream

/-!
# What the send calls do

`ztk_tcp_session_send`, `ztk_tcp_session_sendv` and `ztk_tcp_session_send_buf`
share their shape: behind other bytes the payload is queued, otherwise the
socket takes a first part of it and the rest is queued.  Each has an outcome,
the code it returns and the bytes by which it extends the stream, that depends
on the state before the call, on what the platform returns and on which
allocations succeed (`sendOutcome`, `sendvOutcome`, `sendBufOutcome`).

A call is all-or-nothing when it returns `ZTK_OK` and its outcome is its
payload, or another code and nothing.  Three things break this: the platform
takes no byte and its 0 is returned as `ZTK_OK`, memory runs out for the rest of
a payload that the socket has begun to take, or memory runs out between parts.
-/

namespace Ztk.Net

open Ztk.Lib Ztk.Util

variable (env : NetEnv)

/-! ## Outcomes -/

/-- What a call does: the code it returns, and the bytes that enter the stream. -/
structure Outcome (held : Nat → Nat) (s : Session) (r : Err × Session) (o : Err × List UInt8) :
    Prop where
  code : r.1 = o.1
  inv : OutInv held r.2
  stream : r.2.stream = s.stream ++ o.2
  closing : r.2.closing = s.closing
  frame : Keeps held s.bufs r.2.bufs
  pending : o.1 ≠ .ok → o.2 = [] → r.2.outPending = s.outPending

/-- The outcome of a call that queues its payload. -/
def queueOutcome (a : Bool × List UInt8) : Err × List UInt8 := (if a.1 then .ok else .nomem, a.2)

/-- The outcome of a call that offers its payload to the socket, where `n` is
what the platform returns. -/
def offerOutcome (payload : List UInt8) (n : Int) (rest full : Bool × List UInt8) :
    Err × List UInt8 :=
  if n = payload.length then (.ok, payload)
  else if 0 < n then (if rest.1 then .ok else .nomem, payload.take n.toNat ++ rest.2)
  else if n = Err.again.code then queueOutcome full
  else (.ofCode n, [])

/-- Before anything is queued, what the socket takes is the end of the stream. -/
theorem Offered.stream {s t : Session} {bytes : List UInt8} {n : Int} (h : Offered s t bytes n)
    (hq : s.out.nodes = []) : t.stream = s.stream ++ bytes.take n.toNat := by
  have hout : t.out.nodes = [] := by rw [h.same]; exact hq
  rw [Session.stream, Session.stream, h.wire, hout, hq]
  simp [queuedBytes]

theorem Queued.pending {held : Nat → Nat} {s t : Session} (hs : OutInv held s)
    (h : Queued held s t []) : t.outPending = s.outPending := by
  rw [h.inv.pending_eq, hs.pending_eq, h.queue, List.append_nil]

namespace Outcome

variable {held : Nat → Nat} {s t : Session}

theorem of_refused (h : OutInv held s) (e : Err) : Outcome held s (e, s) (e, []) :=
  ⟨rfl, h, (List.append_nil _).symm, rfl, .refl _ _, fun _ _ => rfl⟩

/-- A payload is queued because the socket is full. -/
theorem of_queued (hs : OutInv held s) {r : Bool × Session} {a : Bool × List UInt8}
    (h : Appended held s r a) : Outcome held s (queued r) (queueOutcome a) := by
  obtain ⟨hflag, hq⟩ := h
  have hcode : (queued r).1 = (queueOutcome a).1 := by
    simp only [queued, queueOutcome, hflag]
    split <;> rfl
  have hses : (queued r).2 = r.2 := by
    simp only [queued]
    split <;> rfl
  rw [← Prod.mk.eta (p := queued r), hses]
  exact ⟨hcode, hq.inv, hq.stream, hq.closing, hq.frame, fun _ hnil => (hnil ▸ hq).pending hs⟩

/-- A payload is queued behind other bytes, and the queue is flushed. -/
theorem of_flushed (hs : OutInv held s) {r : Bool × Session} {a : Bool × List UInt8}
    (h : Appended held s r a) : Outcome held s (flushed env r) (queueOutcome a) := by
  cases hok : r.1 with
  | false =>
      have heq : flushed env r = queued r := by simp [flushed, queued, hok]
      rw [heq]
      exact of_queued hs h
  | true =>
      obtain ⟨hflag, hq⟩ := h
      have hf := hq.inv.flush env
      have hcode : (queueOutcome a).1 = .ok := by simp [queueOutcome, ← hflag, hok]
      simp only [flushed, hok, if_true]
      exact ⟨hcode.symm, hf.inv, hf.stream.trans hq.stream, hf.closing.trans hq.closing,
        hq.frame.trans hf.frame, fun hne => absurd hcode hne⟩

/-- The socket takes a first part of the payload, and the rest is queued. -/
theorem of_offered {n : Int} {bytes : List UInt8} {a c : Bool × List UInt8}
    (h : OutInv held s) (hq : s.out.nodes = []) (ho : Offered s t bytes n)
    (partly full : Unit → Bool × Session)
    (hpartly : 0 < n → n < bytes.length → OutInv held t → Appended held t (partly ()) a)
    (hfull : OutInv held t → Appended held t (full ()) c) :
    Outcome held s
      (if n = bytes.length then (.ok, t)
        else if 0 < n then flushed env (partly ())
        else if n = Err.again.code then queued (full ())
        else (.ofCode n, t)) (offerOutcome bytes n a c) := by
  have ht := h.sameOut ho.same
  have hclosing : t.closing = s.closing := by rw [ho.same]
  have hbufs : t.bufs = s.bufs := by rw [ho.same]
  have hpending : t.outPending = s.outPending := by rw [ho.same]
  have hstream := ho.stream hq
  simp only [offerOutcome]
  split
  · next hn =>
      refine ⟨rfl, ht, ?_, hclosing, hbufs ▸ .refl _ _, fun hne => absurd rfl hne⟩
      rw [hstream, hn, Int.toNat_natCast, List.take_length]
  · next hn =>
    split
    · next hpos =>
        have hlt : n < bytes.length := Int.lt_iff_le_and_ne.mpr ⟨ho.le, hn⟩
        have hf := of_flushed env ht (hpartly hpos hlt ht)
        refine ⟨hf.code, hf.inv, ?_, hf.closing.trans hclosing, hbufs ▸ hf.frame, fun _ hnil => ?_⟩
        · rw [hf.stream, hstream, List.append_assoc]
          rfl
        · -- the socket took a byte
          have hlen := congrArg List.length (List.append_eq_nil_iff.mp hnil).1
          rw [List.length_take, List.length_nil] at hlen
          omega
    · next hneg =>
        rw [Int.toNat_of_nonpos (by omega), List.take_zero, List.append_nil] at hstream
        split
        · have hf := of_queued ht (hfull ht)
          exact ⟨hf.code, hf.inv, hf.stream.trans (congrArg (· ++ _) hstream),
            hf.closing.trans hclosing, hbufs ▸ hf.frame,
            fun hne hnil => (hf.pending hne hnil).trans hpending⟩
        · exact ⟨rfl, ht, by rw [hstream, List.append_nil], hclosing, hbufs ▸ .refl _ _,
            fun _ _ => hpending⟩

end Outcome

/-! ## The three calls -/

/-- The outcome of `ztk_tcp_session_send`. -/
def sendOutcome (s : Session) (data : List UInt8) : Err × List UInt8 :=
  if s.closing ∨ data = [] then (.invalid, [])
  else if s.out.nodes ≠ [] then queueOutcome (memOutcome env s data)
  else
    let n := (socketSend env s data).1
    offerOutcome data n (memOutcome env s (data.drop n.toNat)) (memOutcome env s data)

theorem memOutcome_offered {s t : Session} {bytes : List UInt8} {n : Int}
    (h : Offered s t bytes n) (data : List UInt8) : memOutcome env t data = memOutcome env s data := by
  rw [h.same]
  rfl

theorem partsOutcome_offered {s t : Session} {bytes : List UInt8} {n : Int}
    (h : Offered s t bytes n) (parts : List (List UInt8)) :
    partsOutcome env t parts = partsOutcome env s parts := by
  rw [h.same]
  rfl

theorem bufOutcome_offered {s t : Session} {bytes : List UInt8} {n : Int}
    (h : Offered s t bytes n) (data : List UInt8) : bufOutcome env t data = bufOutcome env s data := by
  rw [h.same]
  rfl

theorem OutInv.sendOutcome {held : Nat → Nat} {s : Session} (h : OutInv held s)
    (data : List UInt8) :
    Outcome held s (tcpSessionSend env s (some data)) (sendOutcome env s data) := by
  simp only [tcpSessionSend, Net.sendOutcome]
  split
  · exact .of_refused h _
  · next hargs =>
      have hd : data ≠ [] := fun he => hargs (Or.inr he)
      split
      · exact .of_flushed env h (h.appendMem env hd)
      · next hq =>
          have ho := socketSend_offered env s data
          refine .of_offered env h (not_not.mp hq) ho
            (fun _ => sessionOutAppendMem env (socketSend env s data).2 _)
            (fun _ => sessionOutAppendMem env (socketSend env s data).2 _) ?_ ?_
          · intro hpos hlt ht
            rw [← memOutcome_offered env ho]
            refine ht.appendMem env fun he => ?_
            have := List.drop_eq_nil_iff.mp he
            omega
          · intro ht
            rw [← memOutcome_offered env ho]
            exact ht.appendMem env hd

/-- The outcome of `ztk_tcp_session_send_buf`. -/
def sendBufOutcome (s : Session) (b : Nat) : Err × List UInt8 :=
  let payload := (s.bufs.bufData b).take (s.bufs.bufLen b)
  if s.closing then (.invalid, [])
  else if s.bufs.bufLen b = 0 then (.ok, [])
  else if s.out.nodes ≠ [] then queueOutcome (bufOutcome env s payload)
  else
    let n := (socketSend env s payload).1
    offerOutcome payload n (bufOutcome env s (payload.drop n.toNat)) (bufOutcome env s payload)

/-- The payload of a buffer that somebody outside owns. -/
theorem OutInv.bufPayload {held : Nat → Nat} {s : Session} (h : OutInv held s) {b : Nat}
    (hb : 0 < held b) :
    ∃ x, s.bufs.buf b = some x ∧ s.bufs.bufLen b = x.len ∧ s.bufs.bufData b = x.data ∧
      x.len ≤ x.cap ∧ (x.data.take x.len).length = x.len := by
  obtain ⟨x, hx⟩ := h.counted.live_ext hb
  obtain ⟨-, -, hcap⟩ := h.counted.count b x hx
  refine ⟨x, hx, by rw [BufHeap.bufLen, hx]; rfl, by rw [BufHeap.bufData, hx]; rfl, hcap, ?_⟩
  rw [List.length_take]
  exact Nat.min_eq_left hcap

theorem OutInv.sendBufOutcome {held : Nat → Nat} {s : Session} (h : OutInv held s) {b : Nat}
    (hb : 0 < held b) :
    Outcome held s (tcpSessionSendBuf env s (some b)) (sendBufOutcome env s b) := by
  obtain ⟨x, hx, hlen, hdata, hcap, htake⟩ := h.bufPayload hb
  simp only [tcpSessionSendBuf, Net.sendBufOutcome, hlen, hdata]
  split
  · exact .of_refused h _
  · split
    · exact .of_refused h _
    · next hz =>
        have hpos : 0 < x.len := Nat.pos_of_ne_zero hz
        split
        · exact .of_flushed env h (h.appendBuf env hx hpos)
        · next hq =>
            have ho := socketSend_offered env s (x.data.take x.len)
            have hbufs : (socketSend env s (x.data.take x.len)).2.bufs.buf b = some x := by
              rw [ho.same]
              exact hx
            have hout := Outcome.of_offered env h (not_not.mp hq) ho
              (a := bufOutcome env s ((x.data.take x.len).drop
                (socketSend env s (x.data.take x.len)).1.toNat))
              (c := bufOutcome env s (x.data.take x.len))
              (fun _ => Net.enqueueBuf env (socketSend env s (x.data.take x.len)).2 b
                (socketSend env s (x.data.take x.len)).1.toNat
                (x.len - (socketSend env s (x.data.take x.len)).1.toNat))
              (fun _ => sessionOutAppendBuf env (socketSend env s (x.data.take x.len)).2 b)
              (fun hpos hlt ht => by
                rw [htake] at hlt
                rw [← bufOutcome_offered env ho, List.drop_take]
                exact ht.enqueueBuf env hbufs (by omega) (by omega))
              fun ht => by
                rw [← bufOutcome_offered env ho]
                exact ht.appendBuf env hbufs hpos
            rw [htake] at hout
            exact hout

/-- The outcome of `ztk_tcp_session_sendv` for parts that all have bytes. -/
def sendvPartsOutcome (s : Session) (parts : List (List UInt8)) : Err × List UInt8 :=
  if s.out.nodes ≠ [] then queueOutcome (partsOutcome env s parts)
  else
    let n := (socketSendv env s parts).1
    offerOutcome parts.flatten n (partsOutcome env s (restParts parts n.toNat))
      (partsOutcome env s parts)

/-- An argument of `ztk_tcp_session_sendv` that is refused. -/
def BadParts (s : Session) (parts : List (Option (List UInt8))) : Prop :=
  (s.closing ∨ parts = []) ∨ ∃ p ∈ parts.take iovMax, p = none ∨ p = some []

instance (s : Session) (parts : List (Option (List UInt8))) : Decidable (BadParts s parts) :=
  inferInstanceAs (Decidable (_ ∨ _))

/-- The outcome of `ztk_tcp_session_sendv`. -/
def sendvOutcome (s : Session) (parts : List (Option (List UInt8))) : Err × List UInt8 :=
  if BadParts s parts then (.invalid, [])
  else sendvPartsOutcome env s ((parts.take iovMax).filterMap id)

/-- The checks of `ztk_tcp_session_sendv` leave lists of bytes. -/
theorem filterMap_parts {parts : List (Option (List UInt8))}
    (h : ¬ ∃ p ∈ parts, p = none ∨ p = some []) :
    (parts.filterMap id).length = parts.length ∧
      (parts.filterMap id).flatten = (parts.map fun p => p.getD []).flatten ∧
      ∀ p ∈ parts.filterMap id, p ≠ [] := by
  induction parts with
  | nil => exact ⟨rfl, rfl, fun p hp => absurd hp List.not_mem_nil⟩
  | cons p ps ih =>
      cases p with
      | none => exact absurd ⟨none, List.mem_cons_self, Or.inl rfl⟩ h
      | some bytes =>
          obtain ⟨hl, hf, hne⟩ := ih fun ⟨p, hp, hn⟩ => h ⟨p, List.mem_cons_of_mem _ hp, hn⟩
          refine ⟨congrArg Nat.succ hl, congrArg (bytes ++ ·) hf, fun p hp => ?_⟩
          rcases List.mem_cons.mp hp with rfl | hp
          · exact fun he => h ⟨some p, List.mem_cons_self, Or.inr (he ▸ rfl)⟩
          · exact hne p hp

theorem OutInv.sendvOutcome {held : Nat → Nat} {s : Session} (h : OutInv held s)
    (parts : List (Option (List UInt8))) :
    Outcome held s (tcpSessionSendv env s (some parts)) (sendvOutcome env s parts) := by
  by_cases hbad : BadParts s parts
  · have heq : tcpSessionSendv env s (some parts) = (.invalid, s) := by
      simp only [tcpSessionSendv]
      rcases hbad with hb | hb
      · rw [if_pos hb]
      · rw [if_pos hb, ite_self]
    rw [heq, Net.sendvOutcome, if_pos hbad]
    exact .of_refused h _
  · obtain ⟨hargs, hparts⟩ := not_or.mp hbad
    obtain ⟨hlen, -, hne⟩ := filterMap_parts hparts
    simp only [tcpSessionSendv, Net.sendvOutcome, sendvPartsOutcome, if_neg hargs, if_neg hparts,
      if_neg hbad]
    split
    · exact .of_flushed env h (h.appendParts env hne)
    · next hq =>
        have hl : ((parts.take iovMax).filterMap id).length ≤ iovMax := by
          rw [hlen]
          exact List.length_take_le ..
        have ho := socketSendv_offered env s hl
        refine .of_offered env h (not_not.mp hq) ho
          (fun _ => Net.appendRest env (socketSendv env s ((parts.take iovMax).filterMap id)).2 _ _)
          (fun _ => Net.appendParts env (socketSendv env s ((parts.take iovMax).filterMap id)).2 _)
          ?_ ?_
        · intro hpos hlt ht
          rw [← partsOutcome_offered env ho, appendRest_eq]
          exact ht.appendParts env (restParts_ne_nil hne _)
        · intro ht
          rw [← partsOutcome_offered env ho]
          exact ht.appendParts env hne

/-! ## All or nothing -/

/-- An outcome that is the whole payload, or an error and nothing. -/
def Whole (o : Err × List UInt8) (payload : List UInt8) : Prop :=
  (o.1 = .ok ∧ o.2 = payload) ∨ (o.1 ≠ .ok ∧ o.2 = [])

/-- A call returns `ZTK_OK` and extends the stream by its payload, or it returns
another code and leaves the stream and `out_pending` as they were. -/
def AllOrNothing (s : Session) (r : Err × Session) (payload : List UInt8) : Prop :=
  (r.1 = .ok ∧ r.2.stream = s.stream ++ payload) ∨
    (r.1 ≠ .ok ∧ r.2.stream = s.stream ∧ r.2.outPending = s.outPending)

theorem Outcome.allOrNothing_iff {held : Nat → Nat} {s : Session} {r : Err × Session}
    {o : Err × List UInt8} (h : Outcome held s r o) (payload : List UInt8) :
    AllOrNothing s r payload ↔ Whole o payload := by
  rw [AllOrNothing, Whole, h.code, h.stream, List.append_right_inj, List.append_right_eq_self]
  refine or_congr_right ⟨fun ⟨hne, hnil, _⟩ => ⟨hne, hnil⟩, fun ⟨hne, hnil⟩ => ?_⟩
  exact ⟨hne, hnil, h.pending hne hnil⟩

/-- What decides whether an offered payload is taken whole: the platform does not
return 0, there is memory for the rest of a payload that is taken in part, and
`full` holds when the socket is full. -/
def OfferWhole (n : Int) (len : Nat) (rest full : Prop) : Prop :=
  n ≠ 0 ∧ (0 < n ∧ n < len → rest) ∧ (n = Err.again.code → full)

theorem whole_queueOutcome {a : Bool × List UInt8} {payload : List UInt8} :
    Whole (queueOutcome a) payload ↔ if a.1 then a.2 = payload else a.2 = [] := by
  simp only [Whole, queueOutcome]
  cases a.1 with
  | true => simp
  | false => simp

theorem whole_offerOutcome {payload : List UInt8} {n : Int} {rest full : Bool × List UInt8}
    (hp : payload ≠ []) (hle : n ≤ payload.length)
    (hrest : rest.1 = true → rest.2 = payload.drop n.toNat) :
    Whole (offerOutcome payload n rest full) payload ↔
      OfferWhole n payload.length (rest.1 = true) (Whole (queueOutcome full) payload) := by
  have hlen : 0 < payload.length := List.length_pos_iff.mpr hp
  have hagain : Err.again.code = -5 := rfl
  simp only [offerOutcome, OfferWhole]
  split
  · next hn =>
      refine iff_of_true (Or.inl ⟨rfl, rfl⟩) ⟨by omega, fun h => ?_, fun h => ?_⟩
      · omega
      · omega
  · next hn =>
      split
      · next hpos =>
          have hlt : n < payload.length := by omega
          constructor
          · rintro (⟨hok, -⟩ | ⟨-, hnil⟩)
            · refine ⟨by omega, fun _ => ?_, fun h => ?_⟩
              · by_contra hr
                simp [hr] at hok
              · omega
            · have h := congrArg List.length (List.append_eq_nil_iff.mp hnil).1
              rw [List.length_take, List.length_nil] at h
              omega
          · rintro ⟨-, hr, -⟩
            have hr := hr ⟨hpos, hlt⟩
            refine Or.inl ⟨by simp [hr], ?_⟩
            show payload.take n.toNat ++ rest.2 = payload
            rw [hrest hr, List.take_append_drop]
      · next hneg =>
          split
          · next ha =>
              refine ⟨fun h => ⟨by omega, fun h => ?_, fun _ => h⟩, fun h => h.2.2 ha⟩
              omega
          · next ha =>
              constructor
              · rintro (⟨-, hnil⟩ | ⟨hne, -⟩)
                · exact absurd hnil.symm hp
                · refine ⟨fun hz => hne (Err.ofCode_eq_ok.mpr hz), fun h => ?_, fun h => absurd h ha⟩
                  omega
              · rintro ⟨hz, -, -⟩
                exact Or.inr ⟨fun he => hz (Err.ofCode_eq_ok.mp he), rfl⟩

theorem whole_memOutcome (s : Session) (data : List UInt8) :
    Whole (queueOutcome (memOutcome env s data)) data := by
  rw [whole_queueOutcome, memOutcome]
  cases memFits env s.chunks s.allocs data.length with
  | true => rfl
  | false => rfl

theorem whole_bufOutcome (s : Session) (bytes : List UInt8) :
    Whole (queueOutcome (bufOutcome env s bytes)) bytes := by
  rw [whole_queueOutcome, bufOutcome]
  cases env.calloc s.chunks with
  | true => rfl
  | false => rfl

theorem partsFit_le (chunks allocs : Nat) (parts : List (List UInt8)) :
    partsFit env chunks allocs parts ≤ parts.length := by
  induction parts generalizing chunks allocs with
  | nil => exact Nat.le_refl 0
  | cons p ps ih =>
      rw [partsFit, List.length_cons]
      split
      · exact Nat.succ_le_succ (ih _ _)
      · exact Nat.zero_le _

/-- Memory does not run out between parts. -/
def PartsWhole (s : Session) (parts : List (List UInt8)) : Prop :=
  partsFit env s.chunks s.allocs parts = 0 ∨
    partsFit env s.chunks s.allocs parts = parts.length

theorem whole_partsOutcome {s : Session} {parts : List (List UInt8)} (hne : ∀ p ∈ parts, p ≠ []) :
    Whole (queueOutcome (partsOutcome env s parts)) parts.flatten ↔ PartsWhole env s parts := by
  rw [whole_queueOutcome, partsOutcome, PartsWhole]
  have hle := partsFit_le env s.chunks s.allocs parts
  by_cases hk : partsFit env s.chunks s.allocs parts = parts.length
  · simp only [hk, decide_true, if_true, List.take_length, or_true]
  · simp only [hk, decide_false, Bool.false_eq_true, if_false, or_false]
    constructor
    · intro hnil
      rw [List.flatten_eq_nil_iff] at hnil
      cases parts with
      | nil => exact absurd (Nat.le_zero.mp hle) hk
      | cons p ps =>
          by_contra hz
          refine hne p List.mem_cons_self (hnil p ?_)
          obtain ⟨k, hk⟩ := Nat.exists_eq_succ_of_ne_zero hz
          rw [hk, List.take_succ_cons]
          exact List.mem_cons_self
    · intro hz
      rw [hz, List.take_zero, List.flatten_nil]

/-- When `ztk_tcp_session_send` is all-or-nothing. -/
def SendWhole (s : Session) (data : List UInt8) : Prop :=
  s.closing = true ∨ data = [] ∨ s.out.nodes ≠ [] ∨
    OfferWhole (socketSend env s data).1 data.length
      (memFits env s.chunks s.allocs (data.length - (socketSend env s data).1.toNat) = true) True

/-- When `ztk_tcp_session_send_buf` is all-or-nothing. -/
def SendBufWhole (s : Session) (b : Nat) : Prop :=
  s.closing = true ∨ s.bufs.bufLen b = 0 ∨ s.out.nodes ≠ [] ∨
    OfferWhole (socketSend env s ((s.bufs.bufData b).take (s.bufs.bufLen b))).1 (s.bufs.bufLen b)
      (env.calloc s.chunks = true) True

/-- When `ztk_tcp_session_sendv` is all-or-nothing. -/
def SendvWhole (s : Session) (parts : List (Option (List UInt8))) : Prop :=
  BadParts s parts ∨
    let bytes := (parts.take iovMax).filterMap id
    if s.out.nodes ≠ [] then PartsWhole env s bytes
    else
      let n := (socketSendv env s bytes).1
      OfferWhole n bytes.flatten.length
        (partsFit env s.chunks s.allocs (restParts bytes n.toNat) =
          (restParts bytes n.toNat).length)
        (PartsWhole env s bytes)

theorem whole_sendOutcome (s : Session) (data : List UInt8) :
    Whole (sendOutcome env s data) data ↔ SendWhole env s data := by
  simp only [sendOutcome, SendWhole]
  by_cases hargs : s.closing ∨ data = []
  · rw [if_pos hargs]
    refine iff_of_true (Or.inr ⟨Err.noConfusion, rfl⟩) ?_
    rcases hargs with hc | hd
    · exact Or.inl hc
    · exact Or.inr (Or.inl hd)
  · obtain ⟨hc, hd⟩ := not_or.mp hargs
    rw [if_neg hargs, or_iff_right hc, or_iff_right hd]
    by_cases hq : s.out.nodes ≠ []
    · rw [if_pos hq]
      exact iff_of_true (whole_memOutcome env s data) (Or.inl hq)
    · have ho := socketSend_offered env s data
      rw [if_neg hq, or_iff_right hq, whole_offerOutcome hd ho.le fun hr => if_pos hr,
        iff_true_intro (whole_memOutcome env s data), memOutcome, List.length_drop]

theorem whole_sendBufOutcome {held : Nat → Nat} {s : Session} (h : OutInv held s) {b : Nat}
    (hb : 0 < held b) :
    Whole (sendBufOutcome env s b) ((s.bufs.bufData b).take (s.bufs.bufLen b)) ↔
      SendBufWhole env s b := by
  obtain ⟨x, -, hlen, hdata, -, htake⟩ := h.bufPayload hb
  simp only [sendBufOutcome, SendBufWhole, hlen, hdata]
  by_cases hc : s.closing = true
  · rw [if_pos hc]
    exact iff_of_true (Or.inr ⟨Err.noConfusion, rfl⟩) (Or.inl hc)
  · rw [if_neg hc, or_iff_right hc]
    by_cases hz : x.len = 0
    · rw [if_pos hz, hz, List.take_zero]
      exact iff_of_true (Or.inl ⟨rfl, rfl⟩) (Or.inl rfl)
    · rw [if_neg hz, or_iff_right hz]
      by_cases hq : s.out.nodes ≠ []
      · rw [if_pos hq]
        exact iff_of_true (whole_bufOutcome env s _) (Or.inl hq)
      · have ho := socketSend_offered env s (x.data.take x.len)
        have hne : x.data.take x.len ≠ [] := by
          intro he
          rw [he, List.length_nil] at htake
          exact hz htake.symm
        rw [if_neg hq, or_iff_right hq, whole_offerOutcome hne ho.le fun hr => if_pos hr, htake,
          iff_true_intro (whole_bufOutcome env s _), bufOutcome]

theorem whole_sendvOutcome (s : Session) {parts : List (Option (List UInt8))}
    (hl : parts.length ≤ iovMax) :
    Whole (sendvOutcome env s parts) (parts.map fun p => p.getD []).flatten ↔
      SendvWhole env s parts := by
  simp only [sendvOutcome, SendvWhole]
  by_cases hbad : BadParts s parts
  · rw [if_pos hbad]
    exact iff_of_true (Or.inr ⟨Err.noConfusion, rfl⟩) (Or.inl hbad)
  · obtain ⟨hargs, hparts⟩ := not_or.mp hbad
    obtain ⟨hlen, hflat, hne⟩ := filterMap_parts hparts
    rw [if_neg hbad, or_iff_right hbad]
    rw [List.take_of_length_le hl] at hlen hflat hne ⊢
    rw [← hflat]
    simp only [sendvPartsOutcome]
    by_cases hq : s.out.nodes ≠ []
    · rw [if_pos hq]
      simp only [if_pos hq]
      exact whole_partsOutcome env hne
    · have ho := socketSendv_offered env s (hlen.trans_le hl)
      have hflat : (parts.filterMap id).flatten ≠ [] := by
        rw [Ne, List.flatten_eq_nil_iff]
        intro hnil
        obtain ⟨p, hp⟩ := List.exists_mem_of_length_pos (l := parts.filterMap id) (by
          rw [hlen]
          exact List.length_pos_iff.mpr fun he => hargs (Or.inr he))
        exact hne p hp (hnil p hp)
      simp only [if_neg hq]
      rw [whole_offerOutcome hflat ho.le, whole_partsOutcome env hne]
      · simp only [partsOutcome, decide_eq_true_iff]
      · intro hr
        rw [partsOutcome, decide_eq_true_iff] at hr
        simp only [partsOutcome, hr, List.take_length, restParts_flatten]

/-! ## Enough memory -/

/-- What a call does to the stream: it appends its payload when it returns
`ZTK_OK`, and nothing otherwise. -/
structure Sent (held : Nat → Nat) (s : Session) (r : Err × Session) (bytes : List UInt8) :
    Prop where
  inv : OutInv held r.2
  stream : r.2.stream = s.stream ++ if r.1 = .ok then bytes else []
  closing : r.2.closing = s.closing

theorem Outcome.sent {held : Nat → Nat} {s : Session} {r : Err × Session} {o : Err × List UInt8}
    {payload : List UInt8} (h : Outcome held s r o) (hw : Whole o payload) :
    Sent held s r payload := by
  refine ⟨h.inv, ?_, h.closing⟩
  rw [h.stream, h.code]
  rcases hw with ⟨hok, hp⟩ | ⟨hne, hnil⟩
  · rw [if_pos hok, hp]
  · rw [if_neg hne, hnil]

theorem OutInv.refused {held : Nat → Nat} {s : Session} (h : OutInv held s) (e : Err)
    (he : e ≠ .ok) (payload : List UInt8) : Sent held s (e, s) payload :=
  (Outcome.of_refused h e).sent (Or.inr ⟨he, rfl⟩)

/-- The allocations succeed. -/
structure Plenty (env : NetEnv) : Prop where
  calloc : ∀ k, env.calloc k = true
  alloc : ∀ k size, 0 < size → env.alloc k size ≠ none

/-- The platform takes a byte or fails. -/
def NeverZero (env : NetEnv) : Prop := ∀ k parts, env.send k parts ≠ 0

theorem socketSend_ne_zero (hz : NeverZero env) (s : Session) (data : List UInt8) :
    (socketSend env s data).1 ≠ 0 := by
  simp only [socketSend]
  split
  · exact (by decide : Err.invalid.code ≠ 0)
  · split
    · exact (by decide : Err.invalid.code ≠ 0)
    · exact hz _ _

theorem socketSendv_ne_zero (hz : NeverZero env) (s : Session) (iov : List (List UInt8)) :
    (socketSendv env s iov).1 ≠ 0 := by
  simp only [socketSendv]
  split
  · exact (by decide : Err.invalid.code ≠ 0)
  · split
    · exact (by decide : Err.invalid.code ≠ 0)
    · split
      · exact (by decide : Err.invalid.code ≠ 0)
      · exact hz _ _

variable {env}

theorem Plenty.memFits (hp : Plenty env) (chunks allocs : Nat) {len : Nat} (hl : 0 < len) :
    memFits env chunks allocs len = true := by
  rw [Net.memFits, hp.calloc, Bool.and_true, Option.isSome_iff_ne_none]
  exact hp.alloc allocs len hl

theorem Plenty.partsFit (hp : Plenty env) (chunks allocs : Nat) {parts : List (List UInt8)}
    (hne : ∀ p ∈ parts, p ≠ []) : partsFit env chunks allocs parts = parts.length := by
  induction parts generalizing chunks allocs with
  | nil => rfl
  | cons p ps ih =>
      have hl : 0 < p.length := List.length_pos_iff.mpr (hne p List.mem_cons_self)
      rw [Net.partsFit, if_pos (hp.memFits _ _ hl), List.length_cons,
        ih _ _ fun q hq => hne q (List.mem_cons_of_mem _ hq)]

theorem OutInv.send {held : Nat → Nat} {s : Session} (h : OutInv held s) (hp : Plenty env)
    (hz : NeverZero env) (data : Option (List UInt8)) :
    Sent held s (tcpSessionSend env s data) (data.getD []) := by
  cases data with
  | none => exact h.refused .invalid (by decide) _
  | some data =>
      refine (h.sendOutcome env data).sent ((whole_sendOutcome env s data).mpr ?_)
      refine Or.inr (Or.inr (Or.inr ⟨socketSend_ne_zero env hz s data, fun hn => ?_, fun _ => trivial⟩))
      exact hp.memFits _ _ (by omega)

theorem OutInv.sendBuf {held : Nat → Nat} {s : Session} (h : OutInv held s) (hp : Plenty env)
    (hz : NeverZero env) {b : Nat} (hb : 0 < held b) :
    Sent held s (tcpSessionSendBuf env s (some b))
      ((s.bufs.bufData b).take (s.bufs.bufLen b)) := by
  refine (h.sendBufOutcome env hb).sent ((whole_sendBufOutcome env h hb).mpr ?_)
  exact Or.inr (Or.inr (Or.inr ⟨socketSend_ne_zero env hz s _, fun _ => hp.calloc _, fun _ => trivial⟩))

theorem OutInv.sendv {held : Nat → Nat} {s : Session} (h : OutInv held s) (hp : Plenty env)
    (hz : NeverZero env) {parts : List (Option (List UInt8))} (hl : parts.length ≤ iovMax) :
    Sent held s (tcpSessionSendv env s (some parts))
      (parts.map fun p => p.getD []).flatten := by
  refine (h.sendvOutcome env parts).sent ((whole_sendvOutcome env s hl).mpr ?_)
  by_cases hbad : BadParts s parts
  · exact Or.inl hbad
  · obtain ⟨-, -, hne⟩ := filterMap_parts (not_or.mp hbad).2
    have hall : PartsWhole env s ((parts.take iovMax).filterMap id) :=
      Or.inr (hp.partsFit _ _ hne)
    refine Or.inr ?_
    simp only
    split
    · exact hall
    · exact ⟨socketSendv_ne_zero env hz s _, fun _ => hp.partsFit _ _ (restParts_ne_nil hne _),
        fun _ => hall⟩

end Ztk.Net
