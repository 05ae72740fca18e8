import Ztk.Net.Session

/-!
# Vectored send on Win32

`ztk_sockplat_sendv` of `sock_win32.c` sends the buffers of an iov one after the other, each
in chunks that fit an `int`.  `Winsock` decides what `send` returns; its answer may depend on
the number of calls so far, so a fixed one covers every sequence of results.  A `size_t` has
`w` bits, and `ztk_ssize_t` the same, with a sign.

`Writev` is what the callers make of the result: as many bytes as it says are on the wire,
and none where it is an error code.
-/

namespace Ztk.Net.Win32

/-! ## The function -/

/-- What `send` returns, with `WSAGetLastError` after a `SOCKET_ERROR`. -/
inductive SendAnswer where
  | accepted (n : Nat)
  | socketError (wsaErr : Int)

/-- The socket.  It takes at least one byte of a chunk and at most all of them. -/
structure Winsock where
  send : Nat → List UInt8 → SendAnswer
  accepts : ∀ k chunk n, chunk ≠ [] → send k chunk = .accepted n → 1 ≤ n ∧ n ≤ chunk.length

/-- The calls of `send` so far, and `sent`. -/
structure Sending where
  calls : List SendCall
  sent : Nat

/-- The bytes accepted by the socket, in order. -/
def Sending.wire (s : Sending) : List UInt8 := s.calls.flatMap SendCall.accepted

/-- `SOCKET_ERROR`. -/
def socketError : Int := -1

/-- `map_wsa`. -/
def mapWsa (wsaErr : Int) : Err :=
  if wsaErr = 10035 then .again
  else if wsaErr = 10060 then .timeout
  else .io

/-- The cast of a `size_t` to `ztk_ssize_t`. -/
def toSsize (w n : Nat) : Int := (n : Int).bmod (2 ^ w)

/-- `chunk` bytes from `p` on. -/
def chunkOf (left : List UInt8) : List UInt8 := left.take 0x7fffffff

theorem chunkOf_ne_nil {left : List UInt8} (h : left ≠ []) : chunkOf left ≠ [] := by
  cases left with
  | nil => exact absurd rfl h
  | cons b bs => simp [chunkOf]

variable (env : Winsock) (w : Nat)

/-- The loop over one buffer, of which `left` is left.  The second value is the error that
`send` failed with. -/
def sendBuf (s : Sending) (left : List UInt8) : Sending × Option Int :=
  if _hl : left = [] then (s, none)
  else
    match hs : env.send s.calls.length (chunkOf left) with
    | .socketError e => ({ s with calls := s.calls ++ [⟨[chunkOf left], socketError⟩] }, some e)
    | .accepted n =>
        sendBuf ⟨s.calls ++ [⟨[chunkOf left], n⟩], (s.sent + n) % 2 ^ w⟩ (left.drop n)
termination_by left.length
decreasing_by
  have hn := (env.accepts _ _ _ (chunkOf_ne_nil _hl) hs).1
  have hpos := List.length_pos_iff.mpr _hl
  rw [List.length_drop]
  omega

/-- The loop over the buffers. -/
def sendBufs (s : Sending) : List (List UInt8) → Sending × Option Int
  | [] => (s, none)
  | b :: bs =>
      match sendBuf env w s b with
      | (s', none) => sendBufs s' bs
      | (s', some e) => (s', some e)

/-- `ztk_sockplat_sendv`. -/
def sockplatSendv (iov : List (List UInt8)) : Int × Sending :=
  if iov = [] then (Err.invalid.code, ⟨[], 0⟩)
  else
    match sendBufs env w ⟨[], 0⟩ iov with
    | (s, none) => (toSsize w s.sent, s)
    | (s, some e) => (if 0 < s.sent then toSsize w s.sent else (mapWsa e).code, s)

variable {env : Winsock} {w : Nat} {s : Sending} {left : List UInt8}

theorem sendBuf_nil : sendBuf env w s [] = (s, none) := by
  rw [sendBuf, dif_pos rfl]

theorem sendBuf_error {e : Int} (hl : left ≠ [])
    (hs : env.send s.calls.length (chunkOf left) = .socketError e) :
    sendBuf env w s left =
      ({ s with calls := s.calls ++ [⟨[chunkOf left], socketError⟩] }, some e) := by
  rw [sendBuf, dif_neg hl]
  split
  · next he =>
      rw [hs] at he
      cases he
      rfl
  · next he =>
      rw [hs] at he
      cases he

theorem sendBuf_accepted {n : Nat} (hl : left ≠ [])
    (hs : env.send s.calls.length (chunkOf left) = .accepted n) :
    sendBuf env w s left =
      sendBuf env w ⟨s.calls ++ [⟨[chunkOf left], n⟩], (s.sent + n) % 2 ^ w⟩ (left.drop n) := by
  rw [sendBuf, dif_neg hl]
  split
  · next he =>
      rw [hs] at he
      cases he
  · next he =>
      rw [hs] at he
      cases he
      rfl

/-! ## What the loops do -/

theorem Sending.wire_concat (s : Sending) (c : SendCall) (n : Nat) :
    (Sending.mk (s.calls ++ [c]) n).wire = s.wire ++ c.accepted := by
  simp only [Sending.wire, List.flatMap_append, List.flatMap_singleton]

/-- The bytes of a chunk that the socket took are those at the front of the buffer. -/
theorem accepted_chunk {n : Nat} (h : n ≤ (chunkOf left).length) :
    (SendCall.mk [chunkOf left] n).accepted = left.take n := by
  have hn : min n 0x7fffffff = n := by
    rw [chunkOf, List.length_take] at h
    omega
  simp only [SendCall.accepted, List.flatten_cons, List.flatten_nil, List.append_nil,
    Int.toNat_natCast, chunkOf, List.take_take, hn]

theorem accepted_error (chunk : List UInt8) : (SendCall.mk [chunk] socketError).accepted = [] :=
  List.take_zero

/-- `sent` is what a `size_t` keeps of the number of bytes on the wire. -/
def Sending.Counted (w : Nat) (s : Sending) : Prop := s.sent = s.wire.length % 2 ^ w

/-- A loop over `bytes` has put the first `m` of them on the wire: all unless `send` failed,
and at least one with each call but the one that failed. -/
structure Sent (w : Nat) (s : Sending) (bytes : List UInt8) (r : Sending × Option Int) (m : Nat) :
    Prop where
  wire : r.1.wire = s.wire ++ bytes.take m
  counted : r.1.Counted w
  all : r.2 = none → m = bytes.length ∧ r.1.calls.length ≤ s.calls.length + m
  part : r.2 ≠ none → m < bytes.length ∧ r.1.calls.length ≤ s.calls.length + m + 1

theorem Sent.le {bytes : List UInt8} {r : Sending × Option Int} {m : Nat}
    (h : Sent w s bytes r m) : m ≤ bytes.length := by
  cases hr : r.2 with
  | none => exact Nat.le_of_eq (h.all hr).1
  | some e => exact Nat.le_of_lt (h.part (by rw [hr]; exact Option.some_ne_none e)).1

theorem Sent.calls_le {bytes : List UInt8} {r : Sending × Option Int} {m : Nat}
    (h : Sent w s bytes r m) : r.1.calls.length ≤ s.calls.length + bytes.length := by
  cases hr : r.2 with
  | none =>
      obtain ⟨hm, hc⟩ := h.all hr
      omega
  | some e =>
      obtain ⟨hm, hc⟩ := h.part (by rw [hr]; exact Option.some_ne_none e)
      omega

/-- Part of a buffer, and what the loop does with the rest of it. -/
theorem Sent.after {n m : Nat} {s' : Sending} {r : Sending × Option Int}
    (h : Sent w s' (left.drop n) r m) (hn : 1 ≤ n) (hle : n ≤ left.length)
    (hwire : s'.wire = s.wire ++ left.take n) (hcalls : s'.calls.length = s.calls.length + 1) :
    Sent w s left r (n + m) where
  wire := by
    rw [h.wire, hwire, List.append_assoc, ← List.take_add]
  counted := h.counted
  all hr := by
    obtain ⟨hm, hc⟩ := h.all hr
    rw [List.length_drop] at hm
    exact ⟨by omega, by omega⟩
  part hr := by
    obtain ⟨hm, hc⟩ := h.part hr
    rw [List.length_drop] at hm
    exact ⟨by omega, by omega⟩

theorem sendBuf_sent (env : Winsock) (left : List UInt8) (hs : s.Counted w) :
    ∃ m, Sent w s left (sendBuf env w s left) m := by
  induction s, left using sendBuf.induct env w with
  | case1 s =>
      rw [sendBuf_nil]
      exact ⟨0, (List.append_nil _).symm, hs, fun _ => ⟨rfl, Nat.le_refl _⟩,
        fun h => absurd rfl h⟩
  | case2 s left hl e he =>
      rw [sendBuf_error hl he]
      refine ⟨0, ?_, ?_, fun h => absurd h (Option.some_ne_none e),
        fun _ => ⟨List.length_pos_iff.mpr hl, ?_⟩⟩
      · rw [s.wire_concat, accepted_error, List.take_zero]
      · show s.sent = (Sending.mk _ _).wire.length % _
        rw [s.wire_concat, accepted_error, List.append_nil]
        exact hs
      · rw [List.length_append]
        exact Nat.le_refl _
  | case3 s left hl n he ih =>
      obtain ⟨hpos, hle⟩ := env.accepts _ _ _ (chunkOf_ne_nil hl) he
      have hle' : n ≤ left.length := hle.trans (List.length_take_le' _ _)
      have hwire : (Sending.mk (s.calls ++ [⟨[chunkOf left], n⟩]) ((s.sent + n) % 2 ^ w)).wire =
          s.wire ++ left.take n := by
        rw [s.wire_concat, accepted_chunk hle]
      obtain ⟨m, hm⟩ := ih (by
        show (s.sent + n) % 2 ^ w = (Sending.mk _ _).wire.length % 2 ^ w
        rw [hwire, hs, List.length_append, List.length_take_of_le hle', Nat.mod_add_mod])
      rw [sendBuf_accepted hl he]
      exact ⟨n + m, hm.after hpos hle' hwire (List.length_append ..)⟩

/-- A buffer that was sent whole, and what the loop does with the others. -/
theorem Sent.next {b bytes : List UInt8} {s' : Sending} {k m : Nat} {r : Sending × Option Int}
    (hb : Sent w s b (s', none) k) (h : Sent w s' bytes r m) :
    Sent w s (b ++ bytes) r (b.length + m) := by
  obtain ⟨rfl, hk⟩ := hb.all rfl
  have hk : s'.calls.length ≤ s.calls.length + b.length := hk
  refine ⟨?_, h.counted, fun hr => ?_, fun hr => ?_⟩
  · have hwire : s'.wire = s.wire ++ b.take b.length := hb.wire
    rw [h.wire, hwire, List.take_length, List.append_assoc, List.take_length_add_append]
  · obtain ⟨hm, hc⟩ := h.all hr
    rw [List.length_append]
    exact ⟨by omega, by omega⟩
  · obtain ⟨hm, hc⟩ := h.part hr
    rw [List.length_append]
    exact ⟨by omega, by omega⟩

/-- A buffer in which `send` failed is the last one. -/
theorem Sent.last {b : List UInt8} {s' : Sending} {e : Int} {m : Nat}
    (hb : Sent w s b (s', some e) m) (bytes : List UInt8) :
    Sent w s (b ++ bytes) (s', some e) m := by
  obtain ⟨hm, hc⟩ := hb.part (Option.some_ne_none e)
  refine ⟨?_, hb.counted, fun hr => absurd hr (Option.some_ne_none e), fun _ => ⟨?_, hc⟩⟩
  · rw [List.take_append_of_le_length (Nat.le_of_lt hm)]
    exact hb.wire
  · rw [List.length_append]
    omega

theorem sendBufs_sent (env : Winsock) (iov : List (List UInt8)) (hs : s.Counted w) :
    ∃ m, Sent w s iov.flatten (sendBufs env w s iov) m := by
  induction iov generalizing s with
  | nil =>
      exact ⟨0, (List.append_nil _).symm, hs, fun _ => ⟨rfl, Nat.le_refl _⟩,
        fun h => absurd rfl h⟩
  | cons b bs ih =>
      obtain ⟨k, hb⟩ := sendBuf_sent env b hs
      rw [List.flatten_cons]
      simp only [sendBufs]
      split
      · next s' hr =>
          rw [hr] at hb
          obtain ⟨m, hm⟩ := ih hb.counted
          exact ⟨b.length + m, hb.next hm⟩
      · next s' e hr =>
          rw [hr] at hb
          exact ⟨k, hb.last _⟩

/-! ## What is returned -/

theorem mapWsa_neg (e : Int) : (mapWsa e).code < 0 := by
  simp only [mapWsa]
  split
  · decide
  · split
    · decide
    · decide

theorem sockplatSendv_sending {iov : List (List UInt8)} (hne : iov ≠ []) :
    (sockplatSendv env w iov).2 = (sendBufs env w ⟨[], 0⟩ iov).1 := by
  rw [sockplatSendv, if_neg hne]
  split
  · next hr => rw [hr]
  · next hr => rw [hr]

/-- What is counted is returned, whether `send` failed in the end or not. -/
theorem sockplatSendv_of_sent {iov : List (List UInt8)} (hne : iov ≠ [])
    (h : 0 < (sendBufs env w ⟨[], 0⟩ iov).1.sent) :
    (sockplatSendv env w iov).1 = toSsize w (sendBufs env w ⟨[], 0⟩ iov).1.sent := by
  rw [sockplatSendv, if_neg hne]
  split
  · next hr => rw [hr]
  · next hr =>
      rw [hr] at h ⊢
      exact if_pos h

/-- Where nothing is counted, the result is 0, or the error code. -/
theorem sockplatSendv_of_not_sent {iov : List (List UInt8)} (hne : iov ≠ [])
    (h : (sendBufs env w ⟨[], 0⟩ iov).1.sent = 0) : (sockplatSendv env w iov).1 ≤ 0 := by
  rw [sockplatSendv, if_neg hne]
  split
  · next hr =>
      rw [hr] at h
      rw [show Sending.sent _ = 0 from h]
      exact Int.le_of_eq Int.zero_bmod
  · next hr =>
      rw [hr] at h
      rw [if_neg (by rw [show Sending.sent _ = 0 from h]; exact Nat.lt_irrefl 0)]
      exact Int.le_of_lt (mapWsa_neg _)

/-! ## What the callers rely on -/

/-- The loop ends, the bytes on the wire are in order the first ones of the buffers, as many
as the result says, and none where the result is an error code. -/
structure Writev (iov : List (List UInt8)) (r : Int × Sending) : Prop where
  ends : r.2.calls.length ≤ iov.flatten.length
  order : r.2.wire <+: iov.flatten
  count : 0 ≤ r.1 → r.1 = r.2.wire.length
  error : r.1 < 0 → r.2.wire = []

/-- The record that a session keeps of the call tells what is on the wire. -/
theorem Writev.accepted {iov : List (List UInt8)} {r : Int × Sending} (h : Writev iov r) :
    (SendCall.mk iov r.1).accepted = r.2.wire ∧ r.1 ≤ iov.flatten.length := by
  rcases lt_or_ge r.1 0 with hneg | hpos
  · refine ⟨?_, by omega⟩
    rw [SendCall.accepted, Int.toNat_of_nonpos (Int.le_of_lt hneg), List.take_zero, h.error hneg]
  · have hlen := h.order.length_le
    have hcount := h.count hpos
    refine ⟨?_, by omega⟩
    rw [SendCall.accepted, hcount, Int.toNat_natCast]
    exact (List.prefix_iff_eq_take.mp h.order).symm

theorem toSsize_of_lt {n : Nat} (hw : 0 < w) (h : n < 2 ^ (w - 1)) : toSsize w n = n := by
  have hpow : 2 ^ w = 2 * 2 ^ (w - 1) := by
    rw [Nat.mul_comm, Nat.two_pow_pred_mul_two hw]
  rw [toSsize, hpow]
  exact Int.bmod_eq_of_le (by omega) (by omega)

theorem toSsize_half (hw : 0 < w) : toSsize w (2 ^ (w - 1)) < 0 := by
  have hpow : 2 ^ w = 2 * 2 ^ (w - 1) := by
    rw [Nat.mul_comm, Nat.two_pow_pred_mul_two hw]
  have hpos := Nat.two_pow_pos (w - 1)
  rw [toSsize, hpow, Int.bmod_def, Int.emod_eq_of_lt (by omega) (by omega), if_neg (by omega)]
  omega

/-- As long as the number of all bytes is a `ztk_ssize_t`, the result is right. -/
theorem sendv_writev (hw : 0 < w) {iov : List (List UInt8)}
    (h : iov.flatten.length < 2 ^ (w - 1)) : Writev iov (sockplatSendv env w iov) := by
  by_cases hne : iov = []
  · subst hne
    exact ⟨Nat.le_refl _, List.nil_prefix, fun h => absurd h (by simp [sockplatSendv, Err.code]),
      fun _ => rfl⟩
  have hpow : 2 ^ (w - 1) ≤ 2 ^ w := Nat.pow_le_pow_right (Nat.succ_pos 1) (Nat.sub_le w 1)
  obtain ⟨m, hm⟩ := sendBufs_sent env iov (w := w) (s := ⟨[], 0⟩) (Nat.zero_mod _).symm
  have hle := hm.le
  have hwire : (sockplatSendv env w iov).2.wire = iov.flatten.take m := by
    rw [sockplatSendv_sending hne, hm.wire]
    rfl
  have hlen : (sockplatSendv env w iov).2.wire.length = m := by
    rw [hwire, List.length_take_of_le hle]
  have hsent : (sendBufs env w ⟨[], 0⟩ iov).1.sent = m := by
    rw [hm.counted, ← sockplatSendv_sending hne, hlen]
    exact Nat.mod_eq_of_lt (by omega)
  have hends : (sockplatSendv env w iov).2.calls.length ≤ iov.flatten.length := by
    rw [sockplatSendv_sending hne]
    simpa using hm.calls_le
  have horder : (sockplatSendv env w iov).2.wire <+: iov.flatten := hwire ▸ List.take_prefix m _
  rcases Nat.eq_zero_or_pos m with rfl | hpos
  · have hret := sockplatSendv_of_not_sent hne hsent
    refine ⟨hends, horder, fun hge => ?_, fun _ => List.length_eq_zero_iff.mp hlen⟩
    rw [hlen]
    exact Int.le_antisymm hret hge
  · have hret : (sockplatSendv env w iov).1 = m := by
      rw [sockplatSendv_of_sent hne (hpos.trans_eq hsent.symm), hsent, toSsize_of_lt hw (by omega)]
    refine ⟨hends, horder, fun _ => hret.trans (congrArg _ hlen.symm), fun hneg => ?_⟩
    omega

/-! ## A count that does not fit -/

/-- A socket that takes so many bytes, one with each call, and then has no room. -/
def trickleTo (n : Nat) : Winsock where
  send k _ := if k < n then .accepted 1 else .socketError 10035
  accepts k chunk m hc h := by
    split at h
    · cases h
      exact ⟨Nat.le_refl 1, List.length_pos_iff.mpr hc⟩
    · cases h

/-- Each call so far has put a byte on the wire, and no more than so many. -/
def Sending.Trickled (n : Nat) (s : Sending) : Prop :=
  s.calls.length = s.wire.length ∧ s.wire.length ≤ n

/-- The socket fails when it has taken all it takes. -/
def Trickles (n : Nat) (r : Sending × Option Int) : Prop :=
  if r.2 = none then r.1.Trickled n else r.1.wire.length = n

theorem sendBuf_trickles {n : Nat} (left : List UInt8) (hs : s.Trickled n) :
    Trickles n (sendBuf (trickleTo n) w s left) := by
  induction s, left using sendBuf.induct (trickleTo n) w with
  | case1 s =>
      rw [sendBuf_nil]
      exact hs
  | case2 s left hl e he =>
      have hge : n ≤ s.calls.length := by
        by_contra hlt
        simp [trickleTo, Nat.lt_of_not_le hlt] at he
      rw [sendBuf_error hl he]
      show (Sending.mk _ _).wire.length = n
      rw [s.wire_concat, accepted_error, List.append_nil]
      exact Nat.le_antisymm hs.2 (hs.1 ▸ hge)
  | case3 s left hl k he ih =>
      have hk : s.calls.length < n ∧ k = 1 := by
        simp only [trickleTo] at he
        split at he
        · next hlt =>
            cases he
            exact ⟨hlt, rfl⟩
        · cases he
      obtain ⟨hlt, rfl⟩ := hk
      have hle := ((trickleTo n).accepts _ _ _ (chunkOf_ne_nil hl) he).2
      rw [sendBuf_accepted hl he]
      refine ih ?_
      have hpos := List.length_pos_iff.mpr hl
      rw [Sending.Trickled, s.wire_concat, accepted_chunk hle, List.length_append,
        List.length_append, List.length_take_of_le hpos, ← hs.1]
      exact ⟨rfl, hlt⟩

theorem sendBufs_trickles {n : Nat} (iov : List (List UInt8)) (hs : s.Trickled n) :
    Trickles n (sendBufs (trickleTo n) w s iov) := by
  induction iov generalizing s with
  | nil => exact hs
  | cons b bs ih =>
      have hb := sendBuf_trickles (w := w) b hs
      simp only [sendBufs]
      split
      · next s' hr =>
          rw [hr] at hb
          exact ih hb
      · next s' e hr =>
          rw [hr] at hb
          exact hb

/-- Where the number of all bytes is no `ztk_ssize_t`, the result can be negative with bytes
on the wire. -/
theorem sendv_negative (hw : 0 < w) {iov : List (List UInt8)}
    (h : 2 ^ (w - 1) ≤ iov.flatten.length) :
    ¬ Writev iov (sockplatSendv (trickleTo (2 ^ (w - 1))) w iov) := by
  have hpos := Nat.two_pow_pos (w - 1)
  have hpow : 2 ^ (w - 1) < 2 ^ w := Nat.pow_lt_pow_right (Nat.lt_succ_self 1) (by omega)
  have htr := sendBufs_trickles (w := w) (s := ⟨[], 0⟩) (n := 2 ^ (w - 1)) iov
    ⟨rfl, Nat.zero_le _⟩
  obtain ⟨m, hm⟩ := sendBufs_sent (trickleTo (2 ^ (w - 1))) iov (w := w) (s := ⟨[], 0⟩)
    (Nat.zero_mod _).symm
  have hlen : (sendBufs (trickleTo (2 ^ (w - 1))) w ⟨[], 0⟩ iov).1.wire.length =
      2 ^ (w - 1) := by
    rw [Trickles] at htr
    split at htr
    · next hr =>
        have hall := (hm.all hr).1
        refine Nat.le_antisymm htr.2 (h.trans (Nat.le_of_eq ?_))
        rw [hm.wire, hall, List.take_length]
        rfl
    · exact htr
  have hsent : (sendBufs (trickleTo (2 ^ (w - 1))) w ⟨[], 0⟩ iov).1.sent = 2 ^ (w - 1) := by
    rw [hm.counted, hlen]
    exact Nat.mod_eq_of_lt hpow
  have hne : iov ≠ [] := by
    rintro rfl
    rw [List.flatten_nil, List.length_nil] at h
    omega
  have hneg : (sockplatSendv (trickleTo (2 ^ (w - 1))) w iov).1 < 0 := by
    rw [sockplatSendv_of_sent hne (hpos.trans_eq hsent.symm), hsent]
    exact toSsize_half hw
  intro hwv
  rw [← sockplatSendv_sending hne, hwv.error hneg, List.length_nil] at hlen
  omega

/-- Whatever the socket answers, the callers can rely on the result exactly when the number
of all bytes is a `ztk_ssize_t`. -/
theorem sendv_writev_iff (hw : 0 < w) (iov : List (List UInt8)) :
    (∀ env : Winsock, Writev iov (sockplatSendv env w iov)) ↔
      (iov.map List.length).sum < 2 ^ (w - 1) := by
  rw [← List.length_flatten]
  constructor
  · intro h
    by_contra hge
    exact sendv_negative hw (Nat.le_of_not_lt hge) (h _)
  · intro h env
    exact sendv_writev hw h

/-- A socket that takes every chunk whole. -/
def takesAll : Winsock where
  send _ chunk := .accepted chunk.length
  accepts _ _ _ hc h := by
    cases h
    exact ⟨List.length_pos_iff.mpr hc, Nat.le_refl _⟩

/-- A buffer that fits an `int` goes out with one call. -/
theorem sendBuf_takesAll (hl : left ≠ []) (hle : left.length ≤ 0x7fffffff) :
    sendBuf takesAll w s left =
      (⟨s.calls ++ [⟨[left], left.length⟩], (s.sent + left.length) % 2 ^ w⟩, none) := by
  have hchunk : chunkOf left = left := List.take_of_length_le hle
  have hsend : takesAll.send s.calls.length (chunkOf left) = .accepted left.length := by
    rw [hchunk]
    rfl
  rw [sendBuf_accepted hl hsend, List.drop_length, sendBuf_nil, hchunk]

/-- Two buffers that fit an `int` go out with two calls. -/
theorem sockplatSendv_takesAll {b c : List UInt8} (hb : b ≠ []) (hc : c ≠ [])
    (hble : b.length ≤ 0x7fffffff) (hcle : c.length ≤ 0x7fffffff) :
    sockplatSendv takesAll w [b, c] =
      (toSsize w ((b.length % 2 ^ w + c.length) % 2 ^ w),
        ⟨[⟨[b], b.length⟩, ⟨[c], c.length⟩], (b.length % 2 ^ w + c.length) % 2 ^ w⟩) := by
  simp only [sockplatSendv, sendBufs, sendBuf_takesAll hb hble, sendBuf_takesAll hc hcle,
    Nat.zero_add, List.nil_append, List.cons_append, reduceCtorEq, if_false]

/-- Four bytes in two buffers, with a `size_t` of 64 bits. -/
theorem sendv_writev_small :
    Writev [[1, 2, 3], [4]] (sockplatSendv takesAll 64 [[1, 2, 3], [4]]) ∧
      (sockplatSendv takesAll 64 [[1, 2, 3], [4]]).1 = 4 := by
  refine ⟨(sendv_writev_iff (by decide) _).mpr (by decide) takesAll, ?_⟩
  rw [sockplatSendv_takesAll (by simp) (by simp) (by decide) (by decide)]
  decide

theorem sockplatSendv_twice {n : Nat} (hn : n + n = 2 ^ 31) :
    (sockplatSendv takesAll 32 [List.replicate n 0, List.replicate n 0]).1 = -2 ^ 31 ∧
      (sockplatSendv takesAll 32 [List.replicate n 0, List.replicate n 0]).2.wire =
        List.replicate (2 ^ 31) 0 := by
  have hlen : (List.replicate n (0 : UInt8)).length = n := List.length_replicate ..
  have hne : List.replicate n (0 : UInt8) ≠ [] := List.ne_nil_of_length_pos (by omega)
  rw [sockplatSendv_takesAll hne hne (by omega) (by omega), hlen,
    Nat.mod_eq_of_lt (a := n) (by omega), hn]
  constructor
  · simp only [toSsize]
    norm_num [Int.bmod_def]
  · simp only [Sending.wire, List.flatMap_cons, List.flatMap_nil, SendCall.accepted,
      List.flatten_cons, List.flatten_nil, List.append_nil, Int.toNat_natCast, List.take_replicate,
      List.replicate_append_replicate, Nat.min_self, hn]

/-- With a `size_t` of 32 bits, a buffer of a gigabyte that is sent twice is on the wire
twice, and the result is the least number. -/
theorem sendv_count_overflows :
    (sockplatSendv takesAll 32 [List.replicate (2 ^ 30) 0, List.replicate (2 ^ 30) 0]).1 =
        -2 ^ 31 ∧
      (sockplatSendv takesAll 32 [List.replicate (2 ^ 30) 0, List.replicate (2 ^ 30) 0]).2.wire =
        List.replicate (2 ^ 31) 0 ∧
      ¬ ∀ env : Winsock, Writev [List.replicate (2 ^ 30) 0, List.replicate (2 ^ 30) 0]
        (sockplatSendv env 32 [List.replicate (2 ^ 30) 0, List.replicate (2 ^ 30) 0]) := by
  obtain ⟨hret, hwire⟩ := sockplatSendv_twice (n := 2 ^ 30) (by norm_num)
  refine ⟨hret, hwire, fun h => ?_⟩
  have hnil := (h takesAll).error (hret.trans_lt (by decide))
  have hlen := congrArg List.length (hwire.symm.trans hnil)
  rw [List.length_replicate, List.length_nil] at hlen
  exact absurd hlen (by decide)

end Ztk.Net.Win32
