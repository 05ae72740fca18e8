import Ztk.Err
import Ztk.Lib.Chain
import Ztk.Util.Buf

/-!
# The output queue of a TCP session

`session_out_free_chunk` to `session_out_flush`, `ztk_tcp_session_send`,
`ztk_tcp_session_sendv`, `ztk_tcp_session_send_buf`, `ztk_tcp_session_flush` and
`ztk_tcp_session_out_discard` of `tcp_server.c`, with `ztk_socket_send` and
`ztk_socket_sendv` of `socket.c` below them.

`NetEnv` decides what the platform's send returns and which allocations
succeed.  Its answers may depend on the number of calls so far, so a fixed
environment covers every sequence of results.  The calls of the platform are
recorded (`calls`), and the bytes accepted by the socket are read off the
record (`wire`).  So are the changes of `out_pending` (`events`).  The high-water
callback is recorded and does not call back into the session.

A chunk's address is a serial number.  A null pointer in an argument is `none`;
a pointer with a length is the list of the bytes it points to.
-/

namespace Ztk.Net

open Ztk.Lib Ztk.Util

/-! ## State -/

/-- `u.mem` or `u.buf` of a chunk, by `kind`. -/
inductive Payload where
  | mem (bytes : List UInt8)
  | buf (b : Nat)

/-- `ztk_tcp_out_chunk`. -/
structure OutChunk where
  payload : Payload
  off : Nat
  len : Nat

/-- One call of `ztk_sockplat_send` or `ztk_sockplat_sendv`, and its result. -/
structure SendCall where
  parts : List (List UInt8)
  result : Int

/-- The bytes the socket took. -/
def SendCall.accepted (c : SendCall) : List UInt8 := c.parts.flatten.take c.result.toNat

/-- A change of `out_pending`. -/
inductive OutEvent where
  /-- `session_out_enqueue`, during which the high-water callback ran `calls` times. -/
  | enqueue (before after calls : Nat)
  /-- `amount` bytes were sent or dropped. -/
  | deduct (pending amount : Nat)
  /-- The end of `ztk_tcp_session_out_discard`. -/
  | discard
deriving DecidableEq

/-- What the platform and the allocators answer. -/
structure NetEnv where
  /-- The result of the `k`-th send. -/
  send : Nat → List (List UInt8) → Int
  /-- The `k`-th `calloc` of a chunk returns memory. -/
  calloc : Nat → Bool
  /-- The memory of the `k`-th buffer, for a size. -/
  alloc : Nat → Nat → Option (List UInt8)
  /-- No more bytes are taken than offered, and codes are values of `ztk_err_t`. -/
  send_le : ∀ k parts, send k parts ≤ parts.flatten.length
  send_ge : ∀ k parts, -2 ^ 31 ≤ send k parts
  /-- Buffers have the size asked for. -/
  alloc_le : ∀ k size data, alloc k size = some data → size ≤ data.length

/-- The fields of `ztk_tcp_session`, its socket and its server that output uses. -/
structure Session where
  closing : Bool
  /-- `out_head` and `out_tail`. -/
  out : Chain OutChunk
  outPending : Nat
  outHighwaterHit : Bool
  /-- `server->out_highwater_bytes`, 0 also when there is no callback. -/
  highwaterBytes : Nat
  /-- The arguments of `on_out_highwater` so far. -/
  notified : List Nat
  /-- The changes of `out_pending` so far. -/
  events : List OutEvent
  /-- The file descriptor of `session->sock`. -/
  sock : Option Int
  calls : List SendCall
  /-- Chunks allocated or refused so far. -/
  chunks : Nat
  /-- Buffers allocated or refused so far. -/
  allocs : Nat
  bufs : BufHeap

/-- `ZTK_SOCKET_IOV_MAX`. -/
def iovMax : Nat := 16

/-- The bytes accepted by the socket, in order. -/
def Session.wire (s : Session) : List UInt8 := s.calls.flatMap SendCall.accepted

/-! ## Sockets -/

variable (env : NetEnv)

/-- The call of the platform. -/
def Session.platSend (s : Session) (parts : List (List UInt8)) : Int × Session :=
  let n := env.send s.calls.length parts
  (n, { s with calls := s.calls ++ [⟨parts, n⟩] })

/-- `ztk_socket_send`. -/
def socketSend (s : Session) (data : List UInt8) : Int × Session :=
  match s.sock with
  | none => (Err.invalid.code, s)
  | some fd => if fd < 0 then (Err.invalid.code, s) else s.platSend env [data]

/-- `ztk_socket_sendv`. -/
def socketSendv (s : Session) (iov : List (List UInt8)) : Int × Session :=
  match s.sock with
  | none => (Err.invalid.code, s)
  | some fd =>
      if fd < 0 then (Err.invalid.code, s)
      else if iov = [] then (Err.invalid.code, s)
      else s.platSend env (iov.take iovMax)

/-! ## The queue -/

/-- `session_out_free_chunk`. -/
def sessionOutFreeChunk (s : Session) (c : OutChunk) : Session :=
  match c.payload with
  | .mem _ => s
  | .buf b => { s with bufs := s.bufs.bufUnref b }

/-- `session_out_pop_chunk`. -/
def sessionOutPopChunk (s : Session) : Session :=
  match s.out.nodes with
  | [] => s
  | n :: _ =>
      sessionOutFreeChunk
        { s with
          out := s.out.popFront
          outPending := if n.2.len ≤ s.outPending then s.outPending - n.2.len else 0
          events := s.events ++ [.deduct s.outPending n.2.len] } n.2

/-- The memory `session_chunk_ptr` points to. -/
def sessionChunkPtr (h : BufHeap) (c : OutChunk) : List UInt8 :=
  match c.payload with
  | .mem bytes => bytes.drop c.off
  | .buf b => (h.bufData b).drop c.off

/-- The unsent part `[off, off + len)` of a chunk. -/
def chunkBytes (h : BufHeap) (c : OutChunk) : List UInt8 := (sessionChunkPtr h c).take c.len

/-- `session_out_check_highwater`. -/
def sessionOutCheckHighwater (s : Session) : Session :=
  if s.highwaterBytes = 0 then s
  else if s.outPending < s.highwaterBytes then { s with outHighwaterHit := false }
  else if s.outHighwaterHit then s
  else { s with outHighwaterHit := true, notified := s.notified ++ [s.outPending] }

/-- `session_out_enqueue`. -/
def sessionOutEnqueue (s : Session) (addr : Nat) (c : OutChunk) : Session :=
  let t := sessionOutCheckHighwater
    { s with
      out := s.out.pushBack (addr, c)
      outPending := s.outPending + c.len }
  { t with
    events := s.events ++
      [.enqueue s.outPending t.outPending (t.notified.length - s.notified.length)] }

/-- The allocation of a chunk that points to a buffer, and its enqueuing. -/
def enqueueBuf (s : Session) (b off len : Nat) : Bool × Session :=
  let addr := s.chunks
  let s := { s with chunks := s.chunks + 1 }
  if env.calloc addr then
    (true, sessionOutEnqueue { s with bufs := s.bufs.bufRef b } addr ⟨.buf b, off, len⟩)
  else (false, s)

/-- `session_out_append_buf`.  The flag is false when the source returns -1. -/
def sessionOutAppendBuf (s : Session) (b : Nat) : Bool × Session :=
  let len := s.bufs.bufLen b
  if len = 0 then (true, s) else enqueueBuf env s b 0 len

/-- `session_out_append_mem`. -/
def sessionOutAppendMem (s : Session) (data : List UInt8) : Bool × Session :=
  if data = [] then (true, s)
  else
    let (buf, h) := s.bufs.bufAlloc data.length (env.alloc s.allocs data.length)
    let s := { s with bufs := h, allocs := s.allocs + 1 }
    match buf with
    | none => (false, s)
    | some b =>
        let s := { s with bufs := (s.bufs.memcpy b data).bufSetLen b data.length }
        let (r, s) := sessionOutAppendBuf env s b
        (r, { s with bufs := s.bufs.bufUnref b })

/-- Popping a chunk takes the first node off. -/
theorem sessionOutPopChunk_out {s : Session} {n : Nat × OutChunk} {rest : List (Nat × OutChunk)}
    (hn : s.out.nodes = n :: rest) : (sessionOutPopChunk s).out = s.out.popFront := by
  simp only [sessionOutPopChunk, hn, sessionOutFreeChunk]
  split <;> rfl

/-- Part of the first chunk was sent: `off` and `len` move by `skip`. -/
def sessionOutCut (s : Session) (skip : Nat) : Session :=
  { s with
    out := s.out.modifyHead fun c => { c with off := c.off + skip, len := c.len - skip }
    outPending := if skip ≤ s.outPending then s.outPending - skip else 0
    events := s.events ++ [.deduct s.outPending skip] }

/-- `session_out_advance_sent`. -/
def sessionOutAdvanceSent (s : Session) (skip : Nat) : Session :=
  match _hn : s.out.nodes with
  | [] => s
  | n :: _ =>
      if skip = 0 then s
      else if n.2.len = 0 then sessionOutAdvanceSent (sessionOutPopChunk s) skip
      else if n.2.len ≤ skip then sessionOutAdvanceSent (sessionOutPopChunk s) (skip - n.2.len)
      else sessionOutCut s skip
termination_by s.out.nodes.length
decreasing_by
  all_goals
    rw [sessionOutPopChunk_out ‹_›, Chain.popFront, ‹s.out.nodes = _›]
    simp

theorem sessionOutAdvanceSent_nil {s : Session} (hn : s.out.nodes = []) (skip : Nat) :
    sessionOutAdvanceSent s skip = s := by
  rw [sessionOutAdvanceSent]
  split
  · rfl
  · next h => rw [hn] at h; cases h

theorem sessionOutAdvanceSent_cons {s : Session} {n : Nat × OutChunk}
    {rest : List (Nat × OutChunk)} (hn : s.out.nodes = n :: rest) (skip : Nat) :
    sessionOutAdvanceSent s skip =
      if skip = 0 then s
      else if n.2.len = 0 then sessionOutAdvanceSent (sessionOutPopChunk s) skip
      else if n.2.len ≤ skip then sessionOutAdvanceSent (sessionOutPopChunk s) (skip - n.2.len)
      else sessionOutCut s skip := by
  rw [sessionOutAdvanceSent]
  split
  · next h => rw [hn] at h; cases h
  · next h =>
      rw [hn] at h
      cases h
      rfl

/-- `session_out_try_sendv`. -/
def sessionOutTrySendv (s : Session) : Int × Session :=
  match s.sock with
  | none => (Err.invalid.code, s)
  | some _ =>
      let iov := ((s.out.nodes.filter fun n => n.2.len ≠ 0).take iovMax).map
        fun n => chunkBytes s.bufs n.2
      match iov with
      | [] => (0, s)
      | [bytes] => socketSend env s bytes
      | iov => socketSendv env s iov

/-- A measure of the queue for the loop of `session_out_flush`. -/
def queueSize (nodes : List (Nat × OutChunk)) : Nat := (nodes.map fun n => n.2.len + 1).sum

theorem socketSend_out (s : Session) (data : List UInt8) :
    (socketSend env s data).2.out = s.out := by
  simp only [socketSend]
  split
  · rfl
  · split <;> rfl

theorem socketSendv_out (s : Session) (iov : List (List UInt8)) :
    (socketSendv env s iov).2.out = s.out := by
  simp only [socketSendv]
  split
  · rfl
  · split
    · rfl
    · split <;> rfl

theorem sessionOutTrySendv_out (s : Session) : (sessionOutTrySendv env s).2.out = s.out := by
  rw [sessionOutTrySendv]
  split
  · rfl
  · simp only
    split
    · rfl
    · exact socketSend_out env s _
    · exact socketSendv_out env s _

theorem popChunk_size {s : Session} {n : Nat × OutChunk} {rest : List (Nat × OutChunk)}
    (hn : s.out.nodes = n :: rest) :
    queueSize (sessionOutPopChunk s).out.nodes + n.2.len + 1 = queueSize s.out.nodes := by
  rw [sessionOutPopChunk_out hn]
  simp only [Chain.popFront, hn, List.tail_cons, queueSize, List.map_cons, List.sum_cons]
  omega

theorem cut_size {s : Session} {n : Nat × OutChunk} {rest : List (Nat × OutChunk)} {skip : Nat}
    (hn : s.out.nodes = n :: rest) (hlt : skip < n.2.len) :
    queueSize (sessionOutCut s skip).out.nodes + skip = queueSize s.out.nodes := by
  simp only [sessionOutCut, Chain.modifyHead, hn, List.modifyHead_cons, queueSize, List.map_cons,
    List.sum_cons]
  omega

theorem advanceSent_size_le (s : Session) (skip : Nat) :
    queueSize (sessionOutAdvanceSent s skip).out.nodes ≤ queueSize s.out.nodes := by
  induction s, skip using sessionOutAdvanceSent.induct with
  | case1 s skip hn =>
      simp only [sessionOutAdvanceSent_nil hn, Nat.le_refl]
  | case2 s n rest hn =>
      simp only [sessionOutAdvanceSent_cons hn, if_true, Nat.le_refl]
  | case3 s skip n rest hn h0 hl ih =>
      rw [sessionOutAdvanceSent_cons hn, if_neg h0, if_pos hl]
      have := popChunk_size hn
      omega
  | case4 s skip n rest hn h0 hl hle ih =>
      rw [sessionOutAdvanceSent_cons hn, if_neg h0, if_neg hl, if_pos hle]
      have := popChunk_size hn
      omega
  | case5 s skip n rest hn h0 hl hle =>
      rw [sessionOutAdvanceSent_cons hn, if_neg h0, if_neg hl, if_neg hle]
      have := cut_size hn (Nat.lt_of_not_le hle)
      omega

/-- Every byte sent makes the queue smaller. -/
theorem advanceSent_size_lt {s : Session} {n : Nat × OutChunk} {rest : List (Nat × OutChunk)}
    (hn : s.out.nodes = n :: rest) {skip : Nat} (h0 : skip ≠ 0) :
    queueSize (sessionOutAdvanceSent s skip).out.nodes < queueSize s.out.nodes := by
  have hpop := popChunk_size hn
  rw [sessionOutAdvanceSent_cons hn, if_neg h0]
  split
  · have := advanceSent_size_le (sessionOutPopChunk s) skip
    omega
  · split
    · have := advanceSent_size_le (sessionOutPopChunk s) (skip - n.2.len)
      omega
    · next hle =>
        have := cut_size hn (Nat.lt_of_not_le hle)
        omega

/-- The total of the first chunks that `session_out_flush` counts. -/
def flushTotal (nodes : List (Nat × OutChunk)) : Nat :=
  (((nodes.takeWhile fun n => n.2.len ≠ 0).take iovMax).map fun n => n.2.len).sum

/-- One iteration of the loop of `session_out_flush`, without its test: the flag
says whether the loop goes on. -/
def flushOnce (s : Session) (n : Nat × OutChunk) : Bool × Session :=
  if n.2.len = 0 then (true, sessionOutPopChunk s)
  else
    let total := flushTotal s.out.nodes
    let (sent, s) := sessionOutTrySendv env s
    if sent = total then (true, sessionOutAdvanceSent s sent.toNat)
    else if 0 < sent then (true, sessionOutAdvanceSent s sent.toNat)
    else (false, s)

theorem flushTotal_pos {s : Session} {n : Nat × OutChunk} {rest : List (Nat × OutChunk)}
    (hn : s.out.nodes = n :: rest) (hl : n.2.len ≠ 0) : 0 < flushTotal s.out.nodes := by
  simp only [flushTotal, hn, iovMax]
  rw [List.takeWhile_cons_of_pos (by simpa using hl), List.take_succ_cons, List.map_cons,
    List.sum_cons]
  omega

theorem flushOnce_size {s t : Session} {n : Nat × OutChunk} {rest : List (Nat × OutChunk)}
    (hn : s.out.nodes = n :: rest) (h : flushOnce env s n = (true, t)) :
    queueSize t.out.nodes < queueSize s.out.nodes := by
  have hout := sessionOutTrySendv_out env s
  simp only [flushOnce] at h
  split at h
  · cases h
    have := popChunk_size hn
    omega
  · next hl =>
      have hpos := flushTotal_pos hn hl
      cases hr : sessionOutTrySendv env s with
      | mk sent u =>
          rw [hr] at h hout
          simp only at h hout
          have hsent : 0 < sent → queueSize (sessionOutAdvanceSent u sent.toNat).out.nodes
              < queueSize s.out.nodes := by
            intro hs
            rw [← hout]
            exact advanceSent_size_lt (hout.symm ▸ hn) (by omega)
          split at h
          · cases h
            exact hsent (by omega)
          · split at h
            · next hs =>
                cases h
                exact hsent hs
            · cases h

/-- The loop of `session_out_flush`. -/
def flushLoop (s : Session) : Session :=
  match _hn : s.out.nodes with
  | [] => s
  | n :: _ =>
      match _h : flushOnce env s n with
      | (true, t) => flushLoop t
      | (false, t) => t
termination_by queueSize s.out.nodes
decreasing_by exact flushOnce_size env ‹_› ‹_›

theorem flushLoop_nil {s : Session} (hn : s.out.nodes = []) : flushLoop env s = s := by
  rw [flushLoop]
  split
  · rfl
  · next h => rw [hn] at h; cases h

theorem flushLoop_cons {s t : Session} {n : Nat × OutChunk} {rest : List (Nat × OutChunk)}
    {go : Bool} (hn : s.out.nodes = n :: rest) (h : flushOnce env s n = (go, t)) :
    flushLoop env s = if go then flushLoop env t else t := by
  rw [flushLoop]
  split
  · next h' => rw [hn] at h'; cases h'
  · next h' =>
      rw [hn] at h'
      cases h'
      split
      · next h' =>
          rw [h] at h'
          cases h'
          rfl
      · next h' =>
          rw [h] at h'
          cases h'
          rfl

/-- `session_out_flush`. -/
def sessionOutFlush (s : Session) : Session :=
  if s.sock = none then s else flushLoop env s

/-! ## The interface -/

/-- `ztk_tcp_session_flush`. -/
def tcpSessionFlush (s : Session) : Session := sessionOutFlush env s

/-- The part of a send call after the bytes are queued. -/
def flushed (r : Bool × Session) : Err × Session :=
  if r.1 then (.ok, sessionOutFlush env r.2) else (.nomem, r.2)

/-- The part of a send call after the bytes are queued because the socket is full. -/
def queued (r : Bool × Session) : Err × Session :=
  if r.1 then (.ok, r.2) else (.nomem, r.2)

/-- `ztk_tcp_session_send`. -/
def tcpSessionSend (s : Session) (data : Option (List UInt8)) : Err × Session :=
  match data with
  | none => (.invalid, s)
  | some data =>
      if s.closing ∨ data = [] then (.invalid, s)
      else if s.out.nodes ≠ [] then flushed env (sessionOutAppendMem env s data)
      else
        let (n, s) := socketSend env s data
        if n = data.length then (.ok, s)
        else if 0 < n then flushed env (sessionOutAppendMem env s (data.drop n.toNat))
        else if n = Err.again.code then queued (sessionOutAppendMem env s data)
        else (.ofCode n, s)

/-- The loop that queues parts. -/
def appendParts (s : Session) : List (List UInt8) → Bool × Session
  | [] => (true, s)
  | p :: ps =>
      match sessionOutAppendMem env s p with
      | (false, s) => (false, s)
      | (true, s) => appendParts s ps

/-- The loop that queues what is left of the parts after `skip` bytes. -/
def appendRest (s : Session) : List (List UInt8) → Nat → Bool × Session
  | [], _ => (true, s)
  | p :: ps, skip =>
      if p.length ≤ skip then appendRest s ps (skip - p.length)
      else
        match sessionOutAppendMem env s (p.drop skip) with
        | (false, s) => (false, s)
        | (true, s) => appendParts env s ps

/-- `ztk_tcp_session_sendv`. -/
def tcpSessionSendv (s : Session) (parts : Option (List (Option (List UInt8)))) :
    Err × Session :=
  match parts with
  | none => (.invalid, s)
  | some parts =>
      if s.closing ∨ parts = [] then (.invalid, s)
      else
        let parts := parts.take iovMax
        if ∃ p ∈ parts, p = none ∨ p = some [] then (.invalid, s)
        else
          let parts := parts.filterMap id
          if s.out.nodes ≠ [] then flushed env (appendParts env s parts)
          else
            let (n, s) := socketSendv env s parts
            if n = parts.flatten.length then (.ok, s)
            else if 0 < n then flushed env (appendRest env s parts n.toNat)
            else if n = Err.again.code then queued (appendParts env s parts)
            else (.ofCode n, s)

/-- `ztk_tcp_session_send_buf`. -/
def tcpSessionSendBuf (s : Session) (buf : Option Nat) : Err × Session :=
  match buf with
  | none => (.invalid, s)
  | some b =>
      if s.closing then (.invalid, s)
      else
        let len := s.bufs.bufLen b
        if len = 0 then (.ok, s)
        else if s.out.nodes ≠ [] then flushed env (sessionOutAppendBuf env s b)
        else
          let (n, s) := socketSend env s ((s.bufs.bufData b).take len)
          if n = len then (.ok, s)
          else if 0 < n then flushed env (enqueueBuf env s b n.toNat (len - n.toNat))
          else if n = Err.again.code then queued (sessionOutAppendBuf env s b)
          else (.ofCode n, s)

/-- `while (session->out_head) session_out_pop_chunk(session);` -/
def popAll (s : Session) : Session := s.out.nodes.foldl (fun s _ => sessionOutPopChunk s) s

/-- `ztk_tcp_session_out_discard`. -/
def tcpSessionOutDiscard (s : Session) : Session :=
  { popAll s with outHighwaterHit := false, events := (popAll s).events ++ [.discard] }

end Ztk.Net
