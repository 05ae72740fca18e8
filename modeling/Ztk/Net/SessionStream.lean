import Ztk.Net.SessionMeter
import Ztk.Net.SessionRefs

/-!
# The byte stream of a session

The stream of a session is what the socket has taken followed by the unsent
parts of the queued chunks.  Sending from the queue moves bytes from the second
part to the first and leaves the stream alone, whatever the platform takes; a
call that queues bytes, or hands them to the socket and queues the rest,
extends the stream by its payload.  Every function has one lemma that says so
(`Flushed`, `Queued` and, for the interface, `Sent`).
-/

namespace Ztk.Net

open Ztk.Lib Ztk.Util

/-! ## The stream -/

/-- The unsent bytes of the queue. -/
def queuedBytes (h : BufHeap) (nodes : List (Nat × OutChunk)) : List UInt8 :=
  nodes.flatMap fun n => chunkBytes h n.2

/-- The bytes accepted by the socket, then those in the queue. -/
def Session.stream (s : Session) : List UInt8 := s.wire ++ queuedBytes s.bufs s.out.nodes

/-- The queue is well linked, its chunks lie within live buffers, its references
and bytes are counted, and so is its history. -/
structure OutInv (held : Nat → Nat) (s : Session) : Prop where
  wf : s.out.WF
  below : ∀ n ∈ s.out.nodes, n.1 < s.chunks
  chunks : ∀ n ∈ s.out.nodes, ∃ b, n.2.payload = .buf b ∧ 0 < n.2.len ∧
    n.2.off + n.2.len ≤ (s.bufs.bufData b).length
  counted : Counted held s.bufs s.out.nodes
  pending : s.outPending = (s.out.nodes.map fun n => n.2.len).sum
  metered : Metered s

/-- The buffers with an owner outside the queue keep their contents. -/
def Keeps (held : Nat → Nat) (h h' : BufHeap) : Prop :=
  ∀ b, 0 < held b → h'.bufData b = h.bufData b

theorem Keeps.refl (held : Nat → Nat) (h : BufHeap) : Keeps held h h := fun _ _ => rfl

theorem Keeps.trans {held : Nat → Nat} {h₁ h₂ h₃ : BufHeap} (h : Keeps held h₁ h₂)
    (h' : Keeps held h₂ h₃) : Keeps held h₁ h₃ :=
  fun b hb => (h' b hb).trans (h b hb)

theorem Keeps.of_bump {held : Nat → Nat} {b : Nat} {h h' : BufHeap} (hk : Keeps (bump held b) h h') :
    Keeps held h h' := by
  intro c hc
  refine hk c ?_
  rw [bump]
  split
  · exact Nat.succ_pos _
  · exact hc

theorem refs_pos {nodes : List (Nat × OutChunk)} {n : Nat × OutChunk} {b : Nat}
    (hn : n ∈ nodes) (hb : n.2.payload = .buf b) : 0 < refs nodes b := by
  refine List.countP_pos_iff.mpr ⟨n, hn, ?_⟩
  simp [OutChunk.points, hb]

theorem refs_cons_self {n : Nat × OutChunk} {rest : List (Nat × OutChunk)} {b : Nat}
    (hb : n.2.payload = .buf b) : refs (n :: rest) b = refs rest b + 1 := by
  rw [refs, List.countP_cons_of_pos (by simp [OutChunk.points, hb])]
  rfl

theorem refs_cons_of_ne {n : Nat × OutChunk} {rest : List (Nat × OutChunk)} {b c : Nat}
    (hb : n.2.payload = .buf b) (hne : c ≠ b) : refs (n :: rest) c = refs rest c := by
  rw [refs, List.countP_cons_of_neg (by simp [OutChunk.points, hb, Ne.symm hne])]
  rfl

/-- The references of a queue with one more chunk at its end. -/
theorem refs_append {n : Nat × OutChunk} {nodes : List (Nat × OutChunk)} (b : Nat) :
    refs (nodes ++ [n]) b = refs (n :: nodes) b := by
  simp only [refs, List.countP_append, List.countP_cons, List.countP_nil]
  omega

/-- The bytes of a chunk depend on the contents of its buffer only. -/
theorem chunkBytes_congr {h h' : BufHeap} {c : OutChunk}
    (hd : ∀ b, c.payload = .buf b → h'.bufData b = h.bufData b) :
    chunkBytes h' c = chunkBytes h c := by
  simp only [chunkBytes, sessionChunkPtr]
  cases hp : c.payload with
  | mem bytes => rfl
  | buf b => simp only [hd b hp]

theorem queuedBytes_congr {h h' : BufHeap} {nodes : List (Nat × OutChunk)}
    (hd : ∀ n ∈ nodes, ∀ b, n.2.payload = .buf b → h'.bufData b = h.bufData b) :
    queuedBytes h' nodes = queuedBytes h nodes := by
  refine List.flatMap_congr fun n hn => ?_
  exact chunkBytes_congr (hd n hn)

namespace OutInv

variable {held : Nat → Nat} {s : Session}

theorem chunkBytes_length (h : OutInv held s) {n : Nat × OutChunk} (hn : n ∈ s.out.nodes) :
    (chunkBytes s.bufs n.2).length = n.2.len := by
  obtain ⟨b, hb, -, hle⟩ := h.chunks n hn
  simp only [chunkBytes, sessionChunkPtr, hb, List.length_take, List.length_drop]
  omega

/-- `out_pending` counts the unsent bytes. -/
theorem pending_eq (h : OutInv held s) :
    s.outPending = (queuedBytes s.bufs s.out.nodes).length := by
  rw [h.pending, queuedBytes, List.length_flatMap]
  exact congrArg List.sum (List.map_congr_left fun _ hn => (h.chunkBytes_length hn).symm)

/-- A heap where the queued buffers have the same size. -/
theorem onHeap (h : OutInv held s) {held' : Nat → Nat} {bufs : BufHeap}
    (hc : Counted held' bufs s.out.nodes)
    (hd : ∀ b, 0 < refs s.out.nodes b → (bufs.bufData b).length = (s.bufs.bufData b).length) :
    OutInv held' { s with bufs := bufs } :=
  { h with
    counted := hc
    chunks := fun n hn => by
      obtain ⟨b, hb, hl, hle⟩ := h.chunks n hn
      refine ⟨b, hb, hl, ?_⟩
      show _ ≤ (bufs.bufData b).length
      rw [hd b (refs_pos hn hb)]
      exact hle }

/-- A heap with the same contents of the queued buffers. -/
theorem onBufs (h : OutInv held s) {held' : Nat → Nat} {bufs : BufHeap}
    (hc : Counted held' bufs s.out.nodes)
    (hd : ∀ b, 0 < refs s.out.nodes b → bufs.bufData b = s.bufs.bufData b) :
    OutInv held' { s with bufs := bufs } ∧
      queuedBytes bufs s.out.nodes = queuedBytes s.bufs s.out.nodes :=
  ⟨h.onHeap hc fun b hb => congrArg List.length (hd b hb),
    queuedBytes_congr fun _ hn b hb => hd b (refs_pos hn hb)⟩

/-- A reference from outside is given back.  The queued bytes stay. -/
theorem unref {b : Nat} (h : OutInv (bump held b) s) :
    OutInv held { s with bufs := s.bufs.bufUnref b } ∧
      queuedBytes (s.bufs.bufUnref b) s.out.nodes = queuedBytes s.bufs s.out.nodes :=
  h.onBufs h.counted.unref fun _ hp => h.counted.unref_data (Nat.add_pos_right _ hp)

theorem keeps_unref {b : Nat} (h : OutInv (bump held b) s) :
    Keeps held s.bufs (s.bufs.bufUnref b) :=
  fun _ hc => h.counted.unref_data (Nat.add_pos_left hc _)

end OutInv

/-! ## Sending from the queue -/

/-- `t` is `s` with the first bytes of its queue gone. -/
structure Drained (held : Nat → Nat) (s t : Session) (k : Nat) : Prop where
  inv : OutInv held t
  bytes : queuedBytes t.bufs t.out.nodes = (queuedBytes s.bufs s.out.nodes).drop k
  calls : t.calls = s.calls
  closing : t.closing = s.closing
  sock : t.sock = s.sock
  frame : Keeps held s.bufs t.bufs

theorem Drained.refl {held : Nat → Nat} {s : Session} (h : OutInv held s) : Drained held s s 0 :=
  ⟨h, rfl, rfl, rfl, rfl, .refl _ _⟩

theorem Drained.trans {held : Nat → Nat} {s t u : Session} {j k : Nat} (h₁ : Drained held s t j)
    (h₂ : Drained held t u k) : Drained held s u (j + k) where
  inv := h₂.inv
  bytes := by rw [h₂.bytes, h₁.bytes, List.drop_drop]
  calls := h₂.calls.trans h₁.calls
  closing := h₂.closing.trans h₁.closing
  sock := h₂.sock.trans h₁.sock
  frame := h₁.frame.trans h₂.frame

/-- Popping the first chunk drops its bytes. -/
theorem OutInv.popChunk {held : Nat → Nat} {s : Session} (h : OutInv held s)
    {n : Nat × OutChunk} {rest : List (Nat × OutChunk)} (hn : s.out.nodes = n :: rest) :
    Drained held s (sessionOutPopChunk s) n.2.len := by
  have hmem : n ∈ s.out.nodes := by rw [hn]; exact List.mem_cons_self
  obtain ⟨b, hb, -, -⟩ := h.chunks n hmem
  have hpend : s.outPending = n.2.len + (rest.map fun n => n.2.len).sum := by
    rw [h.pending, hn, List.map_cons, List.sum_cons]
  have htail : s.out.popFront.nodes = rest := by rw [Chain.popFront_nodes, hn, List.tail_cons]
  -- the reference of the chunk goes to the function that frees it
  have hdet : OutInv (bump held b) { s with
      out := s.out.popFront
      outPending := if n.2.len ≤ s.outPending then s.outPending - n.2.len else 0
      events := s.events ++ [.deduct s.outPending n.2.len] } :=
    { wf := h.wf.popFront
      below := fun m hm => h.below m (by rw [hn]; rw [htail] at hm; exact List.mem_cons_of_mem _ hm)
      chunks := fun m hm => h.chunks m (by
        rw [hn]
        rw [htail] at hm
        exact List.mem_cons_of_mem _ hm)
      counted := h.counted.congr fun c => by
        show bump held b c + refs s.out.popFront.nodes c = _
        rw [htail, hn]
        by_cases hcb : c = b
        · subst hcb
          rw [bump_self, refs_cons_self hb]
          omega
        · rw [bump_of_ne _ hcb, refs_cons_of_ne hb hcb]
      pending := by
        show (if n.2.len ≤ s.outPending then s.outPending - n.2.len else 0)
          = (s.out.popFront.nodes.map fun n => n.2.len).sum
        rw [htail, if_pos (by omega)]
        omega
      metered := h.metered.deduct (by omega) rfl rfl rfl rfl }
  obtain ⟨hinv, hbytes⟩ := hdet.unref
  have heq : sessionOutPopChunk s = { s with
      out := s.out.popFront
      outPending := if n.2.len ≤ s.outPending then s.outPending - n.2.len else 0
      events := s.events ++ [.deduct s.outPending n.2.len]
      bufs := s.bufs.bufUnref b } := by
    simp only [sessionOutPopChunk, hn, sessionOutFreeChunk, hb]
  rw [heq]
  refine ⟨hinv, ?_, rfl, rfl, rfl, hdet.keeps_unref⟩
  rw [hbytes]
  show queuedBytes s.bufs s.out.popFront.nodes = _
  rw [htail, hn, queuedBytes, queuedBytes, List.flatMap_cons,
    List.drop_left' (h.chunkBytes_length hmem)]

/-- The loop of `ztk_tcp_session_out_discard` and `session_destroy` drops
everything and gives every reference back. -/
theorem OutInv.popAll {held : Nat → Nat} {s : Session} (h : OutInv held s) :
    OutInv held (popAll s) ∧ (popAll s).out.nodes = [] ∧ Keeps held s.bufs (popAll s).bufs := by
  obtain ⟨nodes, hn⟩ : ∃ nodes, s.out.nodes = nodes := ⟨_, rfl⟩
  rw [Net.popAll, hn]
  induction nodes generalizing s with
  | nil => exact ⟨h, hn, .refl _ _⟩
  | cons n rest ih =>
      have hd := h.popChunk hn
      obtain ⟨hinv, hnil, hk⟩ := ih hd.inv (by
        rw [sessionOutPopChunk_out hn, Chain.popFront_nodes, hn, List.tail_cons])
      exact ⟨hinv, hnil, hd.frame.trans hk⟩

/-- `ztk_tcp_session_out_discard` leaves nothing queued. -/
theorem OutInv.discard {held : Nat → Nat} {s : Session} (h : OutInv held s) :
    OutInv held (tcpSessionOutDiscard s) ∧ (tcpSessionOutDiscard s).out.nodes = [] ∧
      Keeps held s.bufs (tcpSessionOutDiscard s).bufs := by
  obtain ⟨hinv, hnil, hk⟩ := h.popAll
  have hz : (Net.popAll s).outPending = 0 := by rw [hinv.pending, hnil]; rfl
  exact ⟨{ hinv with metered := hinv.metered.discard hz rfl rfl hz rfl }, hnil, hk⟩

/-- Moving `off` and `len` of the first chunk drops bytes of it. -/
theorem OutInv.cut {held : Nat → Nat} {s : Session} (h : OutInv held s)
    {n : Nat × OutChunk} {rest : List (Nat × OutChunk)} (hn : s.out.nodes = n :: rest) {k : Nat}
    (hk : k < n.2.len) : Drained held s (sessionOutCut s k) k := by
  have hmem : n ∈ s.out.nodes := by rw [hn]; exact List.mem_cons_self
  obtain ⟨b, hb, hl, hle⟩ := h.chunks n hmem
  have hpend : s.outPending = n.2.len + (rest.map fun n => n.2.len).sum := by
    rw [h.pending, hn, List.map_cons, List.sum_cons]
  have hnodes : (sessionOutCut s k).out.nodes =
      (n.1, { n.2 with off := n.2.off + k, len := n.2.len - k }) :: rest := by
    simp [sessionOutCut, Chain.modifyHead, hn]
  refine ⟨⟨h.wf.modifyHead fun c => { c with off := c.off + k, len := c.len - k }, ?_, ?_, ?_, ?_,
    h.metered.deduct (by omega) rfl rfl rfl rfl⟩, ?_, rfl, rfl, rfl, .refl _ _⟩
  · intro m hm
    rw [hnodes] at hm
    rcases List.mem_cons.mp hm with rfl | hm
    · exact h.below n hmem
    · exact h.below m (by rw [hn]; exact List.mem_cons_of_mem _ hm)
  · intro m hm
    rw [hnodes] at hm
    rcases List.mem_cons.mp hm with rfl | hm
    · refine ⟨b, hb, ?_, ?_⟩
      · show 0 < n.2.len - k
        omega
      · show n.2.off + k + (n.2.len - k) ≤ (s.bufs.bufData b).length
        omega
    · exact h.chunks m (by rw [hn]; exact List.mem_cons_of_mem _ hm)
  · refine h.counted.congr fun c => ?_
    rw [hnodes, hn]
    simp only [refs, List.countP_cons, OutChunk.points]
  · rw [hnodes, List.map_cons, List.sum_cons]
    show (if k ≤ s.outPending then s.outPending - k else 0) = n.2.len - k + _
    rw [if_pos (by omega)]
    omega
  · rw [hnodes, hn, queuedBytes, queuedBytes, List.flatMap_cons, List.flatMap_cons,
      List.drop_append_of_le_length (by rw [h.chunkBytes_length hmem]; omega)]
    congr 1
    simp only [chunkBytes, sessionChunkPtr, hb, sessionOutCut]
    rw [List.drop_take, List.drop_drop]

/-- `session_out_advance_sent` drops exactly the bytes that were sent. -/
theorem OutInv.advanceSent {held : Nat → Nat} {s : Session} (h : OutInv held s) (k : Nat) :
    Drained held s (sessionOutAdvanceSent s k) k := by
  induction s, k using sessionOutAdvanceSent.induct with
  | case1 s k hn =>
      rw [sessionOutAdvanceSent_nil hn]
      refine ⟨h, ?_, rfl, rfl, rfl, .refl _ _⟩
      rw [hn]
      simp [queuedBytes]
  | case2 s n rest hn =>
      rw [sessionOutAdvanceSent_cons hn, if_pos rfl]
      exact .refl h
  | case3 s k n rest hn h0 hl ih =>
      obtain ⟨b, -, hpos, -⟩ := h.chunks n (by rw [hn]; exact List.mem_cons_self)
      omega
  | case4 s k n rest hn h0 hl hle ih =>
      rw [sessionOutAdvanceSent_cons hn, if_neg h0, if_neg hl, if_pos hle]
      have hpop := h.popChunk hn
      have := hpop.trans (ih hpop.inv)
      rwa [Nat.add_sub_cancel' hle] at this
  | case5 s k n rest hn h0 hl hle =>
      rw [sessionOutAdvanceSent_cons hn, if_neg h0, if_neg hl, if_neg hle]
      exact h.cut hn (Nat.lt_of_not_le hle)

variable (env : NetEnv)

/-- `t` is `s` after a call of the platform that was offered `bytes` and returned
`n`, or after a call that did not reach the platform. -/
structure Offered (s t : Session) (bytes : List UInt8) (n : Int) : Prop where
  same : t = { s with calls := t.calls }
  le : n ≤ bytes.length
  ge : -2 ^ 31 ≤ n
  wire : t.wire = s.wire ++ bytes.take n.toNat

theorem platSend_offered (s : Session) (parts : List (List UInt8)) :
    Offered s (s.platSend env parts).2 parts.flatten (s.platSend env parts).1 where
  same := rfl
  le := env.send_le _ _
  ge := env.send_ge _ _
  wire := by
    simp only [Session.platSend, Session.wire, List.flatMap_append, List.flatMap_cons,
      List.flatMap_nil, List.append_nil, SendCall.accepted]

/-- The socket refuses before the platform is asked. -/
theorem invalid_offered (s : Session) (bytes : List UInt8) :
    Offered s s bytes Err.invalid.code where
  same := rfl
  le := by
    show (-2 : Int) ≤ bytes.length
    omega
  ge := by decide
  wire := by simp [Err.code]

theorem socketSend_offered (s : Session) (data : List UInt8) :
    Offered s (socketSend env s data).2 data (socketSend env s data).1 := by
  simp only [socketSend]
  split
  · exact invalid_offered s data
  · split
    · exact invalid_offered s data
    · have := platSend_offered env s [data]
      rwa [List.flatten_singleton] at this

/-- `ztk_socket_sendv` offers all of at most 16 parts. -/
theorem socketSendv_offered (s : Session) {iov : List (List UInt8)} (hl : iov.length ≤ iovMax) :
    Offered s (socketSendv env s iov).2 iov.flatten (socketSendv env s iov).1 := by
  simp only [socketSendv]
  split
  · exact invalid_offered s _
  · split
    · exact invalid_offered s _
    · split
      · exact invalid_offered s _
      · have := platSend_offered env s (iov.take iovMax)
        rwa [List.take_of_length_le hl] at this ⊢

/-- The chunks of one call of the platform, with all of their unsent bytes. -/
theorem OutInv.trySendv {held : Nat → Nat} {s : Session} (h : OutInv held s) :
    Offered s (sessionOutTrySendv env s).2
      (queuedBytes s.bufs (s.out.nodes.take iovMax)) (sessionOutTrySendv env s).1 := by
  have hfilter : (s.out.nodes.filter fun n => n.2.len ≠ 0) = s.out.nodes := by
    refine List.filter_eq_self.mpr fun n hn => ?_
    obtain ⟨b, -, hl, -⟩ := h.chunks n hn
    simpa using Nat.pos_iff_ne_zero.mp hl
  have hflat : ∀ nodes : List (Nat × OutChunk),
      (nodes.map fun n => chunkBytes s.bufs n.2).flatten = queuedBytes s.bufs nodes :=
    fun nodes => rfl
  simp only [sessionOutTrySendv]
  split
  · exact invalid_offered s _
  · simp only [hfilter]
    rw [← hflat]
    split
    · next hiov =>
        rw [hiov]
        exact ⟨rfl, Int.le_refl 0, by show (-2 : Int) ^ 31 ≤ 0; decide, by simp⟩
    · next hiov =>
        rw [hiov, List.flatten_singleton]
        exact socketSend_offered env s _
    · next hiov =>
        refine socketSendv_offered env s ?_
        rw [List.length_map, List.length_take]
        exact Nat.min_le_left _ _

/-- Sending from the queue leaves the stream alone. -/
structure Flushed (held : Nat → Nat) (s t : Session) : Prop where
  inv : OutInv held t
  stream : t.stream = s.stream
  closing : t.closing = s.closing
  sock : t.sock = s.sock
  frame : Keeps held s.bufs t.bufs

theorem OutInv.sameOut {held : Nat → Nat} {s t : Session} (h : OutInv held s)
    (hs : t = { s with calls := t.calls }) : OutInv held t := by
  rw [hs]
  exact { h with }

/-- One iteration of `session_out_flush`. -/
theorem OutInv.flushOnce {held : Nat → Nat} {s : Session} (h : OutInv held s)
    {n : Nat × OutChunk} {rest : List (Nat × OutChunk)} (hn : s.out.nodes = n :: rest) :
    Flushed held s (flushOnce env s n).2 := by
  obtain ⟨b, -, hl, -⟩ := h.chunks n (by rw [hn]; exact List.mem_cons_self)
  have ho := h.trySendv env
  have hprefix : queuedBytes s.bufs s.out.nodes =
      queuedBytes s.bufs (s.out.nodes.take iovMax) ++
        queuedBytes s.bufs (s.out.nodes.drop iovMax) := by
    rw [queuedBytes, queuedBytes, queuedBytes, ← List.flatMap_append, List.take_append_drop]
  simp only [Net.flushOnce]
  rw [if_neg (by omega)]
  cases hr : sessionOutTrySendv env s with
  | mk sent t =>
      rw [hr] at ho
      obtain ⟨hsame, hle, -, hwire⟩ := ho
      simp only at hsame hle hwire ⊢
      have ht := h.sameOut hsame
      have hout : t.out = s.out := by rw [hsame]
      have hbufs : t.bufs = s.bufs := by rw [hsame]
      have hclosing : t.closing = s.closing := by rw [hsame]
      have hsock : t.sock = s.sock := by rw [hsame]
      have hadv : Flushed held s (sessionOutAdvanceSent t sent.toNat) := by
        have hd := ht.advanceSent sent.toNat
        refine ⟨hd.inv, ?_, hd.closing.trans hclosing, hd.sock.trans hsock, hbufs ▸ hd.frame⟩
        have hw : (sessionOutAdvanceSent t sent.toNat).wire = t.wire := by
          rw [Session.wire, Session.wire, hd.calls]
        rw [Session.stream, Session.stream, hd.bytes, hw, hwire, hout, hbufs, List.append_assoc,
          hprefix, List.drop_append_of_le_length (by omega), ← List.append_assoc (List.take _ _),
          List.take_append_drop]
      split
      · exact hadv
      · split
        · exact hadv
        · next hpos =>
            refine ⟨ht, ?_, hclosing, hsock, hbufs ▸ .refl _ _⟩
            rw [Session.stream, Session.stream, hwire, hout, hbufs,
              Int.toNat_of_nonpos (by omega), List.take_zero, List.append_nil]

theorem Flushed.trans {held : Nat → Nat} {s t u : Session} (h₁ : Flushed held s t)
    (h₂ : Flushed held t u) : Flushed held s u :=
  ⟨h₂.inv, h₂.stream.trans h₁.stream, h₂.closing.trans h₁.closing, h₂.sock.trans h₁.sock,
    h₁.frame.trans h₂.frame⟩

theorem OutInv.flushLoop {held : Nat → Nat} {s : Session} (h : OutInv held s) :
    Flushed held s (flushLoop env s) := by
  induction s using flushLoop.induct env with
  | case1 s hn =>
      rw [flushLoop_nil env hn]
      exact ⟨h, rfl, rfl, rfl, .refl _ _⟩
  | case2 s n rest hn t ht ih =>
      rw [flushLoop_cons env hn ht, if_pos rfl]
      have hf := h.flushOnce env hn
      rw [ht] at hf
      exact hf.trans (ih hf.inv)
  | case3 s n rest hn t ht =>
      rw [flushLoop_cons env hn ht, if_neg Bool.false_ne_true]
      have hf := h.flushOnce env hn
      rwa [ht] at hf

theorem OutInv.flush {held : Nat → Nat} {s : Session} (h : OutInv held s) :
    Flushed held s (sessionOutFlush env s) := by
  simp only [sessionOutFlush]
  split
  · exact ⟨h, rfl, rfl, rfl, .refl _ _⟩
  · exact h.flushLoop env

/-! ## Queueing bytes -/

/-- `t` is `s` with `bytes` at the end of its queue. -/
structure Queued (held : Nat → Nat) (s t : Session) (bytes : List UInt8) : Prop where
  inv : OutInv held t
  queue : queuedBytes t.bufs t.out.nodes = queuedBytes s.bufs s.out.nodes ++ bytes
  calls : t.calls = s.calls
  closing : t.closing = s.closing
  frame : Keeps held s.bufs t.bufs

theorem Queued.nil {held : Nat → Nat} {s : Session} (h : OutInv held s) : Queued held s s [] :=
  ⟨h, (List.append_nil _).symm, rfl, rfl, .refl _ _⟩

theorem Queued.trans {held : Nat → Nat} {s t u : Session} {xs ys : List UInt8}
    (h₁ : Queued held s t xs) (h₂ : Queued held t u ys) : Queued held s u (xs ++ ys) where
  inv := h₂.inv
  queue := by rw [h₂.queue, h₁.queue, List.append_assoc]
  calls := h₂.calls.trans h₁.calls
  closing := h₂.closing.trans h₁.closing
  frame := h₁.frame.trans h₂.frame

/-- A chunk takes over a reference and adds its bytes. -/
theorem OutInv.enqueue {held : Nat → Nat} {s : Session} {b : Nat} (addr off len : Nat)
    (h : OutInv (bump held b) { s with chunks := addr }) (hlen : 0 < len)
    (hle : off + len ≤ (s.bufs.bufData b).length) (hchunks : s.chunks = addr + 1) :
    Queued held s (sessionOutEnqueue s addr ⟨.buf b, off, len⟩)
      (((s.bufs.bufData b).drop off).take len) := by
  have hmetered : Metered (sessionOutEnqueue s addr ⟨.buf b, off, len⟩) :=
    Metered.enqueue (s := s) h.metered addr hlen
  obtain ⟨hit, notified, calls, heq⟩ := sessionOutEnqueue_eq s addr ⟨.buf b, off, len⟩
  have hnodes := h.wf.pushBack_nodes (addr, ⟨.buf b, off, len⟩)
  have haddr : addr ∉ s.out.addrs := by
    intro hm
    obtain ⟨n, hn, rfl⟩ := List.mem_map.mp hm
    exact Nat.lt_irrefl _ (h.below n hn)
  rw [heq] at hmetered ⊢
  refine ⟨?_, ?_, rfl, rfl, .refl _ _⟩
  · exact
      { wf := h.wf.pushBack haddr
        below := fun n hn => by
          rcases Chain.pushBack_subset _ _ n hn with hn | rfl
          · have := h.below n hn
            show n.1 < s.chunks
            simp only at this
            omega
          · show addr < s.chunks
            omega
        chunks := fun n hn => by
          rcases Chain.pushBack_subset _ _ n hn with hn | rfl
          · exact h.chunks n hn
          · exact ⟨b, rfl, hlen, hle⟩
        counted := h.counted.congr fun c => by
          show held c + refs (s.out.pushBack _).nodes c = _
          rw [hnodes, refs_append]
          by_cases hcb : c = b
          · subst hcb
            rw [refs_cons_self rfl, bump_self]
            omega
          · rw [refs_cons_of_ne rfl hcb, bump_of_ne _ hcb]
        pending := by
          have hp : s.outPending = (s.out.nodes.map fun n => n.2.len).sum := h.pending
          show s.outPending + len = ((s.out.pushBack _).nodes.map fun n => n.2.len).sum
          rw [hnodes, List.map_append, List.sum_append, hp]
          rfl
        metered := hmetered }
  · show queuedBytes s.bufs (s.out.pushBack (addr, ⟨.buf b, off, len⟩)).nodes = _
    rw [hnodes, queuedBytes, List.flatMap_append]
    simp [queuedBytes, chunkBytes, sessionChunkPtr]

/-- What queueing returns, and the bytes that it put into the queue. -/
structure Appended (held : Nat → Nat) (s : Session) (r : Bool × Session)
    (o : Bool × List UInt8) : Prop where
  flag : r.1 = o.1
  queued : Queued held s r.2 o.2

/-- A chunk for bytes of a buffer, when there is memory for it. -/
def bufOutcome (s : Session) (bytes : List UInt8) : Bool × List UInt8 :=
  (env.calloc s.chunks, if env.calloc s.chunks then bytes else [])

theorem OutInv.enqueueBuf {held : Nat → Nat} {s : Session} (h : OutInv held s)
    {b off len : Nat} {x : Buf} (hx : s.bufs.buf b = some x) (hlen : 0 < len)
    (hle : off + len ≤ x.cap) :
    Appended held s (enqueueBuf env s b off len)
      (bufOutcome env s ((x.data.drop off).take len)) := by
  have hdata : s.bufs.bufData b = x.data := by rw [BufHeap.bufData, hx]; rfl
  have href : (s.bufs.bufRef b).bufData b = x.data := by rw [Counted.ref_data, hdata]
  simp only [Net.enqueueBuf, bufOutcome]
  by_cases hc : env.calloc s.chunks
  · obtain ⟨hinv, hbytes⟩ := h.onBufs (h.counted.ref hx) fun c _ => Counted.ref_data s.bufs b c
    have hq := OutInv.enqueue (s := { s with chunks := s.chunks + 1, bufs := s.bufs.bufRef b })
      s.chunks off len hinv hlen (by rw [href]; exact hle) rfl
    rw [href] at hq
    simp only [hc, if_true]
    refine ⟨rfl, hq.inv, ?_, hq.calls, hq.closing, ?_⟩
    · rw [hq.queue]
      exact congrArg (· ++ _) hbytes
    · exact Keeps.trans (fun c _ => Counted.ref_data s.bufs b c) hq.frame
  · simp only [hc, Bool.false_eq_true, if_false]
    -- a refused chunk uses up an address
    have hinv : OutInv held { s with chunks := s.chunks + 1 } :=
      { h with below := fun n hn => Nat.lt_succ_of_lt (h.below n hn) }
    exact ⟨rfl, hinv, (List.append_nil _).symm, rfl, rfl, .refl _ _⟩

theorem enqueueBuf_counts (s : Session) (b off len : Nat) :
    (enqueueBuf env s b off len).2.chunks = s.chunks + 1 ∧
      (enqueueBuf env s b off len).2.allocs = s.allocs := by
  rw [Net.enqueueBuf]
  simp only
  split
  · obtain ⟨hit, notified, calls, heq⟩ := sessionOutEnqueue_eq
      { s with chunks := s.chunks + 1, bufs := s.bufs.bufRef b } s.chunks ⟨.buf b, off, len⟩
    rw [heq]
    exact ⟨rfl, rfl⟩
  · exact ⟨rfl, rfl⟩

theorem OutInv.appendBuf {held : Nat → Nat} {s : Session} (h : OutInv held s)
    {b : Nat} {x : Buf} (hx : s.bufs.buf b = some x) (hlen : 0 < x.len) :
    Appended held s (sessionOutAppendBuf env s b) (bufOutcome env s (x.data.take x.len)) := by
  have hl : s.bufs.bufLen b = x.len := by rw [BufHeap.bufLen, hx]; rfl
  obtain ⟨-, -, hle⟩ := h.counted.count b x hx
  simp only [sessionOutAppendBuf, hl, if_neg hlen.ne']
  have := h.enqueueBuf env hx hlen (show 0 + x.len ≤ x.cap by rwa [Nat.zero_add])
  rwa [List.drop_zero] at this

/-- A new buffer belongs to nobody in the queue. -/
theorem OutInv.allocated {held : Nat → Nat} {s : Session} (h : OutInv held s) {x : Buf}
    (hr : x.refcnt = 1) (hl : x.len ≤ x.cap) :
    OutInv (bump held s.bufs.next)
        { s with bufs := ⟨Function.update s.bufs.buf s.bufs.next (some x), s.bufs.next + 1⟩ } ∧
      queuedBytes ⟨Function.update s.bufs.buf s.bufs.next (some x), s.bufs.next + 1⟩ s.out.nodes =
        queuedBytes s.bufs s.out.nodes := by
  refine h.onBufs (h.counted.alloc hr hl) fun c hp => ?_
  have hne := h.counted.ne_next (Nat.add_pos_right _ hp)
  simp only [BufHeap.bufData, Function.update_of_ne hne]

/-- A buffer that `session_out_append_mem` has filled. -/
theorem filled_buf (h : BufHeap) {data : List UInt8} (mem : List UInt8) (hd : data ≠ []) :
    (h.bufAlloc data.length (some mem)).1 = some h.next ∧
      (((h.bufAlloc data.length (some mem)).2.memcpy h.next data).bufSetLen h.next data.length) =
        ⟨Function.update h.buf h.next (some ⟨1, data.length, data ++ mem.drop data.length⟩),
          h.next + 1⟩ := by
  have hne : data.length ≠ 0 := fun he => hd (List.length_eq_zero_iff.mp he)
  have hcap : ¬ (Buf.mk 1 0 (data ++ mem.drop data.length)).cap < data.length := by
    rw [Buf.cap, List.length_append]
    omega
  simp only [BufHeap.bufAlloc, if_neg hne, BufHeap.memcpy, BufHeap.bufSetLen, BufHeap.modify,
    Function.update_self, Function.update_idem, Option.map_some, if_neg hcap]
  exact ⟨trivial, trivial⟩

/-- `session_out_append_mem` with memory. -/
theorem appendMem_eq (s : Session) {data mem : List UInt8} (hd : data ≠ [])
    (hmem : env.alloc s.allocs data.length = some mem) :
    sessionOutAppendMem env s data =
      let r := sessionOutAppendBuf env
        { s with
          allocs := s.allocs + 1
          bufs := ⟨Function.update s.bufs.buf s.bufs.next
            (some ⟨1, data.length, data ++ mem.drop data.length⟩), s.bufs.next + 1⟩ } s.bufs.next
      (r.1, { r.2 with bufs := r.2.bufs.bufUnref s.bufs.next }) := by
  obtain ⟨hsome, hheap⟩ := filled_buf s.bufs mem hd
  simp only [sessionOutAppendMem]
  rw [if_neg hd, hmem]
  simp only [hsome, hheap]

/-- There is memory for a copy of `len` bytes and for its chunk. -/
def memFits (chunks allocs len : Nat) : Bool := (env.alloc allocs len).isSome && env.calloc chunks

def memOutcome (s : Session) (data : List UInt8) : Bool × List UInt8 :=
  (memFits env s.chunks s.allocs data.length,
    if memFits env s.chunks s.allocs data.length then data else [])

theorem OutInv.appendMem {held : Nat → Nat} {s : Session} (h : OutInv held s)
    {data : List UInt8} (hd : data ≠ []) :
    Appended held s (sessionOutAppendMem env s data) (memOutcome env s data) := by
  cases hmem : env.alloc s.allocs data.length with
  | none =>
      have hfail : sessionOutAppendMem env s data = (false, { s with allocs := s.allocs + 1 }) := by
        rw [sessionOutAppendMem, if_neg hd, hmem]
        simp only [BufHeap.bufAlloc, ite_self]
      have hinv : OutInv held { s with allocs := s.allocs + 1 } := { h with }
      rw [hfail, memOutcome, memFits, hmem]
      exact ⟨rfl, hinv, (List.append_nil _).symm, rfl, rfl, .refl _ _⟩
  | some mem =>
      have hle := env.alloc_le _ _ _ hmem
      rw [appendMem_eq env s hd hmem]
      obtain ⟨hnew, hold⟩ := h.allocated (x := ⟨1, data.length, data ++ mem.drop data.length⟩) rfl (by
        show data.length ≤ (data ++ mem.drop data.length).length
        rw [List.length_append]
        omega)
      have hcounted : OutInv (bump held s.bufs.next)
          { s with
            allocs := s.allocs + 1
            bufs := ⟨Function.update s.bufs.buf s.bufs.next
              (some ⟨1, data.length, data ++ mem.drop data.length⟩), s.bufs.next + 1⟩ } :=
        { hnew with }
      obtain ⟨hok, hq⟩ := hcounted.appendBuf env (b := s.bufs.next)
        (x := ⟨1, data.length, data ++ mem.drop data.length⟩) (Function.update_self ..)
        (List.length_pos_iff.mpr hd)
      obtain ⟨hinv, hbytes⟩ := hq.inv.unref
      have hbuf : bufOutcome env s data = memOutcome env s data := by
        rw [memOutcome, memFits, hmem]
        rfl
      rw [← hbuf]
      refine ⟨hok, hinv, ?_, hq.calls, hq.closing, ?_⟩
      · show queuedBytes (BufHeap.bufUnref _ _) _ = _
        rw [hbytes, hq.queue, List.take_left]
        exact congrArg (· ++ _) hold
      · refine Keeps.trans (fun c hc => ?_) (hq.frame.of_bump.trans hq.inv.keeps_unref)
        have hne := h.counted.ne_next (Nat.add_pos_left hc _)
        simp only [BufHeap.bufData, Function.update_of_ne hne]

/-- A copy that was queued used one buffer and one chunk. -/
theorem appendMem_counts {s : Session} {data : List UInt8} (hd : data ≠ [])
    (hfit : memFits env s.chunks s.allocs data.length = true) :
    (sessionOutAppendMem env s data).2.chunks = s.chunks + 1 ∧
      (sessionOutAppendMem env s data).2.allocs = s.allocs + 1 := by
  obtain ⟨halloc, -⟩ := Bool.and_eq_true_iff.mp hfit
  obtain ⟨mem, hmem⟩ := Option.isSome_iff_exists.mp halloc
  have hlen : BufHeap.bufLen ⟨Function.update s.bufs.buf s.bufs.next
      (some ⟨1, data.length, data ++ mem.drop data.length⟩), s.bufs.next + 1⟩ s.bufs.next ≠ 0 := by
    simp [BufHeap.bufLen, hd]
  rw [appendMem_eq env s hd hmem]
  simp only [sessionOutAppendBuf, if_neg hlen]
  exact enqueueBuf_counts env _ _ _ _

/-- The number of parts that are copied before memory runs out. -/
def partsFit (chunks allocs : Nat) : List (List UInt8) → Nat
  | [] => 0
  | p :: ps =>
      if memFits env chunks allocs p.length then partsFit (chunks + 1) (allocs + 1) ps + 1 else 0

def partsOutcome (s : Session) (parts : List (List UInt8)) : Bool × List UInt8 :=
  (decide (partsFit env s.chunks s.allocs parts = parts.length),
    (parts.take (partsFit env s.chunks s.allocs parts)).flatten)

theorem OutInv.appendParts {held : Nat → Nat} {s : Session} (h : OutInv held s)
    {parts : List (List UInt8)} (hne : ∀ p ∈ parts, p ≠ []) :
    Appended held s (appendParts env s parts) (partsOutcome env s parts) := by
  induction parts generalizing s with
  | nil => exact ⟨rfl, .nil h⟩
  | cons p ps ih =>
      have hp := hne p List.mem_cons_self
      obtain ⟨hok, hq⟩ := h.appendMem env hp
      have hcounts := appendMem_counts env (s := s) hp
      simp only [Net.appendParts]
      simp only [partsOutcome, partsFit]
      cases hr : sessionOutAppendMem env s p with
      | mk ok t =>
          rw [hr] at hok hq hcounts
          simp only [memOutcome] at hok hq hcounts
          by_cases hfit : memFits env s.chunks s.allocs p.length = true
          · rw [if_pos hfit] at hq
            rw [hfit] at hok
            subst hok
            obtain ⟨hchunks, hallocs⟩ := hcounts hfit
            obtain ⟨hok', hq'⟩ := ih hq.inv fun q hm => hne q (List.mem_cons_of_mem _ hm)
            simp only [partsOutcome, hchunks, hallocs] at hok' hq'
            simp only [if_pos hfit, List.length_cons, Nat.add_right_cancel_iff,
              List.take_succ_cons, List.flatten_cons]
            exact ⟨hok', hq.trans hq'⟩
          · rw [if_neg hfit] at hq
            rw [Bool.not_eq_true] at hfit
            rw [hfit] at hok
            subst hok
            simp only [hfit, Bool.false_eq_true, if_false]
            exact ⟨rfl, hq⟩

/-- What is left of the parts after `skip` bytes. -/
def restParts : List (List UInt8) → Nat → List (List UInt8)
  | [], _ => []
  | p :: ps, skip => if p.length ≤ skip then restParts ps (skip - p.length) else p.drop skip :: ps

theorem appendRest_eq (s : Session) (parts : List (List UInt8)) (skip : Nat) :
    appendRest env s parts skip = appendParts env s (restParts parts skip) := by
  induction parts generalizing skip with
  | nil => rfl
  | cons p ps ih =>
      rw [Net.appendRest, restParts]
      split
      · exact ih _
      · rfl

theorem restParts_flatten (parts : List (List UInt8)) (skip : Nat) :
    (restParts parts skip).flatten = parts.flatten.drop skip := by
  induction parts generalizing skip with
  | nil => simp [restParts]
  | cons p ps ih =>
      rw [restParts]
      by_cases hle : p.length ≤ skip
      · rw [if_pos hle, ih, List.flatten_cons, List.drop_append, List.drop_of_length_le hle,
          List.nil_append]
      · rw [if_neg hle, List.flatten_cons, List.flatten_cons,
          List.drop_append_of_le_length (by omega)]

theorem restParts_ne_nil {parts : List (List UInt8)} (hne : ∀ p ∈ parts, p ≠ []) (skip : Nat) :
    ∀ p ∈ restParts parts skip, p ≠ [] := by
  induction parts generalizing skip with
  | nil => exact hne
  | cons p ps ih =>
      rw [restParts]
      split
      · exact ih (fun q hq => hne q (List.mem_cons_of_mem _ hq)) _
      · next hle =>
          intro q hq
          rcases List.mem_cons.mp hq with rfl | hq
          · exact fun he => hle (List.drop_eq_nil_iff.mp he)
          · exact hne q (List.mem_cons_of_mem _ hq)

theorem Queued.stream {held : Nat → Nat} {s t : Session} {bytes : List UInt8}
    (h : Queued held s t bytes) : t.stream = s.stream ++ bytes := by
  rw [Session.stream, Session.stream, Session.wire, Session.wire, h.calls, h.queue,
    List.append_assoc]

end Ztk.Net
