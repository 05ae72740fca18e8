import Ztk.Net.SessionRuns

/-!
# What a flush sends

`session_out_flush` counts the bytes of the first chunks up to an empty one, and
`session_out_try_sendv` gathers the chunks that are not empty, for one call of the
platform.  Both walk at most `ZTK_SOCKET_IOV_MAX` chunks.  Where every chunk has bytes
the two agree, so each call offers the first chunks of the queue (`trySendv_eq`), and a
flush is a sequence of calls between which the queue loses the bytes that were taken
(`Turns`).
-/

namespace Ztk.Net

open Ztk.Lib Ztk.Util

/-! ## Queues that can be sent -/

/-- Every chunk of the queue has bytes, which lie in its memory, and a reference to its
buffer. -/
structure Sendable (s : Session) : Prop where
  pos : ∀ n ∈ s.out.nodes, 0 < n.2.len
  within : ∀ n ∈ s.out.nodes, n.2.len ≤ (sessionChunkPtr s.bufs n.2).length
  counted : ∀ b x, s.bufs.buf b = some x → (refs s.out.nodes b : Int) ≤ x.refcnt

/-- The queues of the interface can be sent. -/
theorem OutInv.sendable {held : Nat → Nat} {s : Session} (h : OutInv held s) : Sendable s where
  pos n hn := by
    obtain ⟨b, -, hl, -⟩ := h.chunks n hn
    exact hl
  within n hn := by
    obtain ⟨b, hb, -, hle⟩ := h.chunks n hn
    simp only [sessionChunkPtr, hb, List.length_drop]
    omega
  counted b x hx := by
    have hr := (h.counted.count b x hx).1
    omega

/-- `session->sock` is a socket with a descriptor. -/
def Session.Open (s : Session) : Prop := ∃ fd, s.sock = some fd ∧ 0 ≤ fd

/-- `t` is `s` with the first `k` bytes of its queue gone. -/
structure Advanced (s t : Session) (k : Nat) : Prop where
  sendable : Sendable t
  bytes : queuedBytes t.bufs t.out.nodes = (queuedBytes s.bufs s.out.nodes).drop k
  calls : t.calls = s.calls
  sock : t.sock = s.sock

theorem Advanced.trans {s t u : Session} {j k : Nat} (h₁ : Advanced s t j)
    (h₂ : Advanced t u k) : Advanced s u (j + k) where
  sendable := h₂.sendable
  bytes := by rw [h₂.bytes, h₁.bytes, List.drop_drop]
  calls := h₂.calls.trans h₁.calls
  sock := h₂.sock.trans h₁.sock

namespace Sendable

variable {s : Session} {n : Nat × OutChunk} {rest : List (Nat × OutChunk)}

theorem chunkBytes_length (h : Sendable s) (hn : n ∈ s.out.nodes) :
    (chunkBytes s.bufs n.2).length = n.2.len := by
  rw [chunkBytes, List.length_take, Nat.min_eq_left (h.within n hn)]

/-- Where every chunk keeps its length and its memory. -/
theorem congr (h : Sendable s) {t : Session} (hnodes : ∀ n ∈ t.out.nodes, n ∈ s.out.nodes)
    (hdata : ∀ b, 0 < refs t.out.nodes b → t.bufs.bufData b = s.bufs.bufData b)
    (hcount : ∀ b x, t.bufs.buf b = some x → (refs t.out.nodes b : Int) ≤ x.refcnt) :
    Sendable t := by
  refine ⟨fun n hn => h.pos n (hnodes n hn), fun n hn => ?_, hcount⟩
  have hw := h.within n (hnodes n hn)
  rw [sessionChunkPtr] at hw ⊢
  cases hp : n.2.payload with
  | mem bytes =>
      rw [hp] at hw
      exact hw
  | buf b =>
      rw [hp] at hw
      simp only [hdata b (refs_pos hn hp)]
      exact hw

/-- The reference of the first chunk is given back: the memory of the others stays. -/
theorem unref_first (h : Sendable s) (hn : s.out.nodes = n :: rest) {b : Nat}
    (hb : n.2.payload = .buf b) :
    (∀ c, 0 < refs rest c → (s.bufs.bufUnref b).bufData c = s.bufs.bufData c) ∧
      ∀ c x, (s.bufs.bufUnref b).buf c = some x → (refs rest c : Int) ≤ x.refcnt := by
  have hother : ∀ c, c ≠ b → refs s.out.nodes c = refs rest c := fun c hc => by
    rw [hn, refs_cons_of_ne hb hc]
  have hself : refs s.out.nodes b = refs rest b + 1 := by
    rw [hn, refs_cons_self hb]
  have hkeep : ∀ c, c ≠ b → (s.bufs.bufUnref b).buf c = s.bufs.buf c := fun c hc =>
    Counted.bufUnref_of_ne s.bufs hc
  refine ⟨fun c hc => ?_, fun c x hx => ?_⟩
  · by_cases hcb : c = b
    · subst hcb
      rw [BufHeap.bufUnref]
      cases hx : s.bufs.buf c with
      | none => rfl
      | some x =>
          have hle := h.counted c x hx
          have hne : x.refcnt ≠ 1 := by omega
          simp only [if_neg hne, BufHeap.bufData, BufHeap.modify_self, hx, Option.map_some]
    · simp only [BufHeap.bufData, hkeep c hcb]
  · by_cases hcb : c = b
    · subst hcb
      rw [BufHeap.bufUnref] at hx
      cases hy : s.bufs.buf c with
      | none =>
          simp only [hy] at hx
          cases hx
      | some y =>
          have hle := h.counted c y hy
          simp only [hy] at hx
          split at hx
          · simp only [Function.update_self] at hx
            cases hx
          · rw [BufHeap.modify_self, hy, Option.map_some, Option.some.injEq] at hx
            subst hx
            show (refs rest c : Int) ≤ y.refcnt - 1
            omega
    · rw [hkeep c hcb] at hx
      rw [← hother c hcb]
      exact h.counted c x hx

/-- Popping the first chunk drops its bytes. -/
theorem popChunk (h : Sendable s) (hn : s.out.nodes = n :: rest) :
    Advanced s (sessionOutPopChunk s) n.2.len := by
  have htail : (sessionOutPopChunk s).out.nodes = rest := by
    rw [sessionOutPopChunk_out hn, Chain.popFront_nodes, hn, List.tail_cons]
  have hmem : ∀ m ∈ rest, m ∈ s.out.nodes := fun m hm => by
    rw [hn]
    exact List.mem_cons_of_mem _ hm
  have hdrop : (queuedBytes s.bufs s.out.nodes).drop n.2.len = queuedBytes s.bufs rest := by
    have hlen := h.chunkBytes_length (n := n) (by rw [hn]; exact List.mem_cons_self)
    rw [hn, queuedBytes, queuedBytes, List.flatMap_cons, List.drop_left' hlen]
  -- the heap afterwards
  have hheap : (∀ c, 0 < refs rest c →
        (sessionOutPopChunk s).bufs.bufData c = s.bufs.bufData c) ∧
      ∀ c x, (sessionOutPopChunk s).bufs.buf c = some x → (refs rest c : Int) ≤ x.refcnt := by
    cases hp : n.2.payload with
    | mem bytes =>
        have hbufs : (sessionOutPopChunk s).bufs = s.bufs := by
          simp only [sessionOutPopChunk, hn, sessionOutFreeChunk, hp]
        rw [hbufs]
        refine ⟨fun _ _ => rfl, fun c x hx => ?_⟩
        have hle := h.counted c x hx
        have hsame : refs s.out.nodes c = refs rest c := by
          rw [hn, refs, List.countP_cons_of_neg (by simp [OutChunk.points, hp])]
          rfl
        omega
    | buf b =>
        have hbufs : (sessionOutPopChunk s).bufs = s.bufs.bufUnref b := by
          simp only [sessionOutPopChunk, hn, sessionOutFreeChunk, hp]
        rw [hbufs]
        exact h.unref_first hn hp
  have hrest : (sessionOutPopChunk s).calls = s.calls ∧ (sessionOutPopChunk s).sock = s.sock := by
    simp only [sessionOutPopChunk, hn, sessionOutFreeChunk]
    split <;> exact ⟨rfl, rfl⟩
  refine ⟨h.congr ?_ ?_ ?_, ?_, hrest.1, hrest.2⟩
  · rw [htail]
    exact hmem
  · rw [htail]
    exact hheap.1
  · rw [htail]
    exact hheap.2
  · rw [htail, hdrop]
    exact queuedBytes_congr fun m hm b hb => hheap.1 b (refs_pos hm hb)

/-- Moving `off` and `len` of the first chunk drops bytes of it. -/
theorem cut (h : Sendable s) (hn : s.out.nodes = n :: rest) {k : Nat} (hk : k < n.2.len) :
    Advanced s (sessionOutCut s k) k := by
  have hmem : n ∈ s.out.nodes := by rw [hn]; exact List.mem_cons_self
  have hnodes : (sessionOutCut s k).out.nodes =
      (n.1, { n.2 with off := n.2.off + k, len := n.2.len - k }) :: rest := by
    simp [sessionOutCut, Chain.modifyHead, hn]
  have hptr : sessionChunkPtr s.bufs { n.2 with off := n.2.off + k, len := n.2.len - k } =
      (sessionChunkPtr s.bufs n.2).drop k := by
    rw [sessionChunkPtr, sessionChunkPtr]
    cases n.2.payload <;> simp only [List.drop_drop]
  have hw := h.within n hmem
  refine ⟨⟨?_, ?_, ?_⟩, ?_, rfl, rfl⟩
  · rw [hnodes]
    refine List.forall_mem_cons.mpr ⟨Nat.sub_pos_of_lt hk, fun m hm => h.pos m ?_⟩
    rw [hn]
    exact List.mem_cons_of_mem _ hm
  · rw [hnodes]
    refine List.forall_mem_cons.mpr ⟨?_, fun m hm => h.within m ?_⟩
    · show n.2.len - k ≤ (sessionChunkPtr s.bufs _).length
      rw [hptr, List.length_drop]
      exact Nat.sub_le_sub_right hw k
    · rw [hn]
      exact List.mem_cons_of_mem _ hm
  · intro b x hx
    have hle := h.counted b x hx
    rw [hn] at hle
    rw [hnodes]
    exact hle
  · rw [hnodes, hn, queuedBytes, queuedBytes, List.flatMap_cons, List.flatMap_cons,
      List.drop_append_of_le_length (by rw [h.chunkBytes_length hmem]; omega)]
    congr 1
    show chunkBytes s.bufs _ = _
    rw [chunkBytes, hptr, chunkBytes, List.drop_take]

/-- `session_out_advance_sent` drops exactly the bytes that were sent. -/
theorem advanceSent (h : Sendable s) (k : Nat) : Advanced s (sessionOutAdvanceSent s k) k := by
  induction s, k using sessionOutAdvanceSent.induct with
  | case1 s k hn =>
      rw [sessionOutAdvanceSent_nil hn]
      refine ⟨h, ?_, rfl, rfl⟩
      rw [hn]
      simp [queuedBytes]
  | case2 s n rest hn =>
      rw [sessionOutAdvanceSent_cons hn, if_pos rfl]
      exact ⟨h, rfl, rfl, rfl⟩
  | case3 s k n rest hn h0 hl ih =>
      have hpos := h.pos n (by rw [hn]; exact List.mem_cons_self)
      omega
  | case4 s k n rest hn h0 hl hle ih =>
      rw [sessionOutAdvanceSent_cons hn, if_neg h0, if_neg hl, if_pos hle]
      have hpop := h.popChunk hn
      have hall := hpop.trans (ih hpop.sendable)
      rwa [Nat.add_sub_cancel' hle] at hall
  | case5 s k n rest hn h0 hl hle =>
      rw [sessionOutAdvanceSent_cons hn, if_neg h0, if_neg hl, if_neg hle]
      exact h.cut hn (Nat.lt_of_not_le hle)

end Sendable

/-! ## The calls of the platform -/

/-- From `s` to `t` with one call of the platform: it is offered the unsent bytes of the
first chunks, and the bytes that it takes leave the queue. -/
structure Sends (s : Session) (c : SendCall) (t : Session) : Prop where
  some_queued : s.out.nodes ≠ []
  offered : c.parts.flatten = queuedBytes s.bufs (s.out.nodes.take iovMax)
  result_le : c.result ≤ c.parts.flatten.length
  bytes : queuedBytes t.bufs t.out.nodes =
    (queuedBytes s.bufs s.out.nodes).drop c.result.toNat
  refused : c.result ≤ 0 → t.out = s.out ∧ t.bufs = s.bufs
  calls : t.calls = s.calls ++ [c]

/-- From `s` to `t` with a sequence of calls, in which only the last one may take
nothing. -/
inductive Turns : Session → List SendCall → Session → Prop where
  | nil {s : Session} : Turns s [] s
  | refused {s t : Session} {c : SendCall} : Sends s c t → c.result ≤ 0 → Turns s [c] t
  | cons {s t u : Session} {c : SendCall} {cs : List SendCall} :
      Sends s c t → 0 < c.result → Turns t cs u → Turns s (c :: cs) u

theorem Turns.calls {s t : Session} {cs : List SendCall} (h : Turns s cs t) :
    t.calls = s.calls ++ cs := by
  induction h with
  | nil => exact (List.append_nil _).symm
  | refused hs _ => exact hs.calls
  | cons hs _ _ ih => rw [ih, hs.calls, List.append_assoc, List.singleton_append]

/-- The first chunks hold no more bytes than the queue. -/
theorem queuedBytes_take_le (h : BufHeap) (nodes : List (Nat × OutChunk)) (k : Nat) :
    (queuedBytes h (nodes.take k)).length ≤ (queuedBytes h nodes).length := by
  have hsplit : queuedBytes h nodes =
      queuedBytes h (nodes.take k) ++ queuedBytes h (nodes.drop k) := by
    rw [queuedBytes, queuedBytes, queuedBytes, ← List.flatMap_append, List.take_append_drop]
  rw [hsplit, List.length_append]
  exact Nat.le_add_right _ _

/-- Every call but the last one takes a byte. -/
theorem Turns.length_le {s t : Session} {cs : List SendCall} (h : Turns s cs t) :
    cs.length ≤ (queuedBytes s.bufs s.out.nodes).length + 1 := by
  induction h with
  | nil => exact Nat.zero_le _
  | refused _ _ => exact Nat.le_add_left 1 _
  | @cons s t u c cs hs hpos _ ih =>
      have hle := hs.result_le
      have htake := queuedBytes_take_le s.bufs s.out.nodes iovMax
      rw [hs.offered] at hle
      rw [hs.bytes, List.length_drop] at ih
      rw [List.length_cons]
      omega

variable (env : NetEnv) {s : Session} {n : Nat × OutChunk} {rest : List (Nat × OutChunk)}

theorem socketSend_open (hs : s.Open) (data : List UInt8) :
    socketSend env s data = s.platSend env [data] := by
  obtain ⟨fd, hfd, h0⟩ := hs
  rw [socketSend, hfd]
  exact if_neg (Int.not_lt.mpr h0)

theorem socketSendv_open (hs : s.Open) {iov : List (List UInt8)} (hne : iov ≠ []) :
    socketSendv env s iov = s.platSend env (iov.take iovMax) := by
  obtain ⟨fd, hfd, h0⟩ := hs
  rw [socketSendv, hfd]
  simp only [if_neg (Int.not_lt.mpr h0), if_neg hne]

/-- `session_out_try_sendv` gathers the chunks that `session_out_flush` counts. -/
theorem Sendable.trySendv_eq (h : Sendable s) (hs : s.Open) (hn : s.out.nodes ≠ []) :
    sessionOutTrySendv env s =
      s.platSend env ((s.out.nodes.take iovMax).map fun n => chunkBytes s.bufs n.2) := by
  have hfilter : (s.out.nodes.filter fun n => n.2.len ≠ 0) = s.out.nodes :=
    List.filter_eq_self.mpr fun n hn => decide_eq_true (Nat.pos_iff_ne_zero.mp (h.pos n hn))
  have hlen : ((s.out.nodes.take iovMax).map fun n => chunkBytes s.bufs n.2).length ≤ iovMax := by
    rw [List.length_map, List.length_take]
    exact Nat.min_le_left _ _
  have hne : ((s.out.nodes.take iovMax).map fun n => chunkBytes s.bufs n.2) ≠ [] := by
    obtain ⟨m, ms, hms⟩ := List.exists_cons_of_ne_nil hn
    rw [hms, iovMax]
    exact List.cons_ne_nil _ _
  obtain ⟨fd, hfd, -⟩ := id hs
  rw [sessionOutTrySendv]
  rw [hfd]
  simp only [hfilter]
  generalize ((s.out.nodes.take iovMax).map fun n => chunkBytes s.bufs n.2) = iov at hlen hne
  split
  · exact absurd rfl hne
  · exact socketSend_open env hs _
  · rw [socketSendv_open env hs hne, List.take_of_length_le hlen]

/-- One iteration of `session_out_flush` is one call of the platform, and the loop goes
on where bytes were taken. -/
theorem Sendable.flushOnce (h : Sendable s) (hs : s.Open) (hn : s.out.nodes = n :: rest) :
    ∃ c, Sends s c (flushOnce env s n).2 ∧ ((flushOnce env s n).1 = true ↔ 0 < c.result) ∧
      Sendable (flushOnce env s n).2 ∧ (flushOnce env s n).2.sock = s.sock := by
  have hl : n.2.len ≠ 0 := Nat.pos_iff_ne_zero.mp (h.pos n (by rw [hn]; exact List.mem_cons_self))
  have hne : s.out.nodes ≠ [] := by
    rw [hn]
    exact List.cons_ne_nil _ _
  have htotal := flushTotal_pos hn hl
  rw [Net.flushOnce]
  rw [if_neg hl, h.trySendv_eq env hs hne]
  have hsend : ∀ parts, parts = (s.out.nodes.take iovMax).map (fun n => chunkBytes s.bufs n.2) →
      ∀ sent t, s.platSend env parts = (sent, t) → sent ≤ parts.flatten.length ∧
        t = { s with calls := s.calls ++ [⟨parts, sent⟩] } := by
    intro parts _ sent t ht
    cases ht
    exact ⟨env.send_le _ _, rfl⟩
  generalize hparts : (s.out.nodes.take iovMax).map (fun n => chunkBytes s.bufs n.2) = parts
  cases hr : s.platSend env parts with
  | mk sent t =>
      obtain ⟨hle, ht⟩ := hsend parts hparts.symm sent t hr
      have hoff : parts.flatten = queuedBytes s.bufs (s.out.nodes.take iovMax) := by
        rw [← hparts]
        rfl
      have hsend : Sendable t := by
        rw [ht]
        exact { h with }
      have hadv := hsend.advanceSent sent.toNat
      have hgo : 0 < sent → Sends s ⟨parts, sent⟩ (sessionOutAdvanceSent t sent.toNat) := by
        intro hpos
        refine ⟨hne, hoff, hle, ?_, fun hneg => absurd hneg (Int.not_le.mpr hpos), ?_⟩
        · rw [hadv.bytes, ht]
        · rw [hadv.calls, ht]
      have hsock : (sessionOutAdvanceSent t sent.toNat).sock = s.sock := by
        rw [hadv.sock, ht]
      simp only
      split
      · next htot =>
          have hpos : 0 < sent := by omega
          exact ⟨⟨parts, sent⟩, hgo hpos, iff_of_true rfl hpos, hadv.sendable, hsock⟩
      · split
        · next hpos => exact ⟨⟨parts, sent⟩, hgo hpos, iff_of_true rfl hpos, hadv.sendable, hsock⟩
        · next hneg =>
            refine ⟨⟨parts, sent⟩, ⟨hne, hoff, hle, ?_, fun _ => ?_, ?_⟩,
              iff_of_false Bool.false_ne_true hneg, hsend, by rw [ht]⟩
            · rw [Int.toNat_of_nonpos (Int.not_lt.mp hneg), List.drop_zero, ht]
            · rw [ht]
              exact ⟨rfl, rfl⟩
            · rw [ht]

/-- The loop of `session_out_flush` at a socket with a descriptor. -/
theorem Sendable.flushLoop (h : Sendable s) (hs : s.Open) :
    ∃ cs, Turns s cs (flushLoop env s) ∧
      ((flushLoop env s).out.nodes = [] ∨ ∃ c, cs.getLast? = some c ∧ c.result ≤ 0) := by
  induction s using flushLoop.induct env with
  | case1 s hn =>
      rw [flushLoop_nil env hn]
      exact ⟨[], .nil, Or.inl hn⟩
  | case2 s n rest hn t ht ih =>
      rw [flushLoop_cons env hn ht, if_pos rfl]
      obtain ⟨c, hc, hgo, hsend, hsock⟩ := h.flushOnce env hs hn
      rw [ht] at hc hgo hsend hsock
      have hopen : t.Open := by
        rw [Session.Open, hsock]
        exact hs
      obtain ⟨cs, hcs, hend⟩ := ih hsend hopen
      refine ⟨c :: cs, .cons hc (hgo.mp rfl) hcs, hend.imp_right ?_⟩
      rintro ⟨d, hd, hneg⟩
      exact ⟨d, by rw [List.getLast?_cons, hd, Option.getD_some], hneg⟩
  | case3 s n rest hn t ht =>
      rw [flushLoop_cons env hn ht, if_neg Bool.false_ne_true]
      obtain ⟨c, hc, hgo, -, -⟩ := h.flushOnce env hs hn
      rw [ht] at hc hgo
      have hneg : c.result ≤ 0 := Int.not_lt.mp fun hpos => Bool.false_ne_true (hgo.mpr hpos)
      exact ⟨[c], .refused hc hneg, Or.inr ⟨c, rfl, hneg⟩⟩

/-- Without a descriptor the platform is not called, and the loop ends at once. -/
theorem Sendable.flushLoop_closed (h : Sendable s) (hs : ¬ s.Open) : Net.flushLoop env s = s := by
  cases hn : s.out.nodes with
  | nil => exact flushLoop_nil env hn
  | cons n rest =>
      have hl : n.2.len ≠ 0 :=
        Nat.pos_iff_ne_zero.mp (h.pos n (by rw [hn]; exact List.mem_cons_self))
      have hcode : ∀ r : Int × Session, r = (Err.invalid.code, s) ∨ r = (0, s) →
          r.2 = s ∧ r.1 ≤ 0 := by
        rintro r (rfl | rfl)
        · exact ⟨rfl, show (-2 : Int) ≤ 0 by decide⟩
        · exact ⟨rfl, le_refl _⟩
      have htry := hcode (sessionOutTrySendv env s) (by
        rw [sessionOutTrySendv]
        split
        · exact Or.inl rfl
        · next fd hfd =>
            have hneg : fd < 0 := Int.not_le.mp fun h0 => hs ⟨fd, hfd, h0⟩
            simp only [socketSend, socketSendv, hfd, if_pos hneg]
            split
            · exact Or.inr rfl
            · exact Or.inl rfl
            · exact Or.inl rfl)
      have htotal := flushTotal_pos hn hl
      have honce : Net.flushOnce env s n = (false, s) := by
        rw [Net.flushOnce]
        rw [if_neg hl]
        generalize sessionOutTrySendv env s = r at htry
        obtain ⟨sent, t⟩ := r
        obtain ⟨ht, hneg⟩ := htry
        simp only at ht hneg
        have hne : ¬ sent = (flushTotal s.out.nodes : Int) := by omega
        simp only [if_neg hne, if_neg (Int.not_lt.mpr hneg), ht]
      rw [flushLoop_cons env hn honce, if_neg Bool.false_ne_true]

/-- A flush makes one call after another, each with the unsent bytes of the first chunks,
and ends when the queue is empty or a call took nothing; without a descriptor it does
nothing. -/
theorem session_out_flush_drains (env : NetEnv) {s : Session} (h : Sendable s) :
    ∃ cs, Turns s cs (sessionOutFlush env s) ∧
      cs.length ≤ (queuedBytes s.bufs s.out.nodes).length + 1 ∧
      (s.Open → (sessionOutFlush env s).out.nodes = [] ∨
        ∃ c, cs.getLast? = some c ∧ c.result ≤ 0) ∧
      (¬ s.Open → sessionOutFlush env s = s) := by
  rw [sessionOutFlush]
  by_cases hs : s.Open
  · obtain ⟨fd, hfd, -⟩ := id hs
    have hsome : ¬ s.sock = none := by
      rw [hfd]
      exact Option.some_ne_none fd
    rw [if_neg hsome]
    obtain ⟨cs, hcs, hend⟩ := h.flushLoop env hs
    exact ⟨cs, hcs, hcs.length_le, fun _ => hend, fun hn => absurd hs hn⟩
  · have hsame : (if s.sock = none then s else flushLoop env s) = s := by
      rw [h.flushLoop_closed env hs, ite_self]
    rw [hsame]
    exact ⟨[], .nil, Nat.zero_le _, fun ho => absurd ho hs, fun _ => rfl⟩

/-- A chunk that owns its bytes, of which one is sent, and one that points to a buffer. -/
def mixedQueue : Session where
  closing := false
  out := ⟨[(0, ⟨.mem [1, 2, 3], 1, 2⟩), (1, ⟨.buf 0, 0, 2⟩)], some 1⟩
  outPending := 4
  outHighwaterHit := false
  highwaterBytes := 0
  notified := []
  events := []
  sock := some 5
  calls := []
  chunks := 2
  allocs := 1
  bufs := ⟨fun b => if b = 0 then some ⟨1, 2, [7, 8]⟩ else none, 1⟩

theorem mixedQueue_sendable : Sendable mixedQueue where
  pos := by decide
  within := by decide
  counted b x hx := by
    by_cases hb : b = 0
    · subst hb
      cases hx
      decide
    · rw [mixedQueue] at hx
      simp only [if_neg hb] at hx
      cases hx

/-- Both chunks are offered at once, and then what is left of them. -/
theorem session_out_flush_mixed :
    ∃ cs, Turns mixedQueue cs (sessionOutFlush shortSend mixedQueue) ∧ cs.length ≤ 5 ∧
      ((sessionOutFlush shortSend mixedQueue).out.nodes = [] ∨
        ∃ c, cs.getLast? = some c ∧ c.result ≤ 0) := by
  obtain ⟨cs, hcs, hlen, hend, -⟩ := session_out_flush_drains shortSend mixedQueue_sendable
  exact ⟨cs, hcs, hlen, hend ⟨5, rfl, by decide⟩⟩

end Ztk.Net
