import Ztk.Net.SessionWorld

/-!
# The output of sessions

What holds in every state that calls on any number of sessions reach, whatever
the platform takes and whichever allocations fail: the representation of the
queue, the references to the buffers, the notification at the high-water mark,
when a call that fails has done nothing, and when a vector is sent whole.
-/

namespace Ztk.Net

open Ztk.Lib Ztk.Util

variable {env : Nat → NetEnv} {w : World} {i : Nat} {s : Session}

/-! ## The queue -/

/-- A chunk with unsent bytes lies within a live buffer. -/
theorem OutInv.chunk_live {held : Nat → Nat} (h : OutInv held s) {n : Nat × OutChunk}
    (hn : n ∈ s.out.nodes) :
    ∃ b x, n.2.payload = .buf b ∧ s.bufs.buf b = some x ∧ 0 < n.2.len ∧
      n.2.off + n.2.len ≤ x.cap := by
  obtain ⟨b, hb, hl, hle⟩ := h.chunks n hn
  obtain ⟨x, hx⟩ := h.counted.live b (Nat.add_pos_right _ (refs_pos hn hb))
  rw [BufHeap.bufData, hx] at hle
  exact ⟨b, x, hb, hx, hl, hle⟩

/-- The tail is the last chunk, chunks have bytes and lie within their buffers,
and `out_pending` is the number of unsent bytes.  Nothing was ever deducted from
`out_pending` that was not there. -/
theorem out_queue_representation (h : (worldMachine env).Leads Machine.Any .start w)
    (hs : w.session i = some s) :
    s.out.tail = s.out.nodes.getLast?.map Prod.fst ∧
      (s.out.tail = none ↔ s.out.nodes = []) ∧
      (∀ n ∈ s.out.nodes, ∃ b x, n.2.payload = .buf b ∧ s.bufs.buf b = some x ∧
        0 < n.2.len ∧ n.2.off + n.2.len ≤ x.cap) ∧
      s.outPending = (s.out.nodes.map fun n => n.2.len).sum ∧
      (∀ pending amount, .deduct pending amount ∈ s.events → amount ≤ pending) ∧
      tcpSessionOutPending s = (queuedBytes s.bufs s.out.nodes).length := by
  have hinv := (WorldInv.of_leads h).queue i s hs
  exact ⟨hinv.wf.tail_eq, hinv.wf.tail_eq_none, fun _ hn => hinv.chunk_live hn, hinv.pending,
    fun _ _ he => deduct_le_of_run hinv.metered he, hinv.pending_eq⟩

/-- A payload that is taken in part, two parts behind it, a flush that ends within
the second chunk. -/
def shortQueueRun : List WorldLabel :=
  [.accept (some 5) 0, .send 0 (some [1, 2, 3]), .sendv 0 (some [some [4, 5], some [6]]), .flush 0]

theorem out_queue_representation_short :
    ∃ w s, (worldMachine fun _ => shortSend).Leads Machine.Any .start w ∧
      w.session 0 = some s ∧ (s.out.nodes.map fun n => n.2.len) = [1, 1] ∧
      s.out.tail = s.out.nodes.getLast?.map Prod.fst ∧ tcpSessionOutPending s = 2 := by
  have hrun : ((worldMachine fun _ => shortSend).run .start shortQueueRun).bind
      (fun w => (w.session 0).map fun s => (s.out.nodes.map fun n => n.2.len)) = some [1, 1] := by
    decide +kernel
  obtain ⟨w, hw, hrest⟩ := Option.bind_eq_some_iff.mp hrun
  obtain ⟨s, hs, hlens⟩ := Option.map_eq_some_iff.mp hrest
  have hl := Machine.leads_of_run (C := Machine.Any) shortQueueRun _ w hw (Machine.runMeets_any _ _)
  obtain ⟨htail, -, -, hpending, -⟩ := out_queue_representation hl hs
  refine ⟨w, s, hl, hs, hlens, htail, ?_⟩
  rw [tcpSessionOutPending, hpending, hlens]
  rfl

/-! ## References -/

/-- A session that has discarded its output, or is destroyed, has nothing queued. -/
theorem WorldInv.emptied (h : WorldInv w) {w' : World}
    (hs : worldStep env w (.outDiscard i) = some w' ∨ worldStep env w (.destroy i) = some w') :
    w'.nodes i = [] := by
  obtain hs | hs := hs
  · obtain ⟨s, hses, rfl⟩ := Option.map_eq_some_iff.mp hs
    obtain ⟨-, hnil, -⟩ := (h.queue i s hses).discard
    rw [World.put_nodes_self]
    exact hnil
  · obtain ⟨s, -, rfl⟩ := Option.map_eq_some_iff.mp hs
    rw [World.put_nodes_self]
    rfl

/-- The count of a live buffer is the number of its references: those of the
application, and one for each queued chunk of any session.  When nothing is
queued, the application owns every live buffer and every count is its own; and a
session that has discarded its output, or is destroyed, has nothing queued. -/
theorem buf_references_counted (h : (worldMachine env).Leads Machine.Any .start w) :
    (∀ b x, w.bufs.buf b = some x →
      x.refcnt = w.app b + ∑ i ∈ Finset.range w.count, refs (w.nodes i) b) ∧
    ((∀ i, w.nodes i = []) →
      ∀ b x, w.bufs.buf b = some x → x.refcnt = w.app b ∧ 0 < w.app b) ∧
    ∀ i w', worldStep env w (.outDiscard i) = some w' ∨ worldStep env w (.destroy i) = some w' →
      w'.nodes i = [] := by
  have hc := (WorldInv.of_leads h).counted
  have hcount : ∀ b x, w.bufs.buf b = some x → x.refcnt = w.owners b ∧ 0 < w.owners b := by
    intro b x hx
    obtain ⟨hr, hp, -⟩ := hc.count b x hx
    exact ⟨hr, hp⟩
  refine ⟨fun b x hx => ?_, fun hnil b x hx => ?_, fun i w' hs => (WorldInv.of_leads h).emptied hs⟩
  · have := (hcount b x hx).1
    rwa [World.owners, Nat.cast_add] at this
  · have hz : w.owners b = w.app b := by
      rw [World.owners, Finset.sum_eq_zero fun i _ => by rw [hnil i]; rfl, Nat.add_zero]
    have := hcount b x hx
    rwa [hz] at this

/-- A buffer of the application in the queues of two sessions. -/
def sharedBufRun : List WorldLabel :=
  [.bufAlloc 4 (some [0, 0, 0, 0]), .bufSetLen 0 3, .accept (some 5) 0, .accept (some 6) 0,
    .sendBuf 0 (some 0), .sendBuf 1 (some 0)]

theorem buf_references_shared :
    ∃ w x, (worldMachine fun _ => shortSend).Leads Machine.Any .start w ∧
      w.bufs.buf 0 = some x ∧ w.app 0 = 1 ∧ refs (w.nodes 0) 0 = 1 ∧ refs (w.nodes 1) 0 = 1 ∧
      x.refcnt = 3 := by
  have hrun : ((worldMachine fun _ => shortSend).run .start sharedBufRun).bind
      (fun w => (w.bufs.buf 0).map fun _ =>
        (w.app 0, w.count, refs (w.nodes 0) 0, refs (w.nodes 1) 0)) = some (1, 2, 1, 1) := by
    decide +kernel
  obtain ⟨w, hw, hrest⟩ := Option.bind_eq_some_iff.mp hrun
  obtain ⟨x, hx, hvals⟩ := Option.map_eq_some_iff.mp hrest
  simp only [Prod.mk.injEq] at hvals
  obtain ⟨happ, hcount, h0, h1⟩ := hvals
  have hl := Machine.leads_of_run (C := Machine.Any) sharedBufRun _ w hw (Machine.runMeets_any _ _)
  have hr := (buf_references_counted hl).1 0 x hx
  rw [happ, hcount, Finset.sum_range_succ, Finset.sum_range_succ, Finset.sum_range_zero, h0, h1] at hr
  exact ⟨w, x, hl, hx, happ, h0, h1, hr⟩

/-! ## The high-water mark -/

/-- Every crossing of the mark is heard, and nothing else, exactly when between
any two crossings there is an enqueue that stays below the mark or a
`ztk_tcp_session_out_discard`. -/
theorem highwater_heard_iff (h : (worldMachine env).Leads Machine.Any .start w)
    (hs : w.session i = some s) (hH : 0 < s.highwaterBytes) :
    Heard s.highwaterBytes s.events ↔ Separated s.highwaterBytes s.events :=
  ((WorldInv.of_leads h).queue i s hs).metered.heard_iff_separated hH

/-- A platform that is full at every second call and takes everything at the others. -/
def fillDrain : NetEnv where
  send k parts := if k % 2 = 0 then Err.again.code else parts.flatten.length
  calloc _ := true
  alloc _ size := some (List.replicate size 0)
  send_le k parts := by
    have : Err.again.code = -5 := rfl
    split <;> omega
  send_ge k parts := by
    have : Err.again.code = -5 := rfl
    split <;> omega
  alloc_le := zeros_le

/-- The events of the first session after a run on this platform. -/
theorem fillDrain_events (labels : List WorldLabel) (events : List OutEvent)
    (hrun : ((worldMachine fun _ => fillDrain).run .start labels).bind
      (fun w => (w.session 0).map fun s => (s.highwaterBytes, s.events)) = some (2, events)) :
    ∃ w s, (worldMachine fun _ => fillDrain).Leads Machine.Any .start w ∧
      w.session 0 = some s ∧ s.highwaterBytes = 2 ∧ s.events = events := by
  obtain ⟨w, hw, hrest⟩ := Option.bind_eq_some_iff.mp hrun
  obtain ⟨s, hs, hvals⟩ := Option.map_eq_some_iff.mp hrest
  obtain ⟨hH, he⟩ := Prod.mk.inj hvals
  exact ⟨w, s, Machine.leads_of_run labels _ w hw (Machine.runMeets_any _ _), hs, hH, he⟩

/-- Two crossings with a discard between them. -/
theorem highwater_heard_discard :
    ∃ w s, (worldMachine fun _ => fillDrain).Leads Machine.Any .start w ∧
      w.session 0 = some s ∧ s.events = [.enqueue 0 2 1, .deduct 2 2, .discard, .enqueue 0 2 1] ∧
      Heard s.highwaterBytes s.events ∧ Separated s.highwaterBytes s.events := by
  obtain ⟨w, s, hl, hs, hH, he⟩ := fillDrain_events
    [.accept (some 5) 2, .send 0 (some [1, 2]), .outDiscard 0, .send 0 (some [3]),
      .send 0 (some [4, 5])]
    [.enqueue 0 2 1, .deduct 2 2, .discard, .enqueue 0 2 1] (by decide +kernel)
  have hheard : Heard s.highwaterBytes s.events := by
    rw [hH, he]
    intro before after calls hm
    simp only [List.mem_cons, OutEvent.enqueue.injEq, reduceCtorEq, List.not_mem_nil, or_false,
      false_or] at hm
    rcases hm with ⟨rfl, rfl, rfl⟩ | ⟨rfl, rfl, rfl⟩
    · rfl
    · rfl
  exact ⟨w, s, hl, hs, he, hheard, (highwater_heard_iff hl hs (by omega)).mp hheard⟩

/-- The queue is filled to the mark, flushed, and filled again: the second crossing
is not heard. -/
theorem highwater_crossing_unheard :
    ∃ w s, (worldMachine fun _ => fillDrain).Leads Machine.Any .start w ∧
      w.session 0 = some s ∧ s.highwaterBytes = 2 ∧
      s.events = [.enqueue 0 2 1, .deduct 2 2, .enqueue 0 2 0] ∧
      ¬ Heard s.highwaterBytes s.events := by
  obtain ⟨w, s, hl, hs, hH, he⟩ := fillDrain_events
    [.accept (some 5) 2, .send 0 (some [1, 2]), .flush 0, .send 0 (some [3, 4])]
    [.enqueue 0 2 1, .deduct 2 2, .enqueue 0 2 0] (by decide +kernel)
  refine ⟨w, s, hl, hs, hH, he, fun hheard => ?_⟩
  rw [hH, he] at hheard
  have := hheard 0 2 0 (by simp)
  simp at this

/-! ## All or nothing -/

/-- A call is all-or-nothing exactly when it is refused for its arguments, or the
platform does not return 0 and memory does not run out after the first byte of
the payload was taken or queued. -/
theorem send_all_or_nothing_iff (h : (worldMachine env).Leads Machine.Any .start w)
    (hs : w.session i = some s) :
    (∀ data, AllOrNothing s (tcpSessionSend (env i) s (some data)) data ↔
      SendWhole (env i) s data) ∧
    (∀ parts : List (Option (List UInt8)), parts.length ≤ iovMax →
      (AllOrNothing s (tcpSessionSendv (env i) s (some parts))
        (parts.map fun p => p.getD []).flatten ↔ SendvWhole (env i) s parts)) ∧
    (∀ b, 0 < w.app b →
      (AllOrNothing s (tcpSessionSendBuf (env i) s (some b))
        ((s.bufs.bufData b).take (s.bufs.bufLen b)) ↔ SendBufWhole (env i) s b)) ∧
    AllOrNothing s (tcpSessionSend (env i) s none) [] ∧
    AllOrNothing s (tcpSessionSendv (env i) s none) [] ∧
    AllOrNothing s (tcpSessionSendBuf (env i) s none) [] := by
  have hinv := (WorldInv.of_leads h).queue i s hs
  have hnull : AllOrNothing s (.invalid, s) [] := Or.inr ⟨Err.noConfusion, rfl, rfl⟩
  refine ⟨fun data => ?_, fun parts hl => ?_, fun b hb => ?_, hnull, hnull, hnull⟩
  · rw [(hinv.sendOutcome (env i) data).allOrNothing_iff, whole_sendOutcome]
  · rw [(hinv.sendvOutcome (env i) parts).allOrNothing_iff, whole_sendvOutcome (env i) s hl]
  · have hb : 0 < w.others i b := Nat.add_pos_left hb _
    rw [(hinv.sendBufOutcome (env i) hb).allOrNothing_iff, whole_sendBufOutcome (env i) hinv hb]

/-- The world after one session was accepted. -/
def oneSession : World :=
  { World.start with ses := Function.update (fun _ => none) 0 (some (newSession (some 5) 0)), count := 1 }

theorem oneSession_leads (env : Nat → NetEnv) :
    (worldMachine env).Leads Machine.Any .start oneSession :=
  .single (a := .accept (some 5) 0) trivial rfl

/-- A payload that the socket takes in part, with memory for the rest. -/
theorem send_all_or_nothing_short :
    (worldMachine fun _ => shortSend).Leads Machine.Any .start oneSession ∧
      oneSession.session 0 = some (newSession (some 5) 0) ∧
      AllOrNothing (newSession (some 5) 0)
        (tcpSessionSend shortSend (newSession (some 5) 0) (some [1, 2, 3])) [1, 2, 3] := by
  have hl := oneSession_leads fun _ => shortSend
  refine ⟨hl, rfl, ((send_all_or_nothing_iff hl (i := 0) rfl).1 _).mpr ?_⟩
  exact Or.inr (Or.inr (Or.inr ⟨by decide, fun _ => by decide, fun _ => trivial⟩))

/-- A platform that takes one byte, and no memory for chunks. -/
def scarce : NetEnv where
  send _ parts := min 1 parts.flatten.length
  calloc _ := false
  alloc _ size := some (List.replicate size 0)
  send_le _ parts := by omega
  send_ge _ parts := by omega
  alloc_le := zeros_le

/-- The call returns `ZTK_ERR_NOMEM` after the socket took the first byte. -/
theorem send_nomem_after_first_byte :
    (worldMachine fun _ => scarce).Leads Machine.Any .start oneSession ∧
      oneSession.session 0 = some (newSession (some 5) 0) ∧
      (tcpSessionSend scarce (newSession (some 5) 0) (some [1, 2])).1 = .nomem ∧
      (tcpSessionSend scarce (newSession (some 5) 0) (some [1, 2])).2.stream = [1] ∧
      ¬ AllOrNothing (newSession (some 5) 0)
        (tcpSessionSend scarce (newSession (some 5) 0) (some [1, 2])) [1, 2] := by
  have hcode : (tcpSessionSend scarce (newSession (some 5) 0) (some [1, 2])).1 = .nomem := by
    decide +kernel
  have hstream : (tcpSessionSend scarce (newSession (some 5) 0) (some [1, 2])).2.stream = [1] := by
    decide +kernel
  refine ⟨oneSession_leads _, rfl, hcode, hstream, ?_⟩
  rintro (⟨hok, -⟩ | ⟨-, hsame, -⟩)
  · rw [hcode] at hok
    cases hok
  · rw [hstream] at hsame
    cases hsame

/-! ## Vectors -/

/-- The platform takes a first part of what it is offered, or is full. -/
def Willing (env : NetEnv) : Prop :=
  ∀ k parts, 0 < env.send k parts ∨ env.send k parts = Err.again.code

/-- There is no socket to write to. -/
def Session.Unwritable (s : Session) : Prop := ∀ fd, s.sock = some fd → fd < 0

/-- A payload given to the session is taken or queued: it is not closing, and has bytes
queued already or a socket. -/
def Session.Accepts (s : Session) : Prop :=
  s.closing = false ∧ (s.out.nodes = [] → ¬ s.Unwritable)

variable {call : NetEnv}

theorem Willing.neverZero (hw : Willing call) : NeverZero call := by
  intro k parts hz
  rcases hw k parts with hpos | hagain
  · omega
  · exact absurd (hagain.symm.trans hz) (by decide)

/-- A socket that cannot be written to refuses with `ZTK_ERR_INVALID`, and nothing else
refuses where the platform is willing. -/
theorem refusal_iff {n : Int} {s : Session} (hu : s.Unwritable → n = Err.invalid.code)
    (hok : ¬ s.Unwritable → 0 < n ∨ n = Err.again.code) :
    0 < n ∨ n = Err.again.code ↔ ¬ s.Unwritable := by
  refine ⟨fun hn hs => ?_, hok⟩
  rw [hu hs] at hn
  exact absurd hn (by decide)

theorem unwritable_none {s : Session} (hs : s.sock = none) : s.Unwritable := by
  intro fd hfd
  rw [hs] at hfd
  cases hfd

theorem unwritable_some {s : Session} {fd : Int} (hs : s.sock = some fd) :
    s.Unwritable ↔ fd < 0 := by
  refine ⟨fun h => h fd hs, fun hlt fd' hfd' => ?_⟩
  rw [hs, Option.some.injEq] at hfd'
  exact hfd' ▸ hlt

theorem socketSend_takes_iff (hw : Willing call) (s : Session) (data : List UInt8) :
    0 < (socketSend call s data).1 ∨ (socketSend call s data).1 = Err.again.code ↔
      ¬ s.Unwritable := by
  cases hs : s.sock with
  | none =>
      refine refusal_iff (fun _ => ?_) fun h => absurd (unwritable_none hs) h
      rw [socketSend, hs]
  | some fd =>
      by_cases hfd : fd < 0
      · refine refusal_iff (fun _ => ?_) fun h => absurd ((unwritable_some hs).mpr hfd) h
        simp only [socketSend, hs, if_pos hfd]
      · refine refusal_iff (fun h => absurd ((unwritable_some hs).mp h) hfd) fun _ => ?_
        simp only [socketSend, hs, if_neg hfd]
        exact hw _ _

theorem socketSendv_takes_iff (hw : Willing call) (s : Session) {iov : List (List UInt8)}
    (hiov : iov ≠ []) :
    0 < (socketSendv call s iov).1 ∨ (socketSendv call s iov).1 = Err.again.code ↔
      ¬ s.Unwritable := by
  cases hs : s.sock with
  | none =>
      refine refusal_iff (fun _ => ?_) fun h => absurd (unwritable_none hs) h
      rw [socketSendv, hs]
  | some fd =>
      by_cases hfd : fd < 0
      · refine refusal_iff (fun _ => ?_) fun h => absurd ((unwritable_some hs).mpr hfd) h
        simp only [socketSendv, hs, if_pos hfd]
      · refine refusal_iff (fun h => absurd ((unwritable_some hs).mp h) hfd) fun _ => ?_
        simp only [socketSendv, hs, if_neg hfd, if_neg hiov]
        exact hw _ _

/-- Where memory suffices, a payload that is offered is refused only by the socket. -/
theorem offerOutcome_ok_iff {payload : List UInt8} {n : Int} {rest full : Bool × List UInt8}
    (hz : n ≠ 0) (hle : n ≤ payload.length) (hrest : n < payload.length → rest.1 = true)
    (hfull : full.1 = true) :
    (offerOutcome payload n rest full).1 = .ok ↔ 0 < n ∨ n = Err.again.code := by
  simp only [offerOutcome, queueOutcome]
  split
  · exact iff_of_true rfl (by omega)
  · next hn =>
      split
      · next hpos =>
          have hrest : rest.1 = true := hrest (by omega)
          exact iff_of_true (by simp only [hrest, if_true]) (Or.inl hpos)
      · next hpos =>
          split
          · next ha => exact iff_of_true rfl (Or.inr ha)
          · next ha =>
              exact iff_of_false (fun h => hz (Err.ofCode_eq_ok.mp h)) (not_or.mpr ⟨hpos, ha⟩)

/-- A call on a session that is not closing: queued behind other bytes, or offered to the
socket. -/
theorem accepts_iff {queue offer : Err × List UInt8} (hc : s.closing = false)
    (hqueue : queue.1 = .ok) (hoffer : offer.1 = .ok ↔ ¬ s.Unwritable) :
    (if s.out.nodes ≠ [] then queue else offer).1 = .ok ↔ s.Accepts := by
  simp only [Session.Accepts]
  split
  · next hq => exact iff_of_true hqueue ⟨hc, fun h => absurd h hq⟩
  · next hq =>
      rw [hoffer]
      exact ⟨fun h => ⟨hc, fun _ => h⟩, fun h => h.2 (not_not.mp hq)⟩

theorem not_accepts_of_closing (hc : s.closing = true) : ¬ s.Accepts := by
  rintro ⟨hf, -⟩
  rw [hc] at hf
  cases hf

theorem OutInv.send_ok_iff {held : Nat → Nat} (h : OutInv held s) (hp : Plenty call)
    (hw : Willing call) {data : List UInt8} (hd : data ≠ []) :
    (tcpSessionSend call s (some data)).1 = .ok ↔ s.Accepts := by
  rw [(h.sendOutcome call data).code, Net.sendOutcome]
  cases hc : s.closing with
  | true =>
      rw [if_pos (Or.inl rfl)]
      exact iff_of_false Err.noConfusion (not_accepts_of_closing hc)
  | false =>
      rw [if_neg (by simp [hd])]
      have hmem : ∀ {rest}, rest ≠ [] → (memOutcome call s rest).1 = true :=
        fun hr => hp.memFits _ _ (List.length_pos_iff.mpr hr)
      refine accepts_iff hc (by rw [queueOutcome, hmem hd]; rfl) ?_
      rw [offerOutcome_ok_iff (socketSend_ne_zero call hw.neverZero s data)
        (socketSend_offered call s data).le (fun hlt => hmem ?_) (hmem hd)]
      · exact socketSend_takes_iff hw s data
      · intro hnil
        have := List.drop_eq_nil_iff.mp hnil
        have := List.length_pos_iff.mpr hd
        omega

theorem filterMap_some (parts : List (List UInt8)) :
    (parts.map some).filterMap id = parts := by
  rw [List.filterMap_map]
  exact List.filterMap_some

theorem OutInv.sendv_ok_iff {held : Nat → Nat} (h : OutInv held s) (hp : Plenty call)
    (hw : Willing call) {parts : List (List UInt8)} (hparts : parts ≠ [])
    (hne : ∀ p ∈ parts, p ≠ []) :
    (tcpSessionSendv call s (some (parts.map some))).1 = .ok ↔ s.Accepts := by
  have hsent : ((parts.map some).take iovMax).filterMap id = parts.take iovMax := by
    rw [← List.map_take, filterMap_some]
  have hnetake : ∀ p ∈ parts.take iovMax, p ≠ [] := fun p hm => hne p (List.mem_of_mem_take hm)
  rw [(h.sendvOutcome call _).code, Net.sendvOutcome, hsent]
  cases hc : s.closing with
  | true =>
      rw [if_pos (show BadParts s _ from Or.inl (Or.inl hc))]
      exact iff_of_false Err.noConfusion (not_accepts_of_closing hc)
  | false =>
      have hgood : ¬ BadParts s (parts.map some) := by
        rintro ((hcl | hnil) | ⟨p, hm, hbad⟩)
        · rw [hc] at hcl
          cases hcl
        · exact hparts (List.map_eq_nil_iff.mp hnil)
        · rw [← List.map_take, List.mem_map] at hm
          obtain ⟨bytes, hm, rfl⟩ := hm
          rcases hbad with hbad | hbad
          · cases hbad
          · exact hnetake bytes hm (Option.some.inj hbad)
      have hfit : ∀ {ps : List (List UInt8)}, (∀ p ∈ ps, p ≠ []) →
          (partsOutcome call s ps).1 = true :=
        fun hps => decide_eq_true (hp.partsFit _ _ hps)
      have hoffered : parts.take iovMax ≠ [] := by
        rw [Ne, List.take_eq_nil_iff]
        exact not_or.mpr ⟨by decide, hparts⟩
      rw [if_neg hgood]
      refine accepts_iff hc (by rw [queueOutcome, hfit hnetake]; rfl) ?_
      rw [offerOutcome_ok_iff (socketSendv_ne_zero call hw.neverZero s _)
        (socketSendv_offered call s (List.length_take_le ..)).le
        (fun _ => hfit (restParts_ne_nil hnetake _)) (hfit hnetake)]
      exact socketSendv_takes_iff hw s hoffered

/-- The call looks at no more parts than `ZTK_SOCKET_IOV_MAX`. -/
theorem tcpSessionSendv_take (s : Session) (parts : List (Option (List UInt8))) :
    tcpSessionSendv call s (some parts) = tcpSessionSendv call s (some (parts.take iovMax)) := by
  have hnil : parts.take iovMax = [] ↔ parts = [] := by
    rw [List.take_eq_nil_iff]
    exact or_iff_right (by decide)
  simp only [tcpSessionSendv, hnil, List.take_take, Nat.min_self]

/-- What `ztk_tcp_session_sendv` adds to the stream when it returns `ZTK_OK`: the bytes
of the parts it looks at. -/
theorem OutInv.sendv_stream {held : Nat → Nat} (h : OutInv held s) (hp : Plenty call)
    (hw : Willing call) (parts : List (List UInt8))
    (hok : (tcpSessionSendv call s (some (parts.map some))).1 = .ok) :
    (tcpSessionSendv call s (some (parts.map some))).2.stream =
      s.stream ++ (parts.take iovMax).flatten := by
  rw [tcpSessionSendv_take, ← List.map_take] at hok ⊢
  have hlen : ((parts.take iovMax).map some).length ≤ iovMax := by
    rw [List.length_map]
    exact List.length_take_le ..
  have hsent := h.sendv hp hw.neverZero hlen
  rw [hsent.stream, if_pos hok, List.map_map]
  exact congrArg (fun ps => s.stream ++ List.flatten ps) (List.map_id _)

/-- Dropping parts with bytes loses bytes. -/
theorem flatten_take_eq_iff {parts : List (List UInt8)} (hne : ∀ p ∈ parts, p ≠ []) (k : Nat) :
    (parts.take k).flatten = parts.flatten ↔ parts.length ≤ k := by
  constructor
  · intro heq
    have hsplit := congrArg List.flatten (List.take_append_drop k parts)
    rw [List.flatten_append, heq, List.append_right_eq_self, List.flatten_eq_nil_iff] at hsplit
    refine List.drop_eq_nil_iff.mp (List.eq_nil_iff_forall_not_mem.mpr fun p hm => ?_)
    exact hne p (List.mem_of_mem_drop hm) (hsplit p hm)
  · intro hle
    rw [List.take_of_length_le hle]

/-- Where memory suffices and the platform takes something or is full, a call of
`ztk_tcp_session_sendv` that returns `ZTK_OK` has put all parts on the stream, as
`ztk_tcp_session_send` of their bytes does, exactly when it was given no more than
`ZTK_SOCKET_IOV_MAX` of them or could not accept any. -/
theorem sendv_whole_iff (h : (worldMachine env).Leads Machine.Any .start w)
    (hs : w.session i = some s) (hp : Plenty call) (hw : Willing call)
    {parts : List (List UInt8)} (hparts : parts ≠ []) (hne : ∀ p ∈ parts, p ≠ []) :
    ((tcpSessionSendv call s (some (parts.map some))).1 = .ok →
      (tcpSessionSendv call s (some (parts.map some))).2.stream = s.stream ++ parts.flatten ∧
      (tcpSessionSendv call s (some (parts.map some))).2.stream =
        (tcpSessionSend call s (some parts.flatten)).2.stream) ↔
      parts.length ≤ iovMax ∨ ¬ s.Accepts := by
  have hinv := (WorldInv.of_leads h).queue i s hs
  have hflat : parts.flatten ≠ [] := by
    obtain ⟨p, hm⟩ := List.exists_mem_of_ne_nil parts hparts
    exact fun hnil => hne p hm (List.flatten_eq_nil_iff.mp hnil p hm)
  rw [hinv.sendv_ok_iff hp hw hparts hne]
  by_cases hacc : s.Accepts
  · have hv := hinv.sendv_stream hp hw parts ((hinv.sendv_ok_iff hp hw hparts hne).mpr hacc)
    have hplain : (tcpSessionSend call s (some parts.flatten)).2.stream =
        s.stream ++ parts.flatten := by
      rw [(hinv.send hp hw.neverZero (some parts.flatten)).stream,
        if_pos ((hinv.send_ok_iff hp hw hflat).mpr hacc)]
      rfl
    rw [hv, hplain, and_self, List.append_right_inj, flatten_take_eq_iff hne]
    exact ⟨fun h => Or.inl (h hacc), fun h _ => h.resolve_right (not_not.mpr hacc)⟩
  · exact iff_of_true (fun h => absurd h hacc) (Or.inr hacc)

/-- A platform that takes a byte and is full in turn, with memory for everything. -/
def trickle : NetEnv where
  send k parts := if parts.flatten = [] ∨ k % 2 = 1 then Err.again.code else 1
  calloc _ := true
  alloc _ size := some (List.replicate size 0)
  send_le k parts := by
    split
    · exact (by decide : Err.again.code ≤ 0).trans (Int.natCast_nonneg _)
    · next h =>
        have := List.length_pos_iff.mpr (not_or.mp h).1
        omega
  send_ge k parts := by
    split
    · decide
    · decide
  alloc_le := zeros_le

theorem trickle_willing : Willing trickle := by
  intro k parts
  simp only [trickle]
  split
  · exact Or.inr rfl
  · exact Or.inl Int.one_pos

theorem trickle_plenty : Plenty trickle := ⟨fun _ => rfl, fun _ _ _ => Option.some_ne_none _⟩

/-- Two parts, of which the socket takes the first byte. -/
theorem sendv_whole_trickle :
    (tcpSessionSendv trickle (newSession (some 5) 0) (some [some [1, 2], some [3]])).1 = .ok ∧
      (tcpSessionSendv trickle (newSession (some 5) 0)
        (some [some [1, 2], some [3]])).2.stream = [1, 2, 3] := by
  have hok : (tcpSessionSendv trickle (newSession (some 5) 0)
      (some [some [1, 2], some [3]])).1 = .ok := by decide +kernel
  have hne : ∀ p ∈ ([[1, 2], [3]] : List (List UInt8)), p ≠ [] := by decide
  have hwhole := (sendv_whole_iff (oneSession_leads fun _ => trickle) (i := 0) rfl trickle_plenty
    trickle_willing (List.cons_ne_nil _ _) hne).mpr (Or.inl (by decide))
  exact ⟨hok, (hwhole hok).1⟩

/-- Of 17 parts of a byte each the last is dropped, and the call returns `ZTK_OK`. -/
theorem sendv_drops_seventeenth :
    (worldMachine fun _ => trickle).Leads Machine.Any .start oneSession ∧
      oneSession.session 0 = some (newSession (some 5) 0) ∧ Plenty trickle ∧ Willing trickle ∧
      (tcpSessionSendv trickle (newSession (some 5) 0)
        (some ((List.replicate 17 [7]).map some))).2.stream = List.replicate 16 7 ∧
      (tcpSessionSend trickle (newSession (some 5) 0)
        (some (List.replicate 17 [7]).flatten)).2.stream = List.replicate 17 7 ∧
      ¬ ((tcpSessionSendv trickle (newSession (some 5) 0)
          (some ((List.replicate 17 [7]).map some))).1 = .ok →
        (tcpSessionSendv trickle (newSession (some 5) 0)
          (some ((List.replicate 17 [7]).map some))).2.stream =
            (newSession (some 5) 0).stream ++ (List.replicate 17 [7]).flatten) :=
  ⟨oneSession_leads _, rfl, trickle_plenty, trickle_willing, by decide +kernel, by decide +kernel,
    by decide +kernel⟩

end Ztk.Net
