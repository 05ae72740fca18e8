import Ztk.Wepoll.PortRuns

/-!
# The epoll set of a port

What a port is for: a map from sockets to the events and the data that `epoll_ctl` was given.
`EPOLL_CTL_ADD`, `EPOLL_CTL_MOD` and `EPOLL_CTL_DEL` act on it as on a map, and as long as no
registered socket is closed or was asked for with `EPOLLONESHOT`, nothing else does: threads
may wait, requests complete or fail, and sockets wait for their end.  `Port.Held` says that a
function leaves the set alone, `Port.Becomes` that it makes it another one.
-/

namespace Ztk.Wepoll

open Ztk.Lib

/-- What the epoll set is made of. -/
def SockState.core (x : SockState) : BitVec 64 × BitVec 32 × Nat × Bool :=
  (x.socket, x.userEvents, x.userData, x.deletePending)

/-- The answer to the last request. -/
def SockState.answer (x : SockState) : BitVec 32 × Nat × BitVec 32 :=
  (x.status, x.numberOfHandles, x.events)

/-- The epoll set: the events and the data of a socket. -/
def Port.watches (s : Port) (socket : BitVec 64) : Option (BitVec 32 × Nat) :=
  (s.findSocket socket).map fun k => ((s.sock k).userEvents, (s.sock k).userData)

/-- No socket is registered twice, and none was asked for with `EPOLLONESHOT`. -/
structure Port.Plain (s : Port) : Prop where
  apart : ∀ k ∈ s.sockTree, ∀ q ∈ s.sockTree, (s.sock k).socket = (s.sock q).socket → k = q
  steady : ∀ k ∈ s.sockTree, ¬ Shares (s.sock k).userEvents epolloneshot

/-- A function that leaves the epoll set alone. -/
structure Port.Held (s s' : Port) : Prop where
  tree : s'.sockTree = s.sockTree
  core : ∀ k, (s'.sock k).core = (s.sock k).core
  deleting : s'.deleting = s.deleting

/-- No registered socket is closed: `afd_poll` does not fail because of this. -/
def Opened (answers : Nat → AfdAnswer) : Prop :=
  ∀ k, (answers k).poll ≠ some errorInvalidHandle

namespace Port.Held

variable {s s' s'' : Port} {k : Nat}

theorem refl : s.Held s := ⟨rfl, fun _ => rfl, rfl⟩

theorem trans (h : s.Held s') (h' : s'.Held s'') : s.Held s'' where
  tree := h'.tree.trans h.tree
  core k := (h'.core k).trans (h.core k)
  deleting := h'.deleting.trans h.deleting

theorem lastError {e : Nat} : s.Held { s with lastError := e } := ⟨rfl, fun _ => rfl, rfl⟩

theorem fields (h : s.Held s') (k : Nat) :
    (s'.sock k).socket = (s.sock k).socket ∧ (s'.sock k).userEvents = (s.sock k).userEvents ∧
      (s'.sock k).userData = (s.sock k).userData ∧
      (s'.sock k).deletePending = (s.sock k).deletePending := by
  have hc := h.core k
  simp only [SockState.core, Prod.mk.injEq] at hc
  exact hc

theorem findSocket (h : s.Held s') (socket : BitVec 64) :
    s'.findSocket socket = s.findSocket socket := by
  rw [Port.findSocket, Port.findSocket, h.tree]
  simp only [fun k => (h.fields k).1]

theorem watches (h : s.Held s') : s'.watches = s.watches := by
  funext socket
  rw [Port.watches, Port.watches, h.findSocket]
  simp only [fun k => (h.fields k).2.1, fun k => (h.fields k).2.2.1]

theorem plain (h : s.Held s') (hp : s.Plain) : s'.Plain where
  apart k hk q hq he := by
    rw [h.tree] at hk hq
    rw [(h.fields k).1, (h.fields q).1] at he
    exact hp.apart k hk q hq he
  steady k hk := by
    rw [h.tree] at hk
    rw [(h.fields k).2.1]
    exact hp.steady k hk

/-! ### Sockets -/

theorem setSock {x : SockState} (hx : x.core = (s.sock k).core) : s.Held (s.setSock k x) where
  tree := rfl
  core q := by
    by_cases hq : q = k
    · subst hq
      rw [Port.setSock_self]
      exact hx
    · rw [Port.setSock_of_ne hq]
  deleting := rfl

theorem requestSocketUpdate : s.Held (s.requestSocketUpdate k) := by
  rw [Port.requestSocketUpdate]
  split
  · exact refl
  · exact ⟨rfl, fun _ => rfl, rfl⟩

theorem cancelSocketUpdate : s.Held (s.cancelSocketUpdate k) := by
  rw [Port.cancelSocketUpdate]
  split
  · exact ⟨rfl, fun _ => rfl, rfl⟩
  · exact refl

theorem afdPoll (answer : Option Nat) : s.Held (s.afdPoll k answer) := by
  have hset : s.Held (s.setSock k { s.sock k with status := statusPending }) := setSock rfl
  cases answer with
  | none => exact hset.trans ⟨rfl, fun _ => rfl, rfl⟩
  | some e =>
      rw [Port.afdPoll]
      split
      · exact hset.trans ⟨rfl, fun _ => rfl, rfl⟩
      · exact hset.trans ⟨rfl, fun _ => rfl, rfl⟩

theorem sockCancelPoll (answer : AfdAnswer) : s.Held (s.sockCancelPoll k answer).1 := by
  have hcancel : ∀ c, s.Held ((s.check c).afdCancelPoll k answer.cancel).1 := by
    intro c
    rw [Port.afdCancelPoll.eq_def]
    split
    · exact ⟨rfl, fun _ => rfl, rfl⟩
    · cases answer.cancel with
      | none => exact ⟨rfl, fun _ => rfl, rfl⟩
      | some e => exact ⟨rfl, fun _ => rfl, rfl⟩
  have hc := hcancel ((s.sock k).pollStatus = .pending)
  rw [Port.sockCancelPoll]
  generalize (s.check _).afdCancelPoll k answer.cancel = r at hc
  obtain ⟨u, b⟩ := r
  cases b with
  | false => exact hc
  | true => exact hc.trans (setSock rfl)

theorem sockUpdate {answer : AfdAnswer} (ha : answer.poll ≠ some errorInvalidHandle) :
    s.Held (s.sockUpdate k answer).1 := by
  have hstart : ∀ c, s.Held ({ s with life := s.life.use k }.check c) :=
    fun _ => ⟨rfl, fun _ => rfl, rfl⟩
  rw [Port.sockUpdate]
  generalize hu : ({ s with life := s.life.use k }.check (!(s.sock k).deletePending) : Port) = u
  have hsu : s.Held u := hu ▸ hstart _
  refine hsu.trans ?_
  dsimp only
  split
  · split
    · exact cancelSocketUpdate
    · have hc := sockCancelPoll (s := u) (k := k) answer
      generalize u.sockCancelPoll k answer = r at hc
      obtain ⟨v, b⟩ := r
      cases b with
      | false => exact hc
      | true => exact hc.trans cancelSocketUpdate
  · exact cancelSocketUpdate
  · have hpoll : u.Held ((u.setSock k (u.sock k).pollInfo).afdPoll k answer.poll) :=
      trans (setSock (x := (u.sock k).pollInfo) rfl) (afdPoll _)
    generalize (u.setSock k (u.sock k).pollInfo).afdPoll k answer.poll = v at hpoll
    rw [if_neg ha]
    split
    · exact hpoll.trans ((setSock (x := (v.sock k).submitted) rfl).trans cancelSocketUpdate)
    · exact hpoll

theorem updateLoop {answers : Nat → AfdAnswer} (ha : Opened answers) :
    ∀ (n : Nat) (s : Port), s.Held (Port.updateLoop answers n s).1
  | 0, _ => refl
  | n + 1, s => by
      rw [Port.updateLoop]
      split
      · exact refl
      · next k _ _ =>
          have hu := sockUpdate (s := s) (k := k) (ha k)
          generalize s.sockUpdate k (answers k) = r at hu
          obtain ⟨u, b⟩ := r
          cases b with
          | false => exact hu
          | true => exact hu.trans (updateLoop ha n u)

theorem updateEvents {answers : Nat → AfdAnswer} (ha : Opened answers) :
    s.Held (s.updateEvents answers).1 := by
  have hu := updateLoop ha s.sockUpdateQueue.length s
  rw [Port.updateEvents]
  exact hu.trans ⟨rfl, fun _ => rfl, rfl⟩

theorem updateEventsIfPolling {answers : Nat → AfdAnswer} (ha : Opened answers) :
    s.Held (s.updateEventsIfPolling answers) := by
  rw [Port.updateEventsIfPolling]
  split
  · exact updateEvents ha
  · exact refl

/-! ### Waiting -/

theorem waitExit {t : Nat} {m r : Int} {events : List EpollEvent} {answers : Nat → AfdAnswer}
    (ha : Opened answers) : s.Held (s.waitExit t m r events answers) := by
  rw [Port.waitExit]
  exact (updateEventsIfPolling ha).trans ⟨rfl, fun _ => rfl, rfl⟩

theorem pollEnter {t : Nat} {w : PortWait} {answers exitAnswers : Nat → AfdAnswer}
    (ha : Opened answers) (he : Opened exitAnswers) :
    s.Held (s.pollEnter t w answers exitAnswers) := by
  have hu := updateEvents (s := s) ha
  rw [Port.pollEnter]
  generalize s.updateEvents answers = r at hu
  obtain ⟨u, b⟩ := r
  cases b with
  | false => exact hu.trans (waitExit he)
  | true => exact hu.trans ⟨rfl, fun _ => rfl, rfl⟩

theorem portWait {t : Nat} {m timeout : Int} {canAlloc : Bool} {now : Nat}
    {answers exitAnswers : Nat → AfdAnswer} (ha : Opened answers) (he : Opened exitAnswers) :
    s.Held (s.portWait t m timeout canAlloc now answers exitAnswers) := by
  rw [Port.portWait]
  split
  · exact ⟨rfl, fun _ => rfl, rfl⟩
  · exact pollEnter ha he

/-! ### Completed requests -/

theorem sockDelete_doomed {answer : AfdAnswer} {force : Bool}
    (hd : (s.sock k).deletePending = true) : s.Held (s.sockDelete k force answer) := by
  have hrelease : s.Held ({ s with life := s.life.use k }.sockRelease k force) := by
    rw [Port.sockRelease]
    split
    · rw [Port.removeDeletedSocket]
      split <;> exact ⟨rfl, fun _ => rfl, rfl⟩
    · rw [Port.addDeletedSocket]
      split <;> exact ⟨rfl, fun _ => rfl, rfl⟩
  rw [Port.sockDelete, if_pos hd]
  exact hrelease

theorem feedReport {epollEvents : BitVec 32} (hp : ¬ Shares (s.sock k).userEvents epolloneshot) :
    s.Held (s.feedReport k epollEvents).1 := by
  have hr : s.Held (s.requestSocketUpdate k) := requestSocketUpdate
  rw [← (hr.fields k).2.1] at hp
  rw [Port.feedReport, if_neg hp]
  split <;> exact hr

end Port.Held

namespace Port

variable {s : Port} {k : Nat}

theorem sockRelease_sock {force : Bool} : (s.sockRelease k force).sock = s.sock := by
  rw [sockRelease]
  split
  · rw [removeDeletedSocket]
    split <;> rfl
  · rw [addDeletedSocket]
    split <;> rfl

theorem requestSocketUpdate_sock : (s.requestSocketUpdate k).sock = s.sock := by
  rw [requestSocketUpdate]
  split <;> rfl

/-- What is known of a socket whose packet is fed: it is not registered any more, or its answer
does not say that it was closed. -/
def Fed (s : Port) (k : Nat) : Prop :=
  (s.sock k).deletePending = false → k ∈ s.sockTree ∧ sockEvents (s.sock k) ≠ none

/-- An event that a socket of the epoll set asked for. -/
def AskedBy (s : Port) (ev : EpollEvent) : Prop :=
  ∃ k ∈ s.sockTree, ev.data = (s.sock k).userData ∧ ev.events ≠ 0 ∧
    Covered ev.events (s.sock k).userEvents

theorem sockEvents_congr {x y : SockState} (h : x.answer = y.answer) :
    sockEvents x = sockEvents y := by
  simp only [SockState.answer, Prod.mk.injEq] at h
  rw [sockEvents, sockEvents, h.1, h.2.1, h.2.2]

/-- A packet is fed: the epoll set is as before, and an event is asked for. -/
theorem sockFeedEvent_held (hp : s.Plain) (hk : s.Fed k) :
    s.Held (s.sockFeedEvent k).1 ∧
      (∀ q, ((s.sockFeedEvent k).1.sock q).answer = (s.sock q).answer) ∧
      ∀ ev ∈ (s.sockFeedEvent k).2, s.AskedBy ev := by
  have hstart : s.Held (s.feedStart k) := by
    have hset : s.Held (s.setSock k (s.sock k).completed) := Held.setSock rfl
    exact hset.trans ⟨rfl, fun _ => rfl, rfl⟩
  have hanswer : ∀ q, ((s.feedStart k).sock q).answer = (s.sock q).answer := by
    intro q
    by_cases hq : q = k
    · subst hq
      rw [PortCore.feedStart_sock]
      rfl
    · rw [PortCore.feedStart_of_ne hq]
  have hfields := hstart.fields k
  rw [sockFeedEvent]
  generalize s.feedStart k = u at hstart hanswer hfields
  split
  · next hd =>
      refine ⟨hstart.trans (Held.sockDelete_doomed hd), fun q => ?_, fun ev hev => ?_⟩
      · rw [sockDelete, if_pos hd, sockRelease_sock]
        exact hanswer q
      · cases hev
  · next hd =>
      rw [Bool.not_eq_true, hfields.2.2.2] at hd
      obtain ⟨htree, hevents⟩ := hk hd
      rw [← sockEvents_congr (hanswer k)] at hevents
      obtain ⟨epollEvents, he⟩ := Option.ne_none_iff_exists'.mp hevents
      rw [he]
      dsimp only
      have hone : ¬ Shares (u.sock k).userEvents epolloneshot := by
        rw [hfields.2.1]
        exact hp.steady k htree
      refine ⟨hstart.trans (Held.feedReport hone), fun q => ?_, fun ev hev => ?_⟩
      · rw [feedReport, requestSocketUpdate_sock, if_neg hone]
        split <;> rw [requestSocketUpdate_sock] <;> exact hanswer q
      · rw [feedReport, requestSocketUpdate_sock] at hev
        split at hev
        · cases hev
        · next hne =>
            rw [List.mem_singleton] at hev
            subst hev
            refine ⟨k, htree, hfields.2.2.1, hne, ?_⟩
            rw [← hfields.2.1]
            exact covered_and_right

theorem feedEvents_held : ∀ {l : List Nat} {s : Port}, s.Plain → (∀ k ∈ l, s.Fed k) →
    s.Held (feedEvents l s).1 ∧ ∀ ev ∈ (feedEvents l s).2, s.AskedBy ev
  | [], _, _, _ => ⟨.refl, fun _ h => absurd h List.not_mem_nil⟩
  | k :: l, s, hp, hl => by
      obtain ⟨hheld, hanswer, hasked⟩ := sockFeedEvent_held hp (hl k List.mem_cons_self)
      rw [feedEvents]
      dsimp only
      generalize s.sockFeedEvent k = r at hheld hanswer hasked
      obtain ⟨u, evs⟩ := r
      have hrest : ∀ q ∈ l, u.Fed q := by
        intro q hq hd
        rw [(hheld.fields q).2.2.2] at hd
        rw [hheld.tree, sockEvents_congr (hanswer q)]
        exact hl q (List.mem_cons_of_mem k hq) hd
      obtain ⟨hheld', hasked'⟩ := feedEvents_held (hheld.plain hp) hrest
      refine ⟨hheld.trans hheld', fun ev hev => ?_⟩
      rcases List.mem_append.mp hev with hev | hev
      · exact hasked ev hev
      · obtain ⟨q, hq, hdata, hne, hcov⟩ := hasked' ev hev
        rw [hheld.tree] at hq
        rw [(hheld.fields q).2.2.1] at hdata
        rw [(hheld.fields q).2.1] at hcov
        exact ⟨q, hq, hdata, hne, hcov⟩

theorem waitExit_events {t : Nat} {m n m' n' : Int} {events events' : List EpollEvent}
    {answers : Nat → AfdAnswer}
    (hw : (s.waitExit t m n events answers).wait t = .returned m' n' events') :
    events' = events := by
  have hself := (Function.update_self ..).symm.trans hw
  cases hself
  rfl

/-- A call that fails before its thread waits returns no events. -/
theorem pollEnter_events {t : Nat} {w : PortWait} {answers exitAnswers : Nat → AfdAnswer}
    {m n : Int} {events : List EpollEvent}
    (hw : (s.pollEnter t w answers exitAnswers).wait t = .returned m n events) : events = [] := by
  rw [pollEnter] at hw
  generalize s.updateEvents answers = v at hw
  obtain ⟨v, b⟩ := v
  cases b with
  | false => exact waitExit_events hw
  | true =>
      have hself := (Function.update_self ..).symm.trans hw
      cases hself

/-- The end of `port__poll`: the events that it returns are asked for. -/
theorem pollLeave_held {t : Nat} {w : PortWait} {r : Except Nat (List Nat)} {now : Nat}
    {answers exitAnswers : Nat → AfdAnswer} (hp : s.Plain)
    (hr : ∀ ks, r = .ok ks → ∀ k ∈ ks, s.Fed k) (ha : Opened answers) (he : Opened exitAnswers) :
    s.Held (s.pollLeave t w r now answers exitAnswers) ∧
      ∀ m n events, (s.pollLeave t w r now answers exitAnswers).wait t = .returned m n events →
        ∀ ev ∈ events, s.AskedBy ev := by
  have hback : s.Held (s.pollReturned t) := ⟨rfl, fun _ => rfl, rfl⟩
  have hnone : ∀ {events : List EpollEvent}, events = [] → ∀ ev ∈ events, s.AskedBy ev := by
    rintro _ rfl ev hev
    cases hev
  cases r with
  | error e =>
      refine ⟨(hback.trans .lastError).trans (.waitExit he), ?_⟩
      intro m n events hw
      exact hnone (waitExit_events hw)
  | ok ks =>
      have hfed : ∀ k ∈ ks, (s.pollReturned t).Fed k := hr ks rfl
      obtain ⟨hheld, hasked⟩ := feedEvents_held (hback.plain hp) hfed
      rw [pollLeave]
      dsimp only
      generalize feedEvents ks (s.pollReturned t) = v at hheld hasked
      obtain ⟨u, evs⟩ := v
      have hu : s.Held u := hback.trans hheld
      split
      · refine ⟨hu.trans (.waitExit he), ?_⟩
        intro m n events hw ev hev
        rw [waitExit_events hw] at hev
        exact hasked ev hev
      · split
        · refine ⟨hu.trans (.pollEnter ha he), ?_⟩
          intro m n events hw
          exact hnone (pollEnter_events hw)
        · split
          · refine ⟨(hu.trans .lastError).trans (.waitExit he), ?_⟩
            intro m n events hw
            exact hnone (waitExit_events hw)
          · refine ⟨hu.trans (.pollEnter ha he), ?_⟩
            intro m n events hw
            exact hnone (pollEnter_events hw)

/-! ## `epoll_ctl` -/

theorem findSocket_socket {socket : BitVec 64} (hk : s.findSocket socket = some k) :
    k ∈ s.sockTree ∧ (s.sock k).socket = socket := by
  rw [findSocket] at hk
  have hsocket := List.find?_some hk
  exact ⟨List.mem_of_find?_eq_some hk, of_decide_eq_true hsocket⟩

theorem watches_eq_some (hp : s.Plain) {socket : BitVec 64} {x : BitVec 32 × Nat} :
    s.watches socket = some x ↔ ∃ k ∈ s.sockTree, (s.sock k).socket = socket ∧
      ((s.sock k).userEvents, (s.sock k).userData) = x := by
  rw [watches, Option.map_eq_some_iff]
  constructor
  · rintro ⟨k, hk, hx⟩
    exact ⟨k, (findSocket_socket hk).1, (findSocket_socket hk).2, hx⟩
  · rintro ⟨k, hk, hsocket, hx⟩
    refine ⟨k, ?_, hx⟩
    obtain ⟨q, hq⟩ : ∃ q, s.findSocket socket = some q := by
      refine Option.ne_none_iff_exists'.mp fun hnone => ?_
      exact List.find?_eq_none.mp hnone k hk (decide_eq_true hsocket)
    obtain ⟨hmem, hqs⟩ := findSocket_socket hq
    rw [hq, hp.apart q hmem k hk (hqs.trans hsocket.symm)]

/-- Whether `port__ctl_add` succeeds. -/
def ctlAddOk (s : Port) (socket : BitVec 64) (hasBase canCreate canAlloc : Bool) : Bool :=
  if socket = 0 ∨ socket = BitVec.allOnes 64 ∨ !hasBase then false
  else (s.sockNew socket canCreate canAlloc).2.isSome

/-- The epoll set has become another one. -/
structure Becomes (s s' : Port) (watches : BitVec 64 → Option (BitVec 32 × Nat)) : Prop where
  plain : s'.Plain
  watches : s'.watches = watches
  deleting : s'.deleting = s.deleting

theorem Becomes.held {s' s'' : Port} {watches : BitVec 64 → Option (BitVec 32 × Nat)}
    (h : s.Becomes s' watches) (h' : s'.Held s'') : s.Becomes s'' watches where
  plain := h'.plain h.plain
  watches := h'.watches.trans h.watches
  deleting := h'.deleting.trans h.deleting

theorem Held.becomes {s' : Port} (h : s.Held s') (hp : s.Plain) : s.Becomes s' s.watches :=
  ⟨h.plain hp, h.watches, h.deleting⟩

/-- What `sock_set_event` writes. -/
theorem setEvent_becomes (hp : s.Plain) (hk : k ∈ s.sockTree) {ev : BitVec 32}
    (hev : ¬ Shares (sockSetEvents ev) epolloneshot) (data : Nat) :
    s.Becomes (s.setSock k ((s.sock k).setEvent ev data))
      (Function.update s.watches (s.sock k).socket (some (sockSetEvents ev, data))) := by
  have hself : (s.setSock k ((s.sock k).setEvent ev data)).sock k = (s.sock k).setEvent ev data :=
    setSock_self
  have hsocket : ∀ q, ((s.setSock k ((s.sock k).setEvent ev data)).sock q).socket =
      (s.sock q).socket := by
    intro q
    by_cases hq : q = k
    · rw [hq, hself]
      rfl
    · rw [setSock_of_ne hq]
  have hplain : (s.setSock k ((s.sock k).setEvent ev data)).Plain := by
    refine ⟨fun p hp' q hq he => ?_, fun q hq => ?_⟩
    · rw [hsocket, hsocket] at he
      exact hp.apart p hp' q hq he
    · by_cases hqk : q = k
      · rw [hqk, hself]
        exact hev
      · rw [setSock_of_ne hqk]
        exact hp.steady q hq
  refine ⟨hplain, funext fun socket => Option.ext fun x => ?_, rfl⟩
  rw [watches_eq_some hplain]
  by_cases hs : socket = (s.sock k).socket
  · subst hs
    rw [Function.update_self, Option.some.injEq]
    constructor
    · rintro ⟨q, hq, hqs, hx⟩
      rw [hsocket] at hqs
      rw [hp.apart q hq k hk hqs, hself] at hx
      exact hx
    · intro hx
      exact ⟨k, hk, hsocket k, by rw [hself]; exact hx⟩
  · rw [Function.update_of_ne hs, watches_eq_some hp]
    refine exists_congr fun q => and_congr_right fun _ => ?_
    rw [hsocket]
    refine and_congr_right fun hqs => ?_
    have hqk : q ≠ k := by
      rintro rfl
      exact hs hqs.symm
    rw [setSock_of_ne hqk]

/-- `sock_set_event`. -/
theorem sockSetEvent_becomes (hp : s.Plain) (hk : k ∈ s.sockTree) {ev : BitVec 32}
    (hev : ¬ Shares (sockSetEvents ev) epolloneshot) (data : Nat) :
    s.Becomes (s.sockSetEvent k ev data)
      (Function.update s.watches (s.sock k).socket (some (sockSetEvents ev, data))) := by
  have hset := setEvent_becomes hp hk hev data
  rw [sockSetEvent]
  split
  · exact hset.held Held.requestSocketUpdate
  · exact hset

theorem ctlMod_becomes (hp : s.Plain) {socket : BitVec 64} (hs : (s.findSocket socket).isSome)
    {ev : BitVec 32} (hev : ¬ Shares (sockSetEvents ev) epolloneshot) (data : Nat)
    {answers : Nat → AfdAnswer} (ha : Opened answers) :
    s.Becomes (s.ctlMod socket ev data answers)
      (Function.update s.watches socket (some (sockSetEvents ev, data))) := by
  obtain ⟨k, hk⟩ := Option.isSome_iff_exists.mp hs
  obtain ⟨hmem, hsocket⟩ := findSocket_socket hk
  have hset := sockSetEvent_becomes hp hmem hev data
  rw [hsocket] at hset
  rw [ctlMod, hk]
  exact hset.held (Held.updateEventsIfPolling ha)

/-- A socket is taken out of the tree. -/
theorem erase_becomes (hp : s.Plain) (hnodup : s.sockTree.Nodup) (hk : k ∈ s.sockTree) {u : Port}
    (htree : u.sockTree = s.sockTree.erase k) (hsock : ∀ q, q ≠ k → u.sock q = s.sock q)
    (hd : u.deleting = s.deleting) :
    s.Becomes u (Function.update s.watches (s.sock k).socket none) := by
  have hmem : ∀ q, q ∈ u.sockTree ↔ q ≠ k ∧ q ∈ s.sockTree := by
    intro q
    rw [htree, hnodup.mem_erase_iff]
  have hplain : u.Plain := by
    refine ⟨fun p hpu q hqu he => ?_, fun q hqu => ?_⟩
    · obtain ⟨hpk, hp'⟩ := (hmem p).mp hpu
      obtain ⟨hqk, hq⟩ := (hmem q).mp hqu
      rw [hsock p hpk, hsock q hqk] at he
      exact hp.apart p hp' q hq he
    · obtain ⟨hqk, hq⟩ := (hmem q).mp hqu
      rw [hsock q hqk]
      exact hp.steady q hq
  refine ⟨hplain, funext fun socket => Option.ext fun x => ?_, hd⟩
  rw [watches_eq_some hplain]
  by_cases hs : socket = (s.sock k).socket
  · subst hs
    rw [Function.update_self]
    refine iff_of_false ?_ (by rintro ⟨⟩)
    rintro ⟨q, hqu, hqs, -⟩
    obtain ⟨hqk, hq⟩ := (hmem q).mp hqu
    rw [hsock q hqk] at hqs
    exact hqk (hp.apart q hq k hk hqs)
  · rw [Function.update_of_ne hs, watches_eq_some hp]
    constructor
    · rintro ⟨q, hqu, hqs, hx⟩
      obtain ⟨hqk, hq⟩ := (hmem q).mp hqu
      rw [hsock q hqk] at hqs hx
      exact ⟨q, hq, hqs, hx⟩
    · rintro ⟨q, hq, hqs, hx⟩
      have hqk : q ≠ k := by
        rintro rfl
        exact hs hqs.symm
      rw [← hsock q hqk] at hqs hx
      exact ⟨q, (hmem q).mpr ⟨hqk, hq⟩, hqs, hx⟩

theorem ctlDel_becomes (h : PortInv s) (hp : s.Plain) (socket : BitVec 64) (answer : AfdAnswer) :
    s.Becomes (s.ctlDel socket answer) (Function.update s.watches socket none) := by
  rw [ctlDel]
  split
  · next hnone =>
      have hwatch : s.watches socket = none := by rw [watches, hnone]; rfl
      rw [← hwatch, Function.update_eq_self]
      exact Held.refl.becomes hp
  · next k hk =>
      obtain ⟨hmem, rfl⟩ := findSocket_socket hk
      obtain ⟨-, hdel, hlive, hpending, -⟩ := h.core.listed hmem
      obtain ⟨e, x, -, heq⟩ := sockDelete_listed hlive hpending hdel h.core.distinct.update
        false answer
      rw [heq]
      -- What is left of the socket is in no tree.
      split
      · exact erase_becomes hp h.core.distinct.tree hmem rfl
          (fun q hq => Function.update_of_ne hq ..) rfl
      · exact erase_becomes hp h.core.distinct.tree hmem rfl
          (fun q hq => Function.update_of_ne hq ..) rfl

theorem register_sock (socket : BitVec 64) (g : Nat) : (s.register socket g).sock s.next =
    { SockState.zero with socket := socket, pollGroup := g } :=
  Function.update_self ..

/-- A socket is registered that was not, for no events yet. -/
theorem register_becomes (hp : s.Plain) {socket : BitVec 64} (hnone : s.findSocket socket = none)
    (hnext : s.next ∉ s.sockTree) (g : Nat) :
    s.Becomes (s.register socket g) (Function.update s.watches socket (some (0, 0))) := by
  have hnew := s.register_sock socket g
  have hold : ∀ q ∈ s.sockTree, (s.register socket g).sock q = s.sock q := by
    intro q hq
    have hqn : q ≠ s.next := fun he => hnext (he ▸ hq)
    exact Function.update_of_ne hqn ..
  have hfree : ∀ q ∈ s.sockTree, (s.sock q).socket ≠ socket := by
    intro q hq he
    exact List.find?_eq_none.mp hnone q hq (decide_eq_true he)
  have hplain : (s.register socket g).Plain := by
    refine ⟨fun p hp' q hq he => ?_, fun q hq => ?_⟩
    · rcases List.mem_cons.mp hp' with rfl | hp' <;> rcases List.mem_cons.mp hq with rfl | hq
      · rfl
      · rw [hnew, hold q hq] at he
        exact absurd he.symm (hfree q hq)
      · rw [hnew, hold p hp'] at he
        exact absurd he (hfree p hp')
      · rw [hold p hp', hold q hq] at he
        exact hp.apart p hp' q hq he
    · rcases List.mem_cons.mp hq with rfl | hq
      · rw [hnew]
        exact not_shares_zero
      · rw [hold q hq]
        exact hp.steady q hq
  refine ⟨hplain, funext fun socket' => Option.ext fun x => ?_, rfl⟩
  rw [watches_eq_some hplain]
  by_cases hs : socket' = socket
  · subst hs
    rw [Function.update_self, Option.some.injEq]
    constructor
    · rintro ⟨q, hq, hqs, hx⟩
      rcases List.mem_cons.mp hq with rfl | hq
      · rw [hnew] at hx
        exact hx
      · rw [hold q hq] at hqs
        exact absurd hqs (hfree q hq)
    · rintro rfl
      exact ⟨s.next, List.mem_cons_self, by rw [hnew], by rw [hnew]; rfl⟩
  · rw [Function.update_of_ne hs, watches_eq_some hp]
    constructor
    · rintro ⟨q, hq, hqs, hx⟩
      rcases List.mem_cons.mp hq with rfl | hq
      · rw [hnew] at hqs
        exact absurd hqs.symm hs
      · rw [hold q hq] at hqs hx
        exact ⟨q, hq, hqs, hx⟩
    · rintro ⟨q, hq, hqs, hx⟩
      rw [← hold q hq] at hqs hx
      exact ⟨q, List.mem_cons_of_mem _ hq, hqs, hx⟩

/-- `sock_new` registers the socket, or leaves the epoll set alone. -/
theorem sockNew_cases (s : Port) (socket : BitVec 64) (canCreate canAlloc : Bool) :
    (∃ u, s.Held u ∧ s.sockNew socket canCreate canAlloc = (u, none)) ∨
      ∃ u g, s.Held u ∧ u.next = s.next ∧ s.findSocket socket = none ∧
        s.sockNew socket canCreate canAlloc = (u.register socket g, some s.next) := by
  obtain ⟨v, hv, hnext, hacquire⟩ : ∃ v : Port, s.Held v ∧ v.next = s.next ∧
      (if s.pollGroups.lastWithRoom = none then s.checkIocp s.iocp else s) = v := by
    split
    · exact ⟨s.checkIocp s.iocp, ⟨rfl, fun _ => rfl, rfl⟩, rfl, rfl⟩
    · exact ⟨s, .refl, rfl, rfl⟩
  rw [sockNew]
  dsimp only
  rw [hacquire]
  cases v.pollGroups.acquire canCreate with
  | none => exact Or.inl ⟨v, hv, rfl⟩
  | some r =>
      obtain ⟨g, groups⟩ := r
      have hheld : ∀ groups, s.Held { v with pollGroups := groups } :=
        fun _ => hv.trans ⟨rfl, fun _ => rfl, rfl⟩
      dsimp only
      cases canAlloc with
      | false => exact Or.inl ⟨_, hheld _, rfl⟩
      | true =>
          rw [if_pos rfl, (hheld groups).findSocket]
          split
          · exact Or.inl ⟨_, hheld _, rfl⟩
          · next hsome =>
              rw [Bool.not_eq_true, Option.isSome_eq_false_iff, Option.isNone_iff_eq_none] at hsome
              refine Or.inr ⟨_, g, hheld groups, hnext, hsome, ?_⟩
              rw [hnext]

theorem ctlAdd_becomes (h : PortInv s) (hp : s.Plain) {socket : BitVec 64} {ev : BitVec 32}
    (hev : ¬ Shares (sockSetEvents ev) epolloneshot) (data : Nat)
    (hasBase canCreate canAlloc : Bool) {answers : Nat → AfdAnswer} (ha : Opened answers) :
    if s.ctlAddOk socket hasBase canCreate canAlloc then
      s.watches socket = none ∧
        s.Becomes (s.ctlAdd socket ev data hasBase canCreate canAlloc answers)
          (Function.update s.watches socket (some (sockSetEvents ev, data)))
    else s.Held (s.ctlAdd socket ev data hasBase canCreate canAlloc answers) := by
  rw [ctlAddOk, ctlAdd]
  split
  · exact Held.refl
  · obtain ⟨u, hu, heq⟩ | ⟨u, g, hu, hnext, hnone, heq⟩ :=
      s.sockNew_cases socket canCreate canAlloc
    · rw [heq]
      exact hu
    · rw [heq]
      have hfresh : u.next ∉ u.sockTree := by
        rw [hnext, hu.tree]
        intro hm
        exact Nat.lt_irrefl _ (h.core.old (h.core.listed hm).1)
      have hreg := register_becomes (hu.plain hp) ((hu.findSocket socket).trans hnone) hfresh g
      have hmem : u.next ∈ (u.register socket g).sockTree := List.mem_cons_self
      have hsocket : ((u.register socket g).sock u.next).socket = socket := by
        rw [register_sock]
      have hset := sockSetEvent_becomes hreg.plain hmem hev data
      rw [hsocket, hreg.watches, Function.update_idem, hu.watches, hnext] at hset
      have hwatch : s.watches socket = none := by rw [watches, hnone]; rfl
      have hdone := hset.held (Held.updateEventsIfPolling ha)
      exact ⟨hwatch, hdone.plain, hdone.watches,
        hdone.deleting.trans (hreg.deleting.trans hu.deleting)⟩

/-- With everything that it needs, `sock_new` registers a socket that is not registered. -/
theorem ctlAddOk_of {socket : BitVec 64} (hzero : socket ≠ 0)
    (hinvalid : socket ≠ BitVec.allOnes 64)
    (hnone : s.findSocket socket = none) : s.ctlAddOk socket true true true = true := by
  have hvalid : ¬ (socket = 0 ∨ socket = BitVec.allOnes 64 ∨ (!true) = true) := by
    rintro (h | h | h)
    · exact hzero h
    · exact hinvalid h
    · cases h
  have hfind : (if s.pollGroups.lastWithRoom = none then s.checkIocp s.iocp else s).findSocket socket =
      none := by
    split
    · exact hnone
    · exact hnone
  rw [ctlAddOk, if_neg hvalid, sockNew]
  dsimp only
  generalize (if s.pollGroups.lastWithRoom = none then s.checkIocp s.iocp else s) = v at hfind
  obtain ⟨g, groups, hg⟩ := v.pollGroups.acquire_true
  have hfind' : ({ v with pollGroups := groups } : Port).findSocket socket = none := hfind
  rw [hg]
  dsimp only
  rw [if_pos rfl, hfind', Option.isSome_none, if_neg Bool.false_ne_true]
  rfl

end Port

/-! ## Runs -/

/-- A port, and the epoll set that its callers have made. -/
structure PortWorld where
  port : Port
  set : BitVec 64 → Option (BitVec 32 × Nat)
  /-- `epoll_ctl` did not return what the set says. -/
  wrong : Bool

namespace PortWorld

/-- After `port_new`. -/
def start : PortWorld := ⟨.new, fun _ => none, false⟩

/-- What becomes of the set, and whether `epoll_ctl` returns something else than it says. -/
def asked (w : PortWorld) : PortAct → (BitVec 64 → Option (BitVec 32 × Nat)) × Bool
  | .ctlAdd socket ev data hasBase canCreate canAlloc _ =>
      if w.port.ctlAddOk socket hasBase canCreate canAlloc then
        (Function.update w.set socket (some (sockSetEvents ev, data)), (w.set socket).isSome)
      else
        (w.set, decide (socket ≠ 0 ∧ socket ≠ BitVec.allOnes 64) && hasBase && canCreate &&
          canAlloc && (w.set socket).isNone)
  | .ctlMod socket ev data _ =>
      if (w.port.findSocket socket).isSome then
        (Function.update w.set socket (some (sockSetEvents ev, data)), (w.set socket).isNone)
      else (w.set, (w.set socket).isSome)
  | .ctlDel socket _ =>
      (Function.update w.set socket none,
        (w.port.findSocket socket).isSome != (w.set socket).isSome)
  | .wait _ _ _ _ _ _ _ | .dequeue _ _ | .timeOut _ _ | .leave _ _ _ _ | .complete _ _ _ _
  | .close | .delete | .deleteRoot _ _ | .deleteFirst | .deleteGroup | .free => (w.set, false)

end PortWorld

def portWorldStep (w : PortWorld) (a : PortAct) : Option PortWorld :=
  (portStep w.port a).map fun s => ⟨s, (w.asked a).1, w.wrong || (w.asked a).2⟩

/-- A port with its epoll set as a machine. -/
def portWorldMachine : Machine PortWorld PortAct := ⟨portWorldStep⟩

/-- Nobody asks for `EPOLLONESHOT` or deletes the port, and no registered socket is closed. -/
def PortAct.Steady : PortAct → Prop
  | .ctlAdd _ ev _ _ _ _ answers | .ctlMod _ ev _ answers =>
      ¬ Shares (sockSetEvents ev) epolloneshot ∧ Opened answers
  | .wait _ _ _ _ _ answers exitAnswers | .leave _ _ answers exitAnswers =>
      Opened answers ∧ Opened exitAnswers
  | .ctlDel _ _ | .dequeue _ _ | .timeOut _ _ | .complete _ _ _ _ | .close => True
  | .delete | .deleteRoot _ _ | .deleteFirst | .deleteGroup | .free => False

/-- No packet says that a registered socket was closed. -/
def Port.OpenPackets (s : Port) : PortAct → Prop
  | .leave t _ _ _ =>
      ∀ k ∈ (s.wait t).hand, (s.sock k).deletePending = false → sockEvents (s.sock k) ≠ none
  | .ctlAdd _ _ _ _ _ _ _ | .ctlMod _ _ _ _ | .ctlDel _ _ | .wait _ _ _ _ _ _ _ | .dequeue _ _
  | .timeOut _ _ | .complete _ _ _ _ | .close | .delete | .deleteRoot _ _ | .deleteFirst
  | .deleteGroup | .free => True

instance (s : Port) (a : PortAct) : Decidable (s.OpenPackets a) :=
  match a with
  | .leave t _ _ _ =>
      inferInstanceAs (Decidable (∀ k ∈ (s.wait t).hand,
        (s.sock k).deletePending = false → Port.sockEvents (s.sock k) ≠ none))
  | .ctlAdd _ _ _ _ _ _ _ | .ctlMod _ _ _ _ | .ctlDel _ _ | .wait _ _ _ _ _ _ _ | .dequeue _ _
  | .timeOut _ _ | .complete _ _ _ _ | .close | .delete | .deleteRoot _ _ | .deleteFirst
  | .deleteGroup | .free => isTrue trivial

/-- The use of a port in which only `epoll_ctl` changes the epoll set. -/
def SetUse (w : PortWorld) (a : PortAct) : Prop :=
  a.Steady ∧ w.port.OpenPackets a

/-- The epoll set of the port is the one that its callers have made. -/
structure SetInv (w : PortWorld) : Prop where
  port : PortInv w.port
  plain : w.port.Plain
  set : w.port.watches = w.set
  right : w.wrong = false
  deleting : w.port.deleting = false

namespace SetInv

variable {w w' : PortWorld} {s : Port} {a : PortAct}

theorem start : SetInv .start where
  port := .new
  plain := ⟨fun _ hk => absurd hk List.not_mem_nil, fun _ hk => absurd hk List.not_mem_nil⟩
  set := rfl
  right := rfl
  deleting := rfl

theorem becomes (h : SetInv w) (hs : PortInv s) (hb : w.port.Becomes s (w.asked a).1)
    (hr : (w.asked a).2 = false) : SetInv ⟨s, (w.asked a).1, w.wrong || (w.asked a).2⟩ where
  port := hs
  plain := hb.plain
  set := hb.watches
  right := by rw [h.right, hr]; rfl
  deleting := hb.deleting.trans h.deleting

theorem held (h : SetInv w) (hs : PortInv s) (hh : w.port.Held s)
    (ha : w.asked a = (w.set, false)) :
    SetInv ⟨s, (w.asked a).1, w.wrong || (w.asked a).2⟩ := by
  have hb := hh.becomes h.plain
  rw [h.set] at hb
  exact h.becomes hs (by rw [ha]; exact hb) (by rw [ha])

/-- What `epoll_ctl` returned is not needed again. -/
theorem faultless {set : BitVec 64 → Option (BitVec 32 × Nat)} {b : Bool}
    (h : SetInv ⟨s, set, b⟩) : SetInv ⟨s, set, false⟩ :=
  ⟨h.port, h.plain, h.set, rfl, h.deleting⟩

theorem isSome_findSocket (h : SetInv w) (socket : BitVec 64) :
    (w.port.findSocket socket).isSome = (w.set socket).isSome := by
  rw [← h.set, Port.watches, Option.isSome_map]

/-- What is known of the packets that a thread has taken: they are of registered sockets, or of
deleted ones. -/
theorem fed (h : SetInv w) {t now : Nat} {answers exitAnswers : Nat → AfdAnswer}
    (hopen : w.port.OpenPackets (.leave t now answers exitAnswers)) {wait : PortWait}
    {r : Except Nat (List Nat)} (ht : w.port.wait t = .polled wait r) :
    ∀ ks, r = .ok ks → ∀ k ∈ ks, w.port.Fed k := by
  rintro ks rfl k hk hd
  have hmem : k ∈ (w.port.wait t).hand := by
    rw [ht]
    exact hk
  have hr : w.port.request k ≠ .none := by
    rw [((h.port.core.sock k).hands t).mp hmem]
    rintro ⟨⟩
  refine ⟨?_, hopen k hmem hd⟩
  obtain htree | hq := h.port.core.requested h.deleting hr
  · exact htree
  · have hp := (h.port.core.doomed hq).2.2.2.2.1
    rw [hd] at hp
    cases hp

theorem ctlAdd (h : SetInv w) {socket : BitVec 64} {ev : BitVec 32} {data : Nat}
    {hasBase canCreate canAlloc : Bool} {answers : Nat → AfdAnswer}
    (hev : ¬ Shares (sockSetEvents ev) epolloneshot) (hopen : Opened answers)
    (hs : PortInv (w.port.ctlAdd socket ev data hasBase canCreate canAlloc answers)) :
    SetInv ⟨w.port.ctlAdd socket ev data hasBase canCreate canAlloc answers,
      (w.asked (.ctlAdd socket ev data hasBase canCreate canAlloc answers)).1,
      w.wrong || (w.asked (.ctlAdd socket ev data hasBase canCreate canAlloc answers)).2⟩ := by
  have hadd := @Port.ctlAdd_becomes w.port h.port h.plain socket ev hev data hasBase canCreate
    canAlloc answers hopen
  cases hok : w.port.ctlAddOk socket hasBase canCreate canAlloc with
  | true =>
      rw [hok, if_pos rfl, h.set] at hadd
      have hasked : w.asked (.ctlAdd socket ev data hasBase canCreate canAlloc answers) =
          (Function.update w.set socket (some (sockSetEvents ev, data)), false) := by
        rw [PortWorld.asked, hok, if_pos rfl, hadd.1]
        rfl
      refine h.becomes hs ?_ (by rw [hasked])
      rw [hasked]
      exact hadd.2
  | false =>
      rw [hok, if_neg Bool.false_ne_true] at hadd
      refine h.held hs hadd ?_
      rw [PortWorld.asked, hok, if_neg Bool.false_ne_true, Prod.mk.injEq]
      refine ⟨rfl, Bool.eq_false_of_not_eq_true fun htrue => ?_⟩
      simp only [Bool.and_eq_true, decide_eq_true_eq, Option.isNone_iff_eq_none] at htrue
      obtain ⟨⟨⟨⟨⟨hzero, hinvalid⟩, rfl⟩, rfl⟩, rfl⟩, hnone⟩ := htrue
      have hfind := h.isSome_findSocket socket
      rw [hnone, Option.isSome_none, Option.isSome_eq_false_iff, Option.isNone_iff_eq_none] at hfind
      rw [Port.ctlAddOk_of hzero hinvalid hfind] at hok
      cases hok

theorem ctlMod (h : SetInv w) {socket : BitVec 64} {ev : BitVec 32} {data : Nat}
    {answers : Nat → AfdAnswer} (hev : ¬ Shares (sockSetEvents ev) epolloneshot)
    (hopen : Opened answers) (hs : PortInv (w.port.ctlMod socket ev data answers)) :
    SetInv ⟨w.port.ctlMod socket ev data answers, (w.asked (.ctlMod socket ev data answers)).1,
      w.wrong || (w.asked (.ctlMod socket ev data answers)).2⟩ := by
  have hfind := h.isSome_findSocket socket
  cases hset : (w.set socket).isSome with
  | true =>
      rw [hset] at hfind
      have hasked : w.asked (.ctlMod socket ev data answers) =
          (Function.update w.set socket (some (sockSetEvents ev, data)), false) := by
        rw [PortWorld.asked, hfind, if_pos rfl, ← Option.not_isSome, hset]
        rfl
      have hmod := Port.ctlMod_becomes h.plain hfind hev data hopen
      rw [h.set] at hmod
      refine h.becomes hs ?_ (by rw [hasked])
      rw [hasked]
      exact hmod
  | false =>
      rw [hset] at hfind
      have hnone : w.port.findSocket socket = none := by
        rw [← Option.isNone_iff_eq_none, ← Option.not_isSome, hfind]
        rfl
      refine h.held hs ?_ ?_
      · rw [Port.ctlMod, hnone]
        exact .refl
      · rw [PortWorld.asked, hfind, if_neg Bool.false_ne_true, hset]

theorem ctlDel (h : SetInv w) {socket : BitVec 64} {answer : AfdAnswer}
    (hs : PortInv (w.port.ctlDel socket answer)) :
    SetInv ⟨w.port.ctlDel socket answer, (w.asked (.ctlDel socket answer)).1,
      w.wrong || (w.asked (.ctlDel socket answer)).2⟩ := by
  have hdel := Port.ctlDel_becomes h.port h.plain socket answer
  rw [h.set] at hdel
  refine h.becomes hs hdel ?_
  rw [PortWorld.asked, h.isSome_findSocket]
  exact bne_self_eq_false _

theorem step (h : SetInv w) (hc : SetUse w a) (hs : portWorldStep w a = some w') : SetInv w' := by
  obtain ⟨hsteady, hpackets⟩ := hc
  obtain ⟨s, hstep, rfl⟩ := Option.map_eq_some_iff.mp hs
  have hport := h.port.step hstep
  cases a with
  | ctlAdd socket ev data hasBase canCreate canAlloc answers =>
      obtain ⟨-, hstep⟩ := Option.ite_none_left_eq_some.mp hstep
      cases hstep
      exact h.ctlAdd hsteady.1 hsteady.2 hport
  | ctlMod socket ev data answers =>
      obtain ⟨-, hstep⟩ := Option.ite_none_left_eq_some.mp hstep
      cases hstep
      exact h.ctlMod hsteady.1 hsteady.2 hport
  | ctlDel socket answer =>
      obtain ⟨-, hstep⟩ := Option.ite_none_left_eq_some.mp hstep
      cases hstep
      exact h.ctlDel hport
  | wait t maxevents timeout canAlloc now answers exitAnswers =>
      refine h.held hport ?_ rfl
      obtain ⟨-, hstep⟩ := Option.ite_none_left_eq_some.mp hstep
      split at hstep
      · cases hstep
        exact .portWait hsteady.1 hsteady.2
      · cases hstep
        exact .portWait hsteady.1 hsteady.2
      · cases hstep
  | dequeue t n =>
      refine h.held hport ?_ rfl
      rw [portStep] at hstep
      split at hstep
      · obtain ⟨-, hstep⟩ := Option.ite_none_right_eq_some.mp hstep
        cases hstep
        exact ⟨rfl, fun _ => rfl, rfl⟩
      · cases hstep
  | timeOut t e =>
      refine h.held hport ?_ rfl
      rw [portStep] at hstep
      split at hstep
      · cases hstep
        exact ⟨rfl, fun _ => rfl, rfl⟩
      · cases hstep
  | leave t now answers exitAnswers =>
      refine h.held hport ?_ rfl
      rw [portStep] at hstep
      split at hstep
      · next wait r ht =>
          cases hstep
          exact (Port.pollLeave_held h.plain (h.fed hpackets ht) hsteady.1 hsteady.2).1
      · cases hstep
  | complete k status numberOfHandles events =>
      refine h.held hport ?_ rfl
      rw [portStep] at hstep
      split at hstep
      · cases hstep
        rw [Port.complete]
        refine Port.Held.trans (Port.Held.setSock (k := k) ?_) ⟨rfl, fun _ => rfl, rfl⟩
        rfl
      · cases hstep
  | close =>
      refine h.held hport ?_ rfl
      cases hstep
      exact ⟨rfl, fun _ => rfl, rfl⟩
  | delete | deleteRoot | deleteFirst | deleteGroup | free => exact hsteady.elim

/-- A socket of the set has a request, which looks for what is wanted of the socket. -/
theorem watched (h : SetInv w) (hu : w.port.updated = true) (hp : w.port.polling ≠ [])
    {socket : BitVec 64} {userEvents : BitVec 32} {data : Nat}
    (hset : w.set socket = some (userEvents, data)) :
    ∃ k, (w.port.sock k).socket = socket ∧ w.port.request k ≠ .none ∧
      ∀ ev, w.port.request k = .driver ev → (w.port.sock k).pollStatus = .cancelled ∨
        Covered (sockEpollEventsToAfdEvents userEvents) ev := by
  rw [← h.set, Port.watches_eq_some h.plain] at hset
  obtain ⟨k, hk, hsocket, hx⟩ := hset
  cases hx
  have hw := (h.port.core.listed hk).2.2.2.2
  rw [h.port.emptied hu hp, propext (iff_false_intro List.not_mem_nil)] at hw
  exact ⟨k, hsocket, hw.wanted⟩

/-- The events that `port_wait` returns are asked for in the set. -/
theorem reports (h : SetInv w) {t now : Nat} {answers exitAnswers : Nat → AfdAnswer}
    (hc : SetUse w (.leave t now answers exitAnswers))
    (hs : portWorldStep w (.leave t now answers exitAnswers) = some w') {m n : Int}
    {events : List EpollEvent} (hw : w'.port.wait t = .returned m n events) :
    ∀ ev ∈ events, ∃ socket userEvents, w.set socket = some (userEvents, ev.data) ∧
      ev.events ≠ 0 ∧ Covered ev.events userEvents := by
  obtain ⟨hsteady, hpackets⟩ := hc
  obtain ⟨s, hstep, rfl⟩ := Option.map_eq_some_iff.mp hs
  rw [portStep] at hstep
  split at hstep
  · next wait r ht =>
      cases hstep
      intro ev hev
      obtain ⟨k, hk, hdata, hne, hcov⟩ := (Port.pollLeave_held h.plain (h.fed hpackets ht)
        hsteady.1 hsteady.2).2 m n events hw ev hev
      refine ⟨(w.port.sock k).socket, (w.port.sock k).userEvents, ?_, hne, hcov⟩
      rw [← h.set, Port.watches_eq_some h.plain, hdata]
      exact ⟨k, hk, rfl, rfl⟩
  · cases hstep

end SetInv

/-- A port is the epoll set that its callers have made with `epoll_ctl`, whatever threads and
the driver do in between.  `epoll_ctl` fails to add a socket that is in the set, or to modify
or remove one that is not, and adds every other one if it gets what it needs.  While a thread
waits, the driver looks for what is wanted of every socket of the set, or was asked to give
the request back; and the events that `port_wait` returns are asked for, with the data that
was given last. -/
theorem port_is_epoll_set {w : PortWorld} (h : portWorldMachine.Leads SetUse .start w) :
    w.port.watches = w.set ∧ w.wrong = false ∧
      (w.port.updated = true → w.port.polling ≠ [] → ∀ socket userEvents data,
        w.set socket = some (userEvents, data) → ∃ k, (w.port.sock k).socket = socket ∧
          w.port.request k ≠ .none ∧ ∀ ev, w.port.request k = .driver ev →
            (w.port.sock k).pollStatus = .cancelled ∨
              Covered (sockEpollEventsToAfdEvents userEvents) ev) ∧
      ∀ t now answers exitAnswers w', SetUse w (.leave t now answers exitAnswers) →
        portWorldStep w (.leave t now answers exitAnswers) = some w' →
          ∀ m n events, w'.port.wait t = .returned m n events → ∀ ev ∈ events,
            ∃ socket userEvents, w.set socket = some (userEvents, ev.data) ∧
              ev.events ≠ 0 ∧ Covered ev.events userEvents := by
  have hi : SetInv w := h.invariant (fun _ _ _ hi hc hs => hi.step hc hs) .start
  refine ⟨hi.set, hi.right, fun hu hp _ _ _ hset => hi.watched hu hp hset, ?_⟩
  intro t now answers exitAnswers w' hc hs m n events hw
  exact hi.reports hc hs hw

/-- While a thread waits, one socket is modified, another one removed, and a third call adds a
socket again that is there. -/
def setRun : List PortAct :=
  [.ctlAdd 5 epollin 9 true true true answered, .ctlAdd 6 epollout 8 true true true answered,
    .wait 1 4 (-1) true 0 answered answered, .ctlMod 5 (epollin ||| epollout) 7 answered,
    .ctlDel 6 (answered 1), .ctlAdd 5 epollin 3 true true true answered]

theorem port_is_epoll_set_run :
    ∃ w, portWorldMachine.Leads SetUse .start w ∧ w.port.watches 6 = none ∧
      w.port.watches 5 = some (sockSetEvents (epollin ||| epollout), 7) := by
  obtain ⟨w, hw, h6, h5⟩ := Machine.exists_run (M := portWorldMachine) (s := .start) (l := setRun)
    (P := fun w => w.set 6 = none ∧ w.set 5 = some (sockSetEvents (epollin ||| epollout), 7))
    (by decide)
  have hopen : Opened answered := by
    rintro _ ⟨⟩
  have hsteady : ∀ a ∈ setRun, a.Steady := by
    simp only [setRun, List.forall_mem_cons]
    exact ⟨⟨by decide, hopen⟩, ⟨by decide, hopen⟩, ⟨hopen, hopen⟩, ⟨by decide, hopen⟩, trivial,
      ⟨by decide, hopen⟩, fun _ h => absurd h List.not_mem_nil⟩
  have hl := Machine.leads_of_run (C := SetUse) setRun _ w hw
    (Machine.runMeets_and _ _ (Machine.runMeets_of_forall _ hsteady) (by decide))
  have hset := (port_is_epoll_set hl).1
  exact ⟨w, hl, hset ▸ h6, hset ▸ h5⟩

end Ztk.Wepoll
