import Ztk.Lib.Flags

/-!
# Epoll events and AFD events

`sock__epoll_events_to_afd_events` and `sock__afd_events_to_epoll_events` of `wepoll.c`.
The first says what the kernel is asked to look for, the second what its answer means to the
user.
-/

namespace Ztk.Wepoll

open Ztk.Lib

/-! ## The flags -/

def epollin : BitVec 32 := 1 <<< 0
def epollpri : BitVec 32 := 1 <<< 1
def epollout : BitVec 32 := 1 <<< 2
def epollerr : BitVec 32 := 1 <<< 3
def epollhup : BitVec 32 := 1 <<< 4
def epollrdnorm : BitVec 32 := 1 <<< 6
def epollrdband : BitVec 32 := 1 <<< 7
def epollwrnorm : BitVec 32 := 1 <<< 8
def epollwrband : BitVec 32 := 1 <<< 9
def epollmsg : BitVec 32 := 1 <<< 10
def epollrdhup : BitVec 32 := 1 <<< 13
def epolloneshot : BitVec 32 := 1 <<< 31

/-- `SOCK__KNOWN_EPOLL_EVENTS`. -/
def sockKnownEpollEvents : BitVec 32 :=
  epollin ||| epollpri ||| epollout ||| epollerr ||| epollhup ||| epollrdnorm ||| epollrdband |||
    epollwrnorm ||| epollwrband ||| epollmsg ||| epollrdhup

def afdPollReceive : BitVec 32 := 0x0001
def afdPollReceiveExpedited : BitVec 32 := 0x0002
def afdPollSend : BitVec 32 := 0x0004
def afdPollDisconnect : BitVec 32 := 0x0008
def afdPollAbort : BitVec 32 := 0x0010
def afdPollLocalClose : BitVec 32 := 0x0020
def afdPollAccept : BitVec 32 := 0x0080
def afdPollConnectFail : BitVec 32 := 0x0100

/-! ## The functions of the source -/

/-- The events that `sock_set_event` puts down. -/
def sockSetEvents (events : BitVec 32) : BitVec 32 := events ||| epollerr ||| epollhup

/-- `sock__epoll_events_to_afd_events`. -/
def sockEpollEventsToAfdEvents (epollEvents : BitVec 32) : BitVec 32 :=
  afdPollLocalClose |||
  (if Shares epollEvents (epollin ||| epollrdnorm) then afdPollReceive ||| afdPollAccept else 0) |||
  (if Shares epollEvents (epollpri ||| epollrdband) then afdPollReceiveExpedited else 0) |||
  (if Shares epollEvents (epollout ||| epollwrnorm ||| epollwrband) then afdPollSend else 0) |||
  (if Shares epollEvents (epollin ||| epollrdnorm ||| epollrdhup) then afdPollDisconnect else 0) |||
  (if Shares epollEvents epollhup then afdPollAbort else 0) |||
  (if Shares epollEvents epollerr then afdPollConnectFail else 0)

/-- `sock__afd_events_to_epoll_events`. -/
def sockAfdEventsToEpollEvents (afdEvents : BitVec 32) : BitVec 32 :=
  (if Shares afdEvents (afdPollReceive ||| afdPollAccept) then epollin ||| epollrdnorm else 0) |||
  (if Shares afdEvents afdPollReceiveExpedited then epollpri ||| epollrdband else 0) |||
  (if Shares afdEvents afdPollSend then epollout ||| epollwrnorm ||| epollwrband else 0) |||
  (if Shares afdEvents afdPollDisconnect then epollin ||| epollrdnorm ||| epollrdhup else 0) |||
  (if Shares afdEvents afdPollAbort then epollhup else 0) |||
  (if Shares afdEvents afdPollConnectFail then
    epollin ||| epollout ||| epollerr ||| epollrdnorm ||| epollwrnorm ||| epollrdhup else 0)

/-! ## What they promise -/

/-- More epoll events ask for more AFD events. -/
theorem sockEpollEventsToAfdEvents_mono {u v : BitVec 32} (h : Covered u v) :
    Covered (sockEpollEventsToAfdEvents u) (sockEpollEventsToAfdEvents v) := by
  have hite : ∀ {m a : BitVec 32},
      Covered (if Shares u m then a else 0) (if Shares v m then a else 0) :=
    .ite fun hu => hu.mono h
  exact (((((Covered.refl.or hite).or hite).or hite).or hite).or hite).or hite

/-- Only known events ask for anything. -/
theorem sockEpollEventsToAfdEvents_known {u : BitVec 32} :
    sockEpollEventsToAfdEvents (u &&& sockKnownEpollEvents) = sockEpollEventsToAfdEvents u := by
  have hand : ∀ {m : BitVec 32}, sockKnownEpollEvents &&& m = m →
      (Shares (u &&& sockKnownEpollEvents) m ↔ Shares u m) := shares_and
  rw [sockEpollEventsToAfdEvents, sockEpollEventsToAfdEvents]
  simp only [hand (m := epollin ||| epollrdnorm) rfl, hand (m := epollpri ||| epollrdband) rfl,
    hand (m := epollout ||| epollwrnorm ||| epollwrband) rfl,
    hand (m := epollin ||| epollrdnorm ||| epollrdhup) rfl, hand (m := epollhup) rfl,
    hand (m := epollerr) rfl]

/-- `AFD_POLL_LOCAL_CLOSE` means no event. -/
theorem sockAfdEventsToEpollEvents_localClose (afd : BitVec 32) :
    sockAfdEventsToEpollEvents (afd &&& ~~~afdPollLocalClose) = sockAfdEventsToEpollEvents afd := by
  have hand : ∀ {m : BitVec 32}, ~~~afdPollLocalClose &&& m = m →
      (Shares (afd &&& ~~~afdPollLocalClose) m ↔ Shares afd m) := shares_and
  rw [sockAfdEventsToEpollEvents, sockAfdEventsToEpollEvents]
  simp only [hand (m := afdPollReceive ||| afdPollAccept) rfl,
    hand (m := afdPollReceiveExpedited) rfl, hand (m := afdPollSend) rfl,
    hand (m := afdPollDisconnect) rfl, hand (m := afdPollAbort) rfl,
    hand (m := afdPollConnectFail) rfl]

theorem shares_or_congr {a b c d a' b' : BitVec 32} (ha : Shares a c ↔ Shares d a')
    (hb : Shares b c ↔ Shares d b') : Shares (a ||| b) c ↔ Shares d (a' ||| b') := by
  rw [shares_or, shares_or_right, ha, hb]

/-- An answer `m` that is reported as `e`, and that is asked for by whoever wants `e`. -/
theorem shares_answer {u afd m e : BitVec 32} :
    Shares (if Shares afd m then e else 0) u ↔ Shares afd (if Shares u e then m else 0) := by
  rw [shares_ite, shares_ite_right, shares_comm (a := u), and_comm]

/-- An answer without `AFD_POLL_LOCAL_CLOSE` reports an event of a mask with `EPOLLERR` if and
only if it has one of the AFD events that the mask was translated to. -/
theorem shares_translated {u afd : BitVec 32} (herr : Shares epollerr u)
    (hclose : ¬ Shares afd afdPollLocalClose) :
    Shares (sockAfdEventsToEpollEvents afd) u ↔ Shares afd (sockEpollEventsToAfdEvents u) := by
  have hfail : Shares (epollin ||| epollout ||| epollerr ||| epollrdnorm ||| epollwrnorm |||
      epollrdhup) u := herr.mono (by decide)
  have hfirst : Shares (if Shares afd (afdPollReceive ||| afdPollAccept) then
        epollin ||| epollrdnorm else 0) u ↔
      Shares afd (afdPollLocalClose ||| if Shares u (epollin ||| epollrdnorm) then
        afdPollReceive ||| afdPollAccept else 0) :=
    shares_answer.trans (shares_or_right.trans (or_iff_right hclose)).symm
  refine shares_or_congr (shares_or_congr (shares_or_congr (shares_or_congr (shares_or_congr
    hfirst shares_answer) shares_answer) shares_answer) shares_answer) ?_
  rw [shares_ite, shares_ite_right, shares_comm (a := u), and_iff_left hfail, and_iff_right herr]

/-- The masks that a socket can have are those of `sock_set_event`, and 0 after an event under
`EPOLLONESHOT`.  For each of them the kernel is asked for `AFD_POLL_LOCAL_CLOSE`, which drops
the socket, and otherwise for exactly those AFD events that mean something to the user. -/
theorem afd_events_exact (events afd : BitVec 32) :
    ∀ u ∈ [sockSetEvents events, 0],
      Covered afdPollLocalClose (sockEpollEventsToAfdEvents u) ∧
        (Shares (sockAfdEventsToEpollEvents afd) u ↔
          Shares (afd &&& ~~~afdPollLocalClose) (sockEpollEventsToAfdEvents u)) := by
  have hclose : ¬ Shares (afd &&& ~~~afdPollLocalClose) afdPollLocalClose := not_shares_compl
  have hasked : ∀ u, Covered afdPollLocalClose (sockEpollEventsToAfdEvents u) := fun u =>
    Covered.trans (by decide) (sockEpollEventsToAfdEvents_mono (u := 0) BitVec.zero_and)
  rw [List.forall_mem_cons, List.forall_mem_singleton]
  refine ⟨⟨hasked _, ?_⟩, hasked 0, ?_⟩
  · have herr : Shares epollerr (sockSetEvents events) := by
      rw [sockSetEvents, shares_or_right, shares_or_right]
      exact Or.inl (Or.inr (by decide))
    rw [← sockAfdEventsToEpollEvents_localClose afd]
    exact shares_translated herr hclose
  · have hnone : sockEpollEventsToAfdEvents 0 = afdPollLocalClose := by decide
    rw [hnone]
    exact iff_of_false (fun h => not_shares_zero (shares_comm.mp h)) hclose

/-- The socket is closed while it has something to read. -/
theorem afd_events_exact_closed :
    Covered afdPollLocalClose (sockEpollEventsToAfdEvents (sockSetEvents epollin)) ∧
      Shares (sockAfdEventsToEpollEvents (afdPollReceive ||| afdPollLocalClose))
        (sockSetEvents epollin) := by
  obtain ⟨hasked, hiff⟩ := afd_events_exact epollin (afdPollReceive ||| afdPollLocalClose) _
    (List.mem_cons_self ..)
  exact ⟨hasked, hiff.mpr (by decide)⟩

end Ztk.Wepoll
