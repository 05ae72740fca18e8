import Ztk.Wepoll.Port

/-!
# The assertions about `iocp_handle`

`port_close` sets `iocp_handle` to `NULL` while other threads may still be in calls on the
port.  Two functions ask for its value afterwards: `port_delete` asserts that it is `NULL`,
and `port_get_iocp_handle`, which only `poll_group__new` calls, that it is not.  The second
assertion fails where an `EPOLL_CTL_ADD` that was under way at `port_close` needs a new poll
group.  `PortUse` is what the two ask for, and nothing else touches them.
-/

namespace Ztk.Wepoll

open Ztk.Lib

/-! ## The functions that do not ask -/

namespace Port

variable {s : Port} {k : Nat}

theorem requestSocketUpdate_iocpFailed :
    (s.requestSocketUpdate k).iocpFailed = s.iocpFailed := by
  rw [requestSocketUpdate]
  split <;> rfl

theorem cancelSocketUpdate_iocpFailed :
    (s.cancelSocketUpdate k).iocpFailed = s.iocpFailed := by
  rw [cancelSocketUpdate]
  split <;> rfl

theorem addDeletedSocket_iocpFailed :
    (s.addDeletedSocket k).iocpFailed = s.iocpFailed := by
  rw [addDeletedSocket]
  split <;> rfl

theorem removeDeletedSocket_iocpFailed :
    (s.removeDeletedSocket k).iocpFailed = s.iocpFailed := by
  rw [removeDeletedSocket]
  split <;> rfl

theorem afdPoll_iocpFailed {answer : Option Nat} :
    (s.afdPoll k answer).iocpFailed = s.iocpFailed := by
  cases answer with
  | none => rfl
  | some e =>
      rw [afdPoll]
      split <;> rfl

theorem sockCancelPoll_iocpFailed {answer : AfdAnswer} :
    (s.sockCancelPoll k answer).1.iocpFailed = s.iocpFailed := by
  have hcancel : ∀ u : Port, (u.afdCancelPoll k answer.cancel).1.iocpFailed = u.iocpFailed := by
    intro u
    rw [afdCancelPoll.eq_def]
    split
    · rfl
    · cases answer.cancel <;> rfl
  have hc := hcancel (s.check ((s.sock k).pollStatus = .pending))
  rw [sockCancelPoll]
  generalize (s.check _).afdCancelPoll k answer.cancel = r at hc
  obtain ⟨u, b⟩ := r
  cases b <;> exact hc

theorem sockRelease_iocpFailed {force : Bool} :
    (s.sockRelease k force).iocpFailed = s.iocpFailed := by
  rw [sockRelease]
  split
  · exact removeDeletedSocket_iocpFailed
  · exact addDeletedSocket_iocpFailed

theorem sockDelete_iocpFailed {force : Bool} {answer : AfdAnswer} :
    (s.sockDelete k force answer).iocpFailed = s.iocpFailed := by
  have hunregister : ∀ u : Port, (u.sockUnregister k answer).iocpFailed = u.iocpFailed := by
    intro u
    rw [sockUnregister]
    refine cancelSocketUpdate_iocpFailed.trans ?_
    split
    · exact sockCancelPoll_iocpFailed
    · rfl
  rw [sockDelete, sockRelease_iocpFailed]
  split
  · rfl
  · exact hunregister _

theorem sockSetEvent_iocpFailed {ev : BitVec 32} {data : Nat} :
    (s.sockSetEvent k ev data).iocpFailed = s.iocpFailed := by
  rw [sockSetEvent]
  split
  · exact requestSocketUpdate_iocpFailed
  · rfl

theorem sockUpdate_iocpFailed {answer : AfdAnswer} :
    (s.sockUpdate k answer).1.iocpFailed = s.iocpFailed := by
  rw [sockUpdate]
  generalize hu : ({ s with life := s.life.use k }.check (!(s.sock k).deletePending) : Port) = u
  have hsu : u.iocpFailed = s.iocpFailed := by
    subst hu
    rfl
  rw [← hsu]
  dsimp only
  split
  · split
    · exact cancelSocketUpdate_iocpFailed
    · have hc : (u.sockCancelPoll k answer).1.iocpFailed = u.iocpFailed :=
        sockCancelPoll_iocpFailed
      generalize u.sockCancelPoll k answer = r at hc
      obtain ⟨v, b⟩ := r
      cases b with
      | false => exact hc
      | true => exact cancelSocketUpdate_iocpFailed.trans hc
  · exact cancelSocketUpdate_iocpFailed
  · have hpoll : ((u.setSock k (u.sock k).pollInfo).afdPoll k answer.poll).iocpFailed =
        u.iocpFailed := afdPoll_iocpFailed
    generalize (u.setSock k (u.sock k).pollInfo).afdPoll k answer.poll = v at hpoll
    split
    · exact cancelSocketUpdate_iocpFailed.trans hpoll
    · split
      · exact sockDelete_iocpFailed.trans hpoll
      · exact hpoll

theorem updateLoop_iocpFailed {answers : Nat → AfdAnswer} :
    ∀ (n : Nat) (s : Port), (updateLoop answers n s).1.iocpFailed = s.iocpFailed
  | 0, _ => rfl
  | n + 1, s => by
      rw [updateLoop]
      split
      · rfl
      · next k _ _ =>
          have hu : (s.sockUpdate k (answers k)).1.iocpFailed = s.iocpFailed :=
            sockUpdate_iocpFailed
          generalize s.sockUpdate k (answers k) = r at hu
          obtain ⟨u, b⟩ := r
          cases b with
          | false => exact hu
          | true => exact (updateLoop_iocpFailed n u).trans hu

theorem updateEvents_iocpFailed {answers : Nat → AfdAnswer} :
    (s.updateEvents answers).1.iocpFailed = s.iocpFailed :=
  updateLoop_iocpFailed s.sockUpdateQueue.length s

theorem updateEventsIfPolling_iocpFailed {answers : Nat → AfdAnswer} :
    (s.updateEventsIfPolling answers).iocpFailed = s.iocpFailed := by
  rw [updateEventsIfPolling]
  split
  · exact updateEvents_iocpFailed
  · rfl

theorem waitExit_iocpFailed {t : Nat} {m r : Int} {events : List EpollEvent}
    {answers : Nat → AfdAnswer} : (s.waitExit t m r events answers).iocpFailed = s.iocpFailed :=
  updateEventsIfPolling_iocpFailed

theorem pollEnter_iocpFailed {t : Nat} {w : PortWait}
    {answers exitAnswers : Nat → AfdAnswer} :
    (s.pollEnter t w answers exitAnswers).iocpFailed = s.iocpFailed := by
  have hu : (s.updateEvents answers).1.iocpFailed = s.iocpFailed := updateEvents_iocpFailed
  rw [pollEnter]
  generalize s.updateEvents answers = r at hu
  obtain ⟨u, b⟩ := r
  cases b with
  | false => exact waitExit_iocpFailed.trans hu
  | true => exact hu

theorem feedEvents_iocpFailed :
    ∀ (ks : List Nat) (s : Port), (feedEvents ks s).1.iocpFailed = s.iocpFailed
  | [], _ => rfl
  | k :: ks, s => by
      have hfeed : (s.sockFeedEvent k).1.iocpFailed = s.iocpFailed := by
        rw [sockFeedEvent]
        split
        · exact sockDelete_iocpFailed
        · split
          · exact sockDelete_iocpFailed
          · rw [feedReport]
            split
            · exact requestSocketUpdate_iocpFailed
            · split <;> exact requestSocketUpdate_iocpFailed
      exact (feedEvents_iocpFailed ks _).trans hfeed

theorem pollLeave_iocpFailed {t : Nat} {w : PortWait} {r : Except Nat (List Nat)} {now : Nat}
    {answers exitAnswers : Nat → AfdAnswer} :
    (s.pollLeave t w r now answers exitAnswers).iocpFailed = s.iocpFailed := by
  cases r with
  | error e => exact waitExit_iocpFailed
  | ok ks =>
      have hfeed : (feedEvents ks (s.pollReturned t)).1.iocpFailed = s.iocpFailed :=
        feedEvents_iocpFailed ks _
      rw [pollLeave]
      dsimp only
      split
      · exact waitExit_iocpFailed.trans hfeed
      · split
        · exact pollEnter_iocpFailed.trans hfeed
        · split
          · exact waitExit_iocpFailed.trans hfeed
          · exact pollEnter_iocpFailed.trans hfeed

/-- A new poll group is asked for while the port has its completion port. -/
theorem ctlAdd_iocpFailed {socket : BitVec 64} {ev : BitVec 32} {data : Nat}
    {hasBase canCreate canAlloc : Bool} {answers : Nat → AfdAnswer}
    (hiocp : s.pollGroups.lastWithRoom = none → s.iocp = true) :
    (s.ctlAdd socket ev data hasBase canCreate canAlloc answers).iocpFailed = s.iocpFailed := by
  have hstart : (if s.pollGroups.lastWithRoom = none then s.checkIocp s.iocp else s).iocpFailed =
      s.iocpFailed := by
    split
    · next hroom =>
        rw [hiocp hroom]
        exact Bool.or_false _
    · rfl
  have hnew : (s.sockNew socket canCreate canAlloc).1.iocpFailed = s.iocpFailed := by
    rw [sockNew]
    generalize (if s.pollGroups.lastWithRoom = none then s.checkIocp s.iocp else s) = u at hstart
    rw [← hstart]
    dsimp only
    split
    · rfl
    · split
      · split <;> rfl
      · rfl
  rw [ctlAdd]
  split
  · rfl
  · generalize s.sockNew socket canCreate canAlloc = r at hnew
    obtain ⟨u, k⟩ := r
    cases k with
    | none => exact hnew
    | some k =>
        exact (updateEventsIfPolling_iocpFailed.trans sockSetEvent_iocpFailed).trans hnew

end Port

/-! ## Runs -/

/-- A step in which the assertions about `iocp_handle` hold. -/
theorem PortUse.iocpFailed {s s' : Port} {a : PortAct} (hu : PortUse s a)
    (hs : portStep s a = some s') : s'.iocpFailed = s.iocpFailed := by
  cases a with
  | ctlAdd socket ev data hasBase canCreate canAlloc answers =>
      obtain ⟨-, hs⟩ := Option.ite_none_left_eq_some.mp hs
      cases hs
      exact Port.ctlAdd_iocpFailed hu
  | ctlMod socket ev data answers =>
      obtain ⟨-, hs⟩ := Option.ite_none_left_eq_some.mp hs
      cases hs
      rw [Port.ctlMod]
      split
      · rfl
      · exact Port.updateEventsIfPolling_iocpFailed.trans Port.sockSetEvent_iocpFailed
  | ctlDel socket answer =>
      obtain ⟨-, hs⟩ := Option.ite_none_left_eq_some.mp hs
      cases hs
      rw [Port.ctlDel]
      split
      · rfl
      · exact Port.sockDelete_iocpFailed
  | wait t maxevents timeout canAlloc now answers exitAnswers =>
      obtain ⟨-, hs⟩ := Option.ite_none_left_eq_some.mp hs
      have hwait : (s.portWait t maxevents timeout canAlloc now answers exitAnswers).iocpFailed =
          s.iocpFailed := by
        rw [Port.portWait]
        split
        · rfl
        · exact Port.pollEnter_iocpFailed
      split at hs
      · cases hs
        exact hwait
      · cases hs
        exact hwait
      · cases hs
  | dequeue t n =>
      rw [portStep] at hs
      split at hs
      · obtain ⟨-, hs⟩ := Option.ite_none_right_eq_some.mp hs
        cases hs
        rfl
      · cases hs
  | timeOut t e =>
      rw [portStep] at hs
      split at hs
      · cases hs
        rfl
      · cases hs
  | leave t now answers exitAnswers =>
      rw [portStep] at hs
      split at hs
      · cases hs
        exact Port.pollLeave_iocpFailed
      · cases hs
  | complete k status numberOfHandles events =>
      rw [portStep] at hs
      split at hs
      · cases hs
        rfl
      · cases hs
  | close =>
      cases hs
      rfl
  | delete =>
      obtain ⟨-, hs⟩ := Option.ite_none_right_eq_some.mp hs
      cases hs
      show (s.iocpFailed || !!s.iocp) = s.iocpFailed
      rw [show s.iocp = false from hu]
      exact Bool.or_false _
  | deleteRoot k answer =>
      obtain ⟨-, hs⟩ := Option.ite_none_right_eq_some.mp hs
      cases hs
      exact Port.sockDelete_iocpFailed
  | deleteFirst =>
      obtain ⟨-, hs⟩ := Option.ite_none_right_eq_some.mp hs
      obtain ⟨k, -, rfl⟩ := Option.map_eq_some_iff.mp hs
      exact Port.sockDelete_iocpFailed
  | deleteGroup =>
      obtain ⟨-, hs⟩ := Option.ite_none_right_eq_some.mp hs
      obtain ⟨g, -, rfl⟩ := Option.map_eq_some_iff.mp hs
      rfl
  | free =>
      obtain ⟨-, hs⟩ := Option.ite_none_right_eq_some.mp hs
      cases hs
      rfl

/-- In a run in which the port is closed before it is deleted, and nobody adds a socket in
between that needs a new poll group, the assertions hold. -/
theorem iocp_asserted {s : Port} (h : portMachine.Leads PortUse .new s) : s.iocpFailed = false :=
  h.invariant (I := fun s => s.iocpFailed = false)
    (fun _ _ _ hi hu hs => (hu.iocpFailed hs).trans hi) rfl

end Ztk.Wepoll
