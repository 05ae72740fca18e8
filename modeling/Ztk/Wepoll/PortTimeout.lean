import Ztk.Wepoll.PortRuns

/-!
# Ports whose requests are granted

`port_wait` learns from `GetLastError` whether it timed out, and asks for it after
`port__update_events_if_polling`, where `afd_poll` sets the last error even if it succeeds.
A time-out is not taken for an error because that update finds an empty queue: another one
emptied it before, while the thread waited.  So it is with the failures of the driver that
`port_wait` can fail, and this module is about the runs in which there are none
(`PortAct.Granted`).
-/

namespace Ztk.Wepoll

open Ztk.Lib

/-! ## The driver -/

/-- The driver takes a request, or says that the socket was closed, and cancels what it is
asked to cancel. -/
def AfdAnswer.Granted (a : AfdAnswer) : Prop :=
  (a.poll = none ∨ a.poll = some errorIoPending ∨ a.poll = some errorInvalidHandle) ∧
    a.cancel = none

/-- Every request is granted, and waiting ends with packets or with a time-out. -/
def PortAct.Granted : PortAct → Prop
  | .ctlAdd _ _ _ _ _ _ answers | .ctlMod _ _ _ answers => ∀ k, (answers k).Granted
  | .wait _ _ _ _ _ answers exitAnswers | .leave _ _ answers exitAnswers =>
      (∀ k, (answers k).Granted) ∧ ∀ k, (exitAnswers k).Granted
  | .timeOut _ e => e = waitTimeout
  | .ctlDel _ _ | .dequeue _ _ | .complete _ _ _ _ | .close | .delete | .deleteRoot _ _
  | .deleteFirst | .deleteGroup | .free => True

namespace Port

variable {s : Port} {k : Nat}

theorem sockCancelPoll_granted {answer : AfdAnswer} (ha : answer.Granted) :
    (s.sockCancelPoll k answer).2 = true := by
  have hcancel : ∀ u : Port, ∃ v, u.afdCancelPoll k none = (v, true) := by
    intro u
    rw [afdCancelPoll.eq_def]
    split
    · exact ⟨_, rfl⟩
    · exact ⟨_, rfl⟩
  rw [sockCancelPoll, ha.2]
  obtain ⟨v, hv⟩ := hcancel (s.check ((s.sock k).pollStatus = .pending))
  simp only [hv]

theorem sockUpdate_granted {answer : AfdAnswer} (ha : answer.Granted) :
    (s.sockUpdate k answer).2 = true := by
  rw [sockUpdate]
  dsimp only
  split
  · split
    · rfl
    · have hc := sockCancelPoll_granted
        (s := { s with life := s.life.use k }.check (!(s.sock k).deletePending)) (k := k) ha
      split
      · next u he =>
          rw [he] at hc
          cases hc
      · rfl
  · rfl
  · split
    · rfl
    · next hno =>
        rw [if_pos]
        obtain hpoll | hpoll | hpoll := ha.1
        · exact absurd (Or.inl hpoll) hno
        · exact absurd (Or.inr hpoll) hno
        · exact hpoll

theorem updateLoop_granted {answers : Nat → AfdAnswer} (ha : ∀ k, (answers k).Granted) :
    ∀ (n : Nat) (s : Port), (updateLoop answers n s).2 = true
  | 0, _ => rfl
  | n + 1, s => by
      rw [updateLoop]
      split
      · rfl
      · next k _ _ =>
          have hu := sockUpdate_granted (s := s) (k := k) (ha k)
          split
          · next u _ => exact updateLoop_granted ha n u
          · next u he =>
              rw [he] at hu
              cases hu

theorem updateEvents_granted {answers : Nat → AfdAnswer} (ha : ∀ k, (answers k).Granted) :
    (s.updateEvents answers).2 = true ∧ (s.updateEvents answers).1.updated = true :=
  ⟨updateLoop_granted ha _ s, updateLoop_granted ha _ s⟩

theorem updateEventsIfPolling_granted {answers : Nat → AfdAnswer}
    (ha : ∀ k, (answers k).Granted) (hs : s.updated = true) :
    (s.updateEventsIfPolling answers).updated = true := by
  rw [updateEventsIfPolling]
  split
  · exact (updateEvents_granted ha).2
  · exact hs

/-- Where the update queue is empty, an update does nothing. -/
theorem updateEventsIfPolling_nil (h : s.sockUpdateQueue = []) (answers : Nat → AfdAnswer) :
    (s.updateEventsIfPolling answers).lastError = s.lastError := by
  rw [updateEventsIfPolling]
  split
  · rw [updateEvents, h]
    rfl
  · rfl

end Port

/-! ## The invariant -/

/-- A thread that waited did so for packets or until the time-out, and a call with room for
events has returned as many as it says. -/
def WaitPhase.Smooth : WaitPhase → Prop
  | .idle | .polling _ | .polled _ (.ok _) => True
  | .polled _ (.error e) => e = waitTimeout
  | .returned maxevents r events => 0 < maxevents → r = events.length

/-- Every update went through, and no call has failed. -/
structure PortSmooth (s : Port) : Prop where
  updated : s.updated = true
  smooth : ∀ t, (s.wait t).Smooth

namespace PortSmooth

variable {s s' : Port} {t k : Nat} {answers exitAnswers : Nat → AfdAnswer}

theorem still (h : PortSmooth s) (hs : s.Still s') : PortSmooth s' :=
  ⟨hs.updated.trans h.updated, fun t => hs.wait ▸ h.smooth t⟩

/-- One thread goes on. -/
theorem goto (h : PortSmooth s) {p : WaitPhase} (hwait : s'.wait = Function.update s.wait t p)
    (hu : s'.updated = true) (hp : p.Smooth) : PortSmooth s' := by
  refine ⟨hu, fun u => ?_⟩
  rw [hwait]
  by_cases hut : u = t
  · rw [hut, Function.update_self]
    exact hp
  · rw [Function.update_of_ne hut]
    exact h.smooth u

theorem updateEventsIfPolling (h : PortSmooth s) (hm : PortMid s s.wait)
    (hd : s.deleting = false) (ha : ∀ k, (answers k).Granted) :
    PortSmooth (s.updateEventsIfPolling answers) := by
  obtain ⟨-, hw, -⟩ := hm.updateEventsIfPolling hd answers
  exact ⟨Port.updateEventsIfPolling_granted ha h.updated, fun t => hw ▸ h.smooth t⟩

/-- `port_wait` returns the number of its events, or it timed out with nothing to update. -/
theorem waitExit (h : PortSmooth s) (hm : PortMid s (Function.update s.wait t .idle))
    (hd : s.deleting = false) {maxevents r : Int} {events : List EpollEvent}
    (hr : r = events.length ∨ r = -1 ∧ events = [] ∧ s.lastError = waitTimeout ∧
      s.sockUpdateQueue = []) (ha : ∀ k, (answers k).Granted) :
    PortSmooth (s.waitExit t maxevents r events answers) := by
  obtain ⟨-, hw, -⟩ := hm.updateEventsIfPolling hd answers
  refine h.goto (t := t) (congrArg (Function.update · t _) hw)
    (Port.updateEventsIfPolling_granted ha h.updated) fun _ => ?_
  obtain rfl | ⟨rfl, rfl, he, hq⟩ := hr
  · exact if_pos (Int.natCast_nonneg _)
  · rw [if_neg (by decide), Port.updateEventsIfPolling_nil hq, if_pos he]
    rfl

/-- `port__poll` waits, since the update before it goes through. -/
theorem pollEnter (h : PortSmooth s) (hm : PortMid s (Function.update s.wait t .idle))
    (hd : s.deleting = false) (w : PortWait) (ha : ∀ k, (answers k).Granted) :
    PortSmooth (s.pollEnter t w answers exitAnswers) := by
  obtain ⟨-, hw, -⟩ := hm.updateEvents hd answers
  obtain ⟨hok, hu⟩ := Port.updateEvents_granted (s := s) ha
  rw [Port.pollEnter]
  split
  · next u he =>
      rw [he] at hok
      cases hok
  · next u he =>
      rw [he] at hw hu
      exact h.goto (congrArg (Function.update · t _) hw) hu trivial

theorem portWait (h : PortSmooth s) (hi : PortInv s) (hd : s.deleting = false)
    (ht : ¬ (s.wait t).InPoll) {maxevents timeout : Int} {canAlloc : Bool} {now : Nat}
    (ha : ∀ k, (answers k).Granted) :
    PortSmooth (s.portWait t maxevents timeout canAlloc now answers exitAnswers) := by
  rw [Port.portWait]
  split
  · next hle => exact h.goto rfl h.updated fun hpos => absurd hle (Int.not_le.mpr hpos)
  · exact h.pollEnter (hi.idle ht) hd _ ha

/-- The thread that leaves `port__poll` with a time-out finds nothing to update: the queue was
emptied while it waited. -/
theorem pollLeave (h : PortSmooth s) (hi : PortInv s) (hd : s.deleting = false) {w : PortWait}
    {r : Except Nat (List Nat)} (ht : s.wait t = .polled w r) {now : Nat}
    (ha : ∀ k, (answers k).Granted) (hexit : ∀ k, (exitAnswers k).Granted) :
    PortSmooth (s.pollLeave t w r now answers exitAnswers) := by
  have hback : PortCore (s.pollReturned t) fun u => (s.wait u).hand :=
    hi.core.same ⟨rfl, rfl, rfl, rfl, rfl, rfl, rfl, rfl⟩ rfl rfl rfl hi.core.sound hi.core.holds
      hi.core.kept
  have hret : PortSmooth (s.pollReturned t) := ⟨h.updated, h.smooth⟩
  cases r with
  | error e =>
      have hmem : t ∈ s.polling := by
        rw [hi.polls, ht]
        trivial
      have hnil := hi.emptied h.updated (List.ne_nil_of_mem hmem)
      have he : e = waitTimeout := by
        have hs := h.smooth t
        rw [ht] at hs
        exact hs
      have hsame : Function.update (fun u => (s.wait u).hand) t [] = fun u => (s.wait u).hand := by
        rw [Function.update_eq_self_iff, ht]
        rfl
      have hm := hi.pollReturned hd ht .refl (hsame.symm ▸ hback)
      have hret' : PortSmooth { s.pollReturned t with lastError := e } := ⟨h.updated, h.smooth⟩
      exact hret'.waitExit (hm.lastError e) hd (Or.inr ⟨rfl, rfl, he, hnil⟩) hexit
  | ok ks =>
      have hks : (s.wait t).hand = ks := by
        rw [ht]
        rfl
      obtain ⟨hc, hs, -⟩ := hback.feedEvents (t := t) hd hks
      have hm := hi.pollReturned hd ht hs hc
      have hd' := hs.deleting.trans hd
      have hfed := hret.still hs
      rw [Port.pollLeave]
      generalize Port.feedEvents ks (s.pollReturned t) = res at hc hs hm hd' hfed
      obtain ⟨u, events⟩ := res
      dsimp only
      split
      · exact hfed.waitExit hm hd' (Or.inl rfl) hexit
      · split
        · exact hfed.pollEnter hm hd' w ha
        · split
          · have hfed' : PortSmooth { u with lastError := waitTimeout } :=
              ⟨hfed.updated, hfed.smooth⟩
            exact hfed'.waitExit (hm.lastError waitTimeout) hd' (Or.inl rfl) hexit
          · exact hfed.pollEnter hm hd' w ha

theorem ctlAdd (h : PortSmooth s) (hi : PortInv s) (hd : s.deleting = false)
    {socket : BitVec 64} {ev : BitVec 32} {data : Nat} {hasBase canCreate canAlloc : Bool}
    (ha : ∀ k, (answers k).Granted) :
    PortSmooth (s.ctlAdd socket ev data hasBase canCreate canAlloc answers) := by
  rw [Port.ctlAdd]
  split
  · exact h
  · split
    · next u hn => exact h.still (hi.core.sockNew_none hn).2.1
    · next u k hn =>
        obtain ⟨hc, hs⟩ := hi.core.sockNew_some hn ev data
        have hm := hi.still hs hc (hi.notDeleted hd)
        exact (h.still hs).updateEventsIfPolling (hs.wait.symm ▸ hm) (hs.deleting.trans hd) ha

theorem ctlMod (h : PortSmooth s) (hi : PortInv s) (hd : s.deleting = false)
    {socket : BitVec 64} {ev : BitVec 32} {data : Nat} (ha : ∀ k, (answers k).Granted) :
    PortSmooth (s.ctlMod socket ev data answers) := by
  rw [Port.ctlMod]
  split
  · exact h
  · next k hk =>
      have hs : s.Still (s.sockSetEvent k ev data) := PortInv.sockSetEvent_still
      have hm := hi.still hs (hi.core.sockSetEvent (PortInv.findSocket_mem hk) ev data)
        (hi.notDeleted hd)
      exact (h.still hs).updateEventsIfPolling (hs.wait.symm ▸ hm) (hs.deleting.trans hd) ha

theorem step (h : PortSmooth s) (hi : PortInv s) {a : PortAct} (ha : a.Granted)
    (hs : portStep s a = some s') : PortSmooth s' := by
  cases a with
  | ctlAdd socket ev data hasBase canCreate canAlloc answers =>
      obtain ⟨hd, hs⟩ := Option.ite_none_left_eq_some.mp hs
      cases hs
      exact h.ctlAdd hi (Bool.eq_false_of_not_eq_true hd) ha
  | ctlMod socket ev data answers =>
      obtain ⟨hd, hs⟩ := Option.ite_none_left_eq_some.mp hs
      cases hs
      exact h.ctlMod hi (Bool.eq_false_of_not_eq_true hd) ha
  | ctlDel socket answer =>
      obtain ⟨-, hs⟩ := Option.ite_none_left_eq_some.mp hs
      cases hs
      rw [Port.ctlDel]
      split
      · exact h
      · next k hk =>
          exact h.still (hi.core.sockDelete (PortInv.findSocket_mem hk) (f := false)
            (by rintro ⟨⟩) answer).2.1
  | wait t maxevents timeout canAlloc now answers exitAnswers =>
      obtain ⟨hd, hs⟩ := Option.ite_none_left_eq_some.mp hs
      have hd := Bool.eq_false_of_not_eq_true hd
      split at hs
      · next ht =>
          cases hs
          exact h.portWait hi hd (by rw [ht]; exact id) ha.1
      · next ht =>
          cases hs
          exact h.portWait hi hd (by rw [ht]; exact id) ha.1
      · cases hs
  | dequeue t n =>
      rw [portStep] at hs
      split at hs
      · obtain ⟨-, hs⟩ := Option.ite_none_right_eq_some.mp hs
        cases hs
        exact h.goto rfl h.updated trivial
      · cases hs
  | timeOut t e =>
      rw [portStep] at hs
      split at hs
      · cases hs
        exact h.goto rfl h.updated ha
      · cases hs
  | leave t now answers exitAnswers =>
      rw [portStep] at hs
      split at hs
      · next w r ht =>
          cases hs
          exact h.pollLeave hi (hi.open_of_poll (t := t) (by rw [ht]; trivial)) ht ha.1 ha.2
      · cases hs
  | complete k status numberOfHandles events =>
      rw [portStep] at hs
      split at hs
      · cases hs
        exact h.still ⟨rfl, rfl, rfl, rfl, rfl, rfl, rfl⟩
      · cases hs
  | close =>
      cases hs
      exact ⟨h.updated, h.smooth⟩
  | delete =>
      obtain ⟨-, hs⟩ := Option.ite_none_right_eq_some.mp hs
      cases hs
      exact ⟨h.updated, h.smooth⟩
  | deleteRoot k answer =>
      obtain ⟨⟨hd, hk⟩, hs⟩ := Option.ite_none_right_eq_some.mp hs
      cases hs
      exact h.still (hi.core.sockDelete hk (fun _ => hd) answer).2.1
  | deleteFirst =>
      obtain ⟨-, hs⟩ := Option.ite_none_right_eq_some.mp hs
      obtain ⟨k, hk, rfl⟩ := Option.map_eq_some_iff.mp hs
      exact h.still (hi.sockDelete_still (List.mem_of_head? hk) _)
  | deleteGroup =>
      obtain ⟨-, hs⟩ := Option.ite_none_right_eq_some.mp hs
      obtain ⟨g, -, rfl⟩ := Option.map_eq_some_iff.mp hs
      exact ⟨h.updated, h.smooth⟩
  | free =>
      obtain ⟨-, hs⟩ := Option.ite_none_right_eq_some.mp hs
      cases hs
      exact ⟨h.updated, h.smooth⟩

end PortSmooth

/-! ## Every run -/

/-- Where the driver grants every request, `port_wait` does not fail: it returns the number of
its events, and zero when it times out, whatever the other threads do meanwhile; and while a
thread waits for packets no socket waits for a request. -/
theorem port_wait_succeeds {s : Port}
    (h : portMachine.Leads (fun _ a => a.Granted) .new s) :
    (∀ t maxevents r events, s.wait t = .returned maxevents r events → 0 < maxevents →
      r = events.length) ∧
      (s.polling ≠ [] → s.sockUpdateQueue = []) := by
  obtain ⟨hi, hs⟩ : PortInv s ∧ PortSmooth s :=
    h.invariant (I := fun s => PortInv s ∧ PortSmooth s)
      (fun _ _ _ hi ha hs => ⟨hi.1.step hs, hi.2.step hi.1 ha hs⟩)
      ⟨.new, rfl, fun _ => trivial⟩
  refine ⟨fun t maxevents r events ht => ?_, hi.emptied hs.updated⟩
  have hsmooth := hs.smooth t
  rw [ht] at hsmooth
  exact hsmooth

/-- Thread 1 times out while thread 2 waits. -/
def timeOutRun : List PortAct :=
  [.ctlAdd 5 epollin 9 true true true answered, .wait 2 4 (-1) true 0 answered answered,
    .wait 1 4 10 true 0 answered answered, .timeOut 1 waitTimeout, .leave 1 11 answered answered]

theorem port_wait_succeeds_timeout :
    ∃ s, portMachine.Leads (fun _ a => a.Granted) .new s ∧ s.polling = [2] ∧
      ∃ r, s.wait 1 = .returned 4 r [] ∧ r = 0 := by
  obtain ⟨s, hs, hp, hw⟩ : ∃ s, portMachine.run .new timeOutRun = some s ∧ s.polling = [2] ∧
      s.wait 1 = .returned 4 0 [] := ⟨_, rfl, rfl, rfl⟩
  have hgranted : ∀ k, (answered k).Granted := fun _ => ⟨Or.inl rfl, rfl⟩
  have hmeets : ∀ a ∈ timeOutRun, a.Granted := by
    simp only [timeOutRun, List.forall_mem_cons]
    exact ⟨hgranted, ⟨hgranted, hgranted⟩, ⟨hgranted, hgranted⟩, rfl, ⟨hgranted, hgranted⟩,
      fun _ h => absurd h List.not_mem_nil⟩
  have hl := Machine.leads_of_run timeOutRun _ s hs (Machine.runMeets_of_forall _ hmeets)
  exact ⟨s, hl, hp, 0, hw, (port_wait_succeeds hl).1 1 4 0 [] hw (by decide)⟩

/-- Not so after a request was refused: the socket stays in the queue, the thread that times
out makes the request again, with success, and reports the last error of that. -/
example : (portMachine.run .new [.wait 2 4 (-1) true 0 answered answered,
    .wait 1 4 10 true 0 answered answered,
    .ctlAdd 5 epollin 9 true true true fun _ => ⟨some 5, none⟩, .timeOut 1 waitTimeout,
    .leave 1 11 answered fun _ => ⟨some errorIoPending, none⟩]).map
      (fun s => match s.wait 1 with | .returned _ r _ => r | _ => 0) = some (-1) := by
  rfl

end Ztk.Wepoll
