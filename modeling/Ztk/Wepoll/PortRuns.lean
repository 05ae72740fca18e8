import Ztk.Wepoll.PortHandle
import Ztk.Wepoll.PortSafety

/-!
# Runs of a port

What holds of a port whenever its lock is free, in every order in which threads call
`epoll_ctl` and `epoll_wait` and the driver completes requests.  While a thread waits for
packets, every registered socket has a request that asks for what the user wants, or one that
is on its way back; `port__update_events` and `port__update_events_if_polling` see to this.

Inside a critical section the update queue may be full (`PortMid`); a thread that has the lock
counts as idle there.
-/

namespace Ztk.Wepoll

open Ztk.Lib

/-! ## Threads -/

namespace WaitPhase

/-- The packets that a thread has taken. -/
def hand : WaitPhase → List Nat
  | .polled _ (.ok ks) => ks
  | .idle | .polling _ | .polled _ (.error _) | .returned _ _ _ => []

/-- Between the two halves of `port__poll`. -/
def InPoll : WaitPhase → Prop
  | .polling _ | .polled _ _ => True
  | .idle | .returned _ _ _ => False

/-- A thread has no more packets than it asked for, and what `port_wait` returns are as many
events as it says, no more than there is room for. -/
def Bounded : WaitPhase → Prop
  | .idle | .polling _ | .polled _ (.error _) => True
  | .polled w (.ok ks) => ks.length ≤ w.maxevents
  | .returned maxevents r events =>
      events.length ≤ maxevents.toNat ∧ (∀ ev ∈ events, Reported ev) ∧
        (r = events.length ∨ events = [] ∧ r = -1)

end WaitPhase

/-! ## The invariant -/

/-- What holds inside a critical section. -/
structure PortMid (s : Port) (wait : Nat → WaitPhase) : Prop where
  core : PortCore s fun t => (wait t).hand
  nodup : s.polling.Nodup
  polls : ∀ t, t ∈ s.polling ↔ (wait t).InPoll
  count : s.activePollCount = s.polling.length
  bounded : ∀ t, (wait t).Bounded
  deleting : s.deleting = true → s.polling = []
  deleted : s.deleted = true → s.deleting = true ∧ s.sockTree = [] ∧ s.sockDeletedQueue = [] ∧
    s.pollGroups.queue = []

/-- What holds when the lock is free. -/
structure PortInv (s : Port) : Prop extends PortMid s s.wait where
  emptied : s.updated = true → s.polling ≠ [] → s.sockUpdateQueue = []

namespace PortMid

variable {s s' : Port} {wait : Nat → WaitPhase} {t k : Nat}

/-- A function that leaves the threads alone. -/
theorem still (h : PortMid s wait) (hs : s.Still s') (hc : PortCore s' fun t => (wait t).hand)
    (hdel : s.deleted = false) : PortMid s' wait where
  core := hc
  nodup := hs.polling ▸ h.nodup
  polls t := by rw [hs.polling, h.polls]
  count := by rw [hs.activePollCount, hs.polling, h.count]
  bounded := h.bounded
  deleting hd := by rw [hs.polling, h.deleting (hs.deleting ▸ hd)]
  deleted hd := by
    rw [hs.deleted, hdel] at hd
    cases hd

theorem notDeleted (h : PortMid s wait) (hd : s.deleting = false) : s.deleted = false := by
  by_contra hne
  rw [Bool.not_eq_false] at hne
  rw [(h.deleted hne).1] at hd
  cases hd

/-- The phase of a thread that is not in `port__poll` changes. -/
theorem setWait (h : PortMid s wait) (ht : ¬ (wait t).InPoll) (hh : (wait t).hand = [])
    {p : WaitPhase} (hp : ¬ p.InPoll) (hph : p.hand = []) (hb : p.Bounded) :
    PortMid s (Function.update wait t p) := by
  have hhand : (fun u => (Function.update wait t p u).hand) = fun u => (wait u).hand := by
    funext u
    by_cases hu : u = t
    · rw [hu, Function.update_self, hph, hh]
    · rw [Function.update_of_ne hu]
  refine ⟨hhand ▸ h.core, h.nodup, fun u => ?_, h.count, fun u => ?_, h.deleting, h.deleted⟩
  · by_cases hu : u = t
    · rw [hu, Function.update_self, h.polls]
      exact iff_of_false ht hp
    · rw [Function.update_of_ne hu, h.polls]
  · by_cases hu : u = t
    · rw [hu, Function.update_self]
      exact hb
    · rw [Function.update_of_ne hu]
      exact h.bounded u

/-- The field `wait` is written when the thread leaves the critical section. -/
theorem store (h : PortMid s wait) (w : Nat → WaitPhase) : PortMid { s with wait := w } wait :=
  ⟨h.core.same ⟨rfl, rfl, rfl, rfl, rfl, rfl, rfl, rfl⟩ rfl rfl rfl h.core.sound h.core.holds
    h.core.kept, h.nodup, h.polls, h.count, h.bounded, h.deleting, h.deleted⟩

theorem lastError (h : PortMid s wait) (e : Nat) : PortMid { s with lastError := e } wait :=
  ⟨h.core.lastError e, h.nodup, h.polls, h.count, h.bounded, h.deleting, h.deleted⟩

/-- `port__update_events`. -/
theorem updateEvents (h : PortMid s wait) (hd : s.deleting = false) (answers : Nat → AfdAnswer) :
    PortMid (s.updateEvents answers).1 wait ∧
      (s.updateEvents answers).1.wait = s.wait ∧
      (s.updateEvents answers).1.polling = s.polling ∧
      (s.updateEvents answers).1.deleting = s.deleting ∧
      (s.updateEvents answers).1.updated = (s.updateEvents answers).2 ∧
      ((s.updateEvents answers).2 = true → (s.updateEvents answers).1.sockUpdateQueue = []) := by
  obtain ⟨hc, hs, hnil⟩ := h.core.updateLoop answers (Nat.le_refl _)
  have hm := h.still hs hc (h.notDeleted hd)
  refine ⟨?_, hs.wait, hs.polling, hs.deleting, rfl, hnil⟩
  exact ⟨hm.core.same ⟨rfl, rfl, rfl, rfl, rfl, rfl, rfl, rfl⟩ rfl rfl rfl hm.core.sound
    hm.core.holds hm.core.kept, hm.nodup, hm.polls, hm.count, hm.bounded, hm.deleting, hm.deleted⟩

/-- `port__update_events_if_polling`: the invariant of a free lock is restored. -/
theorem updateEventsIfPolling (h : PortMid s wait) (hd : s.deleting = false)
    (answers : Nat → AfdAnswer) :
    PortMid (s.updateEventsIfPolling answers) wait ∧
      (s.updateEventsIfPolling answers).wait = s.wait ∧
      ((s.updateEventsIfPolling answers).updated = true →
        (s.updateEventsIfPolling answers).polling ≠ [] →
        (s.updateEventsIfPolling answers).sockUpdateQueue = []) := by
  rw [Port.updateEventsIfPolling]
  split
  · obtain ⟨hm, hw, -, -, hu, hnil⟩ := h.updateEvents hd answers
    exact ⟨hm, hw, fun hup _ => hnil (hu ▸ hup)⟩
  · next hzero =>
      refine ⟨h, rfl, fun _ hne => absurd ?_ hne⟩
      rw [h.count] at hzero
      exact List.length_eq_zero_iff.mp (Nat.eq_zero_of_not_pos hzero)

/-- The end of `port_wait`, for a thread that counts as idle. -/
theorem waitExit (h : PortMid s (Function.update s.wait t .idle)) (hd : s.deleting = false)
    {maxevents r : Int} {events : List EpollEvent} (hlen : events.length ≤ maxevents.toNat)
    (hev : ∀ ev ∈ events, Reported ev) (hr : r = events.length ∨ events = [] ∧ r = -1)
    (answers : Nat → AfdAnswer) : PortInv (s.waitExit t maxevents r events answers) := by
  obtain ⟨hm, hw, hempty⟩ := h.updateEventsIfPolling hd answers
  rw [Port.waitExit]
  have hres : WaitPhase.Bounded (.returned maxevents (if r ≥ 0 then r else
      if (s.updateEventsIfPolling answers).lastError = waitTimeout then 0 else -1) events) := by
    refine ⟨hlen, hev, ?_⟩
    obtain hr | ⟨hnil, hr⟩ := hr
    · rw [if_pos (by omega)]
      exact Or.inl hr
    · rw [if_neg (by omega)]
      split
      · exact Or.inl (by rw [hnil]; rfl)
      · exact Or.inr ⟨hnil, rfl⟩
  have hnew := hm.setWait (t := t) (p := .returned maxevents _ events)
    (by rw [Function.update_self]; exact id) (by rw [Function.update_self]; rfl) id rfl hres
  rw [Function.update_idem, ← hw] at hnew
  exact ⟨hnew.store _, hempty⟩

/-- The first half of `port__poll`. -/
theorem pollEnter (h : PortMid s (Function.update s.wait t .idle)) (hd : s.deleting = false)
    (w : PortWait) (answers exitAnswers : Nat → AfdAnswer) :
    PortInv (s.pollEnter t w answers exitAnswers) := by
  obtain ⟨hm, hw, hp, hdel, -, hnil⟩ := h.updateEvents hd answers
  rw [Port.pollEnter]
  split
  · next s' he =>
      rw [he] at hm hw hdel
      have hm' : PortMid s' (Function.update s'.wait t .idle) := by
        rw [show s'.wait = s.wait from hw]
        exact hm
      exact hm'.waitExit (show s'.deleting = false from hdel.trans hd) (Nat.zero_le _)
        (fun ev hev => absurd hev List.not_mem_nil) (Or.inr ⟨rfl, rfl⟩) exitAnswers
  · next s' he =>
      rw [he] at hm hw hp hdel hnil
      have htp : t ∉ s'.polling := by
        rw [hm.polls, Function.update_self]
        exact id
      have hhand : (fun u => (Function.update s'.wait t (.polling w) u).hand) =
          fun u => (Function.update s.wait t .idle u).hand := by
        funext u
        rw [show s'.wait = s.wait from hw]
        by_cases hu : u = t
        · rw [hu, Function.update_self, Function.update_self]
          rfl
        · rw [Function.update_of_ne hu, Function.update_of_ne hu]
      refine ⟨⟨?_, List.nodup_cons.mpr ⟨htp, hm.nodup⟩, fun u => ?_, ?_, fun u => ?_, ?_, ?_⟩,
        fun _ _ => hnil rfl⟩
      · show PortCore _ fun u => (Function.update s'.wait t (.polling w) u).hand
        rw [hhand]
        exact hm.core.same ⟨rfl, rfl, rfl, rfl, rfl, rfl, rfl, rfl⟩ rfl rfl rfl hm.core.sound
          hm.core.holds hm.core.kept
      · show u ∈ t :: s'.polling ↔ (Function.update s'.wait t (.polling w) u).InPoll
        have hpu := hm.polls u
        rw [List.mem_cons, hpu, show s'.wait = s.wait from hw]
        by_cases hu : u = t
        · rw [hu, Function.update_self, Function.update_self]
          exact iff_of_true (Or.inl rfl) trivial
        · rw [Function.update_of_ne hu, Function.update_of_ne hu, or_iff_right hu]
      · show s'.activePollCount + 1 = (t :: s'.polling).length
        rw [hm.count, List.length_cons]
      · show (Function.update s'.wait t (.polling w) u).Bounded
        have hb := hm.bounded u
        rw [show s'.wait = s.wait from hw]
        by_cases hu : u = t
        · rw [hu, Function.update_self]
          trivial
        · rw [Function.update_of_ne hu] at hb ⊢
          exact hb
      · intro hdel'
        rw [show s'.deleting = false from hdel.trans hd] at hdel'
        cases hdel'
      · intro hdel'
        rw [(show s'.deleted = false from hm.notDeleted (hdel.trans hd))] at hdel'
        cases hdel'

end PortMid

namespace PortInv

variable {s s' : Port} {t k : Nat}

theorem new : PortInv .new where
  core := {
    sound := Lifetime.sound_start
    holds := rfl
    kept := rfl
    groups := .empty
    held := .refl _
    distinct := ⟨List.nodup_nil, List.nodup_nil, List.nodup_nil, List.nodup_nil, List.nodup_nil⟩
    hands := fun _ => List.nodup_nil
    sock := fun k => {
      packet := iff_of_false List.not_mem_nil (by rintro ⟨⟩)
      hands := fun _ => iff_of_false List.not_mem_nil (by rintro ⟨⟩)
      fresh := fun _ => ⟨List.not_mem_nil, rfl, rfl⟩
      armed := by
        show 0 + (if Shares (0 : BitVec 32) epolloneshot then 1 else 0) ≤ 0
        rw [if_neg not_shares_zero]
      stage := .gone List.not_mem_nil List.not_mem_nil List.not_mem_nil List.not_mem_nil
        (fun _ => rfl) (Or.inl (Nat.zero_le k)) } }
  nodup := List.nodup_nil
  polls _ := iff_of_false List.not_mem_nil id
  count := rfl
  bounded _ := trivial
  deleting _ := rfl
  deleted h := nomatch h
  emptied _ _ := rfl

/-- A thread outside of `port__poll` counts as idle. -/
theorem idle (h : PortInv s) (ht : ¬ (s.wait t).InPoll) :
    PortMid s (Function.update s.wait t .idle) := by
  refine h.setWait ht ?_ id rfl trivial
  revert ht
  cases s.wait t with
  | idle | returned _ _ _ => exact fun _ => rfl
  | polling _ | polled _ _ => exact fun ht => absurd trivial ht

/-- `port_wait`. -/
theorem portWait (h : PortInv s) (hd : s.deleting = false) (ht : ¬ (s.wait t).InPoll)
    (maxevents timeout : Int) (canAlloc : Bool) (now : Nat)
    (answers exitAnswers : Nat → AfdAnswer) :
    PortInv (s.portWait t maxevents timeout canAlloc now answers exitAnswers) := by
  rw [Port.portWait]
  split
  · have hm := (h.idle ht).setWait (t := t) (p := .returned maxevents (-1) [])
      (by rw [Function.update_self]; exact id) (by rw [Function.update_self]; rfl) id rfl
      ⟨Nat.zero_le _, fun ev hev => absurd hev List.not_mem_nil, Or.inr ⟨rfl, rfl⟩⟩
    rw [Function.update_idem] at hm
    exact ⟨hm.store _, h.emptied⟩
  · exact (h.idle ht).pollEnter hd _ answers exitAnswers

/-- A thread is back from `GetQueuedCompletionStatusEx`, and its packets are looked at. -/
theorem pollReturned (h : PortInv s) (hd : s.deleting = false) {w : PortWait}
    {r : Except Nat (List Nat)} (ht : s.wait t = .polled w r) (hs : (s.pollReturned t).Still s')
    (hc : PortCore s' (Function.update (fun u => (s.wait u).hand) t [])) :
    PortMid s' (Function.update s'.wait t .idle) := by
  have hmem : t ∈ s.polling := by
    rw [h.polls, ht]
    trivial
  have hhand : Function.update (fun u => (s.wait u).hand) t [] =
      fun u => (Function.update s.wait t .idle u).hand := by
    funext u
    by_cases hu : u = t
    · rw [hu, Function.update_self, Function.update_self]
      rfl
    · rw [Function.update_of_ne hu, Function.update_of_ne hu]
  have hw : s'.wait = s.wait := hs.wait
  have hp : s'.polling = s.polling.erase t := hs.polling
  rw [hw]
  refine ⟨hhand ▸ hc, hp ▸ h.nodup.erase t, fun u => ?_, ?_, fun u => ?_, fun hdel => ?_,
    fun hdel => ?_⟩
  · rw [hp, h.nodup.mem_erase_iff, h.polls]
    by_cases hu : u = t
    · rw [hu, Function.update_self]
      exact iff_of_false (fun hn => hn.1 rfl) id
    · rw [Function.update_of_ne hu]
      exact and_iff_right hu
  · rw [show s'.activePollCount = s.activePollCount - 1 from hs.activePollCount, hp, h.count,
      List.length_erase_of_mem hmem]
  · by_cases hu : u = t
    · rw [hu, Function.update_self]
      trivial
    · rw [Function.update_of_ne hu]
      exact h.bounded u
  · rw [show s'.deleting = s.deleting from hs.deleting, hd] at hdel
    cases hdel
  · rw [show s'.deleted = s.deleted from hs.deleted, h.notDeleted hd] at hdel
    cases hdel

/-- `port_wait` goes on after `GetQueuedCompletionStatusEx`. -/
theorem pollLeave (h : PortInv s) (hd : s.deleting = false) {w : PortWait}
    {r : Except Nat (List Nat)} (ht : s.wait t = .polled w r) (now : Nat)
    (answers exitAnswers : Nat → AfdAnswer) :
    PortInv (s.pollLeave t w r now answers exitAnswers) := by
  have hback : PortCore (s.pollReturned t) fun u => (s.wait u).hand :=
    h.core.same ⟨rfl, rfl, rfl, rfl, rfl, rfl, rfl, rfl⟩ rfl rfl rfl h.core.sound h.core.holds
      h.core.kept
  have hnil : ∀ ev ∈ ([] : List EpollEvent), Reported ev := fun ev hev =>
    absurd hev List.not_mem_nil
  cases r with
  | error e =>
      have hsame : Function.update (fun u => (s.wait u).hand) t [] = fun u => (s.wait u).hand := by
        rw [Function.update_eq_self_iff, ht]
        rfl
      have hm := h.pollReturned hd ht .refl (hsame.symm ▸ hback)
      exact (hm.lastError e).waitExit (s := { s.pollReturned t with lastError := e }) hd
        (Nat.zero_le _) hnil (Or.inr ⟨rfl, rfl⟩) exitAnswers
  | ok ks =>
      have hks : (s.wait t).hand = ks := by
        rw [ht]
        rfl
      obtain ⟨hc, hs, hlen, hev⟩ := hback.feedEvents (t := t) hd hks
      have hm := h.pollReturned hd ht hs hc
      have hd' := hs.deleting.trans hd
      have hroom : ks.length ≤ w.maxevents := by
        have hb := h.bounded t
        rw [ht] at hb
        exact hb
      rw [Port.pollLeave]
      generalize Port.feedEvents ks (s.pollReturned t) = res at hc hs hlen hev hm hd'
      obtain ⟨s', events⟩ := res
      simp only
      split
      · refine hm.waitExit hd' ?_ hev (Or.inl rfl) exitAnswers
        rw [Int.toNat_natCast]
        exact hlen.trans hroom
      · split
        · exact hm.pollEnter hd' w answers exitAnswers
        · split
          · exact (hm.lastError waitTimeout).waitExit (s := { s' with lastError := waitTimeout })
              hd' (Nat.zero_le _) hnil (Or.inl rfl) exitAnswers
          · exact hm.pollEnter hd' w answers exitAnswers

/-! ### The calls of `epoll_ctl` -/

/-- A critical section that ends with `port__update_events_if_polling`. -/
theorem afterUpdate (h : PortMid s s.wait) (hd : s.deleting = false)
    (answers : Nat → AfdAnswer) : PortInv (s.updateEventsIfPolling answers) := by
  obtain ⟨hm, hw, hempty⟩ := h.updateEventsIfPolling hd answers
  exact ⟨hw.symm ▸ hm, hempty⟩

/-- A function that leaves the threads alone, and asks for no update. -/
theorem quiet (h : PortInv s) (hs : s.Still s') (hc : PortCore s' fun t => (s.wait t).hand)
    (hdel : s.deleted = false)
    (hq : s.sockUpdateQueue = [] → s'.sockUpdateQueue = []) : PortInv s' := by
  have hm := h.still hs hc hdel
  refine ⟨hs.wait.symm ▸ hm, fun hu hp => hq (h.emptied (hs.updated ▸ hu) ?_)⟩
  rw [← hs.polling]
  exact hp

theorem sockSetEvent_still {ev : BitVec 32} {data : Nat} : s.Still (s.sockSetEvent k ev data) := by
  have hr : ∀ s : Port, s.Still (s.requestSocketUpdate k) := by
    intro s
    rw [Port.requestSocketUpdate]
    split
    · exact .refl
    · exact ⟨rfl, rfl, rfl, rfl, rfl, rfl, rfl⟩
  have hset : s.Still (s.setSock k ((s.sock k).setEvent ev data)) :=
    ⟨rfl, rfl, rfl, rfl, rfl, rfl, rfl⟩
  rw [Port.sockSetEvent]
  split
  · exact hset.trans (hr _)
  · exact hset

theorem findSocket_mem {socket : BitVec 64} (hk : s.findSocket socket = some k) :
    k ∈ s.sockTree :=
  List.mem_of_find?_eq_some hk

theorem ctlAdd (h : PortInv s) (hd : s.deleting = false)
    (socket : BitVec 64) (ev : BitVec 32) (data : Nat) (hasBase canCreate canAlloc : Bool)
    (answers : Nat → AfdAnswer) :
    PortInv (s.ctlAdd socket ev data hasBase canCreate canAlloc answers) := by
  rw [Port.ctlAdd]
  split
  · exact h
  · split
    · next s' hn =>
        obtain ⟨hc, hs, hq⟩ := h.core.sockNew_none hn
        exact h.quiet hs hc (h.notDeleted hd) fun he => hq.trans he
    · next s' k hn =>
        obtain ⟨hc, hs⟩ := h.core.sockNew_some hn ev data
        have hm := h.still hs hc (h.notDeleted hd)
        exact afterUpdate (hs.wait.symm ▸ hm) (hs.deleting.trans hd) answers

theorem ctlMod (h : PortInv s) (hd : s.deleting = false) (socket : BitVec 64) (ev : BitVec 32)
    (data : Nat) (answers : Nat → AfdAnswer) : PortInv (s.ctlMod socket ev data answers) := by
  rw [Port.ctlMod]
  split
  · exact h
  · next k hk =>
      have hs : s.Still (s.sockSetEvent k ev data) := sockSetEvent_still
      have hm := h.still hs (h.core.sockSetEvent (findSocket_mem hk) ev data) (h.notDeleted hd)
      exact afterUpdate (hs.wait.symm ▸ hm) (hs.deleting.trans hd) answers

theorem ctlDel (h : PortInv s) (hd : s.deleting = false) (socket : BitVec 64)
    (answer : AfdAnswer) : PortInv (s.ctlDel socket answer) := by
  rw [Port.ctlDel]
  split
  · exact h
  · next k hk =>
      obtain ⟨hc, hs, hq⟩ := h.core.sockDelete (findSocket_mem hk) (f := false)
        (by rintro ⟨⟩) answer
      refine h.quiet hs hc (h.notDeleted hd) fun he => ?_
      rw [hq, he]
      rfl

/-! ### The completion port -/

theorem dequeue (h : PortInv s) (hd : s.deleting = false) {w : PortWait}
    (ht : s.wait t = .polling w) {n : Nat} (hn : n ≤ w.maxevents) : PortInv (s.dequeue t w n) := by
  have hnodup : (s.packets.take n ++ s.packets.drop n).Nodup := by
    rw [List.take_append_drop]
    exact h.core.distinct.packets
  obtain ⟨htake, hdrop, hdisj⟩ := List.nodup_append.mp hnodup
  have hmem : ∀ {q}, q ∈ s.packets ↔ q ∈ s.packets.take n ∨ q ∈ s.packets.drop n := by
    intro q
    rw [← List.mem_append, List.take_append_drop]
  have hrequest : ∀ {q}, q ∈ s.packets.take n → (s.dequeue t w n).request q = .taken t := fun hq =>
    if_pos hq
  have hother : ∀ {q}, q ∉ s.packets.take n → (s.dequeue t w n).request q = s.request q :=
    fun hq => if_neg hq
  have hcompleted : ∀ {q}, q ∈ s.packets.take n → s.request q = .completed := fun hq =>
    (h.core.sock _).packet.mp (hmem.mpr (Or.inl hq))
  have hhand : (s.wait t).hand = [] := by
    rw [ht]
    rfl
  have hself : (s.dequeue t w n).wait t = .polled w (.ok (s.packets.take n)) :=
    Function.update_self ..
  have hwait : ∀ {u}, u ≠ t → (s.dequeue t w n).wait u = s.wait u := fun hu =>
    Function.update_of_ne hu ..
  refine ⟨⟨⟨h.core.sound, h.core.holds, h.core.kept, h.core.groups, h.core.held,
    ⟨h.core.distinct.tree, h.core.distinct.update, h.core.distinct.deleted, h.core.distinct.socks,
      hdrop⟩, fun u => ?_, fun q => ?_⟩, h.nodup, fun u => ?_, h.count, fun u => ?_, h.deleting,
    h.deleted⟩, h.emptied⟩
  · by_cases hu : u = t
    · rw [hu, hself]
      exact htake
    · rw [hwait hu]
      exact h.core.hands u
  · have hq := h.core.sock q
    by_cases hqt : q ∈ s.packets.take n
    · have hr := hcompleted hqt
      refine ⟨?_, fun u => ?_, fun hf => ?_, hq.armed, ?_⟩
      · rw [hrequest hqt]
        exact iff_of_false (fun hqd => hdisj q hqt q hqd rfl) (by rintro ⟨⟩)
      · rw [hrequest hqt]
        by_cases hu : u = t
        · rw [hu, hself]
          exact iff_of_true hqt rfl
        · rw [hwait hu, hq.hands, hr]
          exact iff_of_false (by rintro ⟨⟩) fun he => hu (Request.taken.inj he).symm
      · have hnone := (hq.fresh hf).2.2
        rw [hr] at hnone
        cases hnone
      · cases hq.stage with
        | listed hs htree hdel hf hp hw =>
            refine .listed hs htree hdel hf hp ?_
            rw [hrequest hqt]
            rw [hr] at hw
            exact hw.sent (by rintro ⟨⟩) (by rintro ⟨⟩) (by rintro ev ⟨⟩)
        | doomed hs htree hdel hu hf hp _ =>
            refine .doomed hs htree hdel hu hf hp ?_
            rw [hrequest hqt]
            rintro ⟨⟩
        | gone _ _ _ _ hnone =>
            rw [hnone hd] at hr
            cases hr
    · refine ⟨?_, fun u => ?_, ?_, hq.armed, ?_⟩
      · rw [hother hqt, ← hq.packet, hmem, or_iff_right hqt]
        rfl
      · rw [hother hqt, ← hq.hands]
        by_cases hu : u = t
        · rw [hu, hself, hhand]
          exact iff_of_false hqt List.not_mem_nil
        · rw [hwait hu]
      · rw [hother hqt]
        exact hq.fresh
      · cases hq.stage with
        | listed hs htree hdel hf hp hw =>
            exact .listed hs htree hdel hf hp ((hother hqt).symm ▸ hw)
        | doomed hs htree hdel hu hf hp hr =>
            exact .doomed hs htree hdel hu hf hp ((hother hqt).symm ▸ hr)
        | gone hs htree hdel hu hr hf =>
            exact .gone hs htree hdel hu (fun hn => (hother hqt).trans (hr hn)) hf
  · show u ∈ s.polling ↔ _
    rw [h.polls]
    by_cases hu : u = t
    · rw [hu, hself, ht]
      exact Iff.rfl
    · rw [hwait hu]
  · by_cases hu : u = t
    · rw [hu, hself]
      exact (List.length_take_le n _).trans hn
    · rw [hwait hu]
      exact h.bounded u

theorem timeOut (h : PortInv s) {w : PortWait} (ht : s.wait t = .polling w) (e : Nat) :
    PortInv { s with wait := Function.update s.wait t (.polled w (.error e)) } := by
  have hhand : (fun u => (Function.update s.wait t (.polled w (.error e)) u).hand) =
      fun u => (s.wait u).hand := by
    funext u
    by_cases hu : u = t
    · rw [hu, Function.update_self, ht]
      rfl
    · rw [Function.update_of_ne hu]
  have hc : PortCore s fun u => (Function.update s.wait t (.polled w (.error e)) u).hand :=
    hhand.symm ▸ h.core
  refine ⟨⟨hc.same ⟨rfl, rfl, rfl, rfl, rfl, rfl, rfl, rfl⟩ rfl rfl rfl h.core.sound h.core.holds
    h.core.kept, h.nodup, fun u => ?_, h.count, fun u => ?_, h.deleting, h.deleted⟩, h.emptied⟩
  · show u ∈ s.polling ↔ (Function.update s.wait t (.polled w (.error e)) u).InPoll
    rw [h.polls]
    by_cases hu : u = t
    · rw [hu, Function.update_self, ht]
      exact Iff.rfl
    · rw [Function.update_of_ne hu]
  · show (Function.update s.wait t (.polled w (.error e)) u).Bounded
    by_cases hu : u = t
    · rw [hu, Function.update_self]
      trivial
    · rw [Function.update_of_ne hu]
      exact h.bounded u

/-- The driver writes into a `sock_state_t` that is allocated. -/
theorem complete (h : PortInv s) (hd : s.deleting = false) {ev : BitVec 32}
    (hr : s.request k = .driver ev) (status : BitVec 32) (numberOfHandles : Nat)
    (events : BitVec 32) : PortInv (s.complete k status numberOfHandles events) := by
  have hk := h.core.sock k
  have hne : s.request k ≠ .none := by
    rw [hr]
    rintro ⟨⟩
  have hpacket : k ∉ s.packets := by
    rw [hk.packet, hr]
    rintro ⟨⟩
  have hlive : s.life.Live k := by
    obtain ht | hdel := h.core.requested hd hne
    · exact (h.core.listed ht).2.2.1
    · exact (h.core.doomed hdel).2.2.2.1
  let x : SockState :=
    { s.sock k with status := status, numberOfHandles := numberOfHandles, events := events }
  have hself : (s.complete k status numberOfHandles events).sock k = x := Port.setSock_self
  have hsock : ∀ q, q ≠ k → (s.complete k status numberOfHandles events).sock q = s.sock q :=
    fun q hq => Port.setSock_of_ne hq
  have hrequest : (s.complete k status numberOfHandles events).request k = .completed :=
    Function.update_self ..
  have hgroups : ∀ q, ((s.complete k status numberOfHandles events).sock q).pollGroup =
      (s.sock q).pollGroup := by
    intro q
    by_cases hq : q = k
    · rw [hq, hself]
    · rw [hsock q hq]
  have hdist := h.core.distinct
  refine ⟨⟨h.core.touch (k := k) (fun q hq => ?_) (fun _ _ _ => Iff.rfl)
    (h.core.sound.use hlive) h.core.holds h.core.kept h.core.groups ?_ ?_ h.core.hands ?_, h.nodup,
    h.polls, h.count, h.bounded, h.deleting, h.deleted⟩, h.emptied⟩
  · exact {
      next := Iff.rfl
      deleting := rfl
      sock := hsock q hq
      request := Function.update_of_ne hq ..
      freed := rfl
      tree := Iff.rfl
      update := Iff.rfl
      deleted := Iff.rfl
      socks := Iff.rfl
      packets := by
        show q ∈ s.packets ++ [k] ↔ q ∈ s.packets
        rw [List.mem_append, List.mem_singleton, or_iff_left hq] }
  · show s.pollGroups.held.Perm (s.socks.map _)
    rw [List.map_congr_left fun q _ => hgroups q]
    exact h.core.held
  · exact ⟨hdist.tree, hdist.update, hdist.deleted, hdist.socks,
      List.nodup_append.mpr ⟨hdist.packets, List.nodup_singleton k, fun a ha b hb he =>
        hpacket (List.mem_singleton.mp hb ▸ he ▸ ha)⟩⟩
  · refine ⟨?_, fun u => ?_, fun hf => absurd (hk.fresh hf).2.2 hne, hself ▸ hk.armed, ?_⟩
    · rw [hrequest]
      exact iff_of_true (List.mem_append_right _ (List.mem_singleton_self k)) rfl
    · refine (hk.hands u).trans ?_
      rw [hrequest, hr]
      exact iff_of_false (by rintro ⟨⟩) (by rintro ⟨⟩)
    · cases hk.stage with
      | listed hs ht hdel hf hp hw =>
          refine .listed hs ht hdel hf (hself ▸ hp) ?_
          rw [hself, hrequest]
          exact (hw.congr rfl rfl rfl).sent hne (by rintro ⟨⟩) (by rintro ev ⟨⟩)
      | doomed hs ht hdel hu hf hp _ =>
          refine .doomed hs ht hdel hu hf (hself ▸ hp) ?_
          rw [hrequest]
          rintro ⟨⟩
      | gone _ _ _ _ hnone => exact absurd (hnone hd) hne

/-! ### The end of a port -/

theorem close (h : PortInv s) : PortInv { s with iocp := false } :=
  ⟨⟨h.core.same ⟨rfl, rfl, rfl, rfl, rfl, rfl, rfl, rfl⟩ rfl rfl rfl h.core.sound h.core.holds
    h.core.kept, h.nodup, h.polls, h.count, h.bounded, h.deleting, h.deleted⟩, h.emptied⟩

theorem delete (h : PortInv s) (hp : s.polling = []) (hd : s.deleting = false) :
    PortInv ({ s with deleting := true }.checkIocp !s.iocp) := by
  have hc : PortCore { s with deleting := true } fun t => (s.wait t).hand := {
    sound := h.core.sound
    holds := h.core.holds
    kept := h.core.kept
    groups := h.core.groups
    held := h.core.held
    distinct := h.core.distinct
    hands := h.core.hands
    sock := fun q =>
      have hq := h.core.sock q
      ⟨hq.packet, hq.hands, hq.fresh, hq.armed, by
        cases hq.stage with
        | listed hs ht hdel hf hp hw => exact .listed hs ht hdel hf hp hw
        | doomed hs ht hdel hu hf hp hr => exact .doomed hs ht hdel hu hf hp hr
        | gone hs ht hdel hu hr hf => exact .gone hs ht hdel hu (fun hn => nomatch hn) hf⟩ }
  refine ⟨⟨hc.checkIocp _, h.nodup, h.polls, h.count, h.bounded, fun _ => hp,
    fun hdel => ?_⟩, fun _ hne => absurd hp hne⟩
  have hnot := h.notDeleted hd
  rw [show s.deleted = true from hdel] at hnot
  cases hnot

/-- A function that `port_delete` calls. -/
theorem deleteTurn (h : PortInv s) (hd : s.deleting = true) (hs : s.Still s')
    (hc : PortCore s' fun t => (s.wait t).hand) (hnot : s.deleted = false) : PortInv s' := by
  refine ⟨hs.wait.symm ▸ h.still hs hc hnot, fun _ hp => absurd ?_ hp⟩
  rw [hs.polling]
  exact h.deleting hd

theorem deleteRoot (h : PortInv s) (hd : s.deleting = true) (hk : k ∈ s.sockTree)
    (answer : AfdAnswer) : PortInv (s.sockDelete k true answer) := by
  obtain ⟨hc, hs, -⟩ := h.core.sockDelete hk (fun _ => hd) answer
  refine h.deleteTurn hd hs hc ?_
  by_contra hne
  rw [(h.deleted (Bool.not_eq_false _ ▸ hne)).2.1] at hk
  cases hk

theorem sockDelete_still (h : PortInv s) (hk : k ∈ s.sockDeletedQueue)
    (answer : AfdAnswer) : s.Still (s.sockDelete k true answer) := by
  obtain ⟨-, ht, hu, hlive, hp, -⟩ := h.core.doomed hk
  rw [Port.sockDelete_doomed hlive hp ht hu (Or.inl rfl)]
  exact ⟨rfl, rfl, rfl, rfl, rfl, rfl, rfl⟩

theorem deleteFirst (h : PortInv s) (hd : s.deleting = true) (hk : k ∈ s.sockDeletedQueue)
    (answer : AfdAnswer) : PortInv (s.sockDelete k true answer) := by
  refine h.deleteTurn hd (h.sockDelete_still hk answer) (h.core.sockDelete_queued hk hd answer) ?_
  by_contra hne
  rw [(h.deleted (Bool.not_eq_false _ ▸ hne)).2.2.1] at hk
  cases hk

/-- Where no socket is left, the poll groups are empty. -/
theorem held_nil (h : PortInv s) (ht : s.sockTree = []) (hq : s.sockDeletedQueue = []) :
    s.socks = [] ∧ s.pollGroups.held = [] := by
  have hsocks : s.socks = [] := by
    refine List.eq_nil_iff_forall_not_mem.mpr fun k hk => ?_
    cases (h.core.sock k).stage with
    | listed _ hm =>
        rw [ht] at hm
        cases hm
    | doomed _ _ hm =>
        rw [hq] at hm
        cases hm
    | gone hs => exact hs hk
  refine ⟨hsocks, ?_⟩
  have hperm := h.core.held
  rw [hsocks] at hperm
  exact hperm.eq_nil

theorem deleteGroup (h : PortInv s) (hd : s.deleting = true) (ht : s.sockTree = [])
    (hq : s.sockDeletedQueue = []) {g : Nat} (hg : g ∈ s.pollGroups.queue) :
    PortInv { s with pollGroups := s.pollGroups.delete g } := by
  have hnil := (h.held_nil ht hq).2
  refine h.deleteTurn hd ⟨rfl, rfl, rfl, rfl, rfl, rfl, rfl⟩ (h.core.regroup
    (h.core.groups.delete hg (by rw [hnil]; exact List.not_mem_nil)) (List.Perm.refl _)) ?_
  by_contra hne
  rw [(h.deleted (Bool.not_eq_false _ ▸ hne)).2.2.2] at hg
  cases hg

theorem free (h : PortInv s) (hd : s.deleting = true) (ht : s.sockTree = [])
    (hq : s.sockDeletedQueue = []) (hg : s.pollGroups.queue = []) :
    PortInv ({ s with deleted := true }.check (s.sockUpdateQueue = [])) := by
  have hnil : s.sockUpdateQueue = [] := by
    refine List.eq_nil_iff_forall_not_mem.mpr fun k hk => ?_
    have hm := h.core.queued hk
    rw [ht] at hm
    cases hm
  have hc : PortCore { s with deleted := true } fun t => (s.wait t).hand :=
    h.core.same ⟨rfl, rfl, rfl, rfl, rfl, rfl, rfl, rfl⟩ rfl rfl rfl h.core.sound h.core.holds
      h.core.kept
  exact ⟨⟨hc.check (decide_eq_true hnil), h.nodup, h.polls, h.count, h.bounded, h.deleting,
    fun _ => ⟨hd, ht, hq, hg⟩⟩, h.emptied⟩

/-- While a thread is in `port__poll` the port is not deleted. -/
theorem open_of_poll (h : PortInv s) (ht : (s.wait t).InPoll) : s.deleting = false := by
  by_contra hne
  have hm := (h.polls t).mpr ht
  rw [h.deleting (Bool.not_eq_false _ ▸ hne)] at hm
  cases hm

theorem step (h : PortInv s) {a : PortAct} (hs : portStep s a = some s') : PortInv s' := by
  cases a with
  | ctlAdd socket ev data hasBase canCreate canAlloc answers =>
      obtain ⟨hd, hs⟩ := Option.ite_none_left_eq_some.mp hs
      cases hs
      exact h.ctlAdd (Bool.eq_false_of_not_eq_true hd) socket ev data hasBase canCreate canAlloc
        answers
  | ctlMod socket ev data answers =>
      obtain ⟨hd, hs⟩ := Option.ite_none_left_eq_some.mp hs
      cases hs
      exact h.ctlMod (Bool.eq_false_of_not_eq_true hd) socket ev data answers
  | ctlDel socket answer =>
      obtain ⟨hd, hs⟩ := Option.ite_none_left_eq_some.mp hs
      cases hs
      exact h.ctlDel (Bool.eq_false_of_not_eq_true hd) socket answer
  | wait t maxevents timeout canAlloc now answers exitAnswers =>
      obtain ⟨hd, hs⟩ := Option.ite_none_left_eq_some.mp hs
      have hd := Bool.eq_false_of_not_eq_true hd
      split at hs
      · next ht =>
          cases hs
          exact h.portWait hd (by rw [ht]; exact id) maxevents timeout canAlloc now answers
            exitAnswers
      · next ht =>
          cases hs
          exact h.portWait hd (by rw [ht]; exact id) maxevents timeout canAlloc now answers
            exitAnswers
      · cases hs
  | dequeue t n =>
      rw [portStep] at hs
      split at hs
      · next w ht =>
          obtain ⟨⟨-, hn, -⟩, hs⟩ := Option.ite_none_right_eq_some.mp hs
          cases hs
          exact h.dequeue (h.open_of_poll (t := t) (by rw [ht]; trivial)) ht hn
      · cases hs
  | timeOut t e =>
      rw [portStep] at hs
      split at hs
      · next w ht =>
          cases hs
          exact h.timeOut ht e
      · cases hs
  | leave t now answers exitAnswers =>
      rw [portStep] at hs
      split at hs
      · next w r ht =>
          cases hs
          exact h.pollLeave (h.open_of_poll (t := t) (by rw [ht]; trivial)) ht now answers
            exitAnswers
      · cases hs
  | complete k status numberOfHandles events =>
      rw [portStep] at hs
      split at hs
      · next hd hr =>
          cases hs
          exact h.complete hd hr status numberOfHandles events
      · cases hs
  | close =>
      cases hs
      exact h.close
  | delete =>
      obtain ⟨⟨hd, hp⟩, hs⟩ := Option.ite_none_right_eq_some.mp hs
      cases hs
      exact h.delete hp hd
  | deleteRoot k answer =>
      obtain ⟨⟨hd, hk⟩, hs⟩ := Option.ite_none_right_eq_some.mp hs
      cases hs
      exact h.deleteRoot hd hk answer
  | deleteFirst =>
      obtain ⟨⟨hd, -⟩, hs⟩ := Option.ite_none_right_eq_some.mp hs
      obtain ⟨k, hk, rfl⟩ := Option.map_eq_some_iff.mp hs
      exact h.deleteFirst hd (List.mem_of_head? hk) _
  | deleteGroup =>
      obtain ⟨⟨hd, ht, hq⟩, hs⟩ := Option.ite_none_right_eq_some.mp hs
      obtain ⟨g, hg, rfl⟩ := Option.map_eq_some_iff.mp hs
      exact h.deleteGroup hd ht hq (List.mem_of_head? hg)
  | free =>
      obtain ⟨⟨hd, -, ht, hq, hg⟩, hs⟩ := Option.ite_none_right_eq_some.mp hs
      cases hs
      exact h.free hd ht hq hg

end PortInv

theorem portInv_reached {s : Port} {C : Port → PortAct → Prop}
    (h : portMachine.Leads C .new s) : PortInv s :=
  h.invariant (fun _ _ _ hi _ hs => hi.step hs) .new

/-! ## Every run -/

/-- Whatever the driver does and whenever requests complete: no socket state is used after it
is freed, none is freed twice, the block of a request that the driver has is not used for
another one, and the assertions hold, those about `iocp_handle` where `PortUse` gives what they
ask for.  Until `port_delete`, the socket of every request that is on its way is allocated. -/
theorem port_memory_safe {s : Port} (h : portMachine.Leads Machine.Any .new s) :
    s.life.Sound ∧ s.failed = false ∧ s.pollGroups.failed = false ∧ s.overwritten = false ∧
      (s.deleting = false → ∀ k, s.request k ≠ .none → s.life.Live k) ∧
      (portMachine.Leads PortUse .new s → s.iocpFailed = false) := by
  have hi := portInv_reached h
  refine ⟨hi.core.sound, hi.core.holds, hi.core.groups.sound, hi.core.kept, fun hd k hr => ?_,
    iocp_asserted⟩
  obtain ht | hq := hi.core.requested hd hr
  · exact (hi.core.listed ht).2.2.1
  · exact (hi.core.doomed hq).2.2.2.1

def answered (_ : Nat) : AfdAnswer := ⟨none, none⟩

/-- A socket is removed while the driver has its request, which completes later. -/
def removeRun : List PortAct :=
  [.ctlAdd 5 epollin 9 true true true answered, .wait 1 4 (-1) true 0 answered answered,
    .ctlDel 5 (answered 0), .complete 0 statusCancelled 0 0, .dequeue 1 1,
    .leave 1 0 answered answered]

theorem port_memory_safe_remove :
    ∃ s, portMachine.Leads PortUse .new s ∧ s.life.freed 0 = true ∧ s.life.Sound ∧
      s.iocpFailed = false := by
  obtain ⟨s, hs, hf⟩ := Machine.exists_run (M := portMachine) (s := .new) (l := removeRun)
    (P := fun s => s.life.freed 0 = true) (by decide)
  have hl := Machine.leads_of_run (C := PortUse) removeRun _ s hs (by decide)
  have hsafe := port_memory_safe (Machine.leads_of_run removeRun _ s hs (Machine.runMeets_any _ _))
  exact ⟨s, hl, hf, hsafe.1, hsafe.2.2.2.2.2 hl⟩

/-- The port is closed while another thread adds its first socket. -/
example : (portMachine.run .new [.close, .ctlAdd 5 epollin 9 true true true answered]).map
    Port.iocpFailed = some true := by
  decide

/-- The driver looks for all that the user wants of a socket, or has been asked to give the
request back. -/
theorem Watched.wanted {x : SockState} {r : Request} (h : Watched x False r) :
    r ≠ .none ∧ ∀ ev, r = .driver ev → x.pollStatus = .cancelled ∨
      Covered (sockEpollEventsToAfdEvents x.userEvents) ev := by
  rw [Watched] at h
  cases hs : x.pollStatus with
  | idle =>
      rw [hs] at h
      exact absurd h.1 id
  | pending =>
      rw [hs] at h
      obtain ⟨hr, hm, hev⟩ := h
      refine ⟨hr, fun ev he => Or.inr ?_⟩
      rw [hev ev he, ← sockEpollEventsToAfdEvents_known (u := x.userEvents)]
      exact sockEpollEventsToAfdEvents_mono (hm.resolve_left id)
  | cancelled =>
      rw [hs] at h
      exact ⟨h, fun _ _ => Or.inl rfl⟩

/-- No event is lost: while a thread waits for packets and the last update went through, every
registered socket has a request with the driver or on its way back, and the driver looks for
all that the user wants, unless the request was cancelled to be made anew. -/
theorem port_watches {s : Port} (h : portMachine.Leads Machine.Any .new s) (hu : s.updated = true)
    (hp : s.polling ≠ []) {k : Nat} (hk : k ∈ s.sockTree) :
    s.request k ≠ .none ∧ ∀ ev, s.request k = .driver ev →
      (s.sock k).pollStatus = .cancelled ∨
        Covered (sockEpollEventsToAfdEvents (s.sock k).userEvents) ev := by
  have hi := portInv_reached h
  have hw := (hi.core.listed hk).2.2.2.2
  rw [hi.emptied hu hp, propext (iff_false_intro List.not_mem_nil)] at hw
  exact hw.wanted

/-- A thread waits for packets while another one asks for more events: the request is made
anew as soon as the first one is back. -/
def widenRun : List PortAct :=
  [.ctlAdd 5 epollin 9 true true true answered, .wait 1 4 (-1) true 0 answered answered,
    .ctlMod 5 (epollin ||| epollout) 9 answered, .complete 0 statusCancelled 0 0, .dequeue 1 1,
    .leave 1 0 answered answered]

theorem port_watches_widened :
    ∃ s, portMachine.Leads Machine.Any .new s ∧ (s.sock 0).pollStatus = .pending ∧
      ∀ ev, s.request 0 = .driver ev → (s.sock 0).pollStatus = .cancelled ∨
        Covered (sockEpollEventsToAfdEvents (s.sock 0).userEvents) ev := by
  obtain ⟨s, hs, hu, hp, hk, hq⟩ := Machine.exists_run (M := portMachine) (s := .new)
    (l := widenRun) (P := fun s => s.updated = true ∧ s.polling ≠ [] ∧ 0 ∈ s.sockTree ∧
      (s.sock 0).pollStatus = .pending) (by decide)
  have hl := Machine.leads_of_run widenRun _ s hs (Machine.runMeets_any _ _)
  exact ⟨s, hl, hq, (port_watches hl hu hp hk).2⟩

/-- What `port_wait` returns: as many events as it says, no more than there was room for, each
one asked for by its socket; and a socket with `EPOLLONESHOT` reports no more often than this
was asked for. -/
theorem port_wait_reports {s : Port} (h : portMachine.Leads Machine.Any .new s) :
    (∀ t maxevents r events, s.wait t = .returned maxevents r events →
      events.length ≤ maxevents.toNat ∧ (∀ ev ∈ events, Reported ev) ∧
        (r = events.length ∨ events = [] ∧ r = -1)) ∧
      ∀ k, (s.sock k).oneshots ≤ (s.sock k).oneshotsAsked := by
  have hi := portInv_reached h
  refine ⟨fun t maxevents r events ht => ?_, fun k => ?_⟩
  · have hb := hi.bounded t
    rw [ht] at hb
    exact hb
  · exact (Nat.le_add_right ..).trans (hi.core.sock k).armed

/-- An event is reported once, and a second one is not. -/
def oneshotRun : List PortAct :=
  [.ctlAdd 5 (epollin ||| epolloneshot) 9 true true true answered,
    .wait 1 4 (-1) true 0 answered answered, .complete 0 0 1 afdPollReceive, .dequeue 1 1,
    .leave 1 0 answered answered, .wait 1 4 (-1) true 0 answered answered]

theorem port_wait_reports_once :
    ∃ s, portMachine.Leads Machine.Any .new s ∧ (s.sock 0).oneshots = 1 ∧
      (s.sock 0).oneshots ≤ (s.sock 0).oneshotsAsked := by
  obtain ⟨s, hs, hone⟩ := Machine.exists_run (M := portMachine) (s := .new) (l := oneshotRun)
    (P := fun s => (s.sock 0).oneshots = 1) (by decide)
  have hl := Machine.leads_of_run oneshotRun _ s hs (Machine.runMeets_any _ _)
  exact ⟨s, hl, hone, (port_wait_reports hl).2 0⟩

/-- The sockets of a port share as few poll groups as they need: a group counts its sockets,
which are 32 at most, and there are no more groups than the most sockets so far have filled,
but for one.  A socket that `EPOLL_CTL_ADD` fails to register is one of them while the call
lasts. -/
theorem port_poll_groups {s : Port} (h : portMachine.Leads Machine.Any .new s) :
    (∀ g ∈ s.pollGroups.queue,
      s.pollGroups.size g = (s.socks.map fun k => (s.sock k).pollGroup).count g ∧
        s.pollGroups.size g ≤ pollGroupMaxGroupSize) ∧
      pollGroupMaxGroupSize * s.pollGroups.queue.length ≤
        s.pollGroups.peak + (pollGroupMaxGroupSize - 1) ∧
      (∀ k ∈ s.socks, (s.sock k).pollGroup ∈ s.pollGroups.queue) ∧
      ∃ full rest, s.pollGroups.queue = full ++ rest ∧
        (∀ g ∈ full, s.pollGroups.size g = pollGroupMaxGroupSize) ∧
        ∀ g ∈ rest, s.pollGroups.size g < pollGroupMaxGroupSize := by
  obtain ⟨hgroups, hheld⟩ := And.intro (portInv_reached h).core.groups (portInv_reached h).core.held
  refine ⟨fun g hg => ⟨?_, hgroups.size_le hg⟩, hgroups.spare, fun k hk => ?_, hgroups.sorted⟩
  · rw [hgroups.count g hg]
    exact hheld.count_eq g
  · exact hgroups.held _ (hheld.mem_iff.mpr (List.mem_map_of_mem hk))

/-- Two sockets in one group, of which one leaves again. -/
def groupRun : List PortAct :=
  [.ctlAdd 5 epollin 9 true true true answered, .ctlAdd 6 epollin 8 true true true answered,
    .ctlDel 5 (answered 0)]

theorem port_poll_groups_shared :
    ∃ s, portMachine.Leads Machine.Any .new s ∧ s.pollGroups.queue = [0] ∧
      s.pollGroups.size 0 = (s.socks.map fun k => (s.sock k).pollGroup).count 0 := by
  obtain ⟨s, hs, hq⟩ := Machine.exists_run (M := portMachine) (s := .new) (l := groupRun)
    (P := fun s => s.pollGroups.queue = [0]) (by decide)
  have hl := Machine.leads_of_run groupRun _ s hs (Machine.runMeets_any _ _)
  exact ⟨s, hl, hq, ((port_poll_groups hl).1 0 (hq ▸ List.mem_singleton_self 0)).1⟩

/-! ## `port_delete` -/

/-- A step of `port_delete`. -/
def PortAct.Turn : PortAct → Prop
  | .deleteRoot _ _ | .deleteFirst | .deleteGroup | .free => True
  | .ctlAdd _ _ _ _ _ _ _ | .ctlMod _ _ _ _ | .ctlDel _ _ | .wait _ _ _ _ _ _ _
  | .dequeue _ _ | .timeOut _ _ | .leave _ _ _ _ | .complete _ _ _ _ | .close | .delete => False

/-- What is left for `port_delete` to do. -/
def Port.left (s : Port) : Nat :=
  s.sockTree.length + s.sockDeletedQueue.length + s.pollGroups.queue.length +
    if s.deleted then 0 else 1

namespace PollGroups

theorem length_release {s : PollGroups} {g : Nat} (hg : g ∈ s.queue) :
    (s.release g).queue.length = s.queue.length := by
  have hpos := List.length_pos_of_mem hg
  show (s.queue.erase g ++ [g]).length = _
  rw [List.length_append, List.length_erase_of_mem hg, List.length_singleton]
  exact Nat.sub_add_cancel hpos

end PollGroups

namespace PortInv

variable {s s' : Port} {k : Nat}

/-- The poll group of a socket that is allocated. -/
theorem group (h : PortInv s) (hk : k ∈ s.socks) : (s.sock k).pollGroup ∈ s.pollGroups.queue :=
  h.core.groups.held _ (h.core.held.mem_iff.mpr (List.mem_map_of_mem hk))

/-- Every turn of a loop of `port_delete` leaves less to do. -/
theorem turn (h : PortInv s) (hd : s.deleting = true) {a : PortAct} (ha : a.Turn)
    (hs : portStep s a = some s') : (PortInv s' ∧ s'.deleting = true) ∧ s'.left < s.left := by
  cases a with
  | deleteRoot k answer =>
      obtain ⟨⟨-, hk⟩, hs⟩ := Option.ite_none_right_eq_some.mp hs
      cases hs
      obtain ⟨hmem, hdel, hlive, hp, -⟩ := h.core.listed hk
      refine ⟨⟨h.deleteRoot hd hk answer,
        (h.core.sockDelete hk (fun _ => hd) answer).2.1.deleting.trans hd⟩, ?_⟩
      obtain ⟨e, x, hx, heq⟩ := Port.sockDelete_listed hlive hp hdel h.core.distinct.update true
        answer
      rw [heq, if_pos (Or.inl rfl)]
      have hg := PollGroups.length_release (hx.pollGroup ▸ h.group hmem)
      have hpos := List.length_pos_of_mem hk
      simp only [Port.left, Port.afterFree, hg, List.length_erase_of_mem hk,
        List.erase_of_not_mem hdel]
      omega
  | deleteFirst =>
      obtain ⟨⟨-, ht⟩, hs⟩ := Option.ite_none_right_eq_some.mp hs
      obtain ⟨k, hk, rfl⟩ := Option.map_eq_some_iff.mp hs
      have hk := List.mem_of_head? hk
      obtain ⟨hmem, htree, hu, hlive, hp, -⟩ := h.core.doomed hk
      refine ⟨⟨h.deleteFirst hd hk _, (h.sockDelete_still hk _).deleting.trans hd⟩, ?_⟩
      rw [Port.sockDelete_doomed hlive hp htree hu (Or.inl rfl)]
      have hg := PollGroups.length_release (h.group hmem)
      have hpos := List.length_pos_of_mem hk
      simp only [Port.left, Port.afterFree, hg, List.length_erase_of_mem hk,
        List.erase_of_not_mem htree]
      omega
  | deleteGroup =>
      obtain ⟨⟨-, ht, hq⟩, hs⟩ := Option.ite_none_right_eq_some.mp hs
      obtain ⟨g, hg, rfl⟩ := Option.map_eq_some_iff.mp hs
      have hg := List.mem_of_head? hg
      refine ⟨⟨h.deleteGroup hd ht hq hg, hd⟩, ?_⟩
      have hpos := List.length_pos_of_mem hg
      simp only [Port.left, PollGroups.delete, List.length_erase_of_mem hg]
      omega
  | free =>
      obtain ⟨⟨-, hnot, ht, hq, hg⟩, hs⟩ := Option.ite_none_right_eq_some.mp hs
      cases hs
      refine ⟨⟨h.free hd ht hq hg, hd⟩, ?_⟩
      rw [Port.left, Port.left, hnot]
      exact Nat.add_lt_add_left Nat.zero_lt_one _
  | ctlAdd | ctlMod | ctlDel | wait | dequeue | timeOut | leave | complete | close | delete =>
      exact ha.elim

/-- Until it is done, `port_delete` has a next step. -/
theorem next_turn (hd : s.deleting = true) (hnot : s.deleted = false) :
    ∃ a, PortAct.Turn a ∧ (portStep s a).isSome := by
  cases ht : s.sockTree with
  | cons k _ =>
      refine ⟨.deleteRoot k (answered k), trivial, ?_⟩
      rw [portStep, if_pos ⟨hd, ht ▸ List.mem_cons_self⟩]
      rfl
  | nil =>
      cases hq : s.sockDeletedQueue with
      | cons k _ =>
          refine ⟨.deleteFirst, trivial, ?_⟩
          rw [portStep, if_pos ⟨hd, ht⟩, hq]
          rfl
      | nil =>
          cases hg : s.pollGroups.queue with
          | cons g _ =>
              refine ⟨.deleteGroup, trivial, ?_⟩
              rw [portStep, if_pos ⟨hd, ht, hq⟩, hg]
              rfl
          | nil =>
              refine ⟨.free, trivial, ?_⟩
              rw [portStep, if_pos ⟨hd, hnot, ht, hq, hg⟩]
              rfl

/-- When `port_delete` is done, every socket state is freed. -/
theorem all_freed (h : PortInv s) (hdone : s.deleted = true) :
    s.socks = [] ∧ ∀ k < s.next, s.life.freed k = true := by
  obtain ⟨-, ht, hq, -⟩ := h.deleted hdone
  have hsocks := (h.held_nil ht hq).1
  refine ⟨hsocks, fun k hk => ?_⟩
  cases (h.core.sock k).stage with
  | listed hs | doomed hs =>
      rw [hsocks] at hs
      cases hs
  | gone _ _ _ _ _ hf => exact hf.resolve_left (Nat.not_le.mpr hk)

end PortInv

/-- `port_delete` comes to an end, after as many steps at most as there are sockets and poll
groups, in whatever order it takes the sockets; and then all of them are freed. -/
theorem port_delete_ends {s s' : Port} {as : List PortAct}
    (h : portMachine.Leads Machine.Any .new s) (hd : s.deleting = true) (has : ∀ a ∈ as, a.Turn)
    (hs : portMachine.run s as = some s') :
    as.length ≤ s.sockTree.length + s.sockDeletedQueue.length + s.pollGroups.queue.length + 1 ∧
      (s'.deleted = false → ∃ a, PortAct.Turn a ∧ (portStep s' a).isSome) ∧
      (s'.deleted = true → s'.socks = [] ∧ s'.pollGroups.queue = [] ∧
        ∀ k < s'.next, s'.life.freed k = true) := by
  obtain ⟨⟨hi, hd'⟩, hlen⟩ := Machine.length_le_of_rank_of (M := portMachine)
    (I := fun s => PortInv s ∧ s.deleting = true) (r := Port.left)
    (fun _ _ _ hi ha hs => hi.1.turn hi.2 ha hs) ⟨portInv_reached h, hd⟩ has hs
  refine ⟨?_, fun hnot => PortInv.next_turn hd' hnot, fun hdone => ?_⟩
  · refine ((Nat.le_add_right ..).trans hlen).trans (Nat.add_le_add_left ?_ _)
    split
    · exact Nat.zero_le 1
    · exact Nat.le_refl 1
  · obtain ⟨hsocks, hfreed⟩ := hi.all_freed hdone
    exact ⟨hsocks, (hi.deleted hdone).2.2.2, hfreed⟩

/-- A port with two sockets, of which one was deleted while the driver had its request. -/
def abandonRun : List PortAct :=
  [.ctlAdd 5 epollin 9 true true true answered, .ctlAdd 6 epollin 8 true true true answered,
    .wait 1 4 (-1) true 0 answered answered, .ctlDel 5 (answered 0), .timeOut 1 waitTimeout,
    .leave 1 0 answered answered, .close, .delete]

/-- What `port_delete` does with it. -/
def deleteRun : List PortAct := [.deleteRoot 1 (answered 1), .deleteFirst, .deleteGroup, .free]

theorem port_delete_ends_abandoned :
    ∃ s s', portMachine.Leads Machine.Any .new s ∧ portMachine.run s deleteRun = some s' ∧
      ∀ k < s'.next, s'.life.freed k = true := by
  obtain ⟨s, hs, hd, hr⟩ := Machine.exists_run (M := portMachine) (s := .new) (l := abandonRun)
    (P := fun s => s.deleting = true ∧
      (portMachine.run s deleteRun).map (fun s => decide (s.deleted = true)) = some true)
    (by decide)
  obtain ⟨s', hs', hdone⟩ := Machine.exists_run hr
  have hl := Machine.leads_of_run abandonRun _ s hs (Machine.runMeets_any _ _)
  have hturn : ∀ a ∈ deleteRun, a.Turn := by
    intro a ha
    fin_cases ha <;> trivial
  exact ⟨s, s', hl, hs', ((port_delete_ends hl hd hturn hs').2.2 hdone).2.2⟩

end Ztk.Wepoll
