import Ztk.Wepoll.Port

/-!
# What a port keeps

The invariant of a port while a thread has its lock: where each `sock_state_t` stands, what
becomes of its request, and that the poll groups count the sockets.  `hand` has the packets
that each thread has taken and not looked at yet, so that the invariant also holds in the
middle of `port__feed_events`.

A function that looks after one socket leaves the others alone (`Port.Apart`); from this the
invariant follows for all of them (`PortCore.touch`).
-/

namespace Ztk.Wepoll

open Ztk.Lib

/-! ## The invariant -/

/-- A registered socket has a request or waits for one, and the request asks for all that the
user wants, unless it is cancelled or the socket waits for an update. -/
def Watched (x : SockState) (queued : Prop) (r : Request) : Prop :=
  match x.pollStatus with
  | .idle => queued ∧ r = .none
  | .pending =>
      r ≠ .none ∧ (queued ∨ x.Monitored) ∧
        ∀ ev, r = .driver ev → ev = sockEpollEventsToAfdEvents x.pendingEvents
  | .cancelled => r ≠ .none

namespace Watched

variable {x y : SockState} {p q : Prop} {r : Request}

/-- The user wants other events, and the socket waits for an update. -/
theorem queue (h : Watched x p r) (hs : y.pollStatus = x.pollStatus)
    (hp : y.pendingEvents = x.pendingEvents) (hq : q) : Watched y q r := by
  revert h
  rw [Watched, Watched, hs, hp]
  cases x.pollStatus with
  | idle => exact fun h => ⟨hq, h.2⟩
  | pending => exact fun h => ⟨h.1, Or.inl hq, h.2.2⟩
  | cancelled => exact id

/-- The user wants other events, and the pending poll monitors them. -/
theorem monitored (h : Watched x p r) (hs : y.pollStatus = x.pollStatus)
    (hp : y.pendingEvents = x.pendingEvents) (hm : y.Monitored) : Watched y p r := by
  revert h
  rw [Watched, Watched, hs, hp]
  cases x.pollStatus with
  | idle => exact id
  | pending => exact fun h => ⟨h.1, Or.inr hm, h.2.2⟩
  | cancelled => exact id

/-- Nothing that matters here was written. -/
theorem congr (h : Watched x p r) (hs : y.pollStatus = x.pollStatus)
    (hp : y.pendingEvents = x.pendingEvents) (hu : y.userEvents = x.userEvents) :
    Watched y p r := by
  revert h
  simp only [Watched, SockState.Monitored, hs, hp, hu]
  exact id

/-- A request that is with the driver or on its way need not wait. -/
theorem unqueue (h : Watched x p r) (hs : x.pollStatus = .cancelled ∨
    x.pollStatus = .pending ∧ x.Monitored) : Watched x q r := by
  revert h
  simp only [Watched]
  obtain hs | ⟨hs, hm⟩ := hs
  · rw [hs]
    exact id
  · rw [hs]
    exact fun h => ⟨h.1, Or.inr hm, h.2.2⟩

/-- The request has left the driver. -/
theorem sent (h : Watched x p r) (hr : r ≠ .none) {r' : Request} (hr' : r' ≠ .none)
    (hd : ∀ ev, r' ≠ .driver ev) : Watched x p r' := by
  revert h
  rw [Watched, Watched]
  cases x.pollStatus with
  | idle => exact fun h => absurd h.2 hr
  | pending => exact fun h => ⟨hr', h.2.1, fun ev he => absurd he (hd ev)⟩
  | cancelled => exact fun _ => hr'

theorem idle (h : Watched x p r) (hs : x.pollStatus = .idle) : r = .none := by
  rw [Watched, hs] at h
  exact h.2

theorem busy (h : Watched x p r) (hs : x.pollStatus ≠ .idle) : r ≠ .none := by
  revert h hs
  rw [Watched]
  cases x.pollStatus with
  | idle => exact fun _ hs => absurd rfl hs
  | pending => exact fun h _ => h.1
  | cancelled => exact fun h _ => h

end Watched

/-- `EPOLLONESHOT` that is still armed was asked for once more than it was reported. -/
def Armed (x : SockState) : Prop :=
  x.oneshots + (if Shares x.userEvents epolloneshot then 1 else 0) ≤ x.oneshotsAsked

/-- Where a `sock_state_t` stands. -/
inductive SockStage (s : Port) (k : Nat) : Prop where
  | listed (hs : k ∈ s.socks) (ht : k ∈ s.sockTree) (hd : k ∉ s.sockDeletedQueue)
      (hf : s.life.Live k) (hp : (s.sock k).deletePending = false)
      (hw : Watched (s.sock k) (k ∈ s.sockUpdateQueue) (s.request k))
  /-- Deleted while the driver had a request. -/
  | doomed (hs : k ∈ s.socks) (ht : k ∉ s.sockTree) (hd : k ∈ s.sockDeletedQueue)
      (hu : k ∉ s.sockUpdateQueue) (hf : s.life.Live k) (hp : (s.sock k).deletePending = true)
      (hr : s.request k ≠ .none)
  | gone (hs : k ∉ s.socks) (ht : k ∉ s.sockTree) (hd : k ∉ s.sockDeletedQueue)
      (hu : k ∉ s.sockUpdateQueue) (hr : s.deleting = false → s.request k = .none)
      (hf : s.next ≤ k ∨ s.life.freed k = true)

structure SockInv (s : Port) (hand : Nat → List Nat) (k : Nat) : Prop where
  packet : k ∈ s.packets ↔ s.request k = .completed
  hands : ∀ t, k ∈ hand t ↔ s.request k = .taken t
  fresh : s.next ≤ k → k ∉ s.socks ∧ s.life.Live k ∧ s.request k = .none
  armed : Armed (s.sock k)
  stage : SockStage s k

/-- Nothing is in a list twice. -/
structure PortDistinct (tree update deleted socks packets : List Nat) : Prop where
  tree : tree.Nodup
  update : update.Nodup
  deleted : deleted.Nodup
  socks : socks.Nodup
  packets : packets.Nodup

structure PortCore (s : Port) (hand : Nat → List Nat) : Prop where
  sound : s.life.Sound
  holds : s.failed = false
  kept : s.overwritten = false
  groups : GroupsInv s.pollGroups
  held : s.pollGroups.held.Perm (s.socks.map fun k => (s.sock k).pollGroup)
  distinct : PortDistinct s.sockTree s.sockUpdateQueue s.sockDeletedQueue s.socks s.packets
  hands : ∀ t, (hand t).Nodup
  sock : ∀ k, SockInv s hand k

/-! ## The sockets that a function leaves alone -/

/-- A function leaves the socket `q` alone. -/
structure Port.Apart (s s' : Port) (q : Nat) : Prop where
  next : s'.next ≤ q ↔ s.next ≤ q
  deleting : s'.deleting = s.deleting
  sock : s'.sock q = s.sock q
  request : s'.request q = s.request q
  freed : s'.life.freed q = s.life.freed q
  tree : q ∈ s'.sockTree ↔ q ∈ s.sockTree
  update : q ∈ s'.sockUpdateQueue ↔ q ∈ s.sockUpdateQueue
  deleted : q ∈ s'.sockDeletedQueue ↔ q ∈ s.sockDeletedQueue
  socks : q ∈ s'.socks ↔ q ∈ s.socks
  packets : q ∈ s'.packets ↔ q ∈ s.packets

namespace Port.Apart

variable {s s' : Port} {q : Nat} {hand hand' : Nat → List Nat}

theorem live (h : s.Apart s' q) (hf : s.life.Live q) : s'.life.Live q := h.freed.trans hf

theorem stage (h : s.Apart s' q) (hs : SockStage s q) : SockStage s' q := by
  cases hs with
  | listed hs ht hd hf hp hw =>
      exact .listed (h.socks.mpr hs) (h.tree.mpr ht) (fun hm => hd (h.deleted.mp hm)) (h.live hf)
        (h.sock ▸ hp) (by rw [h.sock, h.request, propext h.update]; exact hw)
  | doomed hs ht hd hu hf hp hr =>
      exact .doomed (h.socks.mpr hs) (fun hm => ht (h.tree.mp hm)) (h.deleted.mpr hd)
        (fun hm => hu (h.update.mp hm)) (h.live hf) (h.sock ▸ hp) (h.request ▸ hr)
  | gone hs ht hd hu hr hf =>
      exact .gone (fun hm => hs (h.socks.mp hm)) (fun hm => ht (h.tree.mp hm))
        (fun hm => hd (h.deleted.mp hm)) (fun hm => hu (h.update.mp hm))
        (fun hn => h.request.trans (hr (h.deleting ▸ hn)))
        (hf.imp h.next.mpr h.freed.trans)

theorem inv (h : s.Apart s' q) (hh : ∀ t, q ∈ hand' t ↔ q ∈ hand t) (hs : SockInv s hand q) :
    SockInv s' hand' q where
  packet := by rw [h.packets, h.request, hs.packet]
  hands t := by rw [hh, h.request, hs.hands]
  fresh hn := by
    obtain ⟨hm, hf, hr⟩ := hs.fresh (h.next.mp hn)
    exact ⟨fun he => hm (h.socks.mp he), h.live hf, h.request.trans hr⟩
  armed := h.sock ▸ hs.armed
  stage := h.stage hs.stage

end Port.Apart

namespace PortCore

variable {s s' : Port} {k : Nat} {hand hand' : Nat → List Nat}

/-- A function that looks after one socket. -/
theorem touch (h : PortCore s hand) (ha : ∀ q, q ≠ k → s.Apart s' q)
    (hh : ∀ q, q ≠ k → ∀ t, q ∈ hand' t ↔ q ∈ hand t) (hsound : s'.life.Sound)
    (hholds : s'.failed = false) (hkept : s'.overwritten = false)
    (hgroups : GroupsInv s'.pollGroups)
    (hheld : s'.pollGroups.held.Perm (s'.socks.map fun k => (s'.sock k).pollGroup))
    (hdistinct : PortDistinct s'.sockTree s'.sockUpdateQueue s'.sockDeletedQueue s'.socks
      s'.packets)
    (hhands : ∀ t, (hand' t).Nodup) (hk : SockInv s' hand' k) : PortCore s' hand' where
  sound := hsound
  holds := hholds
  kept := hkept
  groups := hgroups
  held := hheld
  distinct := hdistinct
  hands := hhands
  sock q := by
    by_cases hq : q = k
    · exact hq ▸ hk
    · exact (ha q hq).inv (hh q hq) (h.sock q)

/-! ### What the place of a socket tells -/

theorem listed (h : PortCore s hand) (hk : k ∈ s.sockTree) :
    k ∈ s.socks ∧ k ∉ s.sockDeletedQueue ∧ s.life.Live k ∧
      (s.sock k).deletePending = false ∧
      Watched (s.sock k) (k ∈ s.sockUpdateQueue) (s.request k) := by
  cases (h.sock k).stage with
  | listed hs _ hd hf hp hw => exact ⟨hs, hd, hf, hp, hw⟩
  | doomed _ ht | gone _ ht => exact absurd hk ht

theorem doomed (h : PortCore s hand) (hk : k ∈ s.sockDeletedQueue) :
    k ∈ s.socks ∧ k ∉ s.sockTree ∧ k ∉ s.sockUpdateQueue ∧ s.life.Live k ∧
      (s.sock k).deletePending = true ∧ s.request k ≠ .none := by
  cases (h.sock k).stage with
  | listed _ _ hd | gone _ _ hd => exact absurd hk hd
  | doomed hs ht _ hu hf hp hr => exact ⟨hs, ht, hu, hf, hp, hr⟩

/-- Only a registered socket waits for an update. -/
theorem queued (h : PortCore s hand) (hk : k ∈ s.sockUpdateQueue) : k ∈ s.sockTree := by
  cases (h.sock k).stage with
  | listed _ ht => exact ht
  | doomed _ _ _ hu | gone _ _ _ hu => exact absurd hk hu

/-- A request belongs to a socket that is allocated, until `port_delete`. -/
theorem requested (h : PortCore s hand) (hd : s.deleting = false) (hr : s.request k ≠ .none) :
    k ∈ s.sockTree ∨ k ∈ s.sockDeletedQueue := by
  cases (h.sock k).stage with
  | listed _ ht => exact Or.inl ht
  | doomed _ _ hm => exact Or.inr hm
  | gone _ _ _ _ hnone => exact absurd (hnone hd) hr

theorem old (h : PortCore s hand) (hk : k ∈ s.socks) : k < s.next := by
  by_contra hn
  exact ((h.sock k).fresh (Nat.not_lt.mp hn)).1 hk

end PortCore

/-! ## The queues -/

namespace Port

variable {s : Port} {k : Nat}

theorem isEnqueued_iff :
    s.isEnqueued k = true ↔ k ∈ s.sockUpdateQueue ∨ k ∈ s.sockDeletedQueue :=
  decide_eq_true_iff

theorem requestSocketUpdate_eq (hd : k ∉ s.sockDeletedQueue) :
    s.requestSocketUpdate k = { s with
      sockUpdateQueue :=
        if k ∈ s.sockUpdateQueue then s.sockUpdateQueue else s.sockUpdateQueue ++ [k] } := by
  by_cases hu : k ∈ s.sockUpdateQueue
  · rw [if_pos hu, requestSocketUpdate, if_pos (isEnqueued_iff.mpr (Or.inl hu))]
  · rw [if_neg hu, requestSocketUpdate, if_neg]
    exact fun he => (isEnqueued_iff.mp he).elim hu hd

theorem queueRemove_eq : (if s.isEnqueued k then s.queueRemove k else s) = s.queueRemove k := by
  by_cases he : s.isEnqueued k
  · rw [if_pos he]
  · rw [if_neg he]
    obtain ⟨hu, hd⟩ := not_or.mp fun h => he (isEnqueued_iff.mpr h)
    rw [queueRemove, List.erase_of_not_mem hu, List.erase_of_not_mem hd]

theorem cancelSocketUpdate_eq (hd : k ∉ s.sockDeletedQueue) :
    s.cancelSocketUpdate k = { s with sockUpdateQueue := s.sockUpdateQueue.erase k } := by
  rw [cancelSocketUpdate, queueRemove_eq, queueRemove, List.erase_of_not_mem hd]

theorem removeDeletedSocket_eq (hu : k ∉ s.sockUpdateQueue) :
    s.removeDeletedSocket k = { s with sockDeletedQueue := s.sockDeletedQueue.erase k } := by
  rw [removeDeletedSocket, queueRemove_eq, queueRemove, List.erase_of_not_mem hu]

theorem addDeletedSocket_eq (hu : k ∉ s.sockUpdateQueue) :
    s.addDeletedSocket k = { s with
      sockDeletedQueue :=
        if k ∈ s.sockDeletedQueue then s.sockDeletedQueue else s.sockDeletedQueue ++ [k] } := by
  by_cases hd : k ∈ s.sockDeletedQueue
  · rw [if_pos hd, addDeletedSocket, if_pos (isEnqueued_iff.mpr (Or.inr hd))]
  · rw [if_neg hd, addDeletedSocket, if_neg]
    exact fun he => (isEnqueued_iff.mp he).elim hu hd

end Port

/-- A queue after `queue_append`, if the node is in none. -/
theorem mem_appendNew {l : List Nat} {k q : Nat} :
    q ∈ (if k ∈ l then l else l ++ [k]) ↔ q ∈ l ∨ q = k := by
  by_cases hk : k ∈ l
  · rw [if_pos hk]
    exact ⟨Or.inl, fun h => h.elim id fun he => he ▸ hk⟩
  · rw [if_neg hk, List.mem_append, List.mem_singleton]

theorem nodup_appendNew {l : List Nat} {k : Nat} (h : l.Nodup) :
    (if k ∈ l then l else l ++ [k]).Nodup := by
  by_cases hk : k ∈ l
  · rw [if_pos hk]
    exact h
  · rw [if_neg hk]
    exact List.nodup_append.mpr ⟨h, List.nodup_singleton k, fun a ha b hb he =>
      hk (List.mem_singleton.mp hb ▸ he ▸ ha)⟩

/-! ## Registered sockets -/

/-- A function that moves no socket, and frees none. -/
structure Port.Keeps (s s' : Port) : Prop where
  next : s'.next = s.next
  deleting : s'.deleting = s.deleting
  tree : s'.sockTree = s.sockTree
  deleted : s'.sockDeletedQueue = s.sockDeletedQueue
  socks : s'.socks = s.socks
  packets : s'.packets = s.packets
  groups : s'.pollGroups = s.pollGroups
  freed : s'.life.freed = s.life.freed

theorem Port.Keeps.apart {s s' : Port} (h : s.Keeps s') {q : Nat} (hsock : s'.sock q = s.sock q)
    (hrequest : s'.request q = s.request q)
    (hupdate : q ∈ s'.sockUpdateQueue ↔ q ∈ s.sockUpdateQueue) : s.Apart s' q where
  next := by rw [h.next]
  deleting := h.deleting
  sock := hsock
  request := hrequest
  freed := by rw [h.freed]
  tree := by rw [h.tree]
  update := hupdate
  deleted := by rw [h.deleted]
  socks := by rw [h.socks]
  packets := by rw [h.packets]

namespace PortCore

variable {s s' : Port} {k : Nat} {hand hand' : Nat → List Nat}

/-- A registered socket stays registered. -/
theorem relist {u : Port} (h : PortCore s hand) (ht : k ∈ s.sockTree) (hs : s.Keeps u)
    {x : SockState} (hself : u.sock k = x) (hsock : ∀ q, q ≠ k → u.sock q = s.sock q)
    (hrequest : ∀ q, q ≠ k → u.request q = s.request q)
    (hupdate : ∀ q, q ≠ k → (q ∈ u.sockUpdateQueue ↔ q ∈ s.sockUpdateQueue))
    (hnodup : u.sockUpdateQueue.Nodup) (hsound : u.life.Sound) (hholds : u.failed = false)
    (hkept : u.overwritten = false) (hgroup : x.pollGroup = (s.sock k).pollGroup)
    (hpending : x.deletePending = false) (harmed : Armed x)
    (hw : Watched x (k ∈ u.sockUpdateQueue) (u.request k))
    (hpacket : k ∈ s.packets ↔ u.request k = .completed)
    (hhand : ∀ t, k ∈ hand' t ↔ u.request k = .taken t)
    (hother : ∀ q, q ≠ k → ∀ t, q ∈ hand' t ↔ q ∈ hand t) (hhands : ∀ t, (hand' t).Nodup) :
    PortCore u hand' := by
  subst hself
  obtain ⟨hmem, hdel, hlive, -, -⟩ := h.listed ht
  have hgroups : ∀ q, (u.sock q).pollGroup = (s.sock q).pollGroup := by
    intro q
    by_cases hq : q = k
    · rw [hq, hgroup]
    · rw [hsock q hq]
  refine h.touch (fun q hq => hs.apart (hsock q hq) (hrequest q hq) (hupdate q hq)) hother hsound
    hholds hkept (hs.groups ▸ h.groups) ?_ ?_ hhands ?_
  · rw [hs.groups, hs.socks, List.map_congr_left fun q _ => hgroups q]
    exact h.held
  · exact ⟨hs.tree ▸ h.distinct.tree, hnodup, hs.deleted ▸ h.distinct.deleted,
      hs.socks ▸ h.distinct.socks, hs.packets ▸ h.distinct.packets⟩
  · refine ⟨hs.packets ▸ hpacket, hhand, fun hn => ?_, harmed,
      .listed (hs.socks ▸ hmem) (hs.tree ▸ ht) (hs.deleted ▸ hdel) ?_ hpending hw⟩
    · exact absurd (h.old hmem) (Nat.not_lt.mpr (hs.next ▸ hn))
    · exact (congrFun hs.freed k).trans hlive

/-- A registered socket whose request stays where it is. -/
theorem rewrite (h : PortCore s hand) (ht : k ∈ s.sockTree) (hs : s.Keeps s') {x : SockState}
    (hself : s'.sock k = x) (hsock : ∀ q, q ≠ k → s'.sock q = s.sock q)
    (hrequest : s'.request = s.request)
    (hupdate : ∀ q, q ≠ k → (q ∈ s'.sockUpdateQueue ↔ q ∈ s.sockUpdateQueue))
    (hnodup : s'.sockUpdateQueue.Nodup) (hsound : s'.life.Sound) (hholds : s'.failed = false)
    (hkept : s'.overwritten = false) (hgroup : x.pollGroup = (s.sock k).pollGroup)
    (hpending : x.deletePending = false) (harmed : Armed x)
    (hw : Watched x (k ∈ s'.sockUpdateQueue) (s.request k)) : PortCore s' hand :=
  h.relist ht hs hself hsock (fun _ _ => by rw [hrequest]) hupdate hnodup hsound hholds hkept
    hgroup hpending harmed (by rw [hrequest]; exact hw)
    (by rw [hrequest]; exact (h.sock k).packet)
    (fun t => by rw [hrequest]; exact (h.sock k).hands t) (fun _ _ _ => Iff.rfl) h.hands

/-- A function that touches no socket. -/
theorem same (h : PortCore s hand) (hs : s.Keeps s') (hsock : s'.sock = s.sock)
    (hrequest : s'.request = s.request) (hupdate : s'.sockUpdateQueue = s.sockUpdateQueue)
    (hsound : s'.life.Sound) (hholds : s'.failed = false) (hkept : s'.overwritten = false) :
    PortCore s' hand where
  sound := hsound
  holds := hholds
  kept := hkept
  groups := hs.groups ▸ h.groups
  held := by
    rw [hs.groups, hs.socks, hsock]
    exact h.held
  distinct := ⟨hs.tree ▸ h.distinct.tree, hupdate ▸ h.distinct.update,
    hs.deleted ▸ h.distinct.deleted, hs.socks ▸ h.distinct.socks, hs.packets ▸ h.distinct.packets⟩
  hands := h.hands
  sock q :=
    (hs.apart (by rw [hsock]) (by rw [hrequest]) (by rw [hupdate])).inv (fun _ => Iff.rfl)
      (h.sock q)

/-- An assertion that holds. -/
theorem check (h : PortCore s hand) {c : Bool} (hc : c = true) : PortCore (s.check c) hand := by
  refine h.same ⟨rfl, rfl, rfl, rfl, rfl, rfl, rfl, rfl⟩ rfl rfl rfl h.sound ?_ h.kept
  show (s.failed || !c) = false
  rw [h.holds, hc]
  rfl

end PortCore

namespace Port

variable {s : Port} {k : Nat}

@[simp] theorem setSock_self {x : SockState} : (s.setSock k x).sock k = x :=
  Function.update_self ..

theorem setSock_of_ne {x : SockState} {q : Nat} (hq : q ≠ k) :
    (s.setSock k x).sock q = s.sock q :=
  Function.update_of_ne hq ..

end Port

namespace PortCore

variable {s s' : Port} {k : Nat} {hand hand' : Nat → List Nat}

/-- The user asks for other events. -/
theorem sockSetEvent (h : PortCore s hand) (ht : k ∈ s.sockTree) (ev : BitVec 32) (data : Nat) :
    PortCore (s.sockSetEvent k ev data) hand := by
  obtain ⟨-, hdel, hlive, hp, hw⟩ := h.listed ht
  have harmed : Armed ((s.sock k).setEvent ev data) :=
    Nat.add_le_add_right (le_trans (Nat.le_add_right ..) (h.sock k).armed) _
  rw [Port.sockSetEvent, Port.setSock_self]
  split
  · rw [Port.requestSocketUpdate_eq (s := s.setSock k _) hdel]
    exact h.rewrite ht ⟨rfl, rfl, rfl, rfl, rfl, rfl, rfl, rfl⟩ Port.setSock_self
      (fun q hq => Port.setSock_of_ne hq) rfl (fun q hq => mem_appendNew.trans (or_iff_left hq))
      (nodup_appendNew h.distinct.update) (h.sound.use hlive) h.holds h.kept rfl hp harmed
      (hw.queue rfl rfl (mem_appendNew.mpr (Or.inr rfl)))
  · next hm =>
      exact h.rewrite ht ⟨rfl, rfl, rfl, rfl, rfl, rfl, rfl, rfl⟩ Port.setSock_self
        (fun q hq => Port.setSock_of_ne hq) rfl (fun q hq => Iff.rfl) h.distinct.update
        (h.sound.use hlive) h.holds h.kept rfl hp harmed
        (hw.monitored rfl rfl (not_not.mp hm))

/-! ## Sockets that are freed -/

/-- The socket leaves its group, the tree and the queues, and is freed. -/
theorem free {u : Port} (h : PortCore s hand) (hk : k ∈ s.socks)
    (hnext : u.next = s.next) (hdeleting : u.deleting = s.deleting)
    (htree : u.sockTree = s.sockTree.erase k)
    (hupdate : u.sockUpdateQueue = s.sockUpdateQueue.erase k)
    (hdeleted : u.sockDeletedQueue = s.sockDeletedQueue.erase k)
    (hsocks : u.socks = s.socks.erase k) (hpackets : u.packets = s.packets)
    (hgroups : u.pollGroups = s.pollGroups.release (s.sock k).pollGroup)
    (hlife : u.life = s.life.free k) (hsock : ∀ q, q ≠ k → u.sock q = s.sock q)
    (harmed : Armed (u.sock k)) (hrequest : ∀ q, q ≠ k → u.request q = s.request q)
    (hholds : u.failed = false) (hkept : u.overwritten = false)
    (hnone : s.deleting = false → u.request k = .none)
    (hpacket : k ∈ s.packets ↔ u.request k = .completed)
    (hhand : ∀ t, k ∈ hand' t ↔ u.request k = .taken t)
    (hother : ∀ q, q ≠ k → ∀ t, q ∈ hand' t ↔ q ∈ hand t) (hhands : ∀ t, (hand' t).Nodup) :
    PortCore u hand' := by
  have hlive : s.life.Live k := by
    cases (h.sock k).stage with
    | listed _ _ _ hf | doomed _ _ _ _ hf => exact hf
    | gone hs => exact absurd hk hs
  have hgroup : (s.sock k).pollGroup ∈ s.pollGroups.held :=
    h.held.mem_iff.mpr (List.mem_map_of_mem hk)
  have hmem : ∀ {l : List Nat} {q : Nat}, q ≠ k → (q ∈ l.erase k ↔ q ∈ l) := fun hq =>
    List.mem_erase_of_ne hq
  have hout : ∀ {l : List Nat}, l.Nodup → k ∉ l.erase k := fun hn hm =>
    (hn.mem_erase_iff.mp hm).1 rfl
  have hd := h.distinct
  refine h.touch (k := k) (fun q hq => ?_) hother (hlife ▸ h.sound.free hlive) hholds hkept
    (hgroups ▸ h.groups.release hgroup) ?_ ?_ hhands ?_
  · exact {
      next := by rw [hnext]
      deleting := hdeleting
      sock := hsock q hq
      request := hrequest q hq
      freed := by
        rw [hlife]
        exact Function.update_of_ne hq ..
      tree := htree ▸ hmem hq
      update := hupdate ▸ hmem hq
      deleted := hdeleted ▸ hmem hq
      socks := hsocks ▸ hmem hq
      packets := by rw [hpackets] }
  · rw [hgroups, hsocks]
    have hmap : (s.socks.erase k).map (fun q => (u.sock q).pollGroup) =
        (s.socks.erase k).map fun q => (s.sock q).pollGroup :=
      List.map_congr_left fun q hq => by
        rw [hsock q (hd.socks.mem_erase_iff.mp hq).1]
    rw [hmap]
    have hperm := h.held.trans ((List.perm_cons_erase hk).map fun q => (s.sock q).pollGroup)
    exact (hperm.erase _).trans (by rw [List.map_cons, List.erase_cons_head])
  · rw [htree, hupdate, hdeleted, hsocks, hpackets]
    exact ⟨hd.tree.erase k, hd.update.erase k, hd.deleted.erase k, hd.socks.erase k, hd.packets⟩
  · refine ⟨hpackets ▸ hpacket, hhand, fun hn => ?_, harmed,
      .gone (hsocks ▸ hout hd.socks) (htree ▸ hout hd.tree) (hdeleted ▸ hout hd.deleted)
        (hupdate ▸ hout hd.update) (fun hn => hnone (hdeleting ▸ hn)) (Or.inr ?_)⟩
    · exact absurd (h.old hk) (Nat.not_lt.mpr (hnext ▸ hn))
    · rw [hlife]
      exact Function.update_self ..

/-- The socket leaves the tree, and is freed later. -/
theorem doom {u : Port} (h : PortCore s hand) (ht : k ∈ s.sockTree) (hr : s.request k ≠ .none)
    (hnext : u.next = s.next) (hdeleting : u.deleting = s.deleting)
    (htree : u.sockTree = s.sockTree.erase k)
    (hupdate : u.sockUpdateQueue = s.sockUpdateQueue.erase k)
    (hdeleted : u.sockDeletedQueue = s.sockDeletedQueue ++ [k]) (hsocks : u.socks = s.socks)
    (hpackets : u.packets = s.packets) (hgroups : u.pollGroups = s.pollGroups)
    (hsound : u.life.Sound) (hfreed : u.life.freed = s.life.freed)
    (hsock : ∀ q, q ≠ k → u.sock q = s.sock q) {x : SockState} (hself : u.sock k = x)
    (hgroup : x.pollGroup = (s.sock k).pollGroup) (hpending : x.deletePending = true)
    (harmed : Armed x) (hrequest : u.request = s.request) (hholds : u.failed = false)
    (hkept : u.overwritten = false) : PortCore u hand := by
  subst hself
  obtain ⟨hmem, hdel, hlive, -, -⟩ := h.listed ht
  have hd := h.distinct
  have hout : ∀ {l : List Nat}, l.Nodup → k ∉ l.erase k := fun hn hm =>
    (hn.mem_erase_iff.mp hm).1 rfl
  have happend : ∀ {q}, q ∈ s.sockDeletedQueue ++ [k] ↔ q ∈ s.sockDeletedQueue ∨ q = k := by
    intro q
    rw [List.mem_append, List.mem_singleton]
  have hgroups' : ∀ q, (u.sock q).pollGroup = (s.sock q).pollGroup := by
    intro q
    by_cases hq : q = k
    · rw [hq, hgroup]
    · rw [hsock q hq]
  refine h.touch (k := k) (fun q hq => ?_) (fun _ _ _ => Iff.rfl) hsound hholds hkept
    (hgroups ▸ h.groups) ?_ ?_ h.hands ?_
  · exact {
      next := by rw [hnext]
      deleting := hdeleting
      sock := hsock q hq
      request := by rw [hrequest]
      freed := by rw [hfreed]
      tree := htree ▸ List.mem_erase_of_ne hq
      update := hupdate ▸ List.mem_erase_of_ne hq
      deleted := hdeleted ▸ happend.trans (or_iff_left hq)
      socks := by rw [hsocks]
      packets := by rw [hpackets] }
  · rw [hgroups, hsocks, List.map_congr_left fun q _ => hgroups' q]
    exact h.held
  · rw [htree, hupdate, hdeleted, hsocks, hpackets]
    refine ⟨hd.tree.erase k, hd.update.erase k, ?_, hd.socks, hd.packets⟩
    exact List.nodup_append.mpr ⟨hd.deleted, List.nodup_singleton k, fun a ha b hb he =>
      hdel (List.mem_singleton.mp hb ▸ he ▸ ha)⟩
  · refine ⟨?_, fun t => ?_, fun hn => ?_, harmed,
      .doomed (hsocks ▸ hmem) (htree ▸ hout hd.tree) (hdeleted ▸ happend.mpr (Or.inr rfl))
        (hupdate ▸ hout hd.update) ?_ hpending (hrequest ▸ hr)⟩
    · rw [hpackets, hrequest]
      exact (h.sock k).packet
    · rw [hrequest]
      exact (h.sock k).hands t
    · exact absurd (h.old hmem) (Nat.not_lt.mpr (hnext ▸ hn))
    · exact (congrFun hfreed k).trans hlive

end PortCore

/-! ## What the functions come to -/

namespace Port

variable {s : Port} {k : Nat}

theorem check_true : s.check true = s := by
  show ({ s with failed := s.failed || false } : Port) = s
  rw [Bool.or_false]

theorem use_live (hf : s.life.Live k) : { s with life := s.life.use k } = s := by
  rw [Lifetime.use, show s.life.freed k = false from hf, Bool.or_false]

theorem setSock_eq (hf : s.life.Live k) (x : SockState) :
    s.setSock k x = { s with sock := Function.update s.sock k x } := by
  rw [setSock, Lifetime.use, show s.life.freed k = false from hf, Bool.or_false]

/-- `sock__cancel_poll` either fails or marks the poll. -/
theorem sockCancelPoll_cases (hp : (s.sock k).pollStatus = .pending) (a : AfdAnswer) :
    (∃ e, s.sockCancelPoll k a = ({ s with lastError := e }, false)) ∨
      s.sockCancelPoll k a = (s.setSock k (s.sock k).cancelPoll, true) := by
  have hc : s.afdCancelPoll k a.cancel = (s, true) ∨
      ∃ e, s.afdCancelPoll k a.cancel = ({ s with lastError := e }, false) := by
    rw [afdCancelPoll.eq_def]
    split
    · exact Or.inl rfl
    · cases a.cancel with
      | none => exact Or.inl rfl
      | some e => exact Or.inr ⟨e, rfl⟩
  rw [sockCancelPoll, decide_eq_true hp, check_true]
  obtain hc | ⟨e, hc⟩ := hc
  · rw [hc]
    exact Or.inr rfl
  · rw [hc]
    exact Or.inl ⟨e, rfl⟩

/-- A request goes to the driver. -/
def submit (s : Port) (k : Nat) (e : Nat) : Port :=
  { s.setSock k { s.sock k with status := statusPending } with
    request := Function.update s.request k (.driver (s.sock k).events)
    overwritten := s.overwritten || !decide (s.request k = .none)
    lastError := e }

theorem afdPoll_submitted {a : Option Nat} (ha : a = none ∨ a = some errorIoPending) :
    ∃ e, s.afdPoll k a = s.submit k e := by
  obtain rfl | rfl := ha
  · refine ⟨s.lastError, ?_⟩
    rw [afdPoll, submit, setSock_self]
    rfl
  · refine ⟨errorIoPending, ?_⟩
    rw [afdPoll, submit, setSock_self]
    rfl

theorem afdPoll_failed {a : Option Nat} (ha : ¬ (a = none ∨ a = some errorIoPending)) :
    ∃ e, s.afdPoll k a =
      { s.setSock k { s.sock k with status := statusPending } with lastError := e } := by
  cases a with
  | none => exact absurd (Or.inl rfl) ha
  | some e =>
      refine ⟨e, ?_⟩
      rw [afdPoll]
      exact if_neg fun he => ha (Or.inr (congrArg some he))

/-- Out of the tree and the queues, and freed. -/
def afterFree (s : Port) (k : Nat) (x : SockState) : Port :=
  { s with
    sockTree := s.sockTree.erase k
    sockUpdateQueue := s.sockUpdateQueue.erase k
    sockDeletedQueue := s.sockDeletedQueue.erase k
    sock := Function.update s.sock k x
    pollGroups := s.pollGroups.release x.pollGroup
    socks := s.socks.erase k
    life := s.life.free k }

/-- Out of the tree, and in the queue of the deleted sockets. -/
def afterDoom (s : Port) (k : Nat) (x : SockState) : Port :=
  { s with
    sockTree := s.sockTree.erase k
    sockUpdateQueue := s.sockUpdateQueue.erase k
    sockDeletedQueue := s.sockDeletedQueue ++ [k]
    sock := Function.update s.sock k x }

/-- `sock__delete` of a socket that is deleted already. -/
theorem sockDelete_doomed (hf : s.life.Live k) (hp : (s.sock k).deletePending = true)
    (ht : k ∉ s.sockTree) (hu : k ∉ s.sockUpdateQueue) {force : Bool}
    (hi : force = true ∨ (s.sock k).pollStatus = .idle) (a : AfdAnswer) :
    s.sockDelete k force a = s.afterFree k (s.sock k) := by
  rw [sockDelete]
  simp only [use_live hf, hp, if_true]
  rw [sockRelease, if_pos hi, removeDeletedSocket_eq hu, sockFree, afterFree,
    Function.update_eq_self, List.erase_of_not_mem ht, List.erase_of_not_mem hu]

/-- The end of `sock__delete`, for a socket that was registered. -/
theorem sockRelease_unlisted {x : SockState} (hf : s.life.Live k) (hd : k ∉ s.sockDeletedQueue)
    (hn : s.sockUpdateQueue.Nodup) (force : Bool) :
    (({ s with
        sockUpdateQueue := s.sockUpdateQueue.erase k
        sockTree := s.sockTree.erase k }.setSock k x).sockRelease k force) =
      if force = true ∨ x.pollStatus = .idle then s.afterFree k x else s.afterDoom k x := by
  have hu : k ∉ s.sockUpdateQueue.erase k := fun hm => (hn.mem_erase_iff.mp hm).1 rfl
  rw [setSock_eq (s := { s with
      sockUpdateQueue := s.sockUpdateQueue.erase k, sockTree := s.sockTree.erase k }) hf,
    sockRelease]
  simp only [Function.update_self]
  split
  · rw [removeDeletedSocket_eq hu, sockFree, afterFree]
    simp only [Function.update_self]
  · rw [addDeletedSocket_eq hu, if_neg hd, afterDoom]

/-- A `sock_state_t` after the first part of `sock__delete`. -/
structure Unlisted (x y : SockState) : Prop where
  pollGroup : y.pollGroup = x.pollGroup
  deletePending : y.deletePending = true
  armed : Armed x → Armed y
  idle : y.pollStatus = .idle ↔ x.pollStatus = .idle

/-- `sock__delete` of a registered socket. -/
theorem sockDelete_listed (hf : s.life.Live k) (hp : (s.sock k).deletePending = false)
    (hd : k ∉ s.sockDeletedQueue) (hn : s.sockUpdateQueue.Nodup) (force : Bool) (a : AfdAnswer) :
    ∃ e x, Unlisted (s.sock k) x ∧ s.sockDelete k force a =
      if force = true ∨ (s.sock k).pollStatus = .idle then { s with lastError := e }.afterFree k x
      else { s with lastError := e }.afterDoom k x := by
  rw [sockDelete]
  simp only [use_live hf, hp, Bool.false_eq_true, if_false]
  rw [sockUnregister]
  by_cases hq : (s.sock k).pollStatus = .pending
  · rw [if_pos hq]
    obtain ⟨e, hc⟩ | hc := sockCancelPoll_cases hq a
    · refine ⟨e, { s.sock k with deletePending := true }, ⟨rfl, rfl, id, Iff.rfl⟩, ?_⟩
      rw [hc]
      simp only [cancelSocketUpdate_eq (s := { s with lastError := e }) hd]
      exact sockRelease_unlisted (s := { s with lastError := e }) hf hd hn force
    · have hidle : (s.sock k).pollStatus ≠ .idle := by
        rw [hq]
        rintro ⟨⟩
      refine ⟨s.lastError, { (s.sock k).cancelPoll with deletePending := true },
        ⟨rfl, rfl, id, iff_of_false (by rintro ⟨⟩) hidle⟩, ?_⟩
      rw [hc, setSock_eq hf]
      simp only [cancelSocketUpdate_eq
        (s := { s with sock := Function.update s.sock k (s.sock k).cancelPoll }) hd,
        Function.update_self]
      have hr := sockRelease_unlisted
        (s := { s with sock := Function.update s.sock k (s.sock k).cancelPoll })
        (x := { (s.sock k).cancelPoll with deletePending := true }) hf hd hn force
      refine hr.trans ?_
      rw [afterFree, afterDoom]
      simp only [Function.update_idem]
      split
      · next h => rw [if_pos (h.imp_right fun h => nomatch h)]; rfl
      · next h => rw [if_neg (fun h' => h (h'.imp_right fun h' => absurd h' hidle))]; rfl
  · refine ⟨s.lastError, { s.sock k with deletePending := true }, ⟨rfl, rfl, id, Iff.rfl⟩, ?_⟩
    rw [if_neg hq]
    simp only [cancelSocketUpdate_eq hd]
    exact sockRelease_unlisted hf hd hn force

end Port

/-- A function that leaves the threads alone, and the state of the port as a whole. -/
structure Port.Still (s s' : Port) : Prop where
  iocp : s'.iocp = s.iocp
  activePollCount : s'.activePollCount = s.activePollCount
  wait : s'.wait = s.wait
  polling : s'.polling = s.polling
  updated : s'.updated = s.updated
  deleting : s'.deleting = s.deleting
  deleted : s'.deleted = s.deleted

theorem Port.Still.refl {s : Port} : s.Still s := ⟨rfl, rfl, rfl, rfl, rfl, rfl, rfl⟩

theorem Port.Still.trans {s s' s'' : Port} (h : s.Still s') (h' : s'.Still s'') : s.Still s'' where
  iocp := h'.iocp.trans h.iocp
  activePollCount := h'.activePollCount.trans h.activePollCount
  wait := h'.wait.trans h.wait
  polling := h'.polling.trans h.polling
  updated := h'.updated.trans h.updated
  deleting := h'.deleting.trans h.deleting
  deleted := h'.deleted.trans h.deleted

namespace PortCore

variable {s s' : Port} {k : Nat} {hand hand' : Nat → List Nat}

/-- `sock__delete` of a registered socket; `force` is for `port_delete` only. -/
theorem sockDelete (h : PortCore s hand) (ht : k ∈ s.sockTree) {f : Bool}
    (hforce : f = true → s.deleting = true) (a : AfdAnswer) :
    PortCore (s.sockDelete k f a) hand ∧ s.Still (s.sockDelete k f a) ∧
      (s.sockDelete k f a).sockUpdateQueue = s.sockUpdateQueue.erase k := by
  obtain ⟨hmem, hdel, hlive, hp, hw⟩ := h.listed ht
  have hk := h.sock k
  obtain ⟨e, x, hx, heq⟩ := Port.sockDelete_listed hlive hp hdel h.distinct.update f a
  rw [heq]
  split
  · next hfree =>
      refine ⟨?_, ⟨rfl, rfl, rfl, rfl, rfl, rfl, rfl⟩, rfl⟩
      refine h.free (u := { s with lastError := e }.afterFree k x) hmem rfl rfl rfl rfl rfl rfl
        rfl ?_ rfl (fun q hq => Function.update_of_ne hq ..) ?_ (fun _ _ => rfl) h.holds h.kept
        (fun hn => ?_) hk.packet hk.hands (fun _ _ _ => Iff.rfl) h.hands
      · rw [← hx.pollGroup]
        rfl
      · have hself : (Port.afterFree { s with lastError := e } k x).sock k = x :=
          Function.update_self ..
        rw [hself]
        exact hx.armed hk.armed
      · obtain hf | hi := hfree
        · rw [hforce hf] at hn
          cases hn
        · exact hw.idle hi
  · next hdoom =>
      refine ⟨?_, ⟨rfl, rfl, rfl, rfl, rfl, rfl, rfl⟩, rfl⟩
      exact h.doom (u := { s with lastError := e }.afterDoom k x) ht
        (hw.busy fun hi => hdoom (Or.inr hi)) rfl rfl rfl rfl rfl rfl rfl rfl h.sound rfl
        (fun q hq => Function.update_of_ne hq ..) (Function.update_self ..) hx.pollGroup
        hx.deletePending (hx.armed hk.armed) rfl h.holds h.kept

/-- `sock__delete` in the second loop of `port_delete`. -/
theorem sockDelete_queued (h : PortCore s hand) (hk : k ∈ s.sockDeletedQueue)
    (hdel : s.deleting = true) (a : AfdAnswer) : PortCore (s.sockDelete k true a) hand := by
  obtain ⟨hmem, ht, hu, hlive, hp, -⟩ := h.doomed hk
  rw [Port.sockDelete_doomed hlive hp ht hu (Or.inl rfl)]
  refine h.free (u := s.afterFree k (s.sock k)) hmem rfl rfl rfl rfl rfl rfl rfl rfl rfl
    (fun q hq => Function.update_of_ne hq ..) ?_ (fun _ _ => rfl) h.holds h.kept (fun hn => ?_)
    (h.sock k).packet (h.sock k).hands (fun _ _ _ => Iff.rfl) h.hands
  · rw [show (s.afterFree k (s.sock k)).sock k = s.sock k from Function.update_self ..]
    exact (h.sock k).armed
  · rw [hdel] at hn
    cases hn

/-- A registered socket need not wait for an update. -/
theorem unqueue (h : PortCore s hand) (ht : k ∈ s.sockTree)
    (hs : (s.sock k).pollStatus = .cancelled ∨
      (s.sock k).pollStatus = .pending ∧ (s.sock k).Monitored) :
    PortCore { s with sockUpdateQueue := s.sockUpdateQueue.erase k } hand := by
  obtain ⟨-, -, -, hp, hw⟩ := h.listed ht
  exact h.rewrite ht ⟨rfl, rfl, rfl, rfl, rfl, rfl, rfl, rfl⟩ rfl (fun _ _ => rfl) rfl
    (fun q hq => List.mem_erase_of_ne hq) (h.distinct.update.erase k) h.sound h.holds h.kept rfl hp
    (h.sock k).armed (hw.unqueue hs)

/-- A pending poll is cancelled. -/
theorem cancelPoll (h : PortCore s hand) (ht : k ∈ s.sockTree)
    (hs : (s.sock k).pollStatus = .pending) :
    PortCore (s.setSock k (s.sock k).cancelPoll) hand := by
  obtain ⟨-, -, hlive, hp, hw⟩ := h.listed ht
  refine h.rewrite ht ⟨rfl, rfl, rfl, rfl, rfl, rfl, rfl, rfl⟩ Port.setSock_self
    (fun q hq => Port.setSock_of_ne hq) rfl (fun q hq => Iff.rfl) h.distinct.update
    (h.sound.use hlive) h.holds h.kept rfl hp (h.sock k).armed (hw.busy ?_)
  rw [hs]
  rintro ⟨⟩

theorem lastError (h : PortCore s hand) (e : Nat) : PortCore { s with lastError := e } hand :=
  h.same ⟨rfl, rfl, rfl, rfl, rfl, rfl, rfl, rfl⟩ rfl rfl rfl h.sound h.holds h.kept

/-- A poll is prepared, and the driver refuses it. -/
theorem refuse (h : PortCore s hand) (ht : k ∈ s.sockTree) (e : Nat) :
    PortCore { (s.setSock k (s.sock k).pollInfo).setSock k
      { (s.sock k).pollInfo with status := statusPending } with lastError := e } hand := by
  obtain ⟨-, -, hlive, hp, hw⟩ := h.listed ht
  exact h.rewrite ht ⟨rfl, rfl, rfl, rfl, rfl, rfl, rfl, rfl⟩ Port.setSock_self
    (fun q hq => (Port.setSock_of_ne hq).trans (Port.setSock_of_ne hq)) rfl (fun q hq => Iff.rfl)
    h.distinct.update ((h.sound.use hlive).use hlive) h.holds h.kept rfl hp (h.sock k).armed
    (hw.congr rfl rfl rfl)

/-- A poll is made for an idle socket. -/
theorem submit (h : PortCore s hand) (ht : k ∈ s.sockTree) (hs : (s.sock k).pollStatus = .idle)
    (e : Nat) {s₁ : Port} (h₁ : s₁ = (s.setSock k (s.sock k).pollInfo).submit k e) :
    PortCore { s₁.setSock k (s₁.sock k).submitted with
      sockUpdateQueue := s.sockUpdateQueue.erase k } hand := by
  obtain ⟨-, -, hlive, hp, hw⟩ := h.listed ht
  have hnone := hw.idle hs
  have hself : s₁.sock k = { (s.sock k).pollInfo with status := statusPending } := by
    rw [h₁]
    simp only [Port.submit, Port.setSock_self]
  have hrequest : s₁.request = Function.update s.request k
      (.driver (sockEpollEventsToAfdEvents (s.sock k).userEvents)) := by
    rw [h₁, Port.submit, Port.setSock_self]
    rfl
  have hk : s₁.request k = .driver (sockEpollEventsToAfdEvents (s.sock k).userEvents) := by
    rw [hrequest, Function.update_self]
  have hpacket := (h.sock k).packet
  have hhand := (h.sock k).hands
  rw [hnone] at hpacket
  refine h.relist (u := { s₁.setSock k (s₁.sock k).submitted with
      sockUpdateQueue := s.sockUpdateQueue.erase k }) ht ?_ Port.setSock_self (fun q hq => ?_)
    (fun q hq => ?_) (fun q hq => List.mem_erase_of_ne hq) (h.distinct.update.erase k) ?_ ?_ ?_ ?_
    ?_ ?_ ?_ ?_ (fun t => ?_) (fun _ _ _ => Iff.rfl) h.hands
  · subst h₁
    exact ⟨rfl, rfl, rfl, rfl, rfl, rfl, rfl, rfl⟩
  · subst h₁
    exact (Port.setSock_of_ne hq).trans ((Port.setSock_of_ne hq).trans (Port.setSock_of_ne hq))
  · exact (congrFun hrequest q).trans (Function.update_of_ne hq ..)
  · subst h₁
    exact ((h.sound.use hlive).use hlive).use hlive
  · subst h₁
    exact h.holds
  · subst h₁
    show (s.overwritten || !decide (s.request k = .none)) = false
    rw [h.kept, hnone]
    rfl
  · rw [hself]
    rfl
  · rw [hself]
    exact hp
  · rw [hself]
    exact (h.sock k).armed
  · show Watched _ _ (s₁.request k)
    rw [hk, hself]
    refine ⟨by rintro ⟨⟩, Or.inr ?_, fun ev hev => ?_⟩
    · show Covered ((s.sock k).userEvents &&& sockKnownEpollEvents) (s.sock k).userEvents
      rw [BitVec.and_comm]
      exact covered_and_right
    · cases hev
      rfl
  · show _ ↔ s₁.request k = .completed
    rw [hk, hpacket]
    exact iff_of_false (by rintro ⟨⟩) (by rintro ⟨⟩)
  · show _ ↔ s₁.request k = .taken t
    rw [hk, hhand, hnone]
    exact iff_of_false (by rintro ⟨⟩) (by rintro ⟨⟩)

/-- `sock_update`, called for a socket in the update queue. -/
theorem sockUpdate (h : PortCore s hand) (hk : k ∈ s.sockUpdateQueue) (a : AfdAnswer) :
    PortCore (s.sockUpdate k a).1 hand ∧ s.Still (s.sockUpdate k a).1 ∧
      (s.sockUpdate k a).1.sockUpdateQueue =
        if (s.sockUpdate k a).2 then s.sockUpdateQueue.erase k else s.sockUpdateQueue := by
  have ht := h.queued hk
  obtain ⟨-, hdel, hlive, hp, hw⟩ := h.listed ht
  have hstill : ∀ {l}, s.Still { s with sockUpdateQueue := l } :=
    ⟨rfl, rfl, rfl, rfl, rfl, rfl, rfl⟩
  rw [Port.sockUpdate]
  simp only [Port.use_live hlive, hp, Bool.not_false, Port.check_true]
  cases hs : (s.sock k).pollStatus with
  | pending =>
      simp only
      by_cases hm : (s.sock k).Monitored
      · rw [if_pos hm, Port.cancelSocketUpdate_eq hdel]
        exact ⟨h.unqueue ht (Or.inr ⟨hs, hm⟩), hstill, rfl⟩
      · rw [if_neg hm]
        obtain ⟨e, hc⟩ | hc := Port.sockCancelPoll_cases hs a
        · rw [hc]
          exact ⟨h.lastError e, ⟨rfl, rfl, rfl, rfl, rfl, rfl, rfl⟩, rfl⟩
        · rw [hc]
          simp only [Port.cancelSocketUpdate_eq (s := s.setSock k (s.sock k).cancelPoll) hdel]
          have hcancel := (h.cancelPoll ht hs).unqueue (k := k) ht
            (Or.inl (congrArg SockState.pollStatus Port.setSock_self))
          exact ⟨hcancel, ⟨rfl, rfl, rfl, rfl, rfl, rfl, rfl⟩, rfl⟩
  | cancelled =>
      simp only [Port.cancelSocketUpdate_eq hdel]
      exact ⟨h.unqueue ht (Or.inl hs), hstill, rfl⟩
  | idle =>
      simp only
      by_cases ha : a.poll = none ∨ a.poll = some errorIoPending
      · rw [if_pos ha]
        obtain ⟨e, he⟩ := Port.afdPoll_submitted (s := s.setSock k (s.sock k).pollInfo) (k := k) ha
        rw [he]
        simp only [Port.cancelSocketUpdate_eq
          (s := ((s.setSock k (s.sock k).pollInfo).submit k e).setSock k
            (((s.setSock k (s.sock k).pollInfo).submit k e).sock k).submitted) hdel]
        exact ⟨h.submit ht hs e rfl, ⟨rfl, rfl, rfl, rfl, rfl, rfl, rfl⟩, rfl⟩
      · rw [if_neg ha]
        obtain ⟨e, he⟩ := Port.afdPoll_failed (s := s.setSock k (s.sock k).pollInfo) (k := k) ha
        rw [he, Port.setSock_self]
        have hr := h.refuse ht e
        split
        · obtain ⟨hd, hs', hq⟩ := hr.sockDelete (k := k) (f := false) ht (by rintro ⟨⟩) a
          refine ⟨hd, Port.Still.trans ?_ hs', hq⟩
          exact ⟨rfl, rfl, rfl, rfl, rfl, rfl, rfl⟩
        · exact ⟨hr, ⟨rfl, rfl, rfl, rfl, rfl, rfl, rfl⟩, rfl⟩

/-- `port__update_events`: the queue is empty unless a socket could not be updated. -/
theorem updateLoop (answers : Nat → AfdAnswer) : ∀ {n : Nat} {s : Port}, PortCore s hand →
    s.sockUpdateQueue.length ≤ n →
    PortCore (Port.updateLoop answers n s).1 hand ∧ s.Still (Port.updateLoop answers n s).1 ∧
      ((Port.updateLoop answers n s).2 = true →
        (Port.updateLoop answers n s).1.sockUpdateQueue = [])
  | 0, s, h, hn => ⟨h, .refl, fun _ => List.length_eq_zero_iff.mp (Nat.le_zero.mp hn)⟩
  | n + 1, s, h, hn => by
      rw [Port.updateLoop]
      split
      · next hq => exact ⟨h, .refl, fun _ => hq⟩
      · next k ks hq =>
          obtain ⟨hc, hstill, hqueue⟩ := h.sockUpdate (k := k) (hq ▸ List.mem_cons_self) (answers k)
          split
          · next s' he =>
              rw [he] at hc hstill hqueue
              simp only [hq, List.erase_cons_head, if_true] at hqueue
              rw [hq] at hn
              obtain ⟨hc', hstill', hnil⟩ := updateLoop answers (n := n) hc
                (by rw [hqueue]; exact Nat.le_of_succ_le_succ hn)
              exact ⟨hc', hstill.trans hstill', hnil⟩
          · next s' he =>
              rw [he] at hc hstill
              exact ⟨hc, hstill, by rintro ⟨⟩⟩

/-- The first packet that a thread has taken is looked at. -/
theorem unhand (h : PortCore s hand) {t : Nat} {rest : List Nat} (hhand : hand t = k :: rest) :
    (k ∈ s.packets ↔ Request.none = .completed) ∧
      (∀ u, k ∈ Function.update hand t rest u ↔ Request.none = .taken u) ∧
      (∀ q, q ≠ k → ∀ u, q ∈ Function.update hand t rest u ↔ q ∈ hand u) ∧
      ∀ u, (Function.update hand t rest u).Nodup := by
  have hn := h.hands t
  rw [hhand, List.nodup_cons] at hn
  have hr : s.request k = .taken t := ((h.sock k).hands t).mp (hhand ▸ List.mem_cons_self)
  refine ⟨?_, fun u => ?_, fun q hq u => ?_, fun u => ?_⟩
  · rw [(h.sock k).packet, hr]
    exact iff_of_false (by rintro ⟨⟩) (by rintro ⟨⟩)
  · refine iff_of_false ?_ (by rintro ⟨⟩)
    by_cases hu : u = t
    · rw [hu, Function.update_self]
      exact hn.1
    · rw [Function.update_of_ne hu, (h.sock k).hands, hr]
      exact fun he => hu (Request.taken.inj he).symm
  · by_cases hu : u = t
    · rw [hu, Function.update_self, hhand, List.mem_cons, or_iff_right hq]
    · rw [Function.update_of_ne hu]
  · by_cases hu : u = t
    · rw [hu, Function.update_self]
      exact hn.2
    · rw [Function.update_of_ne hu]
      exact h.hands u

/-- A packet of a registered socket is looked at, and the socket waits for an update. -/
theorem requeue (h : PortCore s hand) (ht : k ∈ s.sockTree) {t : Nat} {rest : List Nat}
    (hhand : hand t = k :: rest) {x : SockState} (hx : x.pollStatus = .idle)
    (hg : x.pollGroup = (s.sock k).pollGroup) (hp : x.deletePending = false) (ha : Armed x)
    (hkeep : s.Keeps s') (hself : s'.sock k = x) (hsock : ∀ q, q ≠ k → s'.sock q = s.sock q)
    (hrequest : s'.request = Function.update s.request k .none)
    (hupdate : s'.sockUpdateQueue =
      if k ∈ s.sockUpdateQueue then s.sockUpdateQueue else s.sockUpdateQueue ++ [k])
    (hsound : s'.life.Sound) (hholds : s'.failed = false) (hkept : s'.overwritten = false) :
    PortCore s' (Function.update hand t rest) := by
  have hnone : s'.request k = .none := by rw [hrequest, Function.update_self]
  obtain ⟨hpacket, hhands, hother, hnodup⟩ := h.unhand hhand
  refine h.relist ht hkeep hself hsock (fun q hq => ?_) (fun q hq => ?_) ?_ hsound hholds hkept hg
    hp ha ?_ (hnone ▸ hpacket) (hnone ▸ hhands) hother hnodup
  · rw [hrequest, Function.update_of_ne hq]
  · rw [hupdate]
    exact mem_appendNew.trans (or_iff_left hq)
  · rw [hupdate]
    exact nodup_appendNew h.distinct.update
  · rw [hnone, Watched, hx]
    refine ⟨?_, rfl⟩
    rw [hupdate]
    exact mem_appendNew.mpr (Or.inr rfl)

theorem feedStart_sock : (s.feedStart k).sock k = (s.sock k).completed := Port.setSock_self

theorem feedStart_of_ne {q : Nat} (hq : q ≠ k) : (s.feedStart k).sock q = s.sock q :=
  Port.setSock_of_ne hq

/-- A packet is looked at, and its socket is freed. -/
theorem feedFree (h : PortCore s hand) (hk : k ∈ s.socks) (hlive : s.life.Live k) {t : Nat}
    {rest : List Nat} (hhand : hand t = k :: rest) {x : SockState}
    (hg : x.pollGroup = (s.sock k).pollGroup) (ha : Armed x) (e : Nat) :
    PortCore (Port.afterFree { s.feedStart k with lastError := e } k x)
      (Function.update hand t rest) := by
  have hnone : (s.feedStart k).request k = .none := Function.update_self ..
  have hself : (Port.afterFree { s.feedStart k with lastError := e } k x).sock k = x :=
    Function.update_self ..
  obtain ⟨hpacket, hhands, hother, hnodup⟩ := h.unhand hhand
  refine h.free (k := k) hk rfl rfl rfl rfl rfl rfl rfl ?_ ?_
    (fun q hq => (Function.update_of_ne hq ..).trans (feedStart_of_ne hq)) (hself.symm ▸ ha)
    (fun q hq => Function.update_of_ne hq ..) h.holds h.kept (fun _ => hnone) (hnone ▸ hpacket)
    (hnone ▸ hhands) hother hnodup
  · rw [← hg]
    rfl
  · show (s.life.use k).free k = s.life.free k
    rw [Lifetime.use, show s.life.freed k = false from hlive, Bool.or_false]

end PortCore

/-- An event reports something, and only what was asked for. -/
def Reported (ev : EpollEvent) : Prop := ev.events ≠ 0 ∧ Covered ev.events ev.asked

namespace PortCore

variable {s s' : Port} {k : Nat} {hand hand' : Nat → List Nat}

/-- `sock_feed_event` of a deleted socket. -/
theorem feed_doomed (h : PortCore s hand) (hk : k ∈ s.sockDeletedQueue) {t : Nat}
    {rest : List Nat} (hhand : hand t = k :: rest) :
    PortCore (s.sockFeedEvent k).1 (Function.update hand t rest) ∧
      s.Still (s.sockFeedEvent k).1 ∧ ∀ ev ∈ (s.sockFeedEvent k).2, Reported ev := by
  obtain ⟨hmem, ht, hu, hlive, hp, -⟩ := h.doomed hk
  have hcompleted : ((s.feedStart k).sock k).deletePending = true := by
    rw [feedStart_sock]
    exact hp
  have hidle : ((s.feedStart k).sock k).pollStatus = .idle := by
    rw [feedStart_sock]
    rfl
  rw [Port.sockFeedEvent, if_pos hcompleted,
    Port.sockDelete_doomed (s := s.feedStart k) hlive hcompleted ht hu (Or.inr hidle),
    feedStart_sock]
  exact ⟨h.feedFree hmem hlive hhand (x := (s.sock k).completed) rfl (h.sock k).armed s.lastError,
    ⟨rfl, rfl, rfl, rfl, rfl, rfl, rfl⟩, fun ev hev => absurd hev List.not_mem_nil⟩

/-- `sock_feed_event` of a registered socket that was closed. -/
theorem feed_closed (h : PortCore s hand) (ht : k ∈ s.sockTree) {t : Nat} {rest : List Nat}
    (hhand : hand t = k :: rest) (a : AfdAnswer) :
    PortCore ((s.feedStart k).sockDelete k false a) (Function.update hand t rest) ∧
      s.Still ((s.feedStart k).sockDelete k false a) := by
  obtain ⟨hmem, hdel, hlive, hp, -⟩ := h.listed ht
  have hp' : ((s.feedStart k).sock k).deletePending = false := by
    rw [feedStart_sock]
    exact hp
  have hidle : ((s.feedStart k).sock k).pollStatus = .idle := by
    rw [feedStart_sock]
    rfl
  obtain ⟨e, x, hunl, heq⟩ := Port.sockDelete_listed (s := s.feedStart k) hlive hp' hdel
    h.distinct.update false a
  rw [feedStart_sock] at hunl
  rw [heq, if_pos (Or.inr hidle)]
  exact ⟨h.feedFree hmem hlive hhand hunl.pollGroup (hunl.armed (h.sock k).armed) e,
    ⟨rfl, rfl, rfl, rfl, rfl, rfl, rfl⟩⟩

/-- The end of `sock_feed_event`. -/
theorem feed_report (h : PortCore s hand) (ht : k ∈ s.sockTree) {t : Nat} {rest : List Nat}
    (hhand : hand t = k :: rest) (epollEvents : BitVec 32) :
    PortCore ((s.feedStart k).feedReport k epollEvents).1 (Function.update hand t rest) ∧
      s.Still ((s.feedStart k).feedReport k epollEvents).1 ∧
      ∀ ev ∈ ((s.feedStart k).feedReport k epollEvents).2, Reported ev := by
  obtain ⟨hmem, hdel, hlive, hp, -⟩ := h.listed ht
  have hsound := h.sound.use hlive
  have harmed := (h.sock k).armed
  rw [Port.feedReport, Port.requestSocketUpdate_eq (s := s.feedStart k) hdel]
  simp only [feedStart_sock]
  split
  · refine ⟨?_, ⟨rfl, rfl, rfl, rfl, rfl, rfl, rfl⟩, fun ev hev => absurd hev List.not_mem_nil⟩
    exact h.requeue ht hhand (x := (s.sock k).completed) rfl rfl hp harmed
      ⟨rfl, rfl, rfl, rfl, rfl, rfl, rfl, rfl⟩ feedStart_sock (fun q hq => feedStart_of_ne hq) rfl
      rfl hsound h.holds h.kept
  · next hne =>
      refine ⟨?_, ?_, fun ev hev => ?_⟩
      · split
        · next hshot =>
            refine h.requeue ht hhand (x := (s.sock k).completed.disarm) rfl rfl hp ?_
              ⟨rfl, rfl, rfl, rfl, rfl, rfl, rfl, rfl⟩ Port.setSock_self
              (fun q hq => (Port.setSock_of_ne hq).trans (feedStart_of_ne hq)) rfl rfl
              (hsound.use hlive) h.holds h.kept
            rw [Armed, if_pos (show Shares (s.sock k).userEvents epolloneshot from hshot)] at harmed
            have hnot : ¬ Shares (s.sock k).completed.disarm.userEvents epolloneshot :=
              not_shares_zero
            rw [Armed, if_neg hnot]
            exact harmed
        · exact h.requeue ht hhand (x := (s.sock k).completed) rfl rfl hp harmed
            ⟨rfl, rfl, rfl, rfl, rfl, rfl, rfl, rfl⟩ feedStart_sock
            (fun q hq => feedStart_of_ne hq) rfl rfl hsound h.holds h.kept
      · split
        · exact ⟨rfl, rfl, rfl, rfl, rfl, rfl, rfl⟩
        · exact ⟨rfl, rfl, rfl, rfl, rfl, rfl, rfl⟩
      · rw [List.mem_singleton.mp hev]
        exact ⟨hne, covered_and_right⟩

/-- `sock_feed_event`. -/
theorem sockFeedEvent (h : PortCore s hand) (hdel : s.deleting = false) {t : Nat}
    {rest : List Nat} (hhand : hand t = k :: rest) :
    PortCore (s.sockFeedEvent k).1 (Function.update hand t rest) ∧
      s.Still (s.sockFeedEvent k).1 ∧ ∀ ev ∈ (s.sockFeedEvent k).2, Reported ev := by
  have hr : s.request k = .taken t := ((h.sock k).hands t).mp (hhand ▸ List.mem_cons_self)
  obtain ht | hd := h.requested hdel (k := k) (by rw [hr]; rintro ⟨⟩)
  · obtain ⟨-, -, -, hp, -⟩ := h.listed ht
    have hp' : ¬ ((s.feedStart k).sock k).deletePending = true := by
      rw [feedStart_sock, show (s.sock k).completed.deletePending = false from hp]
      rintro ⟨⟩
    rw [Port.sockFeedEvent, if_neg hp']
    split
    · obtain ⟨hc, hs⟩ := h.feed_closed ht hhand ⟨none, none⟩
      exact ⟨hc, hs, fun ev hev => absurd hev List.not_mem_nil⟩
    · next epollEvents _ => exact h.feed_report ht hhand epollEvents
  · exact h.feed_doomed hd hhand

/-- A packet gives one event at most. -/
theorem length_sockFeedEvent : (s.sockFeedEvent k).2.length ≤ 1 := by
  have hreport : ∀ {s : Port} {e : BitVec 32}, (s.feedReport k e).2.length ≤ 1 := by
    intro s e
    rw [Port.feedReport]
    split
    · exact Nat.zero_le 1
    · exact Nat.le_refl 1
  rw [Port.sockFeedEvent]
  split
  · exact Nat.zero_le 1
  · split
    · exact Nat.zero_le 1
    · exact hreport

/-- `port__feed_events`. -/
theorem feedEvents : ∀ {l : List Nat} {s : Port} {hand : Nat → List Nat} {t : Nat},
    PortCore s hand → s.deleting = false → hand t = l →
    PortCore (Port.feedEvents l s).1 (Function.update hand t []) ∧
      s.Still (Port.feedEvents l s).1 ∧ (Port.feedEvents l s).2.length ≤ l.length ∧
      ∀ ev ∈ (Port.feedEvents l s).2, Reported ev
  | [], s, hand, t, h, _, hhand => by
      refine ⟨?_, .refl, Nat.le_refl 0, fun ev hev => absurd hev List.not_mem_nil⟩
      have hsame : Function.update hand t [] = hand := by rw [← hhand, Function.update_eq_self]
      rw [hsame]
      exact h
  | k :: ks, s, hand, t, h, hdel, hhand => by
      obtain ⟨hc, hs, hev⟩ := h.sockFeedEvent hdel hhand
      obtain ⟨hc', hs', hlen, hev'⟩ := feedEvents (l := ks) (t := t) hc (hs.deleting.trans hdel)
        (Function.update_self ..)
      rw [Function.update_idem] at hc'
      refine ⟨hc', hs.trans hs', ?_, fun ev hm => ?_⟩
      · have hone := length_sockFeedEvent (s := s) (k := k)
        have hsum : (Port.feedEvents (k :: ks) s).2 =
            (s.sockFeedEvent k).2 ++ (Port.feedEvents ks (s.sockFeedEvent k).1).2 := rfl
        rw [hsum, List.length_append, List.length_cons]
        omega
      · exact (List.mem_append.mp hm).elim (hev ev) (hev' ev)

/-! ## New sockets -/

/-- The poll groups change, and hold the same sockets. -/
theorem regroup (h : PortCore s hand) {groups : PollGroups} (hg : GroupsInv groups)
    (hh : groups.held.Perm s.pollGroups.held) : PortCore { s with pollGroups := groups } hand where
  sound := h.sound
  holds := h.holds
  kept := h.kept
  groups := hg
  held := hh.trans h.held
  distinct := h.distinct
  hands := h.hands
  sock q := (show s.Apart { s with pollGroups := groups } q from ⟨Iff.rfl, rfl, rfl, rfl, rfl,
    Iff.rfl, Iff.rfl, Iff.rfl, Iff.rfl, Iff.rfl⟩).inv (fun _ => Iff.rfl) (h.sock q)

/-- A new socket is registered and waits for its first poll. -/
theorem insert (h : PortCore s hand) {groups : PollGroups} {x : SockState}
    (hg : GroupsInv groups) (hh : groups.held = x.pollGroup :: s.pollGroups.held)
    (hx : x.pollStatus = .idle) (hp : x.deletePending = false) (ha : Armed x)
    {s' : Port} (hnext : s'.next = s.next + 1) (hdeleting : s'.deleting = s.deleting)
    (htree : s'.sockTree = s.next :: s.sockTree)
    (hupdate : s'.sockUpdateQueue = s.sockUpdateQueue ++ [s.next])
    (hdeleted : s'.sockDeletedQueue = s.sockDeletedQueue) (hsocks : s'.socks = s.next :: s.socks)
    (hpackets : s'.packets = s.packets) (hgroups : s'.pollGroups = groups)
    (hlife : s'.life = s.life) (hself : s'.sock s.next = x)
    (hsock : ∀ q, q ≠ s.next → s'.sock q = s.sock q) (hrequest : s'.request = s.request)
    (hholds : s'.failed = false) (hkept : s'.overwritten = false) : PortCore s' hand := by
  have hk := h.sock s.next
  obtain ⟨hmem, hlive, hnone⟩ := hk.fresh (Nat.le_refl _)
  have hd := h.distinct
  have hout : s.next ∉ s.sockTree ∧ s.next ∉ s.sockDeletedQueue ∧ s.next ∉ s.sockUpdateQueue := by
    cases hk.stage with
    | listed hs | doomed hs => exact absurd hs hmem
    | gone _ ht hd hu => exact ⟨ht, hd, hu⟩
  refine h.touch (k := s.next) (fun q hq => ?_) (fun _ _ _ => Iff.rfl) (hlife ▸ h.sound) hholds
    hkept (hgroups ▸ hg) ?_ ?_ h.hands ?_
  · exact {
      next := by
        rw [hnext]
        omega
      deleting := hdeleting
      sock := hsock q hq
      request := by rw [hrequest]
      freed := by rw [hlife]
      tree := by rw [htree, List.mem_cons, or_iff_right hq]
      update := by rw [hupdate, List.mem_append, List.mem_singleton, or_iff_left hq]
      deleted := by rw [hdeleted]
      socks := by rw [hsocks, List.mem_cons, or_iff_right hq]
      packets := by rw [hpackets] }
  · have hmap : s.socks.map (fun q => (s'.sock q).pollGroup) =
        s.socks.map fun q => (s.sock q).pollGroup :=
      List.map_congr_left fun q hq => by rw [hsock q fun he => hmem (he ▸ hq)]
    rw [hgroups, hh, hsocks, List.map_cons, hself, hmap]
    exact h.held.cons _
  · rw [htree, hupdate, hdeleted, hsocks, hpackets]
    exact ⟨List.nodup_cons.mpr ⟨hout.1, hd.tree⟩,
      List.nodup_append.mpr ⟨hd.update, List.nodup_singleton _, fun a ha b hb he =>
        hout.2.2 (List.mem_singleton.mp hb ▸ he ▸ ha)⟩,
      hd.deleted, List.nodup_cons.mpr ⟨hmem, hd.socks⟩, hd.packets⟩
  · refine ⟨?_, fun t => ?_, fun hn => ?_, hself ▸ ha, .listed ?_ ?_ ?_ ?_ (hself ▸ hp) ?_⟩
    · rw [hpackets, hrequest]
      exact hk.packet
    · rw [hrequest]
      exact hk.hands t
    · rw [hnext] at hn
      omega
    · rw [hsocks]
      exact List.mem_cons_self
    · rw [htree]
      exact List.mem_cons_self
    · rw [hdeleted]
      exact hout.2.1
    · rw [hlife]
      exact hlive
    · rw [hself, hrequest, hnone, Watched, hx, hupdate]
      exact ⟨List.mem_append_right _ (List.mem_singleton_self _), rfl⟩

/-- A new socket is not monitored: `EPOLLERR` is always asked for. -/
theorem not_monitored {x : SockState} (hx : x.pendingEvents = 0) (ev : BitVec 32) (data : Nat) :
    ¬ (x.setEvent ev data).Monitored := by
  intro hm
  rw [SockState.Monitored, show (x.setEvent ev data).pendingEvents = 0 from hx, covered_iff] at hm
  have hbit := hm 3 (by
    show (((ev ||| epollerr ||| epollhup) &&& sockKnownEpollEvents).getLsbD 3) = true
    rw [BitVec.getLsbD_and, BitVec.getLsbD_or, BitVec.getLsbD_or,
      show epollerr.getLsbD 3 = true from rfl, show sockKnownEpollEvents.getLsbD 3 = true from rfl,
      Bool.or_true, Bool.true_or, Bool.and_true])
  rw [show (0 : BitVec 32).getLsbD 3 = false from rfl] at hbit
  cases hbit

/-- `sock_set_event` of a socket that was just registered. -/
theorem insertSet (h : PortCore s hand) {g : Nat} {groups : PollGroups} (hg : GroupsInv groups)
    (hh : groups.held = g :: s.pollGroups.held) (socket : BitVec 64) (ev : BitVec 32)
    (data : Nat) :
    PortCore ((Port.register { s with pollGroups := groups } socket g).sockSetEvent s.next ev data)
        hand ∧
      s.Still
        ((Port.register { s with pollGroups := groups } socket g).sockSetEvent s.next ev data) := by
  obtain ⟨hmem, hlive, -⟩ := (h.sock s.next).fresh (Nat.le_refl _)
  have hout : s.next ∉ s.sockDeletedQueue ∧ s.next ∉ s.sockUpdateQueue := by
    cases (h.sock s.next).stage with
    | listed hs | doomed hs => exact absurd hs hmem
    | gone _ _ hd hu => exact ⟨hd, hu⟩
  let x : SockState := { SockState.zero with socket := socket, pollGroup := g }
  have hx : (Port.register { s with pollGroups := groups } socket g).sock s.next = x :=
    Function.update_self ..
  rw [Port.sockSetEvent, Port.setSock_self, hx, if_pos (not_monitored rfl ev data),
    Port.setSock_eq (s := Port.register { s with pollGroups := groups } socket g) hlive,
    Port.requestSocketUpdate_eq
      (s := { Port.register { s with pollGroups := groups } socket g with
        sock := Function.update (Port.register { s with pollGroups := groups } socket g).sock
          s.next (x.setEvent ev data) }) hout.1]
  refine ⟨h.insert (x := x.setEvent ev data) hg hh rfl rfl ?_ rfl rfl rfl (if_neg hout.2) rfl rfl
    rfl rfl rfl (Function.update_self ..)
    (fun q hq => (Function.update_of_ne hq ..).trans (Function.update_of_ne hq ..)) rfl h.holds
    h.kept, ⟨rfl, rfl, rfl, rfl, rfl, rfl, rfl⟩⟩
  exact Nat.le_refl _

/-- The assertions about `iocp_handle` tell nothing of the sockets. -/
theorem checkIocp (h : PortCore s hand) (c : Bool) : PortCore (s.checkIocp c) hand :=
  h.same ⟨rfl, rfl, rfl, rfl, rfl, rfl, rfl, rfl⟩ rfl rfl rfl h.sound h.holds h.kept

/-- The beginning of `sock_new`. -/
theorem sockNew_start (h : PortCore s hand) :
    ∃ u, (if s.pollGroups.lastWithRoom = none then s.checkIocp s.iocp else s) = u ∧
      PortCore u hand ∧ s.Still u ∧ u.sockUpdateQueue = s.sockUpdateQueue := by
  split
  · exact ⟨_, rfl, h.checkIocp s.iocp, ⟨rfl, rfl, rfl, rfl, rfl, rfl, rfl⟩, rfl⟩
  · exact ⟨s, rfl, h, .refl, rfl⟩

/-- `sock_new` that fails. -/
theorem sockNew_none (h : PortCore s hand) {socket : BitVec 64} {canCreate canAlloc : Bool}
    (hn : s.sockNew socket canCreate canAlloc = (s', none)) :
    PortCore s' hand ∧ s.Still s' ∧ s'.sockUpdateQueue = s.sockUpdateQueue := by
  obtain ⟨u, hu, hc, hstill, hqueue⟩ := h.sockNew_start
  rw [Port.sockNew, hu] at hn
  split at hn
  · cases hn
    exact ⟨hc, hstill, hqueue⟩
  · next g groups ha =>
      obtain ⟨hg, hheld⟩ := hc.groups.acquire ha
      have hrelease : PortCore { u with pollGroups := groups.release g } hand := by
        refine hc.regroup (hg.release (by rw [hheld]; exact List.mem_cons_self)) ?_
        show (groups.held.erase g).Perm _
        rw [hheld, List.erase_cons_head]
      have hback : s.Still { u with pollGroups := groups.release g } :=
        hstill.trans ⟨rfl, rfl, rfl, rfl, rfl, rfl, rfl⟩
      simp only at hn
      split at hn
      · split at hn
        · cases hn
          exact ⟨hrelease, hback, hqueue⟩
        · cases hn
      · cases hn
        exact ⟨hrelease, hback, hqueue⟩

/-- `sock_new` and the `sock_set_event` after it. -/
theorem sockNew_some (h : PortCore s hand) {socket : BitVec 64} {canCreate canAlloc : Bool}
    (hn : s.sockNew socket canCreate canAlloc = (s', some k)) (ev : BitVec 32) (data : Nat) :
    PortCore (s'.sockSetEvent k ev data) hand ∧ s.Still (s'.sockSetEvent k ev data) := by
  obtain ⟨u, hu, hc, hstill, -⟩ := h.sockNew_start
  rw [Port.sockNew, hu] at hn
  split at hn
  · cases hn
  · next g groups ha =>
      obtain ⟨hg, hheld⟩ := hc.groups.acquire ha
      simp only at hn
      split at hn
      · split at hn
        · cases hn
        · cases hn
          obtain ⟨hset, hkept⟩ := hc.insertSet hg hheld socket ev data
          exact ⟨hset, hstill.trans hkept⟩
      · cases hn

end PortCore

end Ztk.Wepoll
