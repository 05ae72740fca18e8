import Ztk.Poller.FdRegistry

/-!
# The UDP server

`ztk_udp_server_start`, `ztk_udp_server_stop` and `ztk_udp_server_destroy` of
`udp_server.c`, over the descriptors of epoll pollers.  Slot `i` is on the `i`-th
poller of the pool.  The sockets of the slots are never attached to a poller
(`sock->attached` stays 0): the server registers their descriptors itself, with the
slot as the user pointer, so `ztk_socket_bind_udp_ex` and `ztk_socket_destroy` close
the descriptor and take nothing out of a poller.

Other users have entries in the same pollers.  The kernel hands out a descriptor that
is not open, and closing one takes it out of every interest list.

As in the TCP server, a start that fails calls the stop function, which finds
`started` not set and returns at once.
-/

namespace Ztk.Net

open Ztk.Lib Ztk.Poller

/-! ## State -/

/-- The user pointer of an entry: a slot of the server, or something else. -/
inductive UdpUser where
  | slot (i : Nat)
  | other (k : Nat)
deriving DecidableEq

/-- `ztk_udp_server`.  `fd i` is the descriptor of the socket of slot `i`. -/
structure UdpServer where
  slotCount : Nat
  reusePort : Bool
  sharedFdMode : Bool
  started : Bool
  port : Nat
  fd : Nat → Int

/-- The server, the pollers and the open descriptors. -/
structure UdpWorld where
  srv : UdpServer
  pollers : Nat → Epoll Unit UdpUser
  opened : List Int

/-- What the platform decides in a call of `ztk_udp_server_start`.  For every slot:
the result of `ztk_sockplat_bind_udp` with the descriptor, and whether
`ztk_poller_add` gets memory and the consent of the kernel. -/
structure UdpEnv where
  /-- `SO_REUSEPORT` is defined. -/
  hasReuseport : Bool
  bind : Nat → Err
  fd : Nat → List Int → Nat
  /-- The port that `ztk_socket_get_local` tells. -/
  localPort : Option Nat
  calloc : Nat → Bool
  ctl : Nat → Bool
  fresh : ∀ i opened, (fd i opened : Int) ∉ opened

/-- `ztk_poller_add` gets memory and the consent of the kernel. -/
def UdpEnv.adds (env : UdpEnv) (i : Nat) : Bool := env.calloc i && env.ctl i

namespace UdpWorld

/-! ## The functions of the source -/

/-- An assignment to the server. -/
def setSrv (w : UdpWorld) (srv : UdpServer) : UdpWorld := { w with srv := srv }

/-- `close_fd` of the socket of a slot. -/
def closeFd (w : UdpWorld) (i : Nat) : UdpWorld :=
  if w.srv.fd i < 0 then w
  else
    { srv := { w.srv with fd := Function.update w.srv.fd i (-1) }
      pollers := fun p =>
        { w.pollers p with
          interest := Function.update (w.pollers p).interest (w.srv.fd i) none }
      opened := w.opened.filter fun fd => fd ≠ w.srv.fd i }

/-- `ztk_socket_bind_udp_ex` on the socket of a slot. -/
def bindUdpEx (w : UdpWorld) (env : UdpEnv) (i : Nat) : Err × UdpWorld :=
  let w := w.closeFd i
  if env.bind i = .ok then
    let fd : Int := env.fd i w.opened
    (.ok, { w with
      srv := { w.srv with fd := Function.update w.srv.fd i fd }
      opened := fd :: w.opened })
  else (env.bind i, w)

/-- `ztk_socket_get_local` for the port of the server. -/
def getLocal (w : UdpWorld) (env : UdpEnv) : UdpWorld :=
  w.setSrv { w.srv with port := env.localPort.getD 0 }

/-- `ztk_poller_add` for a slot, with a descriptor. -/
def addSlot (w : UdpWorld) (env : UdpEnv) (i : Nat) (fd : Int) : Err × UdpWorld :=
  let (err, q) := (w.pollers i).pollerAdd fd (pollIn ||| pollErr ||| pollHup) (some ())
    (some (.slot i)) (env.calloc i) (env.ctl i)
  (err, { w with pollers := Function.update w.pollers i q })

/-- `ztk_poller_del` at a poller. -/
def delSlot (w : UdpWorld) (i : Nat) (fd : Int) : UdpWorld :=
  { w with pollers := Function.update w.pollers i ((w.pollers i).pollerDel fd).2 }

/-- The descriptor that is registered for a slot. -/
def key (w : UdpWorld) (i : Nat) : Int := if w.srv.sharedFdMode then w.srv.fd 0 else w.srv.fd i

/-- `ztk_udp_server_stop`. -/
def stop (w : UdpWorld) : UdpWorld :=
  if !w.srv.started then w
  else
    let v := (List.range w.srv.slotCount).foldl (fun v i => v.delSlot i (w.key i)) w
    v.setSrv { v.srv with started := false, sharedFdMode := false }

/-- The body of the loop of `ztk_udp_server_start` where every slot has a descriptor. -/
def bindSlot (w : UdpWorld) (env : UdpEnv) (i : Nat) : Err × UdpWorld :=
  match w.bindUdpEx env i with
  | (.ok, w) =>
      let w := if i = 0 then w.getLocal env else w
      w.addSlot env i (w.srv.fd i)
  | (err, w) => (err, w)

/-- The loops of `ztk_udp_server_start`, with `body` for one slot. -/
def startEach (body : UdpWorld → Nat → Err × UdpWorld) (w : UdpWorld) : List Nat → Err × UdpWorld
  | [] => (.ok, w.setSrv { w.srv with started := true })
  | i :: is =>
      match body w i with
      | (.ok, w) => startEach body w is
      | (err, w) => (err, w.stop)

/-- The server takes one descriptor for all slots. -/
def sharing (w : UdpWorld) (env : UdpEnv) : Bool :=
  decide (1 < w.srv.slotCount) && w.srv.reusePort && !env.hasReuseport

/-- `ztk_udp_server_start`. -/
def start (w : UdpWorld) (env : UdpEnv) : Err × UdpWorld :=
  if w.srv.started then (.ok, w)
  else
    let v := w.setSrv { w.srv with sharedFdMode := w.sharing env }
    if w.sharing env then
      match v.bindUdpEx env 0 with
      | (.ok, v) =>
          let v := v.getLocal env
          startEach (fun u i => u.addSlot env i (v.srv.fd 0)) v (List.range v.srv.slotCount)
      | (err, v) => (err, v)
    else startEach (fun u i => u.bindSlot env i) v (List.range v.srv.slotCount)

/-- `ztk_udp_server_destroy`. -/
def destroy (w : UdpWorld) : UdpWorld :=
  (List.range w.srv.slotCount).foldl closeFd w.stop

/-! ## Registered slots -/

variable {w : UdpWorld} {on : Nat → Prop} {i : Nat}

/-- A poller of slot `i`: its descriptors are open, and where the slot is registered
(`on`) it is so with its descriptor. -/
structure HeldAt (w : UdpWorld) (i : Nat) (on : Prop) (q : Epoll Unit UdpUser) : Prop where
  once : (q.entries.map FdEntry.fd).Nodup
  opened : ∀ e ∈ q.entries, e.fd ∈ w.opened
  known : ∀ fd, q.interest fd ≠ none → ∃ e ∈ q.entries, e.fd = fd
  wake : ∃ e ∈ q.entries, e.fd = q.wakeR ∧ e.user = none
  slot : ∀ e ∈ q.entries, ∀ j, e.user = some (.slot j) → j = i ∧ on ∧ e.fd = w.key i
  others : ∀ e ∈ q.entries, (∀ j, e.user ≠ some (.slot j)) → ∀ j, e.fd ≠ w.srv.fd j
  there : on → ∃ e ∈ q.entries, e.user = some (.slot i)

/-- The descriptors of the slots are open and different. -/
structure Apart (w : UdpWorld) : Prop where
  nonneg : ∀ fd ∈ w.opened, 0 ≤ fd
  owned : ∀ i, 0 ≤ w.srv.fd i → w.srv.fd i ∈ w.opened
  apart : ∀ i j, 0 ≤ w.srv.fd i → w.srv.fd i = w.srv.fd j → i = j

/-- The slots `on` are registered, and no other. -/
structure Held (w : UdpWorld) (on : Nat → Prop) : Prop where
  pollers : ∀ i, w.HeldAt i (on i) (w.pollers i)
  nonneg : ∀ fd ∈ w.opened, 0 ≤ fd
  owned : ∀ i, 0 ≤ w.srv.fd i → w.srv.fd i ∈ w.opened
  apart : ∀ i j, 0 ≤ w.srv.fd i → w.srv.fd i = w.srv.fd j → i = j

/-- The descriptor of a slot, or of the slot that all share. -/
theorem key_eq (w : UdpWorld) (i : Nat) : ∃ j, w.key i = w.srv.fd j := by
  simp only [key]
  split
  · exact ⟨0, rfl⟩
  · exact ⟨i, rfl⟩

/-- An assignment to a descriptor that is not the one of the slot. -/
theorem key_update {pollers : Nat → Epoll Unit UdpUser} {opened : List Int} {fd : Int} {j : Nat}
    (hne : w.key j ≠ w.srv.fd i) :
    key ⟨{ w.srv with fd := Function.update w.srv.fd i fd }, pollers, opened⟩ j = w.key j := by
  simp only [key] at hne ⊢
  split at hne
  · next hs =>
      rw [if_pos hs, if_pos hs]
      exact Function.update_of_ne (fun h0 => hne (congrArg w.srv.fd h0)) _ _
  · next hs =>
      rw [if_neg hs, if_neg hs]
      exact Function.update_of_ne (fun hji => hne (congrArg w.srv.fd hji)) _ _

/-- The descriptor of one slot changes: the slot has none afterwards, or one that was
not open before. -/
theorem Apart.assignFd (h : w.Apart) {v : UdpWorld} {x : Int}
    (hfd : v.srv.fd = Function.update w.srv.fd i x) (hnonneg : ∀ fd ∈ v.opened, 0 ≤ fd)
    (hkept : ∀ j, j ≠ i → 0 ≤ w.srv.fd j → w.srv.fd j ∈ v.opened)
    (hnew : 0 ≤ x → x ∈ v.opened ∧ x ∉ w.opened) : v.Apart := by
  have hself : v.srv.fd i = x := by rw [hfd, Function.update_self]
  have hother : ∀ j, j ≠ i → v.srv.fd j = w.srv.fd j := fun j hj => by
    rw [hfd, Function.update_of_ne hj]
  -- a descriptor of another slot is open, or there is none
  have hfresh : ∀ j, 0 ≤ x → w.srv.fd j ≠ x := fun j h0 he =>
    (hnew h0).2 (he ▸ h.owned j (he ▸ h0))
  refine ⟨hnonneg, fun j hj => ?_, fun j k hj hjk => ?_⟩
  · by_cases hji : j = i
    · rw [hji, hself] at hj ⊢
      exact (hnew hj).1
    · rw [hother j hji] at hj ⊢
      exact hkept j hji hj
  · by_cases hji : j = i
    · by_cases hki : k = i
      · rw [hji, hki]
      · rw [hji, hself] at hj hjk
        rw [hother k hki] at hjk
        exact absurd hjk.symm (hfresh k hj)
    · rw [hother j hji] at hj hjk
      by_cases hki : k = i
      · rw [hki, hself] at hjk
        exact absurd hjk (hfresh j (hjk ▸ hj))
      · rw [hother k hki] at hjk
        exact h.apart j k hj hjk

namespace HeldAt

variable {q : Epoll Unit UdpUser}

/-- The wake descriptor is not the one of a slot. -/
theorem key_ne_wakeR {on : Prop} (h : w.HeldAt i on q) : w.key i ≠ q.wakeR := by
  obtain ⟨j, hj⟩ := key_eq w i
  obtain ⟨e, he, hfd, hu⟩ := h.wake
  rw [hj, ← hfd]
  refine (h.others e he (fun k hk => ?_) j).symm
  rw [hu] at hk
  cases hk

/-- A poller has no entry for the descriptor of a slot that is not registered. -/
theorem no_entry (h : w.HeldAt i False q) : q.findEntry (w.key i) = none := by
  rw [Epoll.findEntry_eq_none]
  intro e he hfd
  by_cases hu : ∃ j, e.user = some (.slot j)
  · obtain ⟨j, hu⟩ := hu
    exact (h.slot e he j hu).2.1
  · obtain ⟨j, hj⟩ := key_eq w i
    exact h.others e he (fun k hk => hu ⟨k, hk⟩) j (hfd.trans hj)

theorem no_interest (h : w.HeldAt i False q) : q.interest (w.key i) = none := by
  by_contra hne
  obtain ⟨e, he, hfd⟩ := h.known _ hne
  exact Epoll.findEntry_eq_none.mp h.no_entry e he hfd

/-- The entry of the slot is inserted. -/
theorem insert (h : w.HeldAt i False q) (hown : w.key i ∈ w.opened) (events ev : BitVec 32) :
    w.HeldAt i True { q with
      entries := ⟨w.key i, events, some (), some (.slot i)⟩ :: q.entries
      interest := Function.update q.interest (w.key i) (some ev) } where
  once := by
    refine List.nodup_cons.mpr ⟨fun hm => ?_, h.once⟩
    obtain ⟨e, he, hfd⟩ := List.mem_map.mp hm
    exact Epoll.findEntry_eq_none.mp h.no_entry e he hfd
  opened := List.forall_mem_cons.mpr ⟨hown, h.opened⟩
  known := by
    intro fd hfd
    by_cases hk : fd = w.key i
    · exact ⟨_, List.mem_cons_self, hk.symm⟩
    · have hfd : Function.update q.interest (w.key i) (some ev) fd ≠ none := hfd
      rw [Function.update_of_ne hk] at hfd
      obtain ⟨e, he, hfd⟩ := h.known fd hfd
      exact ⟨e, List.mem_cons_of_mem _ he, hfd⟩
  wake := by
    obtain ⟨e, he, hfd⟩ := h.wake
    exact ⟨e, List.mem_cons_of_mem _ he, hfd⟩
  slot := by
    refine List.forall_mem_cons.mpr ⟨fun j hu => ?_, fun e he j hu => ?_⟩
    · rw [Option.some.injEq, UdpUser.slot.injEq] at hu
      exact ⟨hu.symm, trivial, rfl⟩
    · exact (h.slot e he j hu).2.1.elim
  others := List.forall_mem_cons.mpr ⟨fun hu => absurd rfl (hu i), h.others⟩
  there _ := ⟨_, List.mem_cons_self, rfl⟩

/-- `ztk_poller_del` with the descriptor of the slot. -/
theorem delete {on : Prop} (h : w.HeldAt i on q) :
    w.HeldAt i False (q.pollerDel (w.key i)).2 := by
  have hent := Epoll.pollerDel_entries h.once h.key_ne_wakeR
  have hmem : ∀ {e}, e ∈ (q.pollerDel (w.key i)).2.entries ↔ e ∈ q.entries ∧ e.fd ≠ w.key i := by
    intro e
    rw [hent, List.mem_filter, decide_eq_true_eq]
  constructor
  · rw [hent]
    exact h.once.sublist (List.filter_sublist.map FdEntry.fd)
  · intro e he
    exact h.opened e (hmem.mp he).1
  · intro fd hfd
    simp only [Epoll.pollerDel] at hfd
    rw [if_neg h.key_ne_wakeR] at hfd
    split at hfd
    · have hne : fd ≠ w.key i := by
        rintro rfl
        exact hfd (Function.update_self _ _ _)
      obtain ⟨e, he, rfl⟩ := h.known fd fun hn => hfd ((Function.update_of_ne hne _ _).trans hn)
      exact ⟨e, hmem.mpr ⟨he, hne⟩, rfl⟩
    · next hn =>
        obtain ⟨e, he, rfl⟩ := h.known fd hfd
        rw [Bool.not_eq_true, Option.isSome_eq_false_iff, Option.isNone_iff_eq_none,
          Epoll.findEntry_eq_none] at hn
        exact ⟨e, hmem.mpr ⟨he, hn e he⟩, rfl⟩
  · obtain ⟨e, he, hfd, hu⟩ := h.wake
    rw [Epoll.pollerDel_wakeR]
    exact ⟨e, hmem.mpr ⟨he, hfd ▸ h.key_ne_wakeR.symm⟩, hfd, hu⟩
  · intro e he j hu
    exact absurd (h.slot e (hmem.mp he).1 j hu).2.2 (hmem.mp he).2
  · intro e he
    exact h.others e (hmem.mp he).1
  · exact False.elim

end HeldAt

namespace Held

/-- The registered descriptors of the slots are open. -/
theorem key_mem (h : w.Held on) (hi : on i) : w.key i ∈ w.opened := by
  obtain ⟨e, he, hu⟩ := (h.pollers i).there hi
  rw [← ((h.pollers i).slot e he i hu).2.2]
  exact (h.pollers i).opened e he

/-- The descriptors of the server and the open ones change, the entries stay. -/
theorem assign (h : w.Held on) {v : UdpWorld}
    (hent : ∀ p, (v.pollers p).entries = (w.pollers p).entries)
    (hwake : ∀ p, (v.pollers p).wakeR = (w.pollers p).wakeR)
    (hint : ∀ p fd, (v.pollers p).interest fd ≠ none → (w.pollers p).interest fd ≠ none)
    (hopen : ∀ p, ∀ e ∈ (w.pollers p).entries, e.fd ∈ v.opened)
    (hnonneg : ∀ fd ∈ v.opened, 0 ≤ fd)
    (howned : ∀ i, 0 ≤ v.srv.fd i → v.srv.fd i ∈ v.opened)
    (hapart : ∀ i j, 0 ≤ v.srv.fd i → v.srv.fd i = v.srv.fd j → i = j)
    (hkey : ∀ i, on i → v.key i = w.key i)
    (hothers : ∀ p, ∀ e ∈ (w.pollers p).entries, (∀ i, e.user ≠ some (.slot i)) →
      ∀ i, e.fd ≠ v.srv.fd i) : v.Held on where
  pollers p := by
    have hp := h.pollers p
    constructor
    · rw [hent]
      exact hp.once
    · rw [hent]
      exact hopen p
    · intro fd hfd
      rw [hent]
      exact hp.known fd (hint p fd hfd)
    · rw [hent, hwake]
      exact hp.wake
    · rw [hent]
      intro e he j hu
      obtain ⟨hj, hon, hfd⟩ := hp.slot e he j hu
      exact ⟨hj, hon, hfd.trans (hkey p hon).symm⟩
    · rw [hent]
      exact hothers p
    · rw [hent]
      exact hp.there
  nonneg := hnonneg
  owned := howned
  apart := hapart

/-- The descriptor of one slot changes: the slot has none afterwards, or one that was
not open before. -/
theorem assignFd (h : w.Held on) {v : UdpWorld} {x : Int}
    (hfd : v.srv.fd = Function.update w.srv.fd i x)
    (hent : ∀ p, (v.pollers p).entries = (w.pollers p).entries)
    (hwake : ∀ p, (v.pollers p).wakeR = (w.pollers p).wakeR)
    (hint : ∀ p fd, (v.pollers p).interest fd ≠ none → (w.pollers p).interest fd ≠ none)
    (hopen : ∀ p, ∀ e ∈ (w.pollers p).entries, e.fd ∈ v.opened)
    (hnonneg : ∀ fd ∈ v.opened, 0 ≤ fd)
    (hkept : ∀ j, j ≠ i → 0 ≤ w.srv.fd j → w.srv.fd j ∈ v.opened)
    (hnew : 0 ≤ x → x ∈ v.opened ∧ x ∉ w.opened)
    (hkey : ∀ j, on j → v.key j = w.key j) : v.Held on := by
  have hv : v.Apart :=
    Apart.assignFd ⟨h.nonneg, h.owned, h.apart⟩ hfd hnonneg hkept hnew
  refine h.assign hent hwake hint hopen hnonneg hv.owned hv.apart hkey fun p e he hu j => ?_
  by_cases hji : j = i
  · rw [hji, hfd, Function.update_self]
    rintro rfl
    have hmem := (h.pollers p).opened e he
    exact (hnew (h.nonneg _ hmem)).2 hmem
  · rw [hfd, Function.update_of_ne hji]
    exact (h.pollers p).others e he hu j

/-- The poller of one slot changes. -/
theorem setPoller (h : w.Held on) {P : Nat → Prop} {q : Epoll Unit UdpUser}
    (hq : w.HeldAt i (P i) q) (hon : ∀ j, j ≠ i → (P j ↔ on j)) :
    UdpWorld.Held { w with pollers := Function.update w.pollers i q } P where
  pollers j := by
    by_cases hji : j = i
    · subst hji
      simp only [Function.update_self]
      exact ⟨hq.once, hq.opened, hq.known, hq.wake, hq.slot, hq.others, hq.there⟩
    · have hj := h.pollers j
      rw [← propext (hon j hji)] at hj
      simp only [Function.update_of_ne hji]
      exact ⟨hj.once, hj.opened, hj.known, hj.wake, hj.slot, hj.others, hj.there⟩
  nonneg := h.nonneg
  owned := h.owned
  apart := h.apart

/-- Where nothing is registered the mode does not matter. -/
theorem setSrv (h : w.Held on) {srv : UdpServer} (hfd : srv.fd = w.srv.fd)
    (hkey : ∀ i, on i → (w.setSrv srv).key i = w.key i) : (w.setSrv srv).Held on := by
  have hfd : (w.setSrv srv).srv.fd = w.srv.fd := hfd
  refine h.assign (fun _ => rfl) (fun _ => rfl) (fun _ _ => id) (fun p => (h.pollers p).opened)
    h.nonneg ?_ ?_ hkey ?_
  · rw [hfd]
    exact h.owned
  · rw [hfd]
    exact h.apart
  · rw [hfd]
    exact fun p => (h.pollers p).others

/-- `close_fd`, where no registered slot uses the descriptor. -/
theorem closeFd (h : w.Held on) (hfree : ∀ j, on j → w.key j ≠ w.srv.fd i) :
    (w.closeFd i).Held on := by
  simp only [UdpWorld.closeFd]
  split
  · exact h
  · next hneg =>
      have hi : 0 ≤ w.srv.fd i := Int.not_lt.mp hneg
      -- no entry has the descriptor that is closed
      have hent : ∀ p, ∀ e ∈ (w.pollers p).entries, e.fd ≠ w.srv.fd i := by
        intro p e he
        by_cases hu : ∃ j, e.user = some (.slot j)
        · obtain ⟨j, hu⟩ := hu
          obtain ⟨-, hp, hfd⟩ := (h.pollers p).slot e he j hu
          rw [hfd]
          exact hfree p hp
        · exact (h.pollers p).others e he (fun j hj => hu ⟨j, hj⟩) i
      refine h.assignFd (i := i) (x := -1) rfl (fun _ => rfl) (fun _ => rfl) (fun p fd hfd hnone => ?_)
        (fun p e he => List.mem_filter.mpr ⟨(h.pollers p).opened e he, decide_eq_true (hent p e he)⟩)
        (fun fd hfd => h.nonneg fd (List.mem_of_mem_filter hfd)) (fun j hji hj => ?_)
        (fun h0 => absurd h0 (by decide)) fun j hj => key_update (hfree j hj)
      · by_cases hfi : fd = w.srv.fd i
        · rw [hfi] at hfd
          exact hfd (Function.update_self _ _ _)
        · exact hfd ((Function.update_of_ne hfi _ _).trans hnone)
      · exact List.mem_filter.mpr ⟨h.owned j hj,
          decide_eq_true fun hfd => hji (h.apart j i hj hfd)⟩

/-- A slot without a descriptor gets one that is not open. -/
theorem openFd (h : w.Held on) (hi : w.srv.fd i < 0) {fd : Nat} (hfresh : (fd : Int) ∉ w.opened) :
    UdpWorld.Held { w with
      srv := { w.srv with fd := Function.update w.srv.fd i fd }
      opened := fd :: w.opened } on := by
  refine h.assignFd (i := i) (x := fd) rfl (fun _ => rfl) (fun _ => rfl) (fun _ _ => id)
    (fun p e he => List.mem_cons_of_mem _ ((h.pollers p).opened e he)) (fun fd' hfd => ?_)
    (fun j _ hj => List.mem_cons_of_mem _ (h.owned j hj))
    (fun _ => ⟨List.mem_cons_self, hfresh⟩) fun j hj => key_update fun hfd => ?_
  · rcases List.mem_cons.mp hfd with rfl | hfd
    · exact Int.natCast_nonneg fd
    · exact h.nonneg fd' hfd
  · have h0 := h.nonneg _ (h.key_mem hj)
    rw [hfd] at h0
    exact absurd h0 (Int.not_le.mpr hi)

/-- `ztk_poller_add` for a slot that is not registered: all or nothing. -/
theorem addSlot (h : w.Held on) (hi : ¬ on i) (hkey : 0 ≤ w.key i) (env : UdpEnv) :
    (env.adds i = true ∧ ∃ v, w.addSlot env i (w.key i) = (.ok, v) ∧ v.srv = w.srv ∧
        v.Held fun j => on j ∨ j = i) ∨
      (env.adds i = false ∧ ∃ err, err ≠ .ok ∧ w.addSlot env i (w.key i) = (err, w)) := by
  have hq := h.pollers i
  rw [eq_false hi] at hq
  have hok := Epoll.pollerAdd_ok hq.no_entry hq.no_interest hkey (pollIn ||| pollErr ||| pollHup)
    (some ()) (some (.slot i)) (env.calloc i) (env.ctl i)
  rw [← Bool.and_eq_true] at hok
  rcases Epoll.pollerAdd_insert hq.no_entry (pollIn ||| pollErr ||| pollHup) (some ())
    (some (.slot i)) (env.calloc i) (env.ctl i) with ⟨err, herr, heq⟩ | ⟨-, heq⟩
  · rw [heq] at hok
    refine Or.inr ⟨Bool.eq_false_iff.mpr fun ha => herr (hok.mpr ha), err, herr, ?_⟩
    simp only [UdpWorld.addSlot, heq, Function.update_eq_self]
  · have hadd : (w.addSlot env i (w.key i)).1 = .ok := congrArg Prod.fst heq
    have hown : w.key i ∈ w.opened := by
      obtain ⟨j, hj⟩ := key_eq w i
      rw [hj] at hkey ⊢
      exact h.owned j hkey
    have hins := hq.insert hown (pollIn ||| pollErr ||| pollHup)
      (toEpoll (pollIn ||| pollErr ||| pollHup))
    rw [← eq_true (Or.inr rfl : on i ∨ i = i)] at hins
    have hset := h.setPoller (P := fun j => on j ∨ j = i) hins fun j hj => or_iff_left hj
    refine Or.inl ⟨hok.mp hadd, _, ?_, ?_, hset⟩
    · rw [UdpWorld.addSlot, heq]
    · rfl

/-- `ztk_poller_del` for a slot. -/
theorem delSlot (h : w.Held on) (i : Nat) :
    (w.delSlot i (w.key i)).Held fun j => on j ∧ j ≠ i := by
  refine h.setPoller ?_ fun j hj => and_iff_left hj
  rw [eq_false (fun hj : on i ∧ i ≠ i => hj.2 rfl)]
  exact (h.pollers i).delete

theorem congr (h : w.Held on) {P : Nat → Prop} (hon : ∀ i, on i ↔ P i) : w.Held P := by
  have heq : on = P := funext fun i => propext (hon i)
  exact heq ▸ h

end Held

/-- What `close_fd` leaves alone. -/
theorem closeFd_srv (w : UdpWorld) (i : Nat) :
    ∃ fd, (w.closeFd i).srv = { w.srv with fd := fd } ∧ fd i < 0 := by
  simp only [closeFd]
  split
  · next h => exact ⟨w.srv.fd, rfl, h⟩
  · exact ⟨_, rfl, by rw [Function.update_self]; decide⟩

/-- `ztk_socket_bind_udp_ex` for a slot whose descriptor no registered slot uses. -/
theorem Held.bindUdpEx (h : w.Held on) (hfree : ∀ j, on j → w.key j ≠ w.srv.fd i) (env : UdpEnv) :
    ∃ v fd, w.bindUdpEx env i = (env.bind i, v) ∧ v.Held on ∧ v.srv = { w.srv with fd := fd } ∧
      (env.bind i = .ok → 0 ≤ fd i) := by
  obtain ⟨fd, hsrv, hneg⟩ := closeFd_srv w i
  have hclosed := h.closeFd hfree
  simp only [UdpWorld.bindUdpEx]
  split
  · next hok =>
      have hfresh := env.fresh i (w.closeFd i).opened
      have hopen := hclosed.openFd (i := i) (by rw [hsrv]; exact hneg) hfresh
      refine ⟨_, _, by rw [hok], hopen, by rw [hsrv], fun _ => ?_⟩
      rw [Function.update_self]
      exact Int.natCast_nonneg _
  · next hne => exact ⟨_, fd, rfl, hclosed, hsrv, fun hok => absurd hok hne⟩

/-! ## Starting -/

/-- The server while it is started, with the slots `on` registered. -/
structure Starting (w : UdpWorld) (n : Nat) (mode : Bool) (on : Nat → Prop) : Prop where
  held : w.Held on
  started : w.srv.started = false
  count : w.srv.slotCount = n
  mode : w.srv.sharedFdMode = mode

/-- Other slots are registered, and the server stays as it is. -/
theorem Starting.of_srv {n : Nat} {mode : Bool} {P : Nat → Prop} {v : UdpWorld}
    (h : w.Starting n mode on) (hsrv : v.srv = w.srv) (hv : v.Held P) : v.Starting n mode P where
  held := hv
  started := by
    rw [hsrv]
    exact h.started
  count := by
    rw [hsrv]
    exact h.count
  mode := by
    rw [hsrv]
    exact h.mode

/-- One slot: it gets registered exactly when `good` holds, and else nothing is. -/
def Registers (body : UdpWorld → Nat → Err × UdpWorld) (good : Nat → Prop)
    (I : (Nat → Prop) → UdpWorld → Prop) : Prop :=
  ∀ w on i, I on w → ¬ on i →
    (good i ∧ ∃ v, body w i = (.ok, v) ∧ I (fun j => on j ∨ j = i) v) ∨
      (¬ good i ∧ ∃ err v, err ≠ .ok ∧ body w i = (err, v) ∧ I on v)

theorem stop_of_stopped (h : w.srv.started = false) : w.stop = w := by
  rw [stop, h]
  rfl

/-- The loop: every slot gets registered, or the call fails and the slots before stay
registered. -/
theorem startEach_spec {body : UdpWorld → Nat → Err × UdpWorld} {good : Nat → Prop}
    {I : (Nat → Prop) → UdpWorld → Prop} (hbody : Registers body good I)
    (hI : ∀ on w, I on w → w.srv.started = false) (l : List Nat) (hl : l.Nodup)
    (hon : ∀ i ∈ l, ¬ on i) (h : I on w) :
    ((∀ i ∈ l, good i) ∧ ∃ v, I (fun j => on j ∨ j ∈ l) v ∧
        startEach body w l = (.ok, v.setSrv { v.srv with started := true })) ∨
      (¬ (∀ i ∈ l, good i) ∧ ∃ err v P, err ≠ .ok ∧ startEach body w l = (err, v) ∧ I P v ∧
        ∀ j, on j → P j) := by
  induction l generalizing w on with
  | nil =>
      refine Or.inl ⟨fun i hi => absurd hi List.not_mem_nil, w, ?_, rfl⟩
      simpa only [List.not_mem_nil, or_false] using h
  | cons i is ih =>
      rw [List.nodup_cons] at hl
      rw [startEach]
      rcases hbody w on i h (hon i List.mem_cons_self) with
        ⟨hg, v, heq, hv⟩ | ⟨hg, err, v, herr, heq, hv⟩
      · rw [heq]
        have hon' : ∀ j ∈ is, ¬ (on j ∨ j = i) := by
          rintro j hj (hoj | rfl)
          · exact hon j (List.mem_cons_of_mem _ hj) hoj
          · exact hl.1 hj
        rcases ih hl.2 hon' hv with ⟨hall, u, hu, hr⟩ | ⟨hall, err, u, P, herr, hr, hu, hle⟩
        · refine Or.inl ⟨List.forall_mem_cons.mpr ⟨hg, hall⟩, u, ?_, hr⟩
          simpa only [List.mem_cons, or_assoc] using hu
        · exact Or.inr ⟨fun h => hall fun j hj => h j (List.mem_cons_of_mem _ hj),
            err, u, P, herr, hr, hu, fun j hj => hle j (Or.inl hj)⟩
      · refine Or.inr ⟨fun h => hg (h i List.mem_cons_self), err, v, on, herr, ?_, hv, fun _ => id⟩
        simp only [heq, stop_of_stopped (hI on v hv)]

/-- The body of the loop over slots with their own descriptors. -/
theorem bindSlot_registers (env : UdpEnv) (n : Nat) :
    Registers (fun u i => u.bindSlot env i) (fun i => env.bind i = .ok ∧ env.adds i = true)
      (fun on u => u.Starting n false on) := by
  intro w on i h hi
  have hkey : ∀ {u : UdpWorld}, u.srv.sharedFdMode = false → ∀ j, u.key j = u.srv.fd j := by
    intro u hu j
    rw [key, hu]
    rfl
  have hfree : ∀ j, on j → w.key j ≠ w.srv.fd i := by
    intro j hj hfd
    have h0 := h.held.nonneg _ (h.held.key_mem hj)
    rw [hkey h.mode] at hfd h0
    exact hi (h.held.apart j i h0 hfd ▸ hj)
  obtain ⟨v, fd, heq, hv, hsrv, hpos⟩ := h.held.bindUdpEx hfree env
  have hstart : v.Starting n false on :=
    ⟨hv, by rw [hsrv]; exact h.started, by rw [hsrv]; exact h.count, by rw [hsrv]; exact h.mode⟩
  simp only [bindSlot, heq]
  by_cases hb : env.bind i = .ok
  · rw [hb]
    -- the port does not matter
    have hport : ∃ u, (if i = 0 then v.getLocal env else v) = u ∧ u.Starting n false on ∧
        u.srv.fd = fd := by
      split
      · refine ⟨_, rfl, ⟨hv.setSrv rfl fun _ _ => rfl, hstart.started, hstart.count, hstart.mode⟩, ?_⟩
        rw [getLocal, setSrv, hsrv]
      · exact ⟨v, rfl, hstart, by rw [hsrv]⟩
    obtain ⟨u, hu, hus, hufd⟩ := hport
    simp only [hu]
    rw [← hkey hus.mode]
    have h0 : 0 ≤ u.key i := by
      rw [hkey hus.mode, hufd]
      exact hpos hb
    rcases hus.held.addSlot hi h0 env with ⟨ha, t, hadd, hts, ht⟩ | ⟨ha, err, herr, hadd⟩
    · exact Or.inl ⟨⟨trivial, ha⟩, t, hadd, hus.of_srv hts ht⟩
    · exact Or.inr ⟨fun hg => Bool.false_ne_true (ha.symm.trans hg.2), err, u, herr, hadd, hus⟩
  · exact Or.inr ⟨fun h => hb h.1, env.bind i, v, hb, by simp only, hstart⟩

/-- The body of the loop over slots that share a descriptor. -/
theorem addSlot_registers (env : UdpEnv) (n : Nat) {fd : Int} (hfd : 0 ≤ fd) :
    Registers (fun u i => u.addSlot env i fd) (fun i => env.adds i = true)
      (fun on u => u.Starting n true on ∧ u.srv.fd 0 = fd) := by
  rintro w on i ⟨h, h0⟩ hi
  have hkey : w.key i = fd := by
    rw [key, h.mode]
    exact h0
  have hadd := h.held.addSlot hi (by rw [hkey]; exact hfd) env
  rw [hkey] at hadd
  rcases hadd with ⟨ha, v, heq, hsrv, hv⟩ | ⟨ha, err, herr, heq⟩
  · refine Or.inl ⟨ha, v, heq, h.of_srv hsrv hv, ?_⟩
    rw [hsrv]
    exact h0
  · exact Or.inr ⟨Bool.eq_false_iff.mp ha, err, w, herr, heq, h, h0⟩

/-! ## Stopping -/

theorem delSlot_key (w : UdpWorld) (i j : Nat) (fd : Int) : (w.delSlot i fd).key j = w.key j := rfl

/-- The loops of `ztk_udp_server_stop`. -/
theorem Held.delSlots (w₀ : UdpWorld) (l : List Nat) (h : w.Held on)
    (hkey : ∀ i, w.key i = w₀.key i) :
    (l.foldl (fun v i => v.delSlot i (w₀.key i)) w).Held (fun j => on j ∧ j ∉ l) ∧
      (l.foldl (fun v i => v.delSlot i (w₀.key i)) w).srv = w.srv := by
  induction l generalizing w on with
  | nil => simpa using h
  | cons i is ih =>
      have hdel := h.delSlot i
      rw [hkey i] at hdel
      obtain ⟨hv, hs⟩ := ih hdel fun j => (delSlot_key w i j _).trans (hkey j)
      refine ⟨?_, hs⟩
      simpa only [List.foldl_cons, List.mem_cons, not_or, and_assoc] using hv

/-- What holds between the calls: a server that is started has all its slots
registered, and another one none. -/
structure Settled (w : UdpWorld) : Prop where
  pos : 0 < w.srv.slotCount
  held : w.Held fun i => w.srv.started = true ∧ i < w.srv.slotCount

theorem Settled.stop (h : w.Settled) :
    w.stop.Held (fun _ => False) ∧ w.stop.srv.started = false ∧
      w.stop.srv.slotCount = w.srv.slotCount := by
  simp only [UdpWorld.stop]
  split
  · next hs =>
      rw [Bool.not_eq_true'] at hs
      refine ⟨?_, hs, rfl⟩
      simpa only [hs, Bool.false_eq_true, false_and] using h.held
  · obtain ⟨hv, hs⟩ := h.held.delSlots w (List.range w.srv.slotCount) fun _ => rfl
    have hnone : ∀ j, ((w.srv.started = true ∧ j < w.srv.slotCount) ∧
        j ∉ List.range w.srv.slotCount) ↔ False := by
      intro j
      rw [List.mem_range]
      exact iff_of_false (fun hj => hj.2 hj.1.2) id
    simp only [hnone] at hv
    have hcount := congrArg UdpServer.slotCount hs
    exact ⟨hv.setSrv rfl fun _ => False.elim, rfl, hcount⟩

/-- `ztk_socket_destroy` for the sockets of the slots. -/
theorem Held.closeFds (l : List Nat) (h : w.Held fun _ => False) :
    (l.foldl UdpWorld.closeFd w).Held fun _ => False := by
  induction l generalizing w with
  | nil => exact h
  | cons i is ih => exact ih (h.closeFd (i := i) fun _ => False.elim)

/-! ## Runs -/

/-- No poller has an entry whose user is a slot of the server. -/
def Unregistered (w : UdpWorld) : Prop :=
  ∀ p, ∀ e ∈ (w.pollers p).entries, ∀ i, e.user ≠ some (.slot i)

/-- No poller has an entry whose user is a slot of the server, or whose descriptor is
closed. -/
def Clean (w : UdpWorld) : Prop :=
  w.Unregistered ∧ ∀ p, ∀ e ∈ (w.pollers p).entries, e.fd ∈ w.opened

theorem Held.unregistered (h : w.Held fun _ => False) : w.Unregistered :=
  fun p e he i hu => ((h.pollers p).slot e he i hu).2.1

theorem Settled.destroy (h : w.Settled) : w.destroy.Clean := by
  have hv := Held.closeFds (List.range w.srv.slotCount) h.stop.1
  exact ⟨hv.unregistered, fun p => (hv.pollers p).opened⟩

end UdpWorld

/-- A call of the interface. -/
inductive UdpCall where
  | start (env : UdpEnv)
  | stop

/-- What a call returns, and the world after it. -/
def UdpCall.call (w : UdpWorld) : UdpCall → Err × UdpWorld
  | .start env => w.start env
  | .stop => (.ok, w.stop)

def udpMachine : Machine UdpWorld UdpCall := ⟨fun w a => some (a.call w).2⟩

/-- A call that fails leaves no slot registered, and if the server is destroyed next
no entry is left behind. -/
def LeavesNoSlot (w : UdpWorld) (a : UdpCall) : Prop :=
  ((a.call w).1 ≠ .ok → (a.call w).2.Unregistered) ∧ (a.call w).2.destroy.Clean

/-- A start that fails does so at its first slot. -/
def FailsAtFirstSlot (w : UdpWorld) : UdpCall → Prop
  | .start env =>
      w.srv.started = true ∨ env.bind 0 ≠ .ok ∨ env.adds 0 = false ∨
        ∀ i < w.srv.slotCount, env.adds i = true ∧ (w.sharing env = false → env.bind i = .ok)
  | .stop => True

instance (w : UdpWorld) (a : UdpCall) : Decidable (FailsAtFirstSlot w a) :=
  match a with
  | .start _ => inferInstanceAs (Decidable (_ ∨ _ ∨ _ ∨ _))
  | .stop => isTrue trivial

namespace UdpWorld

variable {w : UdpWorld}

/-- A server that is not started and has no slot registered. -/
theorem Starting.settled {n : Nat} {mode : Bool} (h : w.Starting n mode fun _ => False)
    (hn : 0 < n) : w.Settled := by
  refine ⟨h.count ▸ hn, h.held.congr fun j => ?_⟩
  rw [h.started, false_iff]
  exact fun hj => Bool.false_ne_true hj.1

/-- A loop over all slots: the slots get registered, or nothing is, or the first slot
stays registered although the call fails. -/
theorem startEach_range {body : UdpWorld → Nat → Err × UdpWorld} {good : Nat → Prop}
    {I : (Nat → Prop) → UdpWorld → Prop} {n : Nat} {mode : Bool} (hbody : Registers body good I)
    (hI : ∀ on w, I on w → w.Starting n mode on) (hn : 0 < n) (h : I (fun _ => False) w) :
    ((¬ good 0 ∨ ∀ i < n, good i) ∧ (startEach body w (List.range n)).2.Settled ∧
        ((startEach body w (List.range n)).1 ≠ .ok →
          (startEach body w (List.range n)).2.Unregistered)) ∨
      (good 0 ∧ (¬ ∀ i < n, good i) ∧ (startEach body w (List.range n)).1 ≠ .ok ∧
        ¬ (startEach body w (List.range n)).2.Unregistered) := by
  obtain ⟨m, rfl⟩ := Nat.exists_eq_succ_of_ne_zero (Nat.pos_iff_ne_zero.mp hn)
  have hmem : ∀ j, j < m + 1 ↔ j = 0 ∨ j ∈ (List.range m).map Nat.succ := by
    intro j
    rw [← List.mem_range, List.range_succ_eq_map, List.mem_cons]
  rw [List.range_succ_eq_map, startEach]
  rcases hbody w _ 0 h id with ⟨hg, v, heq, hv⟩ | ⟨hg, err, v, herr, heq, hv⟩
  · rw [heq]
    simp only
    have hnodup : ((List.range m).map Nat.succ).Nodup :=
      List.nodup_range.map Nat.succ_injective
    have hnot : ∀ j ∈ (List.range m).map Nat.succ, ¬ (False ∨ j = 0) := by
      intro j hj
      obtain ⟨k, -, rfl⟩ := List.mem_map.mp hj
      simp
    have hgood : (∀ i < m + 1, good i) ↔ ∀ i ∈ (List.range m).map Nat.succ, good i := by
      constructor
      · exact fun hall j hj => hall j ((hmem j).mpr (Or.inr hj))
      · rintro hall j hj
        rcases (hmem j).mp hj with rfl | hj
        · exact hg
        · exact hall j hj
    rcases startEach_spec hbody (fun on w hw => (hI on w hw).started) _ hnodup hnot hv with
      ⟨hall, u, hu, hr⟩ | ⟨hall, err, u, P, herr, hr, hu, hle⟩
    · have hst := hI _ u hu
      rw [hr]
      refine Or.inl ⟨Or.inr (hgood.mpr hall), ⟨?_, ?_⟩, fun hne => absurd rfl hne⟩
      · show 0 < u.srv.slotCount
        rw [hst.count]
        exact hn
      · refine (hst.held.congr fun j => ?_).setSrv rfl fun _ _ => rfl
        show (False ∨ j = 0) ∨ j ∈ (List.range m).map Nat.succ ↔ true = true ∧ j < u.srv.slotCount
        rw [hst.count, false_or, eq_self_iff_true, true_and]
        exact (hmem j).symm
    · rw [hr]
      refine Or.inr ⟨hg, fun h => hall (hgood.mp h), herr, fun hun => ?_⟩
      obtain ⟨e, he, hu'⟩ := ((hI _ u hu).held.pollers 0).there (hle 0 (Or.inr rfl))
      exact hun 0 e he 0 hu'
  · have hst := hI _ v hv
    simp only [heq, stop_of_stopped hst.started]
    exact Or.inl ⟨Or.inl hg, hst.settled hn, fun _ => hst.held.unregistered⟩

/-- The condition where every slot has its own descriptor. -/
theorem failsAtFirstSlot_slots {env : UdpEnv} (hs : w.srv.started = false)
    (hm : w.sharing env = false) :
    FailsAtFirstSlot w (.start env) ↔ ¬ (env.bind 0 = .ok ∧ env.adds 0 = true) ∨
      ∀ i < w.srv.slotCount, env.bind i = .ok ∧ env.adds i = true := by
  rw [FailsAtFirstSlot, hs, hm, not_and_or, Bool.not_eq_true, or_assoc]
  simp only [Bool.false_eq_true, false_or, true_implies, and_comm]

/-- The condition where the slots share a descriptor that could be bound. -/
theorem failsAtFirstSlot_shared {env : UdpEnv} (hs : w.srv.started = false)
    (hm : w.sharing env = true) (hb : env.bind 0 = .ok) :
    FailsAtFirstSlot w (.start env) ↔ ¬ env.adds 0 = true ∨
      ∀ i < w.srv.slotCount, env.adds i = true := by
  rw [FailsAtFirstSlot, hs, hm, hb, Bool.not_eq_true]
  simp only [Bool.false_eq_true, ne_eq, not_true_eq_false, false_or, Bool.true_eq_false,
    false_implies, and_true]

/-- How a start can end. -/
theorem Settled.start_cases (h : w.Settled) (hs : w.srv.started = false) (env : UdpEnv) :
    (FailsAtFirstSlot w (.start env) ∧ (w.start env).2.Settled ∧
        ((w.start env).1 ≠ .ok → (w.start env).2.Unregistered)) ∨
      (¬ FailsAtFirstSlot w (.start env) ∧ (w.start env).1 ≠ .ok ∧
        ¬ (w.start env).2.Unregistered) := by
  have hheld : w.Held fun _ => False := by
    simpa only [hs, Bool.false_eq_true, false_and] using h.held
  have hstart : (w.setSrv { w.srv with sharedFdMode := w.sharing env }).Starting w.srv.slotCount
      (w.sharing env) fun _ => False :=
    ⟨hheld.setSrv rfl fun _ => False.elim, hs, rfl, rfl⟩
  rw [UdpWorld.start]
  rw [hs, if_neg Bool.false_ne_true]
  cases hm : w.sharing env with
  | false =>
      rw [hm] at hstart
      rw [failsAtFirstSlot_slots hs hm]
      rcases startEach_range (bindSlot_registers env w.srv.slotCount) (fun _ _ => id) h.pos hstart
        with ⟨hg, hset, hun⟩ | ⟨hg, hall, herr, hun⟩
      · exact Or.inl ⟨hg, hset, hun⟩
      · exact Or.inr ⟨fun hor => hor.elim (fun hn => hn hg) hall, herr, hun⟩
  | true =>
      rw [hm] at hstart
      obtain ⟨v, fd, heq, hv, hsrv, hpos⟩ := hstart.held.bindUdpEx (i := 0) (fun _ => False.elim) env
      have hvs : v.Starting w.srv.slotCount true fun _ => False :=
        ⟨hv, by rw [hsrv]; exact hs, by rw [hsrv]; rfl, by rw [hsrv]; rfl⟩
      by_cases hb : env.bind 0 = .ok
      · rw [failsAtFirstSlot_shared hs hm hb]
        rw [if_pos rfl, heq, hb]
        have hfd : (v.getLocal env).srv.fd 0 = fd 0 := by
          rw [getLocal, UdpWorld.setSrv, hsrv]
        have hvl : (v.getLocal env).Starting w.srv.slotCount true fun _ => False :=
          ⟨hv.setSrv rfl fun _ => False.elim, hvs.started, hvs.count, hvs.mode⟩
        have hreg := addSlot_registers env w.srv.slotCount (hfd.symm ▸ hpos hb)
        rcases startEach_range hreg (fun _ _ => And.left) h.pos ⟨hvl, rfl⟩ with
          ⟨hg, hset, hun⟩ | ⟨hg, hall, herr, hun⟩
        · rw [← hvl.count] at hset hun
          exact Or.inl ⟨hg, hset, hun⟩
        · rw [← hvl.count] at herr hun
          exact Or.inr ⟨fun hor => hor.elim (fun hn => hn hg) hall, herr, hun⟩
      · -- nothing is registered when the descriptor cannot be bound
        rw [if_pos rfl, heq]
        simp only
        exact Or.inl ⟨Or.inr (Or.inl hb), hvs.settled h.pos, fun _ => hv.unregistered⟩

/-- One call, between calls. -/
theorem Settled.call_iff (h : w.Settled) (a : UdpCall) :
    (LeavesNoSlot w a ↔ FailsAtFirstSlot w a) ∧ (FailsAtFirstSlot w a → (a.call w).2.Settled) := by
  cases a with
  | stop =>
      obtain ⟨hheld, hs, hcount⟩ := h.stop
      have hset : w.stop.Settled := by
        have hst : w.stop.Starting w.srv.slotCount w.stop.srv.sharedFdMode fun _ => False :=
          ⟨hheld, hs, hcount, rfl⟩
        exact hst.settled h.pos
      exact ⟨iff_of_true ⟨fun hne => absurd rfl hne, hset.destroy⟩ trivial, fun _ => hset⟩
  | start env =>
      by_cases hs : w.srv.started = true
      · have hsame : w.start env = (.ok, w) := by rw [UdpWorld.start, if_pos hs]
        rw [LeavesNoSlot, UdpCall.call, hsame]
        exact ⟨iff_of_true ⟨fun hne => absurd rfl hne, h.destroy⟩ (Or.inl hs), fun _ => h⟩
      · rcases h.start_cases (Bool.eq_false_iff.mpr hs) env with
          ⟨hc, hset, hun⟩ | ⟨hc, herr, hun⟩
        · exact ⟨iff_of_true ⟨hun, hset.destroy⟩ hc, fun _ => hset⟩
        · exact ⟨iff_of_false (fun hall => hun (hall.1 herr)) hc, fun hc' => absurd hc' hc⟩

/-- The state after `ztk_udp_server_create`, on pollers that others may use. -/
structure Created (w : UdpWorld) : Prop where
  pos : 0 < w.srv.slotCount
  started : w.srv.started = false
  fds : ∀ i, w.srv.fd i = -1
  once : ∀ p, ((w.pollers p).entries.map FdEntry.fd).Nodup
  opened : ∀ p, ∀ e ∈ (w.pollers p).entries, e.fd ∈ w.opened
  known : ∀ p fd, (w.pollers p).interest fd ≠ none → ∃ e ∈ (w.pollers p).entries, e.fd = fd
  wake : ∀ p, ∃ e ∈ (w.pollers p).entries, e.fd = (w.pollers p).wakeR ∧ e.user = none
  nonneg : ∀ fd ∈ w.opened, 0 ≤ fd
  unregistered : w.Unregistered

theorem Created.settled (h : w.Created) : w.Settled := by
  have hneg : ∀ i, ¬ 0 ≤ w.srv.fd i := by
    intro i
    rw [h.fds i]
    decide
  have hheld : w.Held fun _ => False := by
    refine ⟨fun p => ?_, h.nonneg, fun i hi => absurd hi (hneg i), fun i _ hi => absurd hi (hneg i)⟩
    refine ⟨h.once p, h.opened p, h.known p, h.wake p, fun e he j hu => ?_, fun e he _ j hj => ?_,
      False.elim⟩
    · exact absurd hu (h.unregistered p e he j)
    · exact hneg j (hj ▸ h.nonneg _ (h.opened p e he))
  have hst : w.Starting w.srv.slotCount w.srv.sharedFdMode fun _ => False :=
    ⟨hheld, h.started, rfl, rfl⟩
  exact hst.settled h.pos

end UdpWorld

/-- A failing start leaves nothing behind in every call of a run, exactly when every
start of the run that fails does so at its first slot. -/
theorem udp_start_all_or_nothing_iff {w : UdpWorld} (h : w.Created) (as : List UdpCall) :
    udpMachine.RunMeets LeavesNoSlot w as ↔ udpMachine.RunMeets FailsAtFirstSlot w as := by
  refine Machine.runMeets_iff (J := UdpWorld.Settled) (fun w a v hw hc hs => ?_)
    (fun w a hw => (hw.call_iff a).1) as w h.settled
  cases hs
  exact (hw.call_iff a).2 hc

/-- A descriptor above all open ones. -/
def nextFd (opened : List Int) : Nat := opened.foldr (fun fd m => max fd.toNat m) 0 + 1

theorem nextFd_fresh (opened : List Int) : (nextFd opened : Int) ∉ opened := by
  have hle : ∀ fd ∈ opened, fd.toNat ≤ opened.foldr (fun fd m => max fd.toNat m) 0 := by
    induction opened with
    | nil => exact fun fd hfd => absurd hfd List.not_mem_nil
    | cons a as ih =>
        refine List.forall_mem_cons.mpr ⟨Nat.le_max_left _ _, fun fd hfd => ?_⟩
        exact (ih fd hfd).trans (Nat.le_max_right _ _)
  intro hm
  have h := hle _ hm
  rw [Int.toNat_natCast, nextFd] at h
  omega

/-- A platform where every descriptor can be bound and the poller of slot `i` accepts
it where `ctl` says so. -/
def bindingEnv (hasReuseport : Bool) (ctl : Nat → Bool) : UdpEnv where
  hasReuseport := hasReuseport
  bind _ := .ok
  fd _ := nextFd
  localPort := some 5060
  calloc _ := true
  ctl := ctl
  fresh _ := nextFd_fresh

/-- A server that is created on a pool of two pollers. -/
def twoSlots : UdpWorld where
  srv := ⟨2, true, false, false, 5060, fun _ => -1⟩
  pollers p := Epoll.create (if p = 0 then 3 else 4)
  opened := [3, 4]

theorem twoSlots_created : twoSlots.Created where
  pos := by decide
  started := rfl
  fds _ := rfl
  once p := List.nodup_singleton _
  opened p e he := by
    rw [List.mem_singleton.mp he]
    by_cases hp : p = 0
    · simp [twoSlots, hp]
    · simp [twoSlots, hp]
  known p fd hfd := by
    refine ⟨_, List.mem_singleton_self _, ?_⟩
    by_contra hne
    refine hfd ?_
    simp only [twoSlots, Epoll.create]
    rw [Function.update_of_ne (Ne.symm hne)]
  wake p := ⟨_, List.mem_singleton_self _, rfl, rfl⟩
  nonneg := by decide
  unregistered p e he i hu := by
    rw [List.mem_singleton.mp he] at hu
    cases hu

/-- A server that is started and stopped, and then cannot be started with a shared
descriptor because the first poller refuses it. -/
theorem udp_start_all_or_nothing_two :
    udpMachine.RunMeets LeavesNoSlot twoSlots
      [.start (bindingEnv true fun _ => true), .stop, .start (bindingEnv false fun _ => false)] := by
  refine (udp_start_all_or_nothing_iff twoSlots_created _).mpr ?_
  decide +kernel

/-- The second poller refuses the descriptor of its slot: the call fails, and the first
poller keeps the entry of the first slot. -/
theorem udp_start_leaves_slot :
    ¬ udpMachine.RunMeets LeavesNoSlot twoSlots
      [.start (bindingEnv true fun i => decide (i = 0))] := by
  intro h
  have hun := h.1.1 (by decide +kernel)
  have hmem : ∃ e ∈ (((UdpCall.start (bindingEnv true fun i => decide (i = 0))).call
      twoSlots).2.pollers 0).entries, e.user = some (.slot 0) := by
    decide +kernel
  obtain ⟨e, he, hu⟩ := hmem
  exact hun 0 e he 0 hu

end Ztk.Net
