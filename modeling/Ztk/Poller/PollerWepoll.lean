import Ztk.Poller.FdRegistry
import Ztk.Wepoll.PortSet

/-!
# The descriptors of a wepoll poller

`ztk_poller_add`, `ztk_poller_mod` and `ztk_poller_del` of `poller_wepoll.c`, over the port
that `epoll_ctl` and `epoll_wait` use.  Here a modification is never refused: a port fails to
modify a socket only if it does not have it, and it has the sockets of all entries.  So the
entries and the epoll set agree at any time, whatever the driver does in between.
-/

namespace Ztk.Poller

open Ztk.Lib Ztk.Wepoll

/-- `(SOCKET)fd`. -/
def toSocket (fd : Int) : BitVec 64 := BitVec.ofInt 64 fd

/-- An `int` that is not negative. -/
def IsFd (fd : Int) : Prop := 0 ≤ fd ∧ fd < 2 ^ 31

instance (fd : Int) : Decidable (IsFd fd) := inferInstanceAs (Decidable (_ ∧ _))

/-- What the system answers in a call of `epoll_ctl`. -/
structure CtlEnv where
  hasBase : Bool
  canCreate : Bool
  canAlloc : Bool
  answers : Nat → AfdAnswer

/-- The entries of a `ztk_poller`, and the port of its `epfd`. -/
structure WepollPoller (κ υ : Type) where
  wakeR : Int
  entries : List (FdEntry κ υ)
  port : Port

/-- A call of the interface, or a step of a thread in `epoll_wait` or of the driver. -/
inductive WepollAct (κ υ : Type) where
  | add (fd : Int) (events : BitVec 32) (cb : Option κ) (user : Option υ) (calloc : Bool)
      (env : CtlEnv)
  | mod (fd : Int) (events : BitVec 32) (env : CtlEnv)
  | del (fd : Int) (answer : AfdAnswer)
  | port (a : PortAct)

variable {κ υ : Type}

namespace WepollPoller

/-- `find_entry`. -/
def findEntry (p : WepollPoller κ υ) (fd : Int) : Option (FdEntry κ υ) :=
  p.entries.find? fun e => e.fd = fd

/-- `epoll_ctl_wrap`. -/
def epollCtlWrap (p : WepollPoller κ υ) (op : CtlOp) (fd : Int) (ev : BitVec 32) (env : CtlEnv) :
    Err × WepollPoller κ υ :=
  match op with
  | .add =>
      (if p.port.ctlAddOk (toSocket fd) env.hasBase env.canCreate env.canAlloc then .ok
        else .platform,
        { p with
          port := p.port.ctlAdd (toSocket fd) ev fd.toNat env.hasBase env.canCreate env.canAlloc
            env.answers })
  | .mod =>
      (if (p.port.findSocket (toSocket fd)).isSome then .ok else .platform,
        { p with port := p.port.ctlMod (toSocket fd) ev fd.toNat env.answers })

/-- `ztk_poller_create`, where `wakeR` is the socket that the poller reads from. -/
def create (wakeR : Int) (env : CtlEnv) : Err × WepollPoller κ υ :=
  { wakeR := wakeR, entries := [⟨wakeR, pollIn, none, none⟩], port := .new : WepollPoller κ υ
    }.epollCtlWrap .add wakeR epollIn env

/-- `ztk_poller_add`.  `calloc` says whether there is memory for an entry. -/
def pollerAdd (p : WepollPoller κ υ) (fd : Int) (events : BitVec 32) (cb : Option κ)
    (user : Option υ) (calloc : Bool) (env : CtlEnv) : Err × WepollPoller κ υ :=
  if fd < 0 then (.invalid, p)
  else
    match p.findEntry fd with
    | some _ =>
        { p with
          entries := Epoll.setEntry fd
            (fun e => { e with events := events, cb := cb, user := user }) p.entries
          }.epollCtlWrap .mod fd (toEpoll events) env
    | none =>
        if !calloc then (.nomem, p)
        else
          match { p with entries := ⟨fd, events, cb, user⟩ :: p.entries }.epollCtlWrap .add fd
            (toEpoll events) env with
          | (.ok, q) => (.ok, q)
          | (_, q) => (.platform, { q with entries := q.entries.tail })

/-- `ztk_poller_mod`. -/
def pollerMod (p : WepollPoller κ υ) (fd : Int) (events : BitVec 32) (env : CtlEnv) :
    Err × WepollPoller κ υ :=
  match p.findEntry fd with
  | none => (.invalid, p)
  | some _ =>
      { p with
        entries := Epoll.setEntry fd (fun e => { e with events := events }) p.entries
        }.epollCtlWrap .mod fd (toEpoll events) env

/-- `ztk_poller_del`.  What `EPOLL_CTL_DEL` returns is not looked at. -/
def pollerDel (p : WepollPoller κ υ) (fd : Int) (answer : AfdAnswer) : Err × WepollPoller κ υ :=
  if fd = p.wakeR then (.invalid, p)
  else if (p.findEntry fd).isSome then
    (.ok, { p with
      entries := p.entries.eraseP fun e => e.fd = fd
      port := p.port.ctlDel (toSocket fd) answer })
  else (.invalid, p)

/-- The epoll set that the entries stand for. -/
def entrySet (entries : List (FdEntry κ υ)) (socket : BitVec 64) : Option (BitVec 32 × Nat) :=
  (entries.find? fun e => e.fd = socket.toInt).map fun e =>
    (sockSetEvents (toEpoll e.events), e.fd.toNat)

end WepollPoller

/-- What a call returns, and the poller after it. -/
def WepollAct.call (p : WepollPoller κ υ) : WepollAct κ υ → Option (Err × WepollPoller κ υ)
  | .add fd events cb user calloc env => some (p.pollerAdd fd events cb user calloc env)
  | .mod fd events env => some (p.pollerMod fd events env)
  | .del fd answer => some (p.pollerDel fd answer)
  | .port a => (portStep p.port a).map fun s => (.ok, { p with port := s })

/-- A poller with its port as a machine. -/
def wepollMachine : Machine (WepollPoller κ υ) (WepollAct κ υ) :=
  ⟨fun p a => (a.call p).map Prod.snd⟩

/-- A thread is in `epoll_wait`, or the driver completes a request. -/
def Waits : PortAct → Prop
  | .wait _ _ _ _ _ _ _ | .dequeue _ _ | .timeOut _ _ | .leave _ _ _ _ | .complete _ _ _ _ => True
  | .ctlAdd _ _ _ _ _ _ _ | .ctlMod _ _ _ _ | .ctlDel _ _ | .close | .delete | .deleteRoot _ _
  | .deleteFirst | .deleteGroup | .free => False

/-- Descriptors are of type `int`, the port is used through the poller only, and no registered
socket is closed. -/
def WepollAct.Steady : WepollAct κ υ → Prop
  | .add fd _ _ _ _ env => fd < 2 ^ 31 ∧ Opened env.answers
  | .mod _ _ env => Opened env.answers
  | .del _ _ => True
  | .port a => Waits a ∧ a.Steady

/-- No packet says that a registered socket was closed. -/
def WepollPoller.Open (p : WepollPoller κ υ) : WepollAct κ υ → Prop
  | .port a => p.port.OpenPackets a
  | .add _ _ _ _ _ _ | .mod _ _ _ | .del _ _ => True

instance (p : WepollPoller κ υ) (a : WepollAct κ υ) : Decidable (p.Open a) :=
  match a with
  | .port a => inferInstanceAs (Decidable (p.port.OpenPackets a))
  | .add _ _ _ _ _ _ | .mod _ _ _ | .del _ _ => isTrue trivial

def WepollUse (p : WepollPoller κ υ) (a : WepollAct κ υ) : Prop := a.Steady ∧ p.Open a

/-! ## Sockets and masks -/

theorem toInt_toSocket {fd : Int} (h : IsFd fd) : (toSocket fd).toInt = fd := by
  obtain ⟨h0, h31⟩ := h
  rw [toSocket, BitVec.toInt_ofInt]
  exact Int.bmod_eq_of_le (by omega) (by omega)

theorem eq_toSocket_iff {fd : Int} (h : IsFd fd) {socket : BitVec 64} :
    socket = toSocket fd ↔ fd = socket.toInt := by
  constructor
  · rintro rfl
    exact (toInt_toSocket h).symm
  · rintro rfl
    rw [toSocket, BitVec.ofInt_toInt]

/-- The masks of a poller ask for no `EPOLLONESHOT`. -/
theorem not_shares_toEpoll (events : BitVec 32) :
    ¬ Shares (sockSetEvents (toEpoll events)) epolloneshot := by
  simp only [toEpoll, orIf]
  split <;> split <;> split <;> split <;> decide

namespace WepollPoller

variable {p : WepollPoller κ υ} {fd : Int} {e : FdEntry κ υ} {entries : List (FdEntry κ υ)}

theorem entrySet_toSocket (entries : List (FdEntry κ υ)) (h : IsFd fd) :
    entrySet entries (toSocket fd) = (entries.find? fun e => e.fd = fd).map fun e =>
      (sockSetEvents (toEpoll e.events), e.fd.toNat) := by
  rw [entrySet, toInt_toSocket h]

/-- An entry in front. -/
theorem entrySet_cons (entries : List (FdEntry κ υ)) (h : IsFd e.fd) : entrySet (e :: entries) =
    Function.update (entrySet entries) (toSocket e.fd)
      (some (sockSetEvents (toEpoll e.events), e.fd.toNat)) := by
  funext socket
  by_cases hs : socket = toSocket e.fd
  · have hhead : ((e :: entries).find? fun e' => e'.fd = e.fd) = some e :=
      List.find?_cons_of_pos (decide_eq_true rfl)
    rw [hs, Function.update_self, entrySet_toSocket _ h, hhead]
    rfl
  · have hne : ¬ e.fd = socket.toInt := fun he => hs ((eq_toSocket_iff h).mpr he)
    rw [Function.update_of_ne hs, entrySet, List.find?_cons_of_neg (by simpa using hne)]
    rfl

theorem find?_setEntry_of_ne {f : FdEntry κ υ → FdEntry κ υ} (hf : ∀ e, (f e).fd = e.fd)
    {fd' : Int} (hne : fd' ≠ fd) :
    ((Epoll.setEntry fd f entries).find? fun e => e.fd = fd') =
      entries.find? fun e => e.fd = fd' := by
  induction entries with
  | nil => rfl
  | cons e es ih =>
      rw [Epoll.setEntry]
      split
      · next he =>
          have hneg : ¬ e.fd = fd' := fun h => hne (h.symm.trans he)
          rw [List.find?_cons_of_neg (by simpa [hf] using hneg),
            List.find?_cons_of_neg (by simpa using hneg)]
      · rw [List.find?_cons, List.find?_cons, ih]

/-- An assignment to an entry. -/
theorem entrySet_setEntry (h : IsFd fd) {f : FdEntry κ υ → FdEntry κ υ} {events : BitVec 32}
    (hf : ∀ e, (f e).fd = e.fd) (hev : ∀ e, (f e).events = events)
    (he : (entries.find? fun e => e.fd = fd) = some e) :
    entrySet (Epoll.setEntry fd f entries) =
      Function.update (entrySet entries) (toSocket fd)
        (some (sockSetEvents (toEpoll events), fd.toNat)) := by
  have hfd : e.fd = fd := by simpa using List.find?_some he
  funext socket
  by_cases hs : socket = toSocket fd
  · rw [hs, Function.update_self, entrySet_toSocket _ h, Epoll.find?_setEntry hf, he,
      Option.map_some, Option.map_some, hev, hf, hfd]
  · have hne : socket.toInt ≠ fd := fun heq => hs ((eq_toSocket_iff h).mpr heq.symm)
    rw [Function.update_of_ne hs, entrySet, find?_setEntry_of_ne hf hne]
    rfl

/-- An entry that is taken out. -/
theorem entrySet_eraseP (h : IsFd fd) (hnodup : (entries.map FdEntry.fd).Nodup) :
    entrySet (entries.eraseP fun e => e.fd = fd) =
      Function.update (entrySet entries) (toSocket fd) none := by
  rw [eraseP_key hnodup]
  funext socket
  by_cases hs : socket = toSocket fd
  · rw [hs, Function.update_self, entrySet_toSocket _ h, List.find?_filter]
    simp
  · have hne : socket.toInt ≠ fd := fun heq => hs ((eq_toSocket_iff h).mpr heq.symm)
    rw [Function.update_of_ne hs, entrySet, entrySet, List.find?_filter]
    congr 2
    funext e
    by_cases he : e.fd = socket.toInt
    · simp [he, hne]
    · simp [he]

/-! ## The invariant -/

/-- Every descriptor has one entry, the wake socket has one, and the epoll set of the port is
the one that the entries stand for. -/
structure Registered (p : WepollPoller κ υ) : Prop where
  once : (p.entries.map FdEntry.fd).Nodup
  wake : p.wakeR ∈ p.entries.map FdEntry.fd
  fds : ∀ fd ∈ p.entries.map FdEntry.fd, IsFd fd
  set : SetInv ⟨p.port, entrySet p.entries, false⟩

namespace Registered

variable {q : WepollPoller κ υ} {env : CtlEnv} {events : BitVec 32}

theorem isFd (h : p.Registered) (he : p.findEntry fd = some e) : IsFd fd := by
  have hfd : e.fd = fd := by simpa using List.find?_some he
  exact h.fds fd (List.mem_map.mpr ⟨e, List.mem_of_find?_eq_some he, hfd⟩)

/-- The port has the sockets of all entries. -/
theorem isSome_findSocket (h : p.Registered) (he : p.findEntry fd = some e) :
    (p.port.findSocket (toSocket fd)).isSome = true := by
  have hset := entrySet_toSocket p.entries (h.isFd he)
  rw [h.set.isSome_findSocket]
  dsimp only
  rw [hset, Option.isSome_map]
  exact Option.isSome_iff_exists.mpr ⟨e, he⟩

/-- An entry is written, and its socket modified. -/
theorem overwrite (h : p.Registered) (he : p.findEntry fd = some e)
    {f : FdEntry κ υ → FdEntry κ υ} (hf : ∀ e, (f e).fd = e.fd) (hev : ∀ e, (f e).events = events)
    (ho : Opened env.answers) {r : Err × WepollPoller κ υ} (hq : ({ p with
      entries := Epoll.setEntry fd f p.entries } : WepollPoller κ υ).epollCtlWrap .mod fd
        (toEpoll events) env = r) : r.1 = .ok ∧ r.2.Registered := by
  have hfind := h.isSome_findSocket he
  have hmap := Epoll.setEntry_map (f := f) FdEntry.fd hf fd p.entries
  have hset := h.set.ctlMod (not_shares_toEpoll events) ho
    (h.set.port.ctlMod h.set.deleting (toSocket fd) (toEpoll events) fd.toNat env.answers)
  rw [PortWorld.asked, if_pos hfind] at hset
  dsimp only at hset
  rw [← entrySet_setEntry (h.isFd he) hf hev he] at hset
  subst hq
  exact ⟨if_pos hfind, hmap.symm ▸ h.once, hmap.symm ▸ h.wake, hmap.symm ▸ h.fds, hset.faultless⟩

/-- `epoll_ctl` adds the socket, or leaves the epoll set as it is. -/
theorem ctlAdd (h : p.Registered) (hfd : IsFd fd) (events : BitVec 32) (cb : Option κ)
    (user : Option υ) (ho : Opened env.answers) :
    SetInv ⟨p.port.ctlAdd (toSocket fd) (toEpoll events) fd.toNat env.hasBase env.canCreate
        env.canAlloc env.answers,
      entrySet (if p.port.ctlAddOk (toSocket fd) env.hasBase env.canCreate env.canAlloc
        then ⟨fd, events, cb, user⟩ :: p.entries else p.entries), false⟩ := by
  have hset := h.set.ctlAdd (not_shares_toEpoll events) ho
    (h.set.port.ctlAdd h.set.deleting (toSocket fd) (toEpoll events) fd.toNat env.hasBase
      env.canCreate env.canAlloc env.answers)
  rw [PortWorld.asked] at hset
  cases hok : p.port.ctlAddOk (toSocket fd) env.hasBase env.canCreate env.canAlloc with
  | true =>
      rw [hok, if_pos rfl] at hset
      dsimp only at hset
      have hcons := entrySet_cons (e := ⟨fd, events, cb, user⟩) p.entries hfd
      rw [← hcons] at hset
      exact hset.faultless
  | false =>
      rw [hok, if_neg Bool.false_ne_true] at hset
      exact hset.faultless

/-- An entry is put in front, for a descriptor that has none. -/
theorem insert (h : p.Registered) (he : p.findEntry fd = none) (hfd : IsFd fd)
    {events : BitVec 32} {cb : Option κ} {user : Option υ} {s : Port}
    (hset : SetInv ⟨s, entrySet (⟨fd, events, cb, user⟩ :: p.entries), false⟩) :
    ({ p with entries := ⟨fd, events, cb, user⟩ :: p.entries, port := s } :
      WepollPoller κ υ).Registered := by
  have hnew : fd ∉ p.entries.map FdEntry.fd := by
    intro hm
    obtain ⟨e, hm, hfe⟩ := List.mem_map.mp hm
    exact List.find?_eq_none.mp he e hm (decide_eq_true hfe)
  refine ⟨List.nodup_cons.mpr ⟨hnew, h.once⟩, List.mem_cons_of_mem _ h.wake, ?_, hset⟩
  intro fd' hm
  rcases List.mem_cons.mp hm with rfl | hm
  · exact hfd
  · exact h.fds fd' hm

theorem pollerAdd (h : p.Registered) (events : BitVec 32) (cb : Option κ) (user : Option υ)
    (calloc : Bool) (hfd : fd < 2 ^ 31) (ho : Opened env.answers) :
    ((p.pollerAdd fd events cb user calloc env).1 ≠ .ok →
      (p.pollerAdd fd events cb user calloc env).2.entries = p.entries) ∧
      (p.pollerAdd fd events cb user calloc env).2.Registered := by
  rw [WepollPoller.pollerAdd]
  split
  · exact ⟨fun _ => rfl, h⟩
  · next h0 =>
      have hisfd : IsFd fd := ⟨Int.not_lt.mp h0, hfd⟩
      cases he : p.findEntry fd with
      | some e =>
          obtain ⟨hok, hreg⟩ := h.overwrite he
            (f := fun e => { e with events := events, cb := cb, user := user })
            (fun _ => rfl) (fun _ => rfl) ho rfl
          exact ⟨fun hne => absurd hok hne, hreg⟩
      | none =>
          cases calloc with
          | false => exact ⟨fun _ => rfl, h⟩
          | true =>
              have hset := h.ctlAdd hisfd events cb user ho
              simp only [epollCtlWrap, Bool.not_true, Bool.false_eq_true, if_false]
              cases hok : p.port.ctlAddOk (toSocket fd) env.hasBase env.canCreate env.canAlloc with
              | true =>
                  rw [hok, if_pos rfl] at hset
                  exact ⟨fun hne => absurd rfl hne, h.insert he hisfd hset⟩
              | false =>
                  rw [hok, if_neg Bool.false_ne_true] at hset
                  exact ⟨fun _ => rfl, h.once, h.wake, h.fds, hset⟩

theorem pollerMod (h : p.Registered) (fd : Int) (events : BitVec 32) (ho : Opened env.answers) :
    ((p.pollerMod fd events env).1 ≠ .ok → (p.pollerMod fd events env).2.entries = p.entries) ∧
      (p.pollerMod fd events env).2.Registered := by
  rw [WepollPoller.pollerMod]
  cases he : p.findEntry fd with
  | none => exact ⟨fun _ => rfl, h⟩
  | some e =>
      obtain ⟨hok, hreg⟩ := h.overwrite he (f := fun e => { e with events := events })
        (fun _ => rfl) (fun _ => rfl) ho rfl
      exact ⟨fun hne => absurd hok hne, hreg⟩

theorem pollerDel (h : p.Registered) (fd : Int) (answer : AfdAnswer) :
    ((p.pollerDel fd answer).1 ≠ .ok → (p.pollerDel fd answer).2.entries = p.entries) ∧
      (p.pollerDel fd answer).2.Registered := by
  rw [WepollPoller.pollerDel]
  split
  · exact ⟨fun _ => rfl, h⟩
  · next hwake =>
      split
      · next hsome =>
          obtain ⟨e, he⟩ := Option.isSome_iff_exists.mp hsome
          have hset := h.set.ctlDel
            (h.set.port.ctlDel h.set.deleting (toSocket fd) answer)
          rw [PortWorld.asked] at hset
          dsimp only at hset
          rw [← entrySet_eraseP (h.isFd he) h.once] at hset
          have hsub := (List.eraseP_sublist (p := fun e : FdEntry κ υ => e.fd = fd)
            (l := p.entries)).map FdEntry.fd
          refine ⟨fun hne => absurd rfl hne, h.once.sublist hsub, ?_,
            fun fd' hm => h.fds fd' (hsub.subset hm), hset.faultless⟩
          obtain ⟨e', hm, he'⟩ := List.mem_map.mp h.wake
          refine List.mem_map.mpr ⟨e', ?_, he'⟩
          rw [eraseP_key h.once, List.mem_filter]
          exact ⟨hm, by simpa [he'] using Ne.symm hwake⟩
      · exact ⟨fun _ => rfl, h⟩

theorem port (h : p.Registered) {a : PortAct} (hw : Waits a) (hsteady : a.Steady)
    (hopen : p.port.OpenPackets a) {s : Port} (hs : portStep p.port a = some s) :
    ({ p with port := s } : WepollPoller κ υ).Registered := by
  have hasked : ∀ w : PortWorld, w.asked a = (w.set, false) := by
    intro w
    cases a with
    | wait | dequeue | timeOut | leave | complete => rfl
    | ctlAdd | ctlMod | ctlDel | close | delete | deleteRoot | deleteFirst | deleteGroup | free =>
        exact hw.elim
  have hset := h.set.step ⟨hsteady, hopen⟩ (Option.map_eq_some_iff.mpr ⟨s, hs, rfl⟩)
  rw [hasked] at hset
  exact ⟨h.once, h.wake, h.fds, hset.faultless⟩

/-- After a call the entries and the epoll set agree, and if it failed the entries are as
before. -/
theorem call (h : p.Registered) {a : WepollAct κ υ} (hc : WepollUse p a) {err : Err}
    (hs : a.call p = some (err, q)) : (err ≠ .ok → q.entries = p.entries) ∧ q.Registered := by
  cases a with
  | add fd events cb user calloc env =>
      have hadd := h.pollerAdd events cb user calloc hc.1.1 hc.1.2
      rw [Option.some.inj hs] at hadd
      exact hadd
  | mod fd events env =>
      have hmod := h.pollerMod fd events hc.1
      rw [Option.some.inj hs] at hmod
      exact hmod
  | del fd answer =>
      have hdel := h.pollerDel fd answer
      rw [Option.some.inj hs] at hdel
      exact hdel
  | port a =>
      obtain ⟨s, hstep, heq⟩ := Option.map_eq_some_iff.mp hs
      cases heq
      exact ⟨fun _ => rfl, h.port hc.1.1 hc.1.2 hc.2 hstep⟩

theorem step (h : p.Registered) {a : WepollAct κ υ} (hc : WepollUse p a)
    (hs : wepollMachine.step p a = some q) : q.Registered := by
  obtain ⟨⟨err, q'⟩, hcall, heq⟩ := Option.map_eq_some_iff.mp hs
  cases heq
  exact (h.call hc hcall).2

theorem create {wakeR : Int} (hw : IsFd wakeR) (ho : Opened env.answers)
    (hc : (WepollPoller.create wakeR env : Err × WepollPoller κ υ).1 = .ok) :
    (WepollPoller.create wakeR env : Err × WepollPoller κ υ).2.Registered := by
  have hok : Port.new.ctlAddOk (toSocket wakeR) env.hasBase env.canCreate env.canAlloc = true := by
    by_contra hne
    rw [WepollPoller.create, epollCtlWrap, if_neg hne] at hc
    cases hc
  have hset := SetInv.start.ctlAdd (not_shares_toEpoll pollIn) ho
    (PortInv.new.ctlAdd rfl (toSocket wakeR) (toEpoll pollIn) wakeR.toNat
      env.hasBase env.canCreate env.canAlloc env.answers)
  have hcons := entrySet_cons (e := (⟨wakeR, pollIn, none, none⟩ : FdEntry κ υ)) [] hw
  rw [PortWorld.asked, PortWorld.start, if_pos hok] at hset
  dsimp only at hset
  have hnil : entrySet ([] : List (FdEntry κ υ)) = fun _ => none := rfl
  rw [hnil] at hcons
  rw [← hcons] at hset
  refine ⟨List.nodup_singleton _, List.mem_singleton_self _, ?_, hset.faultless⟩
  intro fd hm
  have hfd : fd = wakeR := List.mem_singleton.mp hm
  rw [hfd]
  exact hw

/-- The epoll set has the mask and the descriptor of every entry, and nothing else. -/
theorem watches (h : p.Registered) (hfd : IsFd fd) : p.port.watches (toSocket fd) =
    (p.findEntry fd).map fun e => (sockSetEvents (toEpoll e.events), fd.toNat) := by
  rw [h.set.set]
  dsimp only
  rw [entrySet_toSocket _ hfd]
  cases he : p.entries.find? fun e => e.fd = fd with
  | none => rw [findEntry, he]; rfl
  | some e =>
      have hefd : e.fd = fd := by simpa using List.find?_some he
      rw [findEntry, he, Option.map_some, Option.map_some, hefd]

/-- A modification is not refused. -/
theorem pollerMod_ok (h : p.Registered) :
    (p.pollerMod fd events env).1 = .ok ↔ (p.findEntry fd).isSome = true := by
  rw [WepollPoller.pollerMod]
  cases he : p.findEntry fd with
  | none => exact iff_of_false (by rintro ⟨⟩) (by rintro ⟨⟩)
  | some e => exact iff_of_true (if_pos (h.isSome_findSocket he)) rfl

/-- An event that `epoll_wait` returns is of an entry, and asked for. -/
theorem reports (h : p.Registered) {t now : Nat} {answers exitAnswers : Nat → AfdAnswer}
    (hc : WepollUse p (.port (.leave t now answers exitAnswers)))
    (hs : wepollMachine.step p (.port (.leave t now answers exitAnswers)) = some q) {m n : Int}
    {evs : List EpollEvent} (hw : q.port.wait t = .returned m n evs) :
    ∀ ev ∈ evs, ∃ e, p.findEntry ev.data = some e ∧ ev.events ≠ 0 ∧
      Covered ev.events (sockSetEvents (toEpoll e.events)) := by
  obtain ⟨⟨err, q'⟩, hcall, heq⟩ := Option.map_eq_some_iff.mp hs
  obtain ⟨s, hstep, heq'⟩ := Option.map_eq_some_iff.mp hcall
  cases heq
  cases heq'
  intro ev hev
  obtain ⟨socket, userEvents, hset, hne, hcov⟩ := h.set.reports ⟨hc.1.2, hc.2⟩
    (Option.map_eq_some_iff.mpr ⟨s, hstep, rfl⟩) hw ev hev
  obtain ⟨e, he, hx⟩ := Option.map_eq_some_iff.mp hset
  have hefd : e.fd = socket.toInt := by simpa using List.find?_some he
  have hfd := h.fds e.fd (List.mem_map_of_mem (List.mem_of_find?_eq_some he))
  rw [Prod.mk.injEq] at hx
  have hdata : (ev.data : Int) = socket.toInt := by
    rw [← hx.2, Int.toNat_of_nonneg hfd.1, hefd]
  refine ⟨e, ?_, hne, ?_⟩
  · rw [hdata]
    exact he
  · rw [hx.1]
    exact hcov

end Registered

end WepollPoller

/-- The entries of a poller and the epoll set of its port agree in every run: the set has the
mask of every entry and nothing else, a call that fails leaves the entries as they are,
`ztk_poller_mod` succeeds for every descriptor that has an entry, and an event that
`epoll_wait` returns is of an entry that asked for it. -/
theorem wepoll_registry_sound {wakeR : Int} {env : CtlEnv} (hw : IsFd wakeR)
    (ho : Opened env.answers)
    (hc : (WepollPoller.create wakeR env : Err × WepollPoller κ υ).1 = .ok)
    {p : WepollPoller κ υ}
    (h : wepollMachine.Leads WepollUse (WepollPoller.create wakeR env).2 p) :
    (∀ fd, IsFd fd → p.port.watches (toSocket fd) =
      (p.findEntry fd).map fun e => (sockSetEvents (toEpoll e.events), fd.toNat)) ∧
      (∀ a err q, WepollUse p a → a.call p = some (err, q) → err ≠ .ok →
        q.entries = p.entries) ∧
      (∀ fd events env, (p.pollerMod fd events env).1 = .ok ↔ (p.findEntry fd).isSome = true) ∧
      ∀ t now answers exitAnswers q, WepollUse p (.port (.leave t now answers exitAnswers)) →
        wepollMachine.step p (.port (.leave t now answers exitAnswers)) = some q →
          ∀ m n evs, q.port.wait t = .returned m n evs → ∀ ev ∈ evs,
            ∃ e, p.findEntry ev.data = some e ∧ ev.events ≠ 0 ∧
              Covered ev.events (sockSetEvents (toEpoll e.events)) := by
  have hi : p.Registered :=
    h.invariant (fun _ _ _ hi hc hs => hi.step hc hs) (.create hw ho hc)
  refine ⟨fun fd hfd => hi.watches hfd, fun a err q hc hs => (hi.call hc hs).1,
    fun fd events env => hi.pollerMod_ok, ?_⟩
  intro t now answers exitAnswers q hc hs m n evs hq
  exact hi.reports hc hs hq

/-- Everything is there that `epoll_ctl` needs. -/
def plenty : CtlEnv := ⟨true, true, true, answered⟩

/-- A descriptor is added, a second one is refused, and the first one is modified while a
thread waits. -/
def wepollRun : List (WepollAct Nat Nat) :=
  [.add 5 pollIn (some 1) (some 2) true plenty,
    .add 6 pollIn (some 1) (some 2) true { plenty with hasBase := false },
    .port (.wait 1 64 (-1) true 0 answered answered), .mod 5 pollOut plenty]

theorem wepoll_registry_sound_run :
    ∃ p : WepollPoller Nat Nat,
      wepollMachine.Leads WepollUse (WepollPoller.create 3 plenty).2 p ∧
        p.port.watches (toSocket 5) = some (sockSetEvents epollOut, 5) ∧
        p.port.watches (toSocket 6) = none := by
  have hopen : Opened plenty.answers := by
    rintro _ ⟨⟩
  obtain ⟨p, hp, h5, h6⟩ := Machine.exists_run (M := wepollMachine)
    (s := (WepollPoller.create 3 plenty).2) (l := wepollRun)
    (P := fun p => p.findEntry 5 = some ⟨5, pollOut, some 1, some 2⟩ ∧ p.findEntry 6 = none)
    (by decide)
  have hsteady : ∀ a ∈ wepollRun, a.Steady := by
    simp only [wepollRun, List.forall_mem_cons]
    exact ⟨⟨by decide, hopen⟩, ⟨by decide, hopen⟩, ⟨trivial, hopen, hopen⟩, hopen,
      fun _ h => absurd h List.not_mem_nil⟩
  have hl := Machine.leads_of_run (C := WepollUse) wepollRun _ p hp
    (Machine.runMeets_and _ _ (Machine.runMeets_of_forall _ hsteady) (by decide))
  have hset := (wepoll_registry_sound (by decide) hopen (by decide) hl).1
  refine ⟨p, hl, ?_, ?_⟩
  · rw [hset 5 (by decide), h5]
    rfl
  · rw [hset 6 (by decide), h6]
    rfl

end Ztk.Poller
