import Ztk.Poller.FdRegistry

/-!
# Sockets and the pollers they are registered with

`socket.c` over any number of sockets and epoll pollers: every operation that opens
a descriptor for a socket, gives one up, or registers it.  The user pointer of a
registration is the socket, and a socket is named by its address, which is free
again after `ztk_socket_destroy`.

The kernel hands out a descriptor that is not open, and this may be the one that the
same call has just closed.  When a descriptor is closed it leaves every interest
list.  A descriptor that is adopted is open and belongs to no socket and no poller.
These are side conditions of a run (`KernelFair`).

The invariant `Mirrored` ties the entries of the pollers to the fields `attached`,
`poller` and `fd` of the sockets.  Every operation is made of few moves: a socket is
detached, an unattached socket gets another descriptor or none (`Mirrored.assign`),
and an open unattached socket is registered.
-/

namespace Ztk.Net

open Ztk.Lib Ztk.Poller

/-! ## State -/

/-- `ztk_sock_type_t`. -/
inductive SockType where
  | none
  | tcpClient
  | tcpListen
  | tcpConnected
  | udp
deriving DecidableEq

/-- `ztk_socket`, without the callbacks of its user.  A poller is named by a
number. -/
structure RegSock where
  fd : Int
  type : SockType
  poller : Option Nat
  pollEvents : BitVec 32
  attached : Bool
  connectPending : Bool
deriving DecidableEq

/-- The sockets that exist, the pollers, and the descriptors that are open. -/
structure SocketWorld where
  socks : Nat → Option RegSock
  pollers : Nat → Epoll Unit Nat
  opened : Int → Bool

/-- The pollers with their wake descriptors, before there are sockets. -/
structure Boot where
  wake : Nat → Nat
  opened : Int → Bool
  wake_open : ∀ p, opened (wake p) = true

/-- `ztk_socket_create`. -/
def RegSock.create : RegSock := ⟨-1, .none, none, 0, false, false⟩

/-- `default_poll_events`. -/
def RegSock.defaultPollEvents (s : RegSock) : BitVec 32 :=
  if s.connectPending then pollIn ||| pollErr ||| pollHup ||| pollOut
  else pollIn ||| pollErr ||| pollHup

/-- `ztk_socket_detach_poller` has something to do. -/
def RegSock.registered (s : RegSock) : Bool := s.attached && s.poller.isSome && 0 ≤ s.fd

/-- The socket after `ztk_socket_detach_poller`. -/
def RegSock.detached (s : RegSock) : RegSock :=
  if s.registered then { s with attached := false, poller := none } else s

theorem RegSock.detached_fd (s : RegSock) : s.detached.fd = s.fd := by
  simp only [RegSock.detached]
  split <;> rfl

namespace SocketWorld

def start (b : Boot) : SocketWorld := ⟨fun _ => none, fun p => Epoll.create (b.wake p), b.opened⟩

/-- An assignment to a socket. -/
def setSock (w : SocketWorld) (i : Nat) (s : Option RegSock) : SocketWorld :=
  { w with socks := Function.update w.socks i s }

@[simp] theorem setSock_self (w : SocketWorld) (i : Nat) (s : Option RegSock) :
    (w.setSock i s).socks i = s := by
  simp [setSock]

theorem setSock_ne (w : SocketWorld) {i j : Nat} (h : j ≠ i) (s : Option RegSock) :
    (w.setSock i s).socks j = w.socks j := by
  simp [setSock, h]

@[simp] theorem setSock_opened (w : SocketWorld) (i : Nat) (s : Option RegSock) :
    (w.setSock i s).opened = w.opened := rfl

@[simp] theorem setSock_pollers (w : SocketWorld) (i : Nat) (s : Option RegSock) :
    (w.setSock i s).pollers = w.pollers := rfl

def setPoller (w : SocketWorld) (p : Nat) (q : Epoll Unit Nat) : SocketWorld :=
  { w with pollers := Function.update w.pollers p q }

/-! ## The functions of the source -/

/-- `close(fd)`. -/
def sockplatClose (w : SocketWorld) (fd : Int) : SocketWorld :=
  { w with
    opened := Function.update w.opened fd false
    pollers := fun p =>
      { w.pollers p with interest := Function.update (w.pollers p).interest fd none } }

/-- `close_fd`. -/
def closeFd (w : SocketWorld) (i : Nat) : SocketWorld :=
  match w.socks i with
  | none => w
  | some s => if s.fd < 0 then w else (w.sockplatClose s.fd).setSock i (some { s with fd := -1 })

/-- `ztk_socket_detach_poller`. -/
def detachPoller (w : SocketWorld) (i : Nat) : SocketWorld :=
  match w.socks i with
  | none => w
  | some s =>
      if !s.registered then w
      else
        let p := s.poller.getD 0
        (w.setPoller p ((w.pollers p).pollerDel s.fd).2).setSock i (some s.detached)

/-- The assignments to a socket that has got a descriptor. -/
def takeFd (w : SocketWorld) (i : Nat) (fd : Int) (type : SockType) (pending : Bool) :
    SocketWorld :=
  match w.socks i with
  | none => w
  | some s =>
      { w with opened := Function.update w.opened fd true }.setSock i
        (some { s with fd := fd, type := type, connectPending := pending })

/-- The operations that open a descriptor.  `init` says that `ensure_sockplat`
succeeds, and `plat` and `fd` are what the platform returns. -/
def reopen (w : SocketWorld) (i : Nat) (init : Bool) (plat : Err) (fd : Nat) (type : SockType)
    (pending : Bool) : Err × SocketWorld :=
  if !init then (.platform, w)
  else
    let w := (w.detachPoller i).closeFd i
    if plat = .ok then (.ok, w.takeFd i fd type pending) else (plat, w)

/-- `ztk_socket_listen`. -/
def listen (w : SocketWorld) (i : Nat) (init : Bool) (plat : Err) (fd : Nat) : Err × SocketWorld :=
  w.reopen i init plat fd .tcpListen false

/-- `ztk_socket_bind_udp_ex`. -/
def bindUdpEx (w : SocketWorld) (i : Nat) (init : Bool) (plat : Err) (fd : Nat) :
    Err × SocketWorld :=
  w.reopen i init plat fd .udp false

/-- `ztk_socket_connect`.  A host may be null. -/
def connect (w : SocketWorld) (i : Nat) (host init : Bool) (plat : Err) (fd : Nat)
    (pending : Bool) : Err × SocketWorld :=
  if !host then (.invalid, w)
  else w.reopen i init plat fd (if pending then .tcpClient else .tcpConnected) pending

/-- `ztk_socket_adopt`, where setting the options of the descriptor returns `opts`. -/
def adopt (w : SocketWorld) (i : Nat) (fd : Int) (type : SockType) (init : Bool) (opts : Err) :
    Err × SocketWorld :=
  if fd < 0 then (.invalid, w)
  else if !init then (.platform, w)
  else
    let w := (w.detachPoller i).closeFd i
    if type = .none then (.invalid, w)
    else if opts = .ok then (.ok, w.takeFd i fd type false)
    else (opts, w)

/-- `ztk_socket_accept` on the socket `l`, with memory for a socket at `i` or not. -/
def accept (w : SocketWorld) (l i : Nat) (plat : Err) (cfd : Nat) (calloc : Bool) :
    Err × SocketWorld :=
  if (w.socks l).map RegSock.type ≠ some .tcpListen then (.invalid, w)
  else if plat ≠ .ok then (plat, w)
  else if !calloc then (.nomem, w.sockplatClose cfd)
  else
    (.ok, { w with opened := Function.update w.opened cfd true }.setSock i
      (some { RegSock.create with fd := cfd, type := .tcpConnected }))

/-- `ztk_socket_attach_poller`. -/
def attachPoller (w : SocketWorld) (i p : Nat) (calloc ctl : Bool) : Err × SocketWorld :=
  match w.socks i with
  | none => (.invalid, w)
  | some s =>
      if s.fd < 0 then (.invalid, w)
      else
        let w := w.detachPoller i
        let s := { s.detached with poller := some p, pollEvents := s.defaultPollEvents }
        match (w.pollers p).pollerAdd s.fd s.pollEvents (some ()) (some i) calloc ctl with
        | (.ok, q) => (.ok, (w.setPoller p q).setSock i (some { s with attached := true }))
        | (err, q) => (err, (w.setPoller p q).setSock i (some s))

/-- `ztk_socket_mod_events`. -/
def modEvents (w : SocketWorld) (i : Nat) (events : BitVec 32) (ctl : Bool) : Err × SocketWorld :=
  match w.socks i with
  | none => (.invalid, w)
  | some s =>
      match s.poller with
      | none => (.state, w)
      | some p =>
          if !s.attached then (.state, w)
          else
            let (err, q) := (w.pollers p).pollerMod s.fd events ctl
            (err, (w.setPoller p q).setSock i (some { s with pollEvents := events }))

/-- `ztk_socket_destroy`. -/
def destroy (w : SocketWorld) (i : Nat) : SocketWorld :=
  ((w.detachPoller i).closeFd i).setSock i none

end SocketWorld

/-! ## The machine -/

inductive SocketLabel where
  | create (i : Nat)
  | listen (i : Nat) (init : Bool) (plat : Err) (fd : Nat)
  | bindUdpEx (i : Nat) (init : Bool) (plat : Err) (fd : Nat)
  | connect (i : Nat) (host init : Bool) (plat : Err) (fd : Nat) (pending : Bool)
  | adopt (i : Nat) (fd : Int) (type : SockType) (init : Bool) (opts : Err)
  | accept (l i : Nat) (plat : Err) (cfd : Nat) (calloc : Bool)
  | attachPoller (i p : Nat) (calloc ctl : Bool)
  | detachPoller (i : Nat)
  | modEvents (i : Nat) (events : BitVec 32) (ctl : Bool)
  | destroy (i : Nat)
  /-- The application opens a descriptor of its own. -/
  | appOpen (fd : Nat)
  /-- The application closes a descriptor of its own. -/
  | appClose (fd : Int)

/-- One step.  Only sockets that exist are passed to a function, and a new socket
is at a free address. -/
def socketStep (w : SocketWorld) : SocketLabel → Option SocketWorld
  | .create i => if w.socks i = none then some (w.setSock i (some .create)) else none
  | .listen i init plat fd =>
      if w.socks i = none then none else some (w.listen i init plat fd).2
  | .bindUdpEx i init plat fd =>
      if w.socks i = none then none else some (w.bindUdpEx i init plat fd).2
  | .connect i host init plat fd pending =>
      if w.socks i = none then none else some (w.connect i host init plat fd pending).2
  | .adopt i fd type init opts =>
      if w.socks i = none then none else some (w.adopt i fd type init opts).2
  | .accept l i plat cfd calloc =>
      if w.socks l ≠ none ∧ w.socks i = none then some (w.accept l i plat cfd calloc).2 else none
  | .attachPoller i p calloc ctl =>
      if w.socks i = none then none else some (w.attachPoller i p calloc ctl).2
  | .detachPoller i => if w.socks i = none then none else some (w.detachPoller i)
  | .modEvents i events ctl =>
      if w.socks i = none then none else some (w.modEvents i events ctl).2
  | .destroy i => if w.socks i = none then none else some (w.destroy i)
  | .appOpen fd => some { w with opened := Function.update w.opened fd true }
  | .appClose fd => some (w.sockplatClose fd)

def socketMachine : Machine SocketWorld SocketLabel := ⟨socketStep⟩

namespace SocketWorld

/-- The descriptor belongs to no socket and is not the wake descriptor of a poller. -/
def Unowned (w : SocketWorld) (fd : Int) : Prop :=
  (∀ i s, w.socks i = some s → s.fd ≠ fd) ∧ ∀ p, fd ≠ (w.pollers p).wakeR

/-- The kernel hands out descriptors that are not open, and the application disposes
only of its own. -/
def KernelFair (w : SocketWorld) : SocketLabel → Prop
  | .listen i _ _ fd | .bindUdpEx i _ _ fd | .connect i _ _ _ fd _ =>
      ((w.detachPoller i).closeFd i).opened fd = false
  | .adopt _ fd _ _ _ => w.opened fd = true ∧ w.Unowned fd
  | .accept _ _ _ cfd _ => w.opened cfd = false
  | .appOpen fd => w.opened fd = false
  | .appClose fd => w.Unowned fd
  | .create _ | .attachPoller _ _ _ _ | .detachPoller _ | .modEvents _ _ _ | .destroy _ => True

/-! ## What the moves leave alone -/

variable {w : SocketWorld} {i p : Nat} {s : RegSock}

/-- The two ways of `ztk_socket_detach_poller`. -/
theorem detachPoller_cases (w : SocketWorld) (i : Nat) :
    (w.detachPoller i = w ∧ ∀ s, w.socks i = some s → s.registered = false) ∨
      ∃ s p, w.socks i = some s ∧ s.registered = true ∧ s.poller = some p ∧
        w.detachPoller i =
          (w.setPoller p ((w.pollers p).pollerDel s.fd).2).setSock i (some s.detached) := by
  simp only [detachPoller]
  split
  · next hs => exact Or.inl ⟨rfl, fun s hs' => by rw [hs] at hs'; cases hs'⟩
  · next s hs =>
      split
      · next hr =>
          refine Or.inl ⟨rfl, fun s' hs' => ?_⟩
          rw [hs, Option.some.injEq] at hs'
          subst hs'
          rwa [Bool.not_eq_true'] at hr
      · next hr =>
          rw [Bool.not_eq_true', Bool.not_eq_false] at hr
          have hp : s.poller.isSome = true := by
            simp only [RegSock.registered, Bool.and_eq_true] at hr
            exact hr.1.2
          obtain ⟨p, hp⟩ := Option.isSome_iff_exists.mp hp
          refine Or.inr ⟨s, p, hs, hr, hp, ?_⟩
          rw [hp, Option.getD_some]

theorem detachPoller_socks (w : SocketWorld) (i : Nat) :
    (w.detachPoller i).socks = Function.update w.socks i ((w.socks i).map RegSock.detached) := by
  rcases detachPoller_cases w i with ⟨heq, hr⟩ | ⟨s, p, hs, -, -, heq⟩
  · have hsame : (w.socks i).map RegSock.detached = w.socks i := by
      cases hs : w.socks i with
      | none => rfl
      | some s => simp [RegSock.detached, hr s hs]
    rw [heq, hsame, Function.update_eq_self]
  · rw [heq, hs]
    rfl

theorem detachPoller_opened (w : SocketWorld) (i : Nat) : (w.detachPoller i).opened = w.opened := by
  rcases detachPoller_cases w i with ⟨heq, -⟩ | ⟨s, p, -, -, -, heq⟩
  · rw [heq]
  · rw [heq]
    rfl

theorem setPoller_wakeR (w : SocketWorld) {p : Nat} {q : Epoll Unit Nat}
    (hq : q.wakeR = (w.pollers p).wakeR) (r : Nat) :
    ((w.setPoller p q).pollers r).wakeR = (w.pollers r).wakeR := by
  by_cases hr : r = p
  · subst hr
    simpa [setPoller] using hq
  · simp [setPoller, hr]

theorem detachPoller_wakeR (w : SocketWorld) (i q : Nat) :
    ((w.detachPoller i).pollers q).wakeR = (w.pollers q).wakeR := by
  rcases detachPoller_cases w i with ⟨heq, -⟩ | ⟨s, p, -, -, -, heq⟩
  · rw [heq]
  · rw [heq, setSock_pollers]
    exact setPoller_wakeR w (Epoll.pollerDel_wakeR _ _) q

theorem closeFd_socks_ne (w : SocketWorld) {i j : Nat} (hj : j ≠ i) :
    (w.closeFd i).socks j = w.socks j := by
  simp only [closeFd]
  split
  · rfl
  · split
    · rfl
    · exact setSock_ne _ hj _

theorem closeFd_wakeR (w : SocketWorld) (i q : Nat) :
    ((w.closeFd i).pollers q).wakeR = (w.pollers q).wakeR := by
  simp only [closeFd]
  split
  · rfl
  · split <;> rfl

/-! ## The invariant -/

/-- The entry is the one of a socket that is attached to this poller. -/
def EntryOf (w : SocketWorld) (p : Nat) (e : FdEntry Unit Nat) (i : Nat) : Prop :=
  ∃ s, w.socks i = some s ∧ s.attached = true ∧ s.poller = some p ∧ s.fd = e.fd ∧ 0 ≤ s.fd

structure Mirrored (w : SocketWorld) : Prop where
  /-- An entry is that of the wake descriptor or of an attached socket. -/
  entry : ∀ p, ∀ e ∈ (w.pollers p).entries,
    e.user = none ∧ e.fd = (w.pollers p).wakeR ∨ ∃ i, e.user = some i ∧ w.EntryOf p e i
  /-- An attached socket has an entry. -/
  entered : ∀ i s, w.socks i = some s → s.attached = true →
    ∃ p, s.poller = some p ∧ ∃ e ∈ (w.pollers p).entries, e.user = some i
  once : ∀ p, ((w.pollers p).entries.map FdEntry.fd).Nodup
  wake : ∀ p, w.opened (w.pollers p).wakeR = true
  opened : ∀ i s, w.socks i = some s → 0 ≤ s.fd →
    w.opened s.fd = true ∧ ∀ p, s.fd ≠ (w.pollers p).wakeR
  distinct : ∀ i j s t, w.socks i = some s → w.socks j = some t → 0 ≤ s.fd → s.fd = t.fd → i = j

/-- What the invariant says of descriptors. -/
structure Owned (w : SocketWorld) : Prop where
  wake : ∀ p, w.opened (w.pollers p).wakeR = true
  opened : ∀ i s, w.socks i = some s → 0 ≤ s.fd →
    w.opened s.fd = true ∧ ∀ p, s.fd ≠ (w.pollers p).wakeR
  distinct : ∀ i j s t, w.socks i = some s → w.socks j = some t → 0 ≤ s.fd → s.fd = t.fd → i = j

/-- A change that leaves the descriptors alone. -/
theorem Owned.congr (h : w.Owned) {v : SocketWorld}
    (hwake : ∀ p, (v.pollers p).wakeR = (w.pollers p).wakeR) (hopened : v.opened = w.opened)
    (hsock : ∀ j t, v.socks j = some t → ∃ t', w.socks j = some t' ∧ t.fd = t'.fd) : v.Owned where
  wake := by
    intro p
    rw [hwake, hopened]
    exact h.wake p
  opened := by
    intro j t ht h0
    obtain ⟨t', ht', hfd⟩ := hsock j t ht
    simp only [hwake, hopened, hfd]
    exact h.opened j t' ht' (hfd ▸ h0)
  distinct := by
    intro j k t u ht hu h0 he
    obtain ⟨t', ht', hfd⟩ := hsock j t ht
    obtain ⟨u', hu', hfd'⟩ := hsock k u hu
    exact h.distinct j k t' u' ht' hu' (hfd ▸ h0) (by rw [← hfd, ← hfd', he])

namespace Mirrored

theorem owned (h : w.Mirrored) : w.Owned := ⟨h.wake, h.opened, h.distinct⟩

/-- The entry of an attached socket. -/
theorem find (h : w.Mirrored) (hs : w.socks i = some s) (ha : s.attached = true) :
    ∃ p, s.poller = some p ∧ 0 ≤ s.fd ∧
      ∃ e ∈ (w.pollers p).entries, e.user = some i ∧ e.fd = s.fd := by
  obtain ⟨p, hp, e, he, hu⟩ := h.entered i s hs ha
  refine ⟨p, hp, ?_⟩
  rcases h.entry p e he with ⟨hn, -⟩ | ⟨j, hj, t, ht, -, -, hfd, h0⟩
  · rw [hu] at hn
    cases hn
  · rw [hu, Option.some.injEq] at hj
    subst hj
    rw [hs, Option.some.injEq] at ht
    subst ht
    exact ⟨h0, e, he, hu, hfd.symm⟩

/-- A change that leaves the pollers' entries alone, and sockets that are attached. -/
theorem assign (h : w.Mirrored) (hfree : ∀ s, w.socks i = some s → s.attached = false)
    {v : SocketWorld} (o : Option RegSock) (hsocks : v.socks = Function.update w.socks i o)
    (hentries : ∀ p, (v.pollers p).entries = (w.pollers p).entries)
    (hwake : ∀ p, (v.pollers p).wakeR = (w.pollers p).wakeR)
    (hopen : ∀ fd, w.opened fd = true → (∀ s, w.socks i = some s → 0 ≤ s.fd → s.fd ≠ fd) →
      v.opened fd = true)
    (ho : ∀ s, o = some s → s.attached = false ∧
      (0 ≤ s.fd → v.opened s.fd = true ∧ (∀ p, s.fd ≠ (w.pollers p).wakeR) ∧
        ∀ j t, j ≠ i → w.socks j = some t → t.fd ≠ s.fd)) : v.Mirrored := by
  have hother : ∀ j, j ≠ i → v.socks j = w.socks j := by
    intro j hj
    rw [hsocks, Function.update_of_ne hj]
  have hself : ∀ s, v.socks i = some s → o = some s := by
    intro s hs
    rwa [hsocks, Function.update_self] at hs
  constructor
  case entry =>
    intro p e he
    rw [hentries] at he
    rw [hwake]
    rcases h.entry p e he with hw | ⟨j, hj, t, ht, ha, hrest⟩
    · exact Or.inl hw
    · have hne : j ≠ i := by
        rintro rfl
        rw [hfree t ht] at ha
        cases ha
      exact Or.inr ⟨j, hj, t, (hother j hne).trans ht, ha, hrest⟩
  case entered =>
    intro j t ht ha
    have hne : j ≠ i := by
      rintro rfl
      rw [(ho t (hself t ht)).1] at ha
      cases ha
    rw [hother j hne] at ht
    obtain ⟨p, hp, he⟩ := h.entered j t ht ha
    exact ⟨p, hp, (hentries p).symm ▸ he⟩
  case once =>
    intro p
    rw [hentries]
    exact h.once p
  case wake =>
    intro p
    rw [hwake]
    exact hopen _ (h.wake p) fun s hs h0 => (h.opened i s hs h0).2 p
  case opened =>
    intro j t ht h0
    simp only [hwake]
    by_cases hj : j = i
    · subst hj
      have ho' := (ho t (hself t ht)).2 h0
      exact ⟨ho'.1, ho'.2.1⟩
    · rw [hother j hj] at ht
      have hot := h.opened j t ht h0
      exact ⟨hopen _ hot.1 fun s hs hs0 he => hj (h.distinct i j s t hs ht hs0 he).symm, hot.2⟩
  case distinct =>
    intro j k t u ht hu h0 he
    by_cases hj : j = i
    · by_cases hk : k = i
      · rw [hj, hk]
      · subst hj
        rw [hother k hk] at hu
        exact absurd he.symm (((ho t (hself t ht)).2 h0).2.2 k u hk hu)
    · rw [hother j hj] at ht
      by_cases hk : k = i
      · subst hk
        exact absurd he (((ho u (hself u hu)).2 (he ▸ h0)).2.2 j t hj ht)
      · rw [hother k hk] at hu
        exact h.distinct j k t u ht hu h0 he

/-- A registration that `ztk_socket_detach_poller` sees is one in the poller. -/
theorem registered_iff (h : w.Mirrored) (hs : w.socks i = some s) :
    s.registered = true ↔ s.attached = true := by
  constructor
  · intro hr
    simp only [RegSock.registered, Bool.and_eq_true] at hr
    exact hr.1.1
  · intro ha
    obtain ⟨p, hp, h0, -⟩ := h.find hs ha
    simp [RegSock.registered, ha, hp, h0]

theorem detached_free (h : w.Mirrored) (hs : w.socks i = some s) : s.detached.attached = false := by
  simp only [RegSock.detached]
  split
  · rfl
  · next hr =>
      rw [h.registered_iff hs, Bool.not_eq_true] at hr
      exact hr

/-- The removal of the entry of an attached socket. -/
theorem del_eq (h : w.Mirrored) (hs : w.socks i = some s) (ha : s.attached = true) (p : Nat) :
    ((w.pollers p).pollerDel s.fd).2.entries = (w.pollers p).entries.filter fun e => e.fd ≠ s.fd := by
  obtain ⟨-, -, h0, -⟩ := h.find hs ha
  exact Epoll.pollerDel_entries (h.once p) ((h.opened i s hs h0).2 p)

/-- `ztk_socket_detach_poller` keeps the invariant. -/
theorem detach (h : w.Mirrored) (i : Nat) : (w.detachPoller i).Mirrored := by
  rcases detachPoller_cases w i with ⟨heq, -⟩ | ⟨s, p, hs, hr, hp, heq⟩
  · rw [heq]
    exact h
  have ha := (h.registered_iff hs).mp hr
  have hfree := h.detached_free hs
  have hself : (w.detachPoller i).socks i = some s.detached := by
    rw [detachPoller_socks, Function.update_self, hs, Option.map_some]
  have hother : ∀ j, j ≠ i → (w.detachPoller i).socks j = w.socks j := fun j hj => by
    rw [detachPoller_socks, Function.update_of_ne hj]
  have hentries : ∀ q, ((w.detachPoller i).pollers q).entries =
      (w.pollers q).entries.filter fun e => q = p → e.fd ≠ s.fd := by
    intro q
    rw [heq]
    show (Function.update w.pollers p ((w.pollers p).pollerDel s.fd).2 q).entries = _
    by_cases hq : q = p
    · subst hq
      simp [h.del_eq hs ha q]
    · simp [hq]
  have hsock : ∀ j t, (w.detachPoller i).socks j = some t →
      ∃ t', w.socks j = some t' ∧ t.fd = t'.fd := by
    intro j t ht
    by_cases hj : j = i
    · subst hj
      rw [hself, Option.some.injEq] at ht
      exact ⟨s, hs, ht ▸ s.detached_fd⟩
    · rw [hother j hj] at ht
      exact ⟨t, ht, rfl⟩
  have hown := h.owned.congr (detachPoller_wakeR w i) (detachPoller_opened w i) hsock
  constructor
  case entry =>
    intro q e he
    rw [hentries, List.mem_filter, decide_eq_true_eq] at he
    rw [detachPoller_wakeR]
    rcases h.entry q e he.1 with hw | ⟨j, hj, t, ht, hat, hq, hfd, h0⟩
    · exact Or.inl hw
    · have hne : j ≠ i := by
        rintro rfl
        rw [hs, Option.some.injEq] at ht
        subst ht
        rw [hp, Option.some.injEq] at hq
        exact he.2 hq.symm hfd.symm
      exact Or.inr ⟨j, hj, t, (hother j hne).trans ht, hat, hq, hfd, h0⟩
  case entered =>
    intro j t ht hat
    have hne : j ≠ i := by
      rintro rfl
      rw [hself, Option.some.injEq] at ht
      rw [← ht, hfree] at hat
      cases hat
    rw [hother j hne] at ht
    obtain ⟨q, hq, h0, e, he, hu, hfd⟩ := h.find ht hat
    refine ⟨q, hq, e, ?_, hu⟩
    rw [hentries, List.mem_filter, decide_eq_true_eq]
    exact ⟨he, fun _ hes => hne (h.distinct j i t s ht hs h0 (hfd.symm.trans hes))⟩
  case once =>
    intro q
    rw [hentries]
    exact (h.once q).sublist (List.filter_sublist.map FdEntry.fd)
  case wake => exact hown.wake
  case opened => exact hown.opened
  case distinct => exact hown.distinct

/-- `close_fd` of a socket that is not attached. -/
theorem close (h : w.Mirrored) (hfree : ∀ s, w.socks i = some s → s.attached = false) :
    (w.closeFd i).Mirrored := by
  simp only [closeFd]
  split
  · exact h
  · next s hs =>
      split
      · exact h
      · refine h.assign hfree (some { s with fd := -1 }) rfl (fun _ => rfl) (fun _ => rfl) ?_ ?_
        · intro fd hfd hne
          refine (Function.update_of_ne ?_ _ _).trans hfd
          exact (hne s hs (Int.not_lt.mp ‹_›)).symm
        · rintro t ⟨⟩
          refine ⟨hfree s hs, fun h0 => ?_⟩
          have h0 : (0 : Int) ≤ -1 := h0
          omega

/-- A socket without a descriptor. -/
def Bare (w : SocketWorld) (i : Nat) : Prop :=
  ∀ s, w.socks i = some s → s.attached = false ∧ s.fd < 0

theorem detach_free (h : w.Mirrored) :
    ∀ s, (w.detachPoller i).socks i = some s → s.attached = false := by
  intro s hs
  rw [detachPoller_socks, Function.update_self] at hs
  obtain ⟨s', hs', rfl⟩ := Option.map_eq_some_iff.mp hs
  exact h.detached_free hs'

theorem release (h : w.Mirrored) (i : Nat) : ((w.detachPoller i).closeFd i).Mirrored :=
  (h.detach i).close h.detach_free

theorem release_bare (h : w.Mirrored) (i : Nat) : Bare ((w.detachPoller i).closeFd i) i := by
  intro s hs
  simp only [closeFd] at hs
  split at hs
  · next hn =>
      rw [hn] at hs
      cases hs
  · next t ht =>
      have hfree := h.detach_free t ht
      split at hs
      · next hlt =>
          rw [ht, Option.some.injEq] at hs
          exact hs ▸ ⟨hfree, hlt⟩
      · rw [setSock_self, Option.some.injEq] at hs
        subst hs
        exact ⟨hfree, show (-1 : Int) < 0 by decide⟩

/-- A bare socket gets a descriptor that belongs to nobody. -/
theorem take (h : w.Mirrored) (hbare : Bare w i) {fd : Int} (hun : w.Unowned fd)
    (type : SockType) (pending : Bool) : (w.takeFd i fd type pending).Mirrored := by
  simp only [takeFd]
  split
  · exact h
  · next s hs =>
      refine h.assign (fun s hs => (hbare s hs).1)
        (some { s with fd := fd, type := type, connectPending := pending }) rfl (fun _ => rfl)
        (fun _ => rfl) ?_ ?_
      · intro fd' hfd' _
        by_cases heq : fd' = fd
        · rw [heq]
          exact Function.update_self fd true w.opened
        · exact (Function.update_of_ne heq _ _).trans hfd'
      · rintro t ⟨⟩
        refine ⟨(hbare s hs).1, fun _ => ⟨?_, hun.2, fun j t _ ht => hun.1 j t ht⟩⟩
        rw [setSock_opened]
        exact Function.update_self fd true w.opened

/-- A descriptor that is not open belongs to nobody. -/
theorem unowned (h : w.Mirrored) {fd : Nat} (ho : w.opened fd = false) : w.Unowned fd := by
  constructor
  · intro i s hs he
    have := (h.opened i s hs (by omega)).1
    rw [he, ho] at this
    cases this
  · intro p he
    have := h.wake p
    rw [← he, ho] at this
    cases this

theorem reopen (h : w.Mirrored) {init : Bool} {plat : Err} {fd : Nat} (type : SockType)
    (pending : Bool) (hfair : ((w.detachPoller i).closeFd i).opened fd = false) :
    (w.reopen i init plat fd type pending).2.Mirrored := by
  rw [SocketWorld.reopen]
  split
  · exact h
  · simp only
    split
    · exact (h.release i).take (h.release_bare i) ((h.release i).unowned hfair) type pending
    · exact h.release i

theorem adopt (h : w.Mirrored) {fd : Int} (hun : w.Unowned fd) (type : SockType) (init : Bool)
    (opts : Err) : (w.adopt i fd type init opts).2.Mirrored := by
  rw [SocketWorld.adopt]
  split
  · exact h
  · next h0 =>
      split
      · exact h
      · simp only
        split
        · exact h.release i
        · split
          · refine (h.release i).take (h.release_bare i) ⟨fun j t ht he => ?_, fun q => ?_⟩ type false
            · by_cases hj : j = i
              · subst hj
                have hlt := (h.release_bare j t ht).2
                omega
              · rw [closeFd_socks_ne _ hj, detachPoller_socks, Function.update_of_ne hj] at ht
                exact hun.1 j t ht he
            · rw [closeFd_wakeR, detachPoller_wakeR]
              exact hun.2 q
          · exact h.release i

/-- A socket at a free address. -/
theorem fresh (h : w.Mirrored) (hi : w.socks i = none) : (w.setSock i (some .create)).Mirrored := by
  refine h.assign (fun s hs => by rw [hi] at hs; cases hs) (some .create) rfl (fun _ => rfl)
    (fun _ => rfl) (fun fd hfd _ => hfd) ?_
  rintro t ⟨⟩
  refine ⟨rfl, fun h0 => ?_⟩
  have h0 : (0 : Int) ≤ -1 := h0
  omega

/-- A descriptor that belongs to nobody is opened or closed. -/
theorem foreign (h : w.Mirrored) {v : SocketWorld} {fd : Int} (hun : w.Unowned fd)
    (hsocks : v.socks = w.socks) (hentries : ∀ p, (v.pollers p).entries = (w.pollers p).entries)
    (hwake : ∀ p, (v.pollers p).wakeR = (w.pollers p).wakeR)
    (hopen : ∀ fd', fd' ≠ fd → v.opened fd' = w.opened fd') : v.Mirrored where
  entry := by
    intro p e he
    rw [hentries] at he
    rw [hwake]
    simp only [EntryOf, hsocks]
    exact h.entry p e he
  entered := by
    intro i s hs ha
    rw [hsocks] at hs
    obtain ⟨p, hp, he⟩ := h.entered i s hs ha
    exact ⟨p, hp, (hentries p).symm ▸ he⟩
  once := fun p => (hentries p).symm ▸ h.once p
  wake := by
    intro p
    rw [hwake, hopen _ (hun.2 p).symm]
    exact h.wake p
  opened := by
    intro i s hs h0
    rw [hsocks] at hs
    simp only [hwake]
    rw [hopen _ (hun.1 i s hs)]
    exact h.opened i s hs h0
  distinct := by
    rw [hsocks]
    exact h.distinct

theorem accept (h : w.Mirrored) {l : Nat} {plat : Err} {cfd : Nat} {calloc : Bool}
    (hi : w.socks i = none) (hfair : w.opened cfd = false) :
    (w.accept l i plat cfd calloc).2.Mirrored := by
  have hun := h.unowned hfair
  simp only [SocketWorld.accept]
  split
  · exact h
  · split
    · exact h
    · split
      · exact h.foreign hun rfl (fun _ => rfl) (fun _ => rfl)
          fun fd' hne => Function.update_of_ne hne _ _
      · refine h.assign (fun s hs => by rw [hi] at hs; cases hs)
          (some { RegSock.create with fd := cfd, type := .tcpConnected }) rfl (fun _ => rfl)
          (fun _ => rfl) ?_ ?_
        · intro fd hfd _
          by_cases heq : fd = cfd
          · rw [heq]
            exact Function.update_self (cfd : Int) true w.opened
          · exact (Function.update_of_ne heq _ _).trans hfd
        · rintro t ⟨⟩
          refine ⟨rfl, fun _ => ⟨?_, hun.2, fun j t _ ht => hun.1 j t ht⟩⟩
          rw [setSock_opened]
          exact Function.update_self (cfd : Int) true w.opened

/-- What the invariant looks at. -/
theorem congr (h : w.Mirrored) {v : SocketWorld}
    (hkeys : ∀ p, (v.pollers p).entries.map (fun e => (e.fd, e.user)) =
      (w.pollers p).entries.map fun e => (e.fd, e.user))
    (hwake : ∀ p, (v.pollers p).wakeR = (w.pollers p).wakeR) (hopened : v.opened = w.opened)
    (hsocks : ∀ j, (v.socks j).map (fun s => (s.fd, s.attached, s.poller)) =
      (w.socks j).map fun s => (s.fd, s.attached, s.poller)) : v.Mirrored := by
  have hfrom : ∀ j t, v.socks j = some t → ∃ t', w.socks j = some t' ∧ t'.fd = t.fd ∧
      t'.attached = t.attached ∧ t'.poller = t.poller := by
    intro j t ht
    have hj := hsocks j
    rw [ht, Option.map_some, eq_comm, Option.map_eq_some_iff] at hj
    obtain ⟨t', ht', heq⟩ := hj
    simp only [Prod.mk.injEq] at heq
    exact ⟨t', ht', heq⟩
  have hto : ∀ j t, w.socks j = some t → ∃ t', v.socks j = some t' ∧ t'.fd = t.fd ∧
      t'.attached = t.attached ∧ t'.poller = t.poller := by
    intro j t ht
    have hj := hsocks j
    rw [ht, Option.map_some, Option.map_eq_some_iff] at hj
    obtain ⟨t', ht', heq⟩ := hj
    simp only [Prod.mk.injEq] at heq
    exact ⟨t', ht', heq⟩
  have hown := h.owned.congr hwake hopened fun j t ht => by
    obtain ⟨t', ht', hfd, -⟩ := hfrom j t ht
    exact ⟨t', ht', hfd.symm⟩
  constructor
  case entry =>
    intro p e he
    have hm := List.mem_map_of_mem (f := fun e : FdEntry Unit Nat => (e.fd, e.user)) he
    rw [hkeys, List.mem_map] at hm
    obtain ⟨e', he', heq⟩ := hm
    simp only [Prod.mk.injEq] at heq
    rw [hwake, ← heq.1, ← heq.2]
    rcases h.entry p e' he' with hw | ⟨j, hj, t, ht, ha, hp, hfd, h0⟩
    · exact Or.inl hw
    · obtain ⟨t', ht', hfd', ha', hp'⟩ := hto j t ht
      exact Or.inr ⟨j, hj, t', ht', ha'.trans ha, hp'.trans hp, (hfd'.trans hfd).trans heq.1,
        hfd' ▸ h0⟩
  case entered =>
    intro j t ht ha
    obtain ⟨t', ht', -, ha', hp'⟩ := hfrom j t ht
    obtain ⟨p, hp, e, he, hu⟩ := h.entered j t' ht' (ha'.trans ha)
    have hm := List.mem_map_of_mem (f := fun e : FdEntry Unit Nat => (e.fd, e.user)) he
    rw [← hkeys, List.mem_map] at hm
    obtain ⟨e', he', heq⟩ := hm
    simp only [Prod.mk.injEq] at heq
    exact ⟨p, hp'.symm.trans hp, e', he', heq.2.trans hu⟩
  case once =>
    intro p
    have hfds := congrArg (List.map Prod.fst) (hkeys p)
    rw [List.map_map, List.map_map] at hfds
    exact Eq.subst (motive := List.Nodup) hfds.symm (h.once p)
  case wake => exact hown.wake
  case opened => exact hown.opened
  case distinct => exact hown.distinct

theorem modEvents (h : w.Mirrored) (events : BitVec 32) (ctl : Bool) :
    (w.modEvents i events ctl).2.Mirrored := by
  simp only [SocketWorld.modEvents]
  split
  · exact h
  · next s hs =>
      split
      · exact h
      · next p hp =>
          split
          · exact h
          · have hmod := Epoll.pollerMod_keeps (w.pollers p) s.fd events ctl
            refine h.congr (fun q => ?_) (fun q => ?_) rfl fun j => ?_
            · by_cases hq : q = p
              · subst hq
                simpa [setPoller] using hmod.1
              · simp [setPoller, hq]
            · exact setPoller_wakeR w hmod.2 q
            · by_cases hj : j = i
              · subst hj
                rw [setSock_self, hs]
                rfl
              · rw [setSock_ne _ hj]
                rfl

/-- An open socket that is not attached has no entry. -/
theorem findEntry_none (h : w.Mirrored) (hs : w.socks i = some s) (ha : s.attached = false)
    (h0 : 0 ≤ s.fd) (p : Nat) : (w.pollers p).findEntry s.fd = none := by
  rw [Epoll.findEntry_eq_none]
  intro e he hfd
  rcases h.entry p e he with ⟨-, hw⟩ | ⟨j, -, t, ht, hat, -, htfd, ht0⟩
  · exact (h.opened i s hs h0).2 p (hfd.symm.trans hw)
  · have hij : j = i := h.distinct j i t s ht hs ht0 (htfd.trans hfd)
    subst hij
    rw [hs, Option.some.injEq] at ht
    rw [← ht, ha] at hat
    cases hat

/-- A socket is registered. -/
theorem insert (h : w.Mirrored) (hs : w.socks i = some s) (ha : s.attached = false)
    (h0 : 0 ≤ s.fd) {s' : RegSock} (hfd : s'.fd = s.fd) (hp : s'.poller = some p)
    (ha' : s'.attached = true) {q : Epoll Unit Nat} {e : FdEntry Unit Nat}
    (hq : q.entries = e :: (w.pollers p).entries) (hqw : q.wakeR = (w.pollers p).wakeR)
    (he : e.fd = s.fd) (hu : e.user = some i) :
    ((w.setPoller p q).setSock i (some s')).Mirrored := by
  have hnone := Epoll.findEntry_eq_none.mp (h.findEntry_none hs ha h0 p)
  have hentries : ∀ r, (((w.setPoller p q).setSock i (some s')).pollers r).entries =
      if r = p then e :: (w.pollers p).entries else (w.pollers r).entries := by
    intro r
    by_cases hr : r = p
    · subst hr
      simp [setPoller, hq]
    · simp [setPoller, hr]
  have hwake : ∀ r, (((w.setPoller p q).setSock i (some s')).pollers r).wakeR =
      (w.pollers r).wakeR := by
    intro r
    rw [setSock_pollers, setPoller_wakeR w hqw]
  have hother : ∀ j, j ≠ i → ((w.setPoller p q).setSock i (some s')).socks j = w.socks j :=
    fun j hj => setSock_ne _ hj _
  have hsock : ∀ j t, ((w.setPoller p q).setSock i (some s')).socks j = some t →
      ∃ t', w.socks j = some t' ∧ t.fd = t'.fd := by
    intro j t ht
    by_cases hj : j = i
    · subst hj
      rw [setSock_self, Option.some.injEq] at ht
      exact ⟨s, hs, ht ▸ hfd⟩
    · rw [hother j hj] at ht
      exact ⟨t, ht, rfl⟩
  have hown := h.owned.congr hwake rfl hsock
  constructor
  case entry =>
    intro r e' he'
    rw [hwake]
    have hold : e' ∈ (w.pollers r).entries →
        e'.user = none ∧ e'.fd = (w.pollers r).wakeR ∨
          ∃ j, e'.user = some j ∧ ((w.setPoller p q).setSock i (some s')).EntryOf r e' j := by
      intro hm
      rcases h.entry r e' hm with hw | ⟨j, hj, t, ht, hat, hrest⟩
      · exact Or.inl hw
      · have hne : j ≠ i := by
          rintro rfl
          rw [hs, Option.some.injEq] at ht
          rw [← ht, ha] at hat
          cases hat
        exact Or.inr ⟨j, hj, t, (hother j hne).trans ht, hat, hrest⟩
    rw [hentries] at he'
    split at he'
    · next hr =>
        subst hr
        rcases List.mem_cons.mp he' with rfl | hm
        · exact Or.inr ⟨i, hu, s', setSock_self _ _ _, ha', hp, hfd.trans he.symm, hfd ▸ h0⟩
        · exact hold hm
    · exact hold he'
  case entered =>
    intro j t ht hat
    by_cases hj : j = i
    · subst hj
      rw [setSock_self, Option.some.injEq] at ht
      subst ht
      refine ⟨p, hp, e, ?_, hu⟩
      rw [hentries, if_pos rfl]
      exact List.mem_cons_self
    · rw [hother j hj] at ht
      obtain ⟨r, hr, e', he', hu'⟩ := h.entered j t ht hat
      refine ⟨r, hr, e', ?_, hu'⟩
      rw [hentries]
      split
      · next heq => exact List.mem_cons_of_mem _ (heq ▸ he')
      · exact he'
  case once =>
    intro r
    rw [hentries]
    split
    · rw [List.map_cons, List.nodup_cons]
      refine ⟨fun hm => ?_, h.once p⟩
      obtain ⟨e', he', hfd'⟩ := List.mem_map.mp hm
      exact hnone e' he' (hfd'.trans he)
    · exact h.once r
  case wake => exact hown.wake
  case opened => exact hown.opened
  case distinct => exact hown.distinct

theorem attach (h : w.Mirrored) (p : Nat) (calloc ctl : Bool) :
    (w.attachPoller i p calloc ctl).2.Mirrored := by
  rw [attachPoller]
  split
  · exact h
  · next s hs =>
      split
      · exact h
      · next hlt =>
          have hd := h.detach i
          have hsd : (w.detachPoller i).socks i = some s.detached := by
            rw [detachPoller_socks, Function.update_self, hs, Option.map_some]
          have hfree : s.detached.attached = false := h.detached_free hs
          have h0 : 0 ≤ s.detached.fd := by
            rw [s.detached_fd]
            exact Int.not_lt.mp hlt
          have hnone := hd.findEntry_none hsd hfree h0 p
          simp only
          rcases Epoll.pollerAdd_insert hnone s.defaultPollEvents (some ()) (some i) calloc ctl with
            ⟨err, herr, heq⟩ | ⟨-, heq⟩
          · -- the socket has the poller and the mask, and is not attached
            rw [heq]
            have hpoll : ∀ q, (((w.detachPoller i).setPoller p ((w.detachPoller i).pollers p)).pollers
                q) = (w.detachPoller i).pollers q := by
              intro q
              simp [setPoller]
            have hres : (((w.detachPoller i).setPoller p ((w.detachPoller i).pollers p)).setSock i
                (some { s.detached with
                  poller := some p, pollEvents := s.defaultPollEvents })).Mirrored := by
              refine hd.assign h.detach_free _ rfl (fun q => by rw [setSock_pollers, hpoll])
                (fun q => by rw [setSock_pollers, hpoll]) (fun fd hfd _ => hfd) ?_
              rintro t ⟨⟩
              have hop := hd.opened i s.detached hsd
              refine ⟨hfree, fun h0 => ⟨(hop h0).1, (hop h0).2, fun j t hj ht heq => hj ?_⟩⟩
              exact (hd.distinct i j s.detached t hsd ht h0 heq.symm).symm
            cases err with
            | ok => exact absurd rfl herr
            | nomem | invalid | io | timeout | again | notImpl | platform | state
            | bufferTooSmall | other _ => exact hres
          · rw [heq]
            refine hd.insert (e := ⟨s.detached.fd, s.defaultPollEvents, some (), some i⟩) hsd hfree h0
              ?_ ?_ ?_ ?_ ?_ ?_ ?_ <;> rfl

theorem destroy (h : w.Mirrored) (i : Nat) : (w.destroy i).Mirrored := by
  refine (h.release i).assign (fun s hs => (h.release_bare i s hs).1) none rfl (fun _ => rfl)
    (fun _ => rfl) (fun fd hfd _ => hfd) ?_
  rintro t ⟨⟩

/-! ## Runs -/

theorem boot (b : Boot) : (SocketWorld.start b).Mirrored where
  entry := by
    intro p e he
    simp only [SocketWorld.start, Epoll.create, List.mem_singleton] at he
    subst he
    exact Or.inl ⟨rfl, rfl⟩
  entered := by
    intro i s hs
    cases hs
  once := fun p => List.nodup_singleton _
  wake := b.wake_open
  opened := by
    intro i s hs
    cases hs
  distinct := by
    intro i j s t hs
    cases hs

theorem step {v : SocketWorld} {a : SocketLabel} (h : w.Mirrored) (hfair : w.KernelFair a)
    (hs : socketStep w a = some v) : v.Mirrored := by
  cases a with
  | create i =>
      simp only [socketStep] at hs
      split at hs
      · next hi =>
          cases hs
          exact h.fresh hi
      · cases hs
  | accept l i plat cfd calloc =>
      simp only [socketStep] at hs
      split at hs
      · next hi =>
          cases hs
          exact h.accept hi.2 hfair
      · cases hs
  | listen i init plat fd =>
      simp only [socketStep, Option.ite_none_left_eq_some, Option.some.injEq] at hs
      exact hs.2 ▸ h.reopen .tcpListen false hfair
  | bindUdpEx i init plat fd =>
      simp only [socketStep, Option.ite_none_left_eq_some, Option.some.injEq] at hs
      exact hs.2 ▸ h.reopen .udp false hfair
  | connect i host init plat fd pending =>
      simp only [socketStep, Option.ite_none_left_eq_some, Option.some.injEq] at hs
      rw [← hs.2, SocketWorld.connect]
      split
      · exact h
      · exact h.reopen _ pending hfair
  | adopt i fd type init opts =>
      simp only [socketStep, Option.ite_none_left_eq_some, Option.some.injEq] at hs
      exact hs.2 ▸ h.adopt hfair.2 type init opts
  | attachPoller i p calloc ctl =>
      simp only [socketStep, Option.ite_none_left_eq_some, Option.some.injEq] at hs
      exact hs.2 ▸ h.attach p calloc ctl
  | detachPoller i =>
      simp only [socketStep, Option.ite_none_left_eq_some, Option.some.injEq] at hs
      exact hs.2 ▸ h.detach i
  | modEvents i events ctl =>
      simp only [socketStep, Option.ite_none_left_eq_some, Option.some.injEq] at hs
      exact hs.2 ▸ h.modEvents events ctl
  | destroy i =>
      simp only [socketStep, Option.ite_none_left_eq_some, Option.some.injEq] at hs
      exact hs.2 ▸ h.destroy i
  | appOpen fd =>
      cases hs
      exact h.foreign (h.unowned hfair) rfl (fun _ => rfl) (fun _ => rfl)
        fun fd' hne => Function.update_of_ne hne _ _
  | appClose fd =>
      cases hs
      exact h.foreign hfair rfl (fun _ => rfl) (fun _ => rfl)
        fun fd' hne => Function.update_of_ne hne _ _

/-- The entries of an attached socket: there is one, for its descriptor. -/
theorem filter_user (h : w.Mirrored) (hs : w.socks i = some s) (ha : s.attached = true)
    (hp : s.poller = some p) :
    ((w.pollers p).entries.filter fun e => e.user = some i).map FdEntry.fd = [s.fd] := by
  obtain ⟨p', hp', h0, e, he, hu, hfd⟩ := h.find hs ha
  rw [hp, Option.some.injEq] at hp'
  subst hp'
  have hall : ∀ e' ∈ (w.pollers p).entries.filter (fun e => e.user = some i), e' = e := by
    intro e' he'
    rw [List.mem_filter, decide_eq_true_eq] at he'
    rcases h.entry p e' he'.1 with ⟨hn, -⟩ | ⟨j, hj, t, ht, -, -, htfd, -⟩
    · rw [he'.2] at hn
      cases hn
    · rw [he'.2, Option.some.injEq] at hj
      subst hj
      rw [hs, Option.some.injEq] at ht
      subst ht
      exact List.inj_on_of_nodup_map (h.once p) he'.1 he (htfd.symm.trans hfd.symm)
  have hmem : e ∈ (w.pollers p).entries.filter fun e => e.user = some i :=
    List.mem_filter.mpr ⟨he, decide_eq_true hu⟩
  have hn : ((w.pollers p).entries.filter fun e => e.user = some i).Nodup :=
    (List.Nodup.of_map FdEntry.fd (h.once p)).filter _
  rw [List.eq_replicate_of_mem hall, List.map_replicate, hfd]
  rw [List.eq_replicate_of_mem hall] at hn hmem
  have hlen := List.nodup_replicate.mp hn
  have hpos : 0 < ((w.pollers p).entries.filter fun e => e.user = some i).length := by
    rw [List.mem_replicate] at hmem
    exact Nat.pos_of_ne_zero hmem.1
  rw [show ((w.pollers p).entries.filter fun e => e.user = some i).length = 1 by omega]
  rfl

end Mirrored

end SocketWorld

/-- In every state that calls and the kernel can bring about: a poller has an entry
for a socket exactly when the socket is attached to it; then there is one, and it is
for the socket's descriptor.  Every entry is for an open descriptor and for a socket
that exists. -/
theorem socket_attachment_mirrored (b : Boot) {w : SocketWorld}
    (h : socketMachine.Leads SocketWorld.KernelFair (SocketWorld.start b) w) (p i : Nat) :
    ((∃ e ∈ (w.pollers p).entries, e.user = some i) ↔
        ∃ s, w.socks i = some s ∧ s.attached = true ∧ s.poller = some p) ∧
      (∀ s, w.socks i = some s → s.attached = true → s.poller = some p → 0 ≤ s.fd ∧
        ((w.pollers p).entries.filter fun e => e.user = some i).map FdEntry.fd = [s.fd]) ∧
      ∀ e ∈ (w.pollers p).entries, w.opened e.fd = true ∧ (e.user = some i → w.socks i ≠ none) := by
  have hm : w.Mirrored :=
    h.invariant (fun _ _ _ hi hc hs => hi.step hc hs) (SocketWorld.Mirrored.boot b)
  have hof : ∀ e ∈ (w.pollers p).entries, e.user = some i → w.EntryOf p e i := by
    intro e he hu
    rcases hm.entry p e he with ⟨hn, -⟩ | ⟨j, hj, hof⟩
    · rw [hu] at hn
      cases hn
    · rw [hu, Option.some.injEq] at hj
      exact hj ▸ hof
  refine ⟨⟨?_, ?_⟩, ?_, ?_⟩
  · rintro ⟨e, he, hu⟩
    obtain ⟨s, hs, ha, hp, -⟩ := hof e he hu
    exact ⟨s, hs, ha, hp⟩
  · rintro ⟨s, hs, ha, hp⟩
    obtain ⟨q, hq, he⟩ := hm.entered i s hs ha
    rw [hp, Option.some.injEq] at hq
    exact hq ▸ he
  · intro s hs ha hp
    obtain ⟨-, -, h0, -⟩ := hm.find hs ha
    exact ⟨h0, hm.filter_user hs ha hp⟩
  · intro e he
    refine ⟨?_, fun hu => ?_⟩
    · rcases hm.entry p e he with ⟨-, hfd⟩ | ⟨j, -, s, hs, -, -, hfd, h0⟩
      · rw [hfd]
        exact hm.wake p
      · rw [← hfd]
        exact (hm.opened j s hs h0).1
    · obtain ⟨s, hs, -⟩ := hof e he hu
      rw [hs]
      intro hn
      cases hn

/-- Pollers whose wake descriptors are the even numbers from 100 on. -/
def evenBoot : Boot where
  wake := fun p => 100 + 2 * p
  opened := fun fd => decide (100 ≤ fd)
  wake_open := by
    intro p
    rw [decide_eq_true_eq]
    omega

/-- Two sockets, one descriptor after the other: the second one is registered under
the number that the first one has given up. -/
def recycledRun : List SocketLabel :=
  [.create 0, .connect 0 true true .ok 5 true, .attachPoller 0 1 true true,
    .create 1, .destroy 0, .listen 1 true .ok 5, .attachPoller 1 1 true true]

theorem socket_attachment_recycled :
    ∃ w s, socketMachine.Leads SocketWorld.KernelFair (SocketWorld.start evenBoot) w ∧
      w.socks 0 = none ∧ w.socks 1 = some s ∧ s.attached = true ∧ s.poller = some 1 ∧ s.fd = 5 ∧
      ((w.pollers 1).entries.filter fun e => e.user = some 1).map FdEntry.fd = [5] := by
  have hrun : (socketMachine.run (SocketWorld.start evenBoot) recycledRun).map
      (fun w => decide (w.socks 0 = none ∧
        w.socks 1 = some ⟨5, .tcpListen, some 1, 13, true, false⟩)) = some true := by
    decide +kernel
  obtain ⟨w, hw, h0, h1⟩ := Machine.exists_run hrun
  have hfair : socketMachine.RunMeets SocketWorld.KernelFair (SocketWorld.start evenBoot)
      recycledRun := by
    refine ⟨trivial, fun _ h => ?_⟩
    cases h
    refine ⟨(by unfold SocketWorld.KernelFair; decide), fun _ h => ?_⟩
    cases h
    refine ⟨trivial, fun _ h => ?_⟩
    cases h
    refine ⟨trivial, fun _ h => ?_⟩
    cases h
    refine ⟨trivial, fun _ h => ?_⟩
    cases h
    refine ⟨(by unfold SocketWorld.KernelFair; decide +kernel), fun _ h => ?_⟩
    cases h
    exact ⟨trivial, fun _ _ => trivial⟩
  have hl := Machine.leads_of_run recycledRun _ w hw hfair
  have hone := (socket_attachment_mirrored evenBoot hl 1 1).2.1 _ h1 rfl rfl
  exact ⟨w, _, hl, h0, h1, rfl, rfl, rfl, hone.2⟩

end Ztk.Net
