import Ztk.Err

/-!
# Sockets and their poll events

The part of `socket.c` that connects a socket and keeps its events registered
with a poller.  The platform's answers (`ztk_sockplat_connect`,
`ztk_sockplat_check_connect`, `ztk_poller_add`) are arguments.  A socket is
registered exactly while `attached` is set; `poller` and `cb` are set with it and
`type` is read by no function here.  `ztk_sockplat_init` succeeds, as on Linux.
-/

namespace Ztk.Net

/-- A mask of `ZTK_POLL_*` bits. -/
structure PollEvents where
  pollIn : Bool
  pollOut : Bool
  pollErr : Bool
  pollHup : Bool
deriving DecidableEq

/-- `ztk_socket`.  `serial` tells the objects apart. -/
structure Sock where
  serial : Nat
  fd : Int
  pollEvents : PollEvents
  attached : Bool
  connectPending : Bool
deriving DecidableEq

/-- The results of `ztk_sockplat_connect`. -/
structure PlatConnect where
  err : Err
  fd : Nat
  pending : Bool

namespace Sock

/-- `ztk_socket_create`. -/
def create (serial : Nat) : Sock where
  serial := serial
  fd := -1
  pollEvents := ⟨false, false, false, false⟩
  attached := false
  connectPending := false

/-- `close_fd`. -/
def closeFd (s : Sock) : Sock := if s.fd < 0 then s else { s with fd := -1 }

/-- `default_poll_events`. -/
def defaultPollEvents (s : Sock) : PollEvents := ⟨true, s.connectPending, true, true⟩

/-- `ztk_socket_detach_poller`. -/
def detachPoller (s : Sock) : Sock :=
  if s.attached ∧ 0 ≤ s.fd then { s with attached := false } else s

/-- `ztk_socket_mod_events`.  The mask stays where the call is refused. -/
def modEvents (s : Sock) (events : PollEvents) : Sock :=
  if s.attached then { s with pollEvents := events } else s

/-- `ztk_socket_attach_poller`, where `ztk_poller_add` returns `add`. -/
def attachPoller (s : Sock) (add : Err) : Err × Sock :=
  if s.fd < 0 then (.invalid, s)
  else
    let s := s.detachPoller
    let s := { s with pollEvents := s.defaultPollEvents }
    if add = .ok then (.ok, { s with attached := true }) else (add, s)

/-- `ztk_socket_connect`, for a host that is not null. -/
def connect (s : Sock) (plat : PlatConnect) : Err × Sock :=
  let s := s.detachPoller.closeFd
  if plat.err = .ok then (.ok, { s with fd := plat.fd, connectPending := plat.pending })
  else (plat.err, s)

/-- `ztk_socket_check_connect`, where `ztk_sockplat_check_connect` returns `plat`. -/
def checkConnect (s : Sock) (plat : Err) : Err × Sock :=
  if s.fd < 0 then (.invalid, s)
  else if !s.connectPending then (.ok, s)
  else if plat = .ok then (.ok, { s with connectPending := false })
  else (plat, s)

@[simp] theorem modEvents_fd (s : Sock) (ev : PollEvents) : (s.modEvents ev).fd = s.fd := by
  simp only [modEvents]
  split <;> rfl

@[simp] theorem modEvents_attached (s : Sock) (ev : PollEvents) :
    (s.modEvents ev).attached = s.attached := by
  simp only [modEvents]
  split <;> rfl

@[simp] theorem modEvents_connectPending (s : Sock) (ev : PollEvents) :
    (s.modEvents ev).connectPending = s.connectPending := by
  simp only [modEvents]
  split <;> rfl

theorem modEvents_of_attached {s : Sock} (h : s.attached = true) (ev : PollEvents) :
    (s.modEvents ev).pollEvents = ev := by
  rw [modEvents, if_pos h]

theorem detachPoller_fd (s : Sock) : s.detachPoller.fd = s.fd := by
  simp only [detachPoller]
  split <;> rfl

theorem detachPoller_connectPending (s : Sock) :
    s.detachPoller.connectPending = s.connectPending := by
  simp only [detachPoller]
  split <;> rfl

theorem detachPoller_serial (s : Sock) : s.detachPoller.serial = s.serial := by
  simp only [detachPoller]
  split <;> rfl

/-- An open socket that is detached is not registered. -/
theorem detachPoller_attached {s : Sock} (h : 0 ≤ s.fd) : s.detachPoller.attached = false := by
  simp only [detachPoller]
  split
  · rfl
  · next hn =>
      cases ha : s.attached with
      | false => rfl
      | true => exact absurd ⟨ha, h⟩ hn

theorem closeFd_fd (s : Sock) : s.closeFd.fd < 0 := by
  simp only [closeFd]
  split
  · assumption
  · exact (by decide : (-1 : Int) < 0)

theorem connect_ok (s : Sock) {plat : PlatConnect} (h : plat.err = .ok) :
    ∃ t, s.connect plat = (.ok, t) ∧ t.fd = plat.fd ∧ t.connectPending = plat.pending := by
  simp only [connect]
  exact ⟨_, if_pos h, rfl, rfl⟩

theorem connect_err (s : Sock) {plat : PlatConnect} (h : plat.err ≠ .ok) :
    ∃ t, s.connect plat = (plat.err, t) ∧ t.fd < 0 := by
  simp only [connect]
  exact ⟨_, if_neg h, closeFd_fd _⟩

theorem attachPoller_ok {s : Sock} (h : 0 ≤ s.fd) :
    ∃ t, s.attachPoller .ok = (.ok, t) ∧ t.attached = true ∧ t.fd = s.fd ∧
      t.connectPending = s.connectPending := by
  rw [attachPoller]
  rw [if_neg (Int.not_lt.mpr h)]
  exact ⟨_, if_pos rfl, rfl, detachPoller_fd s, detachPoller_connectPending s⟩

theorem attachPoller_err {s : Sock} (h : 0 ≤ s.fd) {add : Err} (ha : add ≠ .ok) :
    ∃ t, s.attachPoller add = (add, t) ∧ t.attached = false := by
  simp only [attachPoller]
  rw [if_neg (Int.not_lt.mpr h)]
  exact ⟨_, if_neg ha, detachPoller_attached h⟩

/-- The check of a pending connection asks the platform. -/
theorem checkConnect_pending {s : Sock} (h : s.connectPending = true) (plat : Err) :
    (s.checkConnect plat).1 = if s.fd < 0 then .invalid else plat := by
  simp only [checkConnect]
  split
  · rfl
  · rw [h, if_neg (by decide)]
    split
    · next hok => exact hok.symm
    · rfl

theorem checkConnect_serial (s : Sock) (plat : Err) :
    (s.checkConnect plat).2.serial = s.serial := by
  simp only [checkConnect]
  split
  · rfl
  split
  · rfl
  split <;> rfl

/-- On an open socket the check completes the connection or reports what the
platform says. -/
theorem checkConnect_cases {s : Sock} (h : 0 ≤ s.fd) (plat : Err) :
    s.checkConnect plat = (.ok, { s with connectPending := false }) ∨
      plat ≠ .ok ∧ s.checkConnect plat = (plat, s) := by
  simp only [checkConnect]
  rw [if_neg (Int.not_lt.mpr h)]
  cases hp : s.connectPending with
  | false =>
      left
      rw [if_pos (by decide), ← hp]
  | true =>
      rw [if_neg (by decide)]
      by_cases he : plat = .ok
      · left
        rw [if_pos he]
      · right
        exact ⟨he, if_neg he⟩

theorem checkConnect_ok {s : Sock} (h : 0 ≤ s.fd) :
    s.checkConnect .ok = (.ok, { s with connectPending := false }) :=
  (checkConnect_cases h .ok).resolve_right fun hn => hn.1 rfl

theorem checkConnect_again {s : Sock} (h : 0 ≤ s.fd) (hp : s.connectPending = true) :
    s.checkConnect .again = (.again, s) := by
  rw [checkConnect, if_neg (Int.not_lt.mpr h), hp]
  rfl

end Sock

end Ztk.Net
