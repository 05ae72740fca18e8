import Ztk.Lib.Trace
import Ztk.Net.SessionRegistry

/-!
# Tearing a session down

One thread at work on the sessions of a TCP server.  `session_on_error`,
`session_on_readable` and `ztk_tcp_session_close` all end in `session_remove`, which
calls `on_error` before it destroys the session; `session_on_readable` calls `on_recv`
for each chunk it receives.  Both callbacks may do whatever the application may do,
so the calls that have not returned form a stack, and a run is any sequence of events,
results of `ztk_socket_recv`, calls and returns.

The ghost list `requested` holds the sessions whose end somebody asked for.  A session
is in the array exactly as long as it is not in that list, and its teardown is run once
however often it is asked for.  The loop of `session_on_readable` does not look at
`closing` when `on_recv` returns: it goes on receiving from a session that was destroyed
during the callback.
-/

namespace Ztk.Net

open Ztk.Lib

/-- What the thread does with a session. -/
inductive SessionEvent where
  | recv (x : Nat)
  | onRecv (x : Nat)
  | onError (x : Nat)
  | destroy (x : Nat)
deriving DecidableEq

/-- The events that receive from a session. -/
def SessionEvent.Receives (x : Nat) (e : SessionEvent) : Prop := e = .recv x ∨ e = .onRecv x

/-- A call that has not returned. -/
inductive SessionFrame where
  /-- `session_on_readable` has called `ztk_socket_recv`. -/
  | recv (x : Nat)
  /-- `session_on_readable` has called `on_recv`. -/
  | onRecv (x : Nat)
  /-- `session_remove` has called `on_error`. -/
  | onError (x : Nat)
deriving DecidableEq

/-- Which callbacks of `srv->ops` are set. -/
structure SessionOps where
  onRecv : Bool
  onError : Bool

/-- The sessions of a server and the calls of one thread. -/
structure SessionThread where
  /-- `srv->sessions`, up to `session_count`. -/
  sessions : List Nat
  /-- `session->closing`. -/
  closing : Nat → Bool
  /-- The server has been destroyed. -/
  down : Bool
  /-- The calls that have not returned, the innermost first. -/
  frames : List SessionFrame
  /-- The sessions accepted so far. -/
  accepted : List Nat
  /-- The sessions whose end was asked for. -/
  requested : List Nat
  trace : List SessionEvent

namespace SessionThread

/-- A server without sessions. -/
def start : SessionThread := ⟨[], fun _ => false, false, [], [], [], []⟩

def Destroyed (s : SessionThread) (x : Nat) : Prop := .destroy x ∈ s.trace

instance (s : SessionThread) (x : Nat) : Decidable (s.Destroyed x) :=
  inferInstanceAs (Decidable (_ ∈ _))

/-- The end of `x` is asked for. -/
def ask (s : SessionThread) (x : Nat) : SessionThread := { s with requested := x :: s.requested }

/-- `session_destroy`. -/
def sessionDestroy (s : SessionThread) (x : Nat) : SessionThread :=
  { s with trace := s.trace ++ [SessionEvent.destroy x] }

/-- `session_remove`, up to the call of `on_error` if there is one. -/
def sessionRemove (ops : SessionOps) (s : SessionThread) (x : Nat) : SessionThread :=
  if s.closing x then s
  else
    let s := { s with
      closing := Function.update s.closing x true
      sessions := Registry.dropSession s.sessions x }
    if ops.onError then
      { s with frames := .onError x :: s.frames, trace := s.trace ++ [SessionEvent.onError x] }
    else s.sessionDestroy x

/-- `session_on_error`. -/
def sessionOnError (ops : SessionOps) (s : SessionThread) (x : Nat) : SessionThread :=
  if s.closing x then s else s.sessionRemove ops x

/-- The head of the loop in `session_on_readable`: `ztk_socket_recv` is called. -/
def receive (s : SessionThread) (x : Nat) : SessionThread :=
  { s with frames := .recv x :: s.frames, trace := s.trace ++ [SessionEvent.recv x] }

/-- `session_on_readable`, up to the first `ztk_socket_recv`. -/
def sessionOnReadable (s : SessionThread) (x : Nat) : SessionThread :=
  if s.closing x then s else s.receive x

/-- `ztk_tcp_session_close`. -/
def tcpSessionClose (ops : SessionOps) (s : SessionThread) (x : Nat) : SessionThread :=
  s.sessionRemove ops x

/-- The loop of `ztk_tcp_server_destroy`. -/
def tcpServerDestroy (s : SessionThread) : SessionThread :=
  { s with
    sessions := []
    down := true
    requested := s.sessions ++ s.requested
    trace := s.trace ++ s.sessions.map .destroy }

/-- Control is with the application or the poller, not in `ztk_socket_recv`. -/
def outside (s : SessionThread) : Bool :=
  match s.frames with
  | .recv _ :: _ => false
  | _ => true

/-- An event of `x` may arrive and a call on `x` may be made: `x` is a session that has not
been destroyed. -/
def Callable (s : SessionThread) (x : Nat) : Prop :=
  s.outside = true ∧ x ∈ s.accepted ∧ ¬ s.Destroyed x

instance (s : SessionThread) (x : Nat) : Decidable (s.Callable x) :=
  inferInstanceAs (Decidable (_ ∧ _ ∧ _))

end SessionThread

/-! ## The machine -/

inductive SessionCall where
  /-- `listen_on_readable` puts a new session into the array. -/
  | accept (x : Nat)
  | readable (x : Nat)
  | error (x : Nat)
  | close (x : Nat)
  | serverDestroy
  /-- `ztk_socket_recv` returns some bytes. -/
  | data
  /-- `ztk_socket_recv` returns `ZTK_ERR_AGAIN`. -/
  | again
  /-- `ztk_socket_recv` returns 0 or another error. -/
  | failed
  /-- The innermost callback returns. -/
  | ret
deriving DecidableEq

/-- The result of `ztk_socket_recv` is looked at.  On a session that has been destroyed the
call has read freed memory, and no step follows. -/
def stepRecv (ops : SessionOps) (s : SessionThread) (x : Nat) (fs : List SessionFrame) :
    SessionCall → Option SessionThread
  | .data =>
      if s.Destroyed x then none
      else if ops.onRecv then
        some { s with frames := .onRecv x :: fs, trace := s.trace ++ [SessionEvent.onRecv x] }
      else some ({ s with frames := fs }.receive x)
  | .again => if s.Destroyed x then none else some { s with frames := fs }
  -- nothing of `session_on_readable` is left to do once `session_remove` is called
  | .failed =>
      if s.Destroyed x then none else some (({ s with frames := fs }.ask x).sessionRemove ops x)
  | _ => none

def sessionThreadStep (ops : SessionOps) (s : SessionThread) :
    SessionCall → Option SessionThread
  | .accept x =>
      if s.down ∨ x ∈ s.accepted then none
      else some { s with sessions := s.sessions ++ [x], accepted := x :: s.accepted }
  | .readable x => if s.Callable x then some (s.sessionOnReadable x) else none
  | .error x => if s.Callable x then some ((s.ask x).sessionOnError ops x) else none
  | .close x => if s.Callable x then some ((s.ask x).tcpSessionClose ops x) else none
  | .serverDestroy => if s.outside = true ∧ s.down = false then some s.tcpServerDestroy else none
  | .ret =>
      match s.frames with
      | .onRecv x :: fs => some ({ s with frames := fs }.receive x)
      | .onError x :: fs => some ({ s with frames := fs }.sessionDestroy x)
      | _ => none
  | a =>
      match s.frames with
      | .recv x :: fs => stepRecv ops s x fs a
      | _ => none

/-- One thread at work on the sessions of a server as a machine. -/
def sessionThread (ops : SessionOps) : Machine SessionThread SessionCall :=
  ⟨sessionThreadStep ops⟩

/-- The server is not destroyed. -/
def ServerStays (_ : SessionThread) (a : SessionCall) : Prop := a ≠ .serverDestroy

instance (s : SessionThread) (a : SessionCall) : Decidable (ServerStays s a) :=
  inferInstanceAs (Decidable (a ≠ _))

namespace SessionThread

/-- The session whose `on_recv` is the innermost call. -/
def returning (s : SessionThread) : Option Nat :=
  match s.frames with
  | .onRecv x :: _ => some x
  | _ => none

/-- When `on_recv` returns, nobody has asked for the end of its session. -/
def ReturnsOpen (s : SessionThread) (a : SessionCall) : Prop :=
  a = .ret → ∀ x ∈ s.returning, x ∉ s.requested

instance (s : SessionThread) (a : SessionCall) : Decidable (s.ReturnsOpen a) :=
  inferInstanceAs (Decidable (_ → _))

/-- `on_error` and `session_destroy` of `x`, in the order in which they ran. -/
def teardown (s : SessionThread) (x : Nat) : List SessionEvent :=
  s.trace.filter fun e => e = .onError x ∨ e = .destroy x

/-- No session is received from, or handed to `on_recv`, after it was destroyed. -/
def Quiet (s : SessionThread) : Prop :=
  Trace.Closed .destroy SessionEvent.Receives s.trace

end SessionThread

/-- The teardown of a session: `on_error` if it is set, then `session_destroy`. -/
def SessionOps.teardown (ops : SessionOps) (x : Nat) : List SessionEvent :=
  if ops.onError then [.onError x, .destroy x] else [.destroy x]

/-- The session that a call is about. -/
def SessionFrame.session : SessionFrame → Nat
  | .recv x => x
  | .onRecv x => x
  | .onError x => x

/-- What may lie below a call: not `ztk_socket_recv`, and while `on_error` of a session runs
no other call about that session is made. -/
def SessionFrame.Above (f : SessionFrame) : SessionFrame → Prop
  | .recv _ => False
  | .onRecv _ => True
  | .onError x => f.session ≠ x

theorem sessionOnError_eq (ops : SessionOps) (s : SessionThread) (x : Nat) :
    s.sessionOnError ops x = s.sessionRemove ops x := by
  rw [SessionThread.sessionOnError]
  split
  · next hc => rw [SessionThread.sessionRemove, if_pos hc]
  · rfl

/-- The steps the thread can take, and what each does. -/
inductive ThreadMove (ops : SessionOps) (s : SessionThread) :
    SessionCall → SessionThread → Prop where
  | accept : x ∉ s.accepted → ThreadMove ops s (.accept x)
      { s with sessions := s.sessions ++ [x], accepted := x :: s.accepted }
  | readable : s.Callable x → ThreadMove ops s (.readable x) (s.sessionOnReadable x)
  | error : s.Callable x → ThreadMove ops s (.error x) ((s.ask x).sessionRemove ops x)
  | close : s.Callable x → ThreadMove ops s (.close x) ((s.ask x).sessionRemove ops x)
  | serverDestroy : s.outside = true → ThreadMove ops s .serverDestroy s.tcpServerDestroy
  | onRecv : s.frames = .recv x :: fs → ¬ s.Destroyed x → ThreadMove ops s .data
      { s with frames := .onRecv x :: fs, trace := s.trace ++ [SessionEvent.onRecv x] }
  | next : s.frames = .recv x :: fs → ¬ s.Destroyed x →
      ThreadMove ops s .data ({ s with frames := fs }.receive x)
  | again : s.frames = .recv x :: fs → ThreadMove ops s .again { s with frames := fs }
  | failed : s.frames = .recv x :: fs → ¬ s.Destroyed x →
      ThreadMove ops s .failed (({ s with frames := fs }.ask x).sessionRemove ops x)
  | recvReturns : s.frames = .onRecv x :: fs →
      ThreadMove ops s .ret ({ s with frames := fs }.receive x)
  | errorReturns : s.frames = .onError x :: fs →
      ThreadMove ops s .ret ({ s with frames := fs }.sessionDestroy x)

/-- The result of `ztk_socket_recv` is looked at where it was called. -/
theorem stepRecv_of_step {ops : SessionOps} {s t : SessionThread} {a : SessionCall}
    (ha : a = .data ∨ a = .again ∨ a = .failed) (h : sessionThreadStep ops s a = some t) :
    ∃ x fs, s.frames = .recv x :: fs ∧ stepRecv ops s x fs a = some t := by
  rcases ha with rfl | rfl | rfl <;>
  · simp only [sessionThreadStep] at h
    split at h
    · next x fs hf => exact ⟨x, fs, hf, h⟩
    · cases h

theorem ThreadMove.of_step {ops : SessionOps} {s t : SessionThread} {a : SessionCall}
    (h : (sessionThread ops).step s a = some t) : ThreadMove ops s a t := by
  have h : sessionThreadStep ops s a = some t := h
  cases a with
  | accept x =>
      obtain ⟨hn, h⟩ := Option.ite_none_left_eq_some.mp h
      cases h
      exact .accept fun hx => hn (.inr hx)
  | readable x =>
      obtain ⟨hc, h⟩ := Option.ite_none_right_eq_some.mp h
      cases h
      exact .readable hc
  | error x =>
      obtain ⟨hc, h⟩ := Option.ite_none_right_eq_some.mp h
      rw [sessionOnError_eq] at h
      cases h
      exact .error hc
  | close x =>
      obtain ⟨hc, h⟩ := Option.ite_none_right_eq_some.mp h
      cases h
      exact .close hc
  | serverDestroy =>
      obtain ⟨hc, h⟩ := Option.ite_none_right_eq_some.mp h
      cases h
      exact .serverDestroy hc.1
  | data =>
      obtain ⟨x, fs, hf, h⟩ := stepRecv_of_step (.inl rfl) h
      obtain ⟨hd, h⟩ := Option.ite_none_left_eq_some.mp h
      split at h
      · cases h
        exact .onRecv hf hd
      · cases h
        exact .next hf hd
  | again =>
      obtain ⟨x, fs, hf, h⟩ := stepRecv_of_step (.inr (.inl rfl)) h
      obtain ⟨-, h⟩ := Option.ite_none_left_eq_some.mp h
      cases h
      exact .again hf
  | failed =>
      obtain ⟨x, fs, hf, h⟩ := stepRecv_of_step (.inr (.inr rfl)) h
      obtain ⟨hd, h⟩ := Option.ite_none_left_eq_some.mp h
      cases h
      exact .failed hf hd
  | ret =>
      simp only [sessionThreadStep] at h
      split at h
      · next x fs hf =>
          cases h
          exact .recvReturns hf
      · next x fs hf =>
          cases h
          exact .errorReturns hf
      · cases h

/-! ## The invariant -/

/-- A session is in the array until its end is asked for, and then `on_error` runs or it has
been destroyed. -/
structure ThreadInv (s : SessionThread) : Prop where
  nodup : s.sessions.Nodup
  kept : ∀ x, x ∈ s.sessions ↔ x ∈ s.accepted ∧ x ∉ s.requested
  asked : ∀ x ∈ s.requested, x ∈ s.accepted
  closed : ∀ x, s.closing x = true → x ∈ s.requested
  gone : ∀ x, s.Destroyed x → x ∈ s.requested
  ending : ∀ x ∈ s.requested, s.Destroyed x ∨ .onError x ∈ s.frames
  running : ∀ x, .onError x ∈ s.frames → s.closing x = true ∧ ¬ s.Destroyed x
  stack : s.frames.Pairwise SessionFrame.Above
  known : ∀ f ∈ s.frames, f.session ∈ s.accepted
  top : ∀ x fs, s.frames = .recv x :: fs → s.trace.getLast? = some (.recv x)

namespace ThreadInv

variable {s : SessionThread} {ops : SessionOps} {x : Nat}

theorem start : ThreadInv .start where
  nodup := List.nodup_nil
  kept x := by simp [SessionThread.start]
  asked x hx := by cases hx
  closed x hx := by cases hx
  gone x hx := by cases hx
  ending x hx := by cases hx
  running x hx := by cases hx
  stack := List.Pairwise.nil
  known f hf := by cases hf
  top x fs hf := by cases hf

/-- Outside `ztk_socket_recv`, no call of it waits. -/
theorem no_recv (h : ThreadInv s) (ho : s.outside = true) (x : Nat) : .recv x ∉ s.frames := by
  intro hx
  have hs := h.stack
  rw [SessionThread.outside] at ho
  cases hf : s.frames with
  | nil =>
      rw [hf] at hx
      cases hx
  | cons f fs =>
      rw [hf] at hx hs ho
      rcases List.mem_cons.mp hx with rfl | hx
      · cases ho
      · exact (List.pairwise_cons.mp hs).1 _ hx

/-- A session that is neither closing nor destroyed is in the array. -/
theorem mem_of_open (h : ThreadInv s) (hc : s.closing x = false) (hx : x ∈ s.accepted)
    (hd : ¬ s.Destroyed x) : x ∈ s.sessions := by
  refine (h.kept x).mpr ⟨hx, fun hr => ?_⟩
  rcases h.ending x hr with hd' | he
  · exact hd hd'
  · rw [(h.running x he).1] at hc
    cases hc

/-- Calls are made or return, and nobody's end is asked for. -/
theorem reframe (h : ThreadInv s) {fs : List SessionFrame} {tr : List SessionEvent}
    (hf : ∀ x, .onError x ∈ fs ↔ .onError x ∈ s.frames)
    (ht : ∀ x, .destroy x ∈ tr ↔ s.Destroyed x) (hs : fs.Pairwise SessionFrame.Above)
    (hk : ∀ f ∈ fs, f.session ∈ s.accepted)
    (htop : ∀ x gs, fs = .recv x :: gs → tr.getLast? = some (.recv x)) :
    ThreadInv { s with frames := fs, trace := tr } :=
  { h with
    gone := fun x hx => h.gone x ((ht x).mp hx)
    ending := fun x hx => (h.ending x hx).imp (ht x).mpr (hf x).mpr
    running := fun x hx => (h.running x ((hf x).mp hx)).imp id fun hn hx => hn ((ht x).mp hx)
    stack := hs
    known := hk
    top := htop }

/-- Below the innermost call there is no `ztk_socket_recv`, and no `on_error` of its session. -/
theorem below (h : ThreadInv s) {f : SessionFrame} {fs : List SessionFrame}
    (hs : s.frames = f :: fs) : (∀ y, .recv y ∉ fs) ∧ .onError f.session ∉ fs := by
  have hst := h.stack
  rw [hs, List.pairwise_cons] at hst
  exact ⟨fun y hy => hst.1 _ hy, fun he => hst.1 _ he rfl⟩

/-- The innermost call returns, if it is not `on_error`. -/
theorem pop (h : ThreadInv s) {f : SessionFrame} {fs : List SessionFrame}
    (hs : s.frames = f :: fs) (hf : ∀ x, f ≠ .onError x) : ThreadInv { s with frames := fs } := by
  have hst := h.stack
  rw [hs, List.pairwise_cons] at hst
  refine h.reframe (fun x => ?_) (fun x => Iff.rfl) hst.2
    (fun g hg => h.known g (hs ▸ List.mem_cons_of_mem f hg)) fun x gs hg => ?_
  · rw [hs, List.mem_cons]
    exact ⟨.inr, fun hx => hx.resolve_left fun he => hf x he.symm⟩
  · exact absurd (hg ▸ List.mem_cons_self) ((h.below hs).1 x)

/-- `ztk_socket_recv` is called on a session whose `on_error` does not run. -/
theorem receive (h : ThreadInv s) (hr : ∀ y, .recv y ∉ s.frames) (he : .onError x ∉ s.frames)
    (hx : x ∈ s.accepted) : ThreadInv (s.receive x) := by
  refine h.reframe (fun y => ?_) (fun y => ?_) ?_ (fun f hf => ?_) fun y gs hg => ?_
  · simp
  · simp [SessionThread.Destroyed]
  · refine List.pairwise_cons.mpr ⟨fun g hg => ?_, h.stack⟩
    cases g with
    | recv y => exact hr y hg
    | onRecv y => trivial
    | onError y =>
        intro hxy
        cases hxy
        exact he hg
  · rcases List.mem_cons.mp hf with rfl | hf
    · exact hx
    · exact h.known f hf
  · cases hg
    exact List.getLast?_concat

theorem sessionOnReadable (h : ThreadInv s) (hr : ∀ y, .recv y ∉ s.frames)
    (hx : x ∈ s.accepted) : ThreadInv (s.sessionOnReadable x) := by
  rw [SessionThread.sessionOnReadable]
  split
  · exact h
  · next hc => exact h.receive hr (fun he => hc (h.running x he).1) hx

/-- `session_on_readable` goes on with the next `ztk_socket_recv`. -/
theorem receive_again (h : ThreadInv s) {f : SessionFrame} {fs : List SessionFrame}
    (hs : s.frames = f :: fs) (hf : ∀ x, f ≠ .onError x) :
    ThreadInv ({ s with frames := fs }.receive f.session) := by
  obtain ⟨hr, he⟩ := h.below hs
  exact (h.pop hs hf).receive hr he (h.known f (hs ▸ List.mem_cons_self))

/-- `session_on_readable` calls `on_recv`. -/
theorem call_onRecv (h : ThreadInv s) {fs : List SessionFrame} (hs : s.frames = .recv x :: fs) :
    ThreadInv { s with frames := .onRecv x :: fs, trace := s.trace ++ [SessionEvent.onRecv x] } := by
  have hst := h.stack
  have hk := h.known
  rw [hs] at hst hk
  obtain ⟨hx, hk⟩ := List.forall_mem_cons.mp hk
  obtain ⟨habove, hst⟩ := List.pairwise_cons.mp hst
  refine h.reframe (fun y => ?_) (fun y => ?_) (List.pairwise_cons.mpr ⟨fun g hg => ?_, hst⟩)
    (List.forall_mem_cons.mpr ⟨hx, hk⟩) fun y gs hg => by cases hg
  · simp [hs]
  · simp [SessionThread.Destroyed]
  · have hg := habove g hg
    cases g with
    | recv y => exact hg
    | onRecv y => trivial
    | onError y => exact hg

/-- The end of a session is asked for again. -/
theorem ask_again (h : ThreadInv s) (hx : x ∈ s.requested) : ThreadInv (s.ask x) := by
  have hmem : ∀ y, y ∈ (s.ask x).requested ↔ y ∈ s.requested := by
    intro y
    rw [SessionThread.ask, List.mem_cons]
    exact ⟨fun hy => hy.elim (fun he => he ▸ hx) id, .inr⟩
  exact
    { h with
      kept := fun y => by rw [hmem]; exact h.kept y
      asked := fun y hy => h.asked y ((hmem y).mp hy)
      closed := fun y hy => (hmem y).mpr (h.closed y hy)
      gone := fun y hy => (hmem y).mpr (h.gone y hy)
      ending := fun y hy => h.ending y ((hmem y).mp hy) }

/-- A session is closed and taken out of the array.  Then its `on_error` runs if `P` holds,
and it is destroyed otherwise. -/
theorem drop (h : ThreadInv s) {P : Prop} {fs : List SessionFrame} {tr : List SessionEvent}
    (hx : x ∈ s.sessions) (hf : ∀ y, .onError y ∈ fs ↔ .onError y ∈ s.frames ∨ y = x ∧ P)
    (ht : ∀ y, .destroy y ∈ tr ↔ s.Destroyed y ∨ y = x ∧ ¬ P)
    (hs : fs.Pairwise SessionFrame.Above) (hk : ∀ f ∈ fs, f.session ∈ s.accepted)
    (htop : ∀ y gs, fs ≠ .recv y :: gs) :
    ThreadInv { s with
      sessions := Registry.dropSession s.sessions x
      closing := Function.update s.closing x true
      requested := x :: s.requested
      frames := fs
      trace := tr } := by
  obtain ⟨hacc, hreq⟩ := (h.kept x).mp hx
  have hnew : ∀ y ∈ s.requested, y ≠ x := fun y hy he => hreq (he ▸ hy)
  exact
    { nodup := nodup_dropSession hx h.nodup
      kept := fun y => by
        rw [mem_dropSession hx h.nodup, h.kept y, List.mem_cons, not_or, and_assoc,
          and_comm (b := y ≠ x)]
      asked := fun y hy => by
        rcases List.mem_cons.mp hy with rfl | hy
        · exact hacc
        · exact h.asked y hy
      closed := fun y hy => by
        by_cases he : y = x
        · exact he ▸ List.mem_cons_self
        · have hy : Function.update s.closing x true y = true := hy
          rw [Function.update_of_ne he] at hy
          exact List.mem_cons_of_mem x (h.closed y hy)
      gone := fun y hy => by
        rcases (ht y).mp hy with hy | ⟨rfl, -⟩
        · exact List.mem_cons_of_mem x (h.gone y hy)
        · exact List.mem_cons_self
      ending := fun y hy => by
        rcases List.mem_cons.mp hy with rfl | hy
        · by_cases hP : P
          · exact .inr ((hf y).mpr (.inr ⟨rfl, hP⟩))
          · exact .inl ((ht y).mpr (.inr ⟨rfl, hP⟩))
        · exact (h.ending y hy).imp (fun hd => (ht y).mpr (.inl hd)) fun he => (hf y).mpr (.inl he)
      running := fun y hy => by
        show Function.update s.closing x true y = true ∧ ¬ .destroy y ∈ tr
        rw [ht y]
        rcases (hf y).mp hy with hy | ⟨rfl, hP⟩
        · obtain ⟨hc, hd⟩ := h.running y hy
          have hne := hnew y (h.closed y hc)
          rw [Function.update_of_ne hne]
          exact ⟨hc, fun hg => hg.elim hd fun he => hne he.1⟩
        · exact ⟨Function.update_self .., fun hg => hg.elim (fun hd => hreq (h.gone y hd))
            fun he => he.2 hP⟩
      stack := hs
      known := hk
      top := fun y gs hg => absurd hg (htop y gs) }

/-- The end of a session is asked for the first time. -/
theorem remove_first (h : ThreadInv s) (hr : ∀ y, .recv y ∉ s.frames) (hx : x ∈ s.sessions)
    (hc : s.closing x = false) : ThreadInv ((s.ask x).sessionRemove ops x) := by
  have hopen : (s.ask x).closing x = false := hc
  simp only [SessionThread.sessionRemove, hopen, Bool.false_eq_true, if_false]
  cases ops.onError with
  | true =>
      refine h.drop (P := True) hx (fun y => ?_) (fun y => ?_) ?_
        (List.forall_mem_cons.mpr ⟨((h.kept x).mp hx).1, h.known⟩) fun y gs hg => by cases hg
      · simp [SessionThread.ask, or_comm]
      · simp [SessionThread.ask, SessionThread.Destroyed]
      · refine List.pairwise_cons.mpr ⟨fun g hg => ?_, h.stack⟩
        cases g with
        | recv y => exact hr y hg
        | onRecv y => trivial
        | onError y =>
            intro he
            cases he
            rw [(h.running x hg).1] at hc
            cases hc
  | false =>
      refine h.drop (P := False) hx (fun y => ?_) (fun y => ?_) h.stack h.known fun y gs hg =>
        hr y (by rw [show s.frames = _ from hg]; exact List.mem_cons_self)
      · simp [SessionThread.ask]
      · simp [SessionThread.ask, SessionThread.Destroyed]

/-- The end of a session that is not destroyed is asked for. -/
theorem remove (h : ThreadInv s) (hr : ∀ y, .recv y ∉ s.frames) (hx : x ∈ s.accepted)
    (hd : ¬ s.Destroyed x) : ThreadInv ((s.ask x).sessionRemove ops x) := by
  cases hc : s.closing x with
  | false => exact h.remove_first hr (h.mem_of_open hc hx hd) hc
  | true =>
      have hcl : (s.ask x).closing x = true := hc
      rw [SessionThread.sessionRemove, if_pos hcl]
      exact h.ask_again (h.closed x hc)

/-- `on_error` returns, and the session is destroyed. -/
theorem destroy (h : ThreadInv s) {fs : List SessionFrame} (hs : s.frames = .onError x :: fs) :
    ThreadInv ({ s with frames := fs }.sessionDestroy x) := by
  have hst := h.stack
  rw [hs, List.pairwise_cons] at hst
  have hin : SessionFrame.onError x ∈ s.frames := hs ▸ List.mem_cons_self
  have hother : ∀ y, .onError y ∈ fs → y ≠ x := fun y hy he => hst.1 _ hy he.symm
  have hgone : ∀ y, ({ s with frames := fs }.sessionDestroy x).Destroyed y ↔
      s.Destroyed y ∨ y = x := by
    intro y
    simp [SessionThread.Destroyed, SessionThread.sessionDestroy]
  exact
    { h with
      gone := fun y hy => by
        rcases (hgone y).mp hy with hy | rfl
        · exact h.gone y hy
        · exact h.closed y (h.running y hin).1
      ending := fun y hy => by
        rcases h.ending y hy with hy | hy
        · exact .inl ((hgone y).mpr (.inl hy))
        · rw [hs] at hy
          rcases List.mem_cons.mp hy with he | hy
          · cases he
            exact .inl ((hgone _).mpr (.inr rfl))
          · exact .inr hy
      running := fun y hy => by
        obtain ⟨hc, hd⟩ := h.running y (hs ▸ List.mem_cons_of_mem _ hy)
        exact ⟨hc, fun hg => ((hgone y).mp hg).elim hd (hother y hy)⟩
      stack := hst.2
      known := fun f hf => h.known f (hs ▸ List.mem_cons_of_mem _ hf)
      top := fun y gs hg => by
        have hg : fs = .recv y :: gs := hg
        exact absurd (hg ▸ List.mem_cons_self) ((h.below hs).1 y) }

/-- A new session is put into the array. -/
theorem accept (h : ThreadInv s) (hx : x ∉ s.accepted) :
    ThreadInv { s with sessions := s.sessions ++ [x], accepted := x :: s.accepted } :=
  { h with
    nodup := List.Nodup.append h.nodup (List.nodup_singleton x)
      (by simpa using fun hm => hx ((h.kept x).mp hm).1)
    kept := fun y => by
      rw [List.mem_append, List.mem_singleton, h.kept y, List.mem_cons]
      constructor
      · rintro (⟨ha, hr⟩ | rfl)
        · exact ⟨.inr ha, hr⟩
        · exact ⟨.inl rfl, fun hr => hx (h.asked _ hr)⟩
      · rintro ⟨rfl | ha, hr⟩
        · exact .inr rfl
        · exact .inl ⟨ha, hr⟩
    asked := fun y hy => List.mem_cons_of_mem x (h.asked y hy)
    known := fun f hf => List.mem_cons_of_mem x (h.known f hf) }

/-- The server is destroyed. -/
theorem serverDestroy (h : ThreadInv s) (hr : ∀ y, .recv y ∉ s.frames) :
    ThreadInv s.tcpServerDestroy := by
  have hgone : ∀ y, s.tcpServerDestroy.Destroyed y ↔ s.Destroyed y ∨ y ∈ s.sessions := by
    intro y
    simp [SessionThread.Destroyed, SessionThread.tcpServerDestroy]
  exact
    { h with
      nodup := List.nodup_nil
      kept := fun y => by
        rw [SessionThread.tcpServerDestroy, List.mem_append, not_or, h.kept y]
        refine iff_of_false (List.not_mem_nil) fun ⟨ha, hn, hq⟩ => hn ⟨ha, hq⟩
      asked := fun y hy => by
        rcases List.mem_append.mp hy with hy | hy
        · exact ((h.kept y).mp hy).1
        · exact h.asked y hy
      closed := fun y hy => List.mem_append_right _ (h.closed y hy)
      gone := fun y hy => by
        rcases (hgone y).mp hy with hy | hy
        · exact List.mem_append_right _ (h.gone y hy)
        · exact List.mem_append_left _ hy
      ending := fun y hy => by
        rcases List.mem_append.mp hy with hy | hy
        · exact .inl ((hgone y).mpr (.inr hy))
        · exact (h.ending y hy).imp (fun hy => (hgone y).mpr (.inl hy)) id
      running := fun y hy => by
        obtain ⟨hc, hd⟩ := h.running y hy
        refine ⟨hc, fun hg => ((hgone y).mp hg).elim hd fun hm => ?_⟩
        exact ((h.kept y).mp hm).2 (h.closed y hc)
      top := fun y gs hg => absurd (hg ▸ List.mem_cons_self) (hr y) }

theorem move (h : ThreadInv s) {a : SessionCall} {t : SessionThread}
    (hm : ThreadMove ops s a t) : ThreadInv t := by
  cases hm with
  | accept hx => exact h.accept hx
  | readable hc => exact h.sessionOnReadable (h.no_recv hc.1) hc.2.1
  | error hc => exact h.remove (h.no_recv hc.1) hc.2.1 hc.2.2
  | close hc => exact h.remove (h.no_recv hc.1) hc.2.1 hc.2.2
  | serverDestroy ho => exact h.serverDestroy (h.no_recv ho)
  | onRecv hs => exact h.call_onRecv hs
  | next hs => exact h.receive_again hs (by simp)
  | again hs => exact h.pop hs (by simp)
  | failed hs hd =>
      have hx := h.known _ (hs ▸ List.mem_cons_self)
      exact (h.pop hs (by simp)).remove (h.below hs).1 hx hd
  | recvReturns hs => exact h.receive_again hs (by simp)
  | errorReturns hs => exact h.destroy hs

end ThreadInv

/-- Every step keeps the invariant. -/
theorem sessionThread_inv {ops : SessionOps} {s t : SessionThread} {a : SessionCall}
    (h : ThreadInv s) (hst : (sessionThread ops).step s a = some t) : ThreadInv t :=
  h.move (.of_step hst)

/-! ## Teardown -/

theorem teardown_concat (s : SessionThread) (e : SessionEvent) (x : Nat) :
    { s with trace := s.trace ++ [e] }.teardown x =
      s.teardown x ++ if e = .onError x ∨ e = .destroy x then [e] else [] :=
  Trace.filter_concat _

/-- How much of the teardown of each session has run. -/
structure TornInv (ops : SessionOps) (s : SessionThread) : Prop where
  torn : ∀ x, s.teardown x =
    if x ∈ s.requested then if .onError x ∈ s.frames then [.onError x] else ops.teardown x else []
  set : ∀ x, .onError x ∈ s.frames → ops.onError = true

namespace TornInv

variable {ops : SessionOps} {s : SessionThread} {x : Nat}

theorem start : TornInv ops .start where
  torn x := rfl
  set x hx := by cases hx

/-- Nothing of a teardown runs. -/
theorem reframe (h : TornInv ops s) {fs : List SessionFrame} {tr : List SessionEvent}
    (hf : ∀ x, .onError x ∈ fs ↔ .onError x ∈ s.frames)
    (ht : ∀ x, { s with trace := tr }.teardown x = s.teardown x) :
    TornInv ops { s with frames := fs, trace := tr } where
  torn x := by
    have hx := (ht x).trans (h.torn x)
    rw [← if_congr (hf x) rfl rfl] at hx
    exact hx
  set x hx := h.set x ((hf x).mp hx)

theorem receive (h : TornInv ops s) : TornInv ops (s.receive x) := by
  refine h.reframe (fun y => by simp) fun y => ?_
  rw [teardown_concat]
  simp

/-- The innermost call returns, if it is not `on_error`. -/
theorem pop (h : TornInv ops s) {f : SessionFrame} {fs : List SessionFrame}
    (hs : s.frames = f :: fs) (hf : ∀ x, f ≠ .onError x) : TornInv ops { s with frames := fs } := by
  refine h.reframe (fun y => ?_) fun y => rfl
  rw [hs, List.mem_cons]
  exact ⟨.inr, fun hy => hy.resolve_left fun he => hf y he.symm⟩

/-- The end of a session that is not destroyed is asked for. -/
theorem remove (h : TornInv ops s) (hi : ThreadInv s) (hx : x ∈ s.accepted)
    (hd : ¬ s.Destroyed x) : TornInv ops ((s.ask x).sessionRemove ops x) := by
  cases hc : s.closing x with
  | true =>
      have hcl : (s.ask x).closing x = true := hc
      have hreq := hi.closed x hc
      rw [SessionThread.sessionRemove, if_pos hcl]
      refine ⟨fun y => (h.torn y).trans (if_congr ?_ rfl rfl), h.set⟩
      rw [SessionThread.ask, List.mem_cons]
      exact ⟨.inr, fun hy => hy.elim (fun he => he ▸ hreq) id⟩
  | false =>
      have hreq : x ∉ s.requested := ((hi.kept x).mp (hi.mem_of_open hc hx hd)).2
      have hout : .onError x ∉ s.frames := fun he => by
        rw [(hi.running x he).1] at hc
        cases hc
      have hnone : s.teardown x = [] := by rw [h.torn x, if_neg hreq]
      have hopen : (s.ask x).closing x = false := hc
      simp only [SessionThread.sessionRemove, hopen, Bool.false_eq_true, if_false]
      cases hops : ops.onError with
      | true =>
          refine ⟨fun y => ?_, fun _ _ => hops⟩
          refine (teardown_concat s _ y).trans ?_
          by_cases he : y = x
          · subst he
            simp [hnone, SessionThread.ask]
          · have hne : ¬ x = y := fun h => he h.symm
            simp [h.torn y, SessionThread.ask, he, hne]
      | false =>
          refine ⟨fun y => ?_, fun y hy => h.set y hy⟩
          refine (teardown_concat s _ y).trans ?_
          by_cases he : y = x
          · subst he
            simp [hnone, SessionThread.ask, SessionThread.sessionDestroy, SessionOps.teardown,
              hops, hout]
          · have hne : ¬ x = y := fun h => he h.symm
            simp [h.torn y, SessionThread.ask, SessionThread.sessionDestroy, he, hne]

/-- `on_error` returns, and the session is destroyed. -/
theorem destroy (h : TornInv ops s) (hi : ThreadInv s) {fs : List SessionFrame}
    (hs : s.frames = .onError x :: fs) :
    TornInv ops ({ s with frames := fs }.sessionDestroy x) := by
  have hin : SessionFrame.onError x ∈ s.frames := hs ▸ List.mem_cons_self
  have hreq : x ∈ s.requested := hi.closed x (hi.running x hin).1
  have hout : .onError x ∉ fs := (hi.below hs).2
  have hset : ops.onError = true := h.set x hin
  refine ⟨fun y => ?_, fun y hy => hset⟩
  refine (teardown_concat s _ y).trans ?_
  rw [h.torn y]
  by_cases he : y = x
  · subst he
    simp [hreq, hin, hout, SessionThread.sessionDestroy, SessionOps.teardown, hset]
  · have hne : ¬ x = y := fun h => he h.symm
    have hmem : .onError y ∈ s.frames ↔ .onError y ∈ fs := by simp [hs, he]
    rw [if_neg (c := _ ∨ _) (by simp [hne]), List.append_nil]
    exact if_congr Iff.rfl (if_congr hmem rfl rfl) rfl

theorem move (h : TornInv ops s) (hi : ThreadInv s) {a : SessionCall} {t : SessionThread}
    (ha : ServerStays s a) (hm : ThreadMove ops s a t) : TornInv ops t := by
  cases hm with
  | accept hx => exact ⟨h.torn, h.set⟩
  | readable hc =>
      rw [SessionThread.sessionOnReadable]
      split
      · exact h
      · exact h.receive
  | error hc => exact h.remove hi hc.2.1 hc.2.2
  | close hc => exact h.remove hi hc.2.1 hc.2.2
  | serverDestroy ho => exact absurd rfl ha
  | onRecv hs =>
      refine h.reframe (fun y => by simp [hs]) fun y => ?_
      rw [teardown_concat]
      simp
  | next hs => exact (h.pop hs (by simp)).receive
  | again hs => exact h.pop hs (by simp)
  | failed hs hd =>
      have hx := hi.known _ (hs ▸ List.mem_cons_self)
      exact (h.pop hs (by simp)).remove (hi.pop hs (by simp)) hx hd
  | recvReturns hs => exact (h.pop hs (by simp)).receive
  | errorReturns hs => exact h.destroy hi hs

end TornInv

/-- However often and in whatever order the end of a session is asked for, it is taken out of
the array, `on_error` runs once and then the session is destroyed; every other session
stays in the array. -/
theorem session_torn_down_once (ops : SessionOps) (s : SessionThread)
    (h : (sessionThread ops).Leads ServerStays .start s) :
    s.sessions.Nodup ∧ (∀ x, x ∈ s.sessions ↔ x ∈ s.accepted ∧ x ∉ s.requested) ∧
      ∀ x, s.teardown x =
        if x ∈ s.requested then if .onError x ∈ s.frames then [.onError x] else ops.teardown x
        else [] := by
  have hinv : ThreadInv s ∧ TornInv ops s := by
    refine h.invariant (I := fun s => ThreadInv s ∧ TornInv ops s) ?_ ⟨.start, .start⟩
    rintro s a t ⟨hi, ht⟩ ha hst
    exact ⟨hi.move (.of_step hst), ht.move hi ha (.of_step hst)⟩
  exact ⟨hinv.1.nodup, hinv.1.kept, hinv.2.torn⟩

/-- The peer of session 0 is gone; `on_error` closes the session again and another one, and
an error of it is still pending. -/
def closeInError : List SessionCall :=
  [.accept 0, .accept 1, .accept 2, .readable 0, .data, .ret, .failed, .close 0, .error 0,
    .close 2, .ret, .readable 0, .ret, .readable 1, .again]

theorem session_torn_down_once_run :
    ∃ s, (sessionThread ⟨true, true⟩).run .start closeInError = some s ∧ s.sessions = [1] ∧
      s.teardown 0 = [.onError 0, .destroy 0] := by
  have hrun : ((sessionThread ⟨true, true⟩).run .start closeInError).map
      (fun s => (s.sessions, s.requested, s.frames)) = some ([1], [2, 0, 0, 0], []) := by
    decide +kernel
  obtain ⟨s, hs, heq⟩ := Option.map_eq_some_iff.mp hrun
  obtain ⟨hsess, hreq, hframes⟩ :
      s.sessions = [1] ∧ s.requested = [2, 0, 0, 0] ∧ s.frames = [] := by simpa using heq
  have hl := Machine.leads_of_run (C := ServerStays) closeInError _ _ hs (by decide +kernel)
  have htorn := (session_torn_down_once ⟨true, true⟩ s hl).2.2 0
  rw [hreq, hframes] at htorn
  exact ⟨s, hs, hsess, htorn⟩

/-! ## Receiving -/

theorem quiet_receive (s : SessionThread) (x : Nat) :
    (s.receive x).Quiet ↔ s.Quiet ∧ ¬ s.Destroyed x := by
  refine Trace.closed_concat.trans (and_congr_right fun _ => ?_)
  refine ⟨fun h hx => h x hx (.inl rfl), fun h y hy hu => ?_⟩
  rcases hu with he | he
  · cases he
    exact h hy
  · cases he

/-- What a teardown records receives from no session. -/
theorem quiet_append {s : SessionThread} (h : s.Quiet) {es : List SessionEvent}
    (hes : ∀ e ∈ es, ∃ x, e = .onError x ∨ e = .destroy x) :
    { s with trace := s.trace ++ es }.Quiet := by
  refine h.append_unused fun e he x hu => ?_
  obtain ⟨y, rfl | rfl⟩ := hes e he <;> rcases hu with hu | hu <;> cases hu

theorem quiet_remove {ops : SessionOps} {s : SessionThread} {x : Nat} (h : s.Quiet) :
    ((s.ask x).sessionRemove ops x).Quiet := by
  rw [SessionThread.sessionRemove]
  split
  · exact h
  · cases ops.onError with
    | true => exact quiet_append h (by simp)
    | false => exact quiet_append h (by simp)

/-- When a callback returns, the thread receives from no session that was destroyed exactly
if nobody has asked for the end of the session whose `on_recv` returns. -/
theorem quiet_ret_iff {ops : SessionOps} {s t : SessionThread} (hi : ThreadInv s) (hq : s.Quiet)
    (hm : ThreadMove ops s .ret t) : t.Quiet ↔ s.ReturnsOpen .ret := by
  cases hm with
  | @recvReturns fs x hs =>
      have hret : s.returning = some x := by rw [SessionThread.returning, hs]
      have hgone : s.Destroyed x ↔ x ∈ s.requested := by
        refine ⟨hi.gone x, fun hx => (hi.ending x hx).resolve_right fun he => ?_⟩
        rw [hs] at he
        rcases List.mem_cons.mp he with he | he
        · cases he
        · exact (hi.below hs).2 he
      rw [quiet_receive]
      constructor
      · rintro ⟨-, hd⟩ - y hy
        rw [hret, Option.mem_some] at hy
        exact hy ▸ fun hx => hd (hgone.mpr hx)
      · intro h
        exact ⟨hq, fun hd => h rfl x hret (hgone.mp hd)⟩
  | errorReturns hs =>
      have hret : s.returning = none := by rw [SessionThread.returning, hs]
      refine iff_of_true (quiet_append hq (by simp)) fun _ y hy => ?_
      rw [hret] at hy
      cases hy

/-- A step keeps the thread from receiving from destroyed sessions exactly if it does not
return from the `on_recv` of a session whose end was asked for. -/
theorem quiet_step_iff {ops : SessionOps} {s t : SessionThread} {a : SessionCall}
    (hi : ThreadInv s) (hq : s.Quiet) (hm : ThreadMove ops s a t) :
    t.Quiet ↔ s.ReturnsOpen a := by
  by_cases ha : a = .ret
  · subst ha
    exact quiet_ret_iff hi hq hm
  · refine iff_of_true ?_ fun he => absurd he ha
    cases hm with
    | accept hx => exact hq
    | readable hc =>
        rw [SessionThread.sessionOnReadable]
        split
        · exact hq
        · exact (quiet_receive s _).mpr ⟨hq, hc.2.2⟩
    | error hc => exact quiet_remove hq
    | close hc => exact quiet_remove hq
    | serverDestroy ho => exact quiet_append hq (by simp)
    | onRecv hs hd =>
        refine Trace.closed_concat.mpr ⟨hq, fun y hy hu => ?_⟩
        rcases hu with he | he
        · cases he
        · cases he
          exact hd hy
    | next hs hd => exact (quiet_receive _ _).mpr ⟨hq, hd⟩
    | again hs => exact hq
    | failed hs hd => exact quiet_remove hq
    | recvReturns hs => exact absurd rfl ha
    | errorReturns hs => exact absurd rfl ha

/-- Throughout a run no session is received from, or handed to `on_recv`, after it was
destroyed, exactly if no `on_recv` of the run returns after the end of its session was
asked for. -/
theorem receive_stops_iff (ops : SessionOps) (as : List SessionCall) (s : SessionThread)
    (h : (sessionThread ops).run .start as = some s) :
    (sessionThread ops).Throughout SessionThread.Quiet .start as ↔
      (sessionThread ops).RunMeets SessionThread.ReturnsOpen .start as :=
  Machine.throughout_iff (D := Machine.Any) (I := ThreadInv)
    (fun _ _ _ hi _ hst => sessionThread_inv hi hst)
    (fun _ _ _ hi _ hq hst => quiet_step_iff hi hq (.of_step hst))
    as .start s .start Trace.closed_nil (Machine.runMeets_any _ _) h

/-- The `on_recv` of session 0 closes session 1. -/
def closeOther : List SessionCall :=
  [.accept 0, .accept 1, .readable 0, .data, .close 1, .ret, .ret, .data, .ret, .failed, .ret]

theorem receive_stops_close_other :
    ∃ s, (sessionThread ⟨true, true⟩).run .start closeOther = some s ∧ s.Quiet := by
  obtain ⟨s, hs⟩ := Option.isSome_iff_exists.mp
    (show ((sessionThread ⟨true, true⟩).run .start closeOther).isSome = true by decide +kernel)
  have hq := (receive_stops_iff ⟨true, true⟩ closeOther s hs).mpr (by decide +kernel)
  exact ⟨s, hs, hq closeOther s List.prefix_rfl hs⟩

/-- The `on_recv` of session 0 closes its own session. -/
def closeInRecv : List SessionCall := [.accept 0, .readable 0, .data, .close 0, .ret, .ret]

theorem receive_after_destroy :
    ∃ s, (sessionThread ⟨true, true⟩).run .start closeInRecv = some s ∧
      s.trace = [.recv 0, .onRecv 0, .onError 0, .destroy 0, .recv 0] ∧ ¬ s.Quiet := by
  have hrun : ((sessionThread ⟨true, true⟩).run .start closeInRecv).map SessionThread.trace =
      some [.recv 0, .onRecv 0, .onError 0, .destroy 0, .recv 0] := by decide +kernel
  obtain ⟨s, hs, htrace⟩ := Option.map_eq_some_iff.mp hrun
  refine ⟨s, hs, htrace, fun hq => ?_⟩
  rw [SessionThread.Quiet, htrace] at hq
  have hclosed : Trace.Closed SessionEvent.destroy SessionEvent.Receives
      (([.recv 0, .onRecv 0, .onError 0, .destroy 0] : List SessionEvent) ++ [.recv 0]) := hq
  exact hclosed.not_ended (x := 0) (.inl rfl) (by simp)

end Ztk.Net
