import Ztk.Lib.Lifetime
import Ztk.Wepoll.Reflock

/-!
# Epoll handles

`epoll_create1`, `epoll_ctl`, `epoll_wait` and `epoll_close` of `wepoll.c`, called by any
number of threads with any handles.  The handle of a port is that of its I/O completion
port; `epoll__handle_tree` finds the port, and the reference lock in the port keeps it while
a call is at work.  The tree has a lock, under which a port is looked up and referenced, so
each of its functions is one step.

`port_close` closes the handle, and the kernel may give the same number to the next
completion port.  A port is named by the order of its creation.

Of `port_ctl` and `port_wait` two things are looked at: they use the port, any number of
times, and `port__poll` reads `iocp_handle` outside the lock of the port.  If the port is
closed and the handle is given again before the kernel gets to see it, the thread is handed
the packets of the new port, and `port__feed_events` puts the sockets of this port in the
queues of the old one.  From then on the two ports are linked: whoever works on one may follow
a pointer into the other, which may be freed by then.
-/

namespace Ztk.Wepoll

open Ztk.Lib

/-! ## State -/

/-- Where a thread is. -/
inductive EpollPhase where
  | idle
  /-- In `epoll__create`: `port_new` has returned a port and a handle. -/
  | created (p h : Nat)
  /-- In `epoll__create`: `ts_tree_add` has failed. -/
  | refused (p : Nat)
  /-- In `port_ctl` or `port_wait`. -/
  | inside (p : Nat)
  /-- In `port__poll`, outside the lock, with the value of `iocp_handle`. -/
  | polling (p : Nat) (h : Option Nat)
  /-- In `ts_tree_node_unref`, at the event. -/
  | leaving (p : Nat)
  /-- In `epoll_close`, before `port_close`. -/
  | closing (p : Nat)
  /-- In `epoll_close`, before `ts_tree_node_unref_and_destroy`. -/
  | closed (p : Nat)
  /-- In `ts_tree_node_unref_and_destroy`. -/
  | destroying (p : Nat)
  /-- In `epoll_close`, before `port_delete`. -/
  | deleting (p : Nat)
deriving DecidableEq

namespace EpollPhase

/-- The port that the thread is about to use. -/
def port : EpollPhase → Option Nat
  | .idle => none
  | .created p _ | .refused p | .inside p | .polling p _ | .leaving p | .closing p
  | .closed p | .destroying p | .deleting p => some p

/-- The port that the thread uses in `epoll_ctl` or `epoll_wait`. -/
def calls : EpollPhase → Option Nat
  | .inside p | .polling p _ | .leaving p => some p
  | .idle | .created _ _ | .refused _ | .closing _ | .closed _ | .destroying _
  | .deleting _ => none

/-- The port that the thread alone creates or closes. -/
def owned : EpollPhase → Option Nat
  | .idle | .inside _ | .polling _ _ | .leaving _ => none
  | .created p _ | .refused p | .closing p | .closed p | .destroying p | .deleting p => some p

/-- The port whose lock the thread has a reference to. -/
def held : EpollPhase → Option Nat
  | .inside p | .polling p _ | .closing p | .closed p => some p
  | .idle | .created _ _ | .refused _ | .leaving _ | .destroying _ | .deleting _ => none

/-- The port for whose lock the thread is about to signal. -/
def signals : EpollPhase → Option Nat
  | .leaving p => some p
  | _ => none

/-- The port whose lock the thread destroys. -/
def destroys : EpollPhase → Option Nat
  | .destroying p => some p
  | _ => none

end EpollPhase

/-- The handles of the process, the ports, and the threads that use them. -/
structure EpollWorld where
  /-- `epoll__handle_tree`. -/
  tree : Nat → Option Nat
  /-- The completion ports that the kernel has open. -/
  isOpen : Nat → Bool
  /-- `iocp_handle` of a port. -/
  iocp : Nat → Option Nat
  /-- `handle_tree_node.reflock` of a port. -/
  lock : Nat → Reflock
  /-- The memory of the ports and of their sockets. -/
  life : Lifetime
  /-- The pairs of linked ports. -/
  linked : List (Nat × Nat)
  /-- The number of ports created so far. -/
  next : Nat
  phase : Nat → EpollPhase

namespace EpollWorld

/-- When the process begins. -/
def start : EpollWorld where
  tree _ := none
  isOpen _ := false
  iocp _ := none
  lock _ := .init
  life := .start
  linked := []
  next := 0
  phase _ := .idle

/-! ## The functions of the source -/

/-- The thread has used the port, and goes on. -/
def uses (s : EpollWorld) (t p : Nat) (q : EpollPhase) : EpollWorld :=
  { s with life := s.life.use p, phase := Function.update s.phase t q }

/-- The ports that are linked with a port. -/
def neighbours (s : EpollWorld) (p : Nat) : List Nat :=
  (s.linked.filter fun l => l.1 = p).map Prod.snd

/-- `port_new`, where `CreateIoCompletionPort` returns `h`. -/
def portNew (s : EpollWorld) (t h : Nat) : EpollWorld :=
  { s with
    isOpen := Function.update s.isOpen h true
    iocp := Function.update s.iocp s.next (some h)
    next := s.next + 1
    phase := Function.update s.phase t (.created s.next h) }

/-- `ts_tree_add`. -/
def tsTreeAdd (s : EpollWorld) (t p h : Nat) : EpollWorld :=
  if s.tree h = none then
    { s.uses t p .idle with tree := Function.update s.tree h (some p) }
  else s.uses t p (.refused p)

/-- A step of the thread on the lock of a port. -/
def withLock (s : EpollWorld) (p : Nat) (l : Reflock) : EpollWorld :=
  { s with lock := Function.update s.lock p l }

/-- `ts_tree_find_and_ref`, on a handle that is found. -/
def tsTreeFindAndRef (s : EpollWorld) (t p : Nat) : EpollWorld :=
  (s.uses t p (.inside p)).withLock p ((s.lock p).ref t)

/-- A step of `port_ctl` or `port_wait` on the sockets of the port. -/
def portUse (s : EpollWorld) (t p : Nat) : EpollWorld :=
  { s.uses t p (.inside p) with life := (s.life.use p).useAll (s.neighbours p) }

/-- `port__poll` gives up the lock and reads `iocp_handle`. -/
def portPoll (s : EpollWorld) (t p : Nat) : EpollWorld := s.uses t p (.polling p (s.iocp p))

/-- `port__feed_events`, on packets of the port `q`. -/
def portFeedEvents (s : EpollWorld) (t p q : Nat) : EpollWorld :=
  if q = p then s.portUse t p
  else
    { s.portUse t p with
      life := (s.portUse t p).life.use q
      linked := (p, q) :: (q, p) :: s.linked }

/-- `ts_tree_node_unref`, up to the event. -/
def tsTreeNodeUnref (s : EpollWorld) (t p : Nat) : EpollWorld :=
  let l := (s.lock p).unref t
  (s.uses t p (if l.phase t = .signalling then .leaving p else .idle)).withLock p l

/-- `ts_tree_del_and_ref`, on a handle that is found. -/
def tsTreeDelAndRef (s : EpollWorld) (t p h : Nat) : EpollWorld :=
  { (s.uses t p (.closing p)).withLock p ((s.lock p).ref t) with
    tree := Function.update s.tree h none }

/-- `port_close`, of a port with the handle `h`. -/
def portClose (s : EpollWorld) (t p h : Nat) : EpollWorld :=
  { s.uses t p (.closed p) with
    iocp := Function.update s.iocp p none
    isOpen := Function.update s.isOpen h false }

/-- `ts_tree_node_unref_and_destroy`, up to the event. -/
def tsTreeNodeUnrefAndDestroy (s : EpollWorld) (t p : Nat) : EpollWorld :=
  (s.uses t p (.destroying p)).withLock p ((s.lock p).unrefAndDestroy t)

/-- `port_delete`. -/
def portDelete (s : EpollWorld) (t p : Nat) : EpollWorld :=
  { s with
    life := (s.life.useAll (s.neighbours p)).free p
    phase := Function.update s.phase t .idle }

end EpollWorld

/-! ## The machine -/

inductive EpollAct where
  /-- `epoll_create1`; the kernel gives the handle `h`. -/
  | create (t h : Nat)
  | add (t : Nat)
  /-- `port_delete` after `ts_tree_add` has failed. -/
  | deleteRefused (t : Nat)
  /-- `epoll_ctl` or `epoll_wait`, on any handle. -/
  | call (t h : Nat)
  /-- `port_ctl` or `port_wait` uses the port. -/
  | use (t : Nat)
  | poll (t : Nat)
  /-- `GetQueuedCompletionStatusEx` returns packets of the port `q`. -/
  | packets (t q : Nat)
  /-- `GetQueuedCompletionStatusEx` fails. -/
  | wake (t : Nat)
  | unref (t : Nat)
  | meet (t u : Nat)
  /-- `epoll_close`, on any handle. -/
  | close (t h : Nat)
  | portClose (t : Nat)
  | unrefAndDestroy (t : Nat)
  | poison (t : Nat)
  | delete (t : Nat)

def epollStep (s : EpollWorld) : EpollAct → Option EpollWorld
  | .create t h =>
      if s.phase t = .idle ∧ s.isOpen h = false then some (s.portNew t h) else none
  | .add t =>
      match s.phase t with
      | .created p h => some (s.tsTreeAdd t p h)
      | _ => none
  | .deleteRefused t =>
      match s.phase t with
      | .refused p => some (s.portDelete t p)
      | _ => none
  | .call t h =>
      if s.phase t = .idle then
        match s.tree h with
        | some p => some (s.tsTreeFindAndRef t p)
        | none => some s
      else none
  | .use t =>
      match s.phase t with
      | .inside p => some (s.portUse t p)
      | _ => none
  | .poll t =>
      match s.phase t with
      | .inside p => some (s.portPoll t p)
      | _ => none
  | .packets t q =>
      match s.phase t with
      | .polling p (some h) => if s.iocp q = some h then some (s.portFeedEvents t p q) else none
      | _ => none
  | .wake t =>
      match s.phase t with
      | .polling p _ => some (s.uses t p (.inside p))
      | _ => none
  | .unref t =>
      match s.phase t with
      | .inside p => some (s.tsTreeNodeUnref t p)
      | _ => none
  | .meet t u =>
      match s.phase t with
      | .leaving p =>
          if s.phase u = .destroying p ∧ (s.lock p).phase u = .awaiting then
            some ({ s with phase := Function.update s.phase t .idle }.withLock p
              ((s.lock p).meet t u))
          else none
      | _ => none
  | .close t h =>
      if s.phase t = .idle then
        match s.tree h with
        | some p => some (s.tsTreeDelAndRef t p h)
        | none => some s
      else none
  | .portClose t =>
      match s.phase t with
      | .closing p => (s.iocp p).map (s.portClose t p)
      | _ => none
  | .unrefAndDestroy t =>
      match s.phase t with
      | .closed p => some (s.tsTreeNodeUnrefAndDestroy t p)
      | _ => none
  | .poison t =>
      match s.phase t with
      | .destroying p =>
          if (s.lock p).phase t = .poisoning then
            some ((s.uses t p (.deleting p)).withLock p ((s.lock p).poison t))
          else none
      | _ => none
  | .delete t =>
      match s.phase t with
      | .deleting p => some (s.portDelete t p)
      | _ => none

/-- The handles of a process and its threads as a machine. -/
def epollMachine : Machine EpollWorld EpollAct := ⟨epollStep⟩

/-- Fewer than `2 ^ 28` calls use a port at a time. -/
def FewCalls (s : EpollWorld) : EpollAct → Prop
  | .call _ h | .close _ h =>
      ∀ p ∈ s.tree h, (s.lock p).owners.length + 1 < 2 ^ 28
  | _ => True

instance (s : EpollWorld) (a : EpollAct) : Decidable (FewCalls s a) :=
  match a with
  | .call _ h | .close _ h =>
      inferInstanceAs (Decidable (∀ p ∈ s.tree h, (s.lock p).owners.length + 1 < 2 ^ 28))
  | .create _ _ | .add _ | .deleteRefused _ | .use _ | .poll _ | .packets _ _ | .wake _
  | .unref _ | .meet _ _ | .portClose _ | .unrefAndDestroy _ | .poison _ | .delete _ => isTrue trivial

namespace EpollWorld

variable {s s' : EpollWorld}

/-! ## What a step does -/

/-- The steps of the source, one by one. -/
inductive Move (s : EpollWorld) : EpollAct → EpollWorld → Prop where
  | create {t h : Nat} (hp : s.phase t = .idle) (ho : s.isOpen h = false) :
      Move s (.create t h) (s.portNew t h)
  | add {t p h : Nat} (hp : s.phase t = .created p h) : Move s (.add t) (s.tsTreeAdd t p h)
  | deleteRefused {t p : Nat} (hp : s.phase t = .refused p) :
      Move s (.deleteRefused t) (s.portDelete t p)
  | call {t h p : Nat} (hp : s.phase t = .idle) (hh : s.tree h = some p) :
      Move s (.call t h) (s.tsTreeFindAndRef t p)
  | callNone {t h : Nat} : Move s (.call t h) s
  | use {t p : Nat} (hp : s.phase t = .inside p) : Move s (.use t) (s.portUse t p)
  | poll {t p : Nat} (hp : s.phase t = .inside p) : Move s (.poll t) (s.portPoll t p)
  | packets {t p q h : Nat} (hp : s.phase t = .polling p (some h)) (hq : s.iocp q = some h) :
      Move s (.packets t q) (s.portFeedEvents t p q)
  | wake {t p : Nat} {h : Option Nat} (hp : s.phase t = .polling p h) :
      Move s (.wake t) (s.uses t p (.inside p))
  | unref {t p : Nat} (hp : s.phase t = .inside p) : Move s (.unref t) (s.tsTreeNodeUnref t p)
  | meet {t u p : Nat} (hp : s.phase t = .leaving p) (hu : s.phase u = .destroying p)
      (hl : (s.lock p).phase u = .awaiting) :
      Move s (.meet t u) ({ s with phase := Function.update s.phase t .idle }.withLock p
        ((s.lock p).meet t u))
  | close {t h p : Nat} (hp : s.phase t = .idle) (hh : s.tree h = some p) :
      Move s (.close t h) (s.tsTreeDelAndRef t p h)
  | closeNone {t h : Nat} : Move s (.close t h) s
  | portClose {t p h : Nat} (hp : s.phase t = .closing p) (hh : s.iocp p = some h) :
      Move s (.portClose t) (s.portClose t p h)
  | unrefAndDestroy {t p : Nat} (hp : s.phase t = .closed p) :
      Move s (.unrefAndDestroy t) (s.tsTreeNodeUnrefAndDestroy t p)
  | poison {t p : Nat} (hp : s.phase t = .destroying p) (hl : (s.lock p).phase t = .poisoning) :
      Move s (.poison t) ((s.uses t p (.deleting p)).withLock p ((s.lock p).poison t))
  | delete {t p : Nat} (hp : s.phase t = .deleting p) : Move s (.delete t) (s.portDelete t p)

theorem step_move {a : EpollAct} (h : epollStep s a = some s') : s.Move a s' := by
  cases a with
  | create t h =>
      obtain ⟨⟨hp, ho⟩, h⟩ := Option.ite_none_right_eq_some.mp h
      cases h
      exact .create hp ho
  | add t =>
      rw [epollStep] at h
      split at h
      · next p h hp =>
          cases h
          exact .add hp
      · cases h
  | deleteRefused t =>
      rw [epollStep] at h
      split at h
      · next p hp =>
          cases h
          exact .deleteRefused hp
      · cases h
  | call t h =>
      obtain ⟨hp, h⟩ := Option.ite_none_right_eq_some.mp h
      split at h
      · next p hh =>
          cases h
          exact .call hp hh
      · cases h
        exact .callNone
  | use t =>
      rw [epollStep] at h
      split at h
      · next p hp =>
          cases h
          exact .use hp
      · cases h
  | poll t =>
      rw [epollStep] at h
      split at h
      · next p hp =>
          cases h
          exact .poll hp
      · cases h
  | packets t q =>
      rw [epollStep] at h
      split at h
      · next p k hp =>
          obtain ⟨hq, h⟩ := Option.ite_none_right_eq_some.mp h
          cases h
          exact .packets hp hq
      · cases h
  | wake t =>
      rw [epollStep] at h
      split at h
      · next p k hp =>
          cases h
          exact .wake hp
      · cases h
  | unref t =>
      rw [epollStep] at h
      split at h
      · next p hp =>
          cases h
          exact .unref hp
      · cases h
  | meet t u =>
      rw [epollStep] at h
      split at h
      · next p hp =>
          obtain ⟨⟨hu, hl⟩, h⟩ := Option.ite_none_right_eq_some.mp h
          cases h
          exact .meet hp hu hl
      · cases h
  | close t h =>
      obtain ⟨hp, h⟩ := Option.ite_none_right_eq_some.mp h
      split at h
      · next p hh =>
          cases h
          exact .close hp hh
      · cases h
        exact .closeNone
  | portClose t =>
      rw [epollStep] at h
      split at h
      · next p hp =>
          obtain ⟨h', hh, rfl⟩ := Option.map_eq_some_iff.mp h
          exact .portClose hp hh
      · cases h
  | unrefAndDestroy t =>
      rw [epollStep] at h
      split at h
      · next p hp =>
          cases h
          exact .unrefAndDestroy hp
      · cases h
  | poison t =>
      rw [epollStep] at h
      split at h
      · next p hp =>
          obtain ⟨hl, h⟩ := Option.ite_none_right_eq_some.mp h
          cases h
          exact .poison hp hl
      · cases h
  | delete t =>
      rw [epollStep] at h
      split at h
      · next p hp =>
          cases h
          exact .delete hp
      · cases h

theorem withLock_self {p : Nat} {l : Reflock} : (s.withLock p l).lock p = l :=
  Function.update_self ..

theorem withLock_of_ne {p q : Nat} {l : Reflock} (h : q ≠ p) :
    (s.withLock p l).lock q = s.lock q :=
  Function.update_of_ne h ..

end EpollWorld

/-! ## The invariant -/

/-- The lock of a port knows the threads that use the port. -/
structure PortLocked (s : EpollWorld) (p : Nat) : Prop where
  inv : ReflockInv (s.lock p)
  once : (s.lock p).owners.Nodup
  owns : ∀ t, t ∈ (s.lock p).owners ↔ (s.phase t).held = some p
  signals : ∀ t, (s.lock p).phase t = .signalling ↔ (s.phase t).signals = some p

/-- No port is freed twice, and none is used when it is freed, as long as no ports are
linked. -/
structure EpollSound (linked : List (Nat × Nat)) (m : Lifetime) : Prop where
  freedTwice : m.freedTwice = false
  usedFreed : linked = [] → m.usedFreed = false

namespace EpollSound

variable {linked : List (Nat × Nat)} {m : Lifetime} {p : Nat}

theorem use (h : EpollSound linked m) (hp : m.Live p) : EpollSound linked (m.use p) :=
  ⟨h.freedTwice, fun hl => (Lifetime.Sound.use ⟨h.usedFreed hl, h.freedTwice⟩ hp).usedFreed⟩

/-- Pointers from one port to another are followed only where ports are linked. -/
theorem useAll (h : EpollSound linked m) {ps : List Nat} (hps : linked = [] → ps = []) :
    EpollSound linked (m.useAll ps) := by
  refine ⟨(Lifetime.useAll_freedTwice ..).trans h.freedTwice, fun hl => ?_⟩
  rw [hps hl]
  exact h.usedFreed hl

theorem free (h : EpollSound linked m) (hp : m.Live p) : EpollSound linked (m.free p) := by
  refine ⟨?_, h.usedFreed⟩
  rw [Lifetime.free, h.freedTwice, Bool.false_or]
  exact hp

end EpollSound

/-- A port that is not created yet. -/
structure PortFresh (s : EpollWorld) (p : Nat) : Prop where
  iocp : s.iocp p = none
  destroyer : (s.lock p).destroyer = none
  live : s.life.Live p
  unused : ∀ t, (s.phase t).port ≠ some p

/-- What a thread knows of the port `p` that it creates or closes. -/
def Knows (s : EpollWorld) (t p : Nat) : EpollPhase → Prop
  | .created _ h => s.iocp p = some h ∧ (s.lock p).destroyer = none ∧ ∀ k, s.tree k ≠ some p
  | .closing _ =>
      (s.iocp p).isSome = true ∧ (s.lock p).destroyer = none ∧ ∀ k, s.tree k ≠ some p
  | .closed _ => s.iocp p = none ∧ (s.lock p).destroyer = none
  | .destroying _ =>
      s.iocp p = none ∧ ((s.lock p).phase t = .awaiting ∨ (s.lock p).phase t = .poisoning)
  | .deleting _ => s.iocp p = none ∧ ∀ u, u ≠ t → (s.phase u).port ≠ some p
  | .idle | .refused _ | .inside _ | .polling _ _ | .leaving _ => False

/-- The life of a port after `port_new`: it is in the tree, one thread creates or closes it,
or it is freed. -/
inductive PortStage (s : EpollWorld) (p : Nat) : Prop where
  | listed {h : Nat} (hh : s.tree h = some p) (hd : (s.lock p).destroyer = none)
      (hf : s.life.Live p) (hu : ∀ u, (s.phase u).owned ≠ some p)
  | owned {t : Nat} (ht : (s.phase t).owned = some p) (hk : Knows s t p (s.phase t))
      (hf : s.life.Live p) (hu : ∀ u, u ≠ t → (s.phase u).owned ≠ some p)
  | freed (hi : s.iocp p = none) (hu : ∀ u, (s.phase u).port ≠ some p)

/-- The tree holds open handles, each that of its port. -/
structure Handles (tree iocp : Nat → Option Nat) (isOpen : Nat → Bool) : Prop where
  inTree : ∀ {h p}, tree h = some p → iocp p = some h
  isOpen : ∀ {p h}, iocp p = some h → isOpen h = true
  distinct : ∀ {p q h}, iocp p = some h → iocp q = some h → p = q

namespace Handles

variable {tree iocp : Nat → Option Nat} {isOpen : Nat → Bool} {p h : Nat}

/-- A new port with a handle that was closed. -/
theorem create (hs : Handles tree iocp isOpen) (ho : isOpen h = false)
    (htree : ∀ k, tree k ≠ some p) :
    Handles tree (Function.update iocp p (some h)) (Function.update isOpen h true) := by
  have hne : ∀ {q}, iocp q = some h → False := by
    intro q hq
    rw [hs.isOpen hq] at ho
    cases ho
  refine ⟨fun {k q} hk => ?_, fun {q k} hq => ?_, fun {q r k} hq hr => ?_⟩
  · have hqp : q ≠ p := fun he => htree k (he ▸ hk)
    exact (Function.update_of_ne hqp ..).trans (hs.inTree hk)
  · by_cases hkh : k = h
    · rw [hkh]
      exact Function.update_self ..
    · by_cases hqp : q = p
      · rw [hqp, Function.update_self] at hq
        exact (hkh (Option.some.inj hq).symm).elim
      · rw [Function.update_of_ne hqp] at hq
        exact (Function.update_of_ne hkh ..).trans (hs.isOpen hq)
  · by_cases hqp : q = p
    · by_cases hrp : r = p
      · exact hqp.trans hrp.symm
      · rw [hqp, Function.update_self] at hq
        rw [Function.update_of_ne hrp, ← hq] at hr
        exact (hne hr).elim
    · by_cases hrp : r = p
      · rw [hrp, Function.update_self] at hr
        rw [Function.update_of_ne hqp, ← hr] at hq
        exact (hne hq).elim
      · rw [Function.update_of_ne hqp] at hq
        rw [Function.update_of_ne hrp] at hr
        exact hs.distinct hq hr

theorem insert (hs : Handles tree iocp isOpen) (hi : iocp p = some h) :
    Handles (Function.update tree h (some p)) iocp isOpen := by
  refine ⟨fun {k q} hk => ?_, hs.isOpen, hs.distinct⟩
  by_cases hkh : k = h
  · rw [hkh, Function.update_self] at hk
    rw [hkh, ← Option.some.inj hk]
    exact hi
  · rw [Function.update_of_ne hkh] at hk
    exact hs.inTree hk

theorem erase (hs : Handles tree iocp isOpen) :
    Handles (Function.update tree h none) iocp isOpen := by
  refine ⟨fun {k q} hk => ?_, hs.isOpen, hs.distinct⟩
  by_cases hkh : k = h
  · rw [hkh, Function.update_self] at hk
    cases hk
  · rw [Function.update_of_ne hkh] at hk
    exact hs.inTree hk

/-- The handle of a port that is not in the tree is closed. -/
theorem close (hs : Handles tree iocp isOpen) (hi : iocp p = some h)
    (htree : ∀ k, tree k ≠ some p) :
    Handles tree (Function.update iocp p none) (Function.update isOpen h false) := by
  have hold : ∀ {q k}, Function.update iocp p none q = some k → iocp q = some k ∧ q ≠ p := by
    intro q k hq
    by_cases hqp : q = p
    · rw [hqp, Function.update_self] at hq
      cases hq
    · rw [Function.update_of_ne hqp] at hq
      exact ⟨hq, hqp⟩
  refine ⟨fun {k q} hk => ?_, fun {q k} hq => ?_, fun {q r k} hq hr => ?_⟩
  · have hqp : q ≠ p := fun he => htree k (he ▸ hk)
    exact (Function.update_of_ne hqp ..).trans (hs.inTree hk)
  · obtain ⟨hq, hqp⟩ := hold hq
    have hkh : k ≠ h := fun he => hqp (hs.distinct hq (he ▸ hi))
    exact (Function.update_of_ne hkh ..).trans (hs.isOpen hq)
  · exact hs.distinct (hold hq).1 (hold hr).1

end Handles

structure EpollInv (s : EpollWorld) : Prop where
  sound : EpollSound s.linked s.life
  handles : Handles s.tree s.iocp s.isOpen
  locked : ∀ p, PortLocked s p
  fresh : ∀ {p}, s.next ≤ p → PortFresh s p
  stage : ∀ {p}, p < s.next → PortStage s p

namespace EpollPhase

variable {φ : EpollPhase} {p : Nat}

theorem port_of_owned (h : φ.owned = some p) : φ.port = some p := by
  cases φ with
  | idle | inside | polling | leaving => cases h
  | created | refused | closing | closed | destroying | deleting => exact h

theorem port_of_held (h : φ.held = some p) : φ.port = some p := by
  cases φ with
  | idle | created | refused | leaving | destroying | deleting => cases h
  | inside | polling | closing | closed => exact h

theorem signals_eq : φ.signals = some p ↔ φ = .leaving p := by
  cases φ with
  | leaving q => simp only [signals, Option.some.injEq, leaving.injEq]
  | idle | created | refused | inside | polling | closing | closed | destroying | deleting =>
      exact iff_of_false (by rintro ⟨⟩) (by rintro ⟨⟩)

/-- A thread signals when it has given up its reference. -/
theorem not_signals_of_held (h : φ.held = some p) : φ.signals ≠ some p := by
  rw [Ne, signals_eq]
  rintro rfl
  cases h

theorem port_of_signals (h : φ.signals = some p) : φ.port = some p := by
  rw [signals_eq.mp h]
  rfl

/-- Whoever uses a port holds a reference to it, signals, or owns it. -/
theorem port_cases (h : φ.port = some p) :
    φ.held = some p ∨ φ.signals = some p ∨ φ.owned = some p := by
  cases φ with
  | idle => cases h
  | inside | polling => exact Or.inl h
  | leaving => exact Or.inr (Or.inl h)
  | created | refused | closing | closed | destroying | deleting => exact Or.inr (Or.inr h)

theorem owned_update {f : Nat → EpollPhase} {t u : Nat}
    (h : (Function.update f t φ u).owned = some p) :
    u = t ∧ φ.owned = some p ∨ u ≠ t ∧ (f u).owned = some p := by
  by_cases hut : u = t
  · rw [hut, Function.update_self] at h
    exact Or.inl ⟨hut, h⟩
  · rw [Function.update_of_ne hut] at h
    exact Or.inr ⟨hut, h⟩

end EpollPhase

/-! ## The ports that a step leaves alone -/

/-- A step does not touch the port `q`, nor a thread that uses it. -/
structure Elsewhere (s s' : EpollWorld) (q : Nat) : Prop where
  next : q < s'.next ↔ q < s.next
  iocp : s'.iocp q = s.iocp q
  lock : s'.lock q = s.lock q
  life : s'.life.freed q = s.life.freed q
  tree : ∀ h, s'.tree h = some q ↔ s.tree h = some q
  phase : ∀ t, (s.phase t).port = some q ∨ (s'.phase t).port = some q → s'.phase t = s.phase t

namespace Elsewhere

variable {s s' : EpollWorld} {q : Nat}

/-- One thread goes on, and it uses another port before and after. -/
theorem of_phase {t p : Nat} {φ : EpollPhase} (hqp : q ≠ p)
    (hphase : s'.phase = Function.update s.phase t φ) (hφ : φ.port = none ∨ φ.port = some p)
    (ht : (s.phase t).port = none ∨ (s.phase t).port = some p) (u : Nat)
    (hu : (s.phase u).port = some q ∨ (s'.phase u).port = some q) :
    s'.phase u = s.phase u := by
  have hne : ∀ {o : Option Nat}, o = none ∨ o = some p → o ≠ some q := by
    rintro o (rfl | rfl) ho
    · cases ho
    · exact hqp (Option.some.inj ho).symm
  by_cases hut : u = t
  · subst hut
    rw [hphase, Function.update_self] at hu
    exact (hu.elim (hne ht) (hne hφ)).elim
  · rw [hphase, Function.update_of_ne hut]

/-- What a thread shows of the port `q` stays. -/
theorem phase_iff (h : Elsewhere s s' q) {f : EpollPhase → Option Nat}
    (hf : ∀ {φ : EpollPhase}, f φ = some q → φ.port = some q) (u : Nat) :
    f (s'.phase u) = some q ↔ f (s.phase u) = some q := by
  constructor
  · intro hu
    rw [← h.phase u (Or.inr (hf hu))]
    exact hu
  · intro hu
    rw [h.phase u (Or.inl (hf hu))]
    exact hu

theorem locked (h : Elsewhere s s' q) (hq : PortLocked s q) : PortLocked s' q := by
  refine ⟨h.lock ▸ hq.inv, h.lock ▸ hq.once, fun u => ?_, fun u => ?_⟩
  · rw [h.lock, hq.owns, h.phase_iff EpollPhase.port_of_held]
  · rw [h.lock, hq.signals, h.phase_iff EpollPhase.port_of_signals]

theorem live (h : Elsewhere s s' q) (hq : s.life.Live q) : s'.life.Live q := h.life.trans hq

theorem fresh (h : Elsewhere s s' q) (hq : PortFresh s q) : PortFresh s' q where
  iocp := h.iocp.trans hq.iocp
  destroyer := h.lock ▸ hq.destroyer
  live := h.live hq.live
  unused u hu := hq.unused u ((h.phase_iff id u).mp hu)

theorem knows (h : Elsewhere s s' q) {t : Nat} {φ : EpollPhase} (hk : Knows s t q φ) :
    Knows s' t q φ := by
  have htree : (∀ k, s.tree k ≠ some q) → ∀ k, s'.tree k ≠ some q :=
    fun hk k hk' => hk k ((h.tree k).mp hk')
  cases φ with
  | created p k => exact ⟨h.iocp.trans hk.1, h.lock ▸ hk.2.1, htree hk.2.2⟩
  | closing p => exact ⟨h.iocp ▸ hk.1, h.lock ▸ hk.2.1, htree hk.2.2⟩
  | closed p => exact ⟨h.iocp.trans hk.1, h.lock ▸ hk.2⟩
  | destroying p => exact ⟨h.iocp.trans hk.1, h.lock ▸ hk.2⟩
  | deleting p =>
      exact ⟨h.iocp.trans hk.1, fun u hne hu => hk.2 u hne ((h.phase_iff id u).mp hu)⟩
  | idle | refused | inside | polling | leaving => exact hk.elim

theorem stage (h : Elsewhere s s' q) (hq : PortStage s q) : PortStage s' q := by
  have howned := fun u => h.phase_iff EpollPhase.port_of_owned u
  cases hq with
  | listed hh hd hf hu =>
      exact .listed ((h.tree _).mpr hh) (h.lock ▸ hd) (h.live hf)
        fun u hu' => hu u ((howned u).mp hu')
  | @owned t ht hk hf hu =>
      have hp := h.phase t (Or.inl (EpollPhase.port_of_owned ht))
      exact .owned ((howned t).mpr ht) (hp ▸ h.knows hk) (h.live hf)
        fun u hne hu' => hu u hne ((howned u).mp hu')
  | freed hi hu => exact .freed (h.iocp.trans hi) fun u hu' => hu u ((h.phase_iff id u).mp hu')

end Elsewhere

/-! ## Every step keeps the invariant -/

/-- One thread goes on, and what it does to the lock fits. -/
theorem PortLocked.act {s s' : EpollWorld} {t p : Nat} {l : Reflock} {φ : EpollPhase}
    (h : PortLocked s p) (hlock : s'.lock p = l) (hphase : s'.phase = Function.update s.phase t φ)
    (hinv : ReflockInv l) (honce : l.owners.Nodup) (hown : t ∈ l.owners ↔ φ.held = some p)
    (hsig : l.phase t = .signalling ↔ φ.signals = some p)
    (howns : ∀ u, u ≠ t → (u ∈ l.owners ↔ u ∈ (s.lock p).owners))
    (hsigs : ∀ u, u ≠ t → (l.phase u = .signalling ↔ (s.lock p).phase u = .signalling)) :
    PortLocked s' p := by
  refine ⟨hlock ▸ hinv, hlock ▸ honce, fun u => ?_, fun u => ?_⟩
  · rw [hlock, hphase]
    by_cases hut : u = t
    · rw [hut, Function.update_self, hown]
    · rw [Function.update_of_ne hut, howns u hut, h.owns]
  · rw [hlock, hphase]
    by_cases hut : u = t
    · rw [hut, Function.update_self, hsig]
    · rw [Function.update_of_ne hut, hsigs u hut, h.signals]

/-- One thread goes on, and the lock stays. -/
theorem PortLocked.goto {s s' : EpollWorld} {t p : Nat} {φ : EpollPhase} (h : PortLocked s p)
    (hlock : s'.lock p = s.lock p) (hphase : s'.phase = Function.update s.phase t φ)
    (hheld : φ.held = some p ↔ (s.phase t).held = some p)
    (hsig : φ.signals = some p ↔ (s.phase t).signals = some p) : PortLocked s' p :=
  h.act hlock hphase h.inv h.once ((h.owns t).trans hheld.symm)
    ((h.signals t).trans hsig.symm) (fun _ _ => Iff.rfl) fun _ _ => Iff.rfl

/-- A thread takes a reference to a port. -/
theorem PortLocked.ref {s s' : EpollWorld} {t p : Nat} {φ : EpollPhase} (h : PortLocked s p)
    (hlock : s'.lock p = (s.lock p).ref t) (hphase : s'.phase = Function.update s.phase t φ)
    (ht : s.phase t = .idle) (hφ : φ.held = some p) (hsig : φ.signals = none)
    (hd : (s.lock p).destroyer = none) (hfew : (s.lock p).owners.length + 1 < 2 ^ 28) :
    PortLocked s' p := by
  have hown : t ∉ (s.lock p).owners := by
    rw [h.owns, ht]
    rintro ⟨⟩
  have hidle : (s.lock p).phase t ≠ .signalling := by
    rw [Ne, h.signals, ht]
    rintro ⟨⟩
  refine h.act hlock hphase (h.inv.ref hd hfew) (List.nodup_cons.mpr ⟨hown, h.once⟩)
    (iff_of_true List.mem_cons_self hφ) (iff_of_false hidle ?_) (fun u hut => ?_)
    fun _ _ => Iff.rfl
  · rw [hsig]
    rintro ⟨⟩
  · exact List.mem_cons.trans (or_iff_right hut)

/-- The owner of a port goes on, and keeps it. -/
theorem PortStage.owned_goto {s s' : EpollWorld} {t p : Nat} {φ : EpollPhase}
    (hphase : s'.phase = Function.update s.phase t φ) (hφ : φ.owned = some p)
    (hk : Knows s' t p φ) (hf : s'.life.Live p)
    (hu : ∀ u, u ≠ t → (s.phase u).owned ≠ some p) : PortStage s' p := by
  have ht : s'.phase t = φ := by rw [hphase, Function.update_self]
  refine .owned (by rw [ht, hφ]) (ht.symm ▸ hk) hf fun u hut hu' => ?_
  rw [hphase, Function.update_of_ne hut] at hu'
  exact hu u hut hu'

/-- A thread that does not own a listed port goes on. -/
theorem PortStage.listed_goto {s s' : EpollWorld} {t p h : Nat} {φ : EpollPhase}
    (hphase : s'.phase = Function.update s.phase t φ) (hφ : φ.owned = none)
    (hh : s'.tree h = some p) (hd : (s'.lock p).destroyer = none) (hf : s'.life.Live p)
    (hu : ∀ u, (s.phase u).owned ≠ some p) : PortStage s' p := by
  refine .listed hh hd hf fun u hu' => ?_
  rw [hphase] at hu'
  obtain ⟨-, he⟩ | ⟨-, he⟩ := EpollPhase.owned_update hu'
  · rw [hφ] at he
    cases he
  · exact hu u he

/-- A thread that does not own the port goes on. -/
theorem PortStage.other_goto {s s' : EpollWorld} {t p : Nat} {φ : EpollPhase}
    (h : PortStage s p) (hphase : s'.phase = Function.update s.phase t φ) (hφ : φ.owned = none)
    (ht : (s.phase t).port = some p) (ht' : (s.phase t).owned = none) (htree : s'.tree = s.tree)
    (hiocp : s'.iocp = s.iocp) (hlife : s'.life.freed = s.life.freed)
    (hd : (s'.lock p).destroyer = (s.lock p).destroyer)
    (hl : ∀ v, v ≠ t → (s.lock p).phase v = .awaiting ∨ (s.lock p).phase v = .poisoning →
      (s'.lock p).phase v = .awaiting ∨ (s'.lock p).phase v = .poisoning) : PortStage s' p := by
  have hlive : s.life.Live p → s'.life.Live p := fun hf => (congrFun hlife p).trans hf
  cases h with
  | listed hh hd' hf hu =>
      exact .listed_goto hphase hφ (htree ▸ hh) (hd.trans hd') (hlive hf) hu
  | freed _ hu => exact absurd ht (hu t)
  | @owned v hv hk hf hu =>
      have hvt : v ≠ t := by
        rintro rfl
        rw [ht'] at hv
        cases hv
      have hv' : s'.phase v = s.phase v := by rw [hphase, Function.update_of_ne hvt]
      refine .owned (hv'.symm ▸ hv) ?_ (hlive hf) fun u huv hu' => ?_
      · rw [hv']
        revert hk
        cases s.phase v with
        | created _ _ | closing _ =>
            rintro ⟨hi, hd', hk⟩
            exact ⟨hiocp ▸ hi, hd.trans hd', htree ▸ hk⟩
        | closed _ =>
            rintro ⟨hi, hd'⟩
            exact ⟨hiocp ▸ hi, hd.trans hd'⟩
        | destroying _ =>
            rintro ⟨hi, hw⟩
            exact ⟨hiocp ▸ hi, hl v hvt hw⟩
        | deleting _ =>
            rintro ⟨-, hno⟩
            exact (hno t hvt.symm ht).elim
        | idle | refused _ | inside _ | polling _ _ | leaving _ => exact fun hk => hk.elim
      · rw [hphase] at hu'
        obtain ⟨-, he⟩ | ⟨-, he⟩ := EpollPhase.owned_update hu'
        · rw [hφ] at he
          cases he
        · exact hu u huv he

namespace EpollInv

variable {s : EpollWorld} {t u p h : Nat}

theorem start : EpollInv .start where
  sound := ⟨rfl, fun _ => rfl⟩
  handles := ⟨by rintro h p ⟨⟩, by rintro p h ⟨⟩, by rintro p q h ⟨⟩⟩
  locked p := ⟨.init, List.nodup_nil, fun t => iff_of_false (List.not_mem_nil) (by rintro ⟨⟩),
    fun t => iff_of_false (by rintro ⟨⟩) (by rintro ⟨⟩)⟩
  fresh _ := ⟨rfl, rfl, rfl, fun _ => by rintro ⟨⟩⟩
  stage hp := (Nat.not_lt_zero _ hp).elim

/-! ### What the phase of a thread tells -/

/-- Nobody uses a port that is not created yet. -/
theorem born (hs : EpollInv s) (ht : (s.phase t).port = some p) : p < s.next := by
  by_contra hn
  exact (hs.fresh (Nat.not_lt.mp hn)).unused t ht

/-- Nobody uses a port that is freed. -/
theorem live (hs : EpollInv s) (ht : (s.phase t).port = some p) : s.life.Live p := by
  cases hs.stage (hs.born ht) with
  | listed _ _ hf | owned _ _ hf => exact hf
  | freed _ hu => exact absurd ht (hu t)

/-- A port that is listed under a handle. -/
theorem listed (hs : EpollInv s) (hh : s.tree h = some p) :
    p < s.next ∧ (s.lock p).destroyer = none ∧ s.life.Live p ∧
      ∀ u, (s.phase u).owned ≠ some p := by
  have hi := hs.handles.inTree hh
  have hn : p < s.next := by
    by_contra hn
    rw [(hs.fresh (Nat.not_lt.mp hn)).iocp] at hi
    cases hi
  refine ⟨hn, ?_⟩
  cases hs.stage hn with
  | listed _ hd hf hu => exact ⟨hd, hf, hu⟩
  | freed hnone =>
      rw [hnone] at hi
      cases hi
  | @owned v hv hk =>
      revert hk
      cases s.phase v with
      | created _ _ | closing _ => exact fun hk => absurd hh (hk.2.2 h)
      | closed _ | destroying _ | deleting _ =>
          intro hk
          rw [hk.1] at hi
          cases hi
      | idle | refused _ | inside _ | polling _ _ | leaving _ => exact fun hk => hk.elim

/-- What a thread knows of the port that it creates or closes. -/
theorem owner (hs : EpollInv s) (ht : (s.phase t).owned = some p) :
    Knows s t p (s.phase t) ∧ ∀ u, u ≠ t → (s.phase u).owned ≠ some p := by
  have hport := EpollPhase.port_of_owned ht
  cases hs.stage (hs.born hport) with
  | listed _ _ _ hu => exact absurd ht (hu t)
  | freed _ hu => exact absurd hport (hu t)
  | @owned v _ hk _ hu =>
      have htv : t = v := by
        by_contra hne
        exact hu t hne ht
      subst htv
      exact ⟨hk, hu⟩

/-- A step that touches one port. -/
theorem touch {s' : EpollWorld} (hs : EpollInv s) (hn : p < s'.next)
    (he : ∀ q, q ≠ p → Elsewhere s s' q) (hsound : EpollSound s'.linked s'.life)
    (hhandles : Handles s'.tree s'.iocp s'.isOpen) (hl : PortLocked s' p)
    (hst : PortStage s' p) : EpollInv s' where
  sound := hsound
  handles := hhandles
  locked q := by
    by_cases hq : q = p
    · exact hq ▸ hl
    · exact (he q hq).locked (hs.locked q)
  fresh := by
    intro q hq
    have hqp : q ≠ p := fun he => Nat.not_lt.mpr hq (he ▸ hn)
    exact (he q hqp).fresh (hs.fresh (Nat.not_lt.mp fun hlt =>
      Nat.not_lt.mpr hq ((he q hqp).next.mpr hlt)))
  stage := by
    intro q hq
    by_cases hqp : q = p
    · exact hqp ▸ hst
    · exact (he q hqp).stage (hs.stage ((he q hqp).next.mp hq))

/-! ### The operations -/

theorem portNew (hs : EpollInv s) (ht : s.phase t = .idle) (ho : s.isOpen h = false) :
    EpollInv (s.portNew t h) := by
  have hf := hs.fresh (Nat.le_refl s.next)
  have htree : ∀ k, s.tree k ≠ some s.next := fun k hk => Nat.lt_irrefl _ (hs.listed hk).1
  refine hs.touch (p := s.next) (Nat.lt_succ_self s.next) (fun q hq => ?_) hs.sound
    (hs.handles.create ho htree) ?_ ?_
  · exact {
      next := by
        show q < s.next + 1 ↔ q < s.next
        omega
      iocp := Function.update_of_ne hq ..
      lock := rfl
      life := rfl
      tree := fun _ => Iff.rfl
      phase := Elsewhere.of_phase hq rfl (Or.inr rfl) (Or.inl (by rw [ht]; rfl)) }
  · exact (hs.locked s.next).goto rfl rfl (iff_of_false (by rintro ⟨⟩) (by rw [ht]; rintro ⟨⟩))
      (iff_of_false (by rintro ⟨⟩) (by rw [ht]; rintro ⟨⟩))
  · exact .owned_goto rfl rfl ⟨Function.update_self .., hf.destroyer, htree⟩ hf.live
      fun u _ hu => hf.unused u (EpollPhase.port_of_owned hu)

/-- `ts_tree_add` always succeeds: no other port has the handle of a port that is open. -/
theorem tsTreeAdd (hs : EpollInv s) (ht : s.phase t = .created p h) :
    EpollInv (s.tsTreeAdd t p h) := by
  have hown : (s.phase t).owned = some p := by rw [ht]; rfl
  have hport := EpollPhase.port_of_owned hown
  obtain ⟨hk, hu⟩ := hs.owner hown
  rw [ht] at hk
  obtain ⟨hi, hd, -⟩ := hk
  have hnone : s.tree h = none := by
    by_contra hne
    obtain ⟨q, hq⟩ := Option.ne_none_iff_exists'.mp hne
    have hqp := hs.handles.distinct (hs.handles.inTree hq) hi
    subst hqp
    exact (hs.listed hq).2.2.2 t hown
  rw [EpollWorld.tsTreeAdd, if_pos hnone]
  refine hs.touch (p := p) (hs.born hport) (fun q hq => ?_) (hs.sound.use (hs.live hport))
    (hs.handles.insert hi) ?_ ?_
  · refine {
      next := Iff.rfl
      iocp := rfl
      lock := rfl
      life := rfl
      tree := fun k => ?_
      phase := Elsewhere.of_phase hq rfl (Or.inl rfl) (Or.inr hport) }
    show Function.update s.tree h (some p) k = some q ↔ s.tree k = some q
    by_cases hkh : k = h
    · rw [hkh, Function.update_self, hnone]
      exact iff_of_false (fun he => hq (Option.some.inj he).symm) (by rintro ⟨⟩)
    · rw [Function.update_of_ne hkh]
  · exact (hs.locked p).goto rfl rfl (iff_of_false (by rintro ⟨⟩) (by rw [ht]; rintro ⟨⟩))
      (iff_of_false (by rintro ⟨⟩) (by rw [ht]; rintro ⟨⟩))
  · refine .listed (h := h) (Function.update_self ..) hd (hs.live hport) fun u hu' => ?_
    obtain ⟨-, ⟨⟩⟩ | ⟨hut, hu'⟩ := EpollPhase.owned_update hu'
    exact hu u hut hu'

theorem tsTreeFindAndRef (hs : EpollInv s) (ht : s.phase t = .idle) (hh : s.tree h = some p)
    (hfew : (s.lock p).owners.length + 1 < 2 ^ 28) : EpollInv (s.tsTreeFindAndRef t p) := by
  obtain ⟨hn, hd, hf, hu⟩ := hs.listed hh
  have hlock : (s.tsTreeFindAndRef t p).lock p = (s.lock p).ref t := EpollWorld.withLock_self
  refine hs.touch (p := p) hn (fun q hq => ?_) (hs.sound.use hf) hs.handles ?_ ?_
  · exact {
      next := Iff.rfl
      iocp := rfl
      lock := EpollWorld.withLock_of_ne hq
      life := rfl
      tree := fun _ => Iff.rfl
      phase := Elsewhere.of_phase hq rfl (Or.inr rfl) (Or.inl (by rw [ht]; rfl)) }
  · exact (hs.locked p).ref hlock rfl ht rfl rfl hd hfew
  · exact .listed_goto rfl rfl hh (hlock ▸ hd) hf hu

/-- A thread goes on in `epoll_ctl` or `epoll_wait`. -/
theorem goOn (hs : EpollInv s) {φ : EpollPhase} (ht : (s.phase t).held = some p)
    (hto : (s.phase t).owned = none) (hφ : φ.held = some p) (hφo : φ.owned = none)
    {m : Lifetime} {linked : List (Nat × Nat)} (hm : m.freed = s.life.freed)
    (hsound : EpollSound linked m) :
    EpollInv { s with life := m, linked := linked, phase := Function.update s.phase t φ } := by
  have hport := EpollPhase.port_of_held ht
  have hn := hs.born hport
  refine hs.touch (p := p) hn (fun q hq => ?_) hsound hs.handles ?_ ?_
  · exact {
      next := Iff.rfl
      iocp := rfl
      lock := rfl
      life := congrFun hm q
      tree := fun _ => Iff.rfl
      phase := Elsewhere.of_phase hq rfl (Or.inr (EpollPhase.port_of_held hφ)) (Or.inr hport) }
  · exact (hs.locked p).goto rfl rfl (iff_of_true hφ ht)
      (iff_of_false (EpollPhase.not_signals_of_held hφ) (EpollPhase.not_signals_of_held ht))
  · exact (hs.stage hn).other_goto rfl hφo hport hto rfl rfl hm rfl fun _ _ hw => hw

/-- A port has neighbours only where ports are linked. -/
theorem neighbours_nil (hl : s.linked = []) : s.neighbours p = [] := by
  rw [EpollWorld.neighbours, hl]
  rfl

theorem portUse (hs : EpollInv s) (ht : (s.phase t).held = some p)
    (hto : (s.phase t).owned = none) : EpollInv (s.portUse t p) :=
  hs.goOn ht hto rfl rfl (Lifetime.useAll_freed ..)
    ((hs.sound.use (hs.live (EpollPhase.port_of_held ht))).useAll neighbours_nil)

theorem portFeedEvents (hs : EpollInv s) (ht : (s.phase t).held = some p)
    (hto : (s.phase t).owned = none) (q : Nat) : EpollInv (s.portFeedEvents t p q) := by
  rw [EpollWorld.portFeedEvents]
  split
  · exact hs.portUse ht hto
  · refine hs.goOn ht hto rfl rfl (Lifetime.useAll_freed ..) ⟨?_, fun hl => ?_⟩
    · exact (hs.portUse ht hto).sound.freedTwice
    · cases hl

theorem tsTreeNodeUnref (hs : EpollInv s) (ht : s.phase t = .inside p) :
    EpollInv (s.tsTreeNodeUnref t p) := by
  have hport : (s.phase t).port = some p := by rw [ht]; rfl
  have hn := hs.born hport
  have hl := hs.locked p
  have hmem : t ∈ (s.lock p).owners := (hl.owns t).mpr (by rw [ht]; rfl)
  have hsig : (s.lock p).phase t ≠ .signalling := by
    rw [Ne, hl.signals, ht]
    rintro ⟨⟩
  have hlock : (s.tsTreeNodeUnref t p).lock p = (s.lock p).unref t := EpollWorld.withLock_self
  have hφ : ∀ φ : EpollPhase, φ = .leaving p ∨ φ = .idle →
      φ.owned = none ∧ φ.held = none ∧ (φ.port = none ∨ φ.port = some p) := by
    rintro φ (rfl | rfl)
    · exact ⟨rfl, rfl, Or.inr rfl⟩
    · exact ⟨rfl, rfl, Or.inl rfl⟩
  obtain ⟨hown, hheld, hφp⟩ := hφ (if ((s.lock p).unref t).phase t = .signalling then .leaving p
    else .idle) (by split; exacts [Or.inl rfl, Or.inr rfl])
  refine hs.touch (p := p) hn (fun q hq => ?_) (hs.sound.use (hs.live hport)) hs.handles ?_ ?_
  · exact {
      next := Iff.rfl
      iocp := rfl
      lock := EpollWorld.withLock_of_ne hq
      life := rfl
      tree := fun _ => Iff.rfl
      phase := Elsewhere.of_phase hq rfl hφp (Or.inr hport) }
  · refine hl.act hlock rfl (hl.inv.unref hmem) ?_ ?_ ?_ (fun u hut => ?_) fun u hut => ?_
    · rw [Reflock.unref_owners]
      exact hl.once.erase t
    · rw [Reflock.unref_owners, hheld]
      exact iff_of_false (fun hm => (hl.once.mem_erase_iff.mp hm).1 rfl) (by rintro ⟨⟩)
    · split
      · next hs => exact iff_of_true hs rfl
      · next hs => exact iff_of_false hs (by rintro ⟨⟩)
    · rw [Reflock.unref_owners, List.mem_erase_of_ne hut]
    · rw [Reflock.unref_phase_of_ne hut]
  · refine (hs.stage hn).other_goto rfl hown hport (by rw [ht]; rfl) rfl rfl rfl ?_ ?_
    · rw [hlock, Reflock.unref_destroyer]
    · intro v hvt hw
      rw [hlock, Reflock.unref_phase_of_ne hvt]
      exact hw

theorem meet (hs : EpollInv s) (ht : s.phase t = .leaving p) (hu : s.phase u = .destroying p)
    (hw : (s.lock p).phase u = .awaiting) :
    EpollInv ({ s with phase := Function.update s.phase t .idle }.withLock p
      ((s.lock p).meet t u)) := by
  have hport : (s.phase t).port = some p := by rw [ht]; rfl
  have hn := hs.born hport
  have hl := hs.locked p
  have hsig : (s.lock p).phase t = .signalling := (hl.signals t).mpr (by rw [ht]; rfl)
  have hut : u ≠ t := by
    rintro rfl
    rw [ht] at hu
    cases hu
  have hphase : ∀ v, ((s.lock p).meet t u).phase v =
      if v = u then .poisoning else if v = t then .idle else (s.lock p).phase v := by
    intro v
    show Function.update (Function.update (s.lock p).phase t .idle) u .poisoning v = _
    rw [Function.update_apply, Function.update_apply]
  refine hs.touch (p := p) hn (fun q hq => ?_) hs.sound hs.handles ?_ ?_
  · exact {
      next := Iff.rfl
      iocp := rfl
      lock := EpollWorld.withLock_of_ne hq
      life := rfl
      tree := fun _ => Iff.rfl
      phase := Elsewhere.of_phase hq rfl (Or.inl rfl) (Or.inr hport) }
  · refine hl.act EpollWorld.withLock_self rfl (hl.inv.meet hsig hw) hl.once
      ((hl.owns t).trans (by rw [ht]; exact iff_of_false (by rintro ⟨⟩) (by rintro ⟨⟩))) ?_
      (fun _ _ => Iff.rfl) fun v hvt => ?_
    · rw [hphase, if_neg hut.symm, if_pos rfl]
      exact iff_of_false (by rintro ⟨⟩) (by rintro ⟨⟩)
    · rw [hphase, if_neg hvt]
      by_cases hvu : v = u
      · rw [if_pos hvu, hvu, hw]
        exact iff_of_false (by rintro ⟨⟩) (by rintro ⟨⟩)
      · rw [if_neg hvu]
  · refine (hs.stage hn).other_goto rfl rfl hport (by rw [ht]; rfl) rfl rfl rfl ?_ ?_
    · rw [EpollWorld.withLock_self]
      rfl
    · intro v hvt hv
      rw [EpollWorld.withLock_self, hphase, if_neg hvt]
      by_cases hvu : v = u
      · rw [if_pos hvu]
        exact Or.inr rfl
      · rw [if_neg hvu]
        exact hv

theorem tsTreeDelAndRef (hs : EpollInv s) (ht : s.phase t = .idle) (hh : s.tree h = some p)
    (hfew : (s.lock p).owners.length + 1 < 2 ^ 28) : EpollInv (s.tsTreeDelAndRef t p h) := by
  obtain ⟨hn, hd, hf, hu⟩ := hs.listed hh
  have hi := hs.handles.inTree hh
  have hlock : (s.tsTreeDelAndRef t p h).lock p = (s.lock p).ref t := EpollWorld.withLock_self
  have htree : ∀ k, Function.update s.tree h none k ≠ some p := by
    intro k hk
    by_cases hkh : k = h
    · rw [hkh, Function.update_self] at hk
      cases hk
    · rw [Function.update_of_ne hkh] at hk
      exact hkh (Option.some.inj ((hs.handles.inTree hk).symm.trans hi))
  refine hs.touch (p := p) hn (fun q hq => ?_) (hs.sound.use hf) hs.handles.erase ?_ ?_
  · refine {
      next := Iff.rfl
      iocp := rfl
      lock := EpollWorld.withLock_of_ne hq
      life := rfl
      tree := fun k => ?_
      phase := Elsewhere.of_phase hq rfl (Or.inr rfl) (Or.inl (by rw [ht]; rfl)) }
    show Function.update s.tree h none k = some q ↔ s.tree k = some q
    by_cases hkh : k = h
    · rw [hkh, Function.update_self, hh]
      exact iff_of_false (by rintro ⟨⟩) fun he => hq (Option.some.inj he).symm
    · rw [Function.update_of_ne hkh]
  · exact (hs.locked p).ref hlock rfl ht rfl rfl hd hfew
  · refine .owned_goto rfl rfl ⟨?_, hlock ▸ hd, htree⟩ hf fun u _ => hu u
    show (s.iocp p).isSome = true
    rw [hi]
    rfl

theorem portClose (hs : EpollInv s) (ht : s.phase t = .closing p) (hi : s.iocp p = some h) :
    EpollInv (s.portClose t p h) := by
  have hown : (s.phase t).owned = some p := by rw [ht]; rfl
  have hport := EpollPhase.port_of_owned hown
  obtain ⟨hk, hu⟩ := hs.owner hown
  rw [ht] at hk
  obtain ⟨-, hd, htree⟩ := hk
  have hf := hs.live hport
  refine hs.touch (p := p) (hs.born hport) (fun q hq => ?_) (hs.sound.use hf)
    (hs.handles.close hi htree) ?_ ?_
  · exact {
      next := Iff.rfl
      iocp := Function.update_of_ne hq ..
      lock := rfl
      life := rfl
      tree := fun _ => Iff.rfl
      phase := Elsewhere.of_phase hq rfl (Or.inr rfl) (Or.inr hport) }
  · exact (hs.locked p).goto rfl rfl (by rw [ht]; rfl) (by rw [ht]; rfl)
  · exact .owned_goto rfl rfl ⟨Function.update_self .., hd⟩ hf hu

theorem tsTreeNodeUnrefAndDestroy (hs : EpollInv s) (ht : s.phase t = .closed p) :
    EpollInv (s.tsTreeNodeUnrefAndDestroy t p) := by
  have hown : (s.phase t).owned = some p := by rw [ht]; rfl
  have hport := EpollPhase.port_of_owned hown
  obtain ⟨hk, hu⟩ := hs.owner hown
  rw [ht] at hk
  obtain ⟨hi, hd⟩ := hk
  have hl := hs.locked p
  have hf := hs.live hport
  have hmem : t ∈ (s.lock p).owners := (hl.owns t).mpr (by rw [ht]; rfl)
  have hone : t ∉ (s.lock p).owners.erase t := fun hm => (hl.once.mem_erase_iff.mp hm).1 rfl
  have hlock : (s.tsTreeNodeUnrefAndDestroy t p).lock p = (s.lock p).unrefAndDestroy t :=
    EpollWorld.withLock_self
  have hwait := Reflock.unrefAndDestroy_phase (s := s.lock p) (t := t)
  refine hs.touch (p := p) (hs.born hport) (fun q hq => ?_) (hs.sound.use hf) hs.handles ?_ ?_
  · exact {
      next := Iff.rfl
      iocp := rfl
      lock := EpollWorld.withLock_of_ne hq
      life := rfl
      tree := fun _ => Iff.rfl
      phase := Elsewhere.of_phase hq rfl (Or.inr rfl) (Or.inr hport) }
  · refine hl.act hlock rfl (hl.inv.unrefAndDestroy hd hmem hone) (hl.once.erase t)
      (iff_of_false hone (by rintro ⟨⟩)) (iff_of_false (fun he => ?_) (by rintro ⟨⟩))
      (fun u hut => List.mem_erase_of_ne hut) fun u hut => ?_
    · rw [he] at hwait
      obtain ⟨⟨⟩⟩ | ⟨⟨⟩⟩ := hwait
    · rw [Reflock.unrefAndDestroy_phase_of_ne hut]
  · refine .owned_goto rfl rfl ⟨hi, ?_⟩ hf hu
    rw [hlock]
    exact hwait

/-- Nobody else uses the port once its lock is poisoned. -/
theorem poison (hs : EpollInv s) (ht : s.phase t = .destroying p)
    (hw : (s.lock p).phase t = .poisoning) :
    EpollInv ((s.uses t p (.deleting p)).withLock p ((s.lock p).poison t)) := by
  have hown : (s.phase t).owned = some p := by rw [ht]; rfl
  have hport := EpollPhase.port_of_owned hown
  obtain ⟨hk, hu⟩ := hs.owner hown
  rw [ht] at hk
  have hl := hs.locked p
  have hf := hs.live hport
  obtain ⟨-, -, ho, hidle⟩ := hl.inv.drained hw
  have hno : ∀ v, v ≠ t → (s.phase v).port ≠ some p := by
    intro v hvt hv
    obtain hheld | hsig | hown := EpollPhase.port_cases hv
    · have hm := (hl.owns v).mpr hheld
      rw [ho] at hm
      cases hm
    · have hs := (hl.signals v).mpr hsig
      rw [hidle v hvt] at hs
      cases hs
    · exact hu v hvt hown
  refine hs.touch (p := p) (hs.born hport) (fun q hq => ?_) (hs.sound.use hf) hs.handles ?_ ?_
  · exact {
      next := Iff.rfl
      iocp := rfl
      lock := EpollWorld.withLock_of_ne hq
      life := rfl
      tree := fun _ => Iff.rfl
      phase := Elsewhere.of_phase hq rfl (Or.inr rfl) (Or.inr hport) }
  · have hphase : ∀ v, v ≠ t → ((s.lock p).poison t).phase v = (s.lock p).phase v :=
      fun v hvt => Function.update_of_ne hvt ..
    have hphaset : ((s.lock p).poison t).phase t = .idle := Function.update_self ..
    refine hl.act EpollWorld.withLock_self rfl (hl.inv.poison hw) hl.once
      ((hl.owns t).trans (by rw [ht]; exact iff_of_false (by rintro ⟨⟩) (by rintro ⟨⟩))) ?_
      (fun _ _ => Iff.rfl) fun v hvt => by rw [hphase v hvt]
    rw [hphaset]
    exact iff_of_false (by rintro ⟨⟩) (by rintro ⟨⟩)
  · refine .owned_goto rfl rfl ⟨hk.1, fun v hvt hv => hno v hvt ?_⟩ hf hu
    rw [← Function.update_of_ne hvt (EpollPhase.deleting p) s.phase]
    exact hv

theorem portDelete (hs : EpollInv s) (ht : s.phase t = .deleting p) :
    EpollInv (s.portDelete t p) := by
  have hown : (s.phase t).owned = some p := by rw [ht]; rfl
  have hport := EpollPhase.port_of_owned hown
  obtain ⟨hk, -⟩ := hs.owner hown
  rw [ht] at hk
  obtain ⟨hi, hno⟩ := hk
  have hlive : (s.life.useAll (s.neighbours p)).Live p :=
    (congrFun (Lifetime.useAll_freed ..) p).trans (hs.live hport)
  refine hs.touch (p := p) (hs.born hport) (fun q hq => ?_)
    ((hs.sound.useAll neighbours_nil).free hlive) hs.handles ?_ ?_
  · exact {
      next := Iff.rfl
      iocp := rfl
      lock := rfl
      life := (Function.update_of_ne hq ..).trans (congrFun (Lifetime.useAll_freed ..) q)
      tree := fun _ => Iff.rfl
      phase := Elsewhere.of_phase hq rfl (Or.inl rfl) (Or.inr hport) }
  · exact (hs.locked p).goto rfl rfl (by rw [ht]; rfl) (by rw [ht]; rfl)
  · refine .freed hi fun v hv => ?_
    by_cases hvt : v = t
    · rw [hvt, show (s.portDelete t p).phase t = .idle from Function.update_self ..] at hv
      cases hv
    · rw [show (s.portDelete t p).phase v = s.phase v from Function.update_of_ne hvt ..] at hv
      exact hno v hvt hv

theorem step (hs : EpollInv s) {a : EpollAct} {s' : EpollWorld} (hc : FewCalls s a)
    (h : epollStep s a = some s') : EpollInv s' := by
  cases EpollWorld.step_move h with
  | create ht ho => exact hs.portNew ht ho
  | add ht => exact hs.tsTreeAdd ht
  | @deleteRefused t p ht =>
      have hk := (hs.owner (t := t) (p := p) (by rw [ht]; rfl)).1
      rw [ht] at hk
      exact hk.elim
  | call ht hh => exact hs.tsTreeFindAndRef ht hh (hc _ hh)
  | callNone | closeNone => exact hs
  | use ht => exact hs.portUse (by rw [ht]; rfl) (by rw [ht]; rfl)
  | @poll t p ht =>
      have hheld : (s.phase t).held = some p := by rw [ht]; rfl
      exact hs.goOn hheld (by rw [ht]; rfl) rfl rfl rfl
        (hs.sound.use (hs.live (EpollPhase.port_of_held hheld)))
  | packets ht hq => exact hs.portFeedEvents (by rw [ht]; rfl) (by rw [ht]; rfl) _
  | @wake t p h ht =>
      have hheld : (s.phase t).held = some p := by rw [ht]; rfl
      exact hs.goOn hheld (by rw [ht]; rfl) rfl rfl rfl
        (hs.sound.use (hs.live (EpollPhase.port_of_held hheld)))
  | unref ht => exact hs.tsTreeNodeUnref ht
  | meet ht hu hw => exact hs.meet ht hu hw
  | close ht hh => exact hs.tsTreeDelAndRef ht hh (hc _ hh)
  | portClose ht hi => exact hs.portClose ht hi
  | unrefAndDestroy ht => exact hs.tsTreeNodeUnrefAndDestroy ht
  | poison ht hw => exact hs.poison ht hw
  | delete ht => exact hs.portDelete ht

/-- `epoll_close` waits for threads that are in other calls, and for no others. -/
theorem waits (hs : EpollInv s) (ht : s.phase t = .destroying p) :
    (s.lock p).phase t = .poisoning ∨ ∃ u, (s.phase u).calls = some p := by
  have hown : (s.phase t).owned = some p := by rw [ht]; rfl
  obtain ⟨hk, halone⟩ := hs.owner hown
  rw [ht] at hk
  obtain hw | hw := hk.2
  · obtain ⟨u, hu, hut, -⟩ | ⟨u, hu⟩ := (hs.locked p).inv.awaited hw
    · have hheld := ((hs.locked p).owns u).mp hu
      have hno := halone u hut
      refine Or.inr ⟨u, ?_⟩
      revert hheld hno
      cases s.phase u with
      | inside q | polling q _ => exact fun hheld _ => hheld
      | closing q | closed q => exact fun hheld hno => absurd hheld hno
      | idle | created _ _ | refused _ | leaving _ | destroying _ | deleting _ => rintro ⟨⟩
    · refine Or.inr ⟨u, ?_⟩
      rw [EpollPhase.signals_eq.mp (((hs.locked p).signals u).mp hu)]
      rfl
  · exact Or.inl hw

end EpollInv

/-! ## Handles that a thread has read -/

/-- A thread waits for packets with the handle of its port, unless the port was closed since. -/
def HandlesRead (s : EpollWorld) : Prop :=
  ∀ t p h, s.phase t = .polling p (some h) → s.iocp p = some h ∨ s.iocp p = none

namespace HandlesRead

variable {s s' : EpollWorld}

/-- One thread goes on, and no handle changes but those that are closed. -/
theorem goto (hr : HandlesRead s) {t : Nat} {φ : EpollPhase}
    (hphase : s'.phase = Function.update s.phase t φ)
    (hφ : ∀ {p h}, φ = .polling p (some h) → s'.iocp p = some h)
    (hiocp : ∀ {u p}, (s.phase u).port = some p → s'.iocp p = s.iocp p ∨ s'.iocp p = none) :
    HandlesRead s' := by
  intro u p h hu
  rw [hphase] at hu
  by_cases hut : u = t
  · rw [hut, Function.update_self] at hu
    exact Or.inl (hφ hu)
  · rw [Function.update_of_ne hut] at hu
    obtain he | he := hiocp (u := u) (p := p) (by rw [hu]; rfl)
    · rw [he]
      exact hr u p h hu
    · exact Or.inr he

theorem step (hi : EpollInv s) (hr : HandlesRead s) {a : EpollAct}
    (hs : epollStep s a = some s') : HandlesRead s' := by
  cases EpollWorld.step_move hs with
  | create _ _ =>
      refine hr.goto rfl (by rintro p h ⟨⟩) fun {u p} hu => Or.inl ?_
      exact Function.update_of_ne (hi.born hu).ne ..
  | @add t p h ht =>
      rw [EpollWorld.tsTreeAdd]
      split
      · exact hr.goto rfl (by rintro p h ⟨⟩) fun _ => Or.inl rfl
      · exact hr.goto rfl (by rintro p h ⟨⟩) fun _ => Or.inl rfl
  | poll ht =>
      refine hr.goto rfl ?_ fun _ => Or.inl rfl
      intro p h he
      injection he with hp hh
      rw [← hp]
      exact hh
  | @packets t p q h ht hq =>
      rw [EpollWorld.portFeedEvents]
      split
      · exact hr.goto rfl (by rintro p h ⟨⟩) fun _ => Or.inl rfl
      · exact hr.goto rfl (by rintro p h ⟨⟩) fun _ => Or.inl rfl
  | @unref t p ht =>
      refine hr.goto rfl ?_ fun _ => Or.inl rfl
      intro q h he
      split at he
      · cases he
      · cases he
  | @portClose t p h ht hh =>
      refine hr.goto rfl (by rintro p h ⟨⟩) fun {u q} _ => ?_
      by_cases hqp : q = p
      · rw [hqp]
        exact Or.inr (Function.update_self ..)
      · exact Or.inl (Function.update_of_ne hqp ..)
  | callNone | closeNone => exact hr
  | deleteRefused | call | use | wake | meet | close | unrefAndDestroy | poison | delete =>
      exact hr.goto rfl (by rintro p h ⟨⟩) fun _ => Or.inl rfl

end HandlesRead

/-! ## Every run -/

/-- Whatever handles the threads use, and whatever handles the kernel gives again: no port is
freed twice, and none is used when it is freed, unless a thread was handed the packets of
another port than its own.  This happens only to a thread in `port__poll` whose port was closed
meanwhile.  The assertions of the locks hold, and `ts_tree_add` never fails.  A thread that
waits in `epoll_close` waits for another one that is still in `epoll_ctl` or `epoll_wait` on
the same port. -/
theorem epoll_ports_live {s : EpollWorld} (h : epollMachine.Leads FewCalls .start s) :
    (s.life.freedTwice = false ∧ (s.linked = [] → s.life.usedFreed = false)) ∧
      (∀ t p q k, s.phase t = .polling p (some k) → s.iocp q = some k →
        q = p ∨ s.iocp p = none) ∧
      (∀ p, (s.lock p).failed = false) ∧ (∀ t p, s.phase t ≠ .refused p) ∧
      ∀ t p, s.phase t = .destroying p → (s.lock p).phase t = .poisoning ∨
        ∃ u, (s.phase u).calls = some p := by
  obtain ⟨hi, hr⟩ : EpollInv s ∧ HandlesRead s :=
    h.invariant (I := fun s => EpollInv s ∧ HandlesRead s)
      (fun _ _ _ hi hc hs => ⟨hi.1.step hc hs, hi.2.step hi.1 hs⟩) ⟨.start, by rintro t p h ⟨⟩⟩
  refine ⟨⟨hi.sound.freedTwice, hi.sound.usedFreed⟩, fun t p q k ht hq => ?_,
    fun p => (hi.locked p).inv.sound, fun t p ht => ?_, fun t p => hi.waits⟩
  · exact (hr t p k ht).imp_left fun hp => hi.handles.distinct hq hp
  · have hk := (hi.owner (t := t) (p := p) (by rw [ht]; rfl)).1
    rw [ht] at hk
    exact hk.elim

/-- Thread 1 closes a port while thread 2 waits for its packets; meanwhile thread 3 creates a
port and is given the same handle. -/
def closeRun : List EpollAct :=
  [.create 1 7, .add 1, .call 2 7, .poll 2, .close 1 7, .portClose 1, .create 3 7, .add 3,
    .unrefAndDestroy 1, .call 3 7, .wake 2, .unref 2, .meet 2 1, .poison 1, .delete 1, .use 3]

theorem epoll_ports_live_reuse :
    ∃ s, epollMachine.Leads FewCalls .start s ∧ s.life.freed 0 = true ∧ s.tree 7 = some 1 ∧
      s.life.usedFreed = false := by
  obtain ⟨s, hs, hf, ht, hl⟩ := Machine.exists_run (M := epollMachine) (s := .start)
    (l := closeRun)
    (P := fun s => s.life.freed 0 = true ∧ s.tree 7 = some 1 ∧ s.linked = []) (by decide)
  have hrun := Machine.leads_of_run (C := FewCalls) closeRun _ s hs (by decide)
  exact ⟨s, hrun, hf, ht, (epoll_ports_live hrun).1.2 hl⟩

/-- Thread 2 has read the handle, but is late: it is handed the packets of the new port, whose
sockets then point into the old one when thread 3 uses them. -/
example : (epollMachine.run .start [.create 1 7, .add 1, .call 2 7, .poll 2, .close 1 7,
    .portClose 1, .create 3 7, .add 3, .packets 2 1, .unrefAndDestroy 1, .unref 2, .meet 2 1,
    .poison 1, .delete 1, .call 3 7, .use 3]).map (fun s => s.life.usedFreed) = some true := by
  decide

end Ztk.Wepoll
