import Ztk.Lib.Roster
import Ztk.Poller.Dispatch

/-!
# A turn of epoll whose callbacks change the registrations

`ztk_poller_poll` of `poller_epoll.c` from the return of `epoll_wait` on, where the
callbacks and the tasks add, modify, delete and close descriptors as they like.  The
kernel may report anything.

An event names its descriptor by number, and the entry is looked up when the event is
dispatched.  A roster of the numbers, begun when `epoll_wait` returns, records what
`ztk_poller_add` enters and `ztk_poller_del` removes; with each call of a callback it is
recorded whether its registration has been there since.

A descriptor that is closed without `ztk_poller_del` leaves its entry behind.  When its
number is used again, `ztk_poller_add` finds that entry and overwrites its callback, and
`EPOLL_CTL_MOD` then fails, since the kernel does not know the new descriptor.  This too is
a new registration, whatever the call returns: the next event with the number goes to the
new callback.
-/

namespace Ztk.Poller

open Ztk.Lib

variable {κ υ : Type}

/-! ## State -/

/-- A call `e->cb(fd, out, e->user)`. -/
structure EpollInvocation (κ υ : Type) where
  fd : Int
  events : BitVec 32
  cb : κ
  user : Option υ
  /-- The registration was there when `epoll_wait` returned, and was not deleted or overwritten
  by another one since. -/
  stayed : Bool
deriving DecidableEq

/-- Where the turn is. -/
inductive EpollPc where
  /-- At the head of the loop, with these events to go. -/
  | event (evs : List (Int × BitVec 32))
  /-- Before `find_entry` for an event. -/
  | dispatch (ev : Int × BitVec 32) (evs : List (Int × BitVec 32))
  /-- In `ztk_poller_drain_tasks`. -/
  | tasks (after : EpollPc)
  /-- In a callback. -/
  | callback (evs : List (Int × BitVec 32))
  | returned
deriving DecidableEq

/-- Code of the application runs. -/
def EpollPc.user : EpollPc → Bool
  | .tasks _ | .callback _ => true
  | .event _ | .dispatch _ _ | .returned => false

structure EpollTurn (κ υ : Type) where
  poller : Epoll κ υ
  roster : Roster Int
  /-- What the turn will return. -/
  count : Nat
  pc : EpollPc
  invoked : List (EpollInvocation κ υ)

inductive EpollAct (κ υ : Type) where
  /-- The turn goes on, or the code of the application returns. -/
  | next
  /-- The application calls the poller. -/
  | call (c : FdCall κ υ)
  /-- The application closes a descriptor. -/
  | close (fd : Int)

namespace Epoll

/-- The descriptors that have entries. -/
def fds (p : Epoll κ υ) : List Int := p.entries.map FdEntry.fd

/-- The kernel forgets a descriptor that is closed. -/
def closeFd (p : Epoll κ υ) (fd : Int) : Epoll κ υ :=
  { p with interest := Function.update p.interest fd none }

/-- What a call enters or removes.  An entry that is there is overwritten, also where
`epoll_ctl` then fails. -/
def record (p : Epoll κ υ) (r : Roster Int) (c : FdCall κ υ) : Roster Int :=
  match c with
  | .add fd _ _ _ _ _ =>
      if fd < 0 then r
      else if (p.findEntry fd).isSome then r.renew fd
      else if (c.call p).1 = .ok then r.enter fd
      else r
  | .mod _ _ _ => r
  | .del fd => if (c.call p).1 = .ok then r.remove fd else r

end Epoll

namespace EpollTurn

/-- `epoll_wait` has returned `evs`.  Where it is empty, pending tasks are drained. -/
def start (p : Epoll κ υ) (evs : List (Int × BitVec 32)) : EpollTurn κ υ where
  poller := p
  roster := .begin p.fds
  count := evs.length
  pc := if evs.isEmpty then .tasks (.event evs) else .event evs
  invoked := []

/-- From `find_entry` to the end of the iteration. -/
def dispatch (s : EpollTurn κ υ) (ev : Int × BitVec 32) (evs : List (Int × BitVec 32)) :
    EpollTurn κ υ :=
  match s.poller.findEntry ev.1 with
  | none => { s with pc := .event evs }
  | some e =>
      match e.cb with
      | none => { s with pc := .event evs }
      | some cb =>
          { s with
            pc := .callback evs
            invoked := s.invoked ++
              [⟨ev.1, Turn.fromEpoll ev.2, cb, e.user, decide (s.roster.Stayed ev.1)⟩] }

/-- The next step of the loop.  At its end pending tasks are drained. -/
def goOn (s : EpollTurn κ υ) : Option (EpollTurn κ υ) :=
  match s.pc with
  | .event [] => some { s with pc := .tasks .returned }
  | .event (ev :: evs) =>
      some { s with
        pc := if ev.1 = s.poller.wakeR then .tasks (.dispatch ev evs) else .dispatch ev evs }
  | .dispatch ev evs => some (s.dispatch ev evs)
  | .tasks after => some { s with pc := after }
  | .callback evs => some { s with pc := .event evs }
  | .returned => none

def step (s : EpollTurn κ υ) : EpollAct κ υ → Option (EpollTurn κ υ)
  | .next => s.goOn
  | .call c =>
      if s.pc.user then
        some { s with poller := (c.call s.poller).2, roster := s.poller.record s.roster c }
      else none
  | .close fd => if s.pc.user then some { s with poller := s.poller.closeFd fd } else none

end EpollTurn

def epollTurnMachine : Machine (EpollTurn κ υ) (EpollAct κ υ) := ⟨EpollTurn.step⟩

/-! ## Entries and roster -/

namespace Epoll

variable {p : Epoll κ υ} {fd : Int} {r : Roster Int}

theorem mem_fds : fd ∈ p.fds ↔ (p.findEntry fd).isSome = true := by
  rw [← not_iff_not, Bool.not_eq_true, Option.isSome_eq_false_iff, Option.isNone_iff_eq_none,
    findEntry_eq_none, fds, List.mem_map]
  exact ⟨fun h e he hfd => h ⟨e, he, hfd⟩, fun h ⟨e, he, hfd⟩ => h e he hfd⟩

/-- Every descriptor has one entry, and the roster has the descriptors that do. -/
structure Listed (p : Epoll κ υ) (r : Roster Int) : Prop where
  once : p.fds.Nodup
  present : r.present = p.fds
  sound : r.Sound

theorem Listed.frame (h : p.Listed r) {q : Epoll κ υ} (hq : q.fds = p.fds) : q.Listed r :=
  ⟨hq ▸ h.once, h.present.trans hq.symm, h.sound⟩

/-- An overwritten entry keeps its descriptor. -/
theorem fds_overwrite {f : FdEntry κ υ → FdEntry κ υ} (hf : ∀ e, (f e).fd = e.fd)
    (p : Epoll κ υ) (op : CtlOp) (fd : Int) (ev : BitVec 32) (ctl : Bool) :
    ({ p with entries := setEntry fd f p.entries }.epollCtlWrap op fd ev ctl).2.fds = p.fds := by
  rw [fds, epollCtlWrap_entries]
  exact setEntry_map FdEntry.fd hf fd p.entries

theorem Listed.renew (h : p.Listed r) (fd : Int) : p.Listed (r.renew fd) :=
  ⟨h.once, h.present, h.sound.renew fd⟩

theorem Listed.add (h : p.Listed r) (fd : Int) (events : BitVec 32) (cb : Option κ)
    (user : Option υ) (calloc ctl : Bool) :
    (p.pollerAdd fd events cb user calloc ctl).2.Listed
      (p.record r (.add fd events cb user calloc ctl)) := by
  simp only [record]
  by_cases hneg : fd < 0
  · simp only [pollerAdd, if_pos hneg]
    exact h
  · rw [if_neg hneg]
    cases he : p.findEntry fd with
    | some e =>
        rw [if_pos (Option.isSome_some ..)]
        refine (h.renew fd).frame ?_
        simp only [pollerAdd, if_neg hneg, he]
        exact fds_overwrite (f := fun e => { e with events := events, cb := cb, user := user })
          (fun _ => rfl) ..
    | none =>
        have hnew : fd ∉ p.fds := by
          rw [mem_fds, he]
          exact Bool.false_ne_true
        rw [if_neg (by simp)]
        rcases pollerAdd_insert he events cb user calloc ctl with ⟨err, herr, heq⟩ | ⟨-, heq⟩
        · rw [FdCall.call, heq, if_neg herr]
          exact h
        · rw [FdCall.call, heq, if_pos rfl]
          exact ⟨List.nodup_cons.mpr ⟨hnew, h.once⟩, congrArg (fd :: ·) h.present,
            h.sound.enter (h.present ▸ hnew)⟩

theorem Listed.del (h : p.Listed r) (fd : Int) :
    (p.pollerDel fd).2.Listed (p.record r (.del fd)) := by
  simp only [record, FdCall.call]
  simp only [pollerDel]
  split
  · rw [if_neg (show Err.invalid ≠ .ok by decide)]
    exact h
  · split
    · rw [if_pos rfl]
      have hfilter : (p.entries.eraseP fun e => e.fd = fd).map FdEntry.fd =
          p.fds.filter fun j => j ≠ fd := by
        rw [eraseP_key h.once, fds, List.filter_map]
        rfl
      refine ⟨h.once.sublist (List.eraseP_sublist.map FdEntry.fd), ?_, h.sound.remove fd⟩
      exact (congrArg (List.filter _) h.present).trans hfilter.symm
    · rw [if_neg (show Err.invalid ≠ .ok by decide)]
      exact h

theorem Listed.call (h : p.Listed r) (c : FdCall κ υ) :
    (c.call p).2.Listed (p.record r c) := by
  cases c with
  | add fd events cb user calloc ctl => exact h.add fd events cb user calloc ctl
  | mod fd events ctl =>
      refine h.frame ?_
      rw [FdCall.call]
      simp only [pollerMod]
      split
      · rfl
      · exact fds_overwrite (f := fun e => { e with events := events }) (fun _ => rfl) ..
  | del fd => exact h.del fd

/-- A roster that is begun lists what is registered. -/
theorem listed_begin (h : p.fds.Nodup) : p.Listed (.begin p.fds) :=
  ⟨h, rfl, Roster.sound_begin _⟩

/-- However the poller was used, every descriptor has one entry. -/
theorem nodup_of_leads {wakeR : Nat} (h : fdMachine.Leads Machine.Any (create wakeR) p) :
    p.fds.Nodup := by
  refine h.invariant (I := fun p => p.fds.Nodup) (fun p c q hp _ hq => ?_) (List.nodup_singleton _)
  cases hq
  exact ((listed_begin hp).call c).once

end Epoll

/-! ## Events and their registrations -/

namespace EpollTurn

variable {s t : EpollTurn κ υ} {a : EpollAct κ υ}

/-- Every callback that was called belongs to the registration that was there when its
event was reported. -/
def EventsKept (s : EpollTurn κ υ) : Prop := ∀ i ∈ s.invoked, i.stayed = true

/-- An event is not dispatched to a callback of a descriptor that `ztk_poller_add` has
entered in this turn. -/
def NotEntered (s : EpollTurn κ υ) : EpollAct κ υ → Prop
  | .next =>
      match s.pc with
      | .dispatch ev _ =>
          ∀ e ∈ s.poller.findEntry ev.1, e.cb.isSome = true → ev.1 ∉ s.roster.entered
      | _ => True
  | .call _ | .close _ => True

instance (s : EpollTurn κ υ) (a : EpollAct κ υ) : Decidable (s.NotEntered a) :=
  match a with
  | .next =>
      match hpc : s.pc with
      | .dispatch ev _ =>
          decidable_of_iff
            (∀ e ∈ s.poller.findEntry ev.1, e.cb.isSome = true → ev.1 ∉ s.roster.entered)
            (by simp only [NotEntered, hpc])
      | .event _ | .tasks _ | .callback _ | .returned => isTrue (by simp only [NotEntered, hpc])
  | .call _ | .close _ => isTrue trivial

/-- An event is dispatched: the two ways to tell whether its registration has stayed. -/
theorem dispatch_kept_iff (h : s.poller.Listed s.roster) (hs : s.EventsKept)
    (ev : Int × BitVec 32) (evs : List (Int × BitVec 32)) :
    (s.dispatch ev evs).EventsKept ↔
      ∀ e ∈ s.poller.findEntry ev.1, e.cb.isSome = true → ev.1 ∉ s.roster.entered := by
  simp only [dispatch]
  cases he : s.poller.findEntry ev.1 with
  | none => exact iff_of_true hs fun e hm => by cases hm
  | some e =>
      cases hcb : e.cb with
      | none =>
          simp only [hcb]
          refine iff_of_true hs fun e' hm hsome => ?_
          cases hm
          rw [hcb] at hsome
          cases hsome
      | some cb =>
          have hin : ev.1 ∈ s.roster.present := by
            rw [h.present, Epoll.mem_fds, he]
            rfl
          have hstay := h.sound.stayed_iff hin
          simp only [EventsKept, hcb, List.forall_mem_append, List.forall_mem_singleton,
            decide_eq_true_eq, hstay]
          constructor
          · rintro ⟨-, hn⟩ e' - -
            exact hn
          · intro hn
            exact ⟨hs, hn e rfl (by rw [hcb]; rfl)⟩

/-- The loop dispatches an event, or goes on without looking at the registrations. -/
theorem goOn_cases (h : s.goOn = some t) :
    (∃ ev evs, s.pc = .dispatch ev evs ∧ t = s.dispatch ev evs) ∨
      (∀ ev evs, s.pc ≠ .dispatch ev evs) ∧ ∃ pc, t = { s with pc := pc } := by
  simp only [goOn] at h
  split at h
  · next hpc =>
      cases h
      exact Or.inr ⟨by simp [hpc], _, rfl⟩
  · next hpc =>
      cases h
      exact Or.inr ⟨by simp [hpc], _, rfl⟩
  · next ev evs hpc =>
      cases h
      exact Or.inl ⟨ev, evs, hpc, rfl⟩
  · next hpc =>
      cases h
      exact Or.inr ⟨by simp [hpc], _, rfl⟩
  · next hpc =>
      cases h
      exact Or.inr ⟨by simp [hpc], _, rfl⟩
  · cases h

theorem dispatch_listed (h : s.poller.Listed s.roster) (ev : Int × BitVec 32)
    (evs : List (Int × BitVec 32)) :
    (s.dispatch ev evs).poller.Listed (s.dispatch ev evs).roster := by
  simp only [dispatch]
  split
  · exact h
  · split
    · exact h
    · exact h

theorem listed_step (h : s.poller.Listed s.roster) (hs : s.step a = some t) :
    t.poller.Listed t.roster := by
  cases a with
  | next =>
      rcases goOn_cases hs with ⟨ev, evs, -, rfl⟩ | ⟨-, pc, rfl⟩
      · exact dispatch_listed h ev evs
      · exact h
  | call c =>
      rw [step, Option.ite_none_right_eq_some] at hs
      cases hs.2
      exact h.call c
  | close fd =>
      rw [step, Option.ite_none_right_eq_some] at hs
      cases hs.2
      exact h.frame rfl

/-- Only a dispatch calls a callback. -/
theorem step_kept_iff (h : s.poller.Listed s.roster) (hk : s.EventsKept)
    (hs : s.step a = some t) : t.EventsKept ↔ s.NotEntered a := by
  cases a with
  | next =>
      simp only [NotEntered]
      rcases goOn_cases hs with ⟨ev, evs, hpc, rfl⟩ | ⟨hpc, pc, rfl⟩
      · simp only [hpc]
        exact dispatch_kept_iff h hk ev evs
      · refine iff_of_true hk ?_
        split
        · next hd => exact absurd hd (hpc _ _)
        · trivial
  | call c =>
      rw [step, Option.ite_none_right_eq_some] at hs
      cases hs.2
      exact iff_of_true hk trivial
  | close fd =>
      rw [step, Option.ite_none_right_eq_some] at hs
      cases hs.2
      exact iff_of_true hk trivial

end EpollTurn

open EpollTurn

/-- Whatever was registered, whatever is reported and whatever the callbacks and tasks
do: throughout a turn callbacks are called for the registrations that their events were
reported for exactly when no event is dispatched to a registration made in the turn. -/
theorem events_kept_iff {wakeR : Nat} {p : Epoll κ υ}
    (hp : fdMachine.Leads Machine.Any (.create wakeR) p) (evs : List (Int × BitVec 32))
    {as : List (EpollAct κ υ)} {t : EpollTurn κ υ}
    (hrun : epollTurnMachine.run (.start p evs) as = some t) :
    epollTurnMachine.Throughout EventsKept (.start p evs) as ↔
      epollTurnMachine.RunMeets NotEntered (.start p evs) as :=
  Machine.throughout_iff (D := Machine.Any) (I := fun s => s.poller.Listed s.roster)
    (fun _ _ _ hi _ hs => listed_step hi hs) (fun _ _ _ hi _ hk hs => step_kept_iff hi hk hs) as _ t
    (Epoll.listed_begin (Epoll.nodup_of_leads hp)) (fun _ hi => absurd hi List.not_mem_nil)
    (Machine.runMeets_any _ _) hrun

/-- Two sockets, registered with callbacks 1 and 2. -/
def twoSockets : Epoll Nat Nat :=
  (((Epoll.create 3).pollerAdd 5 pollIn (some 1) none true true).2.pollerAdd 6 pollIn (some 2) none
    true true).2

theorem twoSockets_leads : fdMachine.Leads Machine.Any (.create 3) twoSockets :=
  Machine.leads_of_run
    [.add 5 pollIn (some 1) none true true, .add 6 pollIn (some 2) none true true] _ _ rfl
    (Machine.runMeets_any _ _)

/-- A run of a turn in which both have input. -/
theorem twoSockets_run (as : List (EpollAct Nat Nat)) (calls : List (Nat × Bool))
    (h : (epollTurnMachine.run (.start twoSockets [(5, 1), (6, 1)]) as).map
      (fun t => (t.pc, t.invoked.map fun i => (i.cb, i.stayed))) = some (.returned, calls)) :
    ∃ t, epollTurnMachine.run (.start twoSockets [(5, 1), (6, 1)]) as = some t ∧
      t.pc = .returned ∧ (t.invoked.map fun i => (i.cb, i.stayed)) = calls := by
  obtain ⟨t, ht, hv⟩ := Option.map_eq_some_iff.mp h
  obtain ⟨hpc, hcalls⟩ := Prod.mk.inj hv
  exact ⟨t, ht, hpc, hcalls⟩

/-- The callback of the first socket closes the second one. -/
def closingTurn : List (EpollAct Nat Nat) :=
  [.next, .next, .call (.del 6), .close 6, .next, .next, .next, .next, .next]

theorem events_kept_closing :
    ∃ t, epollTurnMachine.run (.start twoSockets [(5, 1), (6, 1)]) closingTurn = some t ∧
      t.pc = .returned ∧ (t.invoked.map fun i => (i.cb, i.stayed)) = [(1, true)] ∧
      epollTurnMachine.Throughout EventsKept (.start twoSockets [(5, 1), (6, 1)]) closingTurn := by
  obtain ⟨t, ht, hpc, hcalls⟩ := twoSockets_run closingTurn [(1, true)] (by decide +kernel)
  exact ⟨t, ht, hpc, hcalls, (events_kept_iff twoSockets_leads _ ht).mpr (by decide +kernel)⟩

/-- The callback of the first socket closes the second one and opens a third, which gets
its number and is registered with callback 9. -/
def reusingTurn : List (EpollAct Nat Nat) :=
  [.next, .next, .call (.del 6), .close 6, .call (.add 6 pollIn (some 9) none true true), .next,
    .next, .next, .next, .next, .next]

/-- The same without `ztk_poller_del`: the entry of the second socket is overwritten. -/
def overwritingTurn : List (EpollAct Nat Nat) :=
  [.next, .next, .close 6, .call (.add 6 pollIn (some 9) none true true), .next, .next, .next,
    .next, .next, .next]

example : (epollTurnMachine.run (.start twoSockets [(5, 1), (6, 1)]) overwritingTurn).map
    (fun t => (t.pc, t.invoked.map fun i => (i.cb, i.stayed))) =
      some (.returned, [(1, true), (9, false)]) := by
  decide +kernel

/-- Callback 9 is told what was reported for the second socket. -/
theorem events_kept_reused :
    fdMachine.Leads Machine.Any (.create 3) twoSockets ∧
      ∃ t, epollTurnMachine.run (.start twoSockets [(5, 1), (6, 1)]) reusingTurn = some t ∧
        (t.invoked.map fun i => (i.cb, i.stayed)) = [(1, true), (9, false)] ∧
        ¬ epollTurnMachine.Throughout EventsKept (.start twoSockets [(5, 1), (6, 1)])
          reusingTurn := by
  obtain ⟨t, ht, -, hcalls⟩ := twoSockets_run reusingTurn [(1, true), (9, false)]
    (by decide +kernel)
  refine ⟨twoSockets_leads, t, ht, hcalls, fun h => ?_⟩
  obtain ⟨i, hi, hv⟩ := List.mem_map.mp (hcalls ▸ List.mem_cons_of_mem _ List.mem_cons_self :
    ((9, false) : Nat × Bool) ∈ t.invoked.map fun i => (i.cb, i.stayed))
  have hstayed := h reusingTurn t List.prefix_rfl ht i hi
  rw [(Prod.mk.inj hv).2] at hstayed
  cases hstayed

end Ztk.Poller
