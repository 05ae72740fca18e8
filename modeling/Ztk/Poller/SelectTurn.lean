import Ztk.Poller.Dispatch

/-!
# A turn of select whose callbacks change the registrations

`ztk_poller_add`, `ztk_poller_mod`, `ztk_poller_del` and all of `ztk_poller_poll` of
`poller_select.c`.  The application runs in four places of a turn: in the timer callbacks
of `ztk_poller_resolve_timeout_ms`, in the tasks that are drained when nothing is ready or
when the wake entry is met, and in the callbacks of ready descriptors.  There it adds,
modifies, deletes, opens and closes descriptors as it likes.

Two copies of the registrations are taken in a turn and used after the application has
run.  The sets for `select` are built before the timer callbacks, and the ready
registrations are collected before the first of them is called.
-/

namespace Ztk.Poller

open Ztk.Lib

variable {κ υ : Type}

/-! ## The poller -/

/-- The entries of a `ztk_poller`. -/
structure Select (κ υ : Type) where
  wakeR : Int
  entries : List (FdEntry κ υ)

namespace Select

/-- `ztk_poller_create`, where `wakeR` is the read end of the pipe. -/
def create (wakeR : Nat) : Select κ υ := ⟨wakeR, [⟨wakeR, pollIn, none, none⟩]⟩

/-- `find_entry`. -/
def findEntry (p : Select κ υ) (fd : Int) : Option (FdEntry κ υ) :=
  p.entries.find? fun e => e.fd = fd

/-- `ztk_poller_add`.  `calloc` says whether there is memory for an entry. -/
def pollerAdd (p : Select κ υ) (fd : Int) (events : BitVec 32) (cb : Option κ) (user : Option υ)
    (calloc : Bool) : Err × Select κ υ :=
  if fd < 0 then (.invalid, p)
  else if (p.findEntry fd).isSome then
    (.ok, { p with
      entries := Epoll.setEntry fd (fun e => { e with events := events, cb := cb, user := user })
        p.entries })
  else if !calloc then (.nomem, p)
  else (.ok, { p with entries := ⟨fd, events, cb, user⟩ :: p.entries })

/-- `ztk_poller_mod`. -/
def pollerMod (p : Select κ υ) (fd : Int) (events : BitVec 32) : Err × Select κ υ :=
  if (p.findEntry fd).isSome then
    (.ok, { p with entries := Epoll.setEntry fd (fun e => { e with events := events }) p.entries })
  else (.invalid, p)

/-- `ztk_poller_del`. -/
def pollerDel (p : Select κ υ) (fd : Int) : Err × Select κ υ :=
  if fd = p.wakeR then (.invalid, p)
  else if (p.findEntry fd).isSome then
    (.ok, { p with entries := p.entries.eraseP fun e => e.fd = fd })
  else (.invalid, p)

end Select

/-- A call of the interface. -/
inductive SelectCall (κ υ : Type) where
  | add (fd : Int) (events : BitVec 32) (cb : Option κ) (user : Option υ) (calloc : Bool)
  | mod (fd : Int) (events : BitVec 32)
  | del (fd : Int)

def SelectCall.call (p : Select κ υ) : SelectCall κ υ → Err × Select κ υ
  | .add fd events cb user calloc => p.pollerAdd fd events cb user calloc
  | .mod fd events => p.pollerMod fd events
  | .del fd => p.pollerDel fd

/-! ## The sets -/

/-- The arguments of `select`. -/
structure FdSets where
  rfds : Finset Int
  wfds : Finset Int
  efds : Finset Int
  maxfd : Int
deriving DecidableEq

namespace FdSets

/-- `FD_ZERO` for all three. -/
def zero : FdSets := ⟨∅, ∅, ∅, -1⟩

/-- `if (e->events & bits) FD_SET(e->fd, &set)`. -/
def fdSet (bits : BitVec 32) (set : Finset Int) (e : FdEntry κ υ) : Finset Int :=
  if Turn.has e.events bits then insert e.fd set else set

/-- An iteration of the loop that builds the sets. -/
def addEntry (s : FdSets) (e : FdEntry κ υ) : FdSets :=
  if Turn.selectable e then
    { rfds := fdSet (pollIn ||| pollHup) s.rfds e
      wfds := fdSet pollOut s.wfds e
      efds := fdSet pollErr s.efds e
      maxfd := if s.maxfd < e.fd then e.fd else s.maxfd }
  else s

/-- The descriptors that `select` looks at. -/
def asked (s : FdSets) : Finset Int := (s.rfds ∪ s.wfds ∪ s.efds).filter fun fd => fd ≤ s.maxfd

end FdSets

/-- The sets at the start of a turn. -/
def Select.fdSets (p : Select κ υ) : FdSets := p.entries.foldl FdSets.addEntry .zero

/-- What `select` returns. -/
inductive SelectAnswer where
  /-- -1 with `EBADF`. -/
  | badFd
  /-- -1 with `EINTR` or `EAGAIN`. -/
  | interrupted
  /-- -1 with another error. -/
  | failed
  /-- The sets of what is ready. -/
  | found (rfds wfds efds : Finset Int)

/-! ## The turn -/

/-- `ready_ev`. -/
structure ReadyCopy (κ υ : Type) where
  ev : Turn.ReadyEv κ υ
  /-- `ztk_poller_del` has returned `ZTK_OK` for the descriptor since it was copied. -/
  deleted : Bool

/-- Where the turn is.  `ready` and `fired` are as in the source. -/
inductive SelectPc (κ υ : Type) where
  /-- In the timer callbacks. -/
  | timers
  /-- Before `select`. -/
  | waiting
  /-- In the tasks, where nothing is ready. -/
  | idle
  /-- Collecting, with these entries to go. -/
  | collect (es : List (FdEntry κ υ)) (ready : List (ReadyCopy κ υ)) (fired : Nat)
  /-- In the tasks, at the wake entry. -/
  | wake (ready : List (ReadyCopy κ υ)) (fired : Nat)
  /-- About to call the first of these. -/
  | calling (ready : List (ReadyCopy κ υ)) (fired : Nat)
  /-- In a callback, with these to go. -/
  | callback (ready : List (ReadyCopy κ υ)) (fired : Nat)
  | returned (n : Int)

namespace SelectPc

/-- Code of the application runs. -/
def user : SelectPc κ υ → Bool
  | .timers | .idle | .wake _ _ | .callback _ _ => true
  | .waiting | .collect _ _ _ | .calling _ _ | .returned _ => false

/-- The copies whose callbacks are still to be called. -/
def ready : SelectPc κ υ → List (ReadyCopy κ υ)
  | .collect _ ready _ | .wake ready _ | .calling ready _ | .callback ready _ => ready
  | .timers | .waiting | .idle | .returned _ => []

/-- The copies of a descriptor that is deleted. -/
def strike (fd : Int) (ready : List (ReadyCopy κ υ)) : List (ReadyCopy κ υ) :=
  ready.map fun r => if r.ev.fd = fd then { r with deleted := true } else r

def strikeReady (fd : Int) : SelectPc κ υ → SelectPc κ υ
  | .collect es ready fired => .collect es (strike fd ready) fired
  | .wake ready fired => .wake (strike fd ready) fired
  | .calling ready fired => .calling (strike fd ready) fired
  | .callback ready fired => .callback (strike fd ready) fired
  | .timers => .timers
  | .waiting => .waiting
  | .idle => .idle
  | .returned n => .returned n

end SelectPc

structure SelectTurn (κ υ : Type) where
  poller : Select κ υ
  /-- The descriptors of the process that are open. -/
  opened : Int → Bool
  sets : FdSets
  pc : SelectPc κ υ
  /-- The callbacks that were called, from their copies. -/
  invoked : List (ReadyCopy κ υ)

inductive SelectAct (κ υ : Type) where
  /-- The turn goes on, or the code of the application returns. -/
  | next
  | select (answer : SelectAnswer)
  /-- The application calls the poller. -/
  | call (c : SelectCall κ υ)
  /-- The application opens or closes a descriptor. -/
  | setOpen (fd : Int) (isOpen : Bool)

namespace SelectTurn

/-- The sets are built, and the timer callbacks follow. -/
def start (p : Select κ υ) (opened : Int → Bool) : SelectTurn κ υ where
  poller := p
  opened := opened
  sets := p.fdSets
  pc := .timers
  invoked := []

/-- `select` was asked about a descriptor that is closed. -/
def BadFd (s : SelectTurn κ υ) : Prop := ∃ fd ∈ s.sets.asked, s.opened fd = false

instance (s : SelectTurn κ υ) : Decidable s.BadFd :=
  inferInstanceAs (Decidable (∃ fd ∈ s.sets.asked, _))

/-- From `select` to the loop over the entries. -/
def answer (s : SelectTurn κ υ) : SelectAnswer → Option (SelectTurn κ υ)
  | .badFd => if s.BadFd then some { s with pc := .returned (-1) } else none
  | .interrupted => if s.BadFd then none else some { s with pc := .returned 0 }
  | .failed => if s.BadFd then none else some { s with pc := .returned (-1) }
  | .found r w x =>
      if ¬ s.BadFd ∧ r ⊆ s.sets.rfds ∧ w ⊆ s.sets.wfds ∧ x ⊆ s.sets.efds then
        some { s with
          sets := { s.sets with rfds := r, wfds := w, efds := x }
          pc := if r.card + w.card + x.card = 0 then .idle else .collect s.poller.entries [] 0 }
      else none

/-- The mask of the sets that have the descriptor. -/
def out (s : SelectTurn κ υ) (fd : Int) : BitVec 32 :=
  Turn.mask (fd ∈ s.sets.rfds) (fd ∈ s.sets.wfds) (fd ∈ s.sets.efds)

/-- An iteration of the loop over the entries. -/
def collectEntry (s : SelectTurn κ υ) (e : FdEntry κ υ) (es : List (FdEntry κ υ))
    (ready : List (ReadyCopy κ υ)) (fired : Nat) : SelectPc κ υ :=
  if !Turn.selectable e then .collect es ready fired
  else if e.fd = s.poller.wakeR ∧ e.fd ∈ s.sets.rfds then .wake ready fired
  else if s.out e.fd = 0 then .collect es ready fired
  else
    match e.cb with
    | none => .collect es ready fired
    | some cb =>
        .collect es
          (if fired < 64 then ready ++ [⟨⟨e.fd, s.out e.fd, cb, e.user⟩, false⟩] else ready)
          (fired + 1)

/-- What follows the wake entry in the list. -/
def afterWake (p : Select κ υ) : List (FdEntry κ υ) :=
  (p.entries.dropWhile fun e => e.fd ≠ p.wakeR).tail

/-- The next step of the turn. -/
def goOn (s : SelectTurn κ υ) : Option (SelectTurn κ υ) :=
  match s.pc with
  | .timers => some { s with pc := .waiting }
  | .waiting => none
  | .idle => some { s with pc := .returned 0 }
  | .collect [] ready fired => some { s with pc := .calling ready fired }
  | .collect (e :: es) ready fired => some { s with pc := s.collectEntry e es ready fired }
  | .wake ready fired => some { s with pc := .collect (afterWake s.poller) ready fired }
  | .calling [] fired => some { s with pc := .returned fired }
  | .calling (r :: ready) fired =>
      some { s with pc := .callback ready fired, invoked := s.invoked ++ [r] }
  | .callback ready fired => some { s with pc := .calling ready fired }
  | .returned _ => none

/-- A call of the application.  A deletion strikes the copies. -/
def userCall (s : SelectTurn κ υ) (c : SelectCall κ υ) : SelectTurn κ υ :=
  match c with
  | .del fd =>
      { s with
        poller := (s.poller.pollerDel fd).2
        pc := if (s.poller.pollerDel fd).1 = .ok then s.pc.strikeReady fd else s.pc }
  | c => { s with poller := (c.call s.poller).2 }

def step (s : SelectTurn κ υ) : SelectAct κ υ → Option (SelectTurn κ υ)
  | .next => s.goOn
  | .select a =>
      match s.pc with
      | .waiting => s.answer a
      | _ => none
  | .call c => if s.pc.user then some (s.userCall c) else none
  | .setOpen fd isOpen =>
      if s.pc.user then some { s with opened := Function.update s.opened fd isOpen } else none

end SelectTurn

def selectTurnMachine : Machine (SelectTurn κ υ) (SelectAct κ υ) := ⟨SelectTurn.step⟩

/-- `ztk_poller_run` goes on after a turn that returned `n`. -/
def pollerRunGoesOn (n : Int) : Bool := !(n < 0)

namespace SelectTurn

variable {s t : SelectTurn κ υ} {a : SelectAct κ υ} {p : Select κ υ}

/-! ## Copies of deleted registrations -/

/-- The copies whose callbacks were called, and those whose callbacks will be. -/
def copies (s : SelectTurn κ υ) : List (ReadyCopy κ υ) := s.invoked ++ s.pc.ready

/-- No callback was called for a registration that had been deleted. -/
def NoDeadCall (s : SelectTurn κ υ) : Prop := ∀ r ∈ s.invoked, r.deleted = false

/-- None of the copies is of a registration that has been deleted since. -/
def Unstruck (s : SelectTurn κ υ) : Prop := ∀ r ∈ s.copies, r.deleted = false

/-- No registration is deleted whose callback is still to be called. -/
def SparesReady (s : SelectTurn κ υ) : SelectAct κ υ → Prop
  | .call (.del fd) => (s.poller.pollerDel fd).1 = .ok → ∀ r ∈ s.pc.ready, r.ev.fd ≠ fd
  | .next | .select _ | .call _ | .setOpen _ _ => True

instance (s : SelectTurn κ υ) (a : SelectAct κ υ) : Decidable (s.SparesReady a) :=
  match a with
  | .call (.del fd) =>
      inferInstanceAs (Decidable ((s.poller.pollerDel fd).1 = .ok → ∀ r ∈ s.pc.ready, r.ev.fd ≠ fd))
  | .call (.add _ _ _ _ _) | .call (.mod _ _) | .next | .select _ | .setOpen _ _ => isTrue trivial

/-- A step that deletes nothing keeps the copies, and may make another. -/
def Keeps (s t : SelectTurn κ υ) : Prop :=
  ∃ new, t.copies = s.copies ++ new ∧ ∀ r ∈ new, r.deleted = false

theorem keeps_of_eq (h : t.copies = s.copies) : s.Keeps t :=
  ⟨[], by rw [h, List.append_nil], fun _ hr => absurd hr List.not_mem_nil⟩

theorem collectEntry_ready (s : SelectTurn κ υ) (e : FdEntry κ υ) (es : List (FdEntry κ υ))
    (ready : List (ReadyCopy κ υ)) (fired : Nat) :
    ∃ new, (s.collectEntry e es ready fired).ready = ready ++ new ∧
      ∀ r ∈ new, r.deleted = false := by
  have hnone : ∃ new, ready = ready ++ new ∧ ∀ r ∈ new, r.deleted = false :=
    ⟨[], (List.append_nil _).symm, fun _ hr => absurd hr List.not_mem_nil⟩
  simp only [collectEntry]
  split
  · exact hnone
  · split
    · exact hnone
    · split
      · exact hnone
      · split
        · exact hnone
        · simp only [SelectPc.ready]
          split
          · refine ⟨_, rfl, fun r hr => ?_⟩
            rw [List.mem_singleton.mp hr]
          · exact hnone

theorem goOn_keeps (h : s.goOn = some t) : s.Keeps t := by
  simp only [goOn] at h
  split at h
  · next hpc =>
      cases h
      exact keeps_of_eq (by simp [copies, hpc, SelectPc.ready])
  · cases h
  · next hpc =>
      cases h
      exact keeps_of_eq (by simp [copies, hpc, SelectPc.ready])
  · next hpc =>
      cases h
      exact keeps_of_eq (by simp [copies, hpc, SelectPc.ready])
  · next e es ready fired hpc =>
      cases h
      obtain ⟨new, hnew, hlive⟩ := s.collectEntry_ready e es ready fired
      refine ⟨new, ?_, hlive⟩
      show s.invoked ++ (s.collectEntry e es ready fired).ready = s.copies ++ new
      rw [hnew, copies, hpc, ← List.append_assoc]
      rfl
  · next hpc =>
      cases h
      exact keeps_of_eq (by simp [copies, hpc, SelectPc.ready])
  · next hpc =>
      cases h
      exact keeps_of_eq (by simp [copies, hpc, SelectPc.ready])
  · next hpc =>
      -- the copy moves from those to call to those called
      cases h
      exact keeps_of_eq (by simp [copies, hpc, SelectPc.ready])
  · next hpc =>
      cases h
      exact keeps_of_eq (by simp [copies, hpc, SelectPc.ready])
  · cases h

/-- Before `select` returns nothing has been copied. -/
theorem answer_keeps {x : SelectAnswer} (hpc : s.pc = .waiting) (h : s.answer x = some t) :
    s.Keeps t := by
  have hnil : s.copies = s.invoked := by simp [copies, hpc, SelectPc.ready]
  cases x with
  | badFd =>
      rw [answer, Option.ite_none_right_eq_some] at h
      cases h.2
      exact keeps_of_eq ((List.append_nil _).trans hnil.symm)
  | interrupted =>
      rw [answer, Option.ite_none_left_eq_some] at h
      cases h.2
      exact keeps_of_eq ((List.append_nil _).trans hnil.symm)
  | failed =>
      rw [answer, Option.ite_none_left_eq_some] at h
      cases h.2
      exact keeps_of_eq ((List.append_nil _).trans hnil.symm)
  | found r w x =>
      rw [answer, Option.ite_none_right_eq_some] at h
      cases h.2
      refine keeps_of_eq (Eq.trans ?_ hnil.symm)
      simp only [copies]
      split
      · exact List.append_nil _
      · exact List.append_nil _

/-- A step strikes the copies of a descriptor that it deletes, and otherwise keeps them. -/
theorem step_copies (h : s.step a = some t) :
    (∃ fd, a = .call (.del fd) ∧ (s.poller.pollerDel fd).1 = .ok ∧
        t.copies = s.invoked ++ SelectPc.strike fd s.pc.ready) ∨
      s.SparesReady a ∧ s.Keeps t := by
  cases a with
  | next => exact Or.inr ⟨trivial, goOn_keeps h⟩
  | select x =>
      rw [step] at h
      split at h
      · next hpc => exact Or.inr ⟨trivial, answer_keeps hpc h⟩
      · cases h
  | setOpen fd isOpen =>
      rw [step, Option.ite_none_right_eq_some] at h
      cases h.2
      exact Or.inr ⟨trivial, keeps_of_eq rfl⟩
  | call c =>
      rw [step, Option.ite_none_right_eq_some] at h
      cases h.2
      cases c with
      | add => exact Or.inr ⟨trivial, keeps_of_eq rfl⟩
      | mod => exact Or.inr ⟨trivial, keeps_of_eq rfl⟩
      | del fd =>
          by_cases hok : (s.poller.pollerDel fd).1 = .ok
          · refine Or.inl ⟨fd, rfl, hok, ?_⟩
            simp only [userCall, copies, if_pos hok]
            cases s.pc <;> rfl
          · refine Or.inr ⟨fun h => absurd h hok, keeps_of_eq ?_⟩
            simp only [userCall, copies, if_neg hok]

theorem Keeps.unstruck_iff (h : s.Keeps t) : t.Unstruck ↔ s.Unstruck := by
  obtain ⟨new, hnew, hlive⟩ := h
  rw [Unstruck, hnew, List.forall_mem_append, Unstruck]
  exact and_iff_left hlive

/-- What a deletion strikes. -/
theorem strike_live_iff (fd : Int) (ready : List (ReadyCopy κ υ)) :
    (∀ r ∈ SelectPc.strike fd ready, r.deleted = false) ↔
      ∀ r ∈ ready, r.deleted = false ∧ r.ev.fd ≠ fd := by
  rw [SelectPc.strike, List.forall_mem_map]
  refine forall_congr' fun r => imp_congr_right fun _ => ?_
  by_cases hr : r.ev.fd = fd
  · rw [if_pos hr]
    exact iff_of_false (fun h => by cases h) fun h => h.2 hr
  · rw [if_neg hr]
    exact (and_iff_left hr).symm

theorem unstruck_of_step (h : s.step a = some t) (ht : t.Unstruck) : s.Unstruck := by
  rcases step_copies h with ⟨fd, -, -, hcopies⟩ | ⟨-, hkeep⟩
  · rw [Unstruck, hcopies, List.forall_mem_append, strike_live_iff] at ht
    rw [Unstruck, copies, List.forall_mem_append]
    exact ⟨ht.1, fun r hr => (ht.2 r hr).1⟩
  · exact hkeep.unstruck_iff.mp ht

theorem unstruck_step_iff (hs : s.Unstruck) (h : s.step a = some t) :
    t.Unstruck ↔ s.SparesReady a := by
  rcases step_copies h with ⟨fd, rfl, hok, hcopies⟩ | ⟨hspare, hkeep⟩
  · rw [Unstruck, copies, List.forall_mem_append] at hs
    rw [Unstruck, hcopies, List.forall_mem_append, strike_live_iff]
    constructor
    · intro ht _ r hr
      exact (ht.2 r hr).2
    · intro hspare
      exact ⟨hs.1, fun r hr => ⟨hs.2 r hr, hspare hok r hr⟩⟩
  · exact iff_of_true (hkeep.unstruck_iff.mpr hs) hspare

theorem run_unstruck_iff (p : Select κ υ) (opened : Int → Bool) {as : List (SelectAct κ υ)}
    (hrun : selectTurnMachine.run (.start p opened) as = some t) :
    t.Unstruck ↔ selectTurnMachine.RunMeets SparesReady (.start p opened) as := by
  have hiff := Machine.run_faultless_iff (M := selectTurnMachine) (C := SparesReady)
    (F := fun s : SelectTurn κ υ => ¬ s.Unstruck)
    (fun _ _ _ hs hst ht => hs (unstruck_of_step hst ht))
    (fun _ _ _ hs hst => by rw [not_not] at hs ⊢; exact unstruck_step_iff hs hst) as
    (.start p opened) t (not_not.mpr fun _ hr => absurd hr List.not_mem_nil) hrun
  rwa [not_not] at hiff

/-- Whatever is registered, open and ready and whatever the application does: where no
registration is deleted while its callback is still to be called, no callback is called
after its registration was deleted, and in a turn that returns only there. -/
theorem no_call_after_delete_iff (p : Select κ υ) (opened : Int → Bool)
    {as : List (SelectAct κ υ)} (hrun : selectTurnMachine.run (.start p opened) as = some t) :
    (selectTurnMachine.RunMeets SparesReady (.start p opened) as → t.NoDeadCall) ∧
      ∀ n, t.pc = .returned n →
        (t.NoDeadCall ↔ selectTurnMachine.RunMeets SparesReady (.start p opened) as) := by
  have hiff := run_unstruck_iff p opened hrun
  refine ⟨fun hm r hr => hiff.mpr hm r (List.mem_append_left _ hr), fun n hpc => ?_⟩
  rw [← hiff, NoDeadCall, Unstruck, copies, hpc, SelectPc.ready, List.append_nil]

/-- Two sockets, registered with callbacks 1 and 2. -/
def pairSelect : Select Nat Nat :=
  (((Select.create 3).pollerAdd 6 pollIn (some 2) none true).2.pollerAdd 5 pollIn (some 1) none
    true).2

/-- Both have input.  The callback of the first one does `user`. -/
def pairTurn (user : List (SelectAct Nat Nat)) : List (SelectAct Nat Nat) :=
  ([.next, .select (.found {5, 6} ∅ ∅), .next, .next, .next, .next, .next] :
    List (SelectAct Nat Nat)) ++ user ++ List.replicate 4 .next

/-- The callbacks that such a turn calls. -/
theorem pairTurn_run (user : List (SelectAct Nat Nat)) (calls : List (Nat × Bool))
    (h : (selectTurnMachine.run (.start pairSelect fun _ => true) (pairTurn user)).map
      (fun t => (match t.pc with | .returned n => n | _ => -1,
        t.invoked.map fun r => (r.ev.cb, r.deleted))) = some (2, calls)) :
    ∃ t, selectTurnMachine.run (.start pairSelect fun _ => true) (pairTurn user) = some t ∧
      t.pc = .returned 2 ∧ (t.invoked.map fun r => (r.ev.cb, r.deleted)) = calls := by
  obtain ⟨t, ht, hv⟩ := Option.map_eq_some_iff.mp h
  obtain ⟨hpc, hcalls⟩ := Prod.mk.inj hv
  refine ⟨t, ht, ?_, hcalls⟩
  cases hp : t.pc with
  | returned n =>
      rw [hp] at hpc
      exact congrArg SelectPc.returned hpc
  | timers | waiting | idle | collect | wake | calling | callback =>
      rw [hp] at hpc
      cases hpc

/-- The callback of the first socket closes it. -/
theorem no_call_after_delete_self :
    ∃ t, selectTurnMachine.run (.start pairSelect fun _ => true)
        (pairTurn [.call (.del 5), .setOpen 5 false]) = some t ∧ t.pc = .returned 2 ∧
      (t.invoked.map fun r => (r.ev.cb, r.deleted)) = [(1, false), (2, false)] ∧ t.NoDeadCall := by
  obtain ⟨t, ht, hpc, hcalls⟩ := pairTurn_run [.call (.del 5), .setOpen 5 false]
    [(1, false), (2, false)] (by decide +kernel)
  exact ⟨t, ht, hpc, hcalls,
    (no_call_after_delete_iff pairSelect _ ht).1 (by decide +kernel)⟩

/-- The callback of the first socket closes the second one, and the callback of the
second one is called. -/
theorem no_call_after_delete_other :
    ∃ t, selectTurnMachine.run (.start pairSelect fun _ => true)
        (pairTurn [.call (.del 6), .setOpen 6 false]) = some t ∧ t.pc = .returned 2 ∧
      (t.invoked.map fun r => (r.ev.cb, r.deleted)) = [(1, false), (2, true)] ∧
      ¬ t.NoDeadCall := by
  obtain ⟨t, ht, hpc, hcalls⟩ := pairTurn_run [.call (.del 6), .setOpen 6 false]
    [(1, false), (2, true)] (by decide +kernel)
  refine ⟨t, ht, hpc, hcalls, fun h => ?_⟩
  obtain ⟨r, hr, hv⟩ := List.mem_map.mp (hcalls ▸ List.mem_cons_of_mem _ List.mem_cons_self :
    ((2, true) : Nat × Bool) ∈ t.invoked.map fun r => (r.ev.cb, r.deleted))
  have hlive := h r hr
  rw [(Prod.mk.inj hv).2] at hlive
  cases hlive

/-! ## The sets and the registrations -/

end SelectTurn

namespace Select

variable {p q : Select κ υ} {fd : Int} {bits : BitVec 32}

/-- The descriptor is below `FD_SETSIZE` and registered for one of the bits. -/
def Wants (p : Select κ υ) (bits : BitVec 32) (fd : Int) : Prop :=
  ∃ e ∈ p.entries, e.fd = fd ∧ Turn.selectable e = true ∧ Turn.has e.events bits = true

/-- One of the sets, by the bits that put a descriptor into it. -/
theorem mem_addEntries (set : FdSets → Finset Int)
    (hset : ∀ s (e : FdEntry κ υ), set (s.addEntry e) =
      if Turn.selectable e then FdSets.fdSet bits (set s) e else set s)
    (es : List (FdEntry κ υ)) (s : FdSets) :
    fd ∈ set (es.foldl FdSets.addEntry s) ↔
      fd ∈ set s ∨
        ∃ e ∈ es, e.fd = fd ∧ Turn.selectable e = true ∧ Turn.has e.events bits = true := by
  induction es generalizing s with
  | nil => simp
  | cons e es ih =>
      have hone : fd ∈ set (s.addEntry e) ↔ fd ∈ set s ∨
          e.fd = fd ∧ Turn.selectable e = true ∧ Turn.has e.events bits = true := by
        rw [hset, FdSets.fdSet]
        split
        · next hsel =>
            split
            · next hbits =>
                rw [Finset.mem_insert, eq_comm (a := fd), or_comm]
                simp only [hsel, hbits, and_self, and_true]
            · next hbits => exact (or_iff_left fun h => hbits h.2.2).symm
        · next hsel => exact (or_iff_left fun h => hsel h.2.1).symm
      rw [List.foldl_cons, ih, hone, List.exists_mem_cons_iff, or_assoc]

/-- No selectable descriptor is above `maxfd`. -/
theorem le_maxfd (es : List (FdEntry κ υ)) (s : FdSets) :
    s.maxfd ≤ (es.foldl FdSets.addEntry s).maxfd ∧
      ∀ e ∈ es, Turn.selectable e = true → e.fd ≤ (es.foldl FdSets.addEntry s).maxfd := by
  induction es generalizing s with
  | nil => exact ⟨le_rfl, fun e he => absurd he List.not_mem_nil⟩
  | cons e es ih =>
      obtain ⟨hle, hall⟩ := ih (s.addEntry e)
      have hone : s.maxfd ≤ (s.addEntry e).maxfd ∧
          (Turn.selectable e = true → e.fd ≤ (s.addEntry e).maxfd) := by
        simp only [FdSets.addEntry]
        split
        · simp only
          split
          · exact ⟨by omega, fun _ => le_rfl⟩
          · exact ⟨le_rfl, fun _ => by omega⟩
        · next hsel => exact ⟨le_rfl, fun h => absurd h hsel⟩
      rw [List.foldl_cons]
      refine ⟨hone.1.trans hle, fun e' he' hsel => ?_⟩
      rcases List.mem_cons.mp he' with rfl | he'
      · exact (hone.2 hsel).trans hle
      · exact hall e' he' hsel

theorem mem_rfds : fd ∈ p.fdSets.rfds ↔ p.Wants (pollIn ||| pollHup) fd := by
  rw [fdSets, mem_addEntries FdSets.rfds fun s e => by unfold FdSets.addEntry; split <;> rfl]
  exact or_iff_right (Finset.notMem_empty fd)

theorem mem_wfds : fd ∈ p.fdSets.wfds ↔ p.Wants pollOut fd := by
  rw [fdSets, mem_addEntries FdSets.wfds fun s e => by unfold FdSets.addEntry; split <;> rfl]
  exact or_iff_right (Finset.notMem_empty fd)

theorem mem_efds : fd ∈ p.fdSets.efds ↔ p.Wants pollErr fd := by
  rw [fdSets, mem_addEntries FdSets.efds fun s e => by unfold FdSets.addEntry; split <;> rfl]
  exact or_iff_right (Finset.notMem_empty fd)

/-- `select` looks at all descriptors of the sets. -/
theorem mem_asked : fd ∈ p.fdSets.asked ↔
    p.Wants (pollIn ||| pollHup) fd ∨ p.Wants pollOut fd ∨ p.Wants pollErr fd := by
  have hmax : ∀ {bits}, p.Wants bits fd → fd ≤ p.fdSets.maxfd := by
    rintro bits ⟨e, he, rfl, hsel, -⟩
    exact (le_maxfd p.entries .zero).2 e he hsel
  rw [FdSets.asked, Finset.mem_filter, Finset.mem_union, Finset.mem_union, mem_rfds, mem_wfds,
    mem_efds, or_assoc]
  refine and_iff_left_of_imp fun h => ?_
  rcases h with h | h | h
  · exact hmax h
  · exact hmax h
  · exact hmax h

/-- The descriptors below `FD_SETSIZE` are waited for alike. -/
def SameInterest (p q : Select κ υ) : Prop :=
  ∀ fd, (p.Wants (pollIn ||| pollHup) fd ↔ q.Wants (pollIn ||| pollHup) fd) ∧
    (p.Wants pollOut fd ↔ q.Wants pollOut fd) ∧ (p.Wants pollErr fd ↔ q.Wants pollErr fd)

end Select

namespace SelectTurn

variable {s t : SelectTurn κ υ} {a : SelectAct κ υ} {p : Select κ υ}

/-- The sets have the descriptors below `FD_SETSIZE` that are registered, each by its
events, and `select` looks at all of them. -/
structure SetsCurrent (s : SelectTurn κ υ) : Prop where
  rfds : ∀ fd, fd ∈ s.sets.rfds ↔ s.poller.Wants (pollIn ||| pollHup) fd
  wfds : ∀ fd, fd ∈ s.sets.wfds ↔ s.poller.Wants pollOut fd
  efds : ∀ fd, fd ∈ s.sets.efds ↔ s.poller.Wants pollErr fd
  asked : ∀ fd, fd ∈ s.sets.asked ↔ fd ∈ s.sets.rfds ∨ fd ∈ s.sets.wfds ∨ fd ∈ s.sets.efds

/-- Every registered descriptor is open. -/
def AllOpen (s : SelectTurn κ υ) : Prop := ∀ e ∈ s.poller.entries, s.opened e.fd = true

/-- `select` has not been called. -/
def Early (pc : SelectPc κ υ) : Prop := pc = .timers ∨ pc = .waiting

/-- Until `select` is called, the sets are those of the start. -/
def SetsOf (p : Select κ υ) (s : SelectTurn κ υ) : Prop := Early s.pc → s.sets = p.fdSets

theorem setsOf_of_late (h : ¬ Early t.pc) : SetsOf p t := fun he => absurd he h

theorem collectEntry_late (s : SelectTurn κ υ) (e : FdEntry κ υ) (es : List (FdEntry κ υ))
    (ready : List (ReadyCopy κ υ)) (fired : Nat) : ¬ Early (s.collectEntry e es ready fired) := by
  simp only [collectEntry, Early]
  split
  · simp
  · split
    · simp
    · split
      · simp
      · split
        · simp
        · simp

theorem goOn_setsOf (h : SetsOf p s) (hs : s.goOn = some t) : SetsOf p t := by
  simp only [goOn] at hs
  split at hs
  · next hpc =>
      cases hs
      exact fun _ => h (Or.inl hpc)
  · cases hs
  · cases hs
    exact setsOf_of_late (by simp [Early])
  · cases hs
    exact setsOf_of_late (by simp [Early])
  · cases hs
    exact setsOf_of_late (collectEntry_late s _ _ _ _)
  · cases hs
    exact setsOf_of_late (by simp [Early])
  · cases hs
    exact setsOf_of_late (by simp [Early])
  · cases hs
    exact setsOf_of_late (by simp [Early])
  · cases hs
    exact setsOf_of_late (by simp [Early])
  · cases hs

theorem answer_setsOf {x : SelectAnswer} (h : s.answer x = some t) : SetsOf p t := by
  cases x with
  | badFd =>
      rw [answer, Option.ite_none_right_eq_some] at h
      cases h.2
      exact setsOf_of_late (by simp [Early])
  | interrupted =>
      rw [answer, Option.ite_none_left_eq_some] at h
      cases h.2
      exact setsOf_of_late (by simp [Early])
  | failed =>
      rw [answer, Option.ite_none_left_eq_some] at h
      cases h.2
      exact setsOf_of_late (by simp [Early])
  | found r w x =>
      rw [answer, Option.ite_none_right_eq_some] at h
      cases h.2
      refine setsOf_of_late ?_
      simp only [Early]
      split
      · simp
      · simp

/-- Deleting does not change where the turn is. -/
theorem early_strikeReady (fd : Int) (pc : SelectPc κ υ) :
    Early (pc.strikeReady fd) ↔ Early pc := by
  cases pc <;> simp [Early, SelectPc.strikeReady]

theorem userCall_setsOf (h : SetsOf p s) (c : SelectCall κ υ) : SetsOf p (s.userCall c) := by
  cases c with
  | add => exact h
  | mod => exact h
  | del fd =>
      intro he
      refine h ?_
      simp only [userCall] at he
      split at he
      · exact (early_strikeReady fd s.pc).mp he
      · exact he

theorem setsOf_run {opened : Int → Bool} {as : List (SelectAct κ υ)}
    (hrun : selectTurnMachine.run (.start p opened) as = some s) (hpc : s.pc = .waiting) :
    s.sets = p.fdSets := by
  have hl := Machine.leads_of_run as _ s hrun (Machine.runMeets_any _ _)
  refine hl.invariant (I := SetsOf p) (fun s a t h _ hs => ?_) (fun _ => rfl) (Or.inr hpc)
  cases a with
  | next => exact goOn_setsOf h hs
  | select x =>
      replace hs : (match s.pc with | .waiting => s.answer x | _ => none) = some t := hs
      split at hs
      · exact answer_setsOf hs
      · cases hs
  | call c =>
      obtain ⟨-, hs⟩ := Option.ite_none_right_eq_some.mp hs
      cases hs
      exact userCall_setsOf h c
  | setOpen fd isOpen =>
      obtain ⟨-, hs⟩ := Option.ite_none_right_eq_some.mp hs
      cases hs
      exact h

/-- The sets are current exactly when the timer callbacks have left alone what is waited
for. -/
theorem setsCurrent_iff (hsets : s.sets = p.fdSets) : s.SetsCurrent ↔ p.SameInterest s.poller := by
  constructor
  · rintro ⟨hr, hw, hx, -⟩ fd
    rw [← hr, ← hw, ← hx, hsets, Select.mem_rfds, Select.mem_wfds, Select.mem_efds]
    exact ⟨Iff.rfl, Iff.rfl, Iff.rfl⟩
  · intro h
    refine ⟨fun fd => ?_, fun fd => ?_, fun fd => ?_, fun fd => ?_⟩
    · rw [hsets, Select.mem_rfds, (h fd).1]
    · rw [hsets, Select.mem_wfds, (h fd).2.1]
    · rw [hsets, Select.mem_efds, (h fd).2.2]
    · rw [hsets, Select.mem_asked, Select.mem_rfds, Select.mem_wfds, Select.mem_efds]

/-- With current sets, `EBADF` is for a registered descriptor that is closed. -/
theorem SetsCurrent.not_badFd (h : s.SetsCurrent) (ho : s.AllOpen) : ¬ s.BadFd := by
  rintro ⟨fd, hasked, hclosed⟩
  have hopen : ∀ {bits}, s.poller.Wants bits fd → False := by
    rintro bits ⟨e, he, rfl, -⟩
    rw [ho e he] at hclosed
    cases hclosed
  rw [h.asked, h.rfds, h.wfds, h.efds] at hasked
  rcases hasked with hw | hw | hw
  · exact hopen hw
  · exact hopen hw
  · exact hopen hw

/-- Whatever is registered and whatever the timer callbacks do: `select` is called for
the descriptors that are registered then, and cannot fail with `EBADF` where these are
open, exactly when the callbacks have changed nothing that it waits for. -/
theorem select_waits_current_iff (p : Select κ υ) (opened : Int → Bool)
    {as : List (SelectAct κ υ)} (hrun : selectTurnMachine.run (.start p opened) as = some s)
    (hpc : s.pc = .waiting) :
    s.SetsCurrent ∧ (s.AllOpen → s.step (.select .badFd) = none) ↔ p.SameInterest s.poller := by
  have hsets := setsOf_run hrun hpc
  rw [← setsCurrent_iff hsets]
  refine and_iff_left_of_imp fun h ho => ?_
  rw [step, hpc]
  exact if_neg (h.not_badFd ho)

/-- A timer callback opens a third socket, gives it up and closes it. -/
theorem select_waits_current_undone :
    ∃ s, selectTurnMachine.run (.start pairSelect fun fd => decide (fd < 7))
        [.setOpen 7 true, .call (.add 7 pollIn (some 9) none true), .call (.del 7),
          .setOpen 7 false, .next] = some s ∧ s.pc = .waiting ∧ s.SetsCurrent := by
  have hrun : (selectTurnMachine.run (.start pairSelect fun fd => decide (fd < 7))
      [.setOpen 7 true, .call (.add 7 pollIn (some 9) none true), .call (.del 7),
        .setOpen 7 false, .next]).map (fun s => s.poller.entries) = some pairSelect.entries := by
    decide +kernel
  obtain ⟨s, hs, hentries⟩ := Option.map_eq_some_iff.mp hrun
  have hpc : s.pc = .waiting := by
    cases hs
    rfl
  refine ⟨s, hs, hpc, ((select_waits_current_iff pairSelect _ hs hpc).mpr fun fd => ?_).1⟩
  simp only [Select.Wants, hentries, and_self]

/-- A timer callback closes the first socket.  `select` is asked about it and fails, and
`ztk_poller_run` ends. -/
theorem select_waits_current_closed :
    ∃ s t, selectTurnMachine.run (.start pairSelect fun _ => true)
        [.call (.del 5), .setOpen 5 false, .next] = some s ∧ s.pc = .waiting ∧ s.AllOpen ∧
      5 ∈ s.sets.rfds ∧ ¬ s.SetsCurrent ∧ s.step (.select .badFd) = some t ∧
      t.pc = .returned (-1) ∧ pollerRunGoesOn (-1) = false := by
  refine ⟨_, _, rfl, rfl, ?_, ?_, fun h => ?_, rfl, rfl, rfl⟩
  · simp only [AllOpen]
    decide +kernel
  · decide +kernel
  · obtain ⟨e, he, hfd, -⟩ := (h.rfds 5).mp (by decide +kernel)
    revert e
    decide +kernel

end SelectTurn

end Ztk.Poller
