import Ztk.Err
import Ztk.Lib.KeyedList
import Ztk.Lib.Machine

/-!
# The descriptors of an epoll poller

`ztk_poller_add`, `ztk_poller_mod` and `ztk_poller_del` of `poller_epoll.c`, with
the interest list that the kernel keeps for the epoll instance.  The callback and
the user pointer of an entry are values of any types `κ` and `υ`, and a null
pointer is `none`.

`epoll_ctl` may fail on any call and then changes nothing.  `EPOLL_CTL_ADD` fails
for a descriptor that is in the list and `EPOLL_CTL_MOD` for one that is not.

The entries and the interest list are written one after the other.  The path of
`ztk_poller_add` that inserts an entry takes it back when the kernel refuses; the
path that overwrites one, and `ztk_poller_mod`, do not.
-/

namespace Ztk.Poller

open Ztk.Lib

/-! ## Masks -/

/-- `ZTK_POLL_IN`. -/
def pollIn : BitVec 32 := 1

/-- `ZTK_POLL_OUT`. -/
def pollOut : BitVec 32 := 2

/-- `ZTK_POLL_ERR`. -/
def pollErr : BitVec 32 := 4

/-- `ZTK_POLL_HUP`. -/
def pollHup : BitVec 32 := 8

/-- `EPOLLIN`. -/
def epollIn : BitVec 32 := 1

/-- `EPOLLOUT`. -/
def epollOut : BitVec 32 := 4

/-- `EPOLLERR`. -/
def epollErr : BitVec 32 := 8

/-- `EPOLLHUP`. -/
def epollHup : BitVec 32 := 16

/-- `if (events & bit) ev |= out`. -/
def orIf (events bit out ev : BitVec 32) : BitVec 32 :=
  if events &&& bit ≠ 0 then ev ||| out else ev

/-- `to_epoll`. -/
def toEpoll (events : BitVec 32) : BitVec 32 :=
  orIf events pollHup epollHup <| orIf events pollErr epollErr <|
    orIf events pollOut epollOut <| orIf events pollIn epollIn 0

/-! ## State -/

/-- `ztk_fd_entry`. -/
structure FdEntry (κ υ : Type) where
  fd : Int
  events : BitVec 32
  cb : Option κ
  user : Option υ
deriving DecidableEq

/-- The entries of a `ztk_poller`, and the interest list of its `epfd`. -/
structure Epoll (κ υ : Type) where
  wakeR : Int
  entries : List (FdEntry κ υ)
  interest : Int → Option (BitVec 32)

/-- The operations of `epoll_ctl` that the wrapper is used for. -/
inductive CtlOp where
  | add
  | mod
deriving DecidableEq

variable {κ υ : Type}

namespace Epoll

/-- `ztk_poller_create`, where `wakeR` is the read end of the pipe. -/
def create (wakeR : Nat) : Epoll κ υ where
  wakeR := wakeR
  entries := [⟨wakeR, pollIn, none, none⟩]
  interest := Function.update (fun _ => none) (wakeR : Int) (some epollIn)

/-- `find_entry`. -/
def findEntry (p : Epoll κ υ) (fd : Int) : Option (FdEntry κ υ) :=
  p.entries.find? fun e => e.fd = fd

/-- An assignment to the entry that `find_entry` returns. -/
def setEntry (fd : Int) (f : FdEntry κ υ → FdEntry κ υ) : List (FdEntry κ υ) → List (FdEntry κ υ)
  | [] => []
  | e :: es => if e.fd = fd then f e :: es else e :: setEntry fd f es

/-- `epoll_ctl_wrap`.  The kernel refuses where `ctl` is false. -/
def epollCtlWrap (p : Epoll κ υ) (op : CtlOp) (fd : Int) (ev : BitVec 32) (ctl : Bool) :
    Err × Epoll κ υ :=
  if ctl ∧ (p.interest fd).isSome = decide (op = .mod) then
    (.ok, { p with interest := Function.update p.interest fd (some ev) })
  else (.platform, p)

/-- `ztk_poller_add`.  `calloc` says whether there is memory for an entry. -/
def pollerAdd (p : Epoll κ υ) (fd : Int) (events : BitVec 32) (cb : Option κ) (user : Option υ)
    (calloc ctl : Bool) : Err × Epoll κ υ :=
  if fd < 0 then (.invalid, p)
  else
    match p.findEntry fd with
    | some _ =>
        { p with
          entries := setEntry fd (fun e => { e with events := events, cb := cb, user := user })
            p.entries }.epollCtlWrap .mod fd (toEpoll events) ctl
    | none =>
        if !calloc then (.nomem, p)
        else
          match { p with entries := ⟨fd, events, cb, user⟩ :: p.entries }.epollCtlWrap .add fd
            (toEpoll events) ctl with
          | (.ok, q) => (.ok, q)
          | (_, q) => (.platform, { q with entries := q.entries.tail })

/-- `ztk_poller_mod`. -/
def pollerMod (p : Epoll κ υ) (fd : Int) (events : BitVec 32) (ctl : Bool) : Err × Epoll κ υ :=
  match p.findEntry fd with
  | none => (.invalid, p)
  | some _ =>
      { p with
        entries := setEntry fd (fun e => { e with events := events }) p.entries }.epollCtlWrap
          .mod fd (toEpoll events) ctl

/-- `ztk_poller_del`.  What `EPOLL_CTL_DEL` returns is not looked at. -/
def pollerDel (p : Epoll κ υ) (fd : Int) : Err × Epoll κ υ :=
  if fd = p.wakeR then (.invalid, p)
  else if (p.findEntry fd).isSome then
    (.ok, { p with
      entries := p.entries.eraseP fun e => e.fd = fd
      interest := Function.update p.interest fd none })
  else (.invalid, p)

end Epoll

/-- A call of the interface. -/
inductive FdCall (κ υ : Type) where
  | add (fd : Int) (events : BitVec 32) (cb : Option κ) (user : Option υ) (calloc ctl : Bool)
  | mod (fd : Int) (events : BitVec 32) (ctl : Bool)
  | del (fd : Int)

/-- What a call returns, and the poller after it. -/
def FdCall.call (p : Epoll κ υ) : FdCall κ υ → Err × Epoll κ υ
  | .add fd events cb user calloc ctl => p.pollerAdd fd events cb user calloc ctl
  | .mod fd events ctl => p.pollerMod fd events ctl
  | .del fd => p.pollerDel fd

def fdMachine : Machine (Epoll κ υ) (FdCall κ υ) := ⟨fun p a => some (a.call p).2⟩

namespace Epoll

variable {p : Epoll κ υ} {fd : Int} {e : FdEntry κ υ}

/-! ## Entries -/

theorem findEntry_eq_none : p.findEntry fd = none ↔ ∀ e ∈ p.entries, e.fd ≠ fd := by
  simp [findEntry, List.find?_eq_none]

theorem findEntry_mem (h : p.findEntry fd = some e) : e ∈ p.entries ∧ e.fd = fd :=
  ⟨List.mem_of_find?_eq_some h, by simpa using List.find?_some h⟩

/-- Where every descriptor has one entry, an assignment is to this entry only. -/
theorem setEntry_eq_map {f : FdEntry κ υ → FdEntry κ υ} {l : List (FdEntry κ υ)}
    (h : (l.map FdEntry.fd).Nodup) :
    setEntry fd f l = l.map fun e => if e.fd = fd then f e else e := by
  induction l with
  | nil => rfl
  | cons e es ih =>
      rw [List.map_cons, List.nodup_cons] at h
      rw [setEntry, List.map_cons]
      split
      · next he =>
          have hrest : ∀ e' ∈ es, (if e'.fd = fd then f e' else e') = id e' := by
            intro e' he'
            refine if_neg fun hfd => h.1 ?_
            rw [he, ← hfd]
            exact List.mem_map_of_mem he'
          rw [List.map_congr_left hrest, List.map_id]
      · rw [ih h.2]

/-- What an assignment does not touch. -/
theorem setEntry_map {α : Type} {f : FdEntry κ υ → FdEntry κ υ} (g : FdEntry κ υ → α)
    (hg : ∀ e, g (f e) = g e) (fd : Int) (l : List (FdEntry κ υ)) :
    (setEntry fd f l).map g = l.map g := by
  induction l with
  | nil => rfl
  | cons e es ih =>
      rw [setEntry]
      split
      · rw [List.map_cons, List.map_cons, hg]
      · rw [List.map_cons, List.map_cons, ih]

/-- An assignment that changes the entry changes the list. -/
theorem setEntry_eq_self {f : FdEntry κ υ → FdEntry κ υ} (h : p.findEntry fd = some e) :
    setEntry fd f p.entries = p.entries ↔ f e = e := by
  simp only [findEntry] at h
  generalize p.entries = l at h
  induction l with
  | nil => cases h
  | cons e' es ih =>
      rw [List.find?_cons] at h
      rw [setEntry]
      by_cases he : e'.fd = fd
      · simp only [he, decide_true] at h
        cases h
        rw [if_pos he, List.cons.injEq, and_iff_left rfl]
      · simp only [he, decide_false] at h
        rw [if_neg he, List.cons_inj_right]
        exact ih h

/-- The entry that is found after an assignment to it. -/
theorem find?_setEntry {f : FdEntry κ υ → FdEntry κ υ} (hf : ∀ e, (f e).fd = e.fd)
    (l : List (FdEntry κ υ)) :
    ((setEntry fd f l).find? fun e => e.fd = fd) = (l.find? fun e => e.fd = fd).map f := by
  induction l with
  | nil => rfl
  | cons e es ih =>
      rw [setEntry]
      by_cases he : e.fd = fd
      · simp [he, hf]
      · simp [he, ih]

/-! ## What a call does -/

/-- A refusal of the kernel changes nothing. -/
theorem epollCtlWrap_refused (p : Epoll κ υ) (op : CtlOp) (fd : Int) (ev : BitVec 32) :
    p.epollCtlWrap op fd ev false = (.platform, p) := by
  simp [epollCtlWrap]

theorem epollCtlWrap_mod (p : Epoll κ υ) (ev : BitVec 32) (h : (p.interest fd).isSome = true) :
    p.epollCtlWrap .mod fd ev true =
      (.ok, { p with interest := Function.update p.interest fd (some ev) }) := by
  simp [epollCtlWrap, h]

theorem epollCtlWrap_add (p : Epoll κ υ) (fd : Int) (ev : BitVec 32) (ctl : Bool) :
    p.epollCtlWrap .add fd ev ctl = (.platform, p) ∨
      p.epollCtlWrap .add fd ev ctl =
        (.ok, { p with interest := Function.update p.interest fd (some ev) }) := by
  simp only [epollCtlWrap]
  split
  · exact Or.inr rfl
  · exact Or.inl rfl

theorem epollCtlWrap_entries (p : Epoll κ υ) (op : CtlOp) (fd : Int) (ev : BitVec 32)
    (ctl : Bool) : (p.epollCtlWrap op fd ev ctl).2.entries = p.entries := by
  simp only [epollCtlWrap]
  split <;> rfl

theorem epollCtlWrap_wakeR (p : Epoll κ υ) (op : CtlOp) (fd : Int) (ev : BitVec 32) (ctl : Bool) :
    (p.epollCtlWrap op fd ev ctl).2.wakeR = p.wakeR := by
  simp only [epollCtlWrap]
  split <;> rfl

/-- `ztk_poller_mod` writes the masks only. -/
theorem pollerMod_keeps (p : Epoll κ υ) (fd : Int) (events : BitVec 32) (ctl : Bool) :
    (p.pollerMod fd events ctl).2.entries.map (fun e => (e.fd, e.user)) =
        p.entries.map (fun e => (e.fd, e.user)) ∧
      (p.pollerMod fd events ctl).2.wakeR = p.wakeR := by
  simp only [pollerMod]
  split
  · exact ⟨rfl, rfl⟩
  · rw [epollCtlWrap_entries, epollCtlWrap_wakeR]
    exact ⟨setEntry_map (f := fun e => { e with events := events }) (fun e => (e.fd, e.user))
      (fun _ => rfl) fd p.entries, rfl⟩

/-- `ztk_poller_add` for a descriptor without an entry: all or nothing. -/
theorem pollerAdd_insert (h : p.findEntry fd = none) (events : BitVec 32) (cb : Option κ)
    (user : Option υ) (calloc ctl : Bool) :
    (∃ err, err ≠ .ok ∧ p.pollerAdd fd events cb user calloc ctl = (err, p)) ∨
      0 ≤ fd ∧ p.pollerAdd fd events cb user calloc ctl =
        (.ok, { p with
          entries := ⟨fd, events, cb, user⟩ :: p.entries
          interest := Function.update p.interest fd (some (toEpoll events)) }) := by
  simp only [pollerAdd]
  split
  · exact Or.inl ⟨.invalid, by decide, rfl⟩
  · next hfd =>
      rw [h]
      cases calloc with
      | false => exact Or.inl ⟨.nomem, by decide, rfl⟩
      | true =>
          have hadd := epollCtlWrap_add { p with entries := ⟨fd, events, cb, user⟩ :: p.entries } fd
            (toEpoll events) ctl
          rcases hadd with hadd | hadd
          · refine Or.inl ⟨.platform, by decide, ?_⟩
            simp only [hadd, Bool.not_true, Bool.false_eq_true, if_false]
            rfl
          · refine Or.inr ⟨Int.not_lt.mp hfd, ?_⟩
            simp only [hadd, Bool.not_true, Bool.false_eq_true, if_false]

/-- A descriptor that `ztk_poller_add` accepts has an entry with the user pointer. -/
theorem pollerAdd_user {events : BitVec 32} {cb : Option κ} {user : Option υ} {calloc ctl : Bool}
    (h : (p.pollerAdd fd events cb user calloc ctl).1 = .ok) :
    ∃ e, (p.pollerAdd fd events cb user calloc ctl).2.findEntry fd = some e ∧ e.user = user := by
  cases hf : p.findEntry fd with
  | none =>
      rcases pollerAdd_insert hf events cb user calloc ctl with ⟨err, herr, heq⟩ | ⟨-, heq⟩
      · rw [heq] at h
        exact absurd h herr
      · rw [heq]
        exact ⟨_, List.find?_cons_of_pos (decide_eq_true rfl), rfl⟩
  | some e =>
      simp only [pollerAdd] at h ⊢
      split at h
      · cases h
      · next hneg =>
          rw [if_neg hneg, hf]
          refine ⟨{ e with events := events, cb := cb, user := user }, ?_, rfl⟩
          rw [findEntry, epollCtlWrap_entries]
          refine (find?_setEntry (f := fun e => { e with events := events, cb := cb, user := user })
            (fun _ => rfl) p.entries).trans ?_
          exact congrArg (Option.map _) hf

/-- For a descriptor that the kernel does not know, `ztk_poller_add` needs memory and
the consent of the kernel. -/
theorem pollerAdd_ok (h : p.findEntry fd = none) (hi : p.interest fd = none) (h0 : 0 ≤ fd)
    (events : BitVec 32) (cb : Option κ) (user : Option υ) (calloc ctl : Bool) :
    (p.pollerAdd fd events cb user calloc ctl).1 = .ok ↔ calloc = true ∧ ctl = true := by
  rw [pollerAdd, if_neg (Int.not_lt.mpr h0), h]
  cases calloc with
  | false => simp
  | true =>
      cases ctl with
      | false => simp [epollCtlWrap_refused]
      | true => simp [epollCtlWrap, hi]

/-- Where every descriptor has one entry, `ztk_poller_del` takes it out. -/
theorem pollerDel_entries (h : (p.entries.map FdEntry.fd).Nodup) (hw : fd ≠ p.wakeR) :
    (p.pollerDel fd).2.entries = p.entries.filter fun e => e.fd ≠ fd := by
  rw [pollerDel, if_neg hw]
  split
  · exact eraseP_key h fd
  · next hn =>
      rw [Bool.not_eq_true, Option.isSome_eq_false_iff, Option.isNone_iff_eq_none,
        findEntry_eq_none] at hn
      symm
      rw [List.filter_eq_self]
      exact fun e he => decide_eq_true (hn e he)

theorem pollerDel_wakeR (p : Epoll κ υ) (fd : Int) : (p.pollerDel fd).2.wakeR = p.wakeR := by
  simp only [pollerDel]
  split
  · rfl
  · split <;> rfl

/-- Every descriptor has one entry, the wake descriptor has one, and the kernel
holds the mask of every entry. -/
structure Matched (p : Epoll κ υ) : Prop where
  once : (p.entries.map FdEntry.fd).Nodup
  wake : p.wakeR ∈ p.entries.map FdEntry.fd
  agrees : ∀ e ∈ p.entries, p.interest e.fd = some (toEpoll e.events)

theorem create_matched (wakeR : Nat) : (create wakeR : Epoll κ υ).Matched where
  once := List.nodup_singleton _
  wake := List.mem_singleton_self _
  agrees := by
    intro e he
    rw [create, List.mem_singleton] at he
    subst he
    simp only [create, Function.update_self]
    rfl

/-- The entry is written and then the mask: this is sound when the kernel accepts,
or when there was nothing to change. -/
theorem overwrite_sound {f : FdEntry κ υ → FdEntry κ υ} {events : BitVec 32}
    (hfd : ∀ e, (f e).fd = e.fd) (hev : ∀ e, (f e).events = events) (h : p.Matched)
    (he : p.findEntry fd = some e) (ctl : Bool) {r : Err × Epoll κ υ}
    (hr : { p with entries := setEntry fd f p.entries }.epollCtlWrap .mod fd (toEpoll events) ctl =
      r) :
    r.2.Matched ∧ (r.1 ≠ .ok → r.2.entries = p.entries) ↔ (ctl = false → f e = e) := by
  obtain ⟨hmem, rfl⟩ := findEntry_mem he
  cases ctl with
  | false =>
      rw [epollCtlWrap_refused] at hr
      subst hr
      constructor
      · intro hs _
        exact (setEntry_eq_self he).mp (hs.2 fun hok => by cases hok)
      · intro hf
        have hsame : setEntry e.fd f p.entries = p.entries := (setEntry_eq_self he).mpr (hf rfl)
        exact ⟨⟨by simpa only [hsame] using h.once, by simpa only [hsame] using h.wake,
          by simpa only [hsame] using h.agrees⟩, fun _ => hsame⟩
  | true =>
      have hsome : (p.interest e.fd).isSome = true := by
        rw [h.agrees e hmem]
        rfl
      rw [epollCtlWrap_mod { p with entries := setEntry e.fd f p.entries } (toEpoll events) hsome]
        at hr
      subst hr
      refine iff_of_true ⟨⟨?_, ?_, ?_⟩, fun hne => absurd rfl hne⟩ fun hf => by cases hf
      · exact (setEntry_map FdEntry.fd hfd e.fd p.entries).symm ▸ h.once
      · exact (setEntry_map FdEntry.fd hfd e.fd p.entries).symm ▸ h.wake
      · intro e' he'
        rw [setEntry_eq_map h.once, List.mem_map] at he'
        obtain ⟨e₀, he₀, rfl⟩ := he'
        by_cases hfd₀ : e₀.fd = e.fd
        · rw [if_pos hfd₀, hfd, hev, hfd₀]
          exact Function.update_self e.fd (some (toEpoll events)) p.interest
        · rw [if_neg hfd₀]
          exact (Function.update_of_ne hfd₀ _ p.interest).trans (h.agrees e₀ he₀)

end Epoll

/-! ## Runs -/

/-- After the call the two views agree, and if it failed the entries are as
before. -/
def CallSound (p : Epoll κ υ) (a : FdCall κ υ) : Prop :=
  (a.call p).2.Matched ∧ ((a.call p).1 ≠ .ok → (a.call p).2.entries = p.entries)

/-- Where the kernel refuses to modify the mask of a descriptor, the call asked
for what the entry has already. -/
def RefusalHarmless (p : Epoll κ υ) : FdCall κ υ → Prop
  | .add fd events cb user _ ctl =>
      0 ≤ fd → ctl = false →
        ∀ e ∈ p.findEntry fd, e.events = events ∧ e.cb = cb ∧ e.user = user
  | .mod fd events ctl => ctl = false → ∀ e ∈ p.findEntry fd, e.events = events
  | .del _ => True

instance (p : Epoll κ υ) [DecidableEq κ] [DecidableEq υ] (a : FdCall κ υ) :
    Decidable (RefusalHarmless p a) :=
  match a with
  | .add fd _ _ _ _ ctl =>
      inferInstanceAs (Decidable (0 ≤ fd → ctl = false → ∀ e ∈ p.findEntry fd, _))
  | .mod fd _ ctl => inferInstanceAs (Decidable (ctl = false → ∀ e ∈ p.findEntry fd, _))
  | .del _ => isTrue trivial

/-- A call that leaves the poller as it is. -/
theorem callSound_of_unchanged {p : Epoll κ υ} (h : p.Matched) {a : FdCall κ υ} {c : Err}
    (ha : a.call p = (c, p)) : CallSound p a := by
  simp only [CallSound]
  rw [ha]
  exact ⟨h, fun _ => rfl⟩

theorem add_sound_iff {p : Epoll κ υ} (h : p.Matched) (fd : Int) (events : BitVec 32)
    (cb : Option κ) (user : Option υ) (calloc ctl : Bool) :
    CallSound p (.add fd events cb user calloc ctl) ↔
      RefusalHarmless p (.add fd events cb user calloc ctl) := by
  by_cases hfd : 0 ≤ fd
  · cases he : p.findEntry fd with
    | none =>
        refine iff_of_true ?_ fun _ _ e hm => ?_
        · rcases Epoll.pollerAdd_insert he events cb user calloc ctl with ⟨err, -, heq⟩ | ⟨-, heq⟩
          · exact callSound_of_unchanged h heq
          · rw [CallSound, FdCall.call, heq]
            have hnew := Epoll.findEntry_eq_none.mp he
            refine ⟨⟨?_, List.mem_cons_of_mem _ h.wake, ?_⟩, fun hne => absurd rfl hne⟩
            · refine List.nodup_cons.mpr ⟨fun hm => ?_, h.once⟩
              obtain ⟨e, hm, hfe⟩ := List.mem_map.mp hm
              exact hnew e hm hfe
            · intro e hm
              rcases List.mem_cons.mp hm with rfl | hm
              · exact Function.update_self fd _ p.interest
              · exact (Function.update_of_ne (hnew e hm) _ p.interest).trans (h.agrees e hm)
        · rw [he] at hm
          cases hm
    | some e =>
        have heq : p.pollerAdd fd events cb user calloc ctl =
            { p with
              entries := Epoll.setEntry fd
                (fun e => { e with events := events, cb := cb, user := user })
                p.entries }.epollCtlWrap .mod fd (toEpoll events) ctl := by
          rw [Epoll.pollerAdd, if_neg (Int.not_lt.mpr hfd), he]
        rw [CallSound, FdCall.call, Epoll.overwrite_sound
          (f := fun e => { e with events := events, cb := cb, user := user })
          (fun _ => rfl) (fun _ => rfl) h he ctl heq.symm, RefusalHarmless, he]
        constructor
        · intro hf _ hctl e' hm
          cases hm
          have hsame := hf hctl
          exact ⟨congrArg FdEntry.events hsame.symm, congrArg FdEntry.cb hsame.symm,
            congrArg FdEntry.user hsame.symm⟩
        · intro hf hctl
          obtain ⟨hev, hcb, huser⟩ := hf hfd hctl e rfl
          rw [← hev, ← hcb, ← huser]
  · refine iff_of_true (callSound_of_unchanged (c := .invalid) h ?_) fun h0 => absurd h0 hfd
    rw [FdCall.call, Epoll.pollerAdd, if_pos (Int.not_le.mp hfd)]

theorem mod_sound_iff {p : Epoll κ υ} (h : p.Matched) (fd : Int) (events : BitVec 32)
    (ctl : Bool) : CallSound p (.mod fd events ctl) ↔ RefusalHarmless p (.mod fd events ctl) := by
  cases he : p.findEntry fd with
  | none =>
      refine iff_of_true (callSound_of_unchanged (c := .invalid) h ?_) fun _ e hm => ?_
      · rw [FdCall.call, Epoll.pollerMod, he]
      · rw [he] at hm
        cases hm
  | some e =>
      have heq : p.pollerMod fd events ctl =
          { p with
            entries := Epoll.setEntry fd (fun e => { e with events := events })
              p.entries }.epollCtlWrap .mod fd (toEpoll events) ctl := by
        rw [Epoll.pollerMod, he]
      rw [CallSound, FdCall.call, Epoll.overwrite_sound (f := fun e => { e with events := events })
        (fun _ => rfl) (fun _ => rfl) h he ctl heq.symm, RefusalHarmless, he]
      constructor
      · intro hf hctl e' hm
        cases hm
        exact congrArg FdEntry.events (hf hctl).symm
      · intro hf hctl
        rw [← hf hctl e rfl]

/-- The wake descriptor cannot be removed, and the removal of another one is sound. -/
theorem del_sound {p : Epoll κ υ} (h : p.Matched) (fd : Int) : CallSound p (.del fd) := by
  by_cases hw : fd = p.wakeR
  · refine callSound_of_unchanged (c := .invalid) h ?_
    rw [FdCall.call, Epoll.pollerDel, if_pos hw]
  · by_cases hs : (p.findEntry fd).isSome = true
    · rw [CallSound, FdCall.call, Epoll.pollerDel, if_neg hw, if_pos hs]
      refine ⟨⟨?_, ?_, ?_⟩, fun hne => absurd rfl hne⟩
      · exact h.once.sublist (List.eraseP_sublist.map FdEntry.fd)
      · obtain ⟨e, hm, he⟩ := List.mem_map.mp h.wake
        refine List.mem_map.mpr ⟨e, ?_, he⟩
        rw [eraseP_key h.once, List.mem_filter]
        exact ⟨hm, by simpa [he] using Ne.symm hw⟩
      · intro e hm
        rw [eraseP_key h.once, List.mem_filter] at hm
        have hne : e.fd ≠ fd := by simpa using hm.2
        exact (Function.update_of_ne hne _ p.interest).trans (h.agrees e hm.1)
    · refine callSound_of_unchanged (c := .invalid) h ?_
      rw [FdCall.call, Epoll.pollerDel, if_neg hw, if_neg hs]

/-- One call, from a state where the two views agree. -/
theorem call_sound_iff {p : Epoll κ υ} (h : p.Matched) (a : FdCall κ υ) :
    CallSound p a ↔ RefusalHarmless p a := by
  cases a with
  | add fd events cb user calloc ctl => exact add_sound_iff h fd events cb user calloc ctl
  | mod fd events ctl => exact mod_sound_iff h fd events ctl
  | del fd => exact iff_of_true (del_sound h fd) trivial

/-- Every call of a run leaves the entries and the kernel in agreement, and undoes
itself when it fails, exactly when no refused modification asks for a change. -/
theorem fd_registry_sound_iff (wakeR : Nat) (as : List (FdCall κ υ)) :
    fdMachine.RunMeets CallSound (Epoll.create wakeR) as ↔
      fdMachine.RunMeets RefusalHarmless (Epoll.create wakeR) as := by
  refine Machine.runMeets_iff (J := Epoll.Matched) (fun p a q h hc hs => ?_)
    (fun p a h => call_sound_iff h a) as _ (Epoll.create_matched wakeR)
  cases hs
  exact ((call_sound_iff h a).mpr hc).1

/-- The kernel refuses to modify the mask of a descriptor, and the entry keeps the
new mask. -/
theorem fd_registry_refused_mod :
    ¬ fdMachine.RunMeets CallSound (Epoll.create 3 : Epoll Nat Nat)
      [.add 5 pollIn (some 1) (some 2) true true, .mod 5 pollOut false] := by
  intro h
  have hent := (h.2 _ rfl).1.2 (by decide)
  revert hent
  decide

end Ztk.Poller
