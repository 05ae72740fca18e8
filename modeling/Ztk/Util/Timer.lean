import Ztk.Poller.TimerCalls

/-!
# Timers of a fixed interval

`timer_bridge`, `ztk_timer_start` and `ztk_timer_stop` of `src/util/timer.c`, over the
machine of the timers of a poller.  A `ztk_timer` keeps the handle of its
`ztk_poller_timer`, and is named by it.

What the bridge returns decides whether the flush frees that timer: with `repeat` it never
does, for the interval is not 0, and without it does when the callback has run once.  The
handle stays in the `ztk_timer` all the same, and `ztk_timer_stop` cancels it.
-/

namespace Ztk.Util

open Ztk.Lib Ztk.Poller Ztk.Poller.TimerHeap

/-! ## The functions of the source -/

/-- The fields of `ztk_timer`; `cb` is never null. -/
structure ZtkTimer where
  handle : Nat
  intervalMs : Nat
  /-- `repeat` is not 0. -/
  repeats : Bool
deriving DecidableEq, Repr

/-- What `timer_bridge` returns, after the callback of the user. -/
def timerBridge (t : ZtkTimer) : Nat := if t.repeats then t.intervalMs else 0

/-- `ztk_timer_start`.  A null `cb` is `false`. -/
def ztkTimerStart (s : TimerState) (env : DelayEnv) (calloc cb : Bool) (intervalMs : Nat)
    (repeats : Bool) : Option ZtkTimer × TimerState :=
  if !cb || intervalMs == 0 then (none, s)
  else if !calloc then (none, s)
  else
    match pollerDoDelay s env true intervalMs with
    | (none, s) => (none, s)
    | (some handle, s) => (some ⟨handle, intervalMs, repeats⟩, s)

/-- A poller and the users of its timers. -/
structure TimerUser where
  s : TimerState
  /-- The `ztk_timer` of each handle. -/
  timers : Nat → Option ZtkTimer
  /-- `ztk_timer_stop` has returned for the handle. -/
  stopped : Nat → Bool
  /-- What `flush_expired_timers` has freed. -/
  flushed : List Nat

/-- Before any timer is started. -/
def TimerUser.start (tasks : TaskPoller TimerTask) (timerMtx : Bool) : TimerUser :=
  ⟨.start tasks timerMtx, fun _ => none, fun _ => false, []⟩

/-- The steps of the users and of the poller. -/
inductive TimerUse where
  | start (env : DelayEnv) (calloc cb : Bool) (intervalMs : Nat) (repeats : Bool)
  /-- `ztk_timer_stop` of the timer with the handle. -/
  | stop (self handle : Nat)
  | poller (a : TimerAct)

/-- The timer was not stopped before, and this is the thread of the poller, outside the
callback of the timer. -/
def TimerUser.MayStop (c : TimerUser) (self handle : Nat) : Prop :=
  isOwner c.s.tasks self = true ∧ c.stopped handle = false ∧ c.s.firingTimer ≠ some handle

/-- The handle of a `ztk_timer` is private, its callback is `timer_bridge`, and the poller
outlives its users. -/
def TimerUser.Allowed (c : TimerUser) : TimerAct → Prop
  | .cancel _ t => c.timers t = none
  | .cbReturn _ nextMs => ∀ t ∈ c.s.firingTimer, ∀ x ∈ c.timers t, nextMs = timerBridge x
  | .timerFini => False
  | _ => True

instance decidableMayStop (c : TimerUser) (self handle : Nat) : Decidable (c.MayStop self handle) :=
  inferInstanceAs (Decidable (_ ∧ _ ∧ _))

instance decidableAllowed (c : TimerUser) : ∀ a, Decidable (c.Allowed a)
  | .cancel _ t => inferInstanceAs (Decidable (c.timers t = none))
  | .cbReturn _ nextMs => inferInstanceAs
      (Decidable (∀ t ∈ c.s.firingTimer, ∀ x ∈ c.timers t, nextMs = timerBridge x))
  | .timerFini => inferInstanceAs (Decidable False)
  | .bind _ | .doDelay _ _ _ | .cancelPost _ _ _ | .drain | .next _ | .flush _ => isTrue trivial

/-- A step of the poller, with what it frees. -/
def TimerUser.stepPoller (c : TimerUser) (a : TimerAct) : Option TimerUser :=
  (timerMachine.step c.s a).map fun s => { c with s := s, flushed := c.flushed ++ frees c.s a }

/-- `ztk_timer_start` keeps the handle. -/
def TimerUser.keep (c : TimerUser) : Option ZtkTimer → TimerUser
  | none => c
  | some x => { c with timers := Function.update c.timers x.handle (some x) }

/-- One step. -/
def TimerUser.step (c : TimerUser) : TimerUse → Option TimerUser
  | .start env calloc cb intervalMs repeats =>
      if !cb || intervalMs == 0 || !calloc then some c
      else (c.stepPoller (.doDelay env true intervalMs)).map fun d =>
        d.keep (ztkTimerStart c.s env calloc cb intervalMs repeats).1
  | .stop self handle =>
      match c.timers handle with
      | none => none
      | some x =>
          if c.MayStop self handle then
            (c.stepPoller (.cancel self x.handle)).map fun d =>
              { d with stopped := Function.update d.stopped handle true }
          else none
  | .poller a => if c.Allowed a then c.stepPoller a else none

/-- The users of the timers of a poller as a machine. -/
def userMachine : Machine TimerUser TimerUse := ⟨TimerUser.step⟩

/-! ## What stopping promises -/

/-- `ztk_timer_stop` reads and writes the timer of the handle and those of the array. -/
def TimerUser.accessed (c : TimerUser) (x : ZtkTimer) : List Nat := x.handle :: c.s.heap.members

/-- The callback of a stopped timer is not called, and a stop meets no timer that the flush
has freed. -/
def StopSafe (c : TimerUser) (a : TimerUse) : Prop :=
  (∀ d, userMachine.step c a = some d → ∀ t, c.stopped t = true → d.s.starts t = c.s.starts t) ∧
    match a with
    | .stop self handle => ∀ x, c.timers handle = some x → c.MayStop self handle →
        ∀ t ∈ c.accessed x, t ∉ c.flushed
    | _ => True

/-- The timer that is stopped repeats, or was never called. -/
def StopsInTime (c : TimerUser) : TimerUse → Prop
  | .stop self handle => ∀ x, c.timers handle = some x → c.MayStop self handle →
      x.repeats = true ∨ c.s.starts handle = 0
  | _ => True

/-! ## The life of a timer that is not stopped -/

/-- The timer is still held by the poller, and if it does not repeat, its one call is to come
or runs. -/
structure Alive (s : TimerState) (flushed : List Nat) (x : ZtkTimer) : Prop where
  kept : x.handle ∉ flushed
  unmarked : (s.heap.timer x.handle).cancelled = false
  once : x.repeats = false → s.starts x.handle = 0 ∨ s.firingTimer = some x.handle
  called : s.firingTimer = some x.handle → s.starts x.handle ≠ 0

/-- The timer has had its one call, and the flush has freed it. -/
structure Spent (s : TimerState) (flushed : List Nat) (x : ZtkTimer) : Prop where
  once : x.repeats = false
  called : s.starts x.handle ≠ 0
  freed : x.handle ∈ flushed

section
variable {s u : TimerState} {a : TimerAct} {flushed : List Nat} {x : ZtkTimer}

theorem Spent.step (h : Spent s flushed x) (hs : timerMachine.step s a = some u) :
    Spent u (flushed ++ frees s a) x :=
  ⟨h.once, starts_ne_zero hs h.called, List.mem_append_left _ h.freed⟩

/-- A timer that no step marks is freed by its own return alone. -/
theorem Alive.freed_by (h : Alive s flushed x) (ha : a ≠ .timerFini)
    (hfree : x.handle ∈ frees s a) :
    ∃ realloc now, a = .cbReturn realloc 0 ∧ s.firing = some (x.handle, now) := by
  have hc := h.unmarked
  cases a with
  | flush now =>
      simp only [frees] at hfree
      split at hfree
      · next hcond =>
          rw [← List.mem_singleton.mp hfree, hc] at hcond
          cases hcond.2.2
      · cases hfree
  | cbReturn realloc nextMs =>
      simp only [frees] at hfree
      split at hfree
      · next v now hf =>
          split at hfree
          · next hcond =>
              cases List.mem_singleton.mp hfree
              have hz : nextMs = 0 := hcond.resolve_right fun hm => by
                rw [hc] at hm
                cases hm
              exact ⟨realloc, now, by rw [hz], hf⟩
          · cases hfree
      · cases hfree
  | timerFini => exact absurd rfl ha
  | bind | doDelay | cancel | cancelPost | drain | next => cases hfree

/-- Without `repeat`, the one call is to come or runs, also after a step that does not free
the timer. -/
theorem Alive.once_step (h : Alive s flushed x)
    (hcb : ∀ realloc nextMs, a = .cbReturn realloc nextMs → s.firingTimer = some x.handle →
      nextMs = timerBridge x)
    (hs : timerMachine.step s a = some u) (hfree : x.handle ∉ frees s a)
    (hr : x.repeats = false) : u.starts x.handle = 0 ∨ u.firingTimer = some x.handle := by
  have htouch := step_touched hs
  have hstarts := htouch.starts x.handle
  cases a with
  | flush now =>
      obtain ⟨hidle, hfire⟩ := flush_firing hs
      by_cases hf : (fires s (.flush now)).map Prod.fst = some x.handle
      · exact Or.inr (by rw [TimerState.firingTimer, hfire, hf])
      · rw [if_neg hf] at hstarts
        refine Or.inl (hstarts.trans ((h.once hr).resolve_right ?_))
        simp [TimerState.firingTimer, hidle]
  | cbReturn realloc nextMs =>
      refine Or.inl (hstarts.trans ((h.once hr).resolve_right fun hf => hfree ?_))
      have hz : nextMs = 0 := by
        rw [hcb realloc nextMs rfl hf, timerBridge, if_neg (by simp [hr])]
      obtain ⟨⟨v, now⟩, hfire, rfl⟩ := Option.map_eq_some_iff.mp hf
      simp [frees, hfire, hz]
  | bind | doDelay | cancel | cancelPost | drain | next | timerFini =>
      have hsame : u.firingTimer = s.firingTimer := congrArg (Option.map Prod.fst) htouch.firing
      rw [hsame, hstarts]
      exact h.once hr

/-- A timer whose callback runs was called. -/
theorem Alive.called_step (h : Alive s flushed x) (hs : timerMachine.step s a = some u)
    (hf : u.firingTimer = some x.handle) : u.starts x.handle ≠ 0 := by
  have htouch := step_touched hs
  have hstarts := htouch.starts x.handle
  rw [TimerState.firingTimer, htouch.firing] at hf
  cases a with
  | flush now =>
      have hfires : (fires s (.flush now)).map Prod.fst = some x.handle := hf
      rw [hstarts, if_pos hfires]
      exact Nat.succ_ne_zero _
  | cbReturn realloc nextMs => cases hf
  | bind | doDelay | cancel | cancelPost | drain | next | timerFini =>
      exact starts_ne_zero hs (h.called hf)

/-- A timer is alive or spent after each step that does not mark it. -/
theorem Alive.step (h : Alive s flushed x) (hpos : 0 < x.intervalMs) (ha : a ≠ .timerFini)
    (hmark : marks a ≠ some x.handle) (ht : x.handle < s.next)
    (hcb : ∀ realloc nextMs, a = .cbReturn realloc nextMs → s.firingTimer = some x.handle →
      nextMs = timerBridge x)
    (hs : timerMachine.step s a = some u) :
    Alive u (flushed ++ frees s a) x ∨ Spent u (flushed ++ frees s a) x := by
  by_cases hfree : x.handle ∈ frees s a
  · obtain ⟨realloc, now, rfl, hf⟩ := h.freed_by ha hfree
    have hfire : s.firingTimer = some x.handle := by simp [TimerState.firingTimer, hf]
    have hbridge := hcb realloc 0 rfl hfire
    have hr : x.repeats = false := by
      cases hr : x.repeats with
      | false => rfl
      | true =>
          rw [timerBridge, hr, if_pos rfl] at hbridge
          omega
    exact Or.inr ⟨hr, starts_ne_zero hs (h.called hfire), List.mem_append_right _ hfree⟩
  · refine Or.inl ⟨?_, ?_, h.once_step hcb hs hfree, h.called_step hs⟩
    · rw [List.mem_append, not_or]
      exact ⟨h.kept, hfree⟩
    · refine Bool.eq_false_of_not_eq_true fun hm => ?_
      rcases ((step_touched hs).cancelled _ ht).mp hm with hc | hc
      · rw [h.unmarked] at hc
        cases hc
      · exact hmark hc

end

/-! ## Along a run -/

/-- What is known of a poller and its users, but for one unstopped timer. -/
structure UserInv (but : Option Nat) (c : TimerUser) : Prop where
  dates : ∃ due, Dates due c.s
  nowhere : ∀ t ∈ c.flushed, Nowhere c.s t
  fresh : ∀ t, c.s.next ≤ t → c.s.starts t = 0
  key : ∀ t x, c.timers t = some x → x.handle = t ∧ t < c.s.next ∧ 0 < x.intervalMs
  unstopped : ∀ t x, c.timers t = some x → c.stopped t = false → but ≠ some t →
    Alive c.s c.flushed x ∨ Spent c.s c.flushed x
  marked : ∀ t, c.stopped t = true → Marked t c.s

theorem UserInv.start (tasks : TaskPoller TimerTask) (timerMtx : Bool) :
    UserInv none (.start tasks timerMtx) where
  dates := ⟨fun _ => 0, Dates.start _ tasks timerMtx⟩
  nowhere := fun _ ht => by cases ht
  fresh := fun _ _ => rfl
  key := fun _ _ ht => by cases ht
  unstopped := fun _ _ ht => by cases ht
  marked := fun _ ht => by cases ht

namespace UserInv

variable {but : Option Nat} {c d : TimerUser} {a : TimerAct}

/-- The exception is a timer that nobody keeps a handle of. -/
theorem whole (h : UserInv but c) (hbut : ∀ t, but = some t → c.timers t = none) :
    UserInv none c :=
  { h with
    unstopped := fun t x hx hst _ => h.unstopped t x hx hst fun he => by
      rw [hbut t he] at hx
      cases hx }

/-- A step of the poller, but for the timer it marks. -/
theorem stepPoller (h : UserInv none c) (ha : a ≠ .timerFini)
    (hcb : ∀ realloc nextMs, a = .cbReturn realloc nextMs → c.Allowed a)
    (hs : c.stepPoller a = some d) :
    UserInv (marks a) d ∧ d.timers = c.timers ∧ d.stopped = c.stopped ∧
      timerMachine.step c.s a = some d.s ∧ d.flushed = c.flushed ++ frees c.s a := by
  obtain ⟨u, hu, rfl⟩ := Option.map_eq_some_iff.mp hs
  have htouch := step_touched hu
  obtain ⟨due, hdates⟩ := h.dates
  refine ⟨⟨⟨_, hdates.step hu⟩, fun t ht => ?_, fun t ht => ?_, fun t x hx => ?_,
    fun t x hx hst hmark => ?_, fun t ht => ((h.marked t ht).step hu).marked⟩, rfl, rfl, hu, rfl⟩
  · rcases List.mem_append.mp ht with ht | ht
    · exact (h.nowhere t ht).step hu
    · exact frees_nowhere hdates ha hu ht
  · have hle : c.s.next ≤ t := Nat.le_trans htouch.next ht
    refine (htouch.starts t).trans ?_
    rw [if_neg]
    · exact h.fresh t hle
    · intro hf
      obtain ⟨f, hfires, rfl⟩ := Option.map_eq_some_iff.mp hf
      have hlt := (hdates.dated.member _ (fires_mem hfires)).1
      omega
  · obtain ⟨he, hlt, hpos⟩ := h.key t x hx
    exact ⟨he, Nat.lt_of_lt_of_le hlt htouch.next, hpos⟩
  · obtain ⟨rfl, hlt, hpos⟩ := h.key t x hx
    rcases h.unstopped _ x hx hst (fun he => by cases he) with halive | hspent
    · refine halive.step hpos ha hmark hlt (fun realloc nextMs he hf => ?_) hu
      have hallowed := hcb realloc nextMs he
      rw [he] at hallowed
      exact hallowed _ hf x hx
    · exact Or.inr (hspent.step hu)

/-- `ztk_timer_start` returns the handle of the new timer of its poller. -/
theorem ztkTimerStart_some {s : TimerState} {env : DelayEnv} {calloc cb : Bool}
    {intervalMs : Nat} {repeats : Bool} {x : ZtkTimer}
    (h : (ztkTimerStart s env calloc cb intervalMs repeats).1 = some x) :
    0 < intervalMs ∧ ∃ t, (pollerDoDelay s env true intervalMs).1 = some t ∧
      x = ⟨t, intervalMs, repeats⟩ := by
  rw [ztkTimerStart] at h
  split at h
  · cases h
  · next hguard =>
      split at h
      · cases h
      · have hpos : 0 < intervalMs := Nat.pos_of_ne_zero fun hz => hguard (by simp [hz])
        generalize pollerDoDelay s env true intervalMs = r at h ⊢
        obtain ⟨timer, v⟩ := r
        cases timer with
        | none => cases h
        | some t =>
            cases h
            exact ⟨hpos, t, rfl, rfl⟩

/-- Another timer is kept. -/
theorem keep (h : UserInv none c) {x : ZtkTimer} (hlt : x.handle < c.s.next)
    (hpos : 0 < x.intervalMs) (halive : Alive c.s c.flushed x) :
    UserInv none (c.keep (some x)) := by
  have hcases : ∀ {t y}, Function.update c.timers x.handle (some x) t = some y →
      (t = x.handle ∧ y = x) ∨ c.timers t = some y := by
    intro t y hy
    by_cases ht : t = x.handle
    · rw [ht, Function.update_self] at hy
      exact Or.inl ⟨ht, (Option.some.inj hy).symm⟩
    · rw [Function.update_of_ne ht] at hy
      exact Or.inr hy
  exact
    { h with
      key := fun t y hy => by
        rcases hcases hy with ⟨rfl, rfl⟩ | hold
        · exact ⟨rfl, hlt, hpos⟩
        · exact h.key t y hold
      unstopped := fun t y hy hst hbut => by
        rcases hcases hy with ⟨rfl, rfl⟩ | hold
        · exact Or.inl halive
        · exact h.unstopped t y hold hst hbut }

/-- A timer that was just started is alive: its name is new. -/
theorem alive_new (h : UserInv none c) {u : TimerState} {intervalMs : Nat} {repeats : Bool}
    (hc : (u.heap.timer c.s.next).cancelled = false) (hstarts : u.starts = c.s.starts)
    (hfiring : u.firing = c.s.firing) : Alive u c.flushed ⟨c.s.next, intervalMs, repeats⟩ := by
  obtain ⟨due, hdates⟩ := h.dates
  have hzero : u.starts c.s.next = 0 := by
    rw [hstarts]
    exact h.fresh _ (Nat.le_refl _)
  have hidle : u.firingTimer ≠ some c.s.next := by
    rw [TimerState.firingTimer, hfiring]
    exact hdates.dated.next_nowhere.2.2
  exact ⟨fun hm => Nat.lt_irrefl _ (h.nowhere _ hm).old, hc, fun _ => Or.inl hzero,
    fun hf => absurd hf hidle⟩

/-- A timer is started. -/
theorem start_step (h : UserInv none c) {env : DelayEnv} {calloc cb : Bool} {intervalMs : Nat}
    {repeats : Bool} (hs : c.stepPoller (.doDelay env true intervalMs) = some d) :
    UserInv none (d.keep (ztkTimerStart c.s env calloc cb intervalMs repeats).1) := by
  obtain ⟨hd, -, -, hstep, hflushed⟩ := h.stepPoller (by simp) (by simp) hs
  cases hx : (ztkTimerStart c.s env calloc cb intervalMs repeats).1 with
  | none => exact hd
  | some x =>
      obtain ⟨hpos, t, hret, rfl⟩ := ztkTimerStart_some hx
      have hdelayed := pollerDoDelay_delayed c.s env true intervalMs
      rcases stepDoDelay_eq_some hstep with ⟨hnone, -⟩ | ⟨t', hsome, hds, -⟩
      · rw [hret] at hnone
        cases hnone
      · rw [hret] at hdelayed hsome
        cases hsome
        obtain ⟨rfl, hnext, hc, hstarts, hfiring⟩ := delayed_new hdelayed
        have hlt : c.s.next < d.s.next := by
          rw [hds]
          exact Nat.lt_of_lt_of_eq (Nat.lt_succ_self _) hnext.symm
        have hsame : d.flushed = c.flushed := hflushed.trans (List.append_nil _)
        refine hd.keep hlt hpos ?_
        rw [hsame, hds]
        exact h.alive_new hc hstarts hfiring

/-- A timer that is stopped is marked. -/
theorem stop_step (h : UserInv none c) {self handle : Nat} {x : ZtkTimer}
    (hx : c.timers handle = some x) (hs : c.stepPoller (.cancel self x.handle) = some d) :
    UserInv none { d with stopped := Function.update d.stopped handle true } := by
  obtain ⟨hd, -, hstopped, hstep, -⟩ := h.stepPoller (by simp) (by simp) hs
  obtain ⟨rfl, -, -⟩ := h.key handle x hx
  exact
    { hd with
      unstopped := fun t y hy hst _ => by
        by_cases ht : t = x.handle
        · simp [ht] at hst
        · refine hd.unstopped t y hy ?_ fun he => ht (Option.some.inj he).symm
          simpa [ht] using hst
      marked := fun t ht => by
        by_cases htx : t = x.handle
        · rw [htx]
          exact stepCancel_marked hstep
        · exact hd.marked t (by simpa [htx] using ht) }

theorem step (h : UserInv none c) {b : TimerUse} (hs : userMachine.step c b = some d) :
    UserInv none d := by
  cases b with
  | start env calloc cb intervalMs repeats =>
      simp only [userMachine, TimerUser.step] at hs
      split at hs
      · cases hs
        exact h
      · obtain ⟨e, he, rfl⟩ := Option.map_eq_some_iff.mp hs
        exact h.start_step he
  | stop self handle =>
      simp only [userMachine, TimerUser.step] at hs
      split at hs
      · cases hs
      · next x hx =>
          split at hs
          · obtain ⟨e, he, rfl⟩ := Option.map_eq_some_iff.mp hs
            exact h.stop_step hx he
          · cases hs
  | poller a =>
      simp only [userMachine, TimerUser.step] at hs
      split at hs
      · next hallowed =>
          have ha : a ≠ .timerFini := by
            rintro rfl
            exact hallowed
          obtain ⟨hd, htimers, -⟩ := h.stepPoller ha (fun _ _ _ => hallowed) hs
          refine hd.whole fun t ht => ?_
          rw [htimers]
          cases a with
          | cancel self v =>
              cases ht
              exact hallowed
          | bind | doDelay | cancelPost | drain | next | flush | cbReturn | timerFini => cases ht
      · cases hs

/-! ## Stopping -/

/-- A stopped timer is not called. -/
theorem stopped_starts (h : UserInv none c) {b : TimerUse} (hs : userMachine.step c b = some d)
    {t : Nat} (ht : c.stopped t = true) : d.s.starts t = c.s.starts t := by
  have hpoller : ∀ {a e}, c.stepPoller a = some e → e.s.starts t = c.s.starts t := by
    intro a e he
    obtain ⟨u, hu, rfl⟩ := Option.map_eq_some_iff.mp he
    exact ((h.marked t ht).step hu).starts
  cases b with
  | start env calloc cb intervalMs repeats =>
      simp only [userMachine, TimerUser.step] at hs
      split at hs
      · cases hs
        rfl
      · obtain ⟨e, he, rfl⟩ := Option.map_eq_some_iff.mp hs
        have hkeep : ∀ y : Option ZtkTimer, (e.keep y).s = e.s := by
          intro y
          cases y with
          | none => rfl
          | some y => rfl
        rw [hkeep]
        exact hpoller he
  | stop self handle =>
      simp only [userMachine, TimerUser.step] at hs
      split at hs
      · cases hs
      · split at hs
        · obtain ⟨e, he, rfl⟩ := Option.map_eq_some_iff.mp hs
          exact hpoller (e := e) he
        · cases hs
  | poller a =>
      simp only [userMachine, TimerUser.step] at hs
      split at hs
      · exact hpoller hs
      · cases hs

/-- A stop meets no freed timer exactly when its timer repeats or was never called. -/
theorem stop_safe_iff (h : UserInv none c) {self handle : Nat} {x : ZtkTimer}
    (hx : c.timers handle = some x) (hmay : c.MayStop self handle) :
    (∀ t ∈ c.accessed x, t ∉ c.flushed) ↔ x.repeats = true ∨ c.s.starts handle = 0 := by
  obtain ⟨-, hst, hidle⟩ := hmay
  obtain ⟨rfl, -, -⟩ := h.key handle x hx
  rcases h.unstopped _ x hx hst (fun he => by cases he) with halive | hspent
  · refine iff_of_true (fun t ht => ?_) ?_
    · rcases List.mem_cons.mp ht with rfl | ht
      · exact halive.kept
      · exact fun hm => (h.nowhere t hm).not_mem (mem_members.mp ht)
    · cases hr : x.repeats with
      | true => exact Or.inl rfl
      | false => exact Or.inr ((halive.once hr).resolve_right hidle)
  · refine iff_of_false (fun hall => hall _ List.mem_cons_self hspent.freed) ?_
    rintro (hr | hz)
    · rw [hspent.once] at hr
      cases hr
    · exact hspent.called hz

theorem stopSafe_iff (h : UserInv none c) (b : TimerUse) : StopSafe c b ↔ StopsInTime c b := by
  refine (and_iff_right fun d hs t ht => h.stopped_starts hs ht).trans ?_
  cases b with
  | stop self handle =>
      exact forall_congr' fun x => imp_congr_right fun hx => imp_congr_right fun hmay =>
        h.stop_safe_iff hx hmay
  | start | poller => exact Iff.rfl

end UserInv

/-- In a run no stop meets a freed timer, and no stopped timer is called, exactly when every
timer stopped repeats or was never called. -/
theorem timer_stop_safe_iff (tasks : TaskPoller TimerTask) (timerMtx : Bool)
    (as : List TimerUse) :
    userMachine.RunMeets StopSafe (.start tasks timerMtx) as ↔
      userMachine.RunMeets StopsInTime (.start tasks timerMtx) as :=
  Machine.runMeets_iff (M := userMachine) (fun _ _ _ h _ hs => h.step hs)
    (fun _ b h => h.stopSafe_iff b) as _ (UserInv.start tasks timerMtx)

/-- A timer without `repeat`, started at 10 by the thread of the poller and called at 15. -/
def oneShotFired : List TimerUse :=
  [.start ⟨⟨1, true, .ok⟩, 10, true, true, true⟩ true true 5 false, .poller (.flush 15),
    .poller (.cbReturn true 0)]

/-- The flush has freed the timer, and `ztk_timer_stop` writes to it. -/
theorem one_shot_stopped_late :
    ∃ b c, userMachine.run (.start ⟨true, Chain.empty, 1, 4, 0⟩ true) oneShotFired = some b ∧
      b.s.mem.usedFreed = false ∧ b.flushed = [0] ∧ b.MayStop 1 0 ∧
      userMachine.step b (.stop 1 0) = some c ∧ c.s.mem.usedFreed = true := by
  have hrun : ∃ b, userMachine.run (.start ⟨true, Chain.empty, 1, 4, 0⟩ true) oneShotFired
      = some b ∧ b.s.mem.usedFreed = false ∧ b.flushed = [0] ∧ b.MayStop 1 0 ∧
      (userMachine.step b (.stop 1 0)).map (fun c => c.s.mem.usedFreed) = some true :=
    Machine.exists_run (by decide +kernel)
  obtain ⟨b, hrun, hused, hflushed, hmay, hstop⟩ := hrun
  obtain ⟨c, hc, hfault⟩ := Option.map_eq_some_iff.mp hstop
  exact ⟨b, c, hrun, hused, hflushed, hmay, hc, hfault⟩

end Ztk.Util
