import Ztk.Lib.Serial

/-!
# The load of a poller

`poller_load.c`.  A poller adds up for how long it runs and for how long it sleeps, and halves
both times at a transition when they exceed the window.  `ztk_poller_get_load` adds up the
time since `last_ms` first, so asking for the load writes to what it measures.  Times are
`uint64_t` and the clock is an argument.

Two states that agree once the time up to now is added up cannot be told apart
(`LoadState.Agree`), and that is all that an extra `ztk_poller_get_load` changes.
-/

namespace Ztk.Poller

open Ztk.Lib

/-! ## The functions -/

/-- `ztk_poller_load_state`; `mtx` is false where the mutex was not created. -/
structure LoadState where
  mtx : Bool
  lastMs : UInt64
  runMs : UInt64
  sleepMs : UInt64
  sleeping : Bool
deriving DecidableEq

/-- `ZTK_POLLER_LOAD_WINDOW_MS`. -/
def loadWindowMs : UInt64 := 2000

/-- `ztk_poller_load_init`. -/
def loadInit (mtx : Bool) (now : UInt64) : LoadState := ⟨mtx, now, 0, 0, false⟩

/-- The cast `(int)x`. -/
def castInt (x : UInt64) : Int := (x.toNat : Int).bmod (2 ^ 32)

namespace LoadState

/-- `mark_time`. -/
def markTime (st : LoadState) (sleeping : Bool) (now : UInt64) : LoadState :=
  let delta := now - st.lastMs
  let runMs := if st.sleeping then st.runMs else st.runMs + delta
  let sleepMs := if st.sleeping then st.sleepMs + delta else st.sleepMs
  if runMs + sleepMs > loadWindowMs then
    { st with lastMs := now, runMs := runMs / 2, sleepMs := sleepMs / 2, sleeping := sleeping }
  else { st with lastMs := now, runMs := runMs, sleepMs := sleepMs, sleeping := sleeping }

/-- `ztk_poller_load_on_sleep`. -/
def loadOnSleep (st : LoadState) (now : UInt64) : LoadState :=
  if !st.mtx then st
  else if !st.sleeping then st.markTime true now
  else st

/-- `ztk_poller_load_on_wake`. -/
def loadOnWake (st : LoadState) (now : UInt64) : LoadState :=
  if !st.mtx then st
  else if st.sleeping then st.markTime false now
  else st

/-- The times of `ztk_poller_load_percent`, added up. -/
def addUp (st : LoadState) (now : UInt64) : LoadState :=
  if st.sleeping then { st with sleepMs := st.sleepMs + (now - st.lastMs), lastMs := now }
  else { st with runMs := st.runMs + (now - st.lastMs), lastMs := now }

/-- `pct`, from times that are added up. -/
def percent (st : LoadState) : Int :=
  let total := st.runMs + st.sleepMs
  let pct := if total > 0 then castInt (st.runMs * 100 / total) else 0
  if pct > 100 then 100 else pct

/-- `ztk_poller_load_percent`. -/
def loadPercent (st : LoadState) (now : UInt64) : LoadState × Int :=
  if !st.mtx then (st, 0)
  else (st.addUp now, (st.addUp now).percent)

/-- `ztk_poller_get_load`. -/
def getLoad (st : LoadState) (now : UInt64) : LoadState × Int := st.loadPercent now

end LoadState

/-! ## Calls -/

/-- A call at a time of the clock.  A call of `ztk_poller_get_load` may be one that was put
into a run. -/
inductive LoadCall where
  | onSleep (now : UInt64)
  | onWake (now : UInt64)
  | getLoad (extra : Bool) (now : UInt64)
deriving DecidableEq

def LoadCall.now : LoadCall → UInt64
  | .onSleep now | .onWake now | .getLoad _ now => now

/-- The call was put into the run. -/
def LoadCall.extra : LoadCall → Bool
  | .getLoad extra _ => extra
  | .onSleep _ | .onWake _ => false

/-- What is seen of a call. -/
inductive LoadAnswer where
  /-- A transition, and the state after it. -/
  | turned (runMs sleepMs : UInt64) (sleeping : Bool)
  /-- The poller was asleep already, or awake: `last_ms` stays, and the times are those that
  it has when the time up to now is added up. -/
  | stayed (runMs sleepMs : UInt64) (sleeping : Bool)
  | load (pct : Int)
deriving DecidableEq

/-- What is seen of a call that takes `st` to `st'`. -/
def LoadState.seen (st st' : LoadState) (now : UInt64) : LoadAnswer :=
  if st'.sleeping ≠ st.sleeping then .turned st'.runMs st'.sleepMs st'.sleeping
  else .stayed (st.addUp now).runMs (st.addUp now).sleepMs st'.sleeping

def LoadState.call (st : LoadState) : LoadCall → LoadState × LoadAnswer
  | .onSleep now => (st.loadOnSleep now, st.seen (st.loadOnSleep now) now)
  | .onWake now => (st.loadOnWake now, st.seen (st.loadOnWake now) now)
  | .getLoad _ now => ((st.getLoad now).1, .load (st.getLoad now).2)

/-- The load of a poller as an object. -/
def loadSerial : Serial LoadState LoadCall LoadAnswer where
  call st c := some (st.call c)

namespace LoadState

variable {s t : LoadState} {now : UInt64}

/-! ## Time that is added up -/

@[simp] theorem addUp_sleeping : (s.addUp now).sleeping = s.sleeping := by
  rw [addUp]
  split
  · rfl
  · rfl

@[simp] theorem addUp_mtx : (s.addUp now).mtx = s.mtx := by
  rw [addUp]
  split
  · rfl
  · rfl

/-- Time can be added up in two parts. -/
theorem addUp_addUp (s : LoadState) (now later : UInt64) :
    (s.addUp now).addUp later = s.addUp later := by
  have hadd : ∀ x : UInt64, x + (now - s.lastMs) + (later - now) = x + (later - s.lastMs) := by
    intro x
    grind
  cases hs : s.sleeping with
  | true => simp [addUp, hs, hadd]
  | false => simp [addUp, hs, hadd]

/-- A transition is made of the times that are added up. -/
def turn (st : LoadState) (sleeping : Bool) : LoadState :=
  if st.runMs + st.sleepMs > loadWindowMs then
    { st with runMs := st.runMs / 2, sleepMs := st.sleepMs / 2, sleeping := sleeping }
  else { st with sleeping := sleeping }

theorem markTime_eq (s : LoadState) (sleeping : Bool) (now : UInt64) :
    s.markTime sleeping now = (s.addUp now).turn sleeping := by
  cases hs : s.sleeping with
  | true => simp [markTime, addUp, turn, hs]
  | false => simp [markTime, addUp, turn, hs]

/-- The states cannot be told apart once time is added up. -/
def Agree (s t : LoadState) : Prop := ∀ now, s.addUp now = t.addUp now

theorem Agree.refl (s : LoadState) : s.Agree s := fun _ => rfl

theorem Agree.addUp (h : s.Agree t) (now : UInt64) : s.Agree (t.addUp now) :=
  fun later => (h later).trans (addUp_addUp t now later).symm

theorem Agree.sleeping (h : s.Agree t) : s.sleeping = t.sleeping := by
  have he := congrArg LoadState.sleeping (h 0)
  rwa [addUp_sleeping, addUp_sleeping] at he

theorem Agree.mtx (h : s.Agree t) : s.mtx = t.mtx := by
  have he := congrArg LoadState.mtx (h 0)
  rwa [addUp_mtx, addUp_mtx] at he

theorem Agree.seen_stayed (h : s.Agree t) (now : UInt64) : s.seen s now = t.seen t now := by
  simp only [seen, ne_eq, not_true_eq_false, if_false, h now, h.sleeping]

/-- Both transitions: nothing happens where the poller is in the state already. -/
def turnTo (st : LoadState) (sleeping : Bool) (now : UInt64) : LoadState :=
  if st.mtx && st.sleeping != sleeping then st.markTime sleeping now else st

theorem loadOnSleep_eq (s : LoadState) (now : UInt64) : s.loadOnSleep now = s.turnTo true now := by
  cases hm : s.mtx with
  | true => cases hs : s.sleeping <;> simp [loadOnSleep, turnTo, hm, hs]
  | false => simp [loadOnSleep, turnTo, hm]

theorem loadOnWake_eq (s : LoadState) (now : UInt64) : s.loadOnWake now = s.turnTo false now := by
  cases hm : s.mtx with
  | true => cases hs : s.sleeping <;> simp [loadOnWake, turnTo, hm, hs]
  | false => simp [loadOnWake, turnTo, hm]

/-- Where the times agree, a transition makes the same state of both. -/
theorem Agree.turnTo (h : s.Agree t) (sleeping : Bool) (now : UInt64) :
    (s.turnTo sleeping now).Agree (t.turnTo sleeping now) ∧
      s.seen (s.turnTo sleeping now) now = t.seen (t.turnTo sleeping now) now := by
  simp only [LoadState.turnTo, markTime_eq, h now, h.sleeping, h.mtx]
  split
  · exact ⟨.refl _, by simp only [seen, h now, h.sleeping]⟩
  · exact ⟨h, h.seen_stayed now⟩

theorem Agree.getLoad (h : s.Agree t) (now : UInt64) :
    (s.getLoad now).1.Agree (t.getLoad now).1 ∧ (s.getLoad now).2 = (t.getLoad now).2 := by
  simp only [LoadState.getLoad, loadPercent, h now, h.mtx]
  split
  · exact ⟨h, rfl⟩
  · exact ⟨.refl _, rfl⟩

/-- To ask for the load changes nothing but the time that is added up. -/
theorem Agree.asked (h : s.Agree t) (now : UInt64) : s.Agree (t.getLoad now).1 := by
  simp only [LoadState.getLoad, loadPercent]
  split
  · exact h
  · exact h.addUp now

theorem silent : loadSerial.Silent LoadCall.extra Agree where
  skip s t c t' o h hx hc := by
    cases c with
    | onSleep now => cases hx
    | onWake now => cases hx
    | getLoad extra now =>
        cases hc
        exact h.asked now
  agree s t c t' o h hx hc := by
    cases c with
    | onSleep now =>
        cases hc
        obtain ⟨hst, hseen⟩ := h.turnTo true now
        rw [← loadOnSleep_eq, ← loadOnSleep_eq] at hst hseen
        exact ⟨_, by rw [← hseen]; rfl, hst⟩
    | onWake now =>
        cases hc
        obtain ⟨hst, hseen⟩ := h.turnTo false now
        rw [← loadOnWake_eq, ← loadOnWake_eq] at hst hseen
        exact ⟨_, by rw [← hseen]; rfl, hst⟩
    | getLoad extra now =>
        cases hc
        obtain ⟨hst, hload⟩ := h.getLoad now
        exact ⟨_, by rw [← hload]; rfl, hst⟩

/-! ## The range of the load -/

/-- The times that are added up lie before `last_ms`, so no sum of them wraps. -/
def Timed (st : LoadState) : Prop := st.runMs.toNat + st.sleepMs.toNat ≤ st.lastMs.toNat

theorem timed_init (mtx : Bool) (now : UInt64) : (loadInit mtx now).Timed := Nat.zero_le _

theorem Timed.addUp (h : s.Timed) (hnow : s.lastMs ≤ now) : (s.addUp now).Timed := by
  have hlt := now.toNat_lt
  have hle := UInt64.le_iff_toNat_le.mp hnow
  have hsub := UInt64.toNat_sub_of_le _ _ hnow
  rw [Timed] at h
  rw [Timed, LoadState.addUp]
  split
  · show s.runMs.toNat + (s.sleepMs + (now - s.lastMs)).toNat ≤ now.toNat
    rw [UInt64.toNat_add, hsub, Nat.mod_eq_of_lt (by omega)]
    omega
  · show (s.runMs + (now - s.lastMs)).toNat + s.sleepMs.toNat ≤ now.toNat
    rw [UInt64.toNat_add, hsub, Nat.mod_eq_of_lt (by omega)]
    omega

theorem Timed.turn (h : s.Timed) (sleeping : Bool) : (s.turn sleeping).Timed := by
  rw [Timed] at h
  rw [LoadState.turn]
  split
  · show (s.runMs / 2).toNat + (s.sleepMs / 2).toNat ≤ s.lastMs.toNat
    rw [UInt64.toNat_div, UInt64.toNat_div]
    show s.runMs.toNat / 2 + s.sleepMs.toNat / 2 ≤ _
    omega
  · exact h

/-- The percentage of times that do not wrap. -/
theorem Timed.percent (h : s.Timed) : 0 ≤ s.percent ∧ s.percent ≤ 100 := by
  have hlt := s.lastMs.toNat_lt
  have htotal : (s.runMs + s.sleepMs).toNat = s.runMs.toNat + s.sleepMs.toNat := by
    rw [UInt64.toNat_add]
    exact Nat.mod_eq_of_lt (Nat.lt_of_le_of_lt h hlt)
  have hquot : (s.runMs * 100 / (s.runMs + s.sleepMs)).toNat ≤ 100 := by
    rw [UInt64.toNat_div, htotal, UInt64.toNat_mul]
    refine Nat.div_le_of_le_mul ((Nat.mod_le _ _).trans ?_)
    show s.runMs.toNat * 100 ≤ _
    rw [Nat.add_mul]
    exact Nat.le_add_right _ _
  have hcast : castInt (s.runMs * 100 / (s.runMs + s.sleepMs)) =
      (s.runMs * 100 / (s.runMs + s.sleepMs)).toNat :=
    Int.bmod_eq_of_le (by omega) (by omega)
  have hpct : 0 ≤ (if s.runMs + s.sleepMs > 0 then
        castInt (s.runMs * 100 / (s.runMs + s.sleepMs)) else 0) ∧
      (if s.runMs + s.sleepMs > 0 then
        castInt (s.runMs * 100 / (s.runMs + s.sleepMs)) else 0) ≤ 100 := by
    rw [hcast]
    split
    · exact ⟨Int.natCast_nonneg _, by omega⟩
    · exact ⟨Int.le_refl _, by decide⟩
  simp only [LoadState.percent]
  rw [if_neg (Int.not_lt.mpr hpct.2)]
  exact hpct

/-- What holds of a state at a time of the clock. -/
def At (st : LoadState) (now : UInt64) : Prop := st.Timed ∧ st.lastMs ≤ now

theorem At.addUp (h : s.At now) : (s.addUp now).At now := by
  refine ⟨h.1.addUp h.2, ?_⟩
  rw [LoadState.addUp]
  split
  · exact UInt64.le_refl now
  · exact UInt64.le_refl now

theorem At.markTime (h : s.At now) (sleeping : Bool) : (s.markTime sleeping now).At now := by
  rw [markTime_eq]
  refine ⟨h.addUp.1.turn sleeping, ?_⟩
  rw [LoadState.turn]
  split
  · exact h.addUp.2
  · exact h.addUp.2

theorem At.turnTo (h : s.At now) (sleeping : Bool) : (s.turnTo sleeping now).At now := by
  rw [LoadState.turnTo]
  split
  · exact h.markTime sleeping
  · exact h

theorem At.later {later : UInt64} (h : s.At now) (hle : now ≤ later) : s.At later :=
  ⟨h.1, UInt64.le_trans h.2 hle⟩

theorem At.loadPercent (h : s.At now) :
    (s.loadPercent now).1.At now ∧ 0 ≤ (s.loadPercent now).2 ∧ (s.loadPercent now).2 ≤ 100 := by
  simp only [LoadState.loadPercent]
  split
  · exact ⟨h, Int.le_refl 0, by simp⟩
  · exact ⟨h.addUp, h.addUp.1.percent⟩

/-- A call, at its time. -/
theorem At.call {c : LoadCall} (h : s.At c.now) :
    (s.call c).1.At c.now ∧ ∀ pct, (s.call c).2 = .load pct → 0 ≤ pct ∧ pct ≤ 100 := by
  have hseen : ∀ (st' : LoadState) (now : UInt64) pct, s.seen st' now ≠ .load pct := by
    intro st' now pct
    rw [seen]
    split
    · exact LoadAnswer.noConfusion
    · exact LoadAnswer.noConfusion
  cases c with
  | onSleep now =>
      refine ⟨?_, fun pct hp => absurd hp (hseen _ _ _)⟩
      rw [LoadState.call, loadOnSleep_eq]
      exact h.turnTo true
  | onWake now =>
      refine ⟨?_, fun pct hp => absurd hp (hseen _ _ _)⟩
      rw [LoadState.call, loadOnWake_eq]
      exact h.turnTo false
  | getLoad extra now =>
      obtain ⟨hat, hrange⟩ := h.loadPercent
      refine ⟨hat, fun pct hp => ?_⟩
      cases hp
      exact hrange

/-- Calls in the order of the clock. -/
theorem At.run {cs : List LoadCall} {tr : List (LoadCall × LoadAnswer)} (h : s.At now)
    (hclock : (now :: cs.map LoadCall.now).Pairwise (· ≤ ·))
    (hrun : loadSerial.run s cs = some (t, tr)) :
    ∀ x ∈ tr, ∀ pct, x.2 = .load pct → 0 ≤ pct ∧ pct ≤ 100 := by
  induction cs generalizing s now tr with
  | nil =>
      cases hrun
      exact fun x hx => absurd hx List.not_mem_nil
  | cons c cs ih =>
      obtain ⟨u, o, tr', hc, hrest, rfl⟩ := Serial.run_cons.mp hrun
      obtain ⟨hle, hclock⟩ := List.pairwise_cons.mp hclock
      obtain ⟨hat, hrange⟩ := (h.later (hle c.now List.mem_cons_self)).call
      rw [show s.call c = (u, o) from Option.some.inj hc] at hat hrange
      exact List.forall_mem_cons.mpr ⟨hrange, ih hat hclock hrest⟩

/-- Every call returns. -/
theorem run_total (cs : List LoadCall) (s : LoadState) :
    ∃ t tr, loadSerial.run s cs = some (t, tr) := by
  induction cs generalizing s with
  | nil => exact ⟨s, [], rfl⟩
  | cons c cs ih =>
      obtain ⟨t, tr, h⟩ := ih (s.call c).1
      exact ⟨t, _, Serial.run_cons.mpr ⟨_, _, tr, rfl, h, rfl⟩⟩

end LoadState

/-- Calls of `ztk_poller_get_load` that are put into a run leave the answers of the others as
they were: every load, the times and the state after every transition, and those that a call
found that made no transition.  Every load is a percentage. -/
theorem load_observers_silent (mtx : Bool) (t₀ : UInt64) (cs : List LoadCall)
    (hclock : (t₀ :: cs.map LoadCall.now).Pairwise (· ≤ ·)) :
    ∃ s t tr, loadSerial.run (loadInit mtx t₀) cs = some (t, tr) ∧
      loadSerial.run (loadInit mtx t₀) (cs.filter fun c => !c.extra) =
        some (s, tr.filter fun x => !x.1.extra) ∧
      ∀ x ∈ tr, ∀ pct, x.2 = .load pct → 0 ≤ pct ∧ pct ≤ 100 := by
  obtain ⟨t, tr, hrun⟩ := LoadState.run_total cs (loadInit mtx t₀)
  obtain ⟨s, hs, -⟩ := LoadState.silent.run (LoadState.Agree.refl _) hrun
  have hat : (loadInit mtx t₀).At t₀ := ⟨LoadState.timed_init mtx t₀, UInt64.le_refl t₀⟩
  exact ⟨s, t, tr, hrun, hs, hat.run hclock hrun⟩

/-- A poller that sleeps and wakes, asked four times, twice by calls that were put in; the
second transition halves the times. -/
theorem load_observers_halved :
    ∃ s t tr, loadSerial.run (loadInit true 100)
        [.getLoad true 600, .onSleep 1100, .getLoad true 1100, .getLoad false 1600, .onWake 3100,
          .getLoad false 3300] = some (t, tr) ∧
      tr.map Prod.snd = [.load 100, .turned 1000 0 true, .load 100, .load 66,
        .turned 500 1000 false, .load 41] ∧
      loadSerial.run (loadInit true 100)
        [.onSleep 1100, .getLoad false 1600, .onWake 3100, .getLoad false 3300] =
          some (s, tr.filter fun x => !x.1.extra) ∧
      ∀ x ∈ tr, ∀ pct, x.2 = .load pct → 0 ≤ pct ∧ pct ≤ 100 := by
  obtain ⟨s, t, tr, hrun, hs, hrange⟩ := load_observers_silent true 100
    [.getLoad true 600, .onSleep 1100, .getLoad true 1100, .getLoad false 1600, .onWake 3100,
      .getLoad false 3300] (by decide)
  have hv : ((loadSerial.run (loadInit true 100)
      [.getLoad true 600, .onSleep 1100, .getLoad true 1100, .getLoad false 1600, .onWake 3100,
        .getLoad false 3300]).map fun r => r.2.map Prod.snd) =
      some [.load 100, .turned 1000 0 true, .load 100, .load 66, .turned 500 1000 false,
        .load 41] := by
    decide +kernel
  rw [hrun] at hv
  exact ⟨s, t, tr, hrun, Option.some.inj hv, hs, hrange⟩

end Ztk.Poller
