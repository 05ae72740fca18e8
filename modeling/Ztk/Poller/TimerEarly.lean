import Ztk.Poller.TimerCalls
import Ztk.Poller.TimerDates

/-!
# No timer before its time

A timer asked for at `now` with a delay is due at the sum of the two, and so is one put back
by the flush at `now` whose callback asks for another interval.  `ztk_poller_do_delay` and
`flush_expired_timers` form this sum in a `uint64_t`, and the flush compares what is left of
it with its clock: a sum from 2^64 on has wrapped to a deadline long past.
-/

namespace Ztk.Poller

open Ztk.Lib TimerHeap

/-! ## The machine with its dates -/

/-- A callback started at `now`, for a timer due at `due`. -/
structure Started where
  timer : Nat
  now : Nat
  due : Nat
deriving DecidableEq, Repr

/-- The timers of a poller, when they are due, and the callbacks started. -/
structure ClockState where
  s : TimerState
  due : Nat → Nat
  started : List Started

/-- After `ztk_poller_task_init`. -/
def ClockState.start (tasks : TaskPoller TimerTask) (timerMtx : Bool) : ClockState :=
  ⟨.start tasks timerMtx, fun _ => 0, []⟩

/-- The callback a step starts. -/
def ClockState.starting (c : ClockState) (a : TimerAct) : List Started :=
  ((fires c.s a).map fun f => ⟨f.1, f.2, c.due f.1⟩).toList

/-- One step. -/
def ClockState.step (c : ClockState) (a : TimerAct) : Option ClockState :=
  (timerMachine.step c.s a).map fun s => ⟨s, dueAfter c.s c.due a, c.started ++ c.starting a⟩

/-- The timers of a poller with their dates as a machine. -/
def clockMachine : Machine ClockState TimerAct := ⟨ClockState.step⟩

/-- No callback was started before its timer was due. -/
def NeverEarly (c : ClockState) : Prop := ∀ x ∈ c.started, x.due ≤ x.now

/-- The clock of a flush is a `uint64_t`. -/
def ClockFits : TimerAct → Prop
  | .flush now => now < 2 ^ 64
  | _ => True

/-- The timer whose callback the step starts is due before 2^64. -/
def FiresUnwrapped (c : ClockState) (a : TimerAct) : Prop :=
  ∀ f, fires c.s a = some f → c.due f.1 < 2 ^ 64

/-- The sum a step forms, if any, is below 2^64. -/
def SumFits (c : ClockState) : TimerAct → Prop
  | .doDelay env _ delayMs => env.nowMs + delayMs < 2 ^ 64
  | .cbReturn _ nextMs => ∀ f, c.s.firing = some f → f.2 + nextMs < 2 ^ 64
  | _ => True

instance decidableNeverEarly (c : ClockState) : Decidable (NeverEarly c) :=
  inferInstanceAs (Decidable (∀ x ∈ c.started, _))

instance decidableFiresUnwrapped (c : ClockState) (a : TimerAct) :
    Decidable (FiresUnwrapped c a) :=
  match h : fires c.s a with
  | none => isTrue fun f hf => by rw [h] at hf; cases hf
  | some f => decidable_of_iff (c.due f.1 < 2 ^ 64)
      ⟨fun hlt g hg => by rw [h] at hg; cases hg; exact hlt, fun hall => hall f h⟩

/-! ## A step -/

/-- Every step keeps the timers on their dates. -/
theorem ClockState.step_dates {c d : ClockState} {a : TimerAct} (h : Dates c.due c.s)
    (hs : clockMachine.step c a = some d) : Dates d.due d.s := by
  obtain ⟨u, hu, rfl⟩ := Option.map_eq_some_iff.mp hs
  exact h.step hu

/-- What is started was in the array, with its deadline past. -/
theorem fires_due {due : Nat → Nat} {s : TimerState} {a : TimerAct} {f : Nat × Nat}
    (h : Dates due s) (hf : fires s a = some f) :
    a = .flush f.2 ∧ due f.1 % 2 ^ 64 ≤ f.2 := by
  rw [← (h.dated.member _ (fires_mem hf)).2]
  cases a with
  | flush now =>
      simp only [fires] at hf
      split at hf
      · next hcond =>
          cases hf
          exact ⟨rfl, hcond.2.1⟩
      · cases hf
  | bind | doDelay | cancel | cancelPost | drain | next | cbReturn | timerFini => cases hf

/-- A callback is started in time exactly when its sum has not wrapped. -/
theorem ClockState.step_early_iff {c d : ClockState} {a : TimerAct} (h : Dates c.due c.s)
    (hclock : ClockFits a) (hc : NeverEarly c) (hs : clockMachine.step c a = some d) :
    NeverEarly d ↔ FiresUnwrapped c a := by
  obtain ⟨u, hu, rfl⟩ := Option.map_eq_some_iff.mp hs
  have hold : ∀ x ∈ c.started, x.due ≤ x.now := hc
  simp only [NeverEarly, FiresUnwrapped, List.mem_append, starting]
  cases hf : fires c.s a with
  | none =>
      refine iff_of_true (fun x hx => hold x ?_) fun f he => by cases he
      exact hx.resolve_right List.not_mem_nil
  | some f =>
      obtain ⟨rfl, hpast⟩ := fires_due h hf
      have hnow : f.2 < 2 ^ 64 := hclock
      have hiff : c.due f.1 ≤ f.2 ↔ c.due f.1 < 2 ^ 64 := by
        constructor
        · intro hle
          exact Nat.lt_of_le_of_lt hle hnow
        · intro hlt
          rwa [Nat.mod_eq_of_lt hlt] at hpast
      constructor
      · intro hall g hg
        cases hg
        exact hiff.mp (hall ⟨f.1, f.2, c.due f.1⟩ (.inr List.mem_cons_self))
      · rintro hlt x (hx | hx)
        · exact hold x hx
        · cases List.mem_singleton.mp hx
          exact hiff.mpr (hlt f rfl)

/-- Where no sum wraps, every timer is due before 2^64. -/
theorem dueAfter_lt {c : ClockState} {a : TimerAct} (hdue : ∀ t, c.due t < 2 ^ 64)
    (hsum : SumFits c a) (t : Nat) : dueAfter c.s c.due a t < 2 ^ 64 := by
  have hset : ∀ {v x : Nat}, x < 2 ^ 64 → Function.update c.due v x t < 2 ^ 64 := by
    intro v x hx
    by_cases htv : t = v
    · rw [htv, Function.update_self]
      exact hx
    · rw [Function.update_of_ne htv]
      exact hdue t
  cases a with
  | doDelay env cb delayMs => exact hset hsum
  | cbReturn realloc nextMs =>
      cases hf : c.s.firing with
      | none =>
          simp only [dueAfter, hf]
          exact hdue t
      | some f =>
          simp only [dueAfter, hf]
          split
          · exact hset (hsum f hf)
          · exact hdue t
  | bind | cancel | cancelPost | drain | next | flush | timerFini => exact hdue t

/-! ## Runs -/

/-- A run starts no callback early exactly when none of those it starts is of a timer due
from 2^64 on; and it forms no such sum where clock and interval stay below 2^64. -/
theorem timer_early_iff (tasks : TaskPoller TimerTask) (timerMtx : Bool) (as : List TimerAct)
    (c : ClockState) (hclock : ∀ a ∈ as, ClockFits a)
    (hrun : clockMachine.run (.start tasks timerMtx) as = some c) :
    (clockMachine.Throughout NeverEarly (.start tasks timerMtx) as ↔
      clockMachine.RunMeets FiresUnwrapped (.start tasks timerMtx) as) ∧
    (clockMachine.RunMeets SumFits (.start tasks timerMtx) as →
      clockMachine.Throughout NeverEarly (.start tasks timerMtx) as) := by
  have hiff := Machine.throughout_iff (M := clockMachine) (D := fun _ a => ClockFits a)
    (I := fun c => Dates c.due c.s)
    (fun _ _ _ hi _ hs => ClockState.step_dates hi hs)
    (fun _ _ _ hi hd hp hs => ClockState.step_early_iff hi hd hp hs)
    as (.start tasks timerMtx) c (Dates.start _ tasks timerMtx) (fun x hx => by cases hx)
    (Machine.runMeets_of_forall _ hclock) hrun
  refine ⟨hiff, fun hsum => hiff.mpr ?_⟩
  refine Machine.runMeets_imp (J := fun c => ∀ t, c.due t < 2 ^ 64) ?_ ?_ as _
    (fun _ => Nat.two_pow_pos 64) hsum
  · intro c a d hdue ha hs
    obtain ⟨u, -, rfl⟩ := Option.map_eq_some_iff.mp hs
    exact dueAfter_lt hdue ha
  · intro c a hdue _ f _
    exact hdue f.1

/-- A poller owned by thread 1. -/
def ownedTasks : TaskPoller TimerTask := ⟨true, Chain.empty, 1, 4, 0⟩

/-- A call of the owner, where memory can be had. -/
def ownerCall (nowMs : Nat) : DelayEnv := ⟨⟨1, true, .ok⟩, nowMs, true, true, true⟩

/-- A timer asked for at 10 with 5 ms, called at 15 and again 5 ms later. -/
def fiveMs : List TimerAct :=
  [.doDelay (ownerCall 10) true 5, .flush 15, .cbReturn true 5, .flush 19, .flush 20,
    .cbReturn true 0]

theorem timer_in_time : ∃ c, clockMachine.run (.start ownedTasks true) fiveMs = some c ∧
    c.started = [⟨0, 15, 15⟩, ⟨0, 20, 20⟩] ∧
    clockMachine.Throughout NeverEarly (.start ownedTasks true) fiveMs := by
  have hrun : ∃ c, clockMachine.run (.start ownedTasks true) fiveMs = some c ∧
      c.started = [⟨0, 15, 15⟩, ⟨0, 20, 20⟩] := Machine.exists_run (by decide +kernel)
  obtain ⟨c, hc, hstarted⟩ := hrun
  have hclock : ∀ a ∈ fiveMs, ClockFits a := by
    simp [fiveMs, ClockFits]
  refine ⟨c, hc, hstarted, (timer_early_iff ownedTasks true fiveMs c hclock hc).1.mpr ?_⟩
  decide +kernel

/-- A delay meant as for ever. -/
def forEver : Nat := 2 ^ 64 - 1

/-- Asked for at 10, the delay is over at 10.  A callback that returns it runs again in the
flush that called it. -/
theorem timer_fires_early :
    (∃ c, clockMachine.run (.start ownedTasks true)
      [.doDelay (ownerCall 10) true forEver, .flush 10] = some c ∧ ¬ NeverEarly c) ∧
    ∃ c, clockMachine.run (.start ownedTasks true)
      [.doDelay (ownerCall 10) true 0, .flush 10, .cbReturn true forEver, .flush 10] = some c ∧
      ¬ NeverEarly c :=
  ⟨Machine.exists_run (by decide +kernel), Machine.exists_run (by decide +kernel)⟩

end Ztk.Poller
