import Mathlib

/-!
# The least loaded poller of a pool

`ztk_poller_pool_get` of `poller_pool.c`.  Slots stand for their pollers, and the loads
stay as they are during the call.

The scan measures its steps from the best slot found so far, so finding a better one
moves the slots that are still to come: after a slot that lay `d` places behind the one
before it, the scan goes on `d + 1` places behind that slot.  What it can reach is
described by `Hop`.
-/

namespace Ztk.Poller

/-- `ztk_poller_pool`, as `ztk_poller_pool_get` sees it; `count` is an `unsigned`. -/
structure PickPool where
  count : Nat
  threadPos : Nat
  preferCurrent : Bool
  count_lt : count < 2 ^ 32
deriving DecidableEq

/-- The slot `i` places behind `pos`, in `unsigned` arithmetic. -/
def slotAfter (count pos i : Nat) : Nat := (pos + i) % 2 ^ 32 % count

/-- `find_current_poller`; `isCurrent` is `ztk_poller_is_current_thread`. -/
def findCurrentPoller (count : Nat) (isCurrent : Nat → Bool) : Option Nat :=
  (List.range count).find? isCurrent

/-- The variables of the scan. -/
structure PickScan where
  best : Nat
  minLoad : Nat
  pos : Nat
deriving DecidableEq

/-- The scan, with `n` iterations to go from `i`. -/
def pickScan (count : Nat) (load : Nat → Nat) : Nat → Nat → PickScan → PickScan
  | 0, _, s => s
  | n + 1, i, s =>
      let idx := slotAfter count s.pos i
      let s' := if load idx < s.minLoad then ⟨idx, load idx, idx⟩ else s
      if s'.minLoad = 0 then s' else pickScan count load n (i + 1) s'

/-- Where the scan starts. -/
def PickPool.startPos (pool : PickPool) : Nat :=
  if pool.count ≤ pool.threadPos then 0 else pool.threadPos

/-- `ztk_poller_pool_get`. -/
def pollerPoolGet (pool : PickPool) (preferCurrent : Bool) (isCurrent : Nat → Bool)
    (load : Nat → Nat) : Option Nat × PickPool :=
  if pool.count = 0 then (none, pool)
  else
    let current :=
      if preferCurrent && pool.preferCurrent then findCurrentPoller pool.count isCurrent else none
    match current with
    | some cur => (some cur, pool)
    | none =>
        let pos := pool.startPos
        let s := pickScan pool.count load pool.count 0 ⟨pos, load pos, pos⟩
        (some s.best, { pool with threadPos := (s.pos + 1) % 2 ^ 32 % pool.count })

/-! ## Hops -/

/-- From a slot that lay `d` places behind the one before it, to the nearest lighter slot
that lies farther behind it. -/
inductive Hop (count : Nat) (load : Nat → Nat) : Nat × Nat → Nat × Nat → Prop where
  | hop {o d e : Nat} : d < e → e < count → load (slotAfter count o e) < load o →
      (∀ k, d < k → k < e → load o ≤ load (slotAfter count o k)) →
      Hop count load (o, d) (slotAfter count o e, e)

/-- Slots on the way of hops from the start. -/
def Hops (count : Nat) (load : Nat → Nat) (start : Nat) (r : Nat × Nat) : Prop :=
  Relation.ReflTransGen (Hop count load) (start, 0) r

/-- No slot is lighter. -/
def Lightest (count : Nat) (load : Nat → Nat) (o : Nat) : Prop :=
  ∀ m < count, load o ≤ load m

/-- There is a lighter slot farther behind. -/
def GoesOn (count : Nat) (load : Nat → Nat) (o d : Nat) : Prop :=
  ∃ e, d < e ∧ e < count ∧ load (slotAfter count o e) < load o

variable {count : Nat} {load : Nat → Nat} {o d : Nat}

/-- A hop is possible where a lighter slot lies farther behind. -/
theorem GoesOn.hop (h : GoesOn count load o d) : ∃ r, Hop count load (o, d) r := by
  classical
  obtain ⟨hlt, hcount, hload⟩ := Nat.find_spec h
  refine ⟨_, .hop hlt hcount hload fun k hk hke => Nat.le_of_not_lt fun hlight => ?_⟩
  exact Nat.find_min h hke ⟨hk, Nat.lt_trans hke hcount, hlight⟩

theorem Hop.goesOn {r : Nat × Nat} (h : Hop count load (o, d) r) : GoesOn count load o d := by
  cases h with
  | hop hlt hcount hload _ => exact ⟨_, hlt, hcount, hload⟩

/-- There is one way to hop. -/
theorem Hop.rightUnique : Relator.RightUnique (Hop count load) := by
  intro a b c hb hc
  cases hb with
  | @hop o d e hlt hcount hload hfirst =>
    cases hc with
    | @hop _ _ e' hlt' hcount' hload' hfirst' =>
      rcases Nat.lt_trichotomy e e' with hee | rfl | hee
      · exact absurd hload (Nat.not_lt.mpr (hfirst' e hlt hee))
      · rfl
      · exact absurd hload' (Nat.not_lt.mpr (hfirst e' hlt' hee))

/-! ## The scan -/

/-- The scan has come to slot `o` by a hop of length `d`, and found nothing lighter in the
steps after that up to `i`. -/
structure Scanning (count : Nat) (load : Nat → Nat) (start i d : Nat) (s : PickScan) : Prop where
  best : s.best = s.pos
  minLoad : s.minLoad = load s.pos
  hops : Hops count load start (s.pos, d)
  passed : ∀ k, d < k → k < i → load s.pos ≤ load (slotAfter count s.pos k)

/-- The scan is over: there is nothing lighter, or nothing to come. -/
def Settled (count : Nat) (load : Nat → Nat) (start : Nat) (s : PickScan) : Prop :=
  s.best = s.pos ∧ ∃ d, Hops count load start (s.pos, d) ∧ ¬ GoesOn count load s.pos d

theorem Scanning.settled {start i : Nat} {s : PickScan} (h : Scanning count load start i d s)
    (hend : s.minLoad = 0 ∨ count ≤ i) : Settled count load start s := by
  refine ⟨h.best, d, h.hops, ?_⟩
  rintro ⟨e, hlt, hcount, hload⟩
  rcases hend with hzero | hle
  · rw [h.minLoad] at hzero
    omega
  · exact absurd hload (Nat.not_lt.mpr (h.passed e hlt (Nat.lt_of_lt_of_le hcount hle)))

/-- One iteration after the first. -/
theorem Scanning.next {start i : Nat} {s : PickScan} (h : Scanning count load start i d s)
    (hd : d < i) (hi : i < count) :
    ∃ d', d' < i + 1 ∧ Scanning count load start (i + 1) d'
      (if load (slotAfter count s.pos i) < s.minLoad then
        ⟨slotAfter count s.pos i, load (slotAfter count s.pos i), slotAfter count s.pos i⟩
      else s) := by
  have hmin := h.minLoad
  split
  · next hlight =>
    rw [hmin] at hlight
    refine ⟨i, Nat.lt_succ_self i, rfl, rfl, h.hops.tail (.hop hd hi hlight h.passed), ?_⟩
    intro k hk hki
    omega
  · next hheavy =>
    rw [hmin] at hheavy
    refine ⟨d, Nat.lt_succ_of_lt hd, h.best, hmin, h.hops, fun k hk hki => ?_⟩
    by_cases hki' : k = i
    · rw [hki']
      exact Nat.le_of_not_lt hheavy
    · exact h.passed k hk (by omega)

theorem pickScan_settled {start : Nat} : ∀ {n i d : Nat} {s : PickScan}, n + i = count → d < i →
    Scanning count load start i d s → Settled count load start (pickScan count load n i s)
  | 0, i, d, s, hn, _, h => h.settled (.inr (by omega))
  | n + 1, i, d, s, hn, hd, h => by
      obtain ⟨d', hd', hnext⟩ := h.next hd (by omega)
      rw [pickScan]
      generalize (if load (slotAfter count s.pos i) < s.minLoad then
        ⟨slotAfter count s.pos i, load (slotAfter count s.pos i), slotAfter count s.pos i⟩
        else s : PickScan) = s' at hnext ⊢
      split
      · next hzero => exact hnext.settled (.inl hzero)
      · exact pickScan_settled (by omega) hd' hnext

theorem slotAfter_zero (hpos : o < count) (hcount : count < 2 ^ 32) : slotAfter count o 0 = o := by
  rw [slotAfter, Nat.add_zero, Nat.mod_eq_of_lt (Nat.lt_trans hpos hcount), Nat.mod_eq_of_lt hpos]

/-- The first iteration looks at the slot it starts with. -/
theorem pickScan_start (hpos : o < count) (hcount : count < 2 ^ 32) :
    Settled count load o (pickScan count load count 0 ⟨o, load o, o⟩) := by
  obtain ⟨n, rfl⟩ : ∃ n, count = n + 1 := ⟨count - 1, by omega⟩
  have hstart : Scanning (n + 1) load o 1 0 ⟨o, load o, o⟩ :=
    ⟨rfl, rfl, .refl, fun k hk hk' => by omega⟩
  rw [pickScan]
  dsimp only
  rw [slotAfter_zero hpos hcount, if_neg (Nat.lt_irrefl _)]
  split
  · next hzero => exact hstart.settled (.inl hzero)
  · exact pickScan_settled rfl Nat.zero_lt_one hstart

/-! ## The choice -/

/-- Wherever the hops from a slot come to, either nothing is lighter or they go on. -/
def HopsToLightest (count : Nat) (load : Nat → Nat) (start : Nat) : Prop :=
  ∀ o d, Hops count load start (o, d) → Lightest count load o ∨ GoesOn count load o d

/-- What the scan settles on is lightest exactly when the hops go on until they come to a
lightest slot. -/
theorem Settled.lightest_iff {start : Nat} {s : PickScan} (h : Settled count load start s) :
    Lightest count load s.pos ↔ HopsToLightest count load start := by
  obtain ⟨-, d, hhops, hend⟩ := h
  constructor
  · intro hlight o e hoe
    rcases Relation.ReflTransGen.total_of_right_unique Hop.rightUnique hoe hhops with hto | hfrom
    · rcases hto.cases_head with heq | ⟨r, hop, -⟩
      · cases heq
        exact .inl hlight
      · exact .inr hop.goesOn
    · rcases hfrom.cases_head with heq | ⟨r, hop, -⟩
      · cases heq
        exact .inl hlight
      · exact absurd hop.goesOn hend
  · intro hall
    exact (hall s.pos d hhops).resolve_right hend

theorem PickPool.startPos_lt (pool : PickPool) (h : 0 < pool.count) :
    pool.startPos < pool.count := by
  rw [PickPool.startPos]
  split
  · exact h
  · next hlt => exact Nat.lt_of_not_le hlt

/-- A call that does not ask for the poller of the current thread returns a lightest slot,
and a position in the pool, exactly when the hops from the position it starts at come to
a lightest slot. -/
theorem pool_get_lightest_iff (pool : PickPool) (isCurrent : Nat → Bool) (load : Nat → Nat)
    (hcount : 1 ≤ pool.count) :
    (∃ best pool', pollerPoolGet pool false isCurrent load = (some best, pool') ∧
      Lightest pool.count load best ∧ pool'.threadPos < pool'.count) ↔
    HopsToLightest pool.count load pool.startPos := by
  have hsettled : Settled pool.count load pool.startPos _ :=
    pickScan_start (pool.startPos_lt hcount) pool.count_lt
  have hne : pool.count ≠ 0 := Nat.ne_of_gt hcount
  rw [pollerPoolGet, if_neg hne, Bool.false_and, if_neg Bool.false_ne_true]
  dsimp only
  rw [← hsettled.lightest_iff, hsettled.1]
  constructor
  · rintro ⟨best, pool', heq, hlight, -⟩
    cases heq
    exact hlight
  · intro hlight
    exact ⟨_, _, rfl, hlight, Nat.mod_lt _ hcount⟩

/-- Hops stay in the pool. -/
theorem hops_lt {start : Nat} (hstart : start < count) (h : Hops count load start (o, d)) :
    o < count := by
  rcases h.cases_tail with heq | ⟨r, -, hop⟩
  · cases heq
    exact hstart
  · cases hop with
    | hop _ _ _ _ => exact Nat.mod_lt _ (Nat.zero_lt_of_lt hstart)

theorem slotAfter_two (ho : o < 2) : slotAfter 2 o 1 = 1 - o := by
  rw [slotAfter]
  omega

/-- In a pool of at most two pollers the hops always come to a lightest slot. -/
theorem hopsToLightest_of_le_two {start : Nat} (hstart : start < count) (hcount : count ≤ 2) :
    HopsToLightest count load start := by
  intro o d h
  rcases h.cases_tail with heq | ⟨⟨o', d'⟩, hbefore, hop⟩
  · cases heq
    by_cases hlight : Lightest count load start
    · exact .inl hlight
    · rw [Lightest] at hlight
      push Not at hlight
      obtain ⟨m, hm, hload⟩ := hlight
      have hne : m ≠ start := by
        rintro rfl
        exact Nat.lt_irrefl _ hload
      obtain rfl : count = 2 := by omega
      have hother : slotAfter 2 start 1 = m := by
        rw [slotAfter_two hstart]
        omega
      exact .inr ⟨1, Nat.zero_lt_one, by decide, by rwa [hother]⟩
  · have ho' := hops_lt hstart hbefore
    cases hop with
    | hop hlt he hload _ =>
      obtain rfl : d = 1 := by omega
      obtain rfl : count = 2 := by omega
      refine .inl fun m hm => ?_
      have hother := slotAfter_two ho'
      by_cases hmo : m = o'
      · rw [hmo]
        exact Nat.le_of_lt hload
      · rw [hother, show m = 1 - o' by omega]

/-- Two pollers, the second one lighter. -/
theorem pool_get_lightest_two :
    ∃ best pool', pollerPoolGet ⟨2, 0, false, by decide⟩ false (fun _ => false)
        (fun i => if i = 0 then 50 else 40) = (some best, pool') ∧
      Lightest 2 (fun i => if i = 0 then 50 else 40) best ∧ pool'.threadPos < pool'.count :=
  (pool_get_lightest_iff ⟨2, 0, false, by decide⟩ (fun _ => false)
    (fun i => if i = 0 then 50 else 40) (by decide)).mpr
    (hopsToLightest_of_le_two (by decide) (by decide))

/-- Three pollers with loads 50, 40 and 30: the scan never looks at the last one. -/
theorem pool_get_skips_lightest :
    ∃ pool', pollerPoolGet ⟨3, 0, false, by decide⟩ false (fun _ => false)
        (fun i => 50 - 10 * i) = (some 1, pool') ∧
      ¬ Lightest 3 (fun i => 50 - 10 * i) 1 :=
  ⟨⟨3, 2, false, by decide⟩, by decide +kernel, fun h => absurd (h 2 (by decide)) (by decide)⟩

end Ztk.Poller
