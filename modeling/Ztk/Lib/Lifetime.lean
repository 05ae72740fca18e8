import Mathlib

/-!
# Lifetimes of heap objects

Objects are named by numbers and each is live or freed.  `Lifetime` records
which are freed, and whether a freed one was used or freed again since.  The
two flags never go back, so a run is free of such faults when its last state
is (`Lifetime.Sound`).

A program reports every use with `use` and every release with `free`; both are
total, since a program with a fault goes on running.
-/

namespace Ztk.Lib

/-- Which objects are freed, and the faults so far. -/
structure Lifetime where
  freed : Nat → Bool
  usedFreed : Bool
  freedTwice : Bool

namespace Lifetime

/-- Nothing is freed. -/
def start : Lifetime := ⟨fun _ => false, false, false⟩

/-- The object is not freed. -/
def Live (m : Lifetime) (t : Nat) : Prop := m.freed t = false

/-- No freed object was used, and none was freed again. -/
structure Sound (m : Lifetime) : Prop where
  usedFreed : m.usedFreed = false
  freedTwice : m.freedTwice = false

/-- Read or write an object. -/
def use (m : Lifetime) (t : Nat) : Lifetime :=
  { m with usedFreed := m.usedFreed || m.freed t }

/-- Read or write some objects. -/
def useAll (m : Lifetime) (ts : List Nat) : Lifetime := ts.foldl use m

/-- Free an object. -/
def free (m : Lifetime) (t : Nat) : Lifetime :=
  { m with freed := Function.update m.freed t true, freedTwice := m.freedTwice || m.freed t }

/-- Free some objects one after the other. -/
def freeAll (m : Lifetime) (ts : List Nat) : Lifetime := ts.foldl free m

theorem sound_start : start.Sound := ⟨rfl, rfl⟩

@[simp] theorem useAll_freed : ∀ (ts : List Nat) (m : Lifetime), (m.useAll ts).freed = m.freed
  | [], _ => rfl
  | t :: ts, m => useAll_freed ts (m.use t)

@[simp] theorem useAll_freedTwice :
    ∀ (ts : List Nat) (m : Lifetime), (m.useAll ts).freedTwice = m.freedTwice
  | [], _ => rfl
  | t :: ts, m => useAll_freedTwice ts (m.use t)

theorem Sound.use {m : Lifetime} (h : m.Sound) {t : Nat} (ht : m.Live t) : (m.use t).Sound := by
  refine ⟨?_, h.freedTwice⟩
  rw [Lifetime.use, h.usedFreed, Bool.false_or]
  exact ht

theorem Sound.useAll {ts : List Nat} {m : Lifetime} (h : m.Sound) (hl : ∀ t ∈ ts, m.Live t) :
    (m.useAll ts).Sound := by
  induction ts generalizing m with
  | nil => exact h
  | cons t ts ih =>
      exact ih (h.use (hl t List.mem_cons_self)) fun u hu => hl u (List.mem_cons_of_mem t hu)

theorem free_freed_iff {m : Lifetime} {t u : Nat} :
    (m.free t).freed u = true ↔ m.freed u = true ∨ u = t := by
  by_cases hut : u = t
  · rw [hut]
    exact iff_of_true (Function.update_self ..) (Or.inr rfl)
  · have hother : (m.free t).freed u = m.freed u := Function.update_of_ne hut ..
    rw [hother, or_iff_left hut]

/-- What is freed stays freed. -/
theorem free_freed {m : Lifetime} {t u : Nat} (h : m.freed u = true) :
    (m.free t).freed u = true :=
  free_freed_iff.mpr (Or.inl h)

theorem free_live {m : Lifetime} {t u : Nat} : (m.free t).Live u ↔ m.Live u ∧ u ≠ t := by
  by_cases h : u = t
  · simp [Live, free, h]
  · simp [Live, free, h]

theorem Sound.free {m : Lifetime} (h : m.Sound) {t : Nat} (ht : m.Live t) : (m.free t).Sound := by
  refine ⟨h.usedFreed, ?_⟩
  rw [Lifetime.free, h.freedTwice, Bool.false_or]
  exact ht

theorem freeAll_live : ∀ {ts : List Nat} {m : Lifetime} {u : Nat},
    (m.freeAll ts).Live u ↔ m.Live u ∧ u ∉ ts
  | [], m, u => by simp [freeAll]
  | t :: ts, m, u => by
      have ih : ((m.free t).freeAll ts).Live u ↔ (m.free t).Live u ∧ u ∉ ts := freeAll_live
      rw [free_live, and_assoc] at ih
      rw [List.mem_cons, not_or]
      exact ih

/-- Distinct live objects can be freed in any order. -/
theorem Sound.freeAll {ts : List Nat} {m : Lifetime} (h : m.Sound) (hn : ts.Nodup)
    (hl : ∀ t ∈ ts, m.Live t) : (m.freeAll ts).Sound := by
  induction ts generalizing m with
  | nil => exact h
  | cons t ts ih =>
      obtain ⟨htn, hn⟩ := List.nodup_cons.mp hn
      refine ih (h.free (hl t List.mem_cons_self)) hn fun u hu => free_live.mpr ?_
      exact ⟨hl u (List.mem_cons_of_mem t hu), fun he => htn (he ▸ hu)⟩

end Lifetime

end Ztk.Lib
