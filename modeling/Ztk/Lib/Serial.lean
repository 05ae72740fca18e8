import Mathlib

/-!
# Objects that are called one call at a time

An object answers each call and goes to its next state, or it does not return.  A run of
calls records every call with its answer.

*Simulation.*  Where each call of one object is answered by another from related states
with the same answer, the runs of both record the same (`Simulates.run`).

*Silence.*  Calls that leave the state related to what it was before can be put anywhere
into a run: the record of the other calls stays the same (`Silent.run`).
-/

namespace Ztk.Lib

/-- A call takes a state to the next one, with an answer, if it returns. -/
structure Serial (σ ι ο : Type) where
  call : σ → ι → Option (σ × ο)

namespace Serial

variable {σ τ ι ο : Type} {O : Serial σ ι ο} {P : Serial τ ι ο}

/-- The state after a list of calls, and each call with its answer. -/
def run (O : Serial σ ι ο) : σ → List ι → Option (σ × List (ι × ο))
  | s, [] => some (s, [])
  | s, a :: as =>
      (O.call s a).bind fun r => (O.run r.1 as).map fun q => (q.1, (a, r.2) :: q.2)

theorem run_cons {s u : σ} {a : ι} {as : List ι} {tr : List (ι × ο)} :
    O.run s (a :: as) = some (u, tr) ↔
      ∃ t o tr', O.call s a = some (t, o) ∧ O.run t as = some (u, tr') ∧ tr = (a, o) :: tr' := by
  rw [run, Option.bind_eq_some_iff]
  constructor
  · rintro ⟨⟨t, o⟩, hc, hr⟩
    obtain ⟨⟨v, tr'⟩, hrun, he⟩ := Option.map_eq_some_iff.mp hr
    cases he
    exact ⟨t, o, tr', hc, hrun, rfl⟩
  · rintro ⟨t, o, tr', hc, hrun, rfl⟩
    exact ⟨(t, o), hc, Option.map_eq_some_iff.mpr ⟨(u, tr'), hrun, rfl⟩⟩

/-! ## Simulation -/

/-- Every call that `P` answers is answered by `O` in the same way, and the states stay
related. -/
def Simulates (O : Serial σ ι ο) (P : Serial τ ι ο) (R : σ → τ → Prop) : Prop :=
  ∀ s t a t' o, R s t → P.call t a = some (t', o) → ∃ s', O.call s a = some (s', o) ∧ R s' t'

theorem Simulates.run {R : σ → τ → Prop} (h : O.Simulates P R) :
    ∀ {as : List ι} {s : σ} {t t' : τ} {tr : List (ι × ο)}, R s t → P.run t as = some (t', tr) →
      ∃ s', O.run s as = some (s', tr) ∧ R s' t' := by
  intro as
  induction as with
  | nil =>
      intro s t t' tr hr hrun
      cases hrun
      exact ⟨s, rfl, hr⟩
  | cons a as ih =>
      intro s t t' tr hr hrun
      obtain ⟨u, o, tr', hc, hrest, rfl⟩ := run_cons.mp hrun
      obtain ⟨v, hv, hvu⟩ := h _ _ _ _ _ hr hc
      obtain ⟨s', hs', hrel⟩ := ih hvu hrest
      exact ⟨s', run_cons.mpr ⟨v, o, tr', hv, hs', rfl⟩, hrel⟩

/-! ## Silence -/

/-- Calls of a kind leave a state related to what it was, and the other calls give the same
answer in related states. -/
structure Silent (O : Serial σ ι ο) (hidden : ι → Bool) (R : σ → σ → Prop) : Prop where
  skip : ∀ s t a t' o, R s t → hidden a = true → O.call t a = some (t', o) → R s t'
  agree : ∀ s t a t' o, R s t → hidden a = false → O.call t a = some (t', o) →
    ∃ s', O.call s a = some (s', o) ∧ R s' t'

/-- A run without the hidden calls records what is left of the record. -/
theorem Silent.run {hidden : ι → Bool} {R : σ → σ → Prop} (h : O.Silent hidden R) :
    ∀ {as : List ι} {s t t' : σ} {tr : List (ι × ο)}, R s t → O.run t as = some (t', tr) →
      ∃ s', O.run s (as.filter fun a => !hidden a) =
        some (s', tr.filter fun x => !hidden x.1) ∧ R s' t' := by
  intro as
  induction as with
  | nil =>
      intro s t t' tr hr hrun
      cases hrun
      exact ⟨s, rfl, hr⟩
  | cons a as ih =>
      intro s t t' tr hr hrun
      obtain ⟨u, o, tr', hc, hrest, rfl⟩ := run_cons.mp hrun
      cases ha : hidden a with
      | true =>
          obtain ⟨s', hs', hrel⟩ := ih (h.skip _ _ _ _ _ hr ha hc) hrest
          refine ⟨s', ?_, hrel⟩
          rw [List.filter_cons_of_neg (by simp [ha]), List.filter_cons_of_neg (by simp [ha])]
          exact hs'
      | false =>
          obtain ⟨v, hv, hvu⟩ := h.agree _ _ _ _ _ hr ha hc
          obtain ⟨s', hs', hrel⟩ := ih hvu hrest
          refine ⟨s', ?_, hrel⟩
          rw [List.filter_cons_of_pos (by simp [ha]), List.filter_cons_of_pos (by simp [ha])]
          exact run_cons.mpr ⟨v, o, _, hv, hs', rfl⟩

end Serial

end Ztk.Lib
