import Mathlib

/-!
# Sets of flags in a machine word

A word is the set of its bits.  Two words share a bit where their conjunction is not zero,
and one covers another where nothing is left of it outside.
-/

namespace Ztk.Lib

variable {w : Nat} {a b c : BitVec w}

/-- The words have a flag in common. -/
def Shares (a b : BitVec w) : Prop := a &&& b ≠ 0

instance (a b : BitVec w) : Decidable (Shares a b) := inferInstanceAs (Decidable (_ ≠ _))

/-- Every flag of the first word is one of the second. -/
def Covered (a b : BitVec w) : Prop := a &&& ~~~b = 0

instance (a b : BitVec w) : Decidable (Covered a b) := inferInstanceAs (Decidable (_ = _))

theorem bitVec_eq_zero_iff : a = 0 ↔ ∀ i, a.getLsbD i = false := by
  constructor
  · rintro rfl i
    exact BitVec.getLsbD_zero
  · intro h
    exact BitVec.eq_of_getLsbD_eq fun i _ => (h i).trans BitVec.getLsbD_zero.symm

theorem shares_iff : Shares a b ↔ ∃ i, a.getLsbD i = true ∧ b.getLsbD i = true := by
  rw [Shares, Ne, bitVec_eq_zero_iff, not_forall]
  refine exists_congr fun i => ?_
  rw [BitVec.getLsbD_and, Bool.not_eq_false, Bool.and_eq_true]

theorem covered_iff : Covered a b ↔ ∀ i, a.getLsbD i = true → b.getLsbD i = true := by
  rw [Covered, bitVec_eq_zero_iff]
  refine forall_congr' fun i => ?_
  rw [BitVec.getLsbD_and]
  cases ha : a.getLsbD i with
  | false => simp
  | true =>
      have hi : i < w := BitVec.lt_of_getLsbD ha
      simp [hi]

theorem shares_comm : Shares a b ↔ Shares b a := by
  rw [Shares, Shares, BitVec.and_comm]

theorem shares_or : Shares (a ||| b) c ↔ Shares a c ∨ Shares b c := by
  simp only [shares_iff, BitVec.getLsbD_or, Bool.or_eq_true, or_and_right, exists_or]

theorem shares_or_right : Shares c (a ||| b) ↔ Shares c a ∨ Shares c b := by
  rw [shares_comm, shares_or, shares_comm, shares_comm (a := b)]

theorem not_shares_zero : ¬ Shares 0 a := fun h => h BitVec.zero_and

theorem shares_ite {p : Prop} [Decidable p] : Shares (if p then a else 0) b ↔ p ∧ Shares a b := by
  by_cases h : p
  · rw [if_pos h, and_iff_right h]
  · rw [if_neg h]
    exact iff_of_false not_shares_zero fun hp => h hp.1

theorem shares_ite_right {p : Prop} [Decidable p] :
    Shares b (if p then a else 0) ↔ p ∧ Shares b a := by
  rw [shares_comm, shares_ite, shares_comm]

/-- Flags outside of what is looked for make no difference. -/
theorem shares_and (h : c &&& b = b) : Shares (a &&& c) b ↔ Shares a b := by
  rw [Shares, Shares, BitVec.and_assoc, h]

/-- Nothing is left of a word without its own flags. -/
theorem not_shares_compl : ¬ Shares (a &&& ~~~b) b := by
  rw [shares_iff]
  rintro ⟨i, ha, hb⟩
  rw [BitVec.getLsbD_and, BitVec.getLsbD_not, hb] at ha
  simp at ha

theorem Shares.mono (h : Shares a c) (hab : Covered a b) : Shares b c := by
  obtain ⟨i, ha, hc⟩ := shares_iff.mp h
  exact shares_iff.mpr ⟨i, covered_iff.mp hab i ha, hc⟩

theorem Covered.refl : Covered a a := covered_iff.mpr fun _ h => h

theorem Covered.trans (h : Covered a b) (h' : Covered b c) : Covered a c :=
  covered_iff.mpr fun i hi => covered_iff.mp h' i (covered_iff.mp h i hi)

theorem Covered.or (h : Covered a b) {d : BitVec w} (h' : Covered c d) :
    Covered (a ||| c) (b ||| d) := by
  rw [covered_iff] at h h' ⊢
  intro i hi
  rw [BitVec.getLsbD_or, Bool.or_eq_true] at hi ⊢
  exact hi.imp (h i) (h' i)

/-- A flag that depends on a condition. -/
theorem Covered.ite {p q : Prop} [Decidable p] [Decidable q] (h : p → q) :
    Covered (if p then a else 0) (if q then a else 0) := by
  by_cases hp : p
  · rw [if_pos hp, if_pos (h hp)]
    exact .refl
  · rw [if_neg hp]
    exact BitVec.zero_and

/-- What a word leaves of another is a part of it. -/
theorem covered_and_right : Covered (a &&& b) b :=
  covered_iff.mpr fun i hi => by
    rw [BitVec.getLsbD_and, Bool.and_eq_true] at hi
    exact hi.2

end Ztk.Lib
