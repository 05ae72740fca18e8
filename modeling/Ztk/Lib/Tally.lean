import Mathlib

/-!
# Tallies over parties

A tally adds up a number for each of finitely many parties.  When one party changes,
the tally changes by what this party contributed; a tally of zeros and ones reaches
the number of the parties only if all contribute.
-/

namespace Ztk.Lib

variable {ι α : Type} [Fintype ι]

/-- One party changes. -/
theorem sum_update [DecidableEq ι] (ws : ι → α) (i : ι) (w : α) (f : α → Nat) :
    (∑ j, f (Function.update ws i w j)) + f (ws i) = (∑ j, f (ws j)) + f w := by
  have h₁ := Finset.add_sum_erase Finset.univ (fun j => f (Function.update ws i w j))
    (Finset.mem_univ i)
  have h₂ := Finset.add_sum_erase Finset.univ (fun j => f (ws j)) (Finset.mem_univ i)
  have h₃ : ∑ j ∈ Finset.univ.erase i, f (Function.update ws i w j) =
      ∑ j ∈ Finset.univ.erase i, f (ws j) := by
    refine Finset.sum_congr rfl fun j hj => ?_
    rw [Function.update_of_ne (Finset.ne_of_mem_erase hj)]
  simp only [Function.update_self] at h₁
  omega

/-- A party that contributes nothing is missing from the tally. -/
theorem sum_lt_card {f : ι → Nat} (hf : ∀ j, f j ≤ 1) {i : ι} (hi : f i = 0) :
    ∑ j, f j < Fintype.card ι := by
  have h : ∑ j, f j < ∑ _j : ι, 1 :=
    Finset.sum_lt_sum (fun j _ => hf j) ⟨i, Finset.mem_univ i, by rw [hi]; exact Nat.one_pos⟩
  rwa [Finset.sum_const, Finset.card_univ, smul_eq_mul, mul_one] at h

end Ztk.Lib
