import Mathlib

/-!
# Mixing words

Steps of a hash function that lose nothing, and what a hash function that loses nothing does to
the residues of its values.
-/

namespace Ztk.Lib

/-- `x ^= x >> n`. -/
def xorShift {w : Nat} (n : Nat) (x : BitVec w) : BitVec w := x ^^^ (x >>> n)

/-- A shift by half of the word, or more, is undone by itself. -/
theorem xorShift_involutive {w n : Nat} (h : w ≤ n + n) :
    Function.Involutive (xorShift n : BitVec w → BitVec w) := by
  intro x
  have hzero : x >>> (n + n) = 0#w := BitVec.ushiftRight_eq_zero h
  rw [xorShift, xorShift, BitVec.ushiftRight_xor_distrib, ← BitVec.shiftRight_add, hzero,
    BitVec.xor_zero, BitVec.xor_assoc, BitVec.xor_self, BitVec.xor_zero]

/-- Multiplication by a unit loses nothing. -/
theorem mul_unit_bijective {w : Nat} {a b : BitVec w} (h : a * b = 1) :
    Function.Bijective fun x : BitVec w => x * a := by
  refine Function.bijective_iff_has_inverse.mpr ⟨fun x => x * b, fun x => ?_, fun x => ?_⟩
  · simp only [BitVec.mul_assoc]
    rw [h]
    exact BitVec.mul_one x
  · simp only [BitVec.mul_assoc]
    rw [BitVec.mul_comm b a, h]
    exact BitVec.mul_one x

/-- As many words are mapped to a residue as have it themselves. -/
theorem card_residue {w : Nat} {f : BitVec w → BitVec w} (hf : f.Bijective) {m : Nat} (i : Nat) :
    Nat.card {x : BitVec w // (f x).toNat % m = i} =
      (2 ^ w).count fun y => y % m = i := by
  have hmove : {x : BitVec w // (f x).toNat % m = i} ≃ {y : Fin (2 ^ w) // y.val % m = i} :=
    ((Equiv.ofBijective f hf).trans BitVec.equivFin.toEquiv).subtypeEquiv fun _ => Iff.rfl
  have hrange : {y : Fin (2 ^ w) // y.val % m = i} ≃
      {y // y ∈ (Finset.range (2 ^ w)).filter fun y => y % m = i} :=
    { toFun := fun y => ⟨y.1, Finset.mem_filter.mpr ⟨Finset.mem_range.mpr y.1.isLt, y.2⟩⟩
      invFun := fun y => ⟨⟨y.1, Finset.mem_range.mp (Finset.mem_filter.mp y.2).1⟩,
        (Finset.mem_filter.mp y.2).2⟩
      left_inv := fun _ => rfl
      right_inv := fun _ => rfl }
  rw [Nat.card_congr (hmove.trans hrange), Nat.card_eq_fintype_card, Fintype.card_coe,
    Nat.count_eq_card_filter_range]

end Ztk.Lib
