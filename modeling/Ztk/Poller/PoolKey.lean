import Ztk.Lib.Mixing
import Ztk.Poller.PoolPick

/-!
# The poller of a key

`ztk_poller_pool_get_by_key` of `poller_pool.c`, through which a server keeps all that belongs
to one key on one poller.  The key is hashed, and the hash is taken modulo the number of
pollers.
-/

namespace Ztk.Poller

open Ztk.Lib

/-- `ztk_hash_u64`. -/
def hashU64 (x : BitVec 64) : BitVec 64 :=
  let x := xorShift 33 x
  let x := x * 0xff51afd7ed558ccd
  let x := xorShift 33 x
  let x := x * 0xc4ceb9fe1a85ec53
  xorShift 33 x

/-- `ztk_poller_pool_get_by_key`. -/
def pollerPoolGetByKey (pool : PickPool) (key : BitVec 64) : Option Nat :=
  if pool.count = 0 then none else some ((hashU64 key).toNat % pool.count)

/-- Two keys have two hashes. -/
theorem hashU64_bijective : Function.Bijective hashU64 := by
  have hshift : Function.Bijective (xorShift 33 : BitVec 64 → BitVec 64) :=
    (xorShift_involutive (by decide)).bijective
  have hfirst : Function.Bijective fun x : BitVec 64 => x * 0xff51afd7ed558ccd :=
    mul_unit_bijective (b := 0x4f74430c22a54005) (by decide)
  have hsecond : Function.Bijective fun x : BitVec 64 => x * 0xc4ceb9fe1a85ec53 :=
    mul_unit_bijective (b := 0x9cb4b2f8129337db) (by decide)
  exact hshift.comp (hsecond.comp (hshift.comp (hfirst.comp hshift)))

/-- Every key has a poller of the pool, and no poller has more keys than another one, but for
one key. -/
theorem pool_keys_balanced (pool : PickPool) (hcount : 1 ≤ pool.count) :
    (∀ key, ∃ i < pool.count, pollerPoolGetByKey pool key = some i) ∧
      ∀ i < pool.count, Nat.card {key // pollerPoolGetByKey pool key = some i} =
        2 ^ 64 / pool.count + if i < 2 ^ 64 % pool.count then 1 else 0 := by
  have hpos : pool.count ≠ 0 := Nat.ne_of_gt hcount
  refine ⟨fun key => ⟨_, Nat.mod_lt _ hcount, if_neg hpos⟩, fun i hi => ?_⟩
  simp only [pollerPoolGetByKey, if_neg hpos, Option.some.injEq]
  rw [card_residue hashU64_bijective i]
  have hcongr := Nat.count_modEq_card (2 ^ 64) hcount i
  simp only [Nat.ModEq, Nat.mod_eq_of_lt hi] at hcongr
  exact hcongr

def threePollers : PickPool := ⟨3, 0, false, by decide⟩

theorem pool_keys_balanced_three :
    Nat.card {key // pollerPoolGetByKey threePollers key = some 0} = 6148914691236517206 :=
  ((pool_keys_balanced threePollers (by decide)).2 0 (by decide)).trans (by decide +kernel)

end Ztk.Poller
