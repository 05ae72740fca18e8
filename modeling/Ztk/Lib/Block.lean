import Mathlib

/-!
# Blocks of memory

A block is the list of what it holds.  `write` stores a list from an index on and is
undefined outside the block; `resize` is what `realloc` makes of a block, with `fill`
for the contents of the memory that is new.
-/

namespace Ztk.Lib.Block

variable {α : Type} {m m' : List α} {bs : List α} {i n : Nat}

/-- The block after `bs` is stored at `i`, unless that leaves the block. -/
def write (m : List α) (i : Nat) (bs : List α) : Option (List α) :=
  if i + bs.length ≤ m.length then some (m.take i ++ bs ++ m.drop (i + bs.length)) else none

/-- A block of `n` that starts like `m`. -/
def resize (m : List α) (n : Nat) (fill : Nat → α) : List α :=
  m.take n ++ (List.range' m.length (n - m.length)).map fill

theorem write_of_le (h : i + bs.length ≤ m.length) :
    write m i bs = some (m.take i ++ bs ++ m.drop (i + bs.length)) :=
  if_pos h

theorem write_eq_some (h : write m i bs = some m') :
    i + bs.length ≤ m.length ∧ m' = m.take i ++ bs ++ m.drop (i + bs.length) := by
  rw [write] at h
  split at h
  · next hle =>
    cases h
    exact ⟨hle, rfl⟩
  · cases h

theorem length_of_write (h : write m i bs = some m') : m'.length = m.length := by
  obtain ⟨hle, rfl⟩ := write_eq_some h
  rw [List.length_append, List.length_append, List.length_take, List.length_drop]
  omega

/-- What was stored follows what stood before it. -/
theorem take_of_write (h : write m i bs = some m') :
    m'.take (i + bs.length) = m.take i ++ bs := by
  obtain ⟨hle, rfl⟩ := write_eq_some h
  have hlen : (m.take i ++ bs).length = i + bs.length := by
    rw [List.length_append, List.length_take, Nat.min_eq_left (by omega)]
  rw [← hlen]
  exact List.take_left

/-- What stands before the index stays. -/
theorem take_of_write_le (h : write m i bs = some m') (hn : n ≤ i) : m'.take n = m.take n := by
  have htake := congrArg (List.take n) (take_of_write h)
  obtain ⟨hle, -⟩ := write_eq_some h
  have hlen : n ≤ (m.take i).length := by
    rw [List.length_take]
    omega
  rwa [List.take_take, Nat.min_eq_left (by omega), List.take_append_of_le_length hlen,
    List.take_take, Nat.min_eq_left hn] at htake

/-- One thing stored at an index is there. -/
theorem getElem?_of_write {a : α} (h : write m i [a] = some m') : m'[i]? = some a := by
  obtain ⟨hle, rfl⟩ := write_eq_some h
  rw [List.length_singleton] at hle
  have hlen : (m.take i).length = i := by
    rw [List.length_take, Nat.min_eq_left (by omega)]
  rw [List.append_assoc, List.singleton_append, List.getElem?_append_right (by omega), hlen,
    Nat.sub_self, List.getElem?_cons_zero]

@[simp] theorem length_resize (m : List α) (n : Nat) (fill : Nat → α) :
    (resize m n fill).length = n := by
  rw [resize, List.length_append, List.length_take, List.length_map, List.length_range']
  omega

theorem take_resize {k : Nat} (fill : Nat → α) (hk : k ≤ m.length) (hn : k ≤ n) :
    (resize m n fill).take k = m.take k := by
  have hlen : k ≤ (m.take n).length := by
    rw [List.length_take]
    omega
  rw [resize, List.take_append_of_le_length hlen, List.take_take, Nat.min_eq_left hn]

theorem getElem?_resize_of_lt (fill : Nat → α) (hm : i < m.length) (hn : i < n) :
    (resize m n fill)[i]? = m[i]? := by
  have hlen : i < (m.take n).length := by
    rw [List.length_take]
    omega
  rw [resize, List.getElem?_append_left hlen, List.getElem?_take_of_lt hn]

theorem getElem?_resize_of_le (fill : Nat → α) (hm : m.length ≤ i) (hn : i < n) :
    (resize m n fill)[i]? = some (fill i) := by
  have hlen : (m.take n).length = m.length := by
    rw [List.length_take]
    omega
  rw [resize, List.getElem?_append_right (by omega), hlen, List.getElem?_map,
    List.getElem?_range' (by omega), Option.map_some]
  congr 2
  omega

end Ztk.Lib.Block
