import Ztk.Util.ByteBuf

/-!
# Appends of any length

`ztk_byte_buf_append` adds, adds one and doubles in a `size_t` of `w` bits, and looks at
none of the results for a wrap.  The loop stops at the first product, modulo `2 ^ w`,
that is large enough (`growCap_isSome_iff`).  Where there is none it never stops, and a
sum that wraps makes the copy leave the block.
-/

namespace Ztk.Util.ByteBuf

open Ztk.Lib

variable {b b' : ByteBuf} {w len : Nat} {data : Option (List UInt8)}
  {realloc : Option (Nat → UInt8)}

/-! ## The loop -/

theorem double_mod (cap k : Nat) :
    cap * 2 % 2 ^ w * 2 ^ k % 2 ^ w = cap * 2 ^ (k + 1) % 2 ^ w := by
  rw [Nat.mod_mul_mod, Nat.mul_assoc, ← Nat.pow_succ']

/-- With some fuel, the loop stops where one of its first products is large enough. -/
theorem growCap_isSome_fuel {needCap : Nat} : ∀ {fuel cap : Nat}, cap < 2 ^ w →
    ((∃ cap', growCap w fuel cap needCap = some cap') ↔
      ∃ k < fuel, needCap ≤ cap * 2 ^ k % 2 ^ w)
  | 0, cap, _ => by
      refine iff_of_false ?_ ?_
      · rintro ⟨cap', h⟩
        cases h
      · rintro ⟨k, hk, -⟩
        exact absurd hk (Nat.not_lt_zero k)
  | fuel + 1, cap, hcap => by
      have hzero : cap * 2 ^ 0 % 2 ^ w = cap := by
        rw [Nat.pow_zero, Nat.mul_one, Nat.mod_eq_of_lt hcap]
      rw [growCap]
      by_cases hlt : cap < needCap
      · rw [if_pos hlt, growCap_isSome_fuel (Nat.mod_lt _ (Nat.two_pow_pos w))]
        constructor
        · rintro ⟨k, hk, hle⟩
          rw [double_mod] at hle
          exact ⟨k + 1, Nat.succ_lt_succ hk, hle⟩
        · rintro ⟨k, hk, hle⟩
          cases k with
          | zero =>
              rw [hzero] at hle
              exact absurd hlt (Nat.not_lt.mpr hle)
          | succ k =>
              refine ⟨k, Nat.lt_of_succ_lt_succ hk, ?_⟩
              rwa [double_mod]
      · rw [if_neg hlt]
        refine iff_of_true ⟨cap, rfl⟩ ⟨0, Nat.succ_pos _, ?_⟩
        rw [hzero]
        exact Nat.not_lt.mp hlt

/-- The loop stops exactly where one of its products is large enough. -/
theorem growCap_isSome_iff {cap needCap : Nat} (hcap : cap < 2 ^ w) :
    (∃ cap', growCap w (w + 1) cap needCap = some cap') ↔
      ∃ k, needCap ≤ cap * 2 ^ k % 2 ^ w := by
  rw [growCap_isSome_fuel hcap]
  constructor
  · rintro ⟨k, -, hle⟩
    exact ⟨k, hle⟩
  · rintro ⟨k, hle⟩
    by_cases hk : k < w + 1
    · exact ⟨k, hk, hle⟩
    · -- all products from here on are zero
      have hdvd : 2 ^ w ∣ cap * 2 ^ k :=
        Dvd.dvd.mul_left (Nat.pow_dvd_pow 2 (by omega)) cap
      rw [Nat.mod_eq_zero_of_dvd hdvd] at hle
      exact ⟨0, Nat.succ_pos _, hle.trans (Nat.zero_le _)⟩

/-! ## What an append may do -/

/-- An append ends.  Where it succeeds the size grows by `len` and stays below the
capacity, which is the size of the block; where it fails nothing changes, and it fails
where the size and the terminator have no `size_t`. -/
def AppendSafe (w : Nat) (b : ByteBuf) (data : Option (List UInt8)) (len : Nat)
    (realloc : Option (Nat → UInt8)) : Prop :=
  ∃ err b', b.append w data len realloc = some (err, b') ∧
    (err = .ok → b'.size = b.size + len ∧ b'.size < b'.capacity ∧
      b'.mem.length = b'.capacity) ∧
    (err ≠ .ok → b' = b) ∧ (2 ^ w ≤ b.size + len + 1 → err ≠ .ok)

/-- The arguments of a call: the sizes have a `size_t`, the block has the size that the
buffer says, and the bytes that the caller passes are there. -/
structure Callable (w : Nat) (b : ByteBuf) (data : Option (List UInt8)) (len : Nat) : Prop where
  size_le : b.size ≤ b.capacity
  mem_length : b.mem.length = b.capacity
  capacity_lt : b.capacity < 2 ^ w
  start_lt : 64 < 2 ^ w
  len_lt : len < 2 ^ w
  readable : ∀ l, data = some l → len ≤ l.length

theorem Callable.growStart_lt (h : Callable w b data len) : b.growStart < 2 ^ w := by
  rw [growStart]
  split
  · exact h.capacity_lt
  · exact h.start_lt

/-- The end of an append, where the block has room. -/
theorem appendBytes_room {l : List UInt8} (hb : b.mem.length = b.capacity)
    (hl : len ≤ l.length) (hroom : b.size + len + 1 ≤ b.capacity) :
    ∃ b', b.appendBytes l len (b.size + len) = some b' ∧ b'.size = b.size + len ∧
      b'.capacity = b.capacity ∧ b'.mem.length = b'.capacity := by
  obtain ⟨b', h⟩ := appendBytes_isSome hb hl hroom
  obtain ⟨m, m', -, hm, hm', rfl⟩ := appendBytes_some h
  refine ⟨_, h, rfl, rfl, ?_⟩
  exact (Block.length_of_write hm').trans ((Block.length_of_write hm).trans hb)

/-- The end of an append, where a sum has wrapped: the copy or the terminator leaves the
block. -/
theorem appendBytes_wrapped {l : List UInt8} (hb : b.mem.length = b.capacity)
    (hl : len ≤ l.length) {n : Nat} (hfar : b.capacity < b.size + len ∨ b.capacity ≤ n) :
    b.appendBytes l len n = none := by
  by_contra hne
  obtain ⟨b', h⟩ := Option.ne_none_iff_exists'.mp hne
  obtain ⟨m, m', -, hm, hm', -⟩ := appendBytes_some h
  have hcopy := (Block.write_eq_some hm).1
  have hnul := (Block.write_eq_some hm').1
  rw [List.length_take_of_le hl, hb] at hcopy
  rw [List.length_singleton, Block.length_of_write hm, hb] at hnul
  omega

/-- An append of some bytes. -/
theorem append_bytes_eq {l : List UInt8} (hlen : len ≠ 0) :
    b.append w (some l) len realloc =
      if b.capacity < ((b.size + len) % 2 ^ w + 1) % 2 ^ w then
        (growCap w (w + 1) b.growStart (((b.size + len) % 2 ^ w + 1) % 2 ^ w)).bind fun cap =>
          match b.reserve cap realloc with
          | (.ok, b') => (b'.appendBytes l len ((b.size + len) % 2 ^ w)).map fun b'' => (.ok, b'')
          | (err, b') => some (err, b')
      else (b.appendBytes l len ((b.size + len) % 2 ^ w)).map fun b' => (.ok, b') := by
  rw [append, if_neg (fun h => Bool.false_ne_true h.1), if_neg hlen]
  rfl

/-- Where the new size or the terminator has no `size_t`, the call writes outside the
block. -/
theorem append_wrapped {l : List UInt8} (h : Callable w b (some l) len) (hlen : len ≠ 0)
    (hwrap : 2 ^ w ≤ b.size + len + 1) : b.append w (some l) len realloc = none := by
  have hsize := h.size_le
  have hcap := h.capacity_lt
  have hlt := h.len_lt
  have hl := h.readable l rfl
  rw [append_bytes_eq hlen]
  by_cases hsum : b.size + len < 2 ^ w
  · -- the terminator is at the last `size_t`, and the needed capacity wraps to zero
    have hlast : b.size + len + 1 = 2 ^ w := by omega
    rw [Nat.mod_eq_of_lt hsum, hlast, Nat.mod_self, if_neg (Nat.not_lt_zero _),
      appendBytes_wrapped h.mem_length hl (Or.inr (by omega))]
    rfl
  · -- the new size wraps below the old one
    have hmod : (b.size + len) % 2 ^ w = b.size + len - 2 ^ w := by
      rw [Nat.mod_eq_sub_mod (Nat.not_lt.mp hsum), Nat.mod_eq_of_lt (by omega)]
    have hneed : (b.size + len - 2 ^ w + 1) % 2 ^ w = b.size + len - 2 ^ w + 1 :=
      Nat.mod_eq_of_lt (by omega)
    rw [hmod, hneed, if_neg (by omega),
      appendBytes_wrapped h.mem_length hl (Or.inl (by omega))]
    rfl

/-- Where they have one, the call is safe exactly when the loop stops. -/
theorem append_safe_of_lt {l : List UInt8} (h : Callable w b (some l) len) (hlen : len ≠ 0)
    (hlt : b.size + len + 1 < 2 ^ w) :
    AppendSafe w b (some l) len realloc ↔
      ∃ k, b.size + len + 1 ≤ b.growStart * 2 ^ k % 2 ^ w := by
  have hl := h.readable l rfl
  have hsum : (b.size + len) % 2 ^ w = b.size + len := Nat.mod_eq_of_lt (by omega)
  have happ : b.append w (some l) len realloc = _ := append_bytes_eq hlen
  rw [hsum, Nat.mod_eq_of_lt hlt] at happ
  -- an append in a block that has room
  have hroom : ∀ b₁ : ByteBuf, b₁.mem.length = b₁.capacity → b₁.size = b.size →
      b.size + len + 1 ≤ b₁.capacity →
      b.append w (some l) len realloc =
        (b₁.appendBytes l len (b.size + len)).map (fun b' => (.ok, b')) →
      AppendSafe w b (some l) len realloc := by
    intro b₁ hmem hsize hcap heq
    rw [← hsize] at hcap heq
    obtain ⟨b', hb', hs, hc, hm⟩ := appendBytes_room hmem hl hcap
    rw [hb'] at heq
    refine ⟨.ok, b', heq, fun _ => ⟨?_, ?_, hm⟩, fun hne => absurd rfl hne, fun hge => ?_⟩
    · rw [hs, hsize]
    · rw [hs, hc]
      exact hcap
    · exact absurd hge (Nat.not_le.mpr hlt)
  by_cases hgrow : b.capacity < b.size + len + 1
  · rw [if_pos hgrow] at happ
    rw [← growCap_isSome_iff h.growStart_lt]
    constructor
    · rintro ⟨err, b', heq, -⟩
      rw [happ, Option.bind_eq_some_iff] at heq
      obtain ⟨cap, hcap, -⟩ := heq
      exact ⟨cap, hcap⟩
    · rintro ⟨cap, hcap⟩
      have hneed := growCap_some hcap
      rw [hcap, Option.bind_some] at happ
      rcases reserve_cases b cap realloc with ⟨hle, -⟩ | ⟨-, -, hr⟩ | ⟨fill, -, -, hr⟩
      · omega
      · rw [hr] at happ
        refine ⟨.nomem, b, happ, fun hok => ?_, fun _ => rfl, fun _ hok => ?_⟩
        · cases hok
        · cases hok
      · rw [hr] at happ
        exact hroom { b with data := some (Block.resize b.mem cap fill), capacity := cap }
          (Block.length_resize _ _ _) rfl hneed happ
  · rw [if_neg hgrow] at happ
    refine iff_of_true (hroom b h.mem_length rfl (Nat.not_lt.mp hgrow) happ) ⟨0, ?_⟩
    have hcap : b.growStart = b.capacity := if_pos (by omega)
    rw [Nat.pow_zero, Nat.mul_one, Nat.mod_eq_of_lt h.growStart_lt, hcap]
    exact Nat.not_lt.mp hgrow

/-- An append is safe exactly when it has nothing to do and there is room for a
terminator, or it has no data, or doubling the capacity reaches the size that it needs
before the product leaves `size_t` for good. -/
theorem append_safe_iff (h : Callable w b data len) (realloc : Option (Nat → UInt8)) :
    AppendSafe w b data len realloc ↔
      (len = 0 ∧ b.size < b.capacity) ∨
        (len ≠ 0 ∧
          (data = none ∨ ∃ k, b.size + len + 1 ≤ b.growStart * 2 ^ k % 2 ^ w)) := by
  by_cases hlen : len = 0
  · subst hlen
    have heq : b.append w data 0 realloc = some (.ok, b) := by
      rw [append, if_neg (fun h => h.2 rfl), if_pos rfl]
    constructor
    · rintro ⟨err, b', hb', hok, -⟩
      rw [heq] at hb'
      cases hb'
      exact Or.inl ⟨rfl, (hok rfl).2.1⟩
    · rintro (⟨-, hlt⟩ | ⟨hne, -⟩)
      · have hcap := h.capacity_lt
        exact ⟨.ok, b, heq, fun _ => ⟨rfl, hlt, h.mem_length⟩, fun _ => rfl,
          fun hge => by omega⟩
      · exact absurd rfl hne
  · cases data with
    | none =>
        refine iff_of_true ⟨.invalid, b, ?_, fun hok => ?_, fun _ => rfl, fun _ hok => ?_⟩
          (Or.inr ⟨hlen, Or.inl rfl⟩)
        · rw [append, if_pos ⟨rfl, hlen⟩]
        · cases hok
        · cases hok
    | some l =>
        have hor : (len = 0 ∧ b.size < b.capacity) ∨ (len ≠ 0 ∧ ((some l) = none ∨
            ∃ k, b.size + len + 1 ≤ b.growStart * 2 ^ k % 2 ^ w)) ↔
            ∃ k, b.size + len + 1 ≤ b.growStart * 2 ^ k % 2 ^ w := by
          simp [hlen]
        rw [hor]
        by_cases hlt : b.size + len + 1 < 2 ^ w
        · exact append_safe_of_lt h hlen hlt
        · refine iff_of_false ?_ ?_
          · rintro ⟨err, b', hb', -⟩
            rw [append_wrapped h hlen (Nat.not_lt.mp hlt)] at hb'
            cases hb'
          · rintro ⟨k, hk⟩
            exact hlt (hk.trans_lt (Nat.mod_lt _ (Nat.two_pow_pos w)))

/-- An odd capacity of a `size_t` of 32 bits. -/
theorem append_safe_odd :
    AppendSafe 32 ⟨some [1, 2, 3], 3, 3⟩ (some [4, 5]) 2 (some fun _ => 0) := by
  have hcall : Callable 32 ⟨some [1, 2, 3], 3, 3⟩ (some [4, 5]) 2 :=
    ⟨by decide, rfl, by decide, by decide, by decide, fun l hl => by cases hl; decide⟩
  exact (append_safe_iff hcall _).mpr (Or.inr ⟨by decide, Or.inr ⟨1, by decide⟩⟩)

/-- The loop does not stop for half of the memory of a machine of 32 bits: 64 doubles to
`2 ^ 31`, which is too small, and then to zero. -/
theorem append_hangs :
    ¬ AppendSafe 32 ⟨none, 0, 0⟩ (some (List.replicate (2 ^ 31) 65)) (2 ^ 31) none := by
  rintro ⟨err, b', hb', -⟩
  have hgrow : growCap 32 33 64 (((0 + 2 ^ 31) % 2 ^ 32 + 1) % 2 ^ 32) = none := by
    decide +kernel
  rw [append_bytes_eq (by decide), if_pos (by decide), growStart, if_neg (by decide), hgrow] at hb'
  cases hb'

end Ztk.Util.ByteBuf
