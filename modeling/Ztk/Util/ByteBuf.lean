import Ztk.Err
import Ztk.Lib.Block
import Ztk.Lib.Machine

/-!
# Growable byte buffers

`byte_buf.c`.  The block behind `data` is modelled with everything it holds, the part
that nobody wrote included: `malloc` and `realloc` fail, or give memory whose new bytes
the caller of the model chooses.  Sizes are computed in a `size_t` of `w` bits.

A call that would read or write outside a block, or whose growth loop does not end, has
no result.
-/

namespace Ztk.Util

open Ztk.Lib

/-! ## The buffer -/

/-- `struct ztk_byte_buf`; no block is the null pointer. -/
structure ByteBuf where
  data : Option (List UInt8)
  size : Nat
  capacity : Nat
deriving DecidableEq

namespace ByteBuf

/-- The block, empty where there is none. -/
def mem (b : ByteBuf) : List UInt8 := b.data.getD []

/-- `ztk_byte_buf_create`. -/
def create (initialCapacity : Nat) (calloc : Bool) (malloc : Option (Nat → UInt8)) :
    Option ByteBuf :=
  if !calloc then none
  else if 0 < initialCapacity then
    match malloc with
    | none => none
    | some fill => some ⟨some (Block.resize [] initialCapacity fill), 0, initialCapacity⟩
  else some ⟨none, 0, 0⟩

/-- What `ztk_byte_buf_data` points to; the empty string literal where there is no
block. -/
def bufData (b : ByteBuf) : List UInt8 := b.data.getD [0]

/-- `ztk_byte_buf_reserve`. -/
def reserve (b : ByteBuf) (capacity : Nat) (realloc : Option (Nat → UInt8)) : Err × ByteBuf :=
  if capacity ≤ b.capacity then (.ok, b)
  else
    match realloc with
    | none => (.nomem, b)
    | some fill =>
        (.ok, { b with data := some (Block.resize b.mem capacity fill), capacity := capacity })

/-- The growth loop of `ztk_byte_buf_append`.  After `w` rounds the product is zero
modulo `2 ^ w` and stays so. -/
def growCap (w : Nat) : Nat → Nat → Nat → Option Nat
  | 0, _, _ => none
  | fuel + 1, cap, needCap =>
      if cap < needCap then growCap w fuel (cap * 2 % 2 ^ w) needCap else some cap

/-- The end of `ztk_byte_buf_append`: the copy, the new size and the terminator. -/
def appendBytes (b : ByteBuf) (data : List UInt8) (len newSize : Nat) : Option ByteBuf :=
  if data.length < len then none
  else
    (Block.write b.mem b.size (data.take len)).bind fun m =>
      (Block.write m newSize [0]).map fun m' => { b with data := some m', size := newSize }

/-- `ztk_byte_buf_append`, of `len` bytes at `data`. -/
def append (w : Nat) (b : ByteBuf) (data : Option (List UInt8)) (len : Nat)
    (realloc : Option (Nat → UInt8)) : Option (Err × ByteBuf) :=
  if data.isNone ∧ len ≠ 0 then some (.invalid, b)
  else if len = 0 then some (.ok, b)
  else
    let bytes := data.getD []
    let newSize := (b.size + len) % 2 ^ w
    let needCap := (newSize + 1) % 2 ^ w
    if b.capacity < needCap then
      (growCap w (w + 1) (if b.capacity ≠ 0 then b.capacity else 64) needCap).bind fun cap =>
        match b.reserve cap realloc with
        | (.ok, b') => (b'.appendBytes bytes len newSize).map fun b'' => (.ok, b'')
        | (err, b') => some (err, b')
    else (b.appendBytes bytes len newSize).map fun b' => (.ok, b')

/-- `b->data[b->size] = '\\0'`, where there is a block. -/
def terminate (b : ByteBuf) : Option ByteBuf :=
  match b.data with
  | none => some b
  | some m => (Block.write m b.size [0]).map fun m' => { b with data := some m' }

/-- `ztk_byte_buf_clear`. -/
def clear (b : ByteBuf) : Option ByteBuf := terminate { b with size := 0 }

/-- `ztk_byte_buf_erase_front`. -/
def eraseFront (b : ByteBuf) (n : Nat) : Option ByteBuf :=
  if n = 0 then some b
  else if b.size ≤ n then terminate { b with size := 0 }
  else
    (Block.write b.mem 0 ((b.mem.drop n).take (b.size - n))).bind fun m =>
      terminate { b with data := some m, size := b.size - n }

/-- The bytes that `data` and `size` describe. -/
def contents (b : ByteBuf) : List UInt8 := b.mem.take b.size

end ByteBuf

/-- A call on a buffer, with what `realloc` gives if it is called. -/
inductive ByteBufCall where
  | reserve (capacity : Nat) (realloc : Option (Nat → UInt8))
  | append (data : Option (List UInt8)) (len : Nat) (realloc : Option (Nat → UInt8))
  | clear
  | eraseFront (n : Nat)

namespace ByteBuf

/-- The result of a call and the buffer after it. -/
def call (w : Nat) (b : ByteBuf) : ByteBufCall → Option (Err × ByteBuf)
  | .reserve capacity realloc => some (b.reserve capacity realloc)
  | .append data len realloc => b.append w data len realloc
  | .clear => b.clear.map fun b' => (.ok, b')
  | .eraseFront n => (b.eraseFront n).map fun b' => (.ok, b')

/-! ## Well-formed buffers -/

/-- The block has the size the buffer says, and a byte to spare for the terminator. -/
structure WellFormed (b : ByteBuf) : Prop where
  mem_length : b.mem.length = b.capacity
  size_le : b.size ≤ b.capacity - 1
  block_pos : b.data ≠ none → 0 < b.capacity

variable {b b' : ByteBuf} {w : Nat}

theorem create_some {cap : Nat} {calloc : Bool} {malloc : Option (Nat → UInt8)}
    (h : create cap calloc malloc = some b) :
    (cap = 0 ∧ b = ⟨none, 0, 0⟩) ∨
    ∃ fill, 0 < cap ∧ malloc = some fill ∧ b = ⟨some (Block.resize [] cap fill), 0, cap⟩ := by
  rw [create.eq_def] at h
  split at h
  · cases h
  · split at h
    · next hpos =>
      cases malloc with
      | none => cases h
      | some fill =>
          cases h
          exact .inr ⟨fill, hpos, rfl, rfl⟩
    · next hzero =>
      cases h
      exact .inl ⟨by omega, rfl⟩

theorem create_wellFormed {cap : Nat} {calloc : Bool} {malloc : Option (Nat → UInt8)}
    (h : create cap calloc malloc = some b) : b.WellFormed := by
  rcases create_some h with ⟨-, rfl⟩ | ⟨fill, hpos, -, rfl⟩
  · exact ⟨rfl, Nat.le_refl _, fun hn => absurd rfl hn⟩
  · exact ⟨Block.length_resize _ _ _, Nat.zero_le _, fun _ => hpos⟩

/-- What `ztk_byte_buf_reserve` does. -/
theorem reserve_cases (b : ByteBuf) (capacity : Nat) (realloc : Option (Nat → UInt8)) :
    (capacity ≤ b.capacity ∧ b.reserve capacity realloc = (.ok, b)) ∨
    (b.capacity < capacity ∧ realloc = none ∧ b.reserve capacity realloc = (.nomem, b)) ∨
    ∃ fill, b.capacity < capacity ∧ realloc = some fill ∧ b.reserve capacity realloc =
      (.ok, { b with data := some (Block.resize b.mem capacity fill), capacity := capacity }) := by
  rw [reserve.eq_def]
  by_cases hle : capacity ≤ b.capacity
  · exact .inl ⟨hle, if_pos hle⟩
  · rw [if_neg hle]
    cases realloc with
    | none => exact .inr (.inl ⟨Nat.lt_of_not_le hle, rfl, rfl⟩)
    | some fill => exact .inr (.inr ⟨fill, Nat.lt_of_not_le hle, rfl, rfl⟩)

/-- A larger block is well formed again, and starts with the bytes of the old one. -/
theorem WellFormed.grow {capacity : Nat} (hb : b.WellFormed) (hlt : b.capacity < capacity)
    (fill : Nat → UInt8) :
    WellFormed { b with data := some (Block.resize b.mem capacity fill), capacity := capacity } ∧
      (Block.resize b.mem capacity fill).take b.size = b.mem.take b.size := by
  have hsize := hb.size_le
  refine ⟨⟨Block.length_resize _ _ _, ?_, fun _ => Nat.zero_lt_of_lt hlt⟩, ?_⟩
  · dsimp only
    omega
  · refine Block.take_resize fill ?_ ?_
    · rw [hb.mem_length]
      omega
    · omega

/-- What the end of an append leaves. -/
theorem appendBytes_some {data : List UInt8} {len n : Nat}
    (h : b.appendBytes data len n = some b') :
    ∃ m m', len ≤ data.length ∧ Block.write b.mem b.size (data.take len) = some m ∧
      Block.write m n [0] = some m' ∧ b' = { b with data := some m', size := n } := by
  rw [appendBytes] at h
  split at h
  · cases h
  · next hlen =>
    rw [Option.bind_eq_some_iff] at h
    obtain ⟨m, hm, h⟩ := h
    rw [Option.map_eq_some_iff] at h
    obtain ⟨m', hm', rfl⟩ := h
    exact ⟨m, m', Nat.le_of_not_lt hlen, hm, hm', rfl⟩

/-- The end of an append leaves a terminated buffer of the same capacity. -/
theorem WellFormed.appendBytes {data : List UInt8} {len n : Nat} (hb : b.WellFormed)
    (h : b.appendBytes data len n = some b') :
    b'.WellFormed ∧ b'.capacity = b.capacity ∧ b'.size = n ∧ b'.size + 1 ≤ b'.capacity ∧
      b'.bufData[b'.size]? = some 0 := by
  obtain ⟨m, m', -, hm, hm', rfl⟩ := appendBytes_some h
  have hlen : m.length = b.capacity := (Block.length_of_write hm).trans hb.mem_length
  have hn := (Block.write_eq_some hm').1
  rw [List.length_singleton, hlen] at hn
  refine ⟨⟨(Block.length_of_write hm').trans hlen, ?_, fun _ => ?_⟩, rfl, rfl, hn,
    Block.getElem?_of_write hm'⟩
  · dsimp only
    omega
  · dsimp only
    omega

/-- Where the sum does not wrap, the bytes follow the contents. -/
theorem contents_appendBytes {data : List UInt8} {len : Nat}
    (h : b.appendBytes data len (b.size + len) = some b') :
    b'.contents = b.contents ++ data.take len := by
  obtain ⟨m, m', hdata, hm, hm', rfl⟩ := appendBytes_some h
  have hlen : (data.take len).length = len := List.length_take_of_le hdata
  have htake := Block.take_of_write hm
  rw [hlen] at htake
  exact (Block.take_of_write_le hm' (Nat.le_refl _)).trans htake

/-- The end of an append has a result where the block has room. -/
theorem appendBytes_isSome {data : List UInt8} {len : Nat} (hb : b.mem.length = b.capacity)
    (hdata : len ≤ data.length) (hroom : b.size + len + 1 ≤ b.capacity) :
    ∃ b', b.appendBytes data len (b.size + len) = some b' := by
  have hlen : (data.take len).length = len := List.length_take_of_le hdata
  have hdataRoom : b.size + (data.take len).length ≤ b.mem.length := by
    rw [hlen, hb]
    omega
  obtain ⟨m, hm⟩ : ∃ m, Block.write b.mem b.size (data.take len) = some m :=
    ⟨_, Block.write_of_le hdataRoom⟩
  have hnulRoom : b.size + len + [(0 : UInt8)].length ≤ m.length := by
    rw [Block.length_of_write hm, hb, List.length_singleton]
    exact hroom
  rw [ByteBuf.appendBytes, if_neg (Nat.not_lt.mpr hdata), hm, Option.bind_some,
    Block.write_of_le hnulRoom]
  exact ⟨_, rfl⟩

/-- Setting the terminator changes nothing the buffer describes. -/
theorem WellFormed.terminate (hb : b.WellFormed) :
    ∃ b', b.terminate = some b' ∧ b'.WellFormed ∧ b'.size = b.size ∧ b'.capacity = b.capacity ∧
      b'.contents = b.contents ∧ b'.bufData[b'.size]? = some 0 := by
  obtain ⟨data, size, capacity⟩ := b
  obtain ⟨hlen, hsize, hpos⟩ := hb
  cases data with
  | none =>
      have hcap : capacity = 0 := hlen.symm
      have hzero : size = 0 := by
        dsimp only at hsize
        omega
      refine ⟨_, rfl, ⟨hlen, hsize, hpos⟩, rfl, rfl, rfl, ?_⟩
      rw [hzero]
      rfl
  | some m =>
      have hlen' : m.length = capacity := hlen
      have hpos' : 0 < capacity := hpos (Option.some_ne_none m)
      have hfit : size + [(0 : UInt8)].length ≤ m.length := by
        dsimp only at hsize
        rw [List.length_singleton]
        omega
      obtain ⟨m', hw⟩ : ∃ m', Block.write m size [0] = some m' := ⟨_, Block.write_of_le hfit⟩
      refine ⟨⟨some m', size, capacity⟩, ?_, ⟨?_, hsize, fun _ => hpos'⟩, rfl, rfl, ?_, ?_⟩
      · rw [ByteBuf.terminate]
        dsimp only
        rw [hw]
        rfl
      · exact (Block.length_of_write hw).trans hlen'
      · exact Block.take_of_write_le hw (Nat.le_refl _)
      · exact Block.getElem?_of_write hw

theorem WellFormed.contents_length (hb : b.WellFormed) : b.contents.length = b.size := by
  have hsize := hb.size_le
  rw [contents, List.length_take, hb.mem_length]
  omega

/-- The buffer is emptied. -/
theorem WellFormed.truncate (hb : b.WellFormed) : WellFormed { b with size := 0 } :=
  ⟨hb.mem_length, Nat.zero_le _, hb.block_pos⟩

/-- What `ztk_byte_buf_clear` does. -/
theorem WellFormed.clear (hb : b.WellFormed) :
    ∃ b', b.clear = some b' ∧ b'.WellFormed ∧ b'.capacity = b.capacity ∧ b'.contents = [] ∧
      b'.bufData[b'.size]? = some 0 := by
  obtain ⟨b', h, hwf, -, hcap, hcont, hzero⟩ := hb.truncate.terminate
  exact ⟨b', h, hwf, hcap, hcont, hzero⟩

/-- What `ztk_byte_buf_erase_front` does. -/
theorem WellFormed.eraseFront (hb : b.WellFormed) (n : Nat) :
    ∃ b', b.eraseFront n = some b' ∧ b'.WellFormed ∧ b'.capacity = b.capacity ∧
      b'.contents = b.contents.drop n ∧ (n = 0 ∧ b' = b ∨ b'.bufData[b'.size]? = some 0) := by
  rw [ByteBuf.eraseFront]
  by_cases hzero : n = 0
  · rw [if_pos hzero]
    refine ⟨b, rfl, hb, rfl, ?_, .inl ⟨hzero, rfl⟩⟩
    rw [hzero, List.drop_zero]
  · rw [if_neg hzero]
    by_cases hall : b.size ≤ n
    · rw [if_pos hall]
      obtain ⟨b', h, hwf, -, hcap, hcont, hterm⟩ := hb.truncate.terminate
      refine ⟨b', h, hwf, hcap, ?_, .inr hterm⟩
      rw [hcont, List.drop_of_length_le (by rw [hb.contents_length]; exact hall)]
      rfl
    · rw [if_neg hall]
      have hsize := hb.size_le
      have hlen : ((b.mem.drop n).take (b.size - n)).length = b.size - n := by
        rw [List.length_take, List.length_drop, hb.mem_length]
        omega
      obtain ⟨m, hm⟩ : ∃ m, Block.write b.mem 0 ((b.mem.drop n).take (b.size - n)) = some m :=
        ⟨_, Block.write_of_le (by
          rw [hlen, hb.mem_length]
          omega)⟩
      have htake := Block.take_of_write hm
      rw [Nat.zero_add, hlen, List.take_zero, List.nil_append] at htake
      have hlen' := Block.length_of_write hm
      rw [hm, Option.bind_some]
      have hwf : WellFormed { b with data := some m, size := b.size - n } := by
        refine ⟨hlen'.trans hb.mem_length, ?_, fun _ => ?_⟩
        · dsimp only
          omega
        · dsimp only
          omega
      obtain ⟨b', h, hwf', -, hcap, hcont, hterm⟩ := hwf.terminate
      refine ⟨b', h, hwf', hcap, ?_, .inr hterm⟩
      rw [hcont, contents, contents, List.drop_take]
      exact htake

/-! ## Appending -/

/-- `b` itself, or `b` with a larger block from `realloc`. -/
inductive Grown (b : ByteBuf) : ByteBuf → Prop where
  | same : Grown b b
  | grown (capacity : Nat) (fill : Nat → UInt8) : b.capacity < capacity →
      Grown b { b with data := some (Block.resize b.mem capacity fill), capacity := capacity }

theorem Grown.spec {b₁ : ByteBuf} (hb : b.WellFormed) (h : Grown b b₁) :
    b₁.WellFormed ∧ b₁.size = b.size ∧ b.capacity ≤ b₁.capacity ∧ b₁.contents = b.contents := by
  cases h with
  | same => exact ⟨hb, rfl, Nat.le_refl _, rfl⟩
  | grown capacity fill hlt =>
      obtain ⟨hwf, hcont⟩ := hb.grow hlt fill
      exact ⟨hwf, rfl, Nat.le_of_lt hlt, hcont⟩

theorem growCap_some {needCap cap' : Nat} : ∀ {fuel : Nat} {cap : Nat},
    growCap w fuel cap needCap = some cap' → needCap ≤ cap'
  | 0, _, h => by cases h
  | fuel + 1, cap, h => by
      rw [growCap] at h
      split at h
      · exact growCap_some h
      · next hle =>
        cases h
        exact Nat.le_of_not_lt hle

/-- No product in the growth loop from `cap` reaches the end of `size_t`. -/
def Doubles (w cap needCap : Nat) : Prop :=
  ∀ k, cap * 2 ^ k < needCap → cap * 2 ^ (k + 1) < 2 ^ w

theorem Doubles.double {cap needCap : Nat} (h : Doubles w cap needCap) :
    Doubles w (cap * 2) needCap := by
  intro k hk
  have hpow : cap * 2 * 2 ^ k = cap * 2 ^ (k + 1) := by
    rw [Nat.mul_assoc, ← Nat.pow_succ']
  rw [hpow] at hk
  have hlt := h (k + 1) hk
  rwa [Nat.mul_assoc, ← Nat.pow_succ']

/-- The growth loop ends where no product wraps. -/
theorem growCap_isSome {needCap : Nat} (hneed : needCap < 2 ^ w) : ∀ {fuel cap : Nat},
    2 ^ w ≤ cap * 2 ^ fuel → Doubles w cap needCap →
      ∃ cap', growCap w (fuel + 1) cap needCap = some cap'
  | 0, cap, hcap, _ => by
      rw [Nat.pow_zero, Nat.mul_one] at hcap
      rw [growCap, if_neg (by omega)]
      exact ⟨cap, rfl⟩
  | fuel + 1, cap, hcap, hd => by
      rw [growCap]
      by_cases hlt : cap < needCap
      · have hmul := hd 0 (by rwa [Nat.pow_zero, Nat.mul_one])
        rw [Nat.zero_add, Nat.pow_one] at hmul
        rw [if_pos hlt, Nat.mod_eq_of_lt hmul]
        refine growCap_isSome hneed ?_ hd.double
        rwa [Nat.mul_assoc, ← Nat.pow_succ']
      · rw [if_neg hlt]
        exact ⟨cap, rfl⟩

/-- Half of `size_t` is enough for the growth loop. -/
theorem doubles_of_le {cap needCap : Nat} (h : needCap * 2 ≤ 2 ^ w) : Doubles w cap needCap := by
  intro k hk
  rw [Nat.pow_succ, ← Nat.mul_assoc]
  omega

/-- What `ztk_byte_buf_append` does where it has a result. -/
theorem append_some {data : Option (List UInt8)} {len : Nat} {realloc : Option (Nat → UInt8)}
    {err : Err} (h : b.append w data len realloc = some (err, b')) :
    (err = .invalid ∧ b' = b) ∨ (err = .nomem ∧ b' = b) ∨ (err = .ok ∧ len = 0 ∧ b' = b) ∨
    ∃ l b₁, err = .ok ∧ 0 < len ∧ data = some l ∧ Grown b b₁ ∧
      b₁.appendBytes l len ((b.size + len) % 2 ^ w) = some b' := by
  rw [append] at h
  split at h
  · cases h
    exact .inl ⟨rfl, rfl⟩
  · next hdata =>
    split at h
    · next hzero =>
      cases h
      exact .inr (.inr (.inl ⟨rfl, hzero, rfl⟩))
    · next hlen =>
      have hpos : 0 < len := Nat.pos_of_ne_zero hlen
      obtain ⟨l, rfl⟩ : ∃ l, data = some l := by
        cases data with
        | none => exact absurd ⟨rfl, hlen⟩ hdata
        | some l => exact ⟨l, rfl⟩
      dsimp only [Option.getD_some] at h
      split at h
      · next hlt =>
        rw [Option.bind_eq_some_iff] at h
        obtain ⟨cap, hcap, h⟩ := h
        have hgt : b.capacity < cap := Nat.lt_of_lt_of_le hlt (growCap_some hcap)
        rcases reserve_cases b cap realloc with ⟨hle, -⟩ | ⟨-, -, hr⟩ | ⟨fill, -, -, hr⟩
        · exact absurd hle (Nat.not_le.mpr hgt)
        · rw [hr] at h
          cases h
          exact .inr (.inl ⟨rfl, rfl⟩)
        · rw [hr] at h
          obtain ⟨b'', hb'', h⟩ := Option.map_eq_some_iff.mp h
          cases h
          exact .inr (.inr (.inr ⟨l, _, rfl, hpos, rfl, .grown cap fill hgt, hb''⟩))
      · obtain ⟨b'', hb'', h⟩ := Option.map_eq_some_iff.mp h
        cases h
        exact .inr (.inr (.inr ⟨l, b, rfl, hpos, rfl, .same, hb''⟩))

/-- Where the loop starts. -/
def growStart (b : ByteBuf) : Nat := if b.capacity ≠ 0 then b.capacity else 64

theorem growStart_pos (b : ByteBuf) : 0 < b.growStart := by
  rw [growStart]
  split
  · next h => exact Nat.pos_of_ne_zero h
  · decide

/-- No `size_t` computation of the call wraps. -/
def NoWrap (w : Nat) (b : ByteBuf) : ByteBufCall → Prop
  | .append _ len _ =>
      b.size + len + 1 < 2 ^ w ∧ Doubles w b.growStart (b.size + len + 1)
  | _ => True

/-- The bytes that the caller passes are there to be read. -/
def Readable : ByteBufCall → Prop
  | .append data len _ => ∀ l, data = some l → len ≤ l.length
  | _ => True

theorem append_isSome {data : Option (List UInt8)} {len : Nat} {realloc : Option (Nat → UInt8)}
    (hb : b.WellFormed) (hno : NoWrap w b (.append data len realloc))
    (hread : Readable (.append data len realloc)) :
    ∃ r, b.append w data len realloc = some r := by
  obtain ⟨hlt, hd⟩ := hno
  rw [append, Nat.mod_eq_of_lt (a := b.size + len) (by omega)]
  dsimp only
  rw [Nat.mod_eq_of_lt hlt]
  split
  · exact ⟨_, rfl⟩
  · next hdata =>
    split
    · exact ⟨_, rfl⟩
    · next hlen =>
      have hl : ∃ l, data = some l := by
        cases data with
        | none => exact absurd ⟨rfl, hlen⟩ hdata
        | some l => exact ⟨l, rfl⟩
      obtain ⟨l, rfl⟩ := hl
      have hl := hread l rfl
      dsimp only [Option.getD_some]
      split
      · next hgrow =>
        have hfuel : 2 ^ w ≤ b.growStart * 2 ^ w :=
          Nat.le_mul_of_pos_left _ b.growStart_pos
        obtain ⟨cap, hcap⟩ := growCap_isSome hlt hfuel hd
        have hneed := growCap_some hcap
        rw [growStart] at hcap
        rw [hcap, Option.bind_some]
        rcases reserve_cases b cap realloc with ⟨hle, -⟩ | ⟨-, -, hr⟩ | ⟨fill, hgt, -, hr⟩
        · omega
        · rw [hr]
          exact ⟨_, rfl⟩
        · rw [hr]
          obtain ⟨b', hb'⟩ := appendBytes_isSome (hb.grow hgt fill).1.mem_length hl hneed
          dsimp only
          rw [hb']
          exact ⟨_, rfl⟩
      · next hroom =>
        obtain ⟨b', hb'⟩ := appendBytes_isSome hb.mem_length hl (Nat.le_of_not_lt hroom)
        rw [hb']
        exact ⟨_, rfl⟩

/-- Where nothing wraps, a call on a well-formed buffer has a result. -/
theorem WellFormed.call_isSome (hb : b.WellFormed) {a : ByteBufCall} (hno : NoWrap w b a)
    (hread : Readable a) : ∃ r, b.call w a = some r := by
  cases a with
  | reserve capacity realloc => exact ⟨_, rfl⟩
  | append data len realloc => exact append_isSome hb hno hread
  | clear =>
      obtain ⟨b', h, -⟩ := hb.clear
      exact ⟨(.ok, b'), by rw [call, h]; rfl⟩
  | eraseFront n =>
      obtain ⟨b', h, -⟩ := hb.eraseFront n
      exact ⟨(.ok, b'), by rw [call, h]; rfl⟩

end ByteBuf

/-! ## The byte list -/

/-- What a successful call does to the bytes in the buffer. -/
def ByteBufCall.apply : ByteBufCall → List UInt8 → List UInt8
  | .reserve _ _, bytes => bytes
  | .append data len _, bytes => bytes ++ (data.getD []).take len
  | .clear, _ => []
  | .eraseFront n, bytes => bytes.drop (min n bytes.length)

namespace ByteBuf

variable {b b' : ByteBuf} {w : Nat}

/-- What a call that has a result does. -/
structure Served (w : Nat) (b : ByteBuf) (a : ByteBufCall) (err : Err) (b' : ByteBuf) : Prop where
  wellFormed : b'.WellFormed
  capacity_le : b.capacity ≤ b'.capacity
  of_error : err ≠ .ok → b' = b
  of_ok : NoWrap w b a → err = .ok → b'.contents = a.apply b.contents
  room : ∀ data len realloc, a = .append data len realloc → err = .ok → 0 < len →
    b'.size + 1 ≤ b'.capacity

theorem served_append {data : Option (List UInt8)} {len : Nat} {realloc : Option (Nat → UInt8)}
    {err : Err} (hb : b.WellFormed) (h : b.append w data len realloc = some (err, b')) :
    Served w b (.append data len realloc) err b' := by
  rcases append_some h with
    ⟨rfl, rfl⟩ | ⟨rfl, rfl⟩ | ⟨rfl, rfl, rfl⟩ | ⟨l, b₁, rfl, hpos, rfl, hgrown, happ⟩
  · exact ⟨hb, Nat.le_refl _, fun _ => rfl, fun _ h => (by cases h), fun _ _ _ _ h => by cases h⟩
  · exact ⟨hb, Nat.le_refl _, fun _ => rfl, fun _ h => (by cases h), fun _ _ _ _ h => by cases h⟩
  · refine ⟨hb, Nat.le_refl _, fun _ => rfl, fun _ _ => ?_, fun _ _ _ h _ hlt => ?_⟩
    · rw [ByteBufCall.apply, List.take_zero, List.append_nil]
    · cases h
      exact absurd hlt (Nat.lt_irrefl 0)
  · obtain ⟨hwf, hsize, hcap, hcont⟩ := hgrown.spec hb
    obtain ⟨hwf', hcap', -, hroom, -⟩ := hwf.appendBytes happ
    refine ⟨hwf', hcap.trans_eq hcap'.symm, fun hn => absurd rfl hn, fun hno _ => ?_,
      fun _ _ _ _ _ _ => hroom⟩
    obtain ⟨hlt, -⟩ := hno
    rw [Nat.mod_eq_of_lt (by omega), ← hsize] at happ
    rw [contents_appendBytes happ, hcont]
    rfl

theorem WellFormed.call (hb : b.WellFormed) {a : ByteBufCall} {err : Err}
    (h : b.call w a = some (err, b')) : Served w b a err b' := by
  cases a with
  | reserve capacity realloc =>
      rw [ByteBuf.call, Option.some.injEq] at h
      rcases reserve_cases b capacity realloc with ⟨-, hr⟩ | ⟨-, -, hr⟩ | ⟨fill, hlt, -, hr⟩
      · rw [hr] at h
        cases h
        exact ⟨hb, Nat.le_refl _, fun _ => rfl, fun _ _ => rfl, fun _ _ _ h => by cases h⟩
      · rw [hr] at h
        cases h
        exact ⟨hb, Nat.le_refl _, fun _ => rfl, fun _ h => (by cases h), fun _ _ _ h => by cases h⟩
      · rw [hr] at h
        cases h
        obtain ⟨hwf, hcont⟩ := hb.grow hlt fill
        exact ⟨hwf, Nat.le_of_lt hlt, fun hn => absurd rfl hn, fun _ _ => hcont,
          fun _ _ _ h => by cases h⟩
  | append data len realloc => exact served_append hb h
  | clear =>
      obtain ⟨b₁, hb₁, hwf, hcap, hcont, -⟩ := hb.clear
      rw [ByteBuf.call, hb₁] at h
      cases h
      exact ⟨hwf, Nat.le_of_eq hcap.symm, fun hn => absurd rfl hn, fun _ _ => hcont,
        fun _ _ _ h => by cases h⟩
  | eraseFront n =>
      obtain ⟨b₁, hb₁, hwf, hcap, hcont, -⟩ := hb.eraseFront n
      rw [ByteBuf.call, hb₁] at h
      cases h
      refine ⟨hwf, Nat.le_of_eq hcap.symm, fun hn => absurd rfl hn, fun _ _ => ?_,
        fun _ _ _ h => by cases h⟩
      rw [hcont, ByteBufCall.apply]
      exact List.drop_eq_drop_min

end ByteBuf

/-- A buffer, and the list of bytes its successful calls make of the empty list. -/
structure ByteBufRun where
  buf : ByteBuf
  bytes : List UInt8
deriving DecidableEq

/-- A buffer in use. -/
def byteBufMachine (w : Nat) : Machine ByteBufRun ByteBufCall where
  step s a := (s.buf.call w a).map fun r =>
    ⟨r.2, if r.1 = .ok then a.apply s.bytes else s.bytes⟩

namespace ByteBufRun

variable {w : Nat} {s t : ByteBufRun} {a : ByteBufCall}

/-- The buffer holds the list. -/
structure Refines (s : ByteBufRun) : Prop where
  wellFormed : s.buf.WellFormed
  contents : s.buf.contents = s.bytes

theorem step_some (h : (byteBufMachine w).step s a = some t) :
    ∃ err, s.buf.call w a = some (err, t.buf) ∧
      t.bytes = if err = .ok then a.apply s.bytes else s.bytes := by
  obtain ⟨⟨err, b'⟩, hr, rfl⟩ := Option.map_eq_some_iff.mp h
  exact ⟨err, hr, rfl⟩

theorem Refines.step (hs : s.Refines) (hno : s.buf.NoWrap w a)
    (h : (byteBufMachine w).step s a = some t) : t.Refines := by
  obtain ⟨err, hcall, hbytes⟩ := step_some h
  have hserved := hs.wellFormed.call hcall
  refine ⟨hserved.wellFormed, ?_⟩
  rw [hbytes]
  split
  · next hok => rw [hserved.of_ok hno hok, hs.contents]
  · next herr => rw [hserved.of_error herr, hs.contents]

theorem Refines.created {cap : Nat} {calloc : Bool} {malloc : Option (Nat → UInt8)} {b : ByteBuf}
    (h : ByteBuf.create cap calloc malloc = some b) : Refines ⟨b, []⟩ := by
  refine ⟨ByteBuf.create_wellFormed h, ?_⟩
  rcases ByteBuf.create_some h with ⟨-, rfl⟩ | ⟨fill, -, -, rfl⟩
  · rfl
  · exact List.take_zero

end ByteBufRun

/-- In every run in which no size wraps the buffer holds the bytes of the list; a call has a
result, leaves room for the terminator when it appends, never shrinks the block, and leaves
the buffer alone when it fails. -/
theorem byte_buf_refines_list (w cap : Nat) (calloc : Bool) (malloc : Option (Nat → UInt8))
    (b : ByteBuf) (hcreate : ByteBuf.create cap calloc malloc = some b) (s : ByteBufRun)
    (hrun : (byteBufMachine w).Leads (fun s a => s.buf.NoWrap w a) ⟨b, []⟩ s) :
    s.buf.contents = s.bytes ∧ s.buf.size = s.bytes.length ∧
    ∀ a, s.buf.NoWrap w a →
      (ByteBuf.Readable a → ∃ r, s.buf.call w a = some r) ∧
      ∀ err b', s.buf.call w a = some (err, b') →
        (∀ data len realloc, a = .append data len realloc → err = .ok → 0 < len →
          b'.size + 1 ≤ b'.capacity) ∧
        s.buf.capacity ≤ b'.capacity ∧
        (err ≠ .ok → b'.contents = s.buf.contents ∧ b'.size = s.buf.size ∧
          b'.capacity = s.buf.capacity) := by
  have hs : s.Refines := by
    refine hrun.invariant (fun u a v hu hno hst => ?_) (.created hcreate)
    exact hu.step hno hst
  refine ⟨hs.contents, ?_, fun a hno => ⟨hs.wellFormed.call_isSome hno, fun err b' hcall => ?_⟩⟩
  · rw [← hs.contents, hs.wellFormed.contents_length]
  · have hserved := hs.wellFormed.call hcall
    refine ⟨hserved.room, hserved.capacity_le, fun herr => ?_⟩
    rw [hserved.of_error herr]
    exact ⟨rfl, rfl, rfl⟩

/-- Five bytes that do not fit, and two dropped. -/
theorem byte_buf_refines_list_hello :
    ∃ b s, ByteBuf.create 3 true (some fun _ => 7) = some b ∧
      (byteBufMachine 64).run ⟨b, []⟩
        [.append (some [104, 101, 108, 108, 111]) 5 (some fun _ => 9), .eraseFront 2] = some s ∧
      s.buf.contents = [108, 108, 111] := by
  refine ⟨⟨some [7, 7, 7], 0, 3⟩, ⟨⟨some [108, 108, 111, 0, 111, 0], 3, 6⟩, [108, 108, 111]⟩,
    by decide +kernel, by decide +kernel, ?_⟩
  have hno : ByteBuf.NoWrap 64 ⟨some [7, 7, 7], 0, 3⟩
      (.append (some [104, 101, 108, 108, 111]) 5 (some fun _ => 9)) :=
    ⟨by decide, ByteBuf.doubles_of_le (by decide)⟩
  have hfirst : (byteBufMachine 64).step ⟨⟨some [7, 7, 7], 0, 3⟩, []⟩
      (.append (some [104, 101, 108, 108, 111]) 5 (some fun _ => 9)) =
        some ⟨⟨some [104, 101, 108, 108, 111, 0], 5, 6⟩, [104, 101, 108, 108, 111]⟩ := by
    decide +kernel
  exact (byte_buf_refines_list 64 3 true (some fun _ => 7) ⟨some [7, 7, 7], 0, 3⟩
    (by decide +kernel) _ (.tail (.tail .refl hno hfirst)
      (show ByteBuf.NoWrap 64 _ (.eraseFront 2) from trivial) (by decide +kernel))).1

/-! ## The terminator -/

namespace ByteBuf

/-- The byte after the last one is there and is zero. -/
def Terminated (b : ByteBuf) : Prop := b.bufData[b.size]? = some 0

instance (b : ByteBuf) : Decidable b.Terminated := inferInstanceAs (Decidable (_ = _))

/-- Memory that `ztk_byte_buf_create` takes starts with a zero. -/
def CreatedZero (initialCapacity : Nat) (malloc : Option (Nat → UInt8)) : Prop :=
  ∀ fill, malloc = some fill → 0 < initialCapacity → fill 0 = 0

/-- Memory that `ztk_byte_buf_reserve` takes for a buffer without a block starts with a
zero. -/
def ReservedZero (b : ByteBuf) : ByteBufCall → Prop
  | .reserve capacity realloc => ∀ fill, realloc = some fill → b.data = none → 0 < capacity →
      fill 0 = 0
  | _ => True

variable {b b' : ByteBuf} {w : Nat}

theorem create_terminated_iff {cap : Nat} {calloc : Bool} {malloc : Option (Nat → UInt8)}
    (h : create cap calloc malloc = some b) : b.Terminated ↔ CreatedZero cap malloc := by
  rcases create_some h with ⟨rfl, rfl⟩ | ⟨fill, hpos, rfl, rfl⟩
  · exact iff_of_true rfl fun _ _ hlt => absurd hlt (Nat.lt_irrefl 0)
  · have hfirst : (Block.resize ([] : List UInt8) cap fill)[0]? = some (fill 0) :=
      Block.getElem?_resize_of_le fill (Nat.le_refl _) hpos
    constructor
    · intro hterm fill' hfill _
      cases hfill
      exact Option.some.inj (hfirst.symm.trans hterm)
    · intro hzero
      exact hfirst.trans (congrArg some (hzero fill rfl hpos))

/-- A larger block keeps the terminator; a first block has one by luck. -/
theorem reserve_terminated_iff {capacity : Nat} {realloc : Option (Nat → UInt8)} {err : Err}
    (hb : b.WellFormed) (hterm : b.Terminated) (h : b.reserve capacity realloc = (err, b')) :
    b'.Terminated ↔ b.ReservedZero (.reserve capacity realloc) := by
  rcases reserve_cases b capacity realloc with ⟨hle, hr⟩ | ⟨-, rfl, hr⟩ | ⟨fill, hlt, rfl, hr⟩
  · rw [hr] at h
    cases h
    refine iff_of_true hterm fun fill _ hnone hpos => ?_
    have hcap : b.capacity = 0 := by rw [← hb.mem_length, mem, hnone]; rfl
    omega
  · rw [hr] at h
    cases h
    exact iff_of_true hterm fun _ hnone => by cases hnone
  · rw [hr] at h
    cases h
    have hsize := hb.size_le
    cases hdata : b.data with
    | none =>
        have hmem : b.mem = [] := by rw [mem, hdata]; rfl
        have hzero : b.size = 0 := by
          have hcap : b.capacity = 0 := by rw [← hb.mem_length, hmem]; rfl
          omega
        have hfirst : (Block.resize b.mem capacity fill)[b.size]? = some (fill 0) := by
          rw [hzero, hmem]
          exact Block.getElem?_resize_of_le fill (Nat.le_refl _) (Nat.zero_lt_of_lt hlt)
        constructor
        · intro hterm' fill' hfill _ _
          cases hfill
          exact Option.some.inj (hfirst.symm.trans hterm')
        · intro hz
          exact hfirst.trans (congrArg some (hz fill rfl hdata (Nat.zero_lt_of_lt hlt)))
    | some m =>
        have hpos := hb.block_pos (by rw [hdata]; exact Option.some_ne_none m)
        refine iff_of_true ?_ fun _ _ hnone => by rw [hdata] at hnone; cases hnone
        have hkeep : (Block.resize b.mem capacity fill)[b.size]? = b.mem[b.size]? := by
          refine Block.getElem?_resize_of_lt fill ?_ ?_
          · rw [hb.mem_length]
            omega
          · omega
        refine hkeep.trans ?_
        rw [Terminated, bufData, hdata] at hterm
        rwa [mem, hdata]

/-- A call on a terminated buffer leaves one, unless it gets a first block from
`ztk_byte_buf_reserve` that starts with something else. -/
theorem call_terminated_iff {a : ByteBufCall} {err : Err} (hb : b.WellFormed)
    (hterm : b.Terminated) (h : b.call w a = some (err, b')) :
    b'.Terminated ↔ b.ReservedZero a := by
  cases a with
  | reserve capacity realloc =>
      rw [call, Option.some.injEq] at h
      exact reserve_terminated_iff hb hterm h
  | append data len realloc =>
      refine iff_of_true ?_ trivial
      rcases append_some h with
        ⟨-, rfl⟩ | ⟨-, rfl⟩ | ⟨-, -, rfl⟩ | ⟨l, b₁, -, -, -, hgrown, happ⟩
      · exact hterm
      · exact hterm
      · exact hterm
      · exact ((hgrown.spec hb).1.appendBytes happ).2.2.2.2
  | clear =>
      obtain ⟨b₁, hb₁, -, -, -, hterm'⟩ := hb.clear
      rw [call, hb₁] at h
      cases h
      exact iff_of_true hterm' trivial
  | eraseFront n =>
      obtain ⟨b₁, hb₁, -, -, -, hterm'⟩ := hb.eraseFront n
      rw [call, hb₁] at h
      cases h
      refine iff_of_true ?_ trivial
      rcases hterm' with ⟨-, rfl⟩ | hterm'
      · exact hterm
      · exact hterm'

end ByteBuf

/-- The buffer is terminated in every state of a run exactly when every block that comes
without an append, from `ztk_byte_buf_create` or as a first block from
`ztk_byte_buf_reserve`, happens to start with a zero. -/
theorem byte_buf_terminated_iff (w cap : Nat) (calloc : Bool) (malloc : Option (Nat → UInt8))
    (b : ByteBuf) (hcreate : ByteBuf.create cap calloc malloc = some b) (as : List ByteBufCall)
    (s : ByteBufRun) (hrun : (byteBufMachine w).run ⟨b, []⟩ as = some s) :
    (byteBufMachine w).Throughout (fun t => t.buf.Terminated) ⟨b, []⟩ as ↔
      ByteBuf.CreatedZero cap malloc ∧
        (byteBufMachine w).RunMeets (fun t a => t.buf.ReservedZero a) ⟨b, []⟩ as := by
  have hiff := ByteBuf.create_terminated_iff hcreate
  have hsteps : b.Terminated → _ := fun hterm =>
    Machine.throughout_iff (M := byteBufMachine w) (I := fun t => t.buf.WellFormed)
      (P := fun t => t.buf.Terminated) (C := fun t a => t.buf.ReservedZero a) (D := Machine.Any)
      (fun t a u ht _ hst => by
        obtain ⟨err, hcall, -⟩ := ByteBufRun.step_some hst
        exact (ht.call hcall).wellFormed)
      (fun t a u ht _ hterm hst => by
        obtain ⟨err, hcall, -⟩ := ByteBufRun.step_some hst
        exact ByteBuf.call_terminated_iff ht hterm hcall)
      as ⟨b, []⟩ s (ByteBuf.create_wellFormed hcreate) hterm (Machine.runMeets_any as _) hrun
  constructor
  · intro hall
    have hterm : b.Terminated := hall [] _ List.nil_prefix rfl
    exact ⟨hiff.mp hterm, (hsteps hterm).mp hall⟩
  · rintro ⟨hzero, hmeets⟩
    exact (hsteps (hiff.mpr hzero)).mpr hmeets

/-- Zeroed memory at the start, any memory later. -/
theorem byte_buf_terminated_zeroed :
    (byteBufMachine 64).Throughout (fun t => t.buf.Terminated) ⟨⟨some [0, 9], 0, 2⟩, []⟩
      [.reserve 4 (some fun _ => 7)] :=
  (byte_buf_terminated_iff 64 2 true (some fun n => if n = 0 then 0 else 9)
    ⟨some [0, 9], 0, 2⟩ (by decide +kernel) [.reserve 4 (some fun _ => 7)]
    ⟨⟨some [0, 9, 7, 7], 0, 4⟩, []⟩ (by decide +kernel)).mpr
    ⟨fun fill h _ => (by cases h; rfl), fun fill _ hnone => (by cases hnone), fun _ _ => trivial⟩

/-- A new buffer of eight bytes whose memory starts with a letter is no string. -/
theorem byte_buf_created_unterminated :
    ∃ b, ByteBuf.create 8 true (some fun _ => 65) = some b ∧ b.size = 0 ∧ ¬ b.Terminated :=
  ⟨⟨some [65, 65, 65, 65, 65, 65, 65, 65], 0, 8⟩, by decide +kernel, rfl, by decide +kernel⟩

end Ztk.Util
