import Ztk.Util.BufPoolRuns

/-!
# The size of a new buffer

`buf_create_malloc`, `buf_create_from_pool`, `ztk_buf_alloc` and `ztk_buf_alloc_local` of
`buf.c`.  The block of a buffer holds a header and the data.  Both sizes that are asked
for, of a pool or of `malloc`, are the sum of the header and the capacity in a `size_t`.

A call uses one pool at most, that of the poller or the shared one.  Their blocks lie in
the same memory.
-/

namespace Ztk.Util

open Ztk.Lib

/-! ## State -/

/-- `size_t` has `bits` bits, and `data` is at offset `hdr` of a `ztk_buf`, which is also
its size: the fields after `refcnt` are as wide as a `size_t`. -/
structure BufLayout where
  bits : Nat
  hdr : Nat
  /-- The capacities of the buckets have a `size_t`. -/
  buckets_fit : 2097152 < 2 ^ bits

/-- A pool that a call may use: that of the poller, or `g_shared_pool`. -/
inductive PoolRef where
  | ofPoller
  | shared
deriving DecidableEq

/-- The memory, and the pools that there are. -/
structure BufMemory where
  word : Word → Word
  size : Word → Option Nat
  pool : PoolRef → Option BufPool

/-- A new `ztk_buf`: its block, and the fields that describe it. -/
structure NewBuf where
  block : Word
  cap : Nat
  pool : Option PoolRef
  poolBlkCap : Nat

namespace BufMemory

/-- A pool with the memory that it uses. -/
def view (m : BufMemory) (pool : BufPool) : PoolState where
  pool := pool
  word := m.word
  size := m.size
  deferred := []
  held := []
  reported := []
  wasReset := false

/-- The memory after a call on a pool. -/
def store (m : BufMemory) (r : PoolRef) (s : PoolState) : BufMemory where
  word := s.word
  size := s.size
  pool := Function.update m.pool r (some s.pool)

/-- `malloc(size)`. -/
def malloc (m : BufMemory) (size : Nat) (answer : MallocAnswer) : Option Word × BufMemory :=
  match answer with
  | none => (none, m)
  | some (p, w) =>
      (some p, { m with
        size := Function.update m.size p (some size)
        word := Function.update m.word p w })

/-- The blocks at the heads of the freelists have the sizes of their buckets. -/
def Filed (m : BufMemory) : Prop :=
  ∀ r pool, m.pool r = some pool → ∀ i, pool.freeHeads i ≠ 0 →
    m.size (pool.freeHeads i) = some (bucketCaps i)

end BufMemory

/-! ## The functions of the source -/

namespace BufLayout

variable (L : BufLayout)

/-- The header and `cap` bytes, in a `size_t`. -/
def need (cap : Nat) : Nat := (L.hdr + cap) % 2 ^ L.bits

/-- `buf_create_malloc`. -/
def bufCreateMalloc (m : BufMemory) (cap : Nat) (plain : MallocAnswer) :
    Option NewBuf × BufMemory :=
  match m.malloc (L.need cap) plain with
  | (none, m) => (none, m)
  | (some p, m) => (some ⟨p, cap, none, 0⟩, m)

/-- `buf_create_from_pool`.  `acquire` is what `malloc` answers in
`ztk_buf_pool_acquire`, and `plain` what it answers in `buf_create_malloc`. -/
def bufCreateFromPool (m : BufMemory) (r : PoolRef) (cap : Nat) (acquire plain : MallocAnswer) :
    Option NewBuf × BufMemory :=
  match m.pool r with
  | none => L.bufCreateMalloc m cap plain
  | some pool =>
      match (m.view pool).bufPoolAcquire (L.need cap) acquire with
      | (none, _, s) => L.bufCreateMalloc (m.store r s) cap plain
      | (some p, blkCap, s) =>
          let blkCap := blkCap.getD 0
          (some ⟨p, if L.hdr < blkCap then blkCap - L.hdr else cap, some r, blkCap⟩, m.store r s)

/-- `ztk_buf_alloc`. -/
def bufAlloc (m : BufMemory) (cap : Nat) (acquire plain : MallocAnswer) :
    Option NewBuf × BufMemory :=
  if cap = 0 then (none, m) else L.bufCreateFromPool m .shared cap acquire plain

/-- `ztk_buf_alloc_local`. -/
def bufAllocLocal (m : BufMemory) (cap : Nat) (acquire plain : MallocAnswer) :
    Option NewBuf × BufMemory :=
  if cap = 0 then (none, m)
  else if (m.pool .ofPoller).isSome then L.bufCreateFromPool m .ofPoller cap acquire plain
  else L.bufAlloc m cap acquire plain

/-- The buffer has the capacity asked for, and its block holds the header and that
capacity. -/
def Holds (m : BufMemory) (b : NewBuf) (cap : Nat) : Prop :=
  cap ≤ b.cap ∧ ∃ n, m.size b.block = some n ∧ L.hdr + b.cap ≤ n

end BufLayout

/-! ## Blocks from a pool -/

theorem bucketCaps_le : ∀ i : Bucket, bucketCaps i ≤ 2097152 := by decide

/-- The heads of the freelists, in every state of a pool. -/
theorem Conserved.head_size {s : PoolState} {fl : Bucket → List Word} (h : Conserved [] s fl)
    {i : Bucket} (hi : s.pool.freeHeads i ≠ 0) :
    s.size (s.pool.freeHeads i) = some (bucketCaps i) := by
  obtain ⟨bs, hfl, -⟩ := (h.linked i).of_ne_null hi
  exact h.filed i _ (by rw [hfl]; exact List.mem_cons_self)

/-- The memory of a run of a pool. -/
theorem PoolState.filed_of_leads {maxPerBucket : UInt32} {threadSafe : Bool} {s : PoolState}
    (h : poolMachine.Leads Machine.Any (.start maxPerBucket threadSafe) s) (r : PoolRef) :
    BufMemory.Filed ⟨s.word, s.size, Function.update (fun _ => none) r (some s.pool)⟩ := by
  obtain ⟨fl, hc⟩ : ∃ fl, Conserved [] s fl :=
    h.invariant (I := fun s => ∃ fl, Conserved [] s fl)
      (fun _ _ _ hi _ hs => Conserved.step hi hs) ⟨_, Conserved.start maxPerBucket threadSafe⟩
  intro q pool hpool i hi
  by_cases hq : q = r
  · simp only [hq, Function.update_self, Option.some.injEq] at hpool
    subst hpool
    exact hc.head_size hi
  · simp only [Function.update_of_ne hq] at hpool
    cases hpool

/-- A block that `ztk_buf_pool_acquire` returns has the size that it reports: the size
asked for or that of a bucket, and no less than was asked for. -/
theorem PoolState.bufPoolAcquire_block {s t : PoolState}
    (hs : ∀ i, s.pool.freeHeads i ≠ 0 → s.size (s.pool.freeHeads i) = some (bucketCaps i))
    {size : Nat} {answer : MallocAnswer} {p : Word} {c : Option Nat}
    (h : s.bufPoolAcquire size answer = (some p, c, t)) :
    ∃ blk, c = some blk ∧ t.size p = some blk ∧ size ≤ blk ∧ (blk = size ∨ blk ≤ 2097152) := by
  rw [PoolState.bufPoolAcquire] at h
  split at h
  · cases h
  · split at h
    · cases answer with
      | none => cases h
      | some x =>
          cases h
          exact ⟨size, rfl, Function.update_self _ _ _, Nat.le_refl _, Or.inl rfl⟩
    · next i hi =>
        have hle := bucketIndexForSize_le hi
        split at h
        · next hne =>
            cases h
            exact ⟨_, rfl, hs i hne, hle, Or.inr (bucketCaps_le i)⟩
        · cases answer with
          | none => cases h
          | some x =>
              cases h
              exact ⟨_, rfl, Function.update_self _ _ _, hle, Or.inr (bucketCaps_le i)⟩

/-! ## New buffers -/

namespace BufLayout

variable {L : BufLayout} {m m' : BufMemory} {b : NewBuf} {cap : Nat} {acquire plain : MallocAnswer}
  {r : PoolRef}

/-- A buffer from `malloc`. -/
theorem bufCreateMalloc_block (h : L.bufCreateMalloc m cap plain = (some b, m')) :
    b.cap = cap ∧ m'.size b.block = some (L.need cap) := by
  rw [bufCreateMalloc] at h
  cases plain with
  | none => cases h
  | some x =>
      cases h
      exact ⟨rfl, Function.update_self _ _ _⟩

/-- The block of a new buffer: what its size is, and what capacity comes of it. -/
theorem bufCreateFromPool_block (hm : m.Filed)
    (h : L.bufCreateFromPool m r cap acquire plain = (some b, m')) :
    ∃ blk, m'.size b.block = some blk ∧ L.need cap ≤ blk ∧ (blk = L.need cap ∨ blk ≤ 2097152) ∧
      (b.cap = cap ∧ blk = L.need cap ∨ b.cap = if L.hdr < blk then blk - L.hdr else cap) := by
  rw [bufCreateFromPool] at h
  split at h
  · obtain ⟨hcap, hsize⟩ := bufCreateMalloc_block h
    exact ⟨_, hsize, Nat.le_refl _, Or.inl rfl, Or.inl ⟨hcap, rfl⟩⟩
  · next pool hpool =>
      split at h
      · obtain ⟨hcap, hsize⟩ := bufCreateMalloc_block h
        exact ⟨_, hsize, Nat.le_refl _, Or.inl rfl, Or.inl ⟨hcap, rfl⟩⟩
      · next p c s hacq =>
          obtain ⟨blk, rfl, hsize, hle, hor⟩ :=
            PoolState.bufPoolAcquire_block (s := m.view pool) (hm r pool hpool) hacq
          cases h
          exact ⟨blk, hsize, hle, hor, Or.inr rfl⟩

/-- A buffer holds what was asked for exactly when header and capacity have a
`size_t`. -/
theorem holds_iff_of_create (hm : m.Filed) (hcap : 0 < cap)
    (h : L.bufCreateFromPool m r cap acquire plain = (some b, m')) :
    L.Holds m' b cap ↔ L.hdr + cap < 2 ^ L.bits := by
  obtain ⟨blk, hsize, hle, hor, hb⟩ := bufCreateFromPool_block hm h
  have hneed : L.need cap < 2 ^ L.bits := Nat.mod_lt _ (Nat.two_pow_pos _)
  have hfit := L.buckets_fit
  constructor
  · rintro ⟨hge, n, hn, hhold⟩
    rw [hsize, Option.some.injEq] at hn
    omega
  · intro hlt
    have hsum : L.need cap = L.hdr + cap := Nat.mod_eq_of_lt hlt
    have hpos : L.hdr < blk := by omega
    rw [if_pos hpos] at hb
    refine ⟨?_, blk, hsize, ?_⟩
    · omega
    · omega

/-- With memory there is a buffer. -/
theorem bufCreateFromPool_some (m : BufMemory) (r : PoolRef) (cap : Nat) (x : Word × Word) :
    ∃ b m', L.bufCreateFromPool m r cap (some x) (some x) = (some b, m') := by
  rw [bufCreateFromPool]
  split
  · exact ⟨_, _, rfl⟩
  · split
    · exact ⟨_, _, rfl⟩
    · exact ⟨_, _, rfl⟩

/-- Whatever `malloc` answers, the buffers of a pool hold what was asked for exactly when
header and capacity have a `size_t`. -/
theorem create_holds_iff (hm : m.Filed) (hcap : 0 < cap) (r : PoolRef) :
    (∀ acquire plain b m', L.bufCreateFromPool m r cap acquire plain = (some b, m') →
        L.Holds m' b cap) ↔ L.hdr + cap < 2 ^ L.bits := by
  constructor
  · intro h
    obtain ⟨b, m', hb⟩ := bufCreateFromPool_some (L := L) m r cap (1, 0)
    exact (holds_iff_of_create hm hcap hb).mp (h _ _ _ _ hb)
  · exact fun hlt acquire plain b m' hb => (holds_iff_of_create hm hcap hb).mpr hlt

/-- Whatever pools there are, whatever they hold and whatever `malloc` answers, a new
buffer holds what was asked for exactly when header and capacity have a `size_t`. -/
theorem buf_alloc_holds_iff (L : BufLayout) {m : BufMemory} (hm : m.Filed) {cap : Nat}
    (hcap : 0 < cap) :
    ((∀ acquire plain b m', L.bufAlloc m cap acquire plain = (some b, m') → L.Holds m' b cap) ↔
        L.hdr + cap < 2 ^ L.bits) ∧
      ((∀ acquire plain b m', L.bufAllocLocal m cap acquire plain = (some b, m') →
          L.Holds m' b cap) ↔
        L.hdr + cap < 2 ^ L.bits) := by
  have hne : ¬ cap = 0 := Nat.pos_iff_ne_zero.mp hcap
  constructor
  · simp only [bufAlloc, if_neg hne]
    exact create_holds_iff hm hcap .shared
  · simp only [bufAllocLocal, bufAlloc, if_neg hne]
    split
    · exact create_holds_iff hm hcap .ofPoller
    · exact create_holds_iff hm hcap .shared

/-- A machine of 64 bits, and one of 32. -/
def lp64 : BufLayout := ⟨64, 40, by decide⟩

def ilp32 : BufLayout := ⟨32, 20, by decide⟩

/-- The pool of the poller after a block of 100 bytes was released into it. -/
def filedRun : List PoolAct :=
  [.setOwner (some 1), .acquire 100 (some (0x1000, 0)), .release ⟨1, true, true⟩ 0x1000 512]

/-- A buffer of 100 bytes, from the freelist. -/
theorem buf_alloc_holds_hundred :
    ∃ s m, poolMachine.Leads Machine.Any (.start 4 false) s ∧
      m = ⟨s.word, s.size, Function.update (fun _ => none) .ofPoller (some s.pool)⟩ ∧
      ∃ b m', lp64.bufAllocLocal m 100 none none = (some b, m') ∧ lp64.Holds m' b 100 := by
  have hpos : 0 < 100 := by decide
  have hrun : ((poolMachine.run (.start 4 false) filedRun).bind fun s =>
      (lp64.bufAllocLocal ⟨s.word, s.size, Function.update (fun _ => none) .ofPoller (some s.pool)⟩
        100 none none).1.map fun b => b.block) = some 0x1000 := by
    decide +kernel
  obtain ⟨s, hs, hblock⟩ := Option.bind_eq_some_iff.mp hrun
  obtain ⟨b, hb, -⟩ := Option.map_eq_some_iff.mp hblock
  have hl := Machine.leads_of_run filedRun _ s hs (Machine.runMeets_any _ _)
  have hfiled := PoolState.filed_of_leads hl .ofPoller
  have hholds := (buf_alloc_holds_iff lp64 hfiled hpos).2.mpr (by decide)
  generalize hm : (⟨s.word, s.size, Function.update (fun _ => none) .ofPoller (some s.pool)⟩ :
    BufMemory) = m at hb hholds
  obtain ⟨m', hret⟩ : ∃ m', lp64.bufAllocLocal m 100 none none = (some b, m') :=
    ⟨_, Prod.ext hb rfl⟩
  exact ⟨s, m, hl, hm.symm, b, m', hret, hholds none none b m' hret⟩

/-- Ten bytes less than a `size_t` can say: the block has ten bytes. -/
theorem buf_alloc_wraps :
    ∃ b m', ilp32.bufAlloc ⟨fun _ => 0, fun _ => none, fun _ => none⟩ (2 ^ 32 - 10) none
        (some (0x1000, 0)) = (some b, m') ∧ m'.size b.block = some 10 ∧
      ¬ ilp32.Holds m' b (2 ^ 32 - 10) := by
  have hneed : ilp32.need (2 ^ 32 - 10) = 10 := by decide
  rw [bufAlloc, bufCreateFromPool, bufCreateMalloc]
  rw [hneed, if_neg (by decide)]
  refine ⟨_, _, rfl, rfl, ?_⟩
  rintro ⟨-, n, hn, hle⟩
  have hten : some 10 = some n := hn
  cases hten
  exact absurd hle (by decide)

end BufLayout

end Ztk.Util
