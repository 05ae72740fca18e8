import Ztk.Lib.Machine
import Ztk.Lib.Threaded

/-!
# Pools of memory blocks

`ztk_buf_pool` of `buf.c`.  A block is named by its address, and its first word is
kept as it is in memory: while the block is in a freelist this word is
`ztk_buf_free_node.next`, and its lower half is the `refcnt` of a `ztk_buf` that
lives in the block (`int` is 32 bits wide, the machine is little-endian).

`malloc` answers with any address that is not in use, and memory with any contents,
or fails.  A call of `ztk_buf_pool_acquire` or `ztk_buf_pool_release` is one step:
the shared data is touched in one critical section, or by the owner only.  A
release from another thread posts `pool_release_deferred`, which runs later and in
any order with others; `ztk_poller_async` either posts it or fails without posting.

A run keeps the blocks that clients hold, with the `cap` that was reported to them.
A client writes to the blocks it holds.
-/

namespace Ztk.Util

open Ztk.Lib

/-! ## Buckets -/

/-- An address, or a word of memory.  The null pointer is 0. -/
abbrev Word := BitVec 64

/-- An index below `ZTK_BUF_BUCKET_COUNT`. -/
abbrev Bucket := Fin 9

/-- `k_bucket_caps`. -/
def bucketCaps : Bucket → Nat :=
  ![512, 2048, 8192, 32768, 65536, 131072, 524288, 1048576, 2097152]

/-- `bucket_index_for_size`. -/
def bucketIndexForSize (size : Nat) : Option Bucket :=
  (List.finRange 9).find? fun i => size ≤ bucketCaps i

/-- `bucket_index_exact_cap`. -/
def bucketIndexExactCap (cap : Nat) : Option Bucket :=
  (List.finRange 9).find? fun i => cap = bucketCaps i

/-! ## State -/

/-- `ztk_buf_pool_stats`. -/
structure PoolStats where
  acquireHit : UInt64
  acquireMiss : UInt64
  acquireOversize : UInt64
  releaseCached : UInt64
  releaseDropped : UInt64

/-- `ztk_buf_pool`. -/
structure BufPool where
  maxPerBucket : UInt32
  threadSafe : Bool
  freeHeads : Bucket → Word
  counts : Bucket → UInt32
  stats : PoolStats
  /-- The thread of `owner`, if there is one. -/
  owner : Option Nat

/-- `ztk_buf_pool_defer`, without its pool. -/
structure PoolDefer where
  ptr : Word
  cap : Nat
deriving DecidableEq

/-- A pool, the memory, the pending tasks, and what the clients have. -/
structure PoolState where
  pool : BufPool
  /-- The first word of the block at an address. -/
  word : Word → Word
  /-- The size of the block at an address, while it is allocated. -/
  size : Word → Option Nat
  /-- The tasks `pool_release_deferred` that are posted and have not run. -/
  deferred : List PoolDefer
  /-- The blocks that clients hold, with the `cap` reported for each. -/
  held : List (Word × Nat)
  /-- The sizes asked for, with the `cap` that was reported. -/
  reported : List (Nat × Nat)
  /-- `ztk_buf_pool_reset_stats` was called. -/
  wasReset : Bool

/-- What `malloc` answers: an address and the first word there, or null. -/
abbrev MallocAnswer := Option (Word × Word)

/-- What the surroundings decide in one call of `ztk_buf_pool_release`. -/
structure ReleaseEnv where
  /-- The calling thread. -/
  self : Nat
  /-- `malloc` returns a `ztk_buf_pool_defer`. -/
  mallocDefer : Bool
  /-- `ztk_poller_async` returns `ZTK_OK`. -/
  async : Bool

namespace PoolState

/-- `malloc(size)`. -/
def malloc (s : PoolState) (size : Nat) (answer : MallocAnswer) : Option Word × PoolState :=
  match answer with
  | none => (none, s)
  | some (p, w) =>
      (some p, { s with
        size := Function.update s.size p (some size)
        word := Function.update s.word p w })

/-- `free(p)`. -/
def free (s : PoolState) (p : Word) : PoolState :=
  { s with size := Function.update s.size p none }

/-- An assignment to `pool->stats`. -/
def onStats (s : PoolState) (f : PoolStats → PoolStats) : PoolState :=
  { s with pool := { s.pool with stats := f s.pool.stats } }

/-- The block `ptr` becomes the head of freelist `i`. -/
def pushFree (s : PoolState) (i : Bucket) (ptr : Word) : PoolState :=
  { s with
    word := Function.update s.word ptr (s.pool.freeHeads i)
    pool := { s.pool with
      freeHeads := Function.update s.pool.freeHeads i ptr
      counts := Function.update s.pool.counts i (s.pool.counts i + 1) } }

/-- The head of freelist `i` leaves it. -/
def popFree (s : PoolState) (i : Bucket) : PoolState :=
  { s with
    pool := { s.pool with
      freeHeads := Function.update s.pool.freeHeads i (s.word (s.pool.freeHeads i))
      counts := Function.update s.pool.counts i (s.pool.counts i - 1) } }

/-- `pool_release_now`. -/
def poolReleaseNow (s : PoolState) (ptr : Word) (cap : Nat) : PoolState :=
  match bucketIndexExactCap cap with
  | none =>
      (s.onStats fun st => { st with releaseDropped := st.releaseDropped + 1 }).free ptr
  | some i =>
      if s.pool.counts i < s.pool.maxPerBucket then
        (s.pushFree i ptr).onStats fun st => { st with releaseCached := st.releaseCached + 1 }
      else (s.onStats fun st => { st with releaseDropped := st.releaseDropped + 1 }).free ptr

/-- `ztk_buf_pool_acquire`: the block, and what is stored in `*out_cap`. -/
def bufPoolAcquire (s : PoolState) (size : Nat) (answer : MallocAnswer) :
    Option Word × Option Nat × PoolState :=
  if size = 0 then (none, none, s)
  else
    match bucketIndexForSize size with
    | none =>
        let (p, s) := s.malloc size answer
        (p, some size, s.onStats fun st => { st with acquireOversize := st.acquireOversize + 1 })
    | some i =>
        if s.pool.freeHeads i ≠ 0 then
          (some (s.pool.freeHeads i), some (bucketCaps i),
            (s.popFree i).onStats fun st => { st with acquireHit := st.acquireHit + 1 })
        else
          let s := s.onStats fun st => { st with acquireMiss := st.acquireMiss + 1 }
          match s.malloc (bucketCaps i) answer with
          | (none, s) => (none, none, s)
          | (some p, s) => (some p, some (bucketCaps i), s)

/-- `!pool->thread_safe && pool->owner && !ztk_poller_is_current_thread(pool->owner)`. -/
def defers (s : PoolState) (self : Nat) : Bool :=
  !s.pool.threadSafe && s.pool.owner.isSome && s.pool.owner != some self

/-- `ztk_buf_pool_release` for a block. -/
def bufPoolRelease (s : PoolState) (env : ReleaseEnv) (ptr : Word) (cap : Nat) : PoolState :=
  if s.defers env.self then
    if !env.mallocDefer then s.free ptr
    else if !env.async then s.free ptr
    else { s with deferred := s.deferred ++ [⟨ptr, cap⟩] }
  else s.poolReleaseNow ptr cap

/-- `pool_release_deferred`. -/
def poolReleaseDeferred (s : PoolState) (d : PoolDefer) : PoolState :=
  { s with deferred := s.deferred.erase d }.poolReleaseNow d.ptr d.cap

/-- A call of `ztk_buf_pool_acquire` has returned to its client. -/
def acquired (s : PoolState) (size : Nat) (answer : MallocAnswer) : PoolState :=
  let (p, cap, t) := s.bufPoolAcquire size answer
  { t with
    held := (p.map fun p => (p, cap.getD 0)).toList ++ t.held
    reported := t.reported ++ (cap.map fun cap => (size, cap)).toList }

/-- A client calls `ztk_buf_pool_release`. -/
def released (s : PoolState) (env : ReleaseEnv) (ptr : Word) (cap : Nat) : PoolState :=
  { s with held := s.held.erase (ptr, cap) }.bufPoolRelease env ptr cap

/-- `ztk_buf_pool_create`, with nothing allocated. -/
def start (maxPerBucket : UInt32) (threadSafe : Bool) : PoolState where
  pool :=
    { maxPerBucket := maxPerBucket, threadSafe := threadSafe, freeHeads := fun _ => 0
      counts := fun _ => 0, stats := ⟨0, 0, 0, 0, 0⟩, owner := none }
  word := fun _ => 0
  size := fun _ => none
  deferred := []
  held := []
  reported := []
  wasReset := false

/-- `malloc` returns memory that is not in use. -/
def Unused (s : PoolState) : MallocAnswer → Prop
  | none => True
  | some x => x.1 ≠ 0 ∧ s.size x.1 = none

instance (s : PoolState) (answer : MallocAnswer) : Decidable (s.Unused answer) :=
  match answer with
  | none => isTrue trivial
  | some x => inferInstanceAs (Decidable (x.1 ≠ 0 ∧ s.size x.1 = none))

end PoolState

/-! ## The machine -/

/-- The steps of a pool and its clients. -/
inductive PoolAct where
  | acquire (size : Nat) (answer : MallocAnswer)
  | release (env : ReleaseEnv) (ptr : Word) (cap : Nat)
  /-- A pending `pool_release_deferred` runs. -/
  | runDeferred (d : PoolDefer)
  /-- A client writes the first word of a block it holds. -/
  | write (ptr w : Word)
  /-- `ztk_buf_pool_set_owner_poller`. -/
  | setOwner (owner : Option Nat)
  /-- `ztk_buf_pool_reset_stats`. -/
  | resetStats

/-- One step.  A block is released by a client that holds it, with the `cap` that
was reported. -/
def poolStep (s : PoolState) : PoolAct → Option PoolState
  | .acquire size answer => if s.Unused answer then some (s.acquired size answer) else none
  | .release env ptr cap => if (ptr, cap) ∈ s.held then some (s.released env ptr cap) else none
  | .runDeferred d => if d ∈ s.deferred then some (s.poolReleaseDeferred d) else none
  | .write ptr w =>
      if ptr ∈ s.held.map Prod.fst then some { s with word := Function.update s.word ptr w }
      else none
  | .setOwner owner => some { s with pool := { s.pool with owner := owner } }
  | .resetStats => some { s.onStats fun _ => ⟨0, 0, 0, 0, 0⟩ with wasReset := true }

/-- A pool and its clients as a machine. -/
def poolMachine : Machine PoolState PoolAct := ⟨poolStep⟩

/-! ## Buckets and sizes -/

theorem bucketIndexForSize_le {size : Nat} {i : Bucket} (h : bucketIndexForSize size = some i) :
    size ≤ bucketCaps i := by
  simpa using List.find?_some h

theorem bucketIndexExactCap_eq {cap : Nat} {i : Bucket} (h : bucketIndexExactCap cap = some i) :
    cap = bucketCaps i := by
  simpa using List.find?_some h

end Ztk.Util
