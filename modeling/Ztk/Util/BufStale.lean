import Ztk.Util.BufPoolRuns

/-!
# Buffers in recycled memory

`ztk_buf` of `buf.c` in the blocks of a pool: `buf_create_from_pool`, `ztk_buf_ref`,
`ztk_buf_unref` and `ztk_buf_try_ref`.  The count of a buffer is the lower half of
the first word of its block, where a freelist keeps the address of its next block.
So what `ztk_buf_try_ref` finds behind a pointer to a dead buffer depends on where
the block is by then.

A run mixes buffers with raw blocks, which their clients may write to at will.  A
reference is used by a client that owns it.  A buffer that `buf_create_from_pool`
takes from `malloc` because the pool has no memory is not a buffer of the pool.
-/

namespace Ztk.Util

open Ztk.Lib

/-! ## The first word of a block -/

/-- `b->refcnt`, where the word is the first of the block. -/
def refcntOf (w : Word) : Int := (w.setWidth 32).toInt

/-- The word after an assignment to `b->refcnt`. -/
def withRefcnt (w : Word) (c : Int) : Word := w.extractLsb' 32 32 ++ BitVec.ofInt 32 c

theorem refcntOf_withRefcnt (w : Word) {c : Int} (hl : -2 ^ 31 ≤ c) (hu : c < 2 ^ 31) :
    refcntOf (withRefcnt w c) = c := by
  have hlow : (withRefcnt w c).setWidth 32 = BitVec.ofInt 32 c := by
    rw [withRefcnt, BitVec.setWidth_append]
    simp
  rw [refcntOf, hlow]
  exact BitVec.toInt_ofInt_eq_self (by decide) (by simpa using hl) (by simpa using hu)

/-! ## State -/

/-- A pool and the buffers in its blocks. -/
structure BufState where
  ps : PoolState
  /-- The references that clients own. -/
  refs : Word → Nat
  /-- `b->pool_blk_cap`. -/
  blkCap : Word → Nat
  /-- The last reference to a buffer at this address was dropped. -/
  dead : Word → Bool

namespace BufState

/-- `offsetof(ztk_buf, data)`. -/
def hdr : Nat := 40

/-- An assignment to `b->refcnt`. -/
def setRefcnt (s : BufState) (b : Word) (c : Int) : BufState :=
  { s with ps := { s.ps with word := Function.update s.ps.word b (withRefcnt (s.ps.word b) c) } }

/-- The part of `buf_create_from_pool` after the block is there. -/
def initBuf (s : BufState) (b : Word) (blkCap : Nat) : BufState :=
  { s.setRefcnt b 1 with
    refs := Function.update s.refs b 1
    blkCap := Function.update s.blkCap b blkCap }

/-- `ztk_buf_alloc` with the pool, for a `cap` that is not 0. -/
def bufAlloc (s : BufState) (cap : Nat) (answer : MallocAnswer) : BufState :=
  let t := { s with ps := s.ps.acquired (hdr + cap) answer }
  match s.ps.bufPoolAcquire (hdr + cap) answer with
  | (some b, blkCap, _) => t.initBuf b (blkCap.getD 0)
  | (none, _, _) => t

/-- `ztk_buf_ref`. -/
def bufRef (s : BufState) (b : Word) : BufState :=
  { s.setRefcnt b (refcntOf (s.ps.word b) + 1) with
    refs := Function.update s.refs b (s.refs b + 1) }

/-- `ztk_buf_unref`. -/
def bufUnref (s : BufState) (env : ReleaseEnv) (b : Word) : BufState :=
  let old := refcntOf (s.ps.word b)
  let t := { s.setRefcnt b (old - 1) with refs := Function.update s.refs b (s.refs b - 1) }
  if old = 1 then
    { t with ps := t.ps.released env b (s.blkCap b), dead := Function.update s.dead b true }
  else t

/-- `ztk_buf_try_ref`.  There is no result when the memory is not allocated. -/
def bufTryRef (s : BufState) (b : Word) : Option (Option Word × BufState) :=
  if (s.ps.size b).isNone then none
  else
    let c := refcntOf (s.ps.word b)
    if c ≤ 0 then some (none, s) else some (some b, s.setRefcnt b (c + 1))

/-- A pool with nothing allocated. -/
def start (maxPerBucket : UInt32) (threadSafe : Bool) : BufState where
  ps := .start maxPerBucket threadSafe
  refs := fun _ => 0
  blkCap := fun _ => 0
  dead := fun _ => false

end BufState

/-! ## The machine -/

inductive BufAct where
  /-- A raw client of the pool, or one of its tasks. -/
  | pool (a : PoolAct)
  | alloc (cap : Nat) (answer : MallocAnswer)
  | ref (b : Word)
  | unref (env : ReleaseEnv) (b : Word)

/-- A raw client leaves the blocks of buffers alone. -/
def PoolAct.raw (refs : Word → Nat) : PoolAct → Bool
  | .release _ ptr _ => refs ptr == 0
  | .write ptr _ => refs ptr == 0
  | .acquire _ _ | .runDeferred _ | .setOwner _ | .resetStats => true

def bufStep (s : BufState) : BufAct → Option BufState
  | .pool a => if a.raw s.refs then (poolStep s.ps a).map fun ps => { s with ps := ps } else none
  | .alloc cap answer =>
      if cap ≠ 0 ∧ s.ps.Unused answer then some (s.bufAlloc cap answer) else none
  | .ref b => if 0 < s.refs b then some (s.bufRef b) else none
  | .unref env b => if 0 < s.refs b then some (s.bufUnref env b) else none

/-- A pool with buffers and raw clients as a machine. -/
def bufMachine : Machine BufState BufAct := ⟨bufStep⟩

/-- A buffer has fewer than `2 ^ 31` references. -/
def FewRefs (s : BufState) : BufAct → Prop
  | .ref b => s.refs b + 1 < 2 ^ 31
  | _ => True

instance (s : BufState) (a : BufAct) : Decidable (FewRefs s a) :=
  match a with
  | .ref b => inferInstanceAs (Decidable (s.refs b + 1 < 2 ^ 31))
  | .pool _ | .alloc _ _ | .unref _ _ => isTrue trivial

/-! ## What the functions of the pool leave alone -/

theorem poolReleaseNow_frame (s : PoolState) (ptr : Word) (cap : Nat) :
    (s.poolReleaseNow ptr cap).held = s.held ∧
      ∀ b, b ≠ ptr → (s.poolReleaseNow ptr cap).word b = s.word b := by
  simp only [PoolState.poolReleaseNow]
  split
  · exact ⟨rfl, fun _ _ => rfl⟩
  · split
    · exact ⟨rfl, fun b hb => Function.update_of_ne hb _ _⟩
    · exact ⟨rfl, fun _ _ => rfl⟩

theorem bufPoolRelease_frame (s : PoolState) (env : ReleaseEnv) (ptr : Word) (cap : Nat) :
    (s.bufPoolRelease env ptr cap).held = s.held ∧
      ∀ b, b ≠ ptr → (s.bufPoolRelease env ptr cap).word b = s.word b := by
  simp only [PoolState.bufPoolRelease]
  split
  · split
    · exact ⟨rfl, fun _ _ => rfl⟩
    · split
      · exact ⟨rfl, fun _ _ => rfl⟩
      · exact ⟨rfl, fun _ _ => rfl⟩
  · exact poolReleaseNow_frame s ptr cap

theorem malloc_frame {s : PoolState} {answer : MallocAnswer} (hu : s.Unused answer) (size : Nat) :
    (s.malloc size answer).2.held = s.held ∧
      ∀ b, (s.size b).isSome → (s.malloc size answer).2.word b = s.word b := by
  cases answer with
  | none => exact ⟨rfl, fun _ _ => rfl⟩
  | some x =>
      refine ⟨rfl, fun b hb => Function.update_of_ne ?_ _ _⟩
      rintro rfl
      rw [hu.2] at hb
      cases hb

/-- Acquiring a block touches no word of an allocated one. -/
theorem bufPoolAcquire_frame {s : PoolState} {answer : MallocAnswer} (hu : s.Unused answer)
    (size : Nat) :
    (s.bufPoolAcquire size answer).2.2.held = s.held ∧
      ∀ b, (s.size b).isSome → (s.bufPoolAcquire size answer).2.2.word b = s.word b := by
  simp only [PoolState.bufPoolAcquire]
  split
  · exact ⟨rfl, fun _ _ => rfl⟩
  · split
    · exact malloc_frame hu size
    · next i _ =>
      split
      · exact ⟨rfl, fun _ _ => rfl⟩
      · have hm := malloc_frame
          (s := s.onStats fun st => { st with acquireMiss := st.acquireMiss + 1 }) hu (bucketCaps i)
        cases answer with
        | none => exact ⟨rfl, fun _ _ => rfl⟩
        | some x => exact hm

theorem acquired_frame {s : PoolState} {answer : MallocAnswer} (hu : s.Unused answer)
    (size : Nat) :
    (∀ x ∈ s.held, x ∈ (s.acquired size answer).held) ∧
      ∀ b, (s.size b).isSome → (s.acquired size answer).word b = s.word b := by
  obtain ⟨hheld, hword⟩ := bufPoolAcquire_frame hu size
  refine ⟨fun x hx => ?_, hword⟩
  show x ∈ _ ++ (s.bufPoolAcquire size answer).2.2.held
  rw [hheld]
  exact List.mem_append_right _ hx

/-! ## Live buffers -/

/-- Blocks are conserved, and a live buffer counts its references. -/
structure BufInv (s : BufState) : Prop where
  conserved : ∃ fl, Conserved [] s.ps fl
  live : ∀ b, 0 < s.refs b → (b, s.blkCap b) ∈ s.ps.held ∧
    refcntOf (s.ps.word b) = s.refs b ∧ s.refs b < 2 ^ 31

theorem BufInv.start (maxPerBucket : UInt32) (threadSafe : Bool) :
    BufInv (.start maxPerBucket threadSafe) where
  conserved := ⟨_, Conserved.start maxPerBucket threadSafe⟩
  live := fun _ hb => absurd hb (Nat.lt_irrefl 0)

/-- The places of a block that a client holds. -/
theorem Conserved.held_once {s : PoolState} {fl : Bucket → List Word} (h : Conserved [] s fl)
    {b : Word} (hb : b ∈ s.held.map Prod.fst) :
    (s.held.map Prod.fst).count b = 1 ∧ b ∉ s.deferred.map PoolDefer.ptr ∧ ∀ i, b ∉ fl i := by
  have hpos : 0 < (s.held.map Prod.fst).count b := List.count_pos_iff.mpr hb
  have hp := h.placed b
  have hsum : (∑ i, (fl i).count b) = 0 ∧ (s.deferred.map PoolDefer.ptr).count b = 0 ∧
      (s.held.map Prod.fst).count b = 1 := by
    simp only [PoolState.places, List.count_nil] at hp
    split at hp
    · omega
    · omega
  refine ⟨hsum.2.2, List.count_eq_zero.mp hsum.2.1, fun i => List.count_eq_zero.mp ?_⟩
  exact (Finset.sum_eq_zero_iff.mp hsum.1) i (Finset.mem_univ i)

namespace BufInv

variable {s : BufState}

/-- A step of the pool that keeps the blocks of live buffers and their words. -/
theorem onPool (h : BufInv s) {ps : PoolState} (hc : ∃ fl, Conserved [] ps fl)
    (hheld : ∀ b, 0 < s.refs b → (b, s.blkCap b) ∈ ps.held)
    (hword : ∀ b, 0 < s.refs b → ps.word b = s.ps.word b) : BufInv { s with ps := ps } where
  conserved := hc
  live := fun b hb => by
    obtain ⟨-, hcount, hlt⟩ := h.live b hb
    refine ⟨hheld b hb, ?_, hlt⟩
    show refcntOf (ps.word b) = s.refs b
    rw [hword b hb]
    exact hcount

theorem size_live (h : BufInv s) {b : Word} (hb : 0 < s.refs b) : (s.ps.size b).isSome := by
  obtain ⟨fl, hc⟩ := h.conserved
  rw [hc.heldCap _ (h.live b hb).1]
  rfl

theorem mem_held (h : BufInv s) {b : Word} (hb : 0 < s.refs b) : b ∈ s.ps.held.map Prod.fst :=
  List.mem_map_of_mem (h.live b hb).1

/-- A raw client, or a task of the pool. -/
theorem pool (h : BufInv s) {a : PoolAct} (hraw : a.raw s.refs = true) {ps : PoolState}
    (hs : poolStep s.ps a = some ps) : BufInv { s with ps := ps } := by
  obtain ⟨fl, hc⟩ := h.conserved
  refine h.onPool (Conserved.step h.conserved hs) ?_ ?_
  · intro b hb
    have hold := (h.live b hb).1
    cases a with
    | acquire size answer =>
        obtain ⟨hu, hs⟩ := Option.ite_none_right_eq_some.mp hs
        cases hs
        exact (acquired_frame hu size).1 _ hold
    | release env ptr cap =>
        obtain ⟨-, hs⟩ := Option.ite_none_right_eq_some.mp hs
        cases hs
        have hne : b ≠ ptr := by
          rintro rfl
          simp only [PoolAct.raw, beq_iff_eq] at hraw
          omega
        rw [PoolState.released, (bufPoolRelease_frame _ env ptr cap).1]
        exact (List.mem_erase_of_ne (by simp [hne])).mpr hold
    | runDeferred d =>
        obtain ⟨-, hs⟩ := Option.ite_none_right_eq_some.mp hs
        cases hs
        rw [PoolState.poolReleaseDeferred, (poolReleaseNow_frame _ d.ptr d.cap).1]
        exact hold
    | write ptr w =>
        obtain ⟨-, hs⟩ := Option.ite_none_right_eq_some.mp hs
        cases hs
        exact hold
    | setOwner owner =>
        cases hs
        exact hold
    | resetStats =>
        cases hs
        exact hold
  · intro b hb
    cases a with
    | acquire size answer =>
        obtain ⟨hu, hs⟩ := Option.ite_none_right_eq_some.mp hs
        cases hs
        exact (acquired_frame hu size).2 b (h.size_live hb)
    | release env ptr cap =>
        obtain ⟨-, hs⟩ := Option.ite_none_right_eq_some.mp hs
        cases hs
        refine (bufPoolRelease_frame _ env ptr cap).2 b ?_
        rintro rfl
        simp only [PoolAct.raw, beq_iff_eq] at hraw
        omega
    | runDeferred d =>
        obtain ⟨hd, hs⟩ := Option.ite_none_right_eq_some.mp hs
        cases hs
        refine (poolReleaseNow_frame _ d.ptr d.cap).2 b ?_
        rintro rfl
        exact (hc.held_once (h.mem_held hb)).2.1 (List.mem_map_of_mem hd)
    | write ptr w =>
        obtain ⟨-, hs⟩ := Option.ite_none_right_eq_some.mp hs
        cases hs
        refine Function.update_of_ne ?_ _ _
        rintro rfl
        simp only [PoolAct.raw, beq_iff_eq] at hraw
        omega
    | setOwner owner =>
        cases hs
        rfl
    | resetStats =>
        cases hs
        rfl

/-- The count of a live buffer is set to the number of its references. -/
theorem setRefcnt (h : BufInv s) {b : Word} {n : Nat} (hb : (b, s.blkCap b) ∈ s.ps.held)
    (hn : n < 2 ^ 31) :
    BufInv { s.setRefcnt b n with refs := Function.update s.refs b n } where
  conserved := by
    obtain ⟨fl, hc⟩ := h.conserved
    exact ⟨fl, hc.write (List.mem_map_of_mem hb) _⟩
  live := fun c hcpos => by
    by_cases hcb : c = b
    · subst hcb
      refine ⟨hb, ?_, ?_⟩
      · show refcntOf (Function.update s.ps.word c _ c) = (Function.update s.refs c n c : Nat)
        rw [Function.update_self, Function.update_self]
        exact refcntOf_withRefcnt _ (by omega) (by omega)
      · show Function.update s.refs c n c < 2 ^ 31
        rw [Function.update_self]
        exact hn
    · have hcpos : 0 < Function.update s.refs b n c := hcpos
      rw [Function.update_of_ne hcb] at hcpos
      obtain ⟨h₁, h₂, h₃⟩ := h.live c hcpos
      refine ⟨h₁, ?_, ?_⟩
      · show refcntOf (Function.update s.ps.word b _ c) = (Function.update s.refs b n c : Nat)
        rw [Function.update_of_ne hcb, Function.update_of_ne hcb]
        exact h₂
      · show Function.update s.refs b n c < 2 ^ 31
        rw [Function.update_of_ne hcb]
        exact h₃

theorem ref (h : BufInv s) {b : Word} (hb : 0 < s.refs b) (hfew : s.refs b + 1 < 2 ^ 31) :
    BufInv (s.bufRef b) := by
  obtain ⟨hheld, hcount, -⟩ := h.live b hb
  have := h.setRefcnt hheld hfew
  rw [BufState.bufRef, hcount]
  exact_mod_cast this

theorem unref (h : BufInv s) (env : ReleaseEnv) {b : Word} (hb : 0 < s.refs b) :
    BufInv (s.bufUnref env b) := by
  obtain ⟨hheld, hcount, hlt⟩ := h.live b hb
  have ht := h.setRefcnt (n := s.refs b - 1) hheld (by omega)
  have hcast : ((s.refs b - 1 : Nat) : Int) = (s.refs b : Int) - 1 := by omega
  rw [hcast] at ht
  simp only [BufState.bufUnref, hcount]
  split
  · next hone =>
      -- the block goes back, and no other buffer is in it
      have hzero : ∀ c, 0 < Function.update s.refs b (s.refs b - 1) c → c ≠ b := by
        rintro c hc rfl
        rw [Function.update_self] at hc
        omega
      obtain ⟨fl, hc⟩ := ht.conserved
      have hrel : BufInv { { s.setRefcnt b ((s.refs b : Int) - 1) with
          refs := Function.update s.refs b (s.refs b - 1) } with
          ps := (s.setRefcnt b ((s.refs b : Int) - 1)).ps.released env b (s.blkCap b) } := by
        refine ht.onPool (hc.released env hheld) (fun c hpos => ?_) fun c hpos => ?_
        · rw [PoolState.released, (bufPoolRelease_frame _ env b _).1]
          refine (List.mem_erase_of_ne ?_).mpr (ht.live c hpos).1
          simp [hzero c hpos]
        · exact (bufPoolRelease_frame _ env b _).2 c (hzero c hpos)
      exact ⟨hrel.conserved, hrel.live⟩
  · exact ht

theorem alloc (h : BufInv s) (cap : Nat) {answer : MallocAnswer} (hu : s.ps.Unused answer) :
    BufInv (s.bufAlloc cap answer) := by
  have hacq : BufInv { s with ps := s.ps.acquired (BufState.hdr + cap) answer } :=
    h.pool (a := .acquire (BufState.hdr + cap) answer) rfl (if_pos hu)
  obtain ⟨hheld, -⟩ := bufPoolAcquire_frame hu (BufState.hdr + cap)
  simp only [BufState.bufAlloc]
  cases hr : s.ps.bufPoolAcquire (BufState.hdr + cap) answer with
  | mk q rest =>
      obtain ⟨blkCap, t⟩ := rest
      cases q with
      | none => exact hacq
      | some b =>
          -- the block was with nobody, so no live buffer is in it
          rw [hr] at hheld
          have hnew : (s.ps.acquired (BufState.hdr + cap) answer).held =
              (b, blkCap.getD 0) :: s.ps.held := by
            rw [Conserved.acquired_eq hr]
            exact congrArg ((b, blkCap.getD 0) :: ·) hheld
          obtain ⟨fl, hc⟩ := hacq.conserved
          have hfresh : ∀ c, 0 < s.refs c → c ≠ b := by
            rintro c hpos rfl
            have hone := (hc.held_once (b := c) (by
              show c ∈ (s.ps.acquired (BufState.hdr + cap) answer).held.map Prod.fst
              rw [hnew]
              exact List.mem_cons_self)).1
            have hmem : 0 < (s.ps.held.map Prod.fst).count c :=
              List.count_pos_iff.mpr (h.mem_held hpos)
            simp only [hnew, List.map_cons, List.count_cons_self] at hone
            omega
          have hcap : BufInv { s with
              ps := s.ps.acquired (BufState.hdr + cap) answer
              blkCap := Function.update s.blkCap b (blkCap.getD 0) } :=
            { conserved := hacq.conserved
              live := fun c hpos => by
                obtain ⟨h₁, h₂⟩ := hacq.live c hpos
                refine ⟨?_, h₂⟩
                show (c, Function.update s.blkCap b (blkCap.getD 0) c) ∈ _
                rw [Function.update_of_ne (hfresh c hpos)]
                exact h₁ }
          refine hcap.setRefcnt (n := 1) ?_ (by decide)
          show (b, Function.update s.blkCap b (blkCap.getD 0) b) ∈
            (s.ps.acquired (BufState.hdr + cap) answer).held
          rw [hnew, Function.update_self]
          exact List.mem_cons_self

theorem step (h : BufInv s) {a : BufAct} {t : BufState} (hfew : FewRefs s a)
    (hs : bufMachine.step s a = some t) : BufInv t := by
  cases a with
  | pool a =>
      obtain ⟨hraw, hs⟩ := Option.ite_none_right_eq_some.mp hs
      obtain ⟨ps, hps, rfl⟩ := Option.map_eq_some_iff.mp hs
      exact h.pool hraw hps
  | alloc cap answer =>
      obtain ⟨⟨-, hu⟩, hs⟩ := Option.ite_none_right_eq_some.mp hs
      cases hs
      exact h.alloc cap hu
  | ref b =>
      obtain ⟨hb, hs⟩ := Option.ite_none_right_eq_some.mp hs
      cases hs
      exact h.ref hb hfew
  | unref env b =>
      obtain ⟨hb, hs⟩ := Option.ite_none_right_eq_some.mp hs
      cases hs
      exact h.unref env hb

end BufInv

/-! ## Stale pointers -/

/-- The call finds no positive count: the block is in a freelist, and the address of
the block after it reads as a count that is not positive; or the block is with a raw
client or a pending task, and its first word reads so. -/
def ReadsDead (s : BufState) (b : Word) : Prop :=
  (∃ i l₁ l₂, Threaded s.ps.word 0 (s.ps.pool.freeHeads i) (l₁ ++ b :: l₂) ∧
    refcntOf (l₂.headD 0) ≤ 0) ∨
  ((b ∈ s.ps.held.map Prod.fst ∨ b ∈ s.ps.deferred.map PoolDefer.ptr) ∧ s.refs b = 0 ∧
    refcntOf (s.ps.word b) ≤ 0)

theorem bufTryRef_none_iff (s : BufState) (b : Word) :
    s.bufTryRef b = some (none, s) ↔
      (s.ps.size b).isSome ∧ refcntOf (s.ps.word b) ≤ 0 := by
  simp only [BufState.bufTryRef]
  cases hsize : s.ps.size b with
  | none => simp
  | some n =>
      by_cases hc : refcntOf (s.ps.word b) ≤ 0
      · simp [hc]
      · simp [hc]

/-- An allocated block is with a client, with a task or in a freelist. -/
theorem Conserved.place {s : PoolState} {fl : Bucket → List Word} (h : Conserved [] s fl)
    {b : Word} (hb : (s.size b).isSome) :
    b ∈ s.held.map Prod.fst ∨ b ∈ s.deferred.map PoolDefer.ptr ∨ ∃ i, b ∈ fl i := by
  have hp := h.placed b
  rw [if_pos hb] at hp
  by_contra hn
  obtain ⟨h₁, h₂, h₃⟩ : b ∉ s.held.map Prod.fst ∧ b ∉ s.deferred.map PoolDefer.ptr ∧
      ∀ i, b ∉ fl i := by
    simpa only [not_or, not_exists] using hn
  have h₄ : ∑ i, (fl i).count b = 0 :=
    Finset.sum_eq_zero fun i _ => List.count_eq_zero.mpr (h₃ i)
  simp only [PoolState.places, List.count_nil, List.count_eq_zero.mpr h₁,
    List.count_eq_zero.mpr h₂, h₄] at hp
  omega

/-- In every state of a run, `ztk_buf_try_ref` on an address, whatever lived there
before, returns null and changes nothing exactly when the memory is allocated, no
buffer lives there, and its first word reads as a count that is not positive. -/
theorem buf_try_ref_stale_iff (maxPerBucket : UInt32) (threadSafe : Bool) (s : BufState)
    (h : bufMachine.Leads FewRefs (.start maxPerBucket threadSafe) s) (b : Word) :
    s.bufTryRef b = some (none, s) ↔ ReadsDead s b := by
  have hinv : BufInv s := h.invariant (fun _ _ _ hi hc hs => hi.step hc hs)
    (BufInv.start maxPerBucket threadSafe)
  obtain ⟨fl, hc⟩ := hinv.conserved
  rw [bufTryRef_none_iff]
  constructor
  · rintro ⟨hsize, hread⟩
    have hdead : s.refs b = 0 := by
      by_contra hne
      have := (hinv.live b (Nat.pos_of_ne_zero hne)).2.1
      omega
    rcases hc.place hsize with hb | hb | ⟨i, hb⟩
    · exact Or.inr ⟨Or.inl hb, hdead, hread⟩
    · exact Or.inr ⟨Or.inr hb, hdead, hread⟩
    · obtain ⟨l₁, l₂, hl⟩ := List.append_of_mem hb
      have hlink := hc.linked i
      rw [hl] at hlink
      refine Or.inl ⟨i, l₁, l₂, hlink, ?_⟩
      rw [← hlink.next_eq]
      exact hread
  · rintro (⟨i, l₁, l₂, hlink, hread⟩ | ⟨hb, -, hread⟩)
    · have hb : b ∈ fl i := by
        rw [(hc.linked i).unique hlink]
        exact List.mem_append_right _ List.mem_cons_self
      refine ⟨by rw [hc.filed i b hb]; rfl, ?_⟩
      rw [hlink.next_eq]
      exact hread
    · refine ⟨?_, hread⟩
      rcases hb with hb | hb
      · obtain ⟨x, hx, rfl⟩ := List.mem_map.mp hb
        rw [hc.heldCap x hx]
        rfl
      · obtain ⟨d, hd, rfl⟩ := List.mem_map.mp hb
        rw [hc.deferredCap d hd]
        rfl

/-- A buffer is dropped and alone in its freelist. -/
def oneDead : List BufAct := [.alloc 100 (some (0x1000, 0)), .unref ⟨1, true, true⟩ 0x1000]

theorem buf_try_ref_last :
    ∃ s, bufMachine.run (.start 4 true) oneDead = some s ∧ s.dead 0x1000 = true ∧
      (s.bufTryRef 0x1000 = some (none, s) ↔ ReadsDead s 0x1000) := by
  have hrun : (bufMachine.run (.start 4 true) oneDead).map (fun s => s.dead 0x1000)
      = some true := by decide +kernel
  obtain ⟨s, hs, hdead⟩ := Option.map_eq_some_iff.mp hrun
  refine ⟨s, hs, hdead, buf_try_ref_stale_iff 4 true s ?_ 0x1000⟩
  exact Machine.leads_of_run oneDead _ _ hs (by decide +kernel)

/-- Two buffers are dropped, so that the second leads to the first in their freelist. -/
def twoDead : List BufAct :=
  [.alloc 100 (some (0x1000, 0)), .alloc 100 (some (0x2000, 0)),
    .unref ⟨1, true, true⟩ 0x1000, .unref ⟨1, true, true⟩ 0x2000]

/-- `ztk_buf_try_ref` revives the second and moves the link of the freelist. -/
theorem buf_try_ref_revives :
    ∃ s t, bufMachine.run (.start 4 true) twoDead = some s ∧ s.dead 0x2000 = true ∧
      s.bufTryRef 0x2000 = some (some 0x2000, t) ∧ s.ps.word 0x2000 = 0x1000 ∧
      t.ps.word 0x2000 = 0x1001 := by
  have hrun : (bufMachine.run (.start 4 true) twoDead).map
      (fun s => (s.dead 0x2000, (s.bufTryRef 0x2000).map fun r => (r.1, r.2.ps.word 0x2000),
        s.ps.word 0x2000)) = some (true, some (some 0x2000, 0x1001), 0x1000) := by decide +kernel
  obtain ⟨s, hs, heq⟩ := Option.map_eq_some_iff.mp hrun
  obtain ⟨hdead, htry, hword⟩ : s.dead 0x2000 = true ∧
      ((s.bufTryRef 0x2000).map fun r => (r.1, r.2.ps.word 0x2000)) =
        some (some 0x2000, 0x1001) ∧ s.ps.word 0x2000 = 0x1000 := by
    simpa using heq
  obtain ⟨⟨q, t⟩, hr, hqt⟩ := Option.map_eq_some_iff.mp htry
  simp only [Prod.mk.injEq] at hqt
  obtain ⟨rfl, hlink⟩ := hqt
  exact ⟨s, t, hs, hdead, hr, hword, hlink⟩

end Ztk.Util
