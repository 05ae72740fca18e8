import Ztk.Lib.Tally
import Ztk.Util.BufPool

/-!
# Conservation of blocks

Every block that is allocated is in exactly one place: with a client, with a
pending task, or in one freelist.  `Conserved hand s fl` says so in every state of a
run, where `fl` are the blocks of the freelists and `hand` are blocks that a
function has taken from one place and not yet put into another.  Each lemma moves
one block: into the hand from a client, a task, a freelist or `malloc`, and out of
it to a client, a task, a freelist or `free`.
-/

namespace Ztk.Util

open Ztk.Lib

namespace PoolState

/-- The number of places a block is in. -/
def places (s : PoolState) (fl : Bucket → List Word) (b : Word) : Nat :=
  (s.held.map Prod.fst).count b + (s.deferred.map PoolDefer.ptr).count b +
    ∑ i, (fl i).count b

end PoolState

/-- Every allocated block is in exactly one place, or in the hand of a function. -/
structure Conserved (hand : List Word) (s : PoolState) (fl : Bucket → List Word) : Prop where
  linked : ∀ i, Threaded s.word 0 (s.pool.freeHeads i) (fl i)
  placed : ∀ b, hand.count b + s.places fl b = if (s.size b).isSome then 1 else 0
  filed : ∀ i, ∀ b ∈ fl i, s.size b = some (bucketCaps i)
  heldCap : ∀ x ∈ s.held, s.size x.1 = some x.2
  deferredCap : ∀ d ∈ s.deferred, s.size d.ptr = some d.cap
  nonnull : s.size 0 = none
  counted : ∀ i, (s.pool.counts i).toNat = (fl i).length
  bounded : ∀ i, s.pool.counts i ≤ s.pool.maxPerBucket
  reported : ∀ r ∈ s.reported, r.1 ≤ r.2
  stats : s.wasReset = false →
    s.pool.stats.acquireHit + UInt64.ofNat (∑ i, (fl i).length) = s.pool.stats.releaseCached

theorem Conserved.start (maxPerBucket : UInt32) (threadSafe : Bool) :
    Conserved [] (.start maxPerBucket threadSafe) fun _ => [] where
  linked := fun _ => rfl
  placed := fun b => by simp [PoolState.places, PoolState.start]
  filed := fun _ b hb => by cases hb
  heldCap := fun x hx => by cases hx
  deferredCap := fun d hd => by cases hd
  nonnull := rfl
  counted := fun _ => rfl
  bounded := fun _ => UInt32.zero_le
  reported := fun r hr => by cases hr
  stats := fun _ => rfl

namespace Conserved

variable {hand : List Word} {s : PoolState} {fl : Bucket → List Word} {p : Word}

/-- A block in the hand is allocated and nowhere else. -/
theorem of_hand (h : Conserved (p :: hand) s fl) :
    (s.size p).isSome ∧ hand.count p = 0 ∧ s.places fl p = 0 := by
  have hp := h.placed p
  rw [List.count_cons_self] at hp
  split at hp
  · next hs => exact ⟨hs, by omega, by omega⟩
  · omega

theorem notMem_freelist {b : Word} (hb : s.places fl b = 0) (i : Bucket) : b ∉ fl i := by
  intro hm
  have h₁ : 0 < (fl i).count b := List.count_pos_iff.mpr hm
  have h₂ : (fl i).count b ≤ ∑ j, (fl j).count b :=
    Finset.single_le_sum (fun j _ => Nat.zero_le ((fl j).count b)) (Finset.mem_univ i)
  simp only [PoolState.places] at hb
  omega

/-- A block that is not allocated is nowhere. -/
theorem places_unused {b : Word} (h : Conserved hand s fl) (hb : s.size b = none) :
    hand.count b = 0 ∧ s.places fl b = 0 := by
  have := h.placed b
  rw [hb] at this
  simp only [Option.isSome_none, Bool.false_eq_true, if_false] at this
  omega

theorem count_erase_map {α : Type} [BEq α] [LawfulBEq α] (f : α → Word) {x : α} {l : List α}
    (hx : x ∈ l) (b : Word) :
    (l.map f).count b = (f x :: (l.erase x).map f).count b :=
  ((List.perm_cons_erase hx).map f).count_eq b

/-! ## Into the hand -/

/-- A client gives a block back. -/
theorem takeHeld (h : Conserved hand s fl) {cap : Nat} (hx : (p, cap) ∈ s.held) :
    Conserved (p :: hand) { s with held := s.held.erase (p, cap) } fl ∧ s.size p = some cap := by
  refine ⟨?_, h.heldCap _ hx⟩
  exact
    { h with
      placed := fun b => by
        have hc := count_erase_map Prod.fst hx b
        have := h.placed b
        simp only [PoolState.places, List.count_cons] at hc this ⊢
        omega
      heldCap := fun x hm => h.heldCap x (List.mem_of_mem_erase hm) }

/-- A task is about to release its block. -/
theorem takeDeferred (h : Conserved hand s fl) {d : PoolDefer} (hd : d ∈ s.deferred) :
    Conserved (d.ptr :: hand) { s with deferred := s.deferred.erase d } fl ∧
      s.size d.ptr = some d.cap := by
  refine ⟨?_, h.deferredCap d hd⟩
  exact
    { h with
      placed := fun b => by
        have hc := count_erase_map PoolDefer.ptr hd b
        have := h.placed b
        simp only [PoolState.places, List.count_cons] at hc this ⊢
        omega
      deferredCap := fun x hm => h.deferredCap x (List.mem_of_mem_erase hm) }

/-- Counters that the equation does not mention. -/
theorem onStats (h : Conserved hand s fl) {f : PoolStats → PoolStats}
    (hhit : (f s.pool.stats).acquireHit = s.pool.stats.acquireHit)
    (hcached : (f s.pool.stats).releaseCached = s.pool.stats.releaseCached) :
    Conserved hand (s.onStats f) fl :=
  { h with
    stats := fun hr => by
      show (f s.pool.stats).acquireHit + _ = (f s.pool.stats).releaseCached
      rw [hhit, hcached]
      exact h.stats hr }

/-- `malloc` returns a block. -/
theorem malloc (h : Conserved hand s fl) {w : Word} (size : Nat) (hp : p ≠ 0)
    (hu : s.size p = none) :
    Conserved (p :: hand) (s.malloc size (some (p, w))).2 fl := by
  obtain ⟨hhand, hplaces⟩ := h.places_unused hu
  have hsize : ∀ {b n}, s.size b = some n → Function.update s.size p (some size) b = some n := by
    intro b n hb
    rw [Function.update_of_ne fun he => by rw [he, hu] at hb; cases hb]
    exact hb
  exact
    { h with
      linked := fun i => (h.linked i).write (notMem_freelist hplaces i) w
      placed := fun b => by
        have := h.placed b
        show (p :: hand).count b + s.places fl b = _
        rw [PoolState.malloc]
        by_cases hb : b = p
        · subst hb
          simp [hhand, hplaces]
        · rw [List.count_cons_of_ne (Ne.symm hb), this]
          simp [hb]
      filed := fun i b hb => hsize (h.filed i b hb)
      heldCap := fun x hx => hsize (h.heldCap x hx)
      deferredCap := fun d hd => hsize (h.deferredCap d hd)
      nonnull := by
        show Function.update s.size p (some size) 0 = none
        rw [Function.update_of_ne (Ne.symm hp)]
        exact h.nonnull }

/-- The head of a freelist is taken, and the hit is counted. -/
theorem popFree (h : Conserved hand s fl) {i : Bucket} (hp : s.pool.freeHeads i ≠ 0) :
    ∃ bs, Conserved (s.pool.freeHeads i :: hand)
        ((s.popFree i).onStats fun st => { st with acquireHit := st.acquireHit + 1 })
        (Function.update fl i bs) ∧
      s.size (s.pool.freeHeads i) = some (bucketCaps i) := by
  obtain ⟨bs, hfl, hbs⟩ := (h.linked i).of_ne_null hp
  have hcount : (s.pool.counts i).toNat = bs.length + 1 := by rw [h.counted i, hfl]; rfl
  have hsub : (s.pool.counts i - 1).toNat = bs.length := by
    rw [UInt32.toNat_sub_of_le _ _ (UInt32.le_iff_toNat_le.mpr (by rw [hcount]; simp)), hcount]
    simp
  have hmem : ∀ j, ∀ b ∈ Function.update fl i bs j, b ∈ fl j := by
    intro j b hb
    by_cases hj : j = i
    · subst hj
      rw [Function.update_self] at hb
      rw [hfl]
      exact List.mem_cons_of_mem _ hb
    · rwa [Function.update_of_ne hj] at hb
  refine ⟨bs, ?_, h.filed i _ (by rw [hfl]; exact List.mem_cons_self)⟩
  exact
    { h with
      linked := fun j => by
        show Threaded s.word 0 (Function.update s.pool.freeHeads i _ j) _
        by_cases hj : j = i
        · subst hj
          rw [Function.update_self, Function.update_self]
          exact hbs
        · rw [Function.update_of_ne hj, Function.update_of_ne hj]
          exact h.linked j
      placed := fun b => by
        have hsum := sum_update fl i bs fun l => l.count b
        have := h.placed b
        simp only [hfl, List.count_cons] at hsum
        show (s.pool.freeHeads i :: hand).count b + s.places (Function.update fl i bs) b =
          if (s.size b).isSome then 1 else 0
        simp only [PoolState.places, List.count_cons] at this ⊢
        omega
      filed := fun j b hb => h.filed j b (hmem j b hb)
      counted := fun j => by
        show (Function.update s.pool.counts i _ j).toNat = _
        by_cases hj : j = i
        · subst hj
          rw [Function.update_self, Function.update_self, hsub]
        · rw [Function.update_of_ne hj, Function.update_of_ne hj]
          exact h.counted j
      bounded := fun j => by
        show Function.update s.pool.counts i _ j ≤ s.pool.maxPerBucket
        by_cases hj : j = i
        · subst hj
          rw [Function.update_self]
          have := UInt32.le_iff_toNat_le.mp (h.bounded j)
          exact UInt32.le_iff_toNat_le.mpr (by omega)
        · rw [Function.update_of_ne hj]
          exact h.bounded j
      stats := fun hr => by
        have hsum := sum_update fl i bs fun l => l.length
        have hold := h.stats hr
        rw [hfl, List.length_cons] at hsum
        have hn : ∑ j, (fl j).length = (∑ j, (Function.update fl i bs j).length) + 1 := by omega
        show s.pool.stats.acquireHit + 1 + _ = s.pool.stats.releaseCached
        rw [← hold, hn, UInt64.ofNat_add]
        grind }

/-! ## Out of the hand -/

/-- `free` of a block in the hand. -/
theorem free (h : Conserved (p :: hand) s fl) : Conserved hand (s.free p) fl := by
  obtain ⟨hp, hhand, hplaces⟩ := h.of_hand
  have hsize : ∀ {b n}, b ≠ p → s.size b = some n → Function.update s.size p none b = some n := by
    intro b n hne hb
    rwa [Function.update_of_ne hne]
  have hheld : ∀ x ∈ s.held, x.1 ≠ p := by
    rintro x hx rfl
    have : 0 < (s.held.map Prod.fst).count x.1 :=
      List.count_pos_iff.mpr (List.mem_map_of_mem hx)
    simp only [PoolState.places] at hplaces
    omega
  have hdef : ∀ d ∈ s.deferred, d.ptr ≠ p := by
    rintro d hd rfl
    have : 0 < (s.deferred.map PoolDefer.ptr).count d.ptr :=
      List.count_pos_iff.mpr (List.mem_map_of_mem hd)
    simp only [PoolState.places] at hplaces
    omega
  exact
    { h with
      placed := fun b => by
        have := h.placed b
        show hand.count b + s.places fl b = _
        rw [PoolState.free]
        by_cases hb : b = p
        · subst hb
          simp [hhand, hplaces]
        · rw [List.count_cons_of_ne (Ne.symm hb)] at this
          rw [this]
          simp [hb]
      filed := fun i b hb => hsize (fun he => notMem_freelist hplaces i (he ▸ hb)) (h.filed i b hb)
      heldCap := fun x hx => hsize (hheld x hx) (h.heldCap x hx)
      deferredCap := fun d hd => hsize (hdef d hd) (h.deferredCap d hd)
      nonnull := by
        show Function.update s.size p none 0 = none
        by_cases h0 : (0 : Word) = p
        · rw [h0, Function.update_self]
        · rw [Function.update_of_ne h0]
          exact h.nonnull }

/-- A client gets a block. -/
theorem giveHeld (h : Conserved [p] s fl) {cap : Nat} (hs : s.size p = some cap) :
    Conserved [] { s with held := (p, cap) :: s.held } fl :=
  { h with
    placed := fun b => by
      have := h.placed b
      simp only [PoolState.places, List.map_cons, List.count_cons, List.count_nil] at this ⊢
      omega
    heldCap := fun x hx => by
      rcases List.mem_cons.mp hx with rfl | hx
      · exact hs
      · exact h.heldCap x hx }

/-- A task gets a block. -/
theorem giveDeferred (h : Conserved (p :: hand) s fl) {cap : Nat} (hs : s.size p = some cap) :
    Conserved hand { s with deferred := s.deferred ++ [⟨p, cap⟩] } fl :=
  { h with
    placed := fun b => by
      have := h.placed b
      simp only [PoolState.places, List.map_append, List.map_cons, List.map_nil, List.count_append,
        List.count_cons, List.count_nil] at this ⊢
      omega
    deferredCap := fun d hd => by
      rcases List.mem_append.mp hd with hd | hd
      · exact h.deferredCap d hd
      · rw [List.mem_singleton.mp hd]
        exact hs }

/-- A block becomes the head of its freelist, and this is counted. -/
theorem pushFree (h : Conserved (p :: hand) s fl) {i : Bucket}
    (hs : s.size p = some (bucketCaps i)) (hroom : s.pool.counts i < s.pool.maxPerBucket) :
    Conserved hand ((s.pushFree i p).onStats fun st =>
        { st with releaseCached := st.releaseCached + 1 })
      (Function.update fl i (p :: fl i)) := by
  obtain ⟨-, -, hplaces⟩ := h.of_hand
  have hp : p ≠ 0 := by
    rintro rfl
    rw [h.nonnull] at hs
    cases hs
  have hlt := UInt32.lt_iff_toNat_lt.mp hroom
  have hadd : (s.pool.counts i + 1).toNat = (s.pool.counts i).toNat + 1 := by
    have := s.pool.maxPerBucket.toNat_lt
    rw [UInt32.toNat_add]
    exact Nat.mod_eq_of_lt (by simp; omega)
  exact
    { h with
      linked := fun j => by
        show Threaded (Function.update s.word p _) 0 (Function.update s.pool.freeHeads i p j) _
        by_cases hj : j = i
        · subst hj
          rw [Function.update_self, Function.update_self]
          exact (h.linked j).push (notMem_freelist hplaces j) hp
        · rw [Function.update_of_ne hj, Function.update_of_ne hj]
          exact (h.linked j).write (notMem_freelist hplaces j) _
      placed := fun b => by
        have hsum := sum_update fl i (p :: fl i) fun l => l.count b
        have := h.placed b
        show hand.count b + s.places (Function.update fl i (p :: fl i)) b =
          if (s.size b).isSome then 1 else 0
        simp only [PoolState.places, List.count_cons] at this hsum ⊢
        omega
      filed := fun j b hb => by
        by_cases hj : j = i
        · subst hj
          rw [Function.update_self] at hb
          rcases List.mem_cons.mp hb with rfl | hb
          · exact hs
          · exact h.filed j b hb
        · rw [Function.update_of_ne hj] at hb
          exact h.filed j b hb
      counted := fun j => by
        show (Function.update s.pool.counts i _ j).toNat = _
        by_cases hj : j = i
        · subst hj
          rw [Function.update_self, Function.update_self, hadd, h.counted j, List.length_cons]
        · rw [Function.update_of_ne hj, Function.update_of_ne hj]
          exact h.counted j
      bounded := fun j => by
        show Function.update s.pool.counts i _ j ≤ s.pool.maxPerBucket
        by_cases hj : j = i
        · subst hj
          rw [Function.update_self]
          exact UInt32.le_iff_toNat_le.mpr (by omega)
        · rw [Function.update_of_ne hj]
          exact h.bounded j
      stats := fun hr => by
        have hsum := sum_update fl i (p :: fl i) fun l => l.length
        have hold := h.stats hr
        simp only [List.length_cons] at hsum
        have hn : ∑ j, (Function.update fl i (p :: fl i) j).length = (∑ j, (fl j).length) + 1 := by
          omega
        show s.pool.stats.acquireHit + _ = s.pool.stats.releaseCached + 1
        rw [← hold, hn, UInt64.ofNat_add]
        grind }

/-! ## The functions of the source -/

/-- `pool_release_now` finds a place for its block, or frees it. -/
theorem releaseNow (h : Conserved (p :: hand) s fl) {cap : Nat} (hs : s.size p = some cap) :
    ∃ fl', Conserved hand (s.poolReleaseNow p cap) fl' := by
  simp only [PoolState.poolReleaseNow]
  split
  · exact ⟨fl, Conserved.free (h.onStats rfl rfl)⟩
  · next i hi =>
    have hcap := bucketIndexExactCap_eq hi
    subst hcap
    split
    · next hroom => exact ⟨_, h.pushFree hs hroom⟩
    · exact ⟨fl, Conserved.free (h.onStats rfl rfl)⟩

theorem release (h : Conserved (p :: hand) s fl) (env : ReleaseEnv) {cap : Nat}
    (hs : s.size p = some cap) : ∃ fl', Conserved hand (s.bufPoolRelease env p cap) fl' := by
  simp only [PoolState.bufPoolRelease]
  split
  · split
    · exact ⟨fl, h.free⟩
    · split
      · exact ⟨fl, h.free⟩
      · exact ⟨fl, h.giveDeferred hs⟩
  · exact h.releaseNow hs

theorem released (h : Conserved [] s fl) (env : ReleaseEnv) {cap : Nat} (hx : (p, cap) ∈ s.held) :
    ∃ fl', Conserved [] (s.released env p cap) fl' := by
  obtain ⟨hhand, hs⟩ := h.takeHeld hx
  exact hhand.release env hs

theorem releaseDeferred (h : Conserved [] s fl) {d : PoolDefer} (hd : d ∈ s.deferred) :
    ∃ fl', Conserved [] (s.poolReleaseDeferred d) fl' := by
  obtain ⟨hhand, hs⟩ := h.takeDeferred hd
  exact hhand.releaseNow hs

/-- The answer is recorded. -/
theorem report (h : Conserved hand s fl) {size cap : Nat} (hle : size ≤ cap) :
    Conserved hand { s with reported := s.reported ++ [(size, cap)] } fl :=
  { h with
    reported := fun r hr => by
      rcases List.mem_append.mp hr with hr | hr
      · exact h.reported r hr
      · rw [List.mem_singleton.mp hr]
        exact hle }

/-- A client gets a block and is told its `cap`. -/
theorem handOver (h : Conserved [p] s fl) {size cap : Nat} (hs : s.size p = some cap)
    (hle : size ≤ cap) :
    Conserved [] { s with
      held := (p, cap) :: s.held, reported := s.reported ++ [(size, cap)] } fl :=
  (h.giveHeld hs).report hle

theorem acquired_eq {size : Nat} {answer : MallocAnswer} {q : Option Word} {cap : Option Nat}
    {t : PoolState} (h : s.bufPoolAcquire size answer = (q, cap, t)) :
    s.acquired size answer = { t with
      held := (q.map fun p => (p, cap.getD 0)).toList ++ t.held
      reported := t.reported ++ (cap.map fun cap => (size, cap)).toList } := by
  simp only [PoolState.acquired, h]

/-- A call that returns null and reports nothing. -/
theorem acquired_none {t : PoolState} {size : Nat} {answer : MallocAnswer} (ht : Conserved [] t fl)
    (heq : s.bufPoolAcquire size answer = (none, none, t)) :
    ∃ fl', Conserved [] (s.acquired size answer) fl' := by
  rw [acquired_eq heq]
  exact ⟨fl, { ht with reported := fun r hr => ht.reported r (by simpa using hr) }⟩

theorem acquired (h : Conserved [] s fl) (size : Nat) {answer : MallocAnswer}
    (hu : s.Unused answer) : ∃ fl', Conserved [] (s.acquired size answer) fl' := by
  by_cases hz : size = 0
  · exact acquired_none h (by rw [PoolState.bufPoolAcquire, if_pos hz])
  · cases hi : bucketIndexForSize size with
    | none =>
        -- larger than every bucket
        have heq : s.bufPoolAcquire size answer = ((s.malloc size answer).1, some size,
            (s.malloc size answer).2.onStats fun st =>
              { st with acquireOversize := st.acquireOversize + 1 }) := by
          simp only [PoolState.bufPoolAcquire, if_neg hz, hi]
        rw [acquired_eq heq]
        cases answer with
        | none => exact ⟨fl, (h.onStats rfl rfl).report (Nat.le_refl size)⟩
        | some x =>
            obtain ⟨hp, hn⟩ := hu
            have hm := (h.malloc (w := x.2) size hp hn).onStats
              (f := fun st => { st with acquireOversize := st.acquireOversize + 1 }) rfl rfl
            exact ⟨fl, hm.handOver (Function.update_self ..) (Nat.le_refl size)⟩
    | some i =>
        have hle := bucketIndexForSize_le hi
        by_cases hhead : s.pool.freeHeads i ≠ 0
        · obtain ⟨bs, hpop, hs⟩ := h.popFree hhead
          have heq : s.bufPoolAcquire size answer = (some (s.pool.freeHeads i),
              some (bucketCaps i),
              (s.popFree i).onStats fun st => { st with acquireHit := st.acquireHit + 1 }) := by
            simp only [PoolState.bufPoolAcquire, if_neg hz, hi, if_pos hhead]
          rw [acquired_eq heq]
          exact ⟨_, hpop.handOver hs hle⟩
        · have hmiss := h.onStats
            (f := fun st => { st with acquireMiss := st.acquireMiss + 1 }) rfl rfl
          cases answer with
          | none =>
              refine acquired_none hmiss ?_
              simp only [PoolState.bufPoolAcquire, if_neg hz, hi, if_neg hhead, PoolState.malloc]
          | some x =>
              obtain ⟨hp, hn⟩ := hu
              have heq : s.bufPoolAcquire size (some x) = (some x.1, some (bucketCaps i),
                  ((s.onStats fun st => { st with acquireMiss := st.acquireMiss + 1 }).malloc
                    (bucketCaps i) (some x)).2) := by
                simp only [PoolState.bufPoolAcquire, if_neg hz, hi, if_neg hhead, PoolState.malloc]
              rw [acquired_eq heq]
              have hm := hmiss.malloc (w := x.2) (bucketCaps i) hp hn
              exact ⟨fl, hm.handOver (Function.update_self ..) hle⟩

/-- After a reset the counters account for nothing. -/
theorem resetStats (h : Conserved [] s fl) (f : PoolStats → PoolStats) :
    Conserved [] { s.onStats f with wasReset := true } fl :=
  { h with
    stats := fun hr => by
      have : true = false := hr
      cases this }

/-- A client writes to its own block. -/
theorem write (h : Conserved [] s fl) (hp : p ∈ s.held.map Prod.fst) (w : Word) :
    Conserved [] { s with word := Function.update s.word p w } fl :=
  { h with
    linked := fun i => by
      refine (h.linked i).write (fun hm => ?_) w
      have h₁ : 0 < (s.held.map Prod.fst).count p := List.count_pos_iff.mpr hp
      have h₂ : 0 < (fl i).count p := List.count_pos_iff.mpr hm
      have h₃ : (fl i).count p ≤ ∑ j, (fl j).count p :=
        Finset.single_le_sum (fun j _ => Nat.zero_le ((fl j).count p)) (Finset.mem_univ i)
      have := h.placed p
      simp only [PoolState.places, List.count_nil] at this
      split at this
      · omega
      · omega }

end Conserved

/-! ## Runs -/

theorem Conserved.step {s t : PoolState} {a : PoolAct} (h : ∃ fl, Conserved [] s fl)
    (hs : poolMachine.step s a = some t) : ∃ fl, Conserved [] t fl := by
  obtain ⟨fl, h⟩ := h
  cases a with
  | acquire size answer =>
      obtain ⟨hu, hs⟩ := Option.ite_none_right_eq_some.mp hs
      cases hs
      exact h.acquired size hu
  | release env ptr cap =>
      obtain ⟨hx, hs⟩ := Option.ite_none_right_eq_some.mp hs
      cases hs
      exact h.released env hx
  | runDeferred d =>
      obtain ⟨hd, hs⟩ := Option.ite_none_right_eq_some.mp hs
      cases hs
      exact h.releaseDeferred hd
  | write ptr w =>
      obtain ⟨hp, hs⟩ := Option.ite_none_right_eq_some.mp hs
      cases hs
      exact ⟨fl, h.write hp w⟩
  | setOwner owner =>
      cases hs
      exact ⟨fl, { h with }⟩
  | resetStats =>
      cases hs
      exact ⟨fl, h.resetStats _⟩

/-- In every run of a pool and its clients, each allocated block is with one client,
with one pending task, or at one position of the freelist of its size; the counts are
the lengths of the freelists; and the counters account for the cached blocks. -/
theorem buf_pool_conservation (maxPerBucket : UInt32) (threadSafe : Bool) (s : PoolState)
    (h : poolMachine.Leads Machine.Any (.start maxPerBucket threadSafe) s) :
    ∃ fl : Bucket → List Word,
      (∀ i, Threaded s.word 0 (s.pool.freeHeads i) (fl i)) ∧
      (∀ b, (s.held.map Prod.fst).count b + (s.deferred.map PoolDefer.ptr).count b +
        (∑ i, (fl i).count b) = if (s.size b).isSome then 1 else 0) ∧
      (∀ i, ∀ b ∈ fl i, s.size b = some (bucketCaps i)) ∧
      (∀ i, (s.pool.counts i).toNat = (fl i).length ∧
        s.pool.counts i ≤ s.pool.maxPerBucket) ∧
      (∀ r ∈ s.reported, r.1 ≤ r.2) ∧
      (s.wasReset = false → UInt64.ofNat (∑ i, (s.pool.counts i).toNat) =
        s.pool.stats.releaseCached - s.pool.stats.acquireHit) := by
  obtain ⟨fl, hc⟩ : ∃ fl, Conserved [] s fl :=
    h.invariant (I := fun s => ∃ fl, Conserved [] s fl)
      (fun _ _ _ hi _ hs => Conserved.step hi hs) ⟨_, Conserved.start maxPerBucket threadSafe⟩
  refine ⟨fl, hc.linked, fun b => ?_, hc.filed, fun i => ⟨hc.counted i, hc.bounded i⟩,
    hc.reported, fun hr => ?_⟩
  · have := hc.placed b
    rw [List.count_nil, Nat.zero_add] at this
    exact this
  · simp only [hc.counted]
    rw [← hc.stats hr]
    grind

/-- Two blocks, one released by the owner and acquired again, one released by another
thread. -/
def poolRun : List PoolAct :=
  [.setOwner (some 1), .acquire 100 (some (0x1000, 9)), .acquire 3000 (some (0x2000, 7)),
    .write 0x1000 5, .release ⟨1, true, true⟩ 0x1000 512, .release ⟨2, true, true⟩ 0x2000 8192,
    .runDeferred ⟨0x2000, 8192⟩, .acquire 50 none]

theorem buf_pool_conservation_run :
    ∃ s, poolMachine.run (.start 4 false) poolRun = some s ∧ s.held = [(0x1000, 512)] ∧
      ∃ fl : Bucket → List Word, ∀ b, (s.held.map Prod.fst).count b +
        (s.deferred.map PoolDefer.ptr).count b + (∑ i, (fl i).count b) =
          if (s.size b).isSome then 1 else 0 := by
  have hrun : (poolMachine.run (.start 4 false) poolRun).map (fun s => s.held)
      = some [(0x1000, 512)] := by decide +kernel
  obtain ⟨s, hs, hheld⟩ := Option.map_eq_some_iff.mp hrun
  obtain ⟨fl, -, hplaced, -⟩ := buf_pool_conservation 4 false s
    (Machine.leads_of_run poolRun _ _ hs (Machine.runMeets_any _ _))
  exact ⟨s, hs, hheld, fl, hplaced⟩

end Ztk.Util
