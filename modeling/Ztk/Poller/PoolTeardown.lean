import Ztk.Poller.PollerPool

/-!
# Deferred releases and the end of a poller pool

`ztk_poller_pool_destroy` stops the workers, destroys the local buffer pools, and
then destroys the pollers, which runs the tasks that are left in their queues.  A
worker leaves its loop on the stop flag, without looking at the queue, and
`ztk_poller_pool_stop` does nothing for a pool that is not started.  So a deferred
release can be left behind for a buffer pool that is destroyed.

Nothing is left behind where every poller with a release pending has a worker that
is going to be joined, and this worker leaves its loop with nothing pending
(`drainsFirst`).
-/

namespace Ztk.Poller

open Ztk.Lib

namespace PollerPool

variable {s s' : PollerPool} {a : PoolAct}

/-- A release for the buffer pool `k` is in the queue of poller `i`, or in a list that
a worker has taken from it. -/
def Pending (s : PollerPool) (i k : Nat) : Prop :=
  k ∈ s.tasks i ∨ ∃ t w, s.workers t = some w ∧ w.slot = i ∧ k ∈ w.list

/-- The thread that slot `i` holds has not come back from `ztk_poller_run`. -/
def WorkerRuns (s : PollerPool) (i : Nat) : Prop :=
  ∃ t w, (s.slots i).thread = some t ∧ s.workers t = some w ∧ w.running = true

/-- When `ztk_poller_pool_destroy` is called, a poller with a release pending has a
worker that will be joined, and the worker leaves its loop with nothing pending. -/
def DrainsFirst (s : PollerPool) : PoolAct → Prop
  | .call .destroy =>
      ∀ i < s.count, ∀ k, (s.slots i).bufPool = some k → s.Pending i k →
        s.started = true ∧ s.WorkerRuns i
  | .leave t _ =>
      s.tearsDown = true → ∀ i < s.count, (s.slots i).thread = some t →
        ∀ k, (s.slots i).bufPool = some k → ¬ s.Pending i k
  | _ => True

/-- When the buffer pool of a slot is destroyed no release for it is in a queue, and
none has run on a destroyed one. -/
structure ReleasesRun (s : PollerPool) : Prop where
  queues : ∀ i < s.count, s.pc = .detaching i →
    ∀ k, (s.slots i).bufPool = some k → ∀ j, k ∉ s.tasks j
  sound : s.ranDestroyed = false

/-! ## Buffer pools and their releases -/

/-- Every buffer pool has one slot, its releases are pending at this slot only, and a
destroyed one has none. -/
structure Filed (s : PollerPool) : Prop where
  owner : ∀ k b i, s.bufs k = some b → b.owner = some i → (s.slots i).bufPool = some k
  distinct : ∀ i j k, (s.slots i).bufPool = some k → (s.slots j).bufPool = some k → i = j
  known : ∀ i k, (s.slots i).bufPool = some k → k < s.nextBuf
  pendingKnown : ∀ j k, s.Pending j k → k < s.nextBuf
  pendingAt : ∀ j k, s.Pending j k → ∀ i, (s.slots i).bufPool = some k → i = j
  unpended : ∀ j k, s.isDestroyed k = true → ¬ s.Pending j k

theorem Pending.of {j k : Nat} (h : s'.Pending j k) (htasks : ∀ j, ∀ k ∈ s'.tasks j, s.Pending j k)
    (hworkers : ∀ t w, s'.workers t = some w → ∀ k ∈ w.list, s.Pending w.slot k) :
    s.Pending j k := by
  rcases h with h | ⟨t, w, hw, rfl, hk⟩
  · exact htasks j k h
  · exact hworkers t w hw k hk

/-- A worker changes its phase or its list, and perhaps the queue it serves. -/
theorem Pending.of_setWorker {t : Nat} {w v : PoolWorker} {tasks : Nat → List Nat}
    (hw : s.workers t = some w) (hslot : v.slot = w.slot) (htasks : ∀ j, ∀ k ∈ tasks j, k ∈ s.tasks j)
    (hlist : ∀ k ∈ v.list, k ∈ w.list ∨ k ∈ s.tasks w.slot) {j k : Nat}
    (h : Pending { s.setWorker t v with tasks := tasks } j k) : s.Pending j k := by
  refine h.of (s := s) (fun j k hk => Or.inl (htasks j k hk)) fun u x hx k hk => ?_
  have hx : Function.update s.workers t (some v) u = some x := hx
  by_cases hut : u = t
  · rw [hut, Function.update_self, Option.some.injEq] at hx
    subst hx
    rw [hslot]
    exact (hlist k hk).elim (fun hk => Or.inr ⟨t, w, hw, rfl, hk⟩) Or.inl
  · rw [Function.update_of_ne hut] at hx
    exact Or.inr ⟨u, x, hx, rfl, hk⟩

/-- An assignment to a slot, but not to its buffer pool. -/
theorem setSlot_bufPool (s : PollerPool) {i : Nat} {v : PoolSlot}
    (h : v.bufPool = (s.slots i).bufPool) (j : Nat) :
    ((s.setSlot i v).slots j).bufPool = (s.slots j).bufPool := by
  show (Function.update s.slots i v j).bufPool = _
  by_cases hj : j = i
  · rw [hj, Function.update_self, h]
  · rw [Function.update_of_ne hj]

namespace Filed

/-- Nothing happens to the buffer pools, and nothing new is pending. -/
theorem frame (h : s.Filed) (hbufs : s'.bufs = s.bufs) (hnext : s'.nextBuf = s.nextBuf)
    (hslots : ∀ i, (s'.slots i).bufPool = (s.slots i).bufPool)
    (hpending : ∀ j k, s'.Pending j k → s.Pending j k) : s'.Filed where
  owner k b i := by
    rw [hbufs, hslots]
    exact h.owner k b i
  distinct i j k := by
    rw [hslots, hslots]
    exact h.distinct i j k
  known i k := by
    rw [hslots, hnext]
    exact h.known i k
  pendingKnown j k hp := by
    rw [hnext]
    exact h.pendingKnown j k (hpending j k hp)
  pendingAt j k hp i := by
    rw [hslots]
    exact h.pendingAt j k (hpending j k hp) i
  unpended j k hd hp := by
    have hsame : s'.isDestroyed k = s.isDestroyed k := by rw [isDestroyed, isDestroyed, hbufs]
    exact h.unpended j k (hsame ▸ hd) (hpending j k hp)

/-- A slot without a buffer pool gets a new one. -/
theorem attachSlot (h : s.Filed) {i : Nat} (hi : (s.slots i).bufPool = none) (threadSafe : Bool) :
    (s.attachSlot threadSafe i).Filed := by
  have hslot : ∀ j k, ((s.attachSlot threadSafe i).slots j).bufPool = some k →
      (j = i ∧ k = s.nextBuf) ∨ (s.slots j).bufPool = some k := by
    intro j k hk
    have hk : (Function.update s.slots i _ j).bufPool = some k := hk
    by_cases hj : j = i
    · rw [hj, Function.update_self] at hk
      exact Or.inl ⟨hj, (Option.some.inj hk).symm⟩
    · rw [Function.update_of_ne hj] at hk
      exact Or.inr hk
  have hother : ∀ j, j ≠ i → (s.attachSlot threadSafe i).slots j = s.slots j :=
    fun j hj => Function.update_of_ne hj _ _
  have hself : ((s.attachSlot threadSafe i).slots i).bufPool = some s.nextBuf := by
    show (Function.update s.slots i _ i).bufPool = _
    rw [Function.update_self]
  constructor
  · intro k b j hb ho
    have hb : Function.update s.bufs s.nextBuf (some ⟨threadSafe, some i, .live⟩) k = some b := hb
    by_cases hk : k = s.nextBuf
    · rw [hk, Function.update_self, Option.some.injEq] at hb
      subst hb
      rw [Option.some.injEq] at ho
      rw [← ho, hk]
      exact hself
    · rw [Function.update_of_ne hk] at hb
      have hold := h.owner k b j hb ho
      have hj : j ≠ i := by
        rintro rfl
        rw [hi] at hold
        cases hold
      rw [hother j hj]
      exact hold
  · intro j j' k hj hj'
    rcases hslot j k hj with ⟨rfl, rfl⟩ | hj
    · rcases hslot j' _ hj' with ⟨rfl, -⟩ | hj'
      · rfl
      · exact absurd (h.known j' _ hj') (Nat.lt_irrefl _)
    · rcases hslot j' k hj' with ⟨-, rfl⟩ | hj'
      · exact absurd (h.known j _ hj) (Nat.lt_irrefl _)
      · exact h.distinct j j' k hj hj'
  · intro j k hj
    rcases hslot j k hj with ⟨-, rfl⟩ | hj
    · exact Nat.lt_succ_self _
    · exact Nat.lt_succ_of_lt (h.known j k hj)
  · exact fun j k hp => Nat.lt_succ_of_lt (h.pendingKnown j k hp)
  · intro j k hp j' hj'
    rcases hslot j' k hj' with ⟨-, rfl⟩ | hj'
    · exact absurd (h.pendingKnown j _ hp) (Nat.lt_irrefl _)
    · exact h.pendingAt j k hp j' hj'
  · intro j k hd hp
    have hk : k ≠ s.nextBuf := by
      rintro rfl
      exact Nat.lt_irrefl _ (h.pendingKnown j _ hp)
    refine h.unpended j k ?_ hp
    have hsame : (s.attachSlot threadSafe i).bufs k = s.bufs k := Function.update_of_ne hk _ _
    rw [isDestroyed, hsame] at hd
    exact hd

/-- A slot loses its buffer pool.  If this is the end of the pool, nothing is pending
for it. -/
theorem detachSlot (h : s.Filed) (life : BufLife) (i : Nat)
    (hclean : life = .destroyed → ∀ k, (s.slots i).bufPool = some k → ¬ s.Pending i k) :
    (s.detachSlot life i).Filed := by
  simp only [PollerPool.detachSlot]
  split
  · exact h
  · next k₀ hk₀ =>
      have hslot : ∀ j k, (Function.update s.slots i { s.slots i with bufPool := none } j).bufPool =
          some k → j ≠ i ∧ (s.slots j).bufPool = some k := by
        intro j k hk
        by_cases hj : j = i
        · rw [hj, Function.update_self] at hk
          cases hk
        · rw [Function.update_of_ne hj] at hk
          exact ⟨hj, hk⟩
      constructor
      · intro k b j hb ho
        have hb : Function.update s.bufs k₀
          ((s.bufs k₀).map fun b => { b with owner := none, life := life }) k = some b := hb
        by_cases hk : k = k₀
        · rw [hk, Function.update_self] at hb
          obtain ⟨b₀, -, rfl⟩ := Option.map_eq_some_iff.mp hb
          cases ho
        · rw [Function.update_of_ne hk] at hb
          have hold := h.owner k b j hb ho
          have hj : j ≠ i := by
            rintro rfl
            rw [hk₀, Option.some.injEq] at hold
            exact hk hold.symm
          show (Function.update s.slots i _ j).bufPool = some k
          rw [Function.update_of_ne hj]
          exact hold
      · exact fun j j' k hj hj' => h.distinct j j' k (hslot j k hj).2 (hslot j' k hj').2
      · exact fun j k hj => h.known j k (hslot j k hj).2
      · exact h.pendingKnown
      · exact fun j k hp j' hj' => h.pendingAt j k hp j' (hslot j' k hj').2
      · intro j k hd hp
        by_cases hk : k = k₀
        · subst hk
          have hj : i = j := h.pendingAt j k hp i hk₀
          have hlife : life = .destroyed := by
            simp only [isDestroyed] at hd
            simp only [Function.update_self] at hd
            cases hb : s.bufs k with
            | none =>
                rw [hb] at hd
                cases hd
            | some b =>
                rw [hb] at hd
                exact of_decide_eq_true hd
          exact hclean hlife k hk₀ (hj ▸ hp)
        · refine h.unpended j k ?_ hp
          simp only [isDestroyed] at hd ⊢
          simp only [Function.update_of_ne hk] at hd
          exact hd

theorem detachBufPools (h : s.Filed) : s.detachBufPools.Filed := by
  simp only [PollerPool.detachBufPools]
  generalize List.range s.count = l
  induction l generalizing s with
  | nil => exact h
  | cons i is ih => exact ih (h.detachSlot .detached i fun hn => by cases hn)

theorem attachBufPools (threadSafe : Bool) (alloc : Nat → Bool) (l : List Nat) (h : s.Filed) :
    (s.attachBufPools threadSafe alloc l).Filed := by
  induction l generalizing s with
  | nil => exact h
  | cons i is ih =>
      rw [PollerPool.attachBufPools]
      split
      · exact ih h
      · next hi =>
          rw [Bool.not_eq_true, Option.isSome_eq_false_iff, Option.isNone_iff_eq_none] at hi
          split
          · exact ih (h.attachSlot hi threadSafe)
          · exact h.detachBufPools

/-- A release of a live buffer pool posts for its owner, which is the poller of its
slot. -/
theorem release (h : s.Filed) {k : Nat} {b : LocalPool} (hb : s.bufs k = some b)
    (hlive : b.life = .live) (self : Nat) (posted : Bool) : (s.release k b self posted).Filed := by
  simp only [PollerPool.release]
  split
  · exact h
  · next i hd =>
      split
      · have hi : (s.slots i).bufPool = some k := by
          simp only [defers] at hd
          split at hd
          · cases hd
          · rw [Option.filter_eq_some_iff] at hd
            exact h.owner k b i hb hd.1
        -- what is pending was pending, or is this release
        have hpending : ∀ {j k'}, Pending { s with
            tasks := Function.update s.tasks i (s.tasks i ++ [k]) } j k' →
            (j = i ∧ k' = k) ∨ s.Pending j k' := by
          intro j k' hp
          rcases hp with hp | hp
          · have hp : k' ∈ Function.update s.tasks i (s.tasks i ++ [k]) j := hp
            by_cases hj : j = i
            · rw [hj, Function.update_self, List.mem_append, List.mem_singleton] at hp
              rcases hp with hp | hp
              · exact Or.inr (Or.inl (hj ▸ hp))
              · exact Or.inl ⟨hj, hp⟩
            · rw [Function.update_of_ne hj] at hp
              exact Or.inr (Or.inl hp)
          · exact Or.inr (Or.inr hp)
        refine ⟨h.owner, h.distinct, h.known, fun j k' hp => ?_, fun j k' hp j' hj' => ?_,
          fun j k' hdes hp => ?_⟩
        · rcases hpending hp with ⟨-, rfl⟩ | hp
          · exact h.known i _ hi
          · exact h.pendingKnown j k' hp
        · rcases hpending hp with ⟨rfl, rfl⟩ | hp
          · exact h.distinct j' j _ hj' hi
          · exact h.pendingAt j k' hp j' hj'
        · rcases hpending hp with ⟨-, rfl⟩ | hp
          · have hdes : s.isDestroyed k' = true := hdes
            simp only [isDestroyed] at hdes
            rw [hb] at hdes
            simp only [hlive] at hdes
            exact absurd hdes (by decide)
          · exact h.unpended j k' hdes hp
      · exact h

end Filed

/-! ## Runs -/

/-- After `ztk_poller_pool_destroy` is called: a poller with a release pending has a
worker to join, and once the workers are joined no release is pending. -/
def Covered (s : PollerPool) : Prop :=
  match s.pc with
  | .setting .destroy _ | .joining .destroy _ =>
      ∀ i < s.count, ∀ k, (s.slots i).bufPool = some k → s.Pending i k → s.WorkerRuns i
  | .detaching _ | .destroying _ | .gone =>
      ∀ i < s.count, ∀ k, (s.slots i).bufPool = some k → ¬ s.Pending i k
  | _ => True

/-- Threads belong to the slots that hold them, and are joined in order. -/
structure Threaded (s : PollerPool) : Prop where
  below : ∀ i t, (s.slots i).thread = some t → t < s.nextWorker
  slot : ∀ i t w, (s.slots i).thread = some t → s.workers t = some w → w.slot = i
  joined : ∀ caller j, s.pc = .joining caller j → ∀ i < j, (s.slots i).thread = none

/-- The invariant of a teardown. -/
structure Winding (s : PollerPool) : Prop where
  filed : s.Filed
  threaded : s.Threaded
  covered : s.Covered
  sound : s.ranDestroyed = false

theorem create_winding (count : Nat) : (create count).Winding where
  filed :=
    { owner := fun _ _ _ hb => by cases hb
      distinct := fun _ _ _ hb => by cases hb
      known := fun _ _ hb => by cases hb
      pendingKnown := fun j k hp => by
        rcases hp with hp | ⟨t, w, hw, -⟩
        · cases hp
        · cases hw
      pendingAt := fun _ _ _ _ hb => by cases hb
      unpended := fun _ _ hd => by cases hd }
  threaded :=
    { below := fun _ _ ht => by cases ht
      slot := fun _ _ _ ht => by cases ht
      joined := fun _ _ hpc => by cases hpc }
  covered := trivial
  sound := rfl

namespace Threaded

theorem frame (h : s.Threaded) (hpc : s'.pc = s.pc) (hnext : s'.nextWorker = s.nextWorker)
    (hthread : ∀ i, (s'.slots i).thread = (s.slots i).thread)
    (hworkers : ∀ t w, s'.workers t = some w → ∃ v, s.workers t = some v ∧ v.slot = w.slot) :
    s'.Threaded where
  below i t := by
    rw [hthread, hnext]
    exact h.below i t
  slot i t w := by
    rw [hthread]
    intro ht hw
    obtain ⟨v, hv, hvw⟩ := hworkers t w hw
    rw [← hvw]
    exact h.slot i t v ht hv
  joined caller j := by
    rw [hpc]
    intro hj i hi
    rw [hthread]
    exact h.joined caller j hj i hi

theorem sameThreads (h : s.Threaded) (hsame : s.SameThreads s') : s'.Threaded :=
  h.frame hsame.pc hsame.nextWorker hsame.thread fun t w hw =>
    ⟨w, by rw [hsame.workers] at hw; exact hw, rfl⟩

/-- A slot keeps its thread or loses it. -/
theorem setSlot (h : s.Threaded) (i : Nat) {slot : PoolSlot}
    (hslot : slot.thread = none ∨ slot.thread = (s.slots i).thread) :
    (s.setSlot i slot).Threaded := by
  have hthread : ∀ j t, ((s.setSlot i slot).slots j).thread = some t →
      (s.slots j).thread = some t := by
    intro j t ht
    have ht : (Function.update s.slots i slot j).thread = some t := ht
    by_cases hj : j = i
    · rw [hj, Function.update_self] at ht
      rcases hslot with hslot | hslot
      · rw [hslot] at ht
        cases ht
      · rw [hj, ← hslot, ht]
    · rw [Function.update_of_ne hj] at ht
      exact ht
  refine ⟨fun j t ht => h.below j t (hthread j t ht), fun j t w ht => h.slot j t w (hthread j t ht),
    fun caller j hpc j' hj' => ?_⟩
  by_contra hne
  obtain ⟨t, ht⟩ := Option.ne_none_iff_exists'.mp hne
  have hold := hthread j' t ht
  rw [h.joined caller j hpc j' hj'] at hold
  cases hold

theorem goto (h : s.Threaded) {pc : PoolPc}
    (hpc : ∀ caller j, pc = .joining caller j → ∀ i < j, (s.slots i).thread = none) :
    (s.goto pc).Threaded :=
  ⟨h.below, h.slot, hpc⟩

theorem spawn (h : s.Threaded) (i : Nat) {pc : PoolPc}
    (hpc : ∀ caller j, pc ≠ .joining caller j) : ((s.spawn i).goto pc).Threaded := by
  have hthread : ∀ j t, ((s.spawn i).slots j).thread = some t →
      (j = i ∧ t = s.nextWorker) ∨ (s.slots j).thread = some t := by
    intro j t ht
    have ht : (Function.update s.slots i _ j).thread = some t := ht
    by_cases hj : j = i
    · rw [hj, Function.update_self] at ht
      exact Or.inl ⟨hj, (Option.some.inj ht).symm⟩
    · rw [Function.update_of_ne hj] at ht
      exact Or.inr ht
  refine ⟨fun j t ht => ?_, fun j t w ht hw => ?_, fun caller j hj => absurd hj (hpc caller j)⟩
  · rcases hthread j t ht with ⟨-, rfl⟩ | ht
    · exact Nat.lt_succ_self _
    · exact Nat.lt_succ_of_lt (h.below j t ht)
  · have hw : Function.update s.workers s.nextWorker (some ⟨i, .created, []⟩) t = some w := hw
    rcases hthread j t ht with ⟨rfl, rfl⟩ | ht
    · rw [Function.update_self, Option.some.injEq] at hw
      rw [← hw]
    · rw [Function.update_of_ne (Nat.ne_of_lt (h.below j t ht))] at hw
      exact h.slot j t w ht hw

end Threaded

theorem covered_of_tearsDown (h : s.tearsDown = false) : s.Covered := by
  simp only [tearsDown] at h
  simp only [Covered]
  cases hpc : s.pc with
  | idle failed => trivial
  | starting i first => trivial
  | setting caller i =>
      cases caller with
      | destroy => simp [hpc] at h
      | _ => trivial
  | joining caller i =>
      cases caller with
      | destroy => simp [hpc] at h
      | _ => trivial
  | detaching i => simp [hpc] at h
  | destroying i => simp [hpc] at h
  | gone => simp [hpc] at h

/-- What keeps the pools, the places, and the workers that are needed. -/
theorem Covered.frame (h : s.Covered) (hpc : s'.pc = s.pc) (hcount : s'.count = s.count)
    (hslots : ∀ i k, (s'.slots i).bufPool = some k → (s.slots i).bufPool = some k)
    (hpending : ∀ j k, s'.Pending j k → s.Pending j k)
    (hruns : s.tearsDown = true → ∀ i < s.count, ∀ k, (s.slots i).bufPool = some k →
      s.Pending i k → s.WorkerRuns i → s'.WorkerRuns i) : s'.Covered := by
  simp only [Covered] at h ⊢
  rw [hpc, hcount]
  simp only [tearsDown] at hruns
  split at h
  · next hp =>
      rw [hp] at hruns
      intro i hi k hk hpe
      have hk := hslots i k hk
      have hpe := hpending i k hpe
      exact hruns rfl i hi k hk hpe (h i hi k hk hpe)
  · next hp =>
      rw [hp] at hruns
      intro i hi k hk hpe
      have hk := hslots i k hk
      have hpe := hpending i k hpe
      exact hruns rfl i hi k hk hpe (h i hi k hk hpe)
  · exact fun i hi k hk hpe => h i hi k (hslots i k hk) (hpending i k hpe)
  · exact fun i hi k hk hpe => h i hi k (hslots i k hk) (hpending i k hpe)
  · exact fun i hi k hk hpe => h i hi k (hslots i k hk) (hpending i k hpe)
  · trivial

namespace Winding

/-- One queue is emptied. -/
theorem mem_of_emptied {tasks : Nat → List Nat} {i j k : Nat}
    (hk : k ∈ Function.update tasks i [] j) : k ∈ tasks j := by
  by_cases hj : j = i
  · rw [hj, Function.update_self] at hk
    exact absurd hk List.not_mem_nil
  · rwa [Function.update_of_ne hj] at hk

/-- What is covered at the place where the calling thread is. -/
theorem coveredAt (h : s.Winding) {pc : PoolPc} (hpc : s.pc = pc) : (s.goto pc).Covered := by
  have hgoto : s.goto pc = s := by
    rw [← hpc]
    rfl
  rw [hgoto]
  exact h.covered

/-- A worker changes its phase or its list, and perhaps the queue it serves. -/
theorem setWorker (h : s.Winding) {t : Nat} {w v : PoolWorker} (hw : s.workers t = some w)
    (hslot : v.slot = w.slot) {tasks : Nat → List Nat} {owner : Nat → Option Nat} {ran : Bool}
    (htasks : ∀ j, ∀ k ∈ tasks j, k ∈ s.tasks j)
    (hlist : ∀ k ∈ v.list, k ∈ w.list ∨ k ∈ s.tasks w.slot)
    (hruns : v.running = w.running ∨ (s.tearsDown = true → ∀ i < s.count,
      (s.slots i).thread = some t → ∀ k, (s.slots i).bufPool = some k → ¬ s.Pending i k))
    (hran : ran = false) :
    Winding { s.setWorker t v with
      tasks := tasks, ownerThread := owner, ranDestroyed := ran } := by
  have hpending : ∀ j k, Pending { s.setWorker t v with
      tasks := tasks, ownerThread := owner, ranDestroyed := ran } j k → s.Pending j k :=
    fun j k hp => Pending.of_setWorker hw hslot htasks hlist hp
  have hworkers : ∀ u x, Function.update s.workers t (some v) u = some x →
      ∃ y, s.workers u = some y ∧ y.slot = x.slot := by
    intro u x hx
    by_cases hut : u = t
    · rw [hut, Function.update_self, Option.some.injEq] at hx
      exact ⟨w, hut ▸ hw, hx ▸ hslot.symm⟩
    · rw [Function.update_of_ne hut] at hx
      exact ⟨x, hx, rfl⟩
  refine ⟨h.filed.frame rfl rfl (fun _ => rfl) hpending,
    h.threaded.frame rfl rfl (fun _ => rfl) hworkers,
    h.covered.frame rfl rfl (fun _ _ => id) hpending fun htear i hi k hk hp hrun => ?_, hran⟩
  obtain ⟨u, x, hu, hx, hxr⟩ := hrun
  by_cases hut : u = t
  · subst hut
    rcases hruns with hsame | hclean
    · rw [hw, Option.some.injEq] at hx
      refine ⟨u, v, hu, Function.update_self _ _ _, ?_⟩
      rw [hsame, hx, hxr]
    · exact absurd hp (hclean htear i hi hu k hk)
  · exact ⟨u, x, hu, (Function.update_of_ne hut _ _).trans hx, hxr⟩

/-- Buffer pools come and go before the teardown. -/
theorem sameThreads (h : s.Winding) (hsame : s.SameThreads s') (hf : s'.Filed) :
    (s'.goto (.idle none)).Winding where
  filed := hf.frame rfl rfl (fun _ => rfl) fun _ _ => id
  threaded := (h.threaded.sameThreads hsame).goto fun _ _ hpc => by cases hpc
  covered := trivial
  sound := hsame.ran.trans h.sound

/-- The calling thread goes on. -/
theorem goto (h : s.Winding) {pc : PoolPc} (hc : (s.goto pc).Covered)
    (hpc : ∀ caller j, pc = .joining caller j → ∀ i < j, (s.slots i).thread = none) :
    (s.goto pc).Winding :=
  ⟨h.filed.frame rfl rfl (fun _ => rfl) fun _ _ => id, h.threaded.goto hpc, hc, h.sound⟩

/-- `ztk_poller_pool_stop`, called when no pool is torn down or with nothing pending at
the pollers without a worker. -/
theorem poolStop (h : s.Winding) (caller : StopCaller)
    (hdrains : caller = .destroy → ∀ i < s.count, ∀ k, (s.slots i).bufPool = some k →
      s.Pending i k → s.started = true ∧ s.WorkerRuns i) : (s.poolStop caller).Winding := by
  simp only [PollerPool.poolStop]
  split
  · refine h.goto ?_ fun _ _ hpc => by cases hpc
    cases caller with
    | stop | start => trivial
    | destroy => exact fun i hi k hk hp => (hdrains rfl i hi k hk hp).2
  · next hs =>
      cases caller with
      | stop | start => exact h.goto trivial fun _ _ hpc => by cases hpc
      | destroy =>
          refine h.goto ?_ fun _ _ hpc => by cases hpc
          exact fun i hi k hk hp => hs (hdrains rfl i hi k hk hp).1

/-- A call of a function of the pool. -/
theorem call (h : s.Winding) (c : PoolCall) (hc : s.DrainsFirst (.call c)) :
    (s.call c).Winding := by
  cases c with
  | start =>
      rw [PollerPool.call]
      split
      · exact h.goto trivial fun _ _ hpc => by cases hpc
      · exact h.goto trivial fun _ _ hpc => by cases hpc
  | stop => exact h.poolStop .stop fun hn => by cases hn
  | destroy => exact h.poolStop .destroy fun _ => hc
  | attachBufPools threadSafe alloc =>
      exact h.sameThreads (attachBufPools_sameThreads threadSafe alloc _ s)
        (h.filed.attachBufPools threadSafe alloc _)
  | detachBufPools =>
      exact h.sameThreads (detachBufPools_sameThreads s) h.filed.detachBufPools

/-- A slot keeps its buffer pool, and keeps its thread or loses it. -/
theorem setSlot (h : s.Winding) {i : Nat} {slot : PoolSlot} {pc : PoolPc}
    (hpool : slot.bufPool = (s.slots i).bufPool)
    (hthread : slot.thread = none ∨ slot.thread = (s.slots i).thread)
    (hc : ((s.setSlot i slot).goto pc).Covered)
    (hpc : ∀ caller j, pc = .joining caller j → ∀ i' < j, ((s.setSlot i slot).slots i').thread = none) :
    ((s.setSlot i slot).goto pc).Winding :=
  ⟨h.filed.frame rfl rfl (s.setSlot_bufPool hpool) fun _ _ => id,
    (h.threaded.setSlot i hthread).goto hpc, hc, h.sound⟩

/-- The flag of a slot is set: its thread is as before. -/
theorem setStop (h : s.Winding) {caller : StopCaller} {i : Nat} (hpc : s.pc = .setting caller i) :
    ((s.setSlot i { s.slots i with stop := true }).goto (.setting caller (i + 1))).Winding := by
  refine h.setSlot rfl (Or.inr rfl) ?_ fun _ _ hn => by cases hn
  cases caller with
  | stop | start => trivial
  | destroy =>
      have hc := h.coveredAt hpc
      intro j hj k hk hp
      have hk := (s.setSlot_bufPool (v := { s.slots i with stop := true }) rfl j).symm.trans hk
      obtain ⟨t, w, ht, hw, hr⟩ := hc j hj k hk hp
      have ht := (s.setSlot_thread (v := { s.slots i with stop := true }) rfl j).trans ht
      exact ⟨t, w, ht, hw, hr⟩

/-- The thread of a slot is joined: nothing is pending at its poller. -/
theorem join (h : s.Winding) {caller : StopCaller} {i : Nat} (hpc : s.pc = .joining caller i)
    (hj : s.joinable i = true) :
    ((s.setSlot i { s.slots i with thread := none }).goto (.joining caller (i + 1))).Winding := by
  refine h.setSlot rfl (Or.inl rfl) ?_ fun caller' j hn i' hi' => ?_
  · cases caller with
    | stop | start => trivial
    | destroy =>
        have hc := h.coveredAt hpc
        intro j hjc k hk hp
        have hk := (s.setSlot_bufPool (v := { s.slots i with thread := none }) rfl j).symm.trans hk
        obtain ⟨t, w, hthread, hworker, hr⟩ := hc j hjc k hk hp
        have ht : (s.slots j).thread = some t := hthread
        have hw : s.workers t = some w := hworker
        have hji : j ≠ i := by
          rintro rfl
          cases hr.symm.trans (running_of_joinable hj ht hw)
        exact ⟨t, w, (congrArg PoolSlot.thread (Function.update_of_ne hji _ _)).trans ht, hw, hr⟩
  · cases hn
    show (Function.update s.slots i _ i').thread = none
    by_cases hii : i' = i
    · rw [hii, Function.update_self]
    · rw [Function.update_of_ne hii]
      exact h.threaded.joined caller i hpc i' (Nat.lt_of_le_of_ne (Nat.lt_succ_iff.mp hi') hii)

/-- All threads are joined: no poller has a release pending. -/
theorem allJoined (h : s.Winding) {caller : StopCaller} {i : Nat} (hpc : s.pc = .joining caller i)
    (hi : s.count ≤ i) : ({ s with started := false }.afterStop caller).Winding := by
  have hset : { s with started := false }.Winding :=
    ⟨h.filed.frame rfl rfl (fun _ => rfl) fun _ _ => id,
      h.threaded.frame rfl rfl (fun _ => rfl) fun t w hw => ⟨w, hw, rfl⟩, h.covered, h.sound⟩
  cases caller with
  | stop => exact hset.goto trivial fun _ _ hn => by cases hn
  | start first => exact hset.goto trivial fun _ _ hn => by cases hn
  | destroy =>
      refine hset.goto ?_ fun _ _ hn => by cases hn
      have hc := h.coveredAt hpc
      intro j hj k hk hp
      obtain ⟨t, w, ht, -, -⟩ := hc j hj k hk hp
      have hnone := h.threaded.joined _ i hpc j (hj.trans_le hi)
      cases hnone.symm.trans ht

/-- The buffer pool of a slot is destroyed. -/
theorem detach (h : s.Winding) {i : Nat} (hpc : s.pc = .detaching i) (hi : i < s.count) :
    ((s.detachSlot .destroyed i).goto (.detaching (i + 1))).Winding := by
  have hc := h.coveredAt hpc
  have hsame := detachSlot_sameThreads .destroyed s i
  refine ⟨(h.filed.detachSlot .destroyed i fun _ => hc i hi).frame rfl rfl (fun _ => rfl)
    fun _ _ => id, (h.threaded.sameThreads hsame).goto fun _ _ hn => (by cases hn), ?_,
    hsame.ran.trans h.sound⟩
  intro j hj k hk hp
  have hj : j < (s.detachSlot .destroyed i).count := hj
  rw [hsame.count] at hj
  have hk : ((s.detachSlot .destroyed i).slots j).bufPool = some k := hk
  have hp : (s.detachSlot .destroyed i).Pending j k := hp
  simp only [detachSlot] at hk hp
  split at hk
  · next hn =>
      rw [hn] at hp
      exact hc j hj k hk hp
  · next k₀ hk₀ =>
      rw [hk₀] at hp
      have hk : (Function.update s.slots i _ j).bufPool = some k := hk
      by_cases hji : j = i
      · rw [hji, Function.update_self] at hk
        cases hk
      · rw [Function.update_of_ne hji] at hk
        exact hc j hj k hk hp

/-- A thread is created: the worker has nothing to run. -/
theorem spawn (h : s.Winding) (i first : Nat) :
    ((s.spawn i).goto (.starting (i + 1) first)).Winding := by
  refine ⟨h.filed.frame rfl rfl (s.setSlot_bufPool rfl) fun j k hp => ?_,
    h.threaded.spawn i fun _ _ hn => (by cases hn), trivial, h.sound⟩
  refine hp.of (s := s) (fun j k hk => Or.inl hk) fun t w hw k hk => ?_
  have hw : Function.update s.workers s.nextWorker (some ⟨i, .created, []⟩) t = some w := hw
  by_cases ht : t = s.nextWorker
  · rw [ht, Function.update_self, Option.some.injEq] at hw
    rw [← hw] at hk
    exact absurd hk List.not_mem_nil
  · rw [Function.update_of_ne ht] at hw
    exact Or.inr ⟨t, w, hw, rfl, hk⟩

/-- A thread is not created: the threads before it are stopped. -/
theorem refuse (h : s.Winding) {i first : Nat} (hpc : s.pc = .starting i first) :
    ((s.setSlot i { s.slots i with stop := false, thread := none }).poolStop
      (.start first)).Winding := by
  have hset : (s.setSlot i { s.slots i with stop := false, thread := none }).Winding := by
    refine ⟨h.filed.frame rfl rfl (s.setSlot_bufPool rfl) fun _ _ => id,
      h.threaded.setSlot i (Or.inl rfl), ?_, h.sound⟩
    simp only [Covered]
    simp only [PollerPool.setSlot, hpc]
  exact hset.poolStop (.start first) fun hn => by cases hn

/-- A poller is destroyed with the tasks in its queue: none that is left names a
destroyed buffer pool. -/
theorem destroyPoller (h : s.Winding) {i : Nat} (hpc : s.pc = .destroying i) :
    ((s.destroyPoller i).goto (.destroying (i + 1))).Winding := by
  have hcov := h.coveredAt hpc
  have hpending : ∀ j k, (s.destroyPoller i).Pending j k → s.Pending j k := by
    intro j k hp
    exact hp.of (s := s) (fun j k hk => Or.inl (mem_of_emptied hk))
      fun t w hw k hk => Or.inr ⟨t, w, hw, rfl, hk⟩
  refine ⟨h.filed.frame rfl rfl (fun _ => rfl) hpending,
    ⟨h.threaded.below, h.threaded.slot, fun _ _ hn => (by cases hn)⟩,
    fun j hj k hk hp => hcov j hj k hk (hpending j k hp), ?_⟩
  show (s.ranDestroyed || (s.tasks i).any s.isDestroyed) = false
  rw [h.sound, Bool.false_or, List.any_eq_false]
  intro k hk hd
  exact h.filed.unpended i k hd (Or.inl hk)

/-- A worker runs a deferred release: its buffer pool is there. -/
theorem runTask (h : s.Winding) {t k : Nat} {ks : List Nat} {w : PoolWorker}
    (hw : s.workers t = some w) (hl : w.list = k :: ks) :
    Winding { s.setWorker t { w with list := ks } with
      ranDestroyed := s.ranDestroyed || s.isDestroyed k } := by
  refine h.setWorker (v := { w with list := ks }) hw rfl (fun _ _ => id)
    (fun k' hk' => Or.inl ?_) (Or.inl rfl) ?_
  · rw [hl]
    exact List.mem_cons_of_mem k hk'
  · rw [h.sound, Bool.false_or]
    by_contra hd
    have hk : s.Pending w.slot k := Or.inr ⟨t, w, hw, rfl, by rw [hl]; exact List.mem_cons_self⟩
    exact h.filed.unpended w.slot k (eq_true_of_ne_false hd) hk

/-- A block is released before the teardown. -/
theorem release (h : s.Winding) {k : Nat} {b : LocalPool} (hd : s.tearsDown = false)
    (hb : s.bufs k = some b) (hlive : b.life = .live) (self : Nat) (posted : Bool) :
    (s.release k b self posted).Winding := by
  have hsame : (s.release k b self posted).pc = s.pc ∧
      (s.release k b self posted).ranDestroyed = s.ranDestroyed ∧
      (s.release k b self posted).Threaded := by
    simp only [PollerPool.release]
    split
    · exact ⟨rfl, rfl, h.threaded⟩
    · split
      · exact ⟨rfl, rfl, h.threaded.frame rfl rfl (fun _ => rfl) fun t w hw => ⟨w, hw, rfl⟩⟩
      · exact ⟨rfl, rfl, h.threaded⟩
  refine ⟨h.filed.release hb hlive self posted, hsame.2.2, covered_of_tearsDown ?_,
    hsame.2.1.trans h.sound⟩
  simp only [tearsDown] at hd ⊢
  rwa [hsame.1]

/-- One step. -/
theorem step (h : s.Winding) (hc : s.DrainsFirst a) (hm : s.Move a s') : s'.Winding := by
  cases hm with
  | call c hpc => exact h.call c hc
  | @spawn i first hpc hi => exact h.spawn i first
  | refuse hpc hi => exact h.refuse hpc
  | allStarted hpc =>
      refine ⟨h.filed.frame rfl rfl (fun _ => rfl) fun _ _ => id, ?_, trivial, h.sound⟩
      exact ⟨h.threaded.below, h.threaded.slot, fun _ _ hn => by cases hn⟩
  | setStop hpc hi => exact h.setStop hpc
  | @allSet caller i hpc =>
      refine h.goto ?_ fun _ _ hn i hi => ?_
      · have hcov := h.coveredAt hpc
        cases caller with
        | stop | start => trivial
        | destroy => exact hcov
      · cases hn
        exact absurd hi (Nat.not_lt_zero i)
  | join hpc hi hj => exact h.join hpc hj
  | allJoined hpc hi => exact h.allJoined hpc hi
  | detach hpc hi => exact h.detach hpc hi
  | allDetached hpc hi =>
      refine h.goto ?_ fun _ _ hn => by cases hn
      have hcov := h.coveredAt hpc
      exact hcov
  | destroy hpc hi => exact h.destroyPoller hpc
  | allDestroyed hpc =>
      refine h.goto ?_ fun _ _ hn => by cases hn
      have hcov := h.coveredAt hpc
      exact hcov
  | @bind t w hw hp =>
      refine h.setWorker (v := { w with phase := .looping }) hw rfl (fun _ _ => id)
        (fun _ => Or.inl) (Or.inl ?_) h.sound
      simp only [PoolWorker.running]
      rw [hp]
      rfl
  | @drain t w hw hp hl =>
      exact h.setWorker (v := { w with list := s.tasks w.slot }) hw rfl
        (fun _ _ => mem_of_emptied) (fun _ => Or.inr) (Or.inl rfl) h.sound
  | runTask hw hp hl => exact h.runTask hw hl
  | @leave t w pollFailed hw hp hl =>
      exact h.setWorker (v := { w with phase := .left }) hw rfl (fun _ _ => id)
        (fun _ => Or.inl) (Or.inr hc) h.sound
  | @release k self posted b hd hb hlive => exact h.release hd hb hlive self posted

theorem releasesRun (h : s.Winding) : s.ReleasesRun where
  queues i hi hpc k hk j hj := by
    have hcov := h.coveredAt hpc
    have hp : s.Pending j k := Or.inl hj
    exact hcov i hi k hk (h.filed.pendingAt j k hp i hk ▸ hp)
  sound := h.sound

end Winding

end PollerPool

/-- Where the pollers with a release pending are drained first, no release is left
behind and none runs on a destroyed buffer pool. -/
theorem deferred_releases_run (count : Nat) {s : PollerPool}
    (hl : pollerPoolMachine.Leads PollerPool.DrainsFirst (.create count) s) : s.ReleasesRun :=
  (hl.invariant (fun _ _ _ h hc hs => h.step hc (PollerPool.step_move hs))
    (PollerPool.create_winding count)).releasesRun

/-- One slot.  Another thread releases a block, the worker runs the release, and the
pool is destroyed. -/
def drainedRun : List PoolAct :=
  [.call (.attachBufPools false fun _ => true), .call .start, .create true, .advance, .bind 0,
    .release 0 7 true, .drain 0, .runTask 0, .call .destroy, .advance, .advance, .leave 0 false,
    .advance, .advance, .advance, .advance, .advance, .advance]

theorem drainedRun_meets :
    pollerPoolMachine.RunMeets PollerPool.DrainsFirst (.create 1) drainedRun := by
  iterate 8
    refine ⟨trivial, fun _ h => ?_⟩
    cases h
  -- `ztk_poller_pool_destroy` is called: the worker is in its loop
  refine ⟨fun i hi k _ _ => ?_, fun _ h => ?_⟩
  · cases Nat.lt_one_iff.mp hi
    exact ⟨rfl, 0, _, rfl, rfl, rfl⟩
  cases h
  iterate 2
    refine ⟨trivial, fun _ h => ?_⟩
    cases h
  -- the worker leaves its loop: nothing is pending
  refine ⟨fun _ i hi _ k _ hp => ?_, fun _ h => ?_⟩
  · cases Nat.lt_one_iff.mp hi
    rcases hp with hp | ⟨t, w, hw, -, hk⟩
    · exact absurd hp List.not_mem_nil
    · by_cases ht : t = 0
      · subst ht
        cases hw
        exact absurd hk List.not_mem_nil
      · obtain ⟨n, rfl⟩ := Nat.exists_eq_succ_of_ne_zero ht
        cases hw
  cases h
  iterate 6
    refine ⟨trivial, fun _ h => ?_⟩
    cases h
  trivial

theorem deferred_releases_run_drained :
    ∃ s, pollerPoolMachine.Leads PollerPool.DrainsFirst (.create 1) s ∧ s.pc = .gone ∧
      s.ReleasesRun := by
  have hrun : (pollerPoolMachine.run (.create 1) drainedRun).map
      (fun s => decide (s.pc = .gone)) = some true := by
    decide +kernel
  obtain ⟨s, hs, hpc⟩ := Machine.exists_run hrun
  have hl : pollerPoolMachine.Leads PollerPool.DrainsFirst (.create 1) s :=
    Machine.leads_of_run drainedRun _ s hs drainedRun_meets
  exact ⟨s, hl, hpc, deferred_releases_run 1 hl⟩

/-- One slot.  Another thread releases a block, and the worker leaves its loop without
another turn. -/
def leftBehindRun : List PoolAct :=
  [.call (.attachBufPools false fun _ => true), .call .start, .create true, .advance, .bind 0,
    .release 0 7 true, .call .destroy, .advance, .advance, .leave 0 false, .advance, .advance]

/-- The buffer pool is destroyed while a release for it is queued, and the release runs
when the poller is destroyed. -/
theorem deferred_releases_left_behind :
    (∃ s, pollerPoolMachine.Leads Machine.Any (.create 1) s ∧ s.pc = .detaching 0 ∧
        (s.slots 0).bufPool = some 0 ∧ s.tasks 0 = [0] ∧ ¬ s.ReleasesRun) ∧
      ∃ s, pollerPoolMachine.Leads Machine.Any (.create 1) s ∧ s.ranDestroyed = true ∧
        ¬ s.ReleasesRun := by
  have hfirst : (pollerPoolMachine.run (.create 1) leftBehindRun).map (fun s =>
      decide (s.pc = .detaching 0 ∧ (s.slots 0).bufPool = some 0 ∧ s.tasks 0 = [0] ∧
        s.count = 1)) = some true := by
    decide +kernel
  have hnext : (pollerPoolMachine.run (.create 1)
      (leftBehindRun ++ [PoolAct.advance, .advance, .advance])).map (fun s => s.ranDestroyed) =
        some true := by
    decide +kernel
  obtain ⟨s, hs, hpc, hpool, htasks, hcount⟩ := Machine.exists_run hfirst
  obtain ⟨s', hs', hran⟩ := Option.map_eq_some_iff.mp hnext
  refine ⟨⟨s, Machine.leads_of_run _ _ s hs (Machine.runMeets_any _ _), hpc, hpool, htasks,
    fun h => ?_⟩, ⟨s', Machine.leads_of_run _ _ s' hs' (Machine.runMeets_any _ _), hran,
    fun h => ?_⟩⟩
  · have hq := h.queues 0 (by rw [hcount]; exact Nat.one_pos) hpc 0 hpool 0
    rw [htasks] at hq
    exact hq List.mem_cons_self
  · rw [h.sound] at hran
    cases hran

end Ztk.Poller
