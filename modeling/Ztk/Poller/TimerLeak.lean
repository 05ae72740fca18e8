import Ztk.Poller.TimerSafety

/-!
# Timers that nobody frees

A timer is freed by `flush_expired_timers` when it leaves the array, and by
`ztk_poller_do_delay` when the call fails.  `unlink_timer` takes a timer out of the array
as well, for `ztk_poller_timer_cancel` on the owner and for `timer_cancel_async`, and
neither frees it.

While memory can be had, a timer is lost exactly by such a step: every other timer is in
the array, freed, in the hands of the flush that runs its callback, or in a queued
insertion.
-/

namespace Ztk.Poller

open Ztk.Lib TimerHeap

/-! ## Where timers are -/

/-- The timers of the array, of the callback that runs and of the queued insertions are
apart, and all are old. -/
structure Places (p : TimerHeap) (next : Nat) (firing : Option Nat) (inserts : List Nat) :
    Prop where
  indexed : p.Indexed
  placed : ∀ t, p.Placed t
  members : ∀ t, p.Mem t → t < next
  pending : ∀ t ∈ inserts, t < next ∧ ¬ p.Mem t ∧ firing ≠ some t
  fired : ∀ t, firing = some t → t < next ∧ ¬ p.Mem t
  once : inserts.Nodup

namespace Places

variable {p : TimerHeap} {next t : Nat} {firing : Option Nat} {inserts : List Nat}

/-- A timer goes into the array. -/
theorem insert (h : Places p next firing inserts) (d : Nat) (ht : t < next) (hi : t ∉ inserts)
    (hf : firing ≠ some t) :
    Places (pollerTimerInsertLocked true p t d) next firing inserts ∧
      ∀ u, (pollerTimerInsertLocked true p t d).Mem u ↔ p.Mem u ∨ u = t := by
  have hins := insertLocked_inserted true (d := d) h.indexed (h.placed t)
  have hin := insertLocked_mem d h.indexed (h.placed t) (.inl rfl)
  have hmem : ∀ u, (pollerTimerInsertLocked true p t d).Mem u ↔ p.Mem u ∨ u = t := by
    intro u
    by_cases hut : u = t
    · rw [hut]
      exact iff_of_true hin (.inr rfl)
    · rw [hins.mem u hut, or_iff_left hut]
  refine ⟨⟨hins.indexed, fun u => hins.placed u (h.placed u), fun u hu => ?_, fun u hu => ?_,
    fun u hu => ?_, h.once⟩, hmem⟩
  · rcases (hmem u).mp hu with hu | rfl
    · exact h.members u hu
    · exact ht
  · obtain ⟨hlt, hnm, hnf⟩ := h.pending u hu
    refine ⟨hlt, fun hm => ?_, hnf⟩
    rcases (hmem u).mp hm with hm | rfl
    · exact hnm hm
    · exact hi hu
  · obtain ⟨hlt, hnm⟩ := h.fired u hu
    refine ⟨hlt, fun hm => ?_⟩
    rcases (hmem u).mp hm with hm | rfl
    · exact hnm hm
    · exact hf hu

/-- Timers leave the array. -/
theorem shrink {q : TimerHeap} (h : Places p next firing inserts) (hi : q.Indexed)
    (hp : ∀ t, q.Placed t) (hm : ∀ t, q.Mem t → p.Mem t) : Places q next firing inserts where
  indexed := hi
  placed := hp
  members := fun t ht => h.members t (hm t ht)
  pending := fun t ht => by
    obtain ⟨hlt, hnm, hnf⟩ := h.pending t ht
    exact ⟨hlt, fun hq => hnm (hm t hq), hnf⟩
  fired := fun t ht => ⟨(h.fired t ht).1, fun hq => (h.fired t ht).2 (hm t hq)⟩
  once := h.once

/-- `unlink_timer`. -/
theorem unlink (h : Places p next firing inserts) (t : Nat) :
    Places (timerHeapRemove p t) next firing inserts ∧
      ∀ u, (timerHeapRemove p t).Mem u ↔ p.Mem u ∧ u ≠ t := by
  by_cases hm : p.Mem t
  · have hr := timerHeapRemove_removed h.indexed hm
    exact ⟨h.shrink hr.indexed (fun u => hr.placed u (h.placed u)) fun u hu =>
      ((hr.mem u).mp hu).1, hr.mem⟩
  · rw [timerHeapRemove_not_mem (h.placed t) hm]
    refine ⟨h, fun u => ⟨fun hu => ⟨hu, ?_⟩, fun hu => hu.1⟩⟩
    rintro rfl
    exact hm hu

/-- `timer_heap_pop_min`. -/
theorem popMin (h : Places p next firing inserts) (h0 : 0 < p.count) :
    Places (timerHeapPopMin p).2 next firing inserts ∧
      ∀ u, (timerHeapPopMin p).2.Mem u ↔ p.Mem u ∧ u ≠ p.heap 0 := by
  have hr := timerHeapPopMin_removed h.indexed h0
  exact ⟨h.shrink hr.indexed (fun u => hr.placed u (h.placed u)) fun u hu =>
    ((hr.mem u).mp hu).1, hr.mem⟩

/-- A new timer gets the next name. -/
theorem calloc (h : Places p next firing inserts) :
    Places (p.calloc next) (next + 1) firing inserts where
  indexed := calloc_indexed h.indexed fun hm => Nat.lt_irrefl _ (h.members next hm)
  placed := fun t => calloc_placed (h.placed t) next
  members := fun t ht => Nat.lt_succ_of_lt (h.members t ht)
  pending := fun t ht => by
    obtain ⟨hlt, hrest⟩ := h.pending t ht
    exact ⟨Nat.lt_succ_of_lt hlt, hrest⟩
  fired := fun t ht => ⟨Nat.lt_succ_of_lt (h.fired t ht).1, (h.fired t ht).2⟩
  once := h.once

/-- Nobody has the next timer yet. -/
theorem fresh (h : Places p next firing inserts) :
    ¬ p.Mem next ∧ next ∉ inserts ∧ firing ≠ some next :=
  ⟨fun hm => Nat.lt_irrefl _ (h.members next hm), fun hi => Nat.lt_irrefl _ (h.pending next hi).1,
    fun hf => Nat.lt_irrefl _ (h.fired next hf).1⟩

/-- An insertion is queued. -/
theorem queue (h : Places p next firing inserts) (ht : t < next) (hi : t ∉ inserts)
    (hm : ¬ p.Mem t) (hf : firing ≠ some t) : Places p next firing (t :: inserts) where
  indexed := h.indexed
  placed := h.placed
  members := h.members
  pending := fun u hu => by
    rcases List.mem_cons.mp hu with rfl | hu
    · exact ⟨ht, hm, hf⟩
    · exact h.pending u hu
  fired := h.fired
  once := List.nodup_cons.mpr ⟨hi, h.once⟩

/-- An insertion leaves the queue. -/
theorem unqueue (h : Places p next firing (t :: inserts)) :
    Places p next firing inserts ∧ t < next ∧ t ∉ inserts ∧ firing ≠ some t := by
  obtain ⟨hlt, -, hf⟩ := h.pending t List.mem_cons_self
  obtain ⟨hi, honce⟩ := List.nodup_cons.mp h.once
  exact ⟨⟨h.indexed, h.placed, h.members, fun u hu => h.pending u (List.mem_cons_of_mem t hu),
    h.fired, honce⟩, hlt, hi, hf⟩

/-- The order of the queue does not matter. -/
theorem perm {inserts' : List Nat} (h : Places p next firing inserts)
    (hp : inserts.Perm inserts') : Places p next firing inserts' where
  indexed := h.indexed
  placed := h.placed
  members := h.members
  pending := fun t ht => h.pending t (hp.mem_iff.mpr ht)
  fired := h.fired
  once := hp.nodup_iff.mp h.once

/-- A callback starts. -/
theorem startFiring (h : Places p next none inserts) (ht : t < next) (hi : t ∉ inserts)
    (hm : ¬ p.Mem t) : Places p next (some t) inserts where
  indexed := h.indexed
  placed := h.placed
  members := h.members
  pending := fun u hu => by
    obtain ⟨hlt, hnm, -⟩ := h.pending u hu
    refine ⟨hlt, hnm, ?_⟩
    rintro ⟨⟩
    exact hi hu
  fired := by
    rintro u ⟨⟩
    exact ⟨ht, hm⟩
  once := h.once

/-- A callback is over. -/
theorem stopFiring (h : Places p next firing inserts) : Places p next none inserts where
  indexed := h.indexed
  placed := h.placed
  members := h.members
  pending := fun u hu => by
    obtain ⟨hlt, hnm, -⟩ := h.pending u hu
    exact ⟨hlt, hnm, fun hf => by cases hf⟩
  fired := fun u hu => by cases hu
  once := h.once

theorem setCancelled (h : Places p next firing inserts) (t : Nat) :
    Places (p.setCancelled t) next firing inserts where
  indexed := setCancelled_indexed h.indexed t
  placed := fun u => setCancelled_placed (h.placed u) t
  members := h.members
  pending := h.pending
  fired := h.fired
  once := h.once

end Places

/-! ## The steps -/

/-- A call whose allocations succeed, on a poller that is not being torn down. -/
def Granted : TimerAct → Prop
  | .doDelay env _ _ =>
      env.callocTimer = true ∧ env.callocCtx = true ∧ env.calloc = true ∧ env.realloc = true
  | .cancelPost env callocCtx _ => callocCtx = true ∧ env.calloc = true
  | .next realloc => realloc = true
  | .cbReturn realloc _ => realloc = true
  | .timerFini => False
  | .bind _ | .cancel _ _ | .drain | .flush _ => True

/-- The timer that a step hands to `unlink_timer`. -/
def unlinks (s : TimerState) : TimerAct → Option Nat
  | .cancel self t => if s.timerMtx && isOwner s.tasks self then some t else none
  | .next _ =>
      match s.list with
      | (_, .timerCancel t) :: _ => some t
      | _ => none
  | _ => none

/-- The step takes no timer out of the array that it leaves to nobody: what it unlinks is
not in the array, or freed already. -/
def Spares (s : TimerState) (a : TimerAct) : Prop :=
  ∀ t ∈ unlinks s a, s.heap.Mem t → s.mem.freed t = true

/-- Somebody will still free the timer, or has freed it. -/
def Kept (s : TimerState) (t : Nat) : Prop :=
  s.heap.Mem t ∨ s.mem.freed t = true ∨ s.firingTimer = some t ∨ t ∈ s.inserts

/-- No timer is lost. -/
def NoneLost (s : TimerState) : Prop := ∀ t < s.next, Kept s t

/-- Where the timers of a state are. -/
structure TimerState.InPlace (s : TimerState) : Prop where
  places : Places s.heap s.next s.firingTimer s.inserts
  linked : s.tasks.Linked

/-- The step keeps the timers apart, and loses none exactly where it spares them. -/
structure Tended (s : TimerState) (a : TimerAct) (u : TimerState) : Prop where
  inPlace : u.InPlace
  noneLost : NoneLost s → (NoneLost u ↔ Spares s a)

namespace TimerState.InPlace

variable {s u : TimerState} {a : TimerAct}

theorem start (tasks : TaskPoller TimerTask) (timerMtx : Bool) :
    InPlace (.start tasks timerMtx) where
  places :=
    { indexed := fun _ hi => absurd hi (Nat.not_lt_zero _)
      placed := fun _ _ hi => by cases hi
      members := by
        rintro t ⟨i, hi, -⟩
        exact absurd hi (Nat.not_lt_zero i)
      pending := fun _ hm => by cases hm
      fired := fun _ hf => by cases hf
      once := List.nodup_nil }
  linked := TaskPoller.linked_empty rfl

/-- A step that unlinks nothing and keeps every timer. -/
theorem keeps (hu : u.InPlace) (hnone : unlinks s a = none)
    (h : NoneLost s → NoneLost u) : Tended s a u :=
  ⟨hu, fun hs => iff_of_true (h hs) fun t ht => by rw [hnone] at ht; cases ht⟩

/-- A step that only unlinks: the timer is lost if it was in the array and live. -/
theorem unlinked {t : Nat} (h : s.InPlace) (hu : u.InPlace) (hnone : unlinks s a = some t)
    (hfire : s.firing = none) (hnext : u.next = s.next) (hold : t < s.next)
    (hfired : u.firingTimer = s.firingTimer) (hmem : ∀ v, u.heap.Mem v ↔ s.heap.Mem v ∧ v ≠ t)
    (hfree : u.mem.freed = s.mem.freed) (hins : ∀ v, v ∈ u.inserts ↔ v ∈ s.inserts) :
    Tended s a u := by
  refine ⟨hu, fun hs => ⟨fun hkept v hv hm => ?_, fun hspares v hv => ?_⟩⟩
  · rw [hnone] at hv
    cases hv
    rcases hkept t (by rwa [hnext]) with hm' | hf | hf | hi
    · exact absurd rfl ((hmem t).mp hm').2
    · rwa [← hfree]
    · rw [hfired, TimerState.firingTimer, hfire] at hf
      cases hf
    · exact absurd hm (h.places.pending t ((hins t).mp hi)).2.1
  · rw [hnext] at hv
    rcases hs v hv with hm | hf | hf | hi
    · by_cases hvt : v = t
      · subst hvt
        exact .inr (.inl (by rw [hfree]; exact hspares v hnone hm))
      · exact .inl ((hmem v).mpr ⟨hm, hvt⟩)
    · exact .inr (.inl (by rwa [hfree]))
    · exact .inr (.inr (.inl (by rwa [hfired])))
    · exact .inr (.inr (.inr ((hins v).mpr hi)))

/-- One timer more, which is kept. -/
theorem noneLost_new (hnext : u.next = s.next + 1) (hnew : Kept u s.next)
    (hold : ∀ t, Kept s t → Kept u t) (h : NoneLost s) : NoneLost u := by
  intro t ht
  rw [hnext] at ht
  by_cases htn : t = s.next
  · rwa [htn]
  · exact hold t (h t (by omega))

/-- A timer that is freed takes no other one away. -/
theorem kept_free {t v : Nat} (h : Kept s v) : Kept (s.freeTimer t) v := by
  rcases h with hm | hf | hf | hi
  · exact .inl hm
  · exact .inr (.inl (Lifetime.free_freed hf))
  · exact .inr (.inr (.inl hf))
  · exact .inr (.inr (.inr hi))

theorem doDelay (h : s.InPlace) {env : DelayEnv} {cb : Bool} {delayMs : Nat}
    (hg : Granted (.doDelay env cb delayMs)) (he : DelayEnds s env cb u) :
    Tended s (.doDelay env cb delayMs) u := by
  have hnew := h.places.calloc
  obtain ⟨hm, hi, hf⟩ := h.places.fresh
  cases he with
  | refused => exact keeps h rfl id
  | owner d =>
      rw [hg.2.2.2]
      obtain ⟨hp, hmem⟩ := hnew.insert d (Nat.lt_succ_self _) hi hf
      refine keeps ⟨hp, h.linked⟩ rfl (noneLost_new rfl (.inl ((hmem _).mpr (.inr rfl))) ?_)
      rintro t (ht | ht | ht | ht)
      · exact .inl ((hmem t).mpr (.inl ht))
      · exact .inr (.inl ((congrFun (Lifetime.useAll_freed _ _) t).trans ht))
      · exact .inr (.inr (.inl ht))
      · exact .inr (.inr (.inr ht))
  | noctx =>
      refine keeps ⟨hnew, h.linked⟩ rfl (noneLost_new rfl (.inr (.inl (Function.update_self ..))) ?_)
      exact fun t ht => kept_free ht
  | nomem =>
      refine keeps ⟨hnew, h.linked.counted⟩ rfl
        (noneLost_new rfl (.inr (.inl (Function.update_self ..))) ?_)
      exact fun t ht => kept_free ht
  | queued d =>
      have hq := inserts_push (s := s.newTimer) h.linked true (.delayInsert s.next d)
      have hp := (hnew.queue (Nat.lt_succ_self _) hi hm hf).perm hq.symm
      refine keeps ⟨hp, h.linked.push true _⟩ rfl
        (noneLost_new rfl (.inr (.inr (.inr (hq.mem_iff.mpr List.mem_cons_self)))) ?_)
      rintro t (ht | ht | ht | ht)
      · exact .inl ht
      · exact .inr (.inl ht)
      · exact .inr (.inr (.inl ht))
      · exact .inr (.inr (.inr (hq.mem_iff.mpr (List.mem_cons_of_mem _ ht))))
  | unwoken d =>
      have hq := inserts_push (s := s.newTimer) h.linked true (.delayInsert s.next d)
      have hp := (hnew.queue (Nat.lt_succ_self _) hi hm hf).perm hq.symm
      refine keeps ⟨hp, h.linked.push true _⟩ rfl
        (noneLost_new rfl (.inr (.inr (.inr (hq.mem_iff.mpr List.mem_cons_self)))) ?_)
      rintro t (ht | ht | ht | ht)
      · exact .inl ht
      · exact .inr (.inl (Lifetime.free_freed ht))
      · exact .inr (.inr (.inl ht))
      · exact .inr (.inr (.inr (hq.mem_iff.mpr (List.mem_cons_of_mem _ ht))))

theorem cancel (h : s.InPlace) {self t : Nat} (hs : stepCancel s self t = some u) :
    Tended s (.cancel self t) u := by
  have hmark := h.places.setCancelled t
  rw [stepCancel] at hs
  split at hs
  · cases hs
  · next hold =>
    cases hmtx : s.timerMtx with
    | false =>
        rw [hmtx] at hs
        cases hs
        exact keeps ⟨hmark, h.linked⟩ (by rw [unlinks, hmtx]; rfl) id
    | true =>
        rw [hmtx] at hs
        cases hown : isOwner s.tasks self with
        | false =>
            rw [hown] at hs
            cases hs
            exact keeps ⟨hmark, h.linked⟩ (by rw [unlinks, hmtx, hown]; rfl) id
        | true =>
            rw [hown] at hs
            obtain ⟨hfire, rfl⟩ := locked_eq_some.mp hs
            obtain ⟨hp, hmem⟩ := hmark.unlink t
            exact unlinked h ⟨hp, h.linked⟩ (by rw [unlinks, hmtx, hown]; rfl) hfire rfl
              (Nat.lt_of_not_le hold) rfl hmem (Lifetime.useAll_freed _ _) fun _ => Iff.rfl

theorem cancelPost (h : s.InPlace) {env : AsyncEnv} {callocCtx : Bool} {t : Nat}
    (hs : stepCancelPost s env callocCtx t = some u) : Tended s (.cancelPost env callocCtx t) u := by
  have hq := inserts_push h.linked false (.timerCancel t)
  have hplaces := h.places.perm hq.symm
  have hkept : NoneLost s →
      NoneLost { s with tasks := asyncPush s.tasks false (.timerCancel t) } := by
    intro hs v hv
    rcases hs v hv with hv | hv | hv | hv
    · exact .inl hv
    · exact .inr (.inl hv)
    · exact .inr (.inr (.inl hv))
    · exact .inr (.inr (.inr (hq.mem_iff.mpr hv)))
  cases (stepCancelPost_eq_some hs).2 with
  | noctx => exact keeps ⟨h.places, h.linked⟩ rfl id
  | nomem => exact keeps ⟨h.places, h.linked.counted⟩ rfl id
  | queued => exact keeps ⟨hplaces, h.linked.push false _⟩ rfl hkept
  | unwoken _ => exact keeps ⟨hplaces, h.linked.push false _⟩ rfl hkept

theorem drain (h : s.InPlace) (hl : s.list = []) :
    Tended s .drain { s with
      list := s.tasks.tasks.nodes, tasks := { s.tasks with tasks := Chain.empty } } := by
  have hins : { s with
      list := s.tasks.tasks.nodes, tasks := { s.tasks with tasks := Chain.empty } }.inserts =
        s.inserts := by
    simp [TimerState.inserts, TimerState.pendingTasks, hl, Chain.empty]
  refine keeps ⟨?_, TaskPoller.linked_empty rfl⟩ rfl fun hs v hv => ?_
  · rw [hins]
    exact h.places
  · rcases hs v hv with hv | hv | hv | hv
    · exact .inl hv
    · exact .inr (.inl hv)
    · exact .inr (.inr (.inl hv))
    · exact .inr (.inr (.inr (by rwa [hins])))

theorem next (h : s.InPlace) {n : Nat × TimerTask} {rest : List (Nat × TimerTask)}
    (hl : s.list = n :: rest) (hfire : s.firing = none) :
    Tended s (.next true) (({ s with list := rest }.runTask true n.2).takeCtx n.1) := by
  obtain ⟨addr, task⟩ := n
  have hp : s.pendingTasks = task :: { s with list := rest }.pendingTasks := by
    simp [TimerState.pendingTasks, hl]
  cases task with
  | delayInsert t d =>
      have hins : s.inserts = t :: { s with list := rest }.inserts := by
        rw [TimerState.inserts, hp]
        rfl
      have hplaces := h.places
      rw [hins] at hplaces
      obtain ⟨hpl, hlt, hi, hf⟩ := hplaces.unqueue
      obtain ⟨hnew, hmem⟩ := hpl.insert d hlt hi hf
      refine keeps ⟨hnew, h.linked⟩ (by rw [unlinks, hl]) fun hs v hv => ?_
      rcases hs v hv with hv | hv | hv | hv
      · exact .inl ((hmem v).mpr (.inl hv))
      · exact .inr (.inl ((congrFun (Lifetime.useAll_freed _ _) v).trans hv))
      · exact .inr (.inr (.inl hv))
      · rw [hins] at hv
        rcases List.mem_cons.mp hv with rfl | hv
        · exact .inl ((hmem v).mpr (.inr rfl))
        · exact .inr (.inr (.inr hv))
  | timerCancel t =>
      have hins : { s with list := rest }.inserts = s.inserts := by
        symm
        rw [TimerState.inserts, hp]
        rfl
      have hplaces := h.places
      rw [← hins] at hplaces
      obtain ⟨hnew, hmem⟩ := hplaces.unlink t
      by_cases hold : t < s.next
      · refine unlinked h ⟨hnew, h.linked⟩ (by rw [unlinks, hl]) hfire rfl hold rfl hmem
          (Lifetime.useAll_freed _ _) fun v => ?_
        exact Iff.of_eq (congrArg (v ∈ ·) hins)
      · have hnm : ¬ s.heap.Mem t := fun hm => hold (h.places.members t hm)
        refine ⟨⟨hnew, h.linked⟩, fun hs => iff_of_true (fun v hv => ?_) fun v hv hm => ?_⟩
        · rcases hs v hv with hm | hf | hf | hi
          · exact .inl ((hmem v).mpr ⟨hm, by rintro rfl; exact hnm hm⟩)
          · exact .inr (.inl ((congrFun (Lifetime.useAll_freed _ _) v).trans hf))
          · exact .inr (.inr (.inl hf))
          · exact .inr (.inr (.inr (hins ▸ hi)))
        · rw [unlinks, hl] at hv
          cases hv
          exact absurd hm hnm

theorem flush (h : s.InPlace) {now : Nat} (hs : stepFlush s now = some u) :
    Tended s (.flush now) u := by
  rw [stepFlush] at hs
  split at hs
  · cases hs
  · split at hs
    · obtain ⟨-, rfl⟩ := locked_eq_some.mp hs
      exact keeps h rfl id
    · next h0 =>
      dsimp only at hs
      split at hs
      · obtain ⟨hfire, rfl⟩ := locked_eq_some.mp hs
        have hpos : 0 < s.heap.count := Nat.pos_of_ne_zero h0
        have htop : s.heap.Mem (s.heap.heap 0) := ⟨0, hpos, rfl⟩
        have hlt := h.places.members _ htop
        have hi : s.heap.heap 0 ∉ s.inserts := fun hi => (h.places.pending _ hi).2.1 htop
        obtain ⟨hpop, hmem⟩ := h.places.popMin hpos
        have hout : ¬ (timerHeapPopMin s.heap).2.Mem (s.heap.heap 0) := fun hm =>
          ((hmem _).mp hm).2 rfl
        have hnofire : s.firingTimer = none := by rw [TimerState.firingTimer, hfire]; rfl
        rw [TimerState.fire]
        dsimp only
        split
        · refine keeps ⟨hpop, h.linked⟩ rfl fun hs v hv => ?_
          by_cases hvt : v = s.heap.heap 0
          · rw [hvt]
            exact .inr (.inl (Function.update_self ..))
          · rcases hs v hv with hm | hf | hf | hi
            · exact .inl ((hmem v).mpr ⟨hm, hvt⟩)
            · exact .inr (.inl (Lifetime.free_freed
                ((congrFun (Lifetime.useAll_freed _ _) v).trans hf)))
            · exact .inr (.inr (.inl hf))
            · exact .inr (.inr (.inr hi))
        · rw [hnofire] at hpop
          refine keeps ⟨hpop.startFiring hlt hi hout, h.linked⟩ rfl fun hs v hv => ?_
          by_cases hvt : v = s.heap.heap 0
          · rw [hvt]
            exact .inr (.inr (.inl rfl))
          · rcases hs v hv with hm | hf | hf | hi
            · exact .inl ((hmem v).mpr ⟨hm, hvt⟩)
            · exact .inr (.inl ((congrFun (Lifetime.useAll_freed _ _) v).trans hf))
            · rw [hnofire] at hf
              cases hf
            · exact .inr (.inr (.inr hi))
      · obtain ⟨-, rfl⟩ := locked_eq_some.mp hs
        exact keeps ⟨h.places, h.linked⟩ rfl id

/-- The callback is over and its timer freed. -/
theorem released (h : s.InPlace) {t : Nat} (hf : s.firingTimer = some t) (hnone : unlinks s a = none)
    (hheap : u.heap = s.heap) (hnext : u.next = s.next) (hfired : u.firing = none)
    (hins : u.inserts = s.inserts) (htasks : u.tasks = s.tasks)
    (hfree : u.mem.freed = Function.update s.mem.freed t true) : Tended s a u := by
  refine keeps ⟨?_, by rw [htasks]; exact h.linked⟩ hnone fun hs v hv => ?_
  · rw [hheap, hnext, hins, TimerState.firingTimer, hfired]
    exact h.places.stopFiring
  · rw [hnext] at hv
    by_cases hvt : v = t
    · exact .inr (.inl (by rw [hfree, hvt]; exact Function.update_self ..))
    · rcases hs v hv with hm | hf' | hf' | hi
      · exact .inl (by rwa [hheap])
      · exact .inr (.inl (by rw [hfree, Function.update_of_ne hvt]; exact hf'))
      · rw [hf] at hf'
        cases hf'
        exact absurd rfl hvt
      · exact .inr (.inr (.inr (by rwa [hins])))

theorem cbReturn (h : s.InPlace) {t now nextMs : Nat} (hf : s.firing = some (t, now))
    (hs : timerStep s (.cbReturn true nextMs) = some u) : Tended s (.cbReturn true nextMs) u := by
  have hfired : s.firingTimer = some t := by rw [TimerState.firingTimer, hf]; rfl
  have hlt := (h.places.fired t hfired).1
  have hi : t ∉ s.inserts := fun hi => (h.places.pending t hi).2.2 hfired
  rw [timerStep, hf] at hs
  dsimp only at hs
  split at hs
  · cases hs
    rw [TimerState.again]
    dsimp only
    split
    · exact released h hfired rfl rfl rfl rfl rfl rfl rfl
    · obtain ⟨hp, hmem⟩ := h.places.stopFiring.insert ((now + nextMs) % 2 ^ 64) hlt hi
        fun hx => by cases hx
      refine keeps ⟨hp, h.linked⟩ rfl fun hs v hv => ?_
      rcases hs v hv with hm | hf' | hf' | hv'
      · exact .inl ((hmem v).mpr (.inl hm))
      · exact .inr (.inl ((congrFun (Lifetime.useAll_freed _ _) v).trans hf'))
      · rw [hfired] at hf'
        cases hf'
        exact .inl ((hmem t).mpr (.inr rfl))
      · exact .inr (.inr (.inr hv'))
  · cases hs
    exact released h hfired rfl rfl rfl rfl rfl rfl rfl

theorem step (h : s.InPlace) (hg : Granted a) (hs : timerMachine.step s a = some u) :
    Tended s a u := by
  cases a with
  | bind self =>
      cases hs
      exact keeps ⟨h.places, h.linked.wf, h.linked.below⟩ rfl id
  | doDelay env cb delayMs => exact h.doDelay hg (stepDoDelay_ends hs)
  | cancel self t => exact h.cancel hs
  | cancelPost env callocCtx t => exact h.cancelPost hs
  | drain =>
      simp only [timerMachine, timerStep] at hs
      split at hs
      · next hl =>
        obtain ⟨-, rfl⟩ := locked_eq_some.mp hs
        split
        · exact h.drain hl
        · exact keeps h rfl id
      · cases hs
  | next realloc =>
      cases hg
      simp only [timerMachine, timerStep] at hs
      cases hl : s.list with
      | nil =>
          rw [hl] at hs
          cases hs
      | cons n rest =>
          rw [hl] at hs
          obtain ⟨hf, rfl⟩ := locked_eq_some.mp hs
          exact h.next hl hf
  | flush now => exact h.flush hs
  | cbReturn realloc nextMs =>
      cases hg
      cases hf : s.firing with
      | none =>
          simp only [timerMachine, timerStep, hf] at hs
          cases hs
      | some f => exact h.cbReturn hf hs
  | timerFini => exact absurd hg id

end TimerState.InPlace

/-! ## Runs -/

instance decidableSpares (s : TimerState) (a : TimerAct) : Decidable (Spares s a) :=
  decidable_of_iff (∀ t ∈ unlinks s a, t ∈ s.heap.members → s.mem.freed t = true) <| by
    simp only [mem_members, Spares]

instance decidableGranted : ∀ a, Decidable (Granted a)
  | .doDelay _ _ _ => inferInstanceAs (Decidable (_ ∧ _ ∧ _ ∧ _))
  | .cancelPost _ _ _ => inferInstanceAs (Decidable (_ ∧ _))
  | .next _ | .cbReturn _ _ => inferInstanceAs (Decidable (_ = _))
  | .timerFini => isFalse id
  | .bind _ | .cancel _ _ | .drain | .flush _ => isTrue trivial

/-- A run loses no timer exactly when none of its steps takes a timer out of the array
that nobody frees. -/
theorem none_lost_iff (tasks : TaskPoller TimerTask) (timerMtx : Bool) (as : List TimerAct)
    (s : TimerState) (hrun : timerMachine.run (.start tasks timerMtx) as = some s)
    (hgranted : timerMachine.RunMeets (fun _ a => Granted a) (.start tasks timerMtx) as) :
    timerMachine.Throughout NoneLost (.start tasks timerMtx) as ↔
      timerMachine.RunMeets Spares (.start tasks timerMtx) as :=
  Machine.throughout_iff (I := TimerState.InPlace) (D := fun _ a => Granted a)
    (fun _ _ _ h hg hs => (h.step hg hs).inPlace)
    (fun _ _ _ h hg hn hs => (h.step hg hs).noneLost hn) as _ s (.start tasks timerMtx)
    (fun _ ht => absurd ht (Nat.not_lt_zero _)) hgranted hrun

/-- In every run with memory in which no cancel finds its timer in the array, whenever no
task is pending each timer is in the array or freed, but for the one whose callback
runs. -/
theorem timers_not_leaked (tasks : TaskPoller TimerTask) (timerMtx : Bool) (s : TimerState)
    (hrun : timerMachine.Leads (fun s a => Granted a ∧ Spares s a) (.start tasks timerMtx) s)
    (hempty : s.pendingTasks = []) :
    ∀ t < s.next, s.heap.Mem t ∨ s.mem.freed t = true ∨ s.firingTimer = some t := by
  have hs : s.InPlace ∧ NoneLost s := by
    refine hrun.invariant (I := fun u => u.InPlace ∧ NoneLost u) (fun u a v hu hc hst => ?_)
      ⟨.start tasks timerMtx, fun _ ht => absurd ht (Nat.not_lt_zero _)⟩
    have htended := hu.1.step hc.1 hst
    exact ⟨htended.inPlace, (htended.noneLost hu.2).mpr hc.2⟩
  intro t ht
  rcases hs.2 t ht with hm | hf | hf | hi
  · exact .inl hm
  · exact .inr (.inl hf)
  · exact .inr (.inr hf)
  · rw [TimerState.inserts, hempty] at hi
    cases hi

/-- Two timers, one of the owner and one of another thread: the first is put back by its
callback, the second fires for the last time. -/
def twoTimers : List TimerAct :=
  [.bind 1, .doDelay ⟨⟨1, true, .ok⟩, 10, true, true, true⟩ true 5, .doDelay otherThread true 5,
    .drain, .next true, .flush 20, .cbReturn true 30, .flush 20, .cbReturn true 0]

theorem timers_not_leaked_fired :
    ∃ s, timerMachine.run (.start ⟨true, Chain.empty, 1, 4, 0⟩ true) twoTimers = some s ∧
      s.next = 2 ∧ ∀ t < s.next, s.heap.Mem t ∨ s.mem.freed t = true ∨ s.firingTimer = some t := by
  have hrun : ((timerMachine.run (.start ⟨true, Chain.empty, 1, 4, 0⟩ true) twoTimers).map
      fun s => decide (s.next = 2 ∧ s.pendingTasks = [])) = some true := by decide +kernel
  obtain ⟨s, hs, hnext, hempty⟩ := Machine.exists_run hrun
  refine ⟨s, hs, hnext, timers_not_leaked ⟨true, Chain.empty, 1, 4, 0⟩ true s ?_ hempty⟩
  exact Machine.leads_of_run twoTimers _ _ hs (by decide +kernel)

/-- The owner cancels its timer before it expires. -/
def cancelledEarly : List TimerAct :=
  [.bind 1, .doDelay ⟨⟨1, true, .ok⟩, 10, true, true, true⟩ true 5, .cancel 1 0]

/-- The timer is then neither in the array nor freed, and no task is pending. -/
theorem timer_leaked :
    ∃ s, timerMachine.Leads (fun _ a => Granted a) (.start ⟨true, Chain.empty, 1, 4, 0⟩ true) s ∧
      s.pendingTasks = [] ∧ s.firing = none ∧ 0 < s.next ∧ ¬ s.heap.Mem 0 ∧
      s.mem.freed 0 = false := by
  have hrun : ((timerMachine.run (.start ⟨true, Chain.empty, 1, 4, 0⟩ true) cancelledEarly).map
      fun s => decide (s.pendingTasks = [] ∧ s.firing = none ∧ 0 < s.next ∧ 0 ∉ s.heap.members ∧
        s.mem.freed 0 = false)) = some true := by decide +kernel
  obtain ⟨s, hs, hempty, hfire, hnext, hmem, hfree⟩ := Machine.exists_run hrun
  refine ⟨s, Machine.leads_of_run cancelledEarly _ _ hs (by decide +kernel), hempty, hfire, hnext,
    fun hm => hmem (mem_members.mpr hm), hfree⟩

end Ztk.Poller
