import Ztk.Poller.TimerHeap

/-!
# The timer heap keeps its representation

`timer_heap_push` and `ztk_poller_timer_insert_locked`, and the invariant of the
heap along every sequence of its operations.

`ztk_poller_timer_insert_locked` overwrites the deadline of a timer that may be
in the array and only then takes the timer out.  In between the array has a
hole at that timer (`setDeadline_hole`), and a hole is all that
`timer_heap_remove` asks for.

`timer_heap_push` is called only with a timer that is not in the array: its one
caller, `ztk_poller_timer_insert_locked`, takes it out first.  The machine
enables it then only.
-/

namespace Ztk.Poller

open Ztk.Lib Ztk.Lib.BinaryHeap TimerHeap

/-! ## Putting a timer in -/

theorem growCap_ge : ∀ (cap need : Nat), 0 < cap → need ≤ growCap cap need := by
  intro cap need hc
  induction cap using growCap.induct need with
  | case1 cap h ih =>
      rw [growCap, dif_pos h]
      exact ih (by omega)
  | case2 cap h =>
      rw [growCap, dif_neg h]
      omega

/-- A reservation changes the capacity only, and makes room. -/
theorem timerHeapReserve_some {realloc : Bool} {p q : TimerHeap} {need : Nat}
    (h : timerHeapReserve realloc p need = some q) :
    q = { p with cap := q.cap } ∧ need ≤ q.cap := by
  unfold timerHeapReserve at h
  simp only at h
  split at h
  · next hle =>
      cases h
      exact ⟨rfl, hle⟩
  · split at h
    · cases h
      refine ⟨rfl, growCap_ge _ _ ?_⟩
      split <;> omega
    · cases h

theorem timerHeapReserve_of_le {realloc : Bool} {p : TimerHeap} {need : Nat} (h : need ≤ p.cap) :
    timerHeapReserve realloc p need = some p := by
  simp [timerHeapReserve, h]

/-- `q` is `p` with the timer `t` put in. -/
structure Added (p q : TimerHeap) (t : Nat) : Prop where
  count : q.count = p.count + 1
  deadline : ∀ u, (q.timer u).deadlineMs = (p.timer u).deadlineMs
  cancelled : ∀ u, (q.timer u).cancelled = (p.timer u).cancelled
  mem : ∀ u, q.Mem u ↔ p.Mem u ∨ u = t
  indexed : q.Indexed
  placed : ∀ u, p.Placed u → q.Placed u

/-- The array with a timer at its end, before it is sifted. -/
def appendSlot (p : TimerHeap) (t : Nat) : TimerHeap :=
  { p.setIndex t (some p.count) with
    heap := Function.update p.heap p.count t, count := p.count + 1 }

theorem appendSlot_heap_of_ne (p : TimerHeap) (t : Nat) {k : Nat} (h : k ≠ p.count) :
    (appendSlot p t).heap k = p.heap k := by
  simp [appendSlot, h]

theorem appendSlot_added {p : TimerHeap} {t : Nat} (h : p.Indexed) (ht : ¬ p.Mem t) :
    Added p (appendSlot p t) t where
  count := rfl
  deadline := fun u => setIndex_deadline p t u _
  cancelled := fun u => setIndex_cancelled p t u _
  mem := by
    intro u
    constructor
    · rintro ⟨k, hk, rfl⟩
      by_cases hkc : k = p.count
      · right
        simp [appendSlot, hkc]
      · left
        rw [appendSlot_heap_of_ne p t hkc]
        have : k < p.count + 1 := hk
        exact ⟨k, by omega, rfl⟩
    · rintro (⟨k, hk, rfl⟩ | rfl)
      · exact ⟨k, Nat.lt_succ_of_lt hk, appendSlot_heap_of_ne p t (Nat.ne_of_lt hk)⟩
      · exact ⟨p.count, Nat.lt_succ_self _, by simp [appendSlot]⟩
  indexed := by
    intro k hk
    have hk' : k < p.count + 1 := hk
    by_cases hkc : k = p.count
    · subst hkc
      simp [appendSlot, setIndex]
    · have hlt : k < p.count := by omega
      rw [appendSlot_heap_of_ne p t hkc]
      have hne : p.heap k ≠ t := fun he => ht ⟨k, hlt, he⟩
      simpa [appendSlot, setIndex, hne] using h k hlt
  placed := by
    intro u hu k hk
    by_cases hut : u = t
    · subst hut
      simp only [appendSlot, setIndex_index_self, Option.some.injEq] at hk
      subst hk
      exact ⟨Nat.lt_succ_self _, by simp [appendSlot]⟩
    · have hk' : (p.timer u).heapIndex = some k := by
        simpa [appendSlot, setIndex, hut] using hk
      obtain ⟨hlt, he⟩ := hu k hk'
      exact ⟨Nat.lt_succ_of_lt hlt, by rw [appendSlot_heap_of_ne p t (Nat.ne_of_lt hlt), he]⟩

theorem Added.sifted {p q r : TimerHeap} {t : Nat} (h : Added p q t) (hs : Sifted q r) :
    Added p r t where
  count := hs.count.trans h.count
  deadline := fun u => (hs.deadline u).trans (h.deadline u)
  cancelled := fun u => (hs.cancelled u).trans (h.cancelled u)
  mem := fun u => (hs.mem u).trans (h.mem u)
  indexed := hs.indexed h.indexed
  placed := fun u hu => hs.placed h.indexed u (h.placed u hu)

/-- `timer_heap_push` fails and changes nothing, or appends and sifts. -/
theorem timerHeapPush_cases (realloc : Bool) (p : TimerHeap) (t : Nat) :
    timerHeapPush realloc p t = (false, p) ∨
      ∃ cap, p.count + 1 ≤ cap ∧ timerHeapPush realloc p t =
        (true, timerHeapBubbleUp (appendSlot { p with cap := cap } t) p.count) := by
  simp only [timerHeapPush]
  cases hr : timerHeapReserve realloc p (p.count + 1) with
  | none => exact Or.inl rfl
  | some q =>
      obtain ⟨hq, hle⟩ := timerHeapReserve_some hr
      refine Or.inr ⟨q.cap, hle, ?_⟩
      rw [← hq]
      have hc : q.count = p.count := by rw [hq]
      rw [← hc]
      rfl

/-- `timer_heap_push` puts in exactly its timer, whatever the order. -/
theorem timerHeapPush_added {realloc : Bool} {p q : TimerHeap} {t : Nat} (h : p.Indexed)
    (ht : ¬ p.Mem t) (hp : timerHeapPush realloc p t = (true, q)) :
    Added p q t ∧ q.count ≤ q.cap := by
  rcases timerHeapPush_cases realloc p t with he | ⟨cap, hcap, he⟩
  · rw [he] at hp
    cases hp
  · rw [he] at hp
    cases hp
    have hadd : Added p (appendSlot { p with cap := cap } t) t :=
      { appendSlot_added (p := { p with cap := cap }) h ht with }
    have hs := timerHeapBubbleUp_sifted (appendSlot { p with cap := cap } t) p.count
      (Nat.lt_succ_self _)
    exact ⟨hadd.sifted hs, by rw [hs.count, hs.cap]; exact hcap⟩

theorem timerHeapPush_ordered {realloc : Bool} {p q : TimerHeap} {t : Nat}
    (ho : Ordered p.deadlineAt p.count) (hp : timerHeapPush realloc p t = (true, q)) :
    Ordered q.deadlineAt (p.count + 1) := by
  rcases timerHeapPush_cases realloc p t with he | ⟨cap, -, he⟩
  · rw [he] at hp
    cases hp
  · rw [he] at hp
    cases hp
    refine timerHeapBubbleUp_ordered (appendSlot { p with cap := cap } t) p.count
      (Nat.lt_succ_self _) ?_
    have hkey : ∀ k, k < p.count →
        (appendSlot { p with cap := cap } t).deadlineAt k = p.deadlineAt k := by
      intro k hk
      have hh := appendSlot_heap_of_ne { p with cap := cap } t (k := k) (Nat.ne_of_lt hk)
      rw [deadlineAt, hh]
      exact setIndex_deadline _ t _ _
    constructor
    · intro j hj hn hne
      have hn' : j < p.count + 1 := hn
      have hpj := parent_lt hj
      rw [hkey j (by omega), hkey _ (by omega)]
      exact ho j hj (by omega)
    · -- the last position has no children
      intro _ j hj hn hpj
      have hn' : j < p.count + 1 := hn
      have := parent_lt hj
      omega

/-- The only way for a push to fail is a refused reallocation. -/
theorem timerHeapPush_of_room {realloc : Bool} {p : TimerHeap} {t : Nat}
    (h : p.count + 1 ≤ p.cap) : (timerHeapPush realloc p t).1 = true := by
  simp [timerHeapPush, timerHeapReserve_of_le h]

theorem timerHeapPush_granted {realloc : Bool} {p : TimerHeap} (t : Nat)
    (h : realloc = true ∨ p.count + 1 ≤ p.cap) : (timerHeapPush realloc p t).1 = true := by
  by_cases hroom : p.count + 1 ≤ p.cap
  · exact timerHeapPush_of_room hroom
  · have hr : realloc = true := h.resolve_right hroom
    rw [timerHeapPush, timerHeapReserve, hr, if_neg hroom, if_pos rfl]

/-! ## Re-inserting a timer -/

theorem setDeadline_deadlineAt_of_ne (p : TimerHeap) {t d k : Nat} (h : p.heap k ≠ t) :
    (p.setDeadline t d).deadlineAt k = p.deadlineAt k := by
  simp [deadlineAt, setDeadline, h]

theorem setDeadline_index (p : TimerHeap) (t d u : Nat) :
    ((p.setDeadline t d).timer u).heapIndex = (p.timer u).heapIndex := by
  by_cases h : u = t
  · subst h
    simp [setDeadline]
  · simp [setDeadline, h]

theorem setDeadline_cancelled (p : TimerHeap) (t d u : Nat) :
    ((p.setDeadline t d).timer u).cancelled = (p.timer u).cancelled := by
  by_cases h : u = t
  · subst h
    simp [setDeadline]
  · simp [setDeadline, h]

theorem setDeadline_deadline (p : TimerHeap) (t d u : Nat) :
    ((p.setDeadline t d).timer u).deadlineMs = if u = t then d else (p.timer u).deadlineMs := by
  by_cases h : u = t
  · subst h
    simp [setDeadline]
  · simp [setDeadline, h]

theorem setDeadline_indexed {p : TimerHeap} (h : p.Indexed) (t d : Nat) :
    (p.setDeadline t d).Indexed := by
  intro i hi
  rw [setDeadline_index]
  exact h i hi

theorem setDeadline_placed {p : TimerHeap} {u : Nat} (h : p.Placed u) (t d : Nat) :
    (p.setDeadline t d).Placed u := by
  intro i hi
  rw [setDeadline_index] at hi
  exact h i hi

/-- Overwriting the deadline of a timer in the array makes a hole. -/
theorem setDeadline_hole {p : TimerHeap} (h : p.Indexed) {i : Nat} (hi : i < p.count) (d : Nat)
    (ho : Ordered p.deadlineAt p.count) :
    Hole (p.setDeadline (p.heap i) d).deadlineAt p.count i := by
  refine (ho.hole hi).congr fun k hk hne => ?_
  exact setDeadline_deadlineAt_of_ne p fun he => hne (h.inj hk hi he)

/-- `q` is `p` with the timer `t` at another deadline, and in the array unless
the array could not grow. -/
structure Inserted (p q : TimerHeap) (t d : Nat) : Prop where
  deadline : ∀ u, (q.timer u).deadlineMs = if u = t then d else (p.timer u).deadlineMs
  cancelled : ∀ u, (q.timer u).cancelled = (p.timer u).cancelled
  mem : ∀ u, u ≠ t → (q.Mem u ↔ p.Mem u)
  indexed : q.Indexed
  placed : ∀ u, p.Placed u → q.Placed u

/-- Where the timer was in the array, it is taken out first. -/
theorem insertLocked_taken {p : TimerHeap} {t d : Nat} (h : p.Indexed) (ht : p.Placed t) :
    ∃ q, (∀ realloc, pollerTimerInsertLocked realloc p t d = (timerHeapPush realloc q t).2) ∧
      Inserted p q t d ∧ ¬ q.Mem t ∧
      ((¬ p.Mem t ∧ q = p.setDeadline t d) ∨
        (p.Mem t ∧ Removed (p.setDeadline t d) q t ∧ q = timerHeapRemove (p.setDeadline t d) t)) := by
  have h' := setDeadline_indexed h t d
  by_cases hm : p.Mem t
  · have hm' : (p.setDeadline t d).Mem t := hm
    have hr := timerHeapRemove_removed h' hm'
    refine ⟨timerHeapRemove (p.setDeadline t d) t, fun realloc => ?_, ?_, ?_,
      Or.inr ⟨hm, hr, rfl⟩⟩
    · obtain ⟨i, -, -, hidx⟩ := h'.index_of_mem hm'
      simp [pollerTimerInsertLocked, hidx]
    · exact
        { deadline := fun u => (hr.deadline u).trans (setDeadline_deadline p t d u)
          cancelled := fun u => (hr.cancelled u).trans (setDeadline_cancelled p t d u)
          mem := fun u hu => (hr.mem u).trans ⟨fun hx => hx.1, fun hx => ⟨hx, hu⟩⟩
          indexed := hr.indexed
          placed := fun u hu => hr.placed u (setDeadline_placed hu t d) }
    · exact fun hq => ((hr.mem t).mp hq).2 rfl
  · refine ⟨p.setDeadline t d, fun realloc => ?_, ?_, hm, Or.inl ⟨hm, rfl⟩⟩
    · simp [pollerTimerInsertLocked, setDeadline_index, ht.index_none hm]
    · exact
        { deadline := setDeadline_deadline p t d
          cancelled := setDeadline_cancelled p t d
          mem := fun u _ => Iff.rfl
          indexed := h'
          placed := fun u hu => setDeadline_placed hu t d }

/-- Re-insertion moves one timer, whatever the order. -/
theorem insertLocked_inserted (realloc : Bool) {p : TimerHeap} {t d : Nat} (h : p.Indexed)
    (ht : p.Placed t) : Inserted p (pollerTimerInsertLocked realloc p t d) t d := by
  obtain ⟨q, hq, hi, hnm, -⟩ := insertLocked_taken (d := d) h ht
  rw [hq realloc]
  cases hp : timerHeapPush realloc q t with
  | mk ok r =>
      cases ok with
      | false =>
          rcases timerHeapPush_cases realloc q t with he | ⟨cap, -, he⟩
          · rw [he] at hp
            cases hp
            exact hi
          · rw [he] at hp
            cases hp
      | true =>
          have ha := (timerHeapPush_added hi.indexed hnm hp).1
          exact
            { deadline := fun u => (ha.deadline u).trans (hi.deadline u)
              cancelled := fun u => (ha.cancelled u).trans (hi.cancelled u)
              mem := fun u hu => (ha.mem u).trans
                ⟨fun hx => (hi.mem u hu).mp (hx.resolve_right hu),
                  fun hx => Or.inl ((hi.mem u hu).mpr hx)⟩
              indexed := ha.indexed
              placed := fun u hu => ha.placed u (hi.placed u hu) }

/-- Where memory can be had, or is not needed, the timer is in the array afterwards. -/
theorem insertLocked_mem {realloc : Bool} {p : TimerHeap} {t : Nat} (d : Nat) (h : p.Indexed)
    (ht : p.Placed t) (hroom : realloc = true ∨ p.count < p.cap) :
    (pollerTimerInsertLocked realloc p t d).Mem t := by
  obtain ⟨q, hq, hi, hnm, hcase⟩ := insertLocked_taken (d := d) h ht
  have hfits : realloc = true ∨ q.count + 1 ≤ q.cap := by
    refine hroom.imp_right fun hlt => ?_
    rcases hcase with ⟨-, rfl⟩ | ⟨-, hr, -⟩
    · exact hlt
    · have hc : (p.setDeadline t d).count = p.count := rfl
      have hcap : (p.setDeadline t d).cap = p.cap := rfl
      rw [hr.count, hr.cap, hc, hcap]
      omega
  rw [hq realloc]
  cases hp : timerHeapPush realloc q t with
  | mk ok r =>
      have hok : ok = true := by
        rw [← timerHeapPush_granted t hfits, hp]
      rw [hok] at hp
      exact ((timerHeapPush_added hi.indexed hnm hp).1.mem t).mpr (.inr rfl)

/-! ## The invariant along every run -/

/-- The representation invariant of the heap. -/
structure HeapInv (p : TimerHeap) : Prop where
  order : Ordered p.deadlineAt p.count
  indexed : p.Indexed
  placed : ∀ t, p.Placed t
  room : p.count ≤ p.cap

theorem HeapInv.popMin {p : TimerHeap} (h : HeapInv p) : HeapInv (timerHeapPopMin p).2 := by
  by_cases h0 : 0 < p.count
  · have hr := timerHeapPopMin_removed h.indexed h0
    refine ⟨?_, hr.indexed, fun t => hr.placed t (h.placed t), ?_⟩
    · rw [hr.count]
      exact timerHeapPopMin_ordered h0 h.order
    · rw [hr.count, hr.cap]
      exact Nat.le_trans (Nat.sub_le _ _) h.room
  · have : timerHeapPopMin p = (none, p) := by
      simp only [timerHeapPopMin]
      rw [if_pos (by omega)]
    rw [this]
    exact h

/-- Taking a timer out of an array with a hole at it. -/
theorem HeapInv.of_removed {p : TimerHeap} {t : Nat} (h : p.Indexed) (hp : ∀ u, p.Placed u)
    (hroom : p.count ≤ p.cap) {i : Nat} (hi : i < p.count) (ht : p.heap i = t)
    (ho : Hole p.deadlineAt p.count i) : HeapInv (timerHeapRemove p t) := by
  have hr := timerHeapRemove_removed h ⟨i, hi, ht⟩
  refine ⟨?_, hr.indexed, fun u => hr.placed u (hp u), ?_⟩
  · rw [hr.count]
    exact timerHeapRemove_ordered h hi ht ho
  · rw [hr.count, hr.cap]
    exact Nat.le_trans (Nat.sub_le _ _) hroom

theorem HeapInv.remove {p : TimerHeap} (h : HeapInv p) (t : Nat) :
    HeapInv (timerHeapRemove p t) := by
  by_cases hm : p.Mem t
  · obtain ⟨i, hi, ht⟩ := hm
    exact .of_removed h.indexed h.placed h.room hi ht (h.order.hole hi)
  · rw [timerHeapRemove_not_mem (h.placed t) hm]
    exact h

theorem HeapInv.push {p : TimerHeap} (h : HeapInv p) (realloc : Bool) {t : Nat}
    (ht : ¬ p.Mem t) : HeapInv (timerHeapPush realloc p t).2 := by
  cases hp : timerHeapPush realloc p t with
  | mk ok q =>
      cases ok with
      | false =>
          rcases timerHeapPush_cases realloc p t with he | ⟨cap, -, he⟩
          · rw [he] at hp
            cases hp
            exact h
          · rw [he] at hp
            cases hp
      | true =>
          obtain ⟨ha, hroom⟩ := timerHeapPush_added h.indexed ht hp
          refine ⟨?_, ha.indexed, fun u => ha.placed u (h.placed u), hroom⟩
          have := timerHeapPush_ordered h.order hp
          rwa [← ha.count] at this

theorem HeapInv.setDeadline {p : TimerHeap} (h : HeapInv p) {t : Nat} (ht : ¬ p.Mem t) (d : Nat) :
    HeapInv (p.setDeadline t d) where
  order := by
    intro j hj hn
    have hpj : parent j < j := parent_lt hj
    have hn' : j < p.count := hn
    rw [setDeadline_deadlineAt_of_ne p fun he => ht ⟨j, hn', he⟩,
      setDeadline_deadlineAt_of_ne p fun he => ht ⟨parent j, by omega, he⟩]
    exact h.order j hj hn
  indexed := setDeadline_indexed h.indexed t d
  placed := fun u => setDeadline_placed (h.placed u) t d
  room := h.room

theorem HeapInv.insertLocked {p : TimerHeap} (h : HeapInv p) (realloc : Bool) (t d : Nat) :
    HeapInv (pollerTimerInsertLocked realloc p t d) := by
  obtain ⟨q, hq, -, hnm, hcase⟩ := insertLocked_taken (d := d) h.indexed (h.placed t)
  have hinv : HeapInv q := by
    rcases hcase with ⟨hm, rfl⟩ | ⟨hm, -, rfl⟩
    · exact h.setDeadline hm d
    · obtain ⟨i, hi, ht⟩ := hm
      refine .of_removed (setDeadline_indexed h.indexed t d)
        (fun u => setDeadline_placed (h.placed u) t d) h.room hi ht ?_
      rw [← ht]
      exact setDeadline_hole h.indexed hi d h.order
  rw [hq realloc]
  exact hinv.push realloc hnm

/-- The operations of the heap. -/
inductive HeapAct where
  | push (realloc : Bool) (t : Nat)
  | popMin
  | remove (t : Nat)
  | insert (realloc : Bool) (t deadline : Nat)

/-- One operation.  A push asks for a timer that is not in the array. -/
def heapStep (p : TimerHeap) : HeapAct → Option TimerHeap
  | .push realloc t =>
      if (p.timer t).heapIndex = none then some (timerHeapPush realloc p t).2 else none
  | .popMin => some (timerHeapPopMin p).2
  | .remove t => some (timerHeapRemove p t)
  | .insert realloc t deadline => some (pollerTimerInsertLocked realloc p t deadline)

/-- The timer heap as a machine. -/
def heapMachine : Machine TimerHeap HeapAct := ⟨heapStep⟩

/-- After `ztk_poller_timer_init`, with timers of any deadlines outside the array. -/
def TimerHeap.start (deadline : Nat → Nat) (heap : Nat → Nat) : TimerHeap :=
  ⟨fun t => ⟨false, deadline t, none⟩, heap, 0, 0⟩

theorem HeapInv.start (deadline heap : Nat → Nat) : HeapInv (TimerHeap.start deadline heap) where
  order := fun _ _ hn => absurd hn (Nat.not_lt_zero _)
  indexed := fun _ hi => absurd hi (Nat.not_lt_zero _)
  placed := fun _ _ hi => by cases hi
  room := Nat.le_refl _

theorem HeapInv.step {p q : TimerHeap} {a : HeapAct} (h : HeapInv p)
    (hs : heapMachine.step p a = some q) : HeapInv q := by
  cases a with
  | push realloc t =>
      simp only [heapMachine, heapStep] at hs
      split at hs
      · next ht =>
          cases hs
          exact h.push realloc (h.indexed.not_mem ht)
      · cases hs
  | popMin =>
      cases hs
      exact h.popMin
  | remove t =>
      cases hs
      exact h.remove t
  | insert realloc t d =>
      cases hs
      exact h.insertLocked realloc t d

theorem HeapInv.leads {deadline heap : Nat → Nat} {p : TimerHeap}
    (h : heapMachine.Leads Machine.Any (TimerHeap.start deadline heap) p) : HeapInv p :=
  h.invariant (fun _ _ _ hi _ hs => hi.step hs) (HeapInv.start deadline heap)

/-- `timer_heap_pop_min` returns a first timer, and takes exactly that out. -/
theorem HeapInv.popMin_spec {p q : TimerHeap} (h : HeapInv p) {top : Option Nat}
    (hpop : timerHeapPopMin p = (top, q)) :
    (top = none ↔ p.count = 0) ∧
      ∀ t, top = some t → p.Mem t ∧
        (∀ u, p.Mem u → (p.timer t).deadlineMs ≤ (p.timer u).deadlineMs) ∧
        (∀ u, q.Mem u ↔ p.Mem u ∧ u ≠ t) ∧ q.count = p.count - 1 := by
  by_cases h0 : 0 < p.count
  · have hr := timerHeapPopMin_removed h.indexed h0
    rw [timerHeapPopMin_eq h0] at hpop
    obtain ⟨htop, hq⟩ := Prod.mk.inj hpop
    rw [timerHeapPopMin_eq h0] at hr
    simp only [hq] at hr
    subst htop
    refine ⟨⟨fun hn => (by cases hn), fun hc => by omega⟩, ?_⟩
    rintro t ht
    cases ht
    refine ⟨⟨0, h0, rfl⟩, ?_, hr.mem, hr.count⟩
    rintro u ⟨j, hj, rfl⟩
    exact h.order.root_le j hj
  · have hc : p.count = 0 := by omega
    simp only [timerHeapPopMin, hc, if_true] at hpop
    cases hpop
    exact ⟨⟨fun _ => hc, fun _ => rfl⟩, fun t ht => by cases ht⟩

/-- `timer_heap_remove` takes out exactly its timer, if it is there. -/
theorem HeapInv.remove_mem {p : TimerHeap} (h : HeapInv p) (t u : Nat) :
    (timerHeapRemove p t).Mem u ↔ p.Mem u ∧ u ≠ t := by
  by_cases hm : p.Mem t
  · exact (timerHeapRemove_removed h.indexed hm).mem u
  · rw [timerHeapRemove_not_mem (h.placed t) hm]
    exact ⟨fun hu => ⟨hu, fun he => hm (he ▸ hu)⟩, fun hu => hu.1⟩

/-- `timer_heap_push` puts in exactly its timer, or changes nothing. -/
theorem HeapInv.push_spec {p q : TimerHeap} (h : HeapInv p) {realloc ok : Bool} {t : Nat}
    (ht : (p.timer t).heapIndex = none) (hp : timerHeapPush realloc p t = (ok, q)) :
    (ok = true → ∀ u, q.Mem u ↔ p.Mem u ∨ u = t) ∧ (ok = false → q = p) := by
  refine ⟨fun hok => ?_, fun hok => ?_⟩
  · subst hok
    exact (timerHeapPush_added h.indexed (h.indexed.not_mem ht) hp).1.mem
  · subst hok
    rcases timerHeapPush_cases realloc p t with he | ⟨cap, -, he⟩
    · rw [he] at hp
      exact (Prod.mk.inj hp).2.symm
    · rw [he] at hp
      cases hp

/-- A timer that was in the array is there again: it leaves room for itself. -/
theorem HeapInv.insertLocked_mem {p : TimerHeap} (h : HeapInv p) (realloc : Bool) {t : Nat}
    (d : Nat) (hm : p.Mem t) : (pollerTimerInsertLocked realloc p t d).Mem t := by
  obtain ⟨r, hr, hri, hnm, hcase⟩ := insertLocked_taken (d := d) h.indexed (h.placed t)
  rcases hcase with ⟨hn, -⟩ | ⟨-, hrem, -⟩
  · exact absurd hm hn
  · have hroom : r.count + 1 ≤ r.cap := by
      obtain ⟨i, hi', -⟩ := hm
      have hc : r.count = p.count - 1 := hrem.count
      have hcap : r.cap = p.cap := hrem.cap
      have := h.room
      omega
    have hok : (timerHeapPush realloc r t).1 = true := timerHeapPush_of_room hroom
    rw [hr realloc]
    cases hpush : timerHeapPush realloc r t with
    | mk ok s =>
        rw [hpush] at hok
        simp only at hok
        subst hok
        exact ((timerHeapPush_added hri.indexed hnm hpush).1.mem t).mpr (Or.inr rfl)

/-- The array is a heap with correct back-pointers after every sequence of
operations, and each operation moves exactly the timer it is about. -/
theorem timer_heap_invariant (deadline heap : Nat → Nat) (p : TimerHeap)
    (h : heapMachine.Leads Machine.Any (TimerHeap.start deadline heap) p) :
    (∀ j, 0 < j → j < p.count → p.deadlineAt ((j - 1) / 2) ≤ p.deadlineAt j) ∧
    (∀ i < p.count, (p.timer (p.heap i)).heapIndex = some i) ∧
    (∀ t, ¬ p.Mem t → (p.timer t).heapIndex = none) ∧
    (∀ i < p.count, ∀ j < p.count, p.heap i = p.heap j → i = j) ∧
    (∀ q top, timerHeapPopMin p = (top, q) →
      (top = none ↔ p.count = 0) ∧
      ∀ t, top = some t → p.Mem t ∧
        (∀ u, p.Mem u → (p.timer t).deadlineMs ≤ (p.timer u).deadlineMs) ∧
        (∀ u, q.Mem u ↔ p.Mem u ∧ u ≠ t) ∧ q.count = p.count - 1) ∧
    (∀ t u, (timerHeapRemove p t).Mem u ↔ p.Mem u ∧ u ≠ t) ∧
    (∀ realloc t ok q, (p.timer t).heapIndex = none → timerHeapPush realloc p t = (ok, q) →
      (ok = true → ∀ u, q.Mem u ↔ p.Mem u ∨ u = t) ∧ (ok = false → q = p)) ∧
    (∀ realloc t d q, pollerTimerInsertLocked realloc p t d = q →
      (q.timer t).deadlineMs = d ∧ (∀ u, u ≠ t → (q.Mem u ↔ p.Mem u)) ∧ (p.Mem t → q.Mem t)) := by
  have hi := HeapInv.leads h
  refine ⟨hi.order, hi.indexed, fun t ht => (hi.placed t).index_none ht,
    fun i hi' j hj he => hi.indexed.inj hi' hj he, fun q top hpop => hi.popMin_spec hpop,
    hi.remove_mem, fun realloc t ok q ht hp => hi.push_spec ht hp, ?_⟩
  rintro realloc t d q rfl
  have hins := insertLocked_inserted realloc (d := d) hi.indexed (hi.placed t)
  exact ⟨by rw [hins.deadline, if_pos rfl], hins.mem, hi.insertLocked_mem realloc d⟩

/-- Insert three timers, then move one that is in the array to a new deadline. -/
def reinsertion : List HeapAct :=
  [.insert true 1 30, .insert true 2 20, .insert true 3 10, .insert true 3 40]

/-- The heap after these insertions. -/
def reinserted : TimerHeap :=
  reinsertion.foldl (fun p a => (heapStep p a).getD p) (TimerHeap.start (fun _ => 0) (fun _ => 0))

theorem timer_heap_reinsertion :
    heapMachine.run (TimerHeap.start (fun _ => 0) (fun _ => 0)) reinsertion = some reinserted ∧
      (timerHeapPopMin reinserted).1 = some 2 ∧
      ∀ u, reinserted.Mem u → 20 ≤ (reinserted.timer u).deadlineMs := by
  have hpop : (timerHeapPopMin reinserted).1 = some 2 := by decide +kernel
  have hmin : (reinserted.timer 2).deadlineMs = 20 := by decide +kernel
  refine ⟨rfl, hpop, fun u hu => ?_⟩
  have h := timer_heap_invariant (fun _ => 0) (fun _ => 0) reinserted
    (Machine.leads_of_run reinsertion _ _ rfl (Machine.runMeets_any _ _))
  have hle := ((h.2.2.2.2.1 _ _ rfl).2 2 hpop).2.1 u hu
  rwa [hmin] at hle

end Ztk.Poller
