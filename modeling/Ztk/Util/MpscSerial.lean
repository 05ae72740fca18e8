import Ztk.Lib.Serial
import Ztk.Util.MpscFifo

/-!
# The ring queue in one thread

A call of `ztk_mpsc_push` or `ztk_mpsc_pop` that runs alone makes its accesses one after
the other until it returns.  The ring is then a bounded queue: `Bounded` keeps the list of
its items, and `mpscSerial` gives the same answers as long as it is called.

The positions are counted without end here, and `head` and `tail` are what `uint64_t` keeps
of them, so nothing is assumed about where they stand.  The capacity divides `2 ^ 64`, so a
position and what is kept of it have the same cell, and the two numbers of a signed
difference are at most a lap apart.
-/

namespace Ztk.Util

open Ztk.Lib

variable {α : Type}

/-! ## Calls -/

/-- A call with an item to push, or a pop. -/
inductive MpscCall (α : Type) where
  | push (item : α)
  | pop

/-- What the call returns. -/
inductive MpscAnswer (α : Type) where
  | pushed (err : Err)
  | popped (data : Option α)
deriving DecidableEq

/-- `ztk_mpsc_push` from a point on, for some accesses. -/
def mpscPushOn : Nat → MpscQueue α → PushPc α → Option (MpscQueue α × Err)
  | _, q, .done err => some (q, err)
  | 0, _, _ => none
  | n + 1, q, pc => mpscPushOn n (mpscPush q pc).1 (mpscPush q pc).2

/-- `ztk_mpsc_pop` from a point on, for some accesses. -/
def mpscPopOn : Nat → MpscQueue α → PopPc α → Option (MpscQueue α × Option α)
  | _, q, .done data => some (q, data)
  | 0, _, _ => none
  | n + 1, q, pc => mpscPopOn n (mpscPop q pc).1 (mpscPop q pc).2

/-- The ring, with so many accesses to memory for each call. -/
def mpscSerial (α : Type) (fuel : Nat) : Serial (MpscQueue α) (MpscCall α) (MpscAnswer α) where
  call q a :=
    match a with
    | .push item => (mpscPushOn fuel q (.loadTail item)).map fun r => (r.1, .pushed r.2)
    | .pop => (mpscPopOn fuel q .loadHead).map fun r => (r.1, .popped r.2)

/-- A queue, and how many items were ever appended and removed. -/
structure Bounded (α : Type) where
  items : List α
  appended : Nat
  removed : Nat

/-- A new queue. -/
def Bounded.empty : Bounded α := ⟨[], 0, 0⟩

/-- A queue of so many places is called. -/
def Bounded.call (cap : Nat) (b : Bounded α) : MpscCall α → Bounded α × MpscAnswer α
  | .push item =>
      if b.items.length = cap then (b, .pushed .again)
      else ({ b with items := b.items ++ [item], appended := b.appended + 1 }, .pushed .ok)
  | .pop =>
      match b.items with
      | [] => (b, .popped none)
      | x :: xs => ({ b with items := xs, removed := b.removed + 1 }, .popped (some x))

/-- The bounded queue as an object. -/
def boundedSerial (α : Type) (cap : Nat) : Serial (Bounded α) (MpscCall α) (MpscAnswer α) where
  call b a := some (b.call cap a)

/-- A ring as `ztk_mpsc_create` leaves it. -/
def mpscRing (α : Type) (cap : Nat) : MpscQueue α := ⟨fun i => ⟨none, i⟩, cap, cap - 1, 0, 0⟩

/-! ## Positions that wrap -/

theorem wrap_wrap_add (a b : Nat) : wrap (wrap a + b) = wrap (a + b) := Nat.mod_add_mod ..

theorem dif64_self (a : Nat) : dif64 a a = 0 := by
  simp [dif64]

/-- The signed difference of two positions can be read off what is kept of them. -/
theorem dif64_wrap (a b : Nat) : dif64 (wrap a) (wrap b) = dif64 a b := by
  simp only [dif64, wrap, Int.natCast_emod]
  have h := Int.emod_bmod (a % 2 ^ 64 - b % 2 ^ 64 : Int) (2 ^ 64)
  have h' := Int.emod_bmod (a - b : Int) (2 ^ 64)
  push_cast at h h' ⊢
  rw [← h, ← h', ← Int.sub_emod]

/-- The ring holds the items from position `h` up to position `t`. -/
structure RingOf (q : MpscQueue α) (items : List α) (h t : Nat) : Prop where
  geometry : Geometry q
  dvd : q.cap ∣ 2 ^ 64
  head : q.head = wrap h
  tail : q.tail = wrap t
  length : h + items.length = t
  fits : items.length ≤ q.cap
  taken : ∀ (j : Nat) x, items[j]? = some x → q.cell (h + j) = ⟨some x, wrap (h + j + 1)⟩
  free : ∀ p, t ≤ p → p < h + q.cap → (q.cell p).seq = wrap p

theorem mpscRing_ringOf {k : Nat} (hk : 1 ≤ k) (hk' : k ≤ 60) :
    RingOf (mpscRing α (2 ^ k)) [] 0 0 where
  geometry := {
    two := Nat.pow_le_pow_right (Nat.succ_pos 1) hk
    small := Nat.pow_le_pow_right (Nat.succ_pos 1) hk'
    mask := Nat.succ_pred_eq_of_pos (Nat.two_pow_pos k)
    slot := fun pos => Nat.and_two_pow_sub_one_eq_mod pos k }
  dvd := Nat.pow_dvd_pow 2 (by omega)
  head := rfl
  tail := rfl
  length := rfl
  fits := Nat.zero_le _
  taken _ _ h := by cases h
  free p _ hp := by
    have hp : p < 2 ^ k := by simpa [mpscRing] using hp
    have hle : 2 ^ k ≤ 2 ^ 64 := Nat.pow_le_pow_right (Nat.succ_pos 1) (by omega)
    show p &&& (2 ^ k - 1) = wrap p
    rw [Nat.and_two_pow_sub_one_eq_mod, Nat.mod_eq_of_lt hp, wrap_of_lt (by omega)]

/-- What `ztk_mpsc_create` returns for a power of two. -/
theorem mpscCreate_eq_ring {cq cb : Bool} {cap : Nat} {q : MpscQueue α}
    (h : mpscCreate cq cb cap = some q) : q = mpscRing α cap :=
  (mpscCreate_some h).2

/-! ## A call that runs alone -/

/-- The ring after a push that found its cell free. -/
def MpscQueue.pushed (q : MpscQueue α) (item : α) : MpscQueue α :=
  (({ q with tail := wrap (q.tail + 1) } : MpscQueue α).setData q.tail item).setSeq q.tail
    (wrap (q.tail + 1))

/-- The ring after a pop that found an item. -/
def MpscQueue.popped (q : MpscQueue α) : MpscQueue α :=
  { q.setSeq q.head (wrap (q.head + q.mask + 1)) with head := wrap (q.head + 1) }

theorem mpscPushOn_step {q : MpscQueue α} {pc : PushPc α} (n : Nat) (hpc : ∀ err, pc ≠ .done err) :
    mpscPushOn (n + 1) q pc = mpscPushOn n (mpscPush q pc).1 (mpscPush q pc).2 := by
  cases pc with
  | done err => exact absurd rfl (hpc err)
  | idle | loadTail | loadSeq | casTail | storeData | storeSeq => rfl

theorem mpscPopOn_step {q : MpscQueue α} {pc : PopPc α} (n : Nat) (hpc : ∀ data, pc ≠ .done data) :
    mpscPopOn (n + 1) q pc = mpscPopOn n (mpscPop q pc).1 (mpscPop q pc).2 := by
  cases pc with
  | done data => exact absurd rfl (hpc data)
  | idle | loadHead | loadSeq | loadData | storeSeq | storeHead => rfl

theorem mpscPushOn_done (n : Nat) (q : MpscQueue α) (err : Err) :
    mpscPushOn n q (.done err) = some (q, err) := by
  cases n with
  | zero => rfl
  | succ n => rfl

theorem mpscPopOn_done (n : Nat) (q : MpscQueue α) (data : Option α) :
    mpscPopOn n q (.done data) = some (q, data) := by
  cases n with
  | zero => rfl
  | succ n => rfl

/-- The number in the cell decides what a push does. -/
theorem mpscPushOn_alone (q : MpscQueue α) (item : α) (n : Nat) :
    (dif64 (q.cell q.tail).seq q.tail = 0 →
      mpscPushOn (n + 5) q (.loadTail item) = some (q.pushed item, .ok)) ∧
    (dif64 (q.cell q.tail).seq q.tail < 0 →
      mpscPushOn (n + 5) q (.loadTail item) = some (q, .again)) := by
  constructor
  · intro hdif
    have hseq : mpscPush q (.loadSeq item q.tail) = (q, .casTail item q.tail) := if_pos hdif
    have hcas : mpscPush q (.casTail item q.tail) =
        ({ q with tail := wrap (q.tail + 1) }, .storeData item q.tail) := if_pos rfl
    rw [mpscPushOn_step (n + 4) (by simp)]
    show mpscPushOn (n + 4) q (.loadSeq item q.tail) = _
    rw [mpscPushOn_step (n + 3) (by simp), hseq, mpscPushOn_step (n + 2) (by simp), hcas,
      mpscPushOn_step (n + 1) (by simp), mpscPushOn_step n (by simp [mpscPush])]
    exact mpscPushOn_done n _ _
  · intro hdif
    have hseq : mpscPush q (.loadSeq item q.tail) = (q, .done .again) := by
      show (if _ then _ else _) = _
      rw [if_neg (ne_of_lt hdif), if_pos hdif]
    rw [mpscPushOn_step (n + 4) (by simp)]
    show mpscPushOn (n + 4) q (.loadSeq item q.tail) = _
    rw [mpscPushOn_step (n + 3) (by simp), hseq]
    exact mpscPushOn_done (n + 3) _ _

/-- The number in the cell decides what a pop does. -/
theorem mpscPopOn_alone (q : MpscQueue α) (n : Nat) :
    (dif64 (q.cell q.head).seq (wrap (q.head + 1)) = 0 →
      mpscPopOn (n + 5) q .loadHead = some (q.popped, (q.cell q.head).data)) ∧
    (dif64 (q.cell q.head).seq (wrap (q.head + 1)) ≠ 0 →
      mpscPopOn (n + 5) q .loadHead = some (q, none)) := by
  constructor
  · intro hdif
    have hseq : mpscPop q (.loadSeq q.head) = (q, .loadData q.head) := if_neg (not_not.mpr hdif)
    rw [mpscPopOn_step (n + 4) (by simp)]
    show mpscPopOn (n + 4) q (.loadSeq q.head) = _
    rw [mpscPopOn_step (n + 3) (by simp), hseq, mpscPopOn_step (n + 2) (by simp),
      mpscPopOn_step (n + 1) (by simp [mpscPop]), mpscPopOn_step n (by simp [mpscPop])]
    exact mpscPopOn_done n _ _
  · intro hdif
    have hseq : mpscPop q (.loadSeq q.head) = (q, .done none) := if_pos hdif
    rw [mpscPopOn_step (n + 4) (by simp)]
    show mpscPopOn (n + 4) q (.loadSeq q.head) = _
    rw [mpscPopOn_step (n + 3) (by simp), hseq]
    exact mpscPopOn_done (n + 3) _ _

variable {q : MpscQueue α}

theorem pushed_cell_self (q : MpscQueue α) (item : α) :
    (q.pushed item).cell q.tail = ⟨some item, wrap (q.tail + 1)⟩ := by
  rw [MpscQueue.pushed, Geometry.setSeq_self, Geometry.setData_self]

theorem Geometry.pushed_cell_of_ne (g : Geometry q) (item : α) {p : Nat}
    (h : p % q.cap ≠ q.tail % q.cap) : (q.pushed item).cell p = q.cell p := by
  have g' : Geometry ({ q with tail := wrap (q.tail + 1) } : MpscQueue α) :=
    ⟨g.two, g.small, g.mask, g.slot⟩
  rw [MpscQueue.pushed, (g'.setData q.tail item).setSeq_of_ne h, g'.setData_of_ne h]
  rfl

theorem popped_cell_self (q : MpscQueue α) :
    (q.popped.cell q.head).seq = wrap (q.head + q.mask + 1) := by
  show ((q.setSeq q.head _).cell q.head).seq = _
  rw [Geometry.setSeq_self]

theorem Geometry.popped_cell_of_ne (g : Geometry q) {p : Nat}
    (h : p % q.cap ≠ q.head % q.cap) : q.popped.cell p = q.cell p :=
  g.setSeq_of_ne h

namespace RingOf

variable {items : List α} {h t : Nat}

theorem tail_slot (r : RingOf q items h t) : q.tail % q.cap = t % q.cap := by
  rw [r.tail]
  exact Nat.mod_mod_of_dvd t r.dvd

theorem head_slot (r : RingOf q items h t) : q.head % q.cap = h % q.cap := by
  rw [r.head]
  exact Nat.mod_mod_of_dvd h r.dvd

theorem tail_cell (r : RingOf q items h t) : q.cell q.tail = q.cell t :=
  r.geometry.cell_congr _ _ r.tail_slot

theorem head_cell (r : RingOf q items h t) : q.cell q.head = q.cell h :=
  r.geometry.cell_congr _ _ r.head_slot

/-- A push finds its own number unless the ring is full. -/
theorem tail_free (r : RingOf q items h t) (hroom : items.length < q.cap) :
    dif64 (q.cell q.tail).seq q.tail = 0 := by
  have hlen := r.length
  rw [r.tail_cell, r.free t (Nat.le_refl t) (by omega), r.tail, dif64_wrap, dif64_self]

/-- In a full ring a push finds the number of the oldest item. -/
theorem tail_full (r : RingOf q items h t) (hfull : items.length = q.cap) :
    dif64 (q.cell q.tail).seq q.tail < 0 := by
  have hlen := r.length
  have htwo := r.geometry.two
  have hsmall := r.geometry.small
  obtain ⟨x, hx⟩ : ∃ x, items[0]? = some x := ⟨_, List.getElem?_eq_getElem (by omega)⟩
  have hcell : q.cell t = ⟨some x, wrap (h + 1)⟩ := by
    rw [← r.taken 0 x hx]
    refine r.geometry.cell_congr _ _ ?_
    rw [← hlen, hfull, Nat.add_mod_right, Nat.add_zero]
  rw [r.tail_cell, hcell, r.tail, dif64_wrap]
  exact (dif64_neg (by omega) (by omega)).mpr (by omega)

/-- A pop finds the next number when there is an item. -/
theorem head_taken {x : α} {xs : List α} (r : RingOf q (x :: xs) h t) :
    q.cell q.head = ⟨some x, wrap (h + 1)⟩ := by
  rw [r.head_cell]
  exact r.taken 0 x rfl

theorem head_ready {x : α} {xs : List α} (r : RingOf q (x :: xs) h t) :
    dif64 (q.cell q.head).seq (wrap (q.head + 1)) = 0 := by
  rw [r.head_taken, r.head, wrap_wrap_add, dif64_wrap, dif64_self]

/-- In an empty ring a pop finds the position's own number. -/
theorem head_empty (r : RingOf q [] h t) :
    dif64 (q.cell q.head).seq (wrap (q.head + 1)) ≠ 0 := by
  have hlen : h = t := r.length
  have htwo := r.geometry.two
  rw [r.head_cell, r.free h (Nat.le_of_eq hlen.symm) (by omega), r.head, wrap_wrap_add, dif64_wrap]
  exact ne_of_lt ((dif64_neg (by omega) (by omega)).mpr (Nat.lt_succ_self h))

theorem pushed (r : RingOf q items h t) (hroom : items.length < q.cap) (item : α) :
    RingOf (q.pushed item) (items ++ [item]) h (t + 1) where
  geometry := ⟨r.geometry.two, r.geometry.small, r.geometry.mask, r.geometry.slot⟩
  dvd := r.dvd
  head := r.head
  tail := by
    show wrap (q.tail + 1) = _
    rw [r.tail, wrap_wrap_add]
  length := by
    rw [List.length_append, List.length_singleton, ← Nat.add_assoc, r.length]
  fits := by
    rw [List.length_append, List.length_singleton]
    exact hroom
  taken j x hx := by
    have hlen := r.length
    rcases Nat.lt_or_ge j items.length with hj | hj
    · rw [List.getElem?_append_left hj] at hx
      rw [r.geometry.pushed_cell_of_ne]
      · exact r.taken j x hx
      · intro he
        rw [r.tail_slot] at he
        have := pos_eq_of_slot (r := h) he (by omega) (by omega) (by omega) (by omega)
        omega
    · have hj' : j = items.length := by
        have := (List.getElem?_eq_some_iff.mp hx).1
        rw [List.length_append, List.length_singleton] at this
        omega
      subst hj'
      rw [List.getElem?_concat_length] at hx
      cases hx
      have hg : Geometry (q.pushed item) :=
        ⟨r.geometry.two, r.geometry.small, r.geometry.mask, r.geometry.slot⟩
      rw [hlen, hg.cell_congr t q.tail r.tail_slot.symm, pushed_cell_self, r.tail, wrap_wrap_add]
  free p hp hp' := by
    have hp' : p < h + q.cap := hp'
    have hlen := r.length
    rw [r.geometry.pushed_cell_of_ne]
    · exact r.free p (by omega) hp'
    · intro he
      rw [r.tail_slot] at he
      have := pos_eq_of_slot (r := h) he (by omega) (by omega) (by omega) (by omega)
      omega

theorem popped {x : α} {xs : List α} (r : RingOf q (x :: xs) h t) :
    RingOf q.popped xs (h + 1) t where
  geometry := ⟨r.geometry.two, r.geometry.small, r.geometry.mask, r.geometry.slot⟩
  dvd := r.dvd
  head := by
    show wrap (q.head + 1) = _
    rw [r.head, wrap_wrap_add]
  tail := r.tail
  length := by
    rw [← r.length, List.length_cons]
    omega
  fits := Nat.le_of_succ_le r.fits
  taken j y hy := by
    have hlen : h + (xs.length + 1) = t := r.length
    have hfits : xs.length + 1 ≤ q.cap := r.fits
    have hj : j < xs.length := (List.getElem?_eq_some_iff.mp hy).1
    rw [r.geometry.popped_cell_of_ne, Nat.add_assoc, Nat.add_comm 1 j]
    · exact r.taken (j + 1) y hy
    · intro he
      rw [r.head_slot] at he
      have := pos_eq_of_slot (r := h) he (by omega) (by omega) (by omega) (by omega)
      omega
  free p hp hp' := by
    have hlen : h + (xs.length + 1) = t := r.length
    have hp' : p < h + 1 + q.cap := hp'
    have hg : Geometry q.popped :=
      ⟨r.geometry.two, r.geometry.small, r.geometry.mask, r.geometry.slot⟩
    rcases Nat.lt_or_ge p (h + q.cap) with hlt | hge
    · rw [r.geometry.popped_cell_of_ne]
      · exact r.free p hp hlt
      · intro he
        rw [r.head_slot] at he
        have := pos_eq_of_slot (r := h) he (by omega) (by omega) (by omega) (by omega)
        omega
    -- the cell given back is the one a lap ahead
    · have hpe : p = h + q.cap := by omega
      have hslot : p % q.cap = q.head % q.cap := by
        rw [hpe, Nat.add_mod_right, r.head_slot]
      rw [hg.cell_congr p q.head hslot, popped_cell_self, r.head, Nat.add_assoc, r.geometry.mask,
        wrap_wrap_add, hpe]

end RingOf

/-! ## The ring is a bounded queue -/

/-- The ring has so many places and holds the items of the queue, where the counts of the
queue say. -/
def Holds (cap : Nat) (q : MpscQueue α) (b : Bounded α) : Prop :=
  q.cap = cap ∧ RingOf q b.items b.removed b.appended

/-- A call that runs alone gives the answer of the bounded queue. -/
theorem mpscSerial_simulates {fuel : Nat} (hf : 5 ≤ fuel) (cap : Nat) :
    (mpscSerial α fuel).Simulates (boundedSerial α cap) (Holds cap) := by
  obtain ⟨n, rfl⟩ := Nat.exists_eq_add_of_le' hf
  rintro q ⟨items, t, h⟩ a b' o ⟨rfl, r⟩ ha
  cases a with
  | push item =>
      simp only [boundedSerial, Bounded.call] at ha
      split at ha
      · next hfull =>
          cases ha
          refine ⟨q, ?_, rfl, r⟩
          simp only [mpscSerial, (mpscPushOn_alone q item n).2 (r.tail_full hfull), Option.map_some]
      · next hroom =>
          cases ha
          have hroom : items.length < q.cap := Nat.lt_of_le_of_ne r.fits hroom
          refine ⟨q.pushed item, ?_, rfl, r.pushed hroom item⟩
          simp only [mpscSerial, (mpscPushOn_alone q item n).1 (r.tail_free hroom), Option.map_some]
  | pop =>
      cases items with
      | nil =>
          cases ha
          refine ⟨q, ?_, rfl, r⟩
          simp only [mpscSerial, (mpscPopOn_alone q n).2 r.head_empty, Option.map_some]
      | cons x xs =>
          cases ha
          refine ⟨q.popped, ?_, rfl, r.popped⟩
          simp only [mpscSerial, (mpscPopOn_alone q n).1 r.head_ready, Option.map_some,
            r.head_taken]

/-- A bounded queue always answers. -/
theorem boundedSerial_run (cap : Nat) (calls : List (MpscCall α)) (b : Bounded α) :
    ∃ b' tr, (boundedSerial α cap).run b calls = some (b', tr) := by
  induction calls generalizing b with
  | nil => exact ⟨b, [], rfl⟩
  | cons a as ih =>
      obtain ⟨b', tr, h⟩ := ih (b.call cap a).1
      exact ⟨b', _, Serial.run_cons.mpr ⟨_, _, tr, rfl, h, rfl⟩⟩

/-- A ring of `2 ^ k` places in one thread: wherever any calls have taken `head` and `tail`,
the calls from there on are answered as by a bounded queue.  The record of the calls before
and after is that of the queue, which starts empty. -/
theorem mpsc_serial_fifo {k fuel : Nat} (hk : 1 ≤ k) (hk' : k ≤ 60) (hf : 5 ≤ fuel)
    (before calls : List (MpscCall α)) :
    (∀ cq cb q, mpscCreate cq cb (2 ^ k) = some q → q = mpscRing α (2 ^ k)) ∧
    ∃ (b b' : Bounded α) (q q' : MpscQueue α) (tr tr' : List (MpscCall α × MpscAnswer α)),
      (boundedSerial α (2 ^ k)).run .empty before = some (b, tr) ∧
      (boundedSerial α (2 ^ k)).run b calls = some (b', tr') ∧
      (mpscSerial α fuel).run (mpscRing α (2 ^ k)) before = some (q, tr) ∧
      q.head = wrap b.removed ∧ q.tail = wrap b.appended ∧
      (mpscSerial α fuel).run q calls = some (q', tr') := by
  obtain ⟨b, tr, hb⟩ := boundedSerial_run (2 ^ k) before (.empty : Bounded α)
  obtain ⟨b', tr', hb'⟩ := boundedSerial_run (2 ^ k) calls b
  have hsim : (mpscSerial α fuel).Simulates (boundedSerial α (2 ^ k)) (Holds (2 ^ k)) :=
    mpscSerial_simulates hf (2 ^ k)
  obtain ⟨q, hq, hhold⟩ :=
    hsim.run (show Holds (2 ^ k) _ .empty from ⟨rfl, mpscRing_ringOf hk hk'⟩) hb
  obtain ⟨q', hq', -⟩ := hsim.run hhold hb'
  exact ⟨fun cq cb q hq => mpscCreate_eq_ring hq, b, b', q, q', tr, tr', hb, hb', hq,
    hhold.2.head, hhold.2.tail, hq'⟩

/-- An item is pushed and popped, so many times. -/
def laps (item : α) : Nat → List (MpscCall α)
  | 0 => []
  | n + 1 => .push item :: .pop :: laps item n

/-- Any position can be where `head` and `tail` stand. -/
theorem boundedSerial_laps {cap : Nat} (hcap : 0 < cap) (item : α) (n t h : Nat) :
    ∃ tr, (boundedSerial α cap).run ⟨[], t, h⟩ (laps item n) = some (⟨[], t + n, h + n⟩, tr) := by
  induction n generalizing t h with
  | zero => exact ⟨[], rfl⟩
  | succ n ih =>
      obtain ⟨tr, htr⟩ := ih (t + 1) (h + 1)
      have hpush : (boundedSerial α cap).call ⟨[], t, h⟩ (.push item) =
          some (⟨[item], t + 1, h⟩, .pushed .ok) := by
        simp [boundedSerial, Bounded.call, Nat.ne_of_lt hcap]
      have hpop : (boundedSerial α cap).call ⟨[item], t + 1, h⟩ .pop =
          some (⟨[], t + 1, h + 1⟩, .popped (some item)) := rfl
      rw [← Nat.add_assoc, ← Nat.add_assoc, Nat.add_right_comm t, Nat.add_right_comm h]
      exact ⟨_, Serial.run_cons.mpr ⟨_, _, _, hpush,
        Serial.run_cons.mpr ⟨_, _, _, hpop, htr, rfl⟩, rfl⟩⟩

/-- Two places, with `head` and `tail` at the last position before they wrap. -/
theorem mpsc_serial_wraps :
    ∃ (q q' : MpscQueue Nat) (tr tr' : List (MpscCall Nat × MpscAnswer Nat)),
      (mpscSerial Nat 5).run (mpscRing Nat 2) (laps 7 (2 ^ 64 - 1)) = some (q, tr) ∧
      q.head = 2 ^ 64 - 1 ∧ q.tail = 2 ^ 64 - 1 ∧
      (mpscSerial Nat 5).run q [.push 1, .push 2, .push 3, .pop, .pop, .pop] = some (q', tr') ∧
      tr'.map Prod.snd = [.pushed .ok, .pushed .ok, .pushed .again, .popped (some 1),
        .popped (some 2), .popped none] := by
  obtain ⟨tr₀, h₀⟩ := boundedSerial_laps (Nat.succ_pos 1) 7 (2 ^ 64 - 1) 0 0
  obtain ⟨-, b, b', q, q', tr, tr', hb, hb', hq, hhead, htail, hq'⟩ :=
    mpsc_serial_fifo (k := 1) (by decide) (by decide) (Nat.le_refl 5)
      (laps 7 (2 ^ 64 - 1)) [.push 1, .push 2, .push 3, .pop, .pop, .pop]
  have hbe : b = ⟨[], 2 ^ 64 - 1, 2 ^ 64 - 1⟩ := by
    have he := h₀.symm.trans hb
    rw [Nat.zero_add, Option.some.injEq, Prod.mk.injEq] at he
    exact he.1.symm
  subst hbe
  have htr : tr'.map Prod.snd = _ := congrArg (fun r => r.2.map Prod.snd) (Option.some.inj hb').symm
  exact ⟨q, q', tr, tr', hq, hhead, htail, hq', htr⟩

end Ztk.Util
