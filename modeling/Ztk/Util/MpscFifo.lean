import Mathlib
import Ztk.Util.Mpsc

/-!
# The ring queue is first in, first out

The abstract queue is the list of claims in the order of their positions and the
number of cells given back.  `RingInv` relates it to the ring.  Of the `cap`
positions from `released` on, a position that is not claimed has its own number
in its cell (`free`), and a claimed one is still held by its producer or
published with its item (`taken`).  Two positions of this window never share a
cell, so a thread that writes the cell of a position disturbs no other position.

The sequence numbers stay below `2 ^ 64` as long as there are fewer than `2 ^ 63`
claims, so `RingInv` is about plain numbers.  The sign of `dif` is right as long
as the claims and the capacity together do not pass `2 ^ 63`; beyond that a
producer that has slept through almost all of them takes a free cell for one of
the previous lap.
-/

namespace Ztk.Util

open Ztk.Lib

variable {α : Type}

/-! ## Cells and positions -/

/-- The capacity is a power of two, and the mask selects a cell. -/
structure Geometry (q : MpscQueue α) : Prop where
  two : 2 ≤ q.cap
  small : q.cap ≤ 2 ^ 60
  mask : q.mask + 1 = q.cap
  slot : ∀ pos, pos &&& q.mask = pos % q.cap

theorem isPow2_slot {n : Nat} (h : isPow2 n = true) : 2 ≤ n ∧ ∀ pos, pos &&& (n - 1) = pos % n := by
  simp only [isPow2, Bool.and_eq_true, decide_eq_true_eq, beq_iff_eq] at h
  obtain ⟨h2, hand⟩ := h
  obtain ⟨k, rfl⟩ := (Nat.and_sub_one_eq_zero_iff_isPowerOfTwo (by omega)).mp hand
  exact ⟨h2, fun pos => Nat.and_two_pow_sub_one_eq_mod pos k⟩

/-- What `ztk_mpsc_create` returns. -/
theorem mpscCreate_some {cq cb : Bool} {cap : Nat} {q : MpscQueue α}
    (h : mpscCreate cq cb cap = some q) :
    Geometry q ∧ q = ⟨fun i => ⟨none, i⟩, cap, cap - 1, 0, 0⟩ := by
  simp only [mpscCreate] at h
  split at h
  · cases h
  · next hp =>
      split at h
      · cases h
      · split at h
        · cases h
        · next hc =>
            cases h
            obtain ⟨h2, hslot⟩ := isPow2_slot (by simpa using hp)
            simp only [Bool.or_eq_true, Bool.not_eq_true', decide_eq_true_eq, not_or] at hc
            exact ⟨⟨h2, by show cap ≤ _; omega, by show cap - 1 + 1 = cap; omega, hslot⟩, rfl⟩

/-- Two positions within a lap of each other have different cells. -/
theorem pos_eq_of_slot {cap r p p' : Nat} (h : p % cap = p' % cap) (hp : r ≤ p)
    (hpc : p < r + cap) (hp' : r ≤ p') (hpc' : p' < r + cap) : p = p' := by
  refine Nat.ModEq.eq_of_abs_lt (m := cap) h ?_
  rw [abs_lt]
  omega

/-- Every cell belongs to a position of the lap that begins at `r`. -/
theorem exists_pos_of_slot {cap : Nat} (h : 0 < cap) (r pos : Nat) :
    ∃ w, r ≤ w ∧ w < r + cap ∧ w % cap = pos % cap := by
  induction r with
  | zero => exact ⟨pos % cap, Nat.zero_le _, by simpa using Nat.mod_lt pos h, Nat.mod_mod _ _⟩
  | succ r ih =>
      obtain ⟨w, hr, hc, hw⟩ := ih
      by_cases he : w = r
      · subst he
        exact ⟨w + cap, by omega, by omega, by rw [Nat.add_mod_right, hw]⟩
      · exact ⟨w, by omega, by omega, hw⟩

namespace Geometry

variable {q : MpscQueue α}

theorem cell_congr (g : Geometry q) (p p' : Nat) (h : p % q.cap = p' % q.cap) :
    q.cell p = q.cell p' := by
  rw [MpscQueue.cell, MpscQueue.cell, g.slot, g.slot, h]

@[simp] theorem setSeq_self (q : MpscQueue α) (pos v : Nat) :
    (q.setSeq pos v).cell pos = ⟨(q.cell pos).data, v⟩ := by
  simp [MpscQueue.cell, MpscQueue.setSeq]

@[simp] theorem setData_self (q : MpscQueue α) (pos : Nat) (item : α) :
    (q.setData pos item).cell pos = ⟨some item, (q.cell pos).seq⟩ := by
  simp [MpscQueue.cell, MpscQueue.setData]

theorem setSeq_of_ne (g : Geometry q) {pos p v : Nat} (h : p % q.cap ≠ pos % q.cap) :
    (q.setSeq pos v).cell p = q.cell p := by
  have h' : p &&& q.mask ≠ pos &&& q.mask := by rwa [g.slot, g.slot]
  simp [MpscQueue.cell, MpscQueue.setSeq, h']

theorem setData_of_ne (g : Geometry q) {pos p : Nat} {item : α} (h : p % q.cap ≠ pos % q.cap) :
    (q.setData pos item).cell p = q.cell p := by
  have h' : p &&& q.mask ≠ pos &&& q.mask := by rwa [g.slot, g.slot]
  simp [MpscQueue.cell, MpscQueue.setData, h']

theorem setSeq (g : Geometry q) (pos v : Nat) : Geometry (q.setSeq pos v) :=
  ⟨g.two, g.small, g.mask, g.slot⟩

theorem setData (g : Geometry q) (pos : Nat) (item : α) : Geometry (q.setData pos item) :=
  ⟨g.two, g.small, g.mask, g.slot⟩

end Geometry

theorem wrap_of_lt {n : Nat} (h : n < 2 ^ 64) : wrap n = n := Nat.mod_eq_of_lt h

/-- The two's complement difference vanishes for equal numbers only. -/
theorem dif64_eq_zero {a b : Nat} (ha : a < 2 ^ 64) (hb : b < 2 ^ 64) :
    dif64 a b = 0 ↔ a = b := by
  simp only [dif64]
  constructor
  · intro h
    have hd := Int.dvd_of_bmod_eq_zero h
    obtain ⟨k, hk⟩ := hd
    omega
  · rintro rfl
    simp

/-- Where the numbers are less than `2 ^ 63` apart, the sign is right. -/
theorem dif64_neg {a b : Nat} (h : a < b + 2 ^ 63) (h' : b ≤ a + 2 ^ 63) :
    dif64 a b < 0 ↔ a < b := by
  simp only [dif64]
  rw [Int.bmod_eq_of_le (by omega) (by omega)]
  omega

/-! ## The invariant -/

/-- A producer has won the position and not yet published it. -/
def Held (s : MpscState α) (p : Nat) : Prop :=
  ∃ i item, s.prod i = .storeData item p ∨ s.prod i = .storeSeq item p

/-- The cell of the position holds the item of its claim. -/
def Published (s : MpscState α) (p : Nat) : Prop :=
  ∃ x, s.claimed[p]? = some x ∧ s.q.cell p = ⟨some x.2, p + 1⟩

/-- What a producer may rely on. -/
def ProducerAt (s : MpscState α) (i : Nat) : PushPc α → Prop
  | .loadSeq _ pos => pos ≤ s.claimed.length
  | .casTail _ pos => pos ≤ s.claimed.length ∧ pos < s.released + s.q.cap
  | .storeData item pos =>
      s.released ≤ pos ∧ s.claimed[pos]? = some (i, item) ∧ (s.q.cell pos).seq = pos
  | .storeSeq item pos =>
      s.released ≤ pos ∧ s.claimed[pos]? = some (i, item) ∧ s.q.cell pos = ⟨some item, pos⟩
  | _ => True

/-- What the consumer may rely on. -/
def ConsumerAt (s : MpscState α) : PopPc α → Prop
  | .loadSeq pos => pos = s.released
  | .loadData pos => pos = s.released ∧ Published s pos
  | .storeSeq pos data =>
      pos = s.released ∧ Published s pos ∧ ∃ x, s.claimed[pos]? = some x ∧ data = some x.2
  | .storeHead pos data =>
      s.released = pos + 1 ∧ ∃ x, s.claimed[pos]? = some x ∧ data = some x.2
  | _ => True

/-- The number of pops whose result is decided and that have moved `head`. -/
def MpscState.popped (s : MpscState α) : Nat :=
  match s.cons with
  | .storeHead pos _ => pos
  | _ => s.released

/-- The ring represents the claims that are not given back. -/
structure RingInv (s : MpscState α) : Prop where
  geometry : Geometry s.q
  tail : s.q.tail = s.claimed.length
  released_le : s.released ≤ s.claimed.length
  claimed_le : s.claimed.length ≤ s.released + s.q.cap
  free : ∀ p, s.claimed.length ≤ p → p < s.released + s.q.cap → (s.q.cell p).seq = p
  taken : ∀ p, s.released ≤ p → p < s.claimed.length → Held s p ∨ Published s p
  producers : ∀ i, ProducerAt s i (s.prod i)
  consumer : ConsumerAt s s.cons
  head : s.q.head = s.popped
  values : s.values = (s.claimed.map Prod.snd).take s.popped

theorem RingInv.start {cq cb : Bool} {cap : Nat} {q : MpscQueue α}
    (h : mpscCreate cq cb cap = some q) : RingInv (.start q) := by
  obtain ⟨g, rfl⟩ := mpscCreate_some h
  exact
    { geometry := g
      tail := rfl
      released_le := Nat.le_refl _
      claimed_le := Nat.zero_le _
      free := fun p _ hp => by
        have hp : p < cap := by simpa [MpscState.start] using hp
        show (p &&& (cap - 1)) = p
        rw [show p &&& (cap - 1) = p % cap from g.slot p]
        exact Nat.mod_eq_of_lt hp
      taken := fun p _ hp => absurd hp (Nat.not_lt_zero p)
      producers := fun _ => trivial
      consumer := trivial
      head := rfl
      values := rfl }

namespace RingInv

variable {s : MpscState α}

/-- The producer of a held position, and its cell. -/
theorem held_cell (h : RingInv s) {p : Nat} (hp : Held s p) :
    s.released ≤ p ∧ p < s.claimed.length ∧ (s.q.cell p).seq = p := by
  obtain ⟨i, item, hi | hi⟩ := hp
  · have hat := h.producers i
    rw [hi] at hat
    exact ⟨hat.1, (List.getElem?_eq_some_iff.mp hat.2.1).1, hat.2.2⟩
  · have hat := h.producers i
    rw [hi] at hat
    exact ⟨hat.1, (List.getElem?_eq_some_iff.mp hat.2.1).1, by rw [hat.2.2]⟩

theorem published_lt {p : Nat} (hp : Published s p) : p < s.claimed.length := by
  obtain ⟨x, hx, -⟩ := hp
  exact (List.getElem?_eq_some_iff.mp hx).1

/-- A position is never both held and published. -/
theorem not_held (h : RingInv s) {p : Nat} (hp : Published s p) : ¬ Held s p := by
  intro hh
  obtain ⟨x, -, hc⟩ := hp
  have := (h.held_cell hh).2.2
  rw [hc] at this
  exact absurd this (Nat.succ_ne_self p)

/-- A producer holds one position at most, and a position has one producer. -/
theorem holder_unique (h : RingInv s) {i j p : Nat} {x y : α}
    (hi : s.prod i = .storeData x p ∨ s.prod i = .storeSeq x p)
    (hj : s.prod j = .storeData y p ∨ s.prod j = .storeSeq y p) : i = j := by
  have claim : ∀ {k : Nat} {z : α}, s.prod k = .storeData z p ∨ s.prod k = .storeSeq z p →
      s.claimed[p]? = some (k, z) := by
    rintro k z (hk | hk)
    · have hat := h.producers k
      rw [hk] at hat
      exact hat.2.1
    · have hat := h.producers k
      rw [hk] at hat
      exact hat.2.1
  have he := (claim hi).symm.trans (claim hj)
  exact congrArg Prod.fst (Option.some.inj he)

/-- The sequence number in the cell of a position of the window. -/
theorem seq_window (h : RingInv s) {p : Nat} (hr : s.released ≤ p)
    (hc : p < s.released + s.q.cap) :
    (s.q.cell p).seq = p ∨ ((s.q.cell p).seq = p + 1 ∧ p < s.claimed.length) := by
  by_cases hp : p < s.claimed.length
  · rcases h.taken p hr hp with hh | ⟨x, -, hx⟩
    · exact Or.inl (h.held_cell hh).2.2
    · exact Or.inr ⟨by rw [hx], hp⟩
  · exact Or.inl (h.free p (by omega) hc)

/-- The sequence number that a producer finds: at a position of the window its
own or the next number, behind the window a larger one, and one lap ahead of the
window that of the previous lap. -/
theorem seq_cases (h : RingInv s) {pos : Nat} (hp : pos ≤ s.claimed.length) :
    (s.released ≤ pos ∧ pos < s.released + s.q.cap ∧
      ((s.q.cell pos).seq = pos ∨ (s.q.cell pos).seq = pos + 1)) ∨
    (pos < s.released ∧ pos < (s.q.cell pos).seq ∧
      (s.q.cell pos).seq ≤ s.claimed.length + s.q.cap - 1) ∨
    (pos = s.released + s.q.cap ∧ s.claimed.length = pos ∧
      (s.q.cell pos).seq + s.q.cap ≤ pos + 1) := by
  have h2 := h.geometry.two
  have hle := h.released_le
  have hcl := h.claimed_le
  by_cases hr : s.released ≤ pos
  · by_cases hc : pos < s.released + s.q.cap
    · refine Or.inl ⟨hr, hc, ?_⟩
      rcases h.seq_window hr hc with hs | hs
      · exact Or.inl hs
      · exact Or.inr hs.1
    · have he : pos = s.released + s.q.cap := by omega
      refine Or.inr (Or.inr ⟨he, by omega, ?_⟩)
      have hcell : s.q.cell pos = s.q.cell s.released := by
        refine h.geometry.cell_congr _ _ ?_
        rw [he, Nat.add_mod_right]
      rw [hcell]
      rcases h.seq_window (Nat.le_refl _) (by omega) with hs | hs
      · omega
      · omega
  · refine Or.inr (Or.inl ⟨by omega, ?_⟩)
    obtain ⟨w, hw, hwc, hmod⟩ := exists_pos_of_slot (show 0 < s.q.cap by omega) s.released pos
    rw [← h.geometry.cell_congr _ _ hmod]
    rcases h.seq_window hw hwc with hs | hs
    · omega
    · omega

/-- A producer that finds its own number may claim the position. -/
theorem own_seq (h : RingInv s) {pos : Nat} (hp : pos ≤ s.claimed.length)
    (hs : (s.q.cell pos).seq = pos) : pos < s.released + s.q.cap := by
  have h2 := h.geometry.two
  rcases h.seq_cases hp with ⟨-, hc, -⟩ | ⟨-, hlt, -⟩ | ⟨-, -, hle⟩
  · exact hc
  · omega
  · omega

/-- A sequence number fits in 64 bits. -/
theorem seq_lt (h : RingInv s) (hT : s.claimed.length < 2 ^ 63) {pos : Nat}
    (hp : pos ≤ s.claimed.length) : (s.q.cell pos).seq < 2 ^ 64 := by
  have hsm := h.geometry.small
  rcases h.seq_cases hp with ⟨-, -, hs⟩ | ⟨-, -, hle⟩ | ⟨-, -, hle⟩
  · omega
  · omega
  · omega

/-! ## The producers -/

/-- The program point of one producer changes, and it holds no position. -/
theorem setPc (h : RingInv s) {i : Nat} {pc : PushPc α} (hi : ProducerAt s i pc)
    (hfree : ∀ item p, s.prod i ≠ .storeData item p ∧ s.prod i ≠ .storeSeq item p) :
    RingInv { s with prod := Function.update s.prod i pc } :=
  { h with
    taken := fun p hr hp => by
      rcases h.taken p hr hp with ⟨j, item, hj⟩ | hpub
      · refine Or.inl ⟨j, item, ?_⟩
        have hji : j ≠ i := by
          rintro rfl
          rcases hj with hj | hj
          · exact (hfree item p).1 hj
          · exact (hfree item p).2 hj
        show Function.update s.prod i pc j = _ ∨ Function.update s.prod i pc j = _
        rwa [Function.update_of_ne hji]
      · exact Or.inr hpub
    producers := fun j => by
      show ProducerAt s j (Function.update s.prod i pc j)
      by_cases hji : j = i
      · subst hji
        rwa [Function.update_self]
      · rw [Function.update_of_ne hji]
        exact h.producers j }

end RingInv

/-- What a producer relies on stays true when claims are added, the window moves
on, and the cell of a held position is left alone. -/
theorem ProducerAt.frame {s t : MpscState α} {j : Nat} {pc : PushPc α} (h : ProducerAt s j pc)
    (hT : s.claimed.length ≤ t.claimed.length)
    (hc : s.released + s.q.cap ≤ t.released + t.q.cap)
    (hcl : ∀ (p : Nat) x, s.claimed[p]? = some x → t.claimed[p]? = some x)
    (hk : ∀ item p, (pc = .storeData item p ∨ pc = .storeSeq item p) → s.released ≤ p →
      (s.q.cell p).seq = p → t.released ≤ p ∧ t.q.cell p = s.q.cell p) :
    ProducerAt t j pc := by
  cases pc with
  | idle => trivial
  | loadTail _ => trivial
  | done _ => trivial
  | loadSeq _ p => exact Nat.le_trans h hT
  | casTail _ p => exact ⟨Nat.le_trans h.1 hT, Nat.lt_of_lt_of_le h.2 hc⟩
  | storeData item p =>
      obtain ⟨hr, hx, hs⟩ := h
      obtain ⟨hr', hcell⟩ := hk item p (Or.inl rfl) hr hs
      exact ⟨hr', hcl p _ hx, by rw [hcell, hs]⟩
  | storeSeq item p =>
      obtain ⟨hr, hx, hs⟩ := h
      obtain ⟨hr', hcell⟩ := hk item p (Or.inr rfl) hr (by rw [hs])
      exact ⟨hr', hcl p _ hx, by rw [hcell, hs]⟩

/-- What the consumer relies on stays true when claims are added and published
cells are left alone. -/
theorem ConsumerAt.frame {s t : MpscState α} {pc : PopPc α} (h : ConsumerAt s pc)
    (hr : t.released = s.released)
    (hcl : ∀ (p : Nat) x, s.claimed[p]? = some x → t.claimed[p]? = some x)
    (hpub : Published s s.released → t.q.cell s.released = s.q.cell s.released) :
    ConsumerAt t pc := by
  have hp : ∀ p, p = s.released → Published s p → Published t p := by
    rintro p rfl ⟨x, hx, hc⟩
    exact ⟨x, hcl _ x hx, (hpub ⟨x, hx, hc⟩).trans hc⟩
  cases pc with
  | idle => trivial
  | loadHead => trivial
  | done _ => trivial
  | loadSeq p => exact h.trans hr.symm
  | loadData p => exact ⟨h.1.trans hr.symm, hp p h.1 h.2⟩
  | storeSeq p data =>
      obtain ⟨he, hpb, x, hx, hd⟩ := h
      exact ⟨he.trans hr.symm, hp p he hpb, x, hcl p x hx, hd⟩
  | storeHead p data =>
      obtain ⟨he, x, hx, hd⟩ := h
      exact ⟨hr.trans he, x, hcl p x hx, hd⟩

namespace RingInv

variable {s : MpscState α}

theorem popped_le (h : RingInv s) : s.popped ≤ s.released := by
  have hc := h.consumer
  simp only [MpscState.popped]
  cases hp : s.cons with
  | storeHead pos data =>
      rw [hp] at hc
      exact Nat.le_of_lt (by rw [hc.1]; exact Nat.lt_succ_self pos)
  | _ => exact Nat.le_refl _

/-- A producer that keeps its hold on a position, or takes one. -/
theorem held_update {i p : Nat} {pc : PushPc α}
    (hi : ∀ item, s.prod i ≠ .storeData item p ∧ s.prod i ≠ .storeSeq item p) (hh : Held s p) :
    ∃ j item, Function.update s.prod i pc j = .storeData item p ∨
      Function.update s.prod i pc j = .storeSeq item p := by
  obtain ⟨j, item, hj⟩ := hh
  have hji : j ≠ i := by
    rintro rfl
    rcases hj with hj | hj
    · exact (hi item).1 hj
    · exact (hi item).2 hj
  exact ⟨j, item, by rwa [Function.update_of_ne hji]⟩

/-- The producer whose compare-and-swap succeeds holds the next position. -/
theorem claim (h : RingInv s) {i : Nat} {item : α} {pos : Nat}
    (hT : s.claimed.length + 1 < 2 ^ 63) (hi : s.prod i = .casTail item pos)
    (htail : s.q.tail = pos) :
    RingInv { s with
      q := { s.q with tail := wrap (pos + 1) }
      prod := Function.update s.prod i (.storeData item pos)
      claimed := s.claimed ++ [(i, item)] } := by
  have hpos : pos = s.claimed.length := htail.symm.trans h.tail
  have hat := h.producers i
  rw [hi] at hat
  have hlt : pos < s.released + s.q.cap := hat.2
  have hle := h.released_le
  have hlen : (s.claimed ++ [(i, item)]).length = s.claimed.length + 1 := by simp
  have hcl : ∀ (p : Nat) x, s.claimed[p]? = some x → (s.claimed ++ [(i, item)])[p]? = some x := by
    intro p x hx
    rw [List.getElem?_append_left (List.getElem?_eq_some_iff.mp hx).1]
    exact hx
  exact
    { geometry := ⟨h.geometry.two, h.geometry.small, h.geometry.mask, h.geometry.slot⟩
      tail := by
        show wrap (pos + 1) = (s.claimed ++ [(i, item)]).length
        rw [hlen, hpos, wrap_of_lt (by omega)]
      released_le := by
        show s.released ≤ (s.claimed ++ [(i, item)]).length
        omega
      claimed_le := by
        show (s.claimed ++ [(i, item)]).length ≤ s.released + s.q.cap
        omega
      free := fun p hp hpc => by
        have hp : (s.claimed ++ [(i, item)]).length ≤ p := hp
        exact h.free p (by omega) hpc
      taken := fun p hr hp => by
        have hp : p < (s.claimed ++ [(i, item)]).length := hp
        by_cases hpp : p = pos
        · rw [hpp]
          exact Or.inl ⟨i, item, Or.inl (Function.update_self ..)⟩
        · rcases h.taken p hr (by omega) with hh | ⟨x, hx, hc⟩
          · refine Or.inl (held_update (fun y => ?_) hh)
            rw [hi]
            exact ⟨(by intro he; cases he), (by intro he; cases he)⟩
          · exact Or.inr ⟨x, hcl p x hx, hc⟩
      producers := fun j => by
        show ProducerAt _ j (Function.update s.prod i _ j)
        by_cases hji : j = i
        · subst hji
          rw [Function.update_self]
          refine ⟨by show s.released ≤ pos; omega, ?_, h.free pos (by omega) hlt⟩
          show (s.claimed ++ [(j, item)])[pos]? = some (j, item)
          rw [hpos, List.getElem?_append_right (Nat.le_refl _), Nat.sub_self]
          rfl
        · rw [Function.update_of_ne hji]
          refine ProducerAt.frame (h.producers j) ?_ (Nat.le_refl _) hcl
            fun _ _ _ hr _ => ⟨hr, rfl⟩
          show s.claimed.length ≤ (s.claimed ++ [(i, item)]).length
          omega
      consumer := ConsumerAt.frame h.consumer rfl hcl fun _ => rfl
      head := h.head
      values := by
        have hpl := h.popped_le
        show s.values = ((s.claimed ++ [(i, item)]).map Prod.snd).take s.popped
        rw [List.map_append, List.take_append_of_le_length (by rw [List.length_map]; omega)]
        exact h.values }

/-- The producer that holds a position writes to its cell.  No other position of
the window has this cell. -/
theorem heldStep (h : RingInv s) {i pos : Nat} {item : α}
    (hi : s.prod i = .storeData item pos ∨ s.prod i = .storeSeq item pos)
    {buf : Nat → MpscCell α} {pc : PushPc α}
    (hq : ∀ p, p % s.q.cap ≠ pos % s.q.cap → { s.q with buf := buf }.cell p = s.q.cell p)
    (hpc : ProducerAt { s with q := { s.q with buf := buf } } i pc)
    (hnew : pc = .storeSeq item pos ∨ Published { s with q := { s.q with buf := buf } } pos) :
    RingInv { s with
      q := { s.q with buf := buf }
      prod := Function.update s.prod i pc } := by
  obtain ⟨hr, hlt, -⟩ := h.held_cell ⟨i, item, hi⟩
  have hcl := h.claimed_le
  have hle := h.released_le
  have hframe : ∀ {p}, s.released ≤ p → p < s.released + s.q.cap → p ≠ pos →
      { s.q with buf := buf }.cell p = s.q.cell p := by
    intro p hp hpc hne
    exact hq p fun he => hne (pos_eq_of_slot he hp hpc hr (by omega))
  exact
    { h with
      geometry := ⟨h.geometry.two, h.geometry.small, h.geometry.mask, h.geometry.slot⟩
      free := fun p hp hpc => by
        have hp : s.claimed.length ≤ p := hp
        rw [hframe (Nat.le_trans hle hp) hpc (by omega)]
        exact h.free p hp hpc
      taken := fun p hrp hp => by
        have hp : p < s.claimed.length := hp
        by_cases hpp : p = pos
        · subst hpp
          rcases hnew with rfl | hpub
          · exact Or.inl ⟨i, item, Or.inr (Function.update_self ..)⟩
          · exact Or.inr hpub
        · rcases h.taken p hrp hp with hh | ⟨x, hx, hc⟩
          · refine Or.inl (held_update (fun y => ⟨?_, ?_⟩) hh)
            · intro he
              rcases hi with hi | hi
              · rw [hi] at he
                cases he
                exact hpp rfl
              · rw [hi] at he
                cases he
            · intro he
              rcases hi with hi | hi
              · rw [hi] at he
                cases he
              · rw [hi] at he
                cases he
                exact hpp rfl
          · exact Or.inr ⟨x, hx, (hframe hrp (by omega) hpp).trans hc⟩
      producers := fun j => by
        show ProducerAt _ j (Function.update s.prod i pc j)
        by_cases hji : j = i
        · subst hji
          rw [Function.update_self]
          exact hpc
        · rw [Function.update_of_ne hji]
          refine ProducerAt.frame (h.producers j) (Nat.le_refl _) (Nat.le_refl _)
            (fun _ _ hx => hx) fun y p hpj hrp _ => ⟨hrp, hframe hrp ?_ ?_⟩
          · have := (h.held_cell ⟨j, y, hpj⟩).2.1
            omega
          · rintro rfl
            exact hji (h.holder_unique hpj hi)
      consumer := by
        refine ConsumerAt.frame h.consumer rfl (fun _ _ hx => hx) fun hpub => ?_
        have h2 := h.geometry.two
        refine hframe (Nat.le_refl _) (by omega) ?_
        rintro rfl
        exact h.not_held hpub ⟨i, item, hi⟩ }

/-- The item goes to the cell. -/
theorem storeData (h : RingInv s) {i pos : Nat} {item : α}
    (hi : s.prod i = .storeData item pos) :
    RingInv { s with
      q := s.q.setData pos item
      prod := Function.update s.prod i (.storeSeq item pos) } := by
  have hat := h.producers i
  rw [hi] at hat
  obtain ⟨hr, hx, hs⟩ := hat
  refine h.heldStep (Or.inl hi) (fun p hp => h.geometry.setData_of_ne hp) ?_ (Or.inl rfl)
  refine ⟨hr, hx, ?_⟩
  show (s.q.setData pos item).cell pos = _
  rw [Geometry.setData_self, hs]

/-- The item is published. -/
theorem storeSeq (h : RingInv s) (hT : s.claimed.length < 2 ^ 63) {i pos : Nat} {item : α}
    (hi : s.prod i = .storeSeq item pos) :
    RingInv { s with
      q := s.q.setSeq pos (wrap (pos + 1))
      prod := Function.update s.prod i (.done .ok) } := by
  have hat := h.producers i
  rw [hi] at hat
  obtain ⟨hr, hx, hs⟩ := hat
  have hlt := (List.getElem?_eq_some_iff.mp hx).1
  refine h.heldStep (Or.inr hi) (fun p hp => h.geometry.setSeq_of_ne hp) trivial (Or.inr ?_)
  refine ⟨_, hx, ?_⟩
  show (s.q.setSeq pos (wrap (pos + 1))).cell pos = _
  rw [Geometry.setSeq_self, hs, wrap_of_lt (by omega)]

/-- The histories of items play no part. -/
theorem setOkays (h : RingInv s) (okays : Nat → List α) : RingInv { s with okays := okays } :=
  { h with }

theorem stepPush (h : RingInv s) (i : Nat) (hT : (s.claim i).length < 2 ^ 63) :
    RingInv (s.stepPush i) := by
  have hat := h.producers i
  refine RingInv.setOkays (s := { s with
    q := (mpscPush s.q (s.prod i)).1
    prod := Function.update s.prod i (mpscPush s.q (s.prod i)).2
    claimed := s.claim i }) ?_ _
  simp only [MpscState.claim] at hT ⊢
  cases hpc : s.prod i with
  | idle => exact h.setPc trivial fun _ _ => by rw [hpc]; exact ⟨nofun, nofun⟩
  | done err => exact h.setPc trivial fun _ _ => by rw [hpc]; exact ⟨nofun, nofun⟩
  | loadTail item =>
      refine h.setPc ?_ fun _ _ => by rw [hpc]; exact ⟨nofun, nofun⟩
      exact Nat.le_of_eq h.tail
  | loadSeq item pos =>
      rw [hpc] at hat hT
      have hnot : ∀ y p, s.prod i ≠ .storeData y p ∧ s.prod i ≠ .storeSeq y p := fun _ _ => by
        rw [hpc]
        exact ⟨nofun, nofun⟩
      have hT : s.claimed.length < 2 ^ 63 := hT
      have hpos : pos ≤ s.claimed.length := hat
      simp only [mpscPush]
      split
      · next hz =>
          have hs := (dif64_eq_zero (h.seq_lt hT hpos) (by omega)).mp hz
          exact h.setPc ⟨hpos, h.own_seq hpos hs⟩ hnot
      · split
        · exact h.setPc trivial hnot
        · exact h.setPc trivial hnot
  | casTail item pos =>
      rw [hpc] at hT
      simp only [mpscPush]
      by_cases ht : s.q.tail = pos
      · simp only [ht, if_true, List.length_append, List.length_singleton] at hT ⊢
        exact h.claim hT hpc ht
      · simp only [ht, if_false]
        refine h.setPc ?_ fun _ _ => by rw [hpc]; exact ⟨nofun, nofun⟩
        exact Nat.le_of_eq h.tail
  | storeData item pos => exact h.storeData hpc
  | storeSeq item pos =>
      rw [hpc] at hT
      exact h.storeSeq hT hpc

/-! ## The consumer -/

/-- The program point of the consumer changes, and nothing is returned. -/
theorem setCons (h : RingInv s) {pc : PopPc α} (hc : ConsumerAt s pc)
    (hold : ∀ pos data, s.cons ≠ .storeHead pos data)
    (hnew : ∀ pos data, pc ≠ .storeHead pos data) : RingInv { s with cons := pc } := by
  have hp : { s with cons := pc }.popped = s.popped := by
    have h1 : s.popped = s.released := by
      rw [MpscState.popped]
      cases hs : s.cons with
      | storeHead pos data => exact absurd hs (hold pos data)
      | _ => rfl
    have h2 : { s with cons := pc }.popped = s.released := by
      rw [MpscState.popped]
      cases pc with
      | storeHead pos data => exact absurd rfl (hnew pos data)
      | _ => rfl
    rw [h1, h2]
  exact
    { h with
      consumer := hc
      head := by rw [hp]; exact h.head
      values := by rw [hp]; exact h.values }

/-- An empty pop returns nothing of interest. -/
theorem returnNone (h : RingInv s) : RingInv { s with returned := s.returned ++ [none] } :=
  { h with
    values := by
      show (s.returned ++ [none]).filterMap id = _
      rw [List.filterMap_append]
      show s.values ++ [] = _
      rw [List.append_nil]
      exact h.values }

/-- The consumer finds its position published. -/
theorem popSeq (h : RingInv s) (hT : s.claimed.length < 2 ^ 63)
    (hz : dif64 (s.q.cell s.released).seq (wrap (s.released + 1)) = 0) :
    Published s s.released := by
  have h2 := h.geometry.two
  have hle := h.released_le
  rw [wrap_of_lt (by omega)] at hz
  have hs := (dif64_eq_zero (h.seq_lt hT hle) (by omega)).mp hz
  by_cases hlt : s.released < s.claimed.length
  · rcases h.taken _ (Nat.le_refl _) hlt with hh | hp
    · have := (h.held_cell hh).2.2
      omega
    · exact hp
  · have := h.free s.released (by omega) (by omega)
    omega

/-- The cell goes to the position one lap ahead. -/
theorem release (h : RingInv s) (hT : s.claimed.length < 2 ^ 63) {pos : Nat} {data : Option α}
    (hc : s.cons = .storeSeq pos data) :
    RingInv { s with
      q := s.q.setSeq pos (wrap (pos + s.q.mask + 1))
      cons := .storeHead pos data
      released := s.released + 1 } := by
  have hcons := h.consumer
  rw [hc] at hcons
  obtain ⟨rfl, hpub, x, hx, hd⟩ := hcons
  have hlt := published_lt hpub
  have h2 := h.geometry.two
  have hsm := h.geometry.small
  have hcl := h.claimed_le
  have hmask := h.geometry.mask
  have hseq : wrap (s.released + s.q.mask + 1) = s.released + s.q.cap := by
    rw [wrap_of_lt (by omega)]
    omega
  have hpopped : s.popped = s.released := by
    simp only [MpscState.popped]
    rw [hc]
  have hframe : ∀ {p}, s.released < p → p < s.released + s.q.cap →
      (s.q.setSeq s.released (wrap (s.released + s.q.mask + 1))).cell p = s.q.cell p := by
    intro p hp hpc
    refine h.geometry.setSeq_of_ne fun he => ?_
    have := pos_eq_of_slot he (by omega) hpc (Nat.le_refl _) (by omega)
    omega
  exact
    { geometry := h.geometry.setSeq _ _
      tail := h.tail
      released_le := hlt
      claimed_le := by
        show s.claimed.length ≤ s.released + 1 + s.q.cap
        omega
      free := fun p hp hpc => by
        have hp : s.claimed.length ≤ p := hp
        have hpc : p < s.released + 1 + s.q.cap := hpc
        by_cases hlap : p = s.released + s.q.cap
        · -- the cell just given back is that of this position
          have hcell := (h.geometry.setSeq s.released
            (wrap (s.released + s.q.mask + 1))).cell_congr p s.released
            (by rw [hlap]; exact Nat.add_mod_right _ _)
          rw [hcell, Geometry.setSeq_self, hseq, hlap]
        · rw [hframe (by omega) (by omega)]
          exact h.free p hp (by omega)
      taken := fun p hr hp => by
        have hr : s.released + 1 ≤ p := hr
        have hp : p < s.claimed.length := hp
        rcases h.taken p (by omega) hp with hh | ⟨y, hy, hcell⟩
        · exact Or.inl hh
        · exact Or.inr ⟨y, hy, (hframe (by omega) (by omega)).trans hcell⟩
      producers := fun j => by
        refine ProducerAt.frame (h.producers j) (Nat.le_refl _) ?_ (fun _ _ hx => hx) ?_
        · show s.released + s.q.cap ≤ s.released + 1 + s.q.cap
          omega
        · intro y p hpc hr _
          have hne : p ≠ s.released := by
            rintro rfl
            exact h.not_held hpub ⟨j, y, hpc⟩
          have hp := (h.held_cell ⟨j, y, hpc⟩).2.1
          exact ⟨by show s.released + 1 ≤ p; omega, hframe (by omega) (by omega)⟩
      consumer := ⟨rfl, x, hx, hd⟩
      head := h.head.trans hpopped
      values := by
        show s.values = (s.claimed.map Prod.snd).take s.released
        rw [h.values, hpopped] }

/-- `head` moves, and the item is returned. -/
theorem storeHead (h : RingInv s) (hT : s.claimed.length < 2 ^ 63) {pos : Nat} {data : Option α}
    (hc : s.cons = .storeHead pos data) :
    RingInv { s with
      q := { s.q with head := wrap (pos + 1) }
      cons := .done data
      returned := s.returned ++ [data] } := by
  have hcons := h.consumer
  rw [hc] at hcons
  obtain ⟨hr, x, hx, rfl⟩ := hcons
  have hle := h.released_le
  have hpopped : s.popped = pos := by
    simp only [MpscState.popped]
    rw [hc]
  exact
    { h with
      geometry := ⟨h.geometry.two, h.geometry.small, h.geometry.mask, h.geometry.slot⟩
      consumer := trivial
      head := by
        show wrap (pos + 1) = s.released
        rw [wrap_of_lt (by omega), hr]
      values := by
        show (s.returned ++ [some x.2]).filterMap id = (s.claimed.map Prod.snd).take s.released
        have hv := h.values
        rw [hpopped] at hv
        have hx' : (s.claimed.map Prod.snd)[pos]? = some x.2 := by
          rw [List.getElem?_map, hx]
          rfl
        rw [hr, List.take_add_one, hx', ← hv, List.filterMap_append]
        rfl }

theorem stepPop (h : RingInv s) (hT : s.claimed.length < 2 ^ 63)
    (hrest : s.cons.resting = false) : RingInv s.stepPop := by
  have hcons := h.consumer
  simp only [MpscState.stepPop, MpscState.release, MpscState.yield]
  cases hc : s.cons with
  | idle =>
      rw [hc] at hrest
      cases hrest
  | done data =>
      rw [hc] at hrest
      cases hrest
  | loadHead =>
      refine h.setCons ?_ (fun _ _ => by rw [hc]; exact nofun) nofun
      show s.q.head = s.released
      rw [h.head]
      simp only [MpscState.popped]
      rw [hc]
  | loadSeq pos =>
      rw [hc] at hcons
      obtain rfl : pos = s.released := hcons
      have hold : ∀ p d, s.cons ≠ .storeHead p d := fun _ _ => by rw [hc]; exact nofun
      by_cases hz : dif64 (s.q.cell s.released).seq (wrap (s.released + 1)) = 0
      · simp only [mpscPop, hz, ne_eq, not_true_eq_false, if_false]
        exact h.setCons ⟨rfl, h.popSeq hT hz⟩ hold nofun
      · simp only [mpscPop, hz, ne_eq, not_false_eq_true, if_true]
        have hdone : RingInv { s with cons := .done none } := h.setCons trivial hold nofun
        exact hdone.returnNone
  | loadData pos =>
      rw [hc] at hcons
      obtain ⟨hpos, hpub⟩ := hcons
      refine h.setCons ⟨hpos, hpub, ?_⟩ (fun _ _ => by rw [hc]; exact nofun) nofun
      obtain ⟨x, hx, hcell⟩ := hpub
      exact ⟨x, hx, by rw [hcell]⟩
  | storeSeq pos data => exact h.release hT hc
  | storeHead pos data => exact h.storeHead hT hc

/-! ## Runs -/

theorem step (h : RingInv s) {a : MpscAct α} {t : MpscState α}
    (hs : (mpscMachine α).step s a = some t) (hT : t.claimed.length < 2 ^ 63) : RingInv t := by
  rcases mpscStep_cases hs with ⟨i, item, hr, rfl⟩ | ⟨i, -, rfl⟩ | ⟨hr, rfl⟩ | ⟨hr, rfl⟩
  · have hfree : ∀ x p, s.prod i ≠ .storeData x p ∧ s.prod i ≠ .storeSeq x p := by
      intro x p
      constructor
      · intro he
        rw [he] at hr
        cases hr
      · intro he
        rw [he] at hr
        cases hr
    have hcall : RingInv { s with prod := Function.update s.prod i (.loadTail item) } :=
      h.setPc trivial hfree
    exact { hcall with }
  · exact h.stepPush i hT
  · refine h.setCons trivial (fun _ _ he => ?_) nofun
    rw [he] at hr
    cases hr
  · exact h.stepPop hT hr

end RingInv

/-- Claims are only added. -/
theorem claimed_length_le {s t : MpscState α} {a : MpscAct α}
    (hs : (mpscMachine α).step s a = some t) : s.claimed.length ≤ t.claimed.length := by
  rcases mpscStep_cases hs with ⟨i, item, -, rfl⟩ | ⟨i, -, rfl⟩ | ⟨-, rfl⟩ | ⟨-, rfl⟩
  · exact Nat.le_refl _
  · simp only [MpscState.stepPush, MpscState.claim]
    split
    · split
      · simp
      · exact Nat.le_refl _
    · exact Nat.le_refl _
  · exact Nat.le_refl _
  · exact Nat.le_refl _

theorem RingInv.leads {cq cb : Bool} {cap : Nat} {q : MpscQueue α}
    (hq : mpscCreate cq cb cap = some q) {s : MpscState α}
    (h : (mpscMachine α).Leads Machine.Any (.start q) s) :
    s.claimed.length < 2 ^ 63 → RingInv s :=
  h.invariant (I := fun s => s.claimed.length < 2 ^ 63 → RingInv s)
    (fun _ _ _ hi _ hs hT => (hi (Nat.lt_of_le_of_lt (claimed_length_le hs) hT)).step hs hT)
    fun _ => RingInv.start hq

end Ztk.Util
