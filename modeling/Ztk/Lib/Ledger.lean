import Ztk.Lib.Tally

/-!
# A ledger of things with one owner

Things are numbered as they are made.  Each is in a queue, then in the hands of one of
finitely many holders, or goes from the queue to those that are freed.  `places` counts where
a thing is.  Nothing is ever in two places (`Ledger.Sound`), and everything is in one
(`Ledger.Complete`) as long as no holder drops what it has (`Move.complete_iff`).
-/

namespace Ztk.Lib

/-- Where the things made so far are. -/
structure Ledger (ι : Type) where
  queue : List Nat
  held : ι → Option Nat
  freed : List Nat
  /-- The number of the next thing. -/
  next : Nat

namespace Ledger

variable {ι : Type} [Fintype ι] [DecidableEq ι]

/-- One if the holder has the thing. -/
def has (t : Nat) (h : Option Nat) : Nat := if h = some t then 1 else 0

/-- In how many places a thing is. -/
def places (l : Ledger ι) (t : Nat) : Nat :=
  l.queue.count t + (∑ i, has t (l.held i)) + l.freed.count t

/-- Nothing is in two places, and what is not made is nowhere. -/
structure Sound (l : Ledger ι) : Prop where
  le_one : ∀ t, l.places t ≤ 1
  unmade : ∀ t, l.next ≤ t → l.places t = 0

/-- Everything that was made is in one place. -/
def Complete (l : Ledger ι) : Prop := ∀ t < l.next, l.places t = 1

/-- A thing is made, taken, freed or dropped; the flag says whether one is dropped. -/
inductive Move (l : Ledger ι) : Bool → Ledger ι → Prop where
  | stay : Move l false l
  | make {queue : List Nat} (h : queue.Perm (l.next :: l.queue)) :
      Move l false { l with queue := queue, next := l.next + 1 }
  | take {i : ι} {t : Nat} {ts : List Nat} (hq : l.queue = t :: ts) (hi : l.held i = none) :
      Move l false { l with queue := ts, held := Function.update l.held i (some t) }
  | free {t : Nat} {ts : List Nat} (hq : l.queue = t :: ts) :
      Move l false { l with queue := ts, freed := l.freed ++ [t] }
  | drop {i : ι} {t : Nat} (hi : l.held i = some t) :
      Move l true { l with held := Function.update l.held i none }

variable {l m : Ledger ι} {d : Bool}

omit [DecidableEq ι] in
theorem sound_start : Sound (⟨[], fun _ : ι => none, [], 0⟩ : Ledger ι) where
  le_one t := by simp [places, has]
  unmade t _ := by simp [places, has]

omit [DecidableEq ι] in
theorem complete_start : Complete (⟨[], fun _ : ι => none, [], 0⟩ : Ledger ι) :=
  fun t h => absurd h (Nat.not_lt_zero t)

/-- A move that drops nothing makes at most one thing, and leaves the others where they are
or elsewhere. -/
theorem Move.kept (h : Move l false m) (t : Nat) :
    (m.next = l.next ∧ m.places t = l.places t) ∨
      (m.next = l.next + 1 ∧ m.places t = l.places t + if l.next = t then 1 else 0) := by
  cases h with
  | stay => exact Or.inl ⟨rfl, rfl⟩
  | make h =>
      refine Or.inr ⟨rfl, ?_⟩
      have hcount := h.count_eq t
      simp only [List.count_cons, beq_iff_eq] at hcount
      simp only [places, hcount]
      omega
  | @take i u ts hq hi =>
      refine Or.inl ⟨rfl, ?_⟩
      have hsum := sum_update l.held i (some u) (has t)
      simp only [hi, has, reduceCtorEq, if_false, Option.some.injEq] at hsum
      simp only [places, hq, List.count_cons, beq_iff_eq, has]
      omega
  | free hq =>
      refine Or.inl ⟨rfl, ?_⟩
      simp only [places, hq, List.count_cons, List.count_append, List.count_nil]
      omega

/-- A drop takes one thing from its place. -/
theorem Move.dropped (h : Move l true m) :
    m.next = l.next ∧ ∃ i u, l.held i = some u ∧
      ∀ t, l.places t = m.places t + if u = t then 1 else 0 := by
  cases h with
  | @drop i u hi =>
      refine ⟨rfl, i, u, hi, fun t => ?_⟩
      have hsum := sum_update l.held i none (has t)
      simp only [hi, has, reduceCtorEq, if_false, Option.some.injEq] at hsum
      simp only [places, has]
      omega

theorem Move.sound (h : Move l d m) (hl : l.Sound) : m.Sound := by
  cases d with
  | false =>
      constructor
      · intro t
        have hle := hl.le_one t
        have hnew := hl.unmade t
        rcases h.kept t with ⟨-, hp⟩ | ⟨-, hp⟩
        · omega
        · split at hp <;> omega
      · intro t ht
        have hnew := hl.unmade t
        rcases h.kept t with ⟨hn, hp⟩ | ⟨hn, hp⟩
        · omega
        · split at hp <;> omega
  | true =>
      obtain ⟨hn, i, u, -, hp⟩ := h.dropped
      constructor
      · intro t
        have hle := hl.le_one t
        have h := hp t
        omega
      · intro t ht
        have hzero := hl.unmade t (hn ▸ ht)
        have h := hp t
        omega

omit [DecidableEq ι] in
/-- What a holder has was made. -/
theorem Sound.held_lt (hl : l.Sound) {i : ι} {t : Nat} (hi : l.held i = some t) :
    t < l.next := by
  by_contra hge
  have hzero := hl.unmade t (Nat.le_of_not_lt hge)
  have hle : has t (l.held i) ≤ ∑ j, has t (l.held j) :=
    Finset.single_le_sum (f := fun j => has t (l.held j)) (fun _ _ => Nat.zero_le _)
      (Finset.mem_univ i)
  simp only [places] at hzero
  rw [has, if_pos hi] at hle
  omega

/-- Everything stays in one place exactly when nothing is dropped. -/
theorem Move.complete_iff (h : Move l d m) (hs : l.Sound) (hc : l.Complete) :
    m.Complete ↔ d = false := by
  cases d with
  | false =>
      refine iff_of_true (fun t ht => ?_) rfl
      have hnew := hs.unmade t
      have hold := hc t
      rcases h.kept t with ⟨hn, hp⟩ | ⟨hn, hp⟩
      · rw [hp]
        exact hold (hn ▸ ht)
      · split at hp <;> omega
  | true =>
      refine iff_of_false (fun hm => ?_) Bool.noConfusion
      obtain ⟨hn, i, u, hi, hp⟩ := h.dropped
      have hlt := hs.held_lt hi
      have hone := hc u hlt
      have hone' := hm u (hn ▸ hlt)
      have hgone := hp u
      rw [if_pos rfl] at hgone
      omega

end Ledger

end Ztk.Lib
