import Mathlib
import Ztk.Err
import Ztk.Lib.Machine

/-!
# The ring queue for many producers and one consumer

`mpsc.c`.  Every load, compare-and-swap and store of `ztk_mpsc_push` and
`ztk_mpsc_pop` is one step, and the steps of all threads interleave freely.  A
thread inside a call is a program point with the values of its local
variables, so `PushPc` and `PopPc` are the two functions cut at their accesses
to memory.

Positions and sequence numbers are `uint64_t`.  They are kept as naturals and
reduced modulo `2 ^ 64` where the source adds, and `dif` is the two's complement
difference, `Int.bmod` of the difference by `2 ^ 64`.  Items are not null: a
cell that was never written holds `none`.

The histories record which calls won a position (`claimed`), how many cells the
consumer has given back (`released`), what each producer was asked to push and
what it has pushed (`called`, `okays`), and what each pop returned (`returned`).
-/

namespace Ztk.Util

open Ztk.Lib

variable {α : Type}

/-! ## The queue -/

/-- `ztk_mpsc_cell`. -/
structure MpscCell (α : Type) where
  data : Option α
  seq : Nat

/-- `ztk_mpsc_queue`. -/
structure MpscQueue (α : Type) where
  buf : Nat → MpscCell α
  cap : Nat
  mask : Nat
  head : Nat
  tail : Nat

/-- `uint64_t` arithmetic. -/
def wrap (n : Nat) : Nat := n % 2 ^ 64

/-- `(int64_t)a - (int64_t)b`. -/
def dif64 (a b : Nat) : Int := ((a : Int) - (b : Int)).bmod (2 ^ 64)

/-- `is_pow2`. -/
def isPow2 (n : Nat) : Bool := 2 ≤ n && (n &&& (n - 1)) == 0

/-- `ztk_mpsc_create`.  The flags say whether the two `calloc` return memory; the
second one refuses a product `cap_pow2 * sizeof(*q->buf)` that overflows. -/
def mpscCreate (callocQueue callocBuf : Bool) (capPow2 : Nat) : Option (MpscQueue α) :=
  if !isPow2 capPow2 then none
  else if !callocQueue then none
  else if !callocBuf || 2 ^ 64 ≤ capPow2 * 16 then none
  else some ⟨fun i => ⟨none, i⟩, capPow2, capPow2 - 1, 0, 0⟩

namespace MpscQueue

/-- `q->buf[(size_t)(pos & q->mask)]`. -/
def cell (q : MpscQueue α) (pos : Nat) : MpscCell α := q.buf (pos &&& q.mask)

/-- `cell->data = item`. -/
def setData (q : MpscQueue α) (pos : Nat) (item : α) : MpscQueue α :=
  { q with buf := Function.update q.buf (pos &&& q.mask) { q.cell pos with data := some item } }

/-- `ztk_atomic_store64(&cell->seq, v)`. -/
def setSeq (q : MpscQueue α) (pos v : Nat) : MpscQueue α :=
  { q with buf := Function.update q.buf (pos &&& q.mask) { q.cell pos with seq := v } }

end MpscQueue

/-! ## The two functions, step by step -/

/-- The points of `ztk_mpsc_push`: each is named by the access it is about to make. -/
inductive PushPc (α : Type) where
  | idle
  | loadTail (item : α)
  | loadSeq (item : α) (pos : Nat)
  | casTail (item : α) (pos : Nat)
  | storeData (item : α) (pos : Nat)
  | storeSeq (item : α) (pos : Nat)
  | done (err : Err)

/-- One access of `ztk_mpsc_push`. -/
def mpscPush (q : MpscQueue α) : PushPc α → MpscQueue α × PushPc α
  | .idle => (q, .idle)
  | .loadTail item => (q, .loadSeq item q.tail)
  | .loadSeq item pos =>
      let dif := dif64 (q.cell pos).seq pos
      if dif = 0 then (q, .casTail item pos)
      else if dif < 0 then (q, .done .again)
      else (q, .loadTail item)
  | .casTail item pos =>
      if q.tail = pos then ({ q with tail := wrap (pos + 1) }, .storeData item pos)
      else (q, .loadSeq item q.tail)
  | .storeData item pos => (q.setData pos item, .storeSeq item pos)
  | .storeSeq _ pos => (q.setSeq pos (wrap (pos + 1)), .done .ok)
  | .done err => (q, .done err)

/-- The points of `ztk_mpsc_pop`. -/
inductive PopPc (α : Type) where
  | idle
  | loadHead
  | loadSeq (pos : Nat)
  | loadData (pos : Nat)
  | storeSeq (pos : Nat) (data : Option α)
  | storeHead (pos : Nat) (data : Option α)
  | done (data : Option α)

/-- One access of `ztk_mpsc_pop`. -/
def mpscPop (q : MpscQueue α) : PopPc α → MpscQueue α × PopPc α
  | .idle => (q, .idle)
  | .loadHead => (q, .loadSeq q.head)
  | .loadSeq pos =>
      if dif64 (q.cell pos).seq (wrap (pos + 1)) ≠ 0 then (q, .done none)
      else (q, .loadData pos)
  | .loadData pos => (q, .storeSeq pos (q.cell pos).data)
  | .storeSeq pos data => (q.setSeq pos (wrap (pos + q.mask + 1)), .storeHead pos data)
  | .storeHead pos data => ({ q with head := wrap (pos + 1) }, .done data)
  | .done data => (q, .done data)

/-! ## The machine -/

/-- The queue, its threads, and their history. -/
structure MpscState (α : Type) where
  q : MpscQueue α
  prod : Nat → PushPc α
  cons : PopPc α
  /-- The calls that won a position, with their producers, by position. -/
  claimed : List (Nat × α)
  /-- The cells given back by the consumer. -/
  released : Nat
  /-- The items each producer was asked to push, in order. -/
  called : Nat → List α
  /-- The items of the calls of each producer that returned `ZTK_OK`, in order. -/
  okays : Nat → List α
  /-- All calls of `ztk_mpsc_push`. -/
  calls : Nat
  /-- The values returned by `ztk_mpsc_pop`. -/
  returned : List (Option α)

/-- A new queue that no thread uses. -/
def MpscState.start (q : MpscQueue α) : MpscState α :=
  ⟨q, fun _ => .idle, .idle, [], 0, fun _ => [], fun _ => [], 0, []⟩

/-- The non-null values returned by `ztk_mpsc_pop`. -/
def MpscState.values (s : MpscState α) : List α := s.returned.filterMap id

/-- A thread calls one of the functions, or makes its next access. -/
inductive MpscAct (α : Type) where
  | push (i : Nat) (item : α)
  | stepPush (i : Nat)
  | pop
  | stepPop

/-- The call has not begun or has returned. -/
def PushPc.resting : PushPc α → Bool
  | .idle => true
  | .done _ => true
  | _ => false

/-- The call has not begun or has returned. -/
def PopPc.resting : PopPc α → Bool
  | .idle => true
  | .done _ => true
  | _ => false

/-- The history of wins after an access of producer `i`. -/
def MpscState.claim (s : MpscState α) (i : Nat) : List (Nat × α) :=
  match s.prod i with
  | .casTail item pos => if s.q.tail = pos then s.claimed ++ [(i, item)] else s.claimed
  | _ => s.claimed

/-- The items pushed after an access of producer `i`. -/
def MpscState.finish (s : MpscState α) (i : Nat) : List α :=
  match s.prod i with
  | .storeSeq item _ => s.okays i ++ [item]
  | _ => s.okays i

/-- The count of returned cells after an access of the consumer. -/
def MpscState.release (s : MpscState α) : Nat :=
  match s.cons with
  | .storeSeq _ _ => s.released + 1
  | _ => s.released

/-- The values returned after an access of the consumer. -/
def MpscState.yield (s : MpscState α) : List (Option α) :=
  match (mpscPop s.q s.cons).2 with
  | .done data => s.returned ++ [data]
  | _ => s.returned

/-- Producer `i` calls `ztk_mpsc_push`. -/
def MpscState.callPush (s : MpscState α) (i : Nat) (item : α) : MpscState α :=
  { s with
    prod := Function.update s.prod i (.loadTail item)
    called := Function.update s.called i (s.called i ++ [item])
    calls := s.calls + 1 }

/-- One access of producer `i`. -/
def MpscState.stepPush (s : MpscState α) (i : Nat) : MpscState α :=
  { s with
    q := (mpscPush s.q (s.prod i)).1
    prod := Function.update s.prod i (mpscPush s.q (s.prod i)).2
    claimed := s.claim i
    okays := Function.update s.okays i (s.finish i) }

/-- One access of the consumer. -/
def MpscState.stepPop (s : MpscState α) : MpscState α :=
  { s with
    q := (mpscPop s.q s.cons).1
    cons := (mpscPop s.q s.cons).2
    released := s.release
    returned := s.yield }

/-- One step.  A thread begins a call when it is not inside one. -/
def mpscStep (s : MpscState α) : MpscAct α → Option (MpscState α)
  | .push i item => if (s.prod i).resting then some (s.callPush i item) else none
  | .stepPush i => if (s.prod i).resting then none else some (s.stepPush i)
  | .pop => if s.cons.resting then some { s with cons := .loadHead } else none
  | .stepPop => if s.cons.resting then none else some s.stepPop

/-- The queue and its threads as a machine. -/
def mpscMachine (α : Type) : Machine (MpscState α) (MpscAct α) := ⟨mpscStep⟩

theorem stepPush_prod_self (s : MpscState α) (i : Nat) :
    (s.stepPush i).prod i = (mpscPush s.q (s.prod i)).2 := by
  simp [MpscState.stepPush]

theorem stepPush_prod_of_ne (s : MpscState α) {i j : Nat} (h : j ≠ i) :
    (s.stepPush i).prod j = s.prod j := by
  simp [MpscState.stepPush, h]

/-- What a step can do. -/
theorem mpscStep_cases {s t : MpscState α} {a : MpscAct α}
    (h : (mpscMachine α).step s a = some t) :
    (∃ i item, (s.prod i).resting = true ∧ t = s.callPush i item) ∨
    (∃ i, (s.prod i).resting = false ∧ t = s.stepPush i) ∨
    (s.cons.resting = true ∧ t = { s with cons := .loadHead }) ∨
    (s.cons.resting = false ∧ t = s.stepPop) := by
  cases a with
  | push i item =>
      simp only [mpscMachine, mpscStep] at h
      split at h
      · next hr => exact Or.inl ⟨i, item, hr, (Option.some.inj h).symm⟩
      · cases h
  | stepPush i =>
      simp only [mpscMachine, mpscStep] at h
      split at h
      · cases h
      · next hr => exact Or.inr (Or.inl ⟨i, by simpa using hr, (Option.some.inj h).symm⟩)
  | pop =>
      simp only [mpscMachine, mpscStep] at h
      split at h
      · next hr => exact Or.inr (Or.inr (Or.inl ⟨hr, (Option.some.inj h).symm⟩))
      · cases h
  | stepPop =>
      simp only [mpscMachine, mpscStep] at h
      split at h
      · cases h
      · next hr => exact Or.inr (Or.inr (Or.inr ⟨by simpa using hr, (Option.some.inj h).symm⟩))

end Ztk.Util
