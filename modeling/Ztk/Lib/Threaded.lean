import Mathlib

/-!
# Lists threaded through memory

An intrusive list: each cell keeps the address of the next one in its own
storage, and the list ends at a null address.  `Threaded next null p l` says that
following `next` from `p` visits the cells of `l`, in this order, and then ends.

The storage of a cell is used for other things while the cell is in no list, so
the lemmas say what a write to one cell does to the lists it is not in
(`Threaded.write`), and what pushing and popping do to the list at hand.
-/

namespace Ztk.Lib

variable {α : Type} {next : α → α} {null : α}

/-- From `p`, `next` visits exactly the cells of the list. -/
def Threaded (next : α → α) (null : α) : α → List α → Prop
  | p, [] => p = null
  | p, b :: bs => p = b ∧ b ≠ null ∧ Threaded next null (next b) bs

namespace Threaded

/-- The null address starts the empty list only. -/
theorem of_null {l : List α} (h : Threaded next null null l) : l = [] := by
  cases l with
  | nil => rfl
  | cons b bs => exact absurd h.1.symm h.2.1

/-- Any other address is the first cell of its list. -/
theorem of_ne_null {p : α} {l : List α} (h : Threaded next null p l) (hp : p ≠ null) :
    ∃ bs, l = p :: bs ∧ Threaded next null (next p) bs := by
  cases l with
  | nil => exact absurd h hp
  | cons b bs =>
      obtain ⟨rfl, -, hbs⟩ := h
      exact ⟨bs, rfl, hbs⟩

/-- An address starts one list. -/
theorem unique {p : α} {l l' : List α} (h : Threaded next null p l)
    (h' : Threaded next null p l') : l = l' := by
  induction l generalizing p l' with
  | nil =>
      cases h
      exact h'.of_null.symm
  | cons b bs ih =>
      obtain ⟨rfl, hb, hbs⟩ := h
      obtain ⟨bs', rfl, hbs'⟩ := h'.of_ne_null hb
      rw [ih hbs hbs']

/-- The cell after a cell of the list. -/
theorem next_eq {p b : α} {l₁ l₂ : List α} (h : Threaded next null p (l₁ ++ b :: l₂)) :
    next b = l₂.headD null := by
  induction l₁ generalizing p with
  | nil =>
      obtain ⟨-, -, hl⟩ := h
      cases l₂ with
      | nil => exact hl
      | cons c cs => exact hl.1
  | cons c cs ih => exact ih h.2.2

variable [DecidableEq α]

/-- A write to a cell that is not in the list. -/
theorem write {p b : α} {l : List α} (h : Threaded next null p l) (hb : b ∉ l) (v : α) :
    Threaded (Function.update next b v) null p l := by
  induction l generalizing p with
  | nil => exact h
  | cons c cs ih =>
      obtain ⟨rfl, hc, hcs⟩ := h
      have hne : p ≠ b := fun he => hb (he ▸ List.mem_cons_self)
      refine ⟨rfl, hc, ?_⟩
      rw [Function.update_of_ne hne]
      exact ih hcs fun hm => hb (List.mem_cons_of_mem _ hm)

/-- `b->next = head; head = b;` -/
theorem push {p b : α} {l : List α} (h : Threaded next null p l) (hb : b ∉ l) (hn : b ≠ null) :
    Threaded (Function.update next b p) null b (b :: l) := by
  refine ⟨rfl, hn, ?_⟩
  rw [Function.update_self]
  exact h.write hb p

end Threaded

end Ztk.Lib
