import Mathlib

/-!
# Custody of a fixed stock

A stock of distinct things, each of which lies on a shelf or is held by somebody.
`Custody stock shelf held` says that the two lists together are a rearrangement of
the stock, so nothing is in both, nothing is in one of them twice and nothing is
lost.
-/

namespace Ztk.Lib

variable {α : Type} {stock shelf held : List α} {a : α}

/-- The shelf and what is held make up the stock. -/
structure Custody (stock shelf held : List α) : Prop where
  distinct : stock.Nodup
  perm : List.Perm (shelf ++ held) stock

namespace Custody

theorem start (h : stock.Nodup) : Custody stock stock [] :=
  ⟨h, by rw [List.append_nil]⟩

theorem nodup (h : Custody stock shelf held) : (shelf ++ held).Nodup :=
  h.perm.nodup_iff.mpr h.distinct

theorem shelf_nodup (h : Custody stock shelf held) : shelf.Nodup :=
  (List.nodup_append'.mp h.nodup).1

theorem held_nodup (h : Custody stock shelf held) : held.Nodup :=
  (List.nodup_append'.mp h.nodup).2.1

theorem disjoint (h : Custody stock shelf held) : List.Disjoint shelf held :=
  (List.nodup_append'.mp h.nodup).2.2

theorem mem_iff (h : Custody stock shelf held) : a ∈ shelf ∨ a ∈ held ↔ a ∈ stock := by
  rw [← h.perm.mem_iff, List.mem_append]

theorem mem_held_iff (h : Custody stock shelf held) : a ∈ held ↔ a ∈ stock ∧ a ∉ shelf := by
  rw [← h.mem_iff]
  constructor
  · intro ha
    exact ⟨.inr ha, fun hs => h.disjoint hs ha⟩
  · rintro ⟨hs | hh, hn⟩
    · exact absurd hs hn
    · exact hh

theorem length_add (h : Custody stock shelf held) :
    shelf.length + held.length = stock.length := by
  rw [← List.length_append, h.perm.length_eq]

/-- Something held leaves a place free on the shelf. -/
theorem shelf_length_lt (h : Custody stock shelf held) (ha : a ∈ held) :
    shelf.length < stock.length := by
  have hadd := h.length_add
  have hpos := List.length_pos_of_mem ha
  omega

/-- The last thing on the shelf is taken. -/
theorem take (h : Custody stock (shelf ++ [a]) held) : Custody stock shelf (a :: held) where
  distinct := h.distinct
  perm := by
    have hp := h.perm
    rwa [List.append_assoc, List.singleton_append] at hp

/-- Something held is put back. -/
theorem give [DecidableEq α] (h : Custody stock shelf held) (ha : a ∈ held) :
    Custody stock (shelf ++ [a]) (held.erase a) where
  distinct := h.distinct
  perm := by
    rw [List.append_assoc, List.singleton_append]
    exact ((List.perm_cons_erase ha).symm.append_left shelf).trans h.perm

end Custody

end Ztk.Lib
