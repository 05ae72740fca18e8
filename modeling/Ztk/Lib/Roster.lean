import Mathlib

/-!
# Rosters

Keys are entered in a roster, removed from it, and renewed: removed and entered again in
one go, in their place.  Whether a key that is present has been there without a break since
the start cannot be seen from the roster alone.  The history tells, from either side: a key
that is present has stayed exactly when it was not entered since
(`Roster.Sound.stayed_iff`).
-/

namespace Ztk.Lib

variable {ι : Type}

/-- The keys of a roster, and its history. -/
structure Roster (ι : Type) where
  start : List ι
  present : List ι
  entered : List ι
  removed : List ι

namespace Roster

def begin (keys : List ι) : Roster ι := ⟨keys, keys, [], []⟩

def enter (r : Roster ι) (k : ι) : Roster ι :=
  { r with present := k :: r.present, entered := k :: r.entered }

def remove [DecidableEq ι] (r : Roster ι) (k : ι) : Roster ι :=
  { r with present := r.present.filter fun j => j ≠ k, removed := k :: r.removed }

def renew (r : Roster ι) (k : ι) : Roster ι :=
  { r with entered := k :: r.entered, removed := k :: r.removed }

variable {r : Roster ι} {j k : ι}

/-- The key was there at the start and was not removed. -/
def Stayed (r : Roster ι) (k : ι) : Prop := k ∈ r.start ∧ k ∉ r.removed

instance [DecidableEq ι] (r : Roster ι) (k : ι) : Decidable (r.Stayed k) :=
  inferInstanceAs (Decidable (_ ∧ _))

/-- What holds where keys are entered only when they are not present. -/
structure Sound (r : Roster ι) : Prop where
  absent : ∀ k, k ∉ r.present → ¬ r.Stayed k
  entered : ∀ k ∈ r.entered, ¬ r.Stayed k
  present : ∀ k ∈ r.present, k ∉ r.entered → r.Stayed k

theorem sound_begin (keys : List ι) : (begin keys).Sound where
  absent _ hk hs := hk hs.1
  entered _ hk := absurd hk List.not_mem_nil
  present _ hk _ := ⟨hk, List.not_mem_nil⟩

theorem Sound.enter (h : r.Sound) (hk : k ∉ r.present) : (r.enter k).Sound where
  absent _ hj := h.absent _ fun hp => hj (List.mem_cons_of_mem _ hp)
  entered _ hj := by
    rcases List.mem_cons.mp hj with rfl | hj
    · exact h.absent _ hk
    · exact h.entered _ hj
  present j hj hn := by
    have hjk : j ≠ k := fun he => hn (he ▸ List.mem_cons_self)
    exact h.present j ((List.mem_cons.mp hj).resolve_left hjk)
      fun he => hn (List.mem_cons_of_mem _ he)

theorem Sound.remove [DecidableEq ι] (h : r.Sound) (k : ι) : (r.remove k).Sound where
  absent j hj hs := by
    have hjk : j ≠ k := fun he => hs.2 (he ▸ List.mem_cons_self)
    refine h.absent j (fun hp => hj ?_) ⟨hs.1, fun hr => hs.2 (List.mem_cons_of_mem _ hr)⟩
    exact List.mem_filter.mpr ⟨hp, decide_eq_true hjk⟩
  entered j hj hs := h.entered j hj ⟨hs.1, fun hr => hs.2 (List.mem_cons_of_mem _ hr)⟩
  present j hj hn := by
    obtain ⟨hp, hjk⟩ := List.mem_filter.mp hj
    obtain ⟨hs, hr⟩ := h.present j hp hn
    have hjk : j ≠ k := by simpa using hjk
    exact ⟨hs, fun hm => (List.mem_cons.mp hm).elim hjk hr⟩

theorem Sound.renew (h : r.Sound) (k : ι) : (r.renew k).Sound where
  absent j hj hs := h.absent j hj ⟨hs.1, fun hr => hs.2 (List.mem_cons_of_mem _ hr)⟩
  entered j hj hs := by
    rcases List.mem_cons.mp hj with rfl | hj
    · exact hs.2 List.mem_cons_self
    · exact h.entered j hj ⟨hs.1, fun hr => hs.2 (List.mem_cons_of_mem _ hr)⟩
  present j hj hn := by
    obtain ⟨hjk, hn⟩ := not_or.mp (mt List.mem_cons.mpr hn)
    obtain ⟨hs, hr⟩ := h.present j hj hn
    exact ⟨hs, fun hm => (List.mem_cons.mp hm).elim hjk hr⟩

/-- A key that is present has stayed exactly when it was not entered since the start. -/
theorem Sound.stayed_iff (h : r.Sound) (hk : k ∈ r.present) : r.Stayed k ↔ k ∉ r.entered :=
  ⟨fun hs he => h.entered k he hs, h.present k hk⟩

end Roster

end Ztk.Lib
