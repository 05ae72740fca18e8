import Mathlib

/-!
# Lists with a key for each entry

A list whose entries are told apart by a key: no key occurs twice.  A search by key
then finds the one entry that has it, a removal takes this entry out, and two
partial maps that keep the key give permutations of each other only when they
agree on every entry.
-/

namespace Ztk.Lib

variable {α β κ : Type} [DecidableEq κ] {key : α → κ} {l : List α}

/-- The search by key finds the entry. -/
theorem find?_key (h : (l.map key).Nodup) {a : α} (ha : a ∈ l) :
    l.find? (fun b => key b = key a) = some a := by
  cases hf : l.find? (fun b => key b = key a) with
  | none =>
      rw [List.find?_eq_none] at hf
      exact absurd (decide_eq_true rfl) (hf a ha)
  | some b =>
      have hb : key b = key a := by simpa using List.find?_some hf
      rw [List.inj_on_of_nodup_map h (List.mem_of_find?_eq_some hf) ha hb]

/-- The removal of the first entry with a key removes the key. -/
theorem eraseP_key (h : (l.map key).Nodup) (k : κ) :
    (l.eraseP fun a => key a = k) = l.filter fun a => key a ≠ k := by
  induction l with
  | nil => rfl
  | cons a as ih =>
      rw [List.map_cons, List.nodup_cons] at h
      by_cases ha : key a = k
      · rw [List.eraseP_cons_of_pos (by simpa using ha), List.filter_cons_of_neg (by simpa using ha)]
        symm
        rw [List.filter_eq_self]
        intro b hb
        refine decide_eq_true fun hk => h.1 ?_
        rw [ha, ← hk]
        exact List.mem_map_of_mem hb
      · rw [List.eraseP_cons_of_neg (by simpa using ha), List.filter_cons_of_pos (by simpa using ha),
          ih h.2]

omit [DecidableEq κ] in
/-- Partial maps that keep the key give the same entries, in some order, exactly when
they agree on every entry. -/
theorem filterMap_perm_iff (h : (l.map key).Nodup) {f g : α → Option β} (key' : β → κ)
    (hf : ∀ a b, f a = some b → key' b = key a) (hg : ∀ a b, g a = some b → key' b = key a) :
    (l.filterMap f).Perm (l.filterMap g) ↔ ∀ a ∈ l, f a = g a := by
  have hsame : ∀ {f g : α → Option β}, (∀ a b, f a = some b → key' b = key a) →
      (∀ a b, g a = some b → key' b = key a) → (l.filterMap f).Perm (l.filterMap g) →
      ∀ a ∈ l, ∀ b, f a = some b → g a = some b := by
    intro f g hf hg hp a ha b hb
    obtain ⟨a', ha', hb'⟩ := List.mem_filterMap.mp
      (hp.mem_iff.mp (List.mem_filterMap.mpr ⟨a, ha, hb⟩))
    have hk : key a' = key a := (hg a' b hb').symm.trans (hf a b hb)
    rwa [List.inj_on_of_nodup_map h ha' ha hk] at hb'
  constructor
  · intro hp a ha
    apply Option.ext
    intro b
    exact ⟨hsame hf hg hp a ha b, hsame hg hf hp.symm a ha b⟩
  · intro heq
    rw [List.filterMap_congr heq]

end Ztk.Lib
