import Mathlib

/-!
# Binary heaps as arrays

The keys of an array-based binary heap, as a function from positions to a
linear order.  The parent of position `i` is `(i - 1) / 2`.

`Ordered` is the heap property below a bound.  Sifting works on arrays that are
ordered but for one position.  `UpTo i` allows the edge into `i` to be wrong,
`DownFrom i` the edges out of `i`, and `Hole i` both.  All three ask that the
children of `i` are not below the parent of `i`, which is what makes one swap
move the defect instead of creating a second one.
-/

namespace Ztk.Lib.BinaryHeap

variable {β : Type} [LinearOrder β]

/-- The parent of a position. -/
def parent (i : Nat) : Nat := (i - 1) / 2

theorem parent_lt {i : Nat} (h : 0 < i) : parent i < i := by
  simp only [parent]
  omega

/-- No key is below the key of its parent. -/
def Ordered (key : Nat → β) (n : Nat) : Prop :=
  ∀ j, 0 < j → j < n → key (parent j) ≤ key j

/-- The children of `i` are not below the parent of `i`. -/
def Bridged (key : Nat → β) (n i : Nat) : Prop :=
  0 < i → ∀ j, 0 < j → j < n → parent j = i → key (parent i) ≤ key j

/-- Ordered but for the edge into `i`. -/
structure UpTo (key : Nat → β) (n i : Nat) : Prop where
  edge : ∀ j, 0 < j → j < n → j ≠ i → key (parent j) ≤ key j
  bridged : Bridged key n i

/-- Ordered but for the edges out of `i`. -/
structure DownFrom (key : Nat → β) (n i : Nat) : Prop where
  edge : ∀ j, 0 < j → j < n → parent j ≠ i → key (parent j) ≤ key j
  bridged : Bridged key n i

/-- Ordered but for the edges at `i`. -/
structure Hole (key : Nat → β) (n i : Nat) : Prop where
  edge : ∀ j, 0 < j → j < n → j ≠ i → parent j ≠ i → key (parent j) ≤ key j
  bridged : Bridged key n i

variable {key : Nat → β} {n i : Nat}

/-- The root has a least key. -/
theorem Ordered.root_le (h : Ordered key n) : ∀ j, j < n → key 0 ≤ key j := by
  intro j
  induction j using Nat.strongRecOn with
  | ind j ih =>
      intro hj
      by_cases h0 : j = 0
      · rw [h0]
      · have hp : parent j < j := parent_lt (Nat.pos_of_ne_zero h0)
        exact le_trans (ih (parent j) hp (by omega)) (h j (Nat.pos_of_ne_zero h0) hj)

theorem Ordered.hole (h : Ordered key n) (hi : i < n) : Hole key n i where
  edge := fun j hj hn _ _ => h j hj hn
  bridged := by
    intro hi0 j hj hn hp
    have hij := h j hj hn
    rw [hp] at hij
    exact le_trans (h i hi0 hi) hij

theorem Ordered.upTo (h : Ordered key n) (hi : i < n) : UpTo key n i :=
  ⟨fun j hj hn _ => h j hj hn, (h.hole hi).bridged⟩

/-- The key at the hole does not matter. -/
theorem Hole.congr {key' : Nat → β} (h : Hole key n i) (hk : ∀ j, j < n → j ≠ i → key' j = key j) :
    Hole key' n i where
  edge := by
    intro j hj hn hne hp
    have hpn : parent j < n := Nat.lt_trans (parent_lt hj) hn
    rw [hk j hn hne, hk _ hpn hp]
    exact h.edge j hj hn hne hp
  bridged := by
    intro hi0 j hj hn hp
    have hlt : i < j := hp ▸ parent_lt hj
    have hpi : parent i < i := parent_lt hi0
    rw [hk j hn (by omega), hk _ (by omega) (by omega)]
    exact h.bridged hi0 j hj hn hp

/-- A hole at the end is no defect of the shorter array. -/
theorem Hole.dropLast (h : Hole key (n + 1) n) : Ordered key n := by
  intro j hj hn
  have hp : parent j < j := parent_lt hj
  exact h.edge j hj (by omega) (by omega) (by omega)

theorem Hole.shrink (h : Hole key (n + 1) i) : Hole key n i :=
  ⟨fun j hj hn => h.edge j hj (by omega), fun hi0 j hj hn => h.bridged hi0 j hj (by omega)⟩

/-- A hole whose key is not below its parent is a defect downwards only. -/
theorem Hole.downFrom (h : Hole key n i) (hle : 0 < i → key (parent i) ≤ key i) :
    DownFrom key n i where
  edge := by
    intro j hj hn hp
    by_cases hji : j = i
    · subst hji
      exact hle hj
    · exact h.edge j hj hn hji hp
  bridged := h.bridged

/-- A hole whose key is below its parent is a defect upwards only. -/
theorem Hole.upTo (h : Hole key n i) (hi0 : 0 < i) (hlt : key i < key (parent i)) :
    UpTo key n i where
  edge := by
    intro j hj hn hji
    by_cases hp : parent j = i
    · rw [hp]
      exact le_trans (le_of_lt hlt) (h.bridged hi0 j hj hn hp)
    · exact h.edge j hj hn hji hp
  bridged := h.bridged

/-! ## Sifting up -/

theorem UpTo.ordered (h : UpTo key n i) (hle : 0 < i → key (parent i) ≤ key i) :
    Ordered key n := by
  intro j hj hn
  by_cases hji : j = i
  · subst hji
    exact hle hj
  · exact h.edge j hj hn hji

/-- Swapping a key with its greater parent moves the defect to the parent. -/
theorem UpTo.swap (h : UpTo key n i) (hi0 : 0 < i) (hi : i < n) (hlt : key i < key (parent i)) :
    UpTo (key ∘ Equiv.swap (parent i) i) n (parent i) := by
  have hpi : parent i < i := parent_lt hi0
  have hp' : (key ∘ Equiv.swap (parent i) i) (parent i) = key i := by
    simp [Equiv.swap_apply_left]
  have hi' : (key ∘ Equiv.swap (parent i) i) i = key (parent i) := by
    simp [Equiv.swap_apply_right]
  have ho : ∀ k, k ≠ parent i → k ≠ i → (key ∘ Equiv.swap (parent i) i) k = key k := by
    intro k hk hk'
    simp [Equiv.swap_apply_of_ne_of_ne hk hk']
  constructor
  · intro j hj hn hjp
    by_cases hji : j = i
    · subst hji
      rw [hp', hi']
      exact le_of_lt hlt
    · rw [ho j hjp hji]
      by_cases hpp : parent j = parent i
      · -- the other child of the parent
        rw [hpp, hp']
        have := h.edge j hj hn hji
        rw [hpp] at this
        exact le_trans (le_of_lt hlt) this
      · by_cases hpj : parent j = i
        · rw [hpj, hi']
          exact h.bridged hi0 j hj hn hpj
        · rw [ho _ hpp hpj]
          exact h.edge j hj hn hji
  · intro hp0 j hj hn hjp
    have hpp : parent (parent i) < parent i := parent_lt hp0
    have hup : key (parent (parent i)) ≤ key (parent i) :=
      h.edge (parent i) hp0 (by omega) (by omega)
    rw [ho _ (by omega) (by omega)]
    by_cases hji : j = i
    · subst hji
      rw [hi']
      exact hup
    · have hjlt : parent i < j := hjp ▸ parent_lt hj
      rw [ho j (by omega) hji]
      have := h.edge j hj hn hji
      rw [hjp] at this
      exact le_trans hup this

/-! ## Sifting down -/

theorem DownFrom.ordered (h : DownFrom key n i)
    (hle : ∀ j, 0 < j → j < n → parent j = i → key i ≤ key j) : Ordered key n := by
  intro j hj hn
  by_cases hp : parent j = i
  · rw [hp]
    exact hle j hj hn hp
  · exact h.edge j hj hn hp

/-- Swapping a key with its least child moves the defect to the child. -/
theorem DownFrom.swap {c : Nat} (h : DownFrom key n i) (hc0 : 0 < c) (hc : c < n)
    (hpc : parent c = i) (hlt : key c < key i)
    (hmin : ∀ j, 0 < j → j < n → parent j = i → key c ≤ key j) :
    DownFrom (key ∘ Equiv.swap i c) n c := by
  have hic : i < c := hpc ▸ parent_lt hc0
  have hi' : (key ∘ Equiv.swap i c) i = key c := by simp [Equiv.swap_apply_left]
  have hc' : (key ∘ Equiv.swap i c) c = key i := by simp [Equiv.swap_apply_right]
  have ho : ∀ k, k ≠ i → k ≠ c → (key ∘ Equiv.swap i c) k = key k := by
    intro k hk hk'
    simp [Equiv.swap_apply_of_ne_of_ne hk hk']
  constructor
  · intro j hj hn hp
    by_cases hpi : parent j = i
    · rw [hpi, hi']
      by_cases hjc : j = c
      · subst hjc
        rw [hc']
        exact le_of_lt hlt
      · have hij : i < j := hpi ▸ parent_lt hj
        rw [ho j (by omega) hjc]
        exact hmin j hj hn hpi
    · rw [ho _ hpi hp]
      by_cases hji : j = i
      · subst hji
        rw [hi']
        exact h.bridged hj c hc0 hc hpc
      · have hjc : j ≠ c := fun he => hpi (he ▸ hpc)
        rw [ho j hji hjc]
        exact h.edge j hj hn hpi
  · intro _ j hj hn hp
    have hcj : c < j := hp ▸ parent_lt hj
    rw [hpc, hi', ho j (by omega) (by omega)]
    have := h.edge j hj hn (by omega)
    rw [hp] at this
    exact this

end Ztk.Lib.BinaryHeap
