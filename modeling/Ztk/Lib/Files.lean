import Mathlib

/-!
# Files by name

A directory maps names to contents.  `rename` replaces its target and fails without effect
where there is no source; `openAppend` creates the file if it is not there.

*Numbered names.*  For a family of distinct names, `Shelved name fs files` says that the
files of these names hold the list `files`, from number 0 on, with no gap.  Renaming number
`k - 1` to `k`, then `k - 2` to `k - 1`, down to 0 to 1, moves every file one place up and
drops what stood at `k` (`Shelved.shift`).
-/

namespace Ztk.Lib

variable {ν α : Type} [DecidableEq ν]

/-- The contents of the files by their names. -/
abbrev Files (ν α : Type) := ν → Option (List α)

namespace Files

/-- `rename`. -/
def rename (fs : Files ν α) (old new : ν) : Files ν α :=
  match fs old with
  | none => fs
  | some c => Function.update (Function.update fs old none) new (some c)

/-- `fopen` for appending. -/
def openAppend (fs : Files ν α) (p : ν) : Files ν α :=
  match fs p with
  | none => Function.update fs p (some [])
  | some _ => fs

/-- A write at the end of a file. -/
def append (fs : Files ν α) (p : ν) (cs : List α) : Files ν α :=
  Function.update fs p (some ((fs p).getD [] ++ cs))

/-- Each of the files below `k` is renamed to the next number, the last one first. -/
def shift (name : Nat → ν) : Nat → Files ν α → Files ν α
  | 0, fs => fs
  | k + 1, fs => shift name k (fs.rename (name k) (name (k + 1)))

/-- What the files up to `k` hold, the last one first. -/
def contents (name : Nat → ν) (fs : Files ν α) : Nat → List α
  | 0 => (fs (name 0)).getD []
  | k + 1 => (fs (name (k + 1))).getD [] ++ contents name fs k

/-- The files of these names, by number. -/
def Shelved (name : Nat → ν) (fs : Files ν α) (files : List (List α)) : Prop :=
  ∀ i, fs (name i) = files[i]?

variable {fs : Files ν α} {name : Nat → ν} {files : List (List α)} {k : Nat}

theorem rename_of_none {old new : ν} (h : fs old = none) : fs.rename old new = fs := by
  simp only [rename, h]

theorem rename_target {old new : ν} {c : List α} (h : fs old = some c) :
    fs.rename old new new = some c := by
  simp only [rename, h, Function.update_self]

theorem rename_source {old new : ν} {c : List α} (h : fs old = some c) (hne : old ≠ new) :
    fs.rename old new old = none := by
  simp only [rename, h]
  rw [Function.update_of_ne hne, Function.update_self]

theorem rename_other {old new p : ν} (hold : p ≠ old) (hnew : p ≠ new) :
    fs.rename old new p = fs p := by
  cases h : fs old with
  | none => rw [rename_of_none h]
  | some c =>
      simp only [rename, h]
      rw [Function.update_of_ne hnew, Function.update_of_ne hold]

/-- The names of a family below and at `k` are touched, and no others. -/
theorem shift_other {p : ν} (h : ∀ i ≤ k, p ≠ name i) (fs : Files ν α) :
    shift name k fs p = fs p := by
  induction k generalizing fs with
  | zero => rfl
  | succ k ih =>
      rw [shift, ih fun i hi => h i (Nat.le_succ_of_le hi)]
      exact rename_other (h k (Nat.le_succ k)) (h (k + 1) (Nat.le_refl _))

/-- A directory where the first `k` numbers have what a list has, and the next one is to be
replaced. -/
theorem shift_apply (hinj : Function.Injective name) {c : Nat → Option (List α)}
    (hk : c k = none → fs (name (k + 1)) = none) (hfs : ∀ i ≤ k, fs (name i) = c i) :
    shift name (k + 1) fs (name 0) = none ∧
      ∀ i ≤ k, shift name (k + 1) fs (name (i + 1)) = c i := by
  induction k generalizing fs with
  | zero =>
      have h0 := hfs 0 (Nat.le_refl 0)
      cases hc0 : c 0 with
      | none =>
          rw [hc0] at h0
          rw [shift, shift, rename_of_none h0]
          refine ⟨h0, fun i hi => ?_⟩
          rw [Nat.le_zero.mp hi, hc0]
          exact hk hc0
      | some x =>
          rw [hc0] at h0
          rw [shift, shift]
          refine ⟨rename_source h0 (hinj.ne Nat.zero_ne_one), fun i hi => ?_⟩
          rw [Nat.le_zero.mp hi, hc0]
          exact rename_target h0
  | succ k ih =>
      have hlast := hfs (k + 1) (Nat.le_refl _)
      have hne : name (k + 1) ≠ name (k + 2) := hinj.ne (Nat.ne_of_lt (Nat.lt_succ_self _))
      -- the last file makes room for the one before it, and is where it belongs from then on
      have hmoved : fs.rename (name (k + 1)) (name (k + 2)) (name (k + 1)) = none ∧
          fs.rename (name (k + 1)) (name (k + 2)) (name (k + 2)) = c (k + 1) := by
        cases hck : c (k + 1) with
        | none =>
            rw [hck] at hlast
            rw [rename_of_none hlast]
            exact ⟨hlast, hk hck⟩
        | some x =>
            rw [hck] at hlast
            exact ⟨rename_source hlast hne, rename_target hlast⟩
      have hbelow : ∀ i ≤ k, fs.rename (name (k + 1)) (name (k + 2)) (name i) = c i := by
        intro i hi
        rw [rename_other (hinj.ne (by omega)) (hinj.ne (by omega))]
        exact hfs i (Nat.le_succ_of_le hi)
      rw [shift]
      obtain ⟨hzero, hall⟩ := ih (fun _ => hmoved.1) hbelow
      refine ⟨hzero, fun i hi => ?_⟩
      rcases Nat.le_succ_iff.mp hi with hi | rfl
      · exact hall i hi
      · rw [shift_other fun i hi => hinj.ne (by omega)]
        exact hmoved.2

/-- The files one place up, with a new one in front, and none after number `k`. -/
theorem Shelved.shift (h : Shelved name fs files) (hinj : Function.Injective name) (hk : 0 < k)
    (hlen : files.length ≤ k + 1) :
    Shelved name ((Files.shift name k fs).openAppend (name 0)) ([] :: files.take k) := by
  obtain ⟨m, rfl⟩ := Nat.exists_eq_succ_of_ne_zero (Nat.ne_of_gt hk)
  obtain ⟨hzero, hup⟩ := shift_apply (k := m) (c := fun i => files[i]?) hinj
    (fun hm => by
      rw [h (m + 1)]
      exact List.getElem?_eq_none ((List.getElem?_eq_none_iff.mp hm).trans (Nat.le_succ m)))
    (fun i _ => h i)
  intro i
  simp only [openAppend, hzero]
  cases i with
  | zero => rw [Function.update_self, List.getElem?_cons_zero]
  | succ i =>
      rw [Function.update_of_ne (hinj.ne (Nat.succ_ne_zero i)), List.getElem?_cons_succ]
      rcases Nat.lt_or_ge i (m + 1) with hi | hi
      · rw [List.getElem?_take_of_lt hi]
        exact hup i (Nat.le_of_lt_succ hi)
      · rw [shift_other fun j hj => hinj.ne (by omega), h (i + 1),
          List.getElem?_eq_none (show files.length ≤ i + 1 by omega),
          List.getElem?_eq_none ((List.length_take_le (m + 1) files).trans hi)]

theorem Shelved.append {c : List α} (h : Shelved name fs (c :: files))
    (hinj : Function.Injective name) (x : List α) :
    Shelved name (fs.append (name 0) x) ((c ++ x) :: files) := by
  intro i
  rw [Files.append]
  cases i with
  | zero =>
      rw [Function.update_self, h 0]
      rfl
  | succ i =>
      rw [Function.update_of_ne (hinj.ne (Nat.succ_ne_zero i))]
      exact h (i + 1)

theorem Shelved.openAppend (h : Shelved name fs []) (hinj : Function.Injective name) :
    Shelved name (fs.openAppend (name 0)) [[]] := by
  intro i
  have h0 : fs (name 0) = none := h 0
  simp only [Files.openAppend, h0]
  cases i with
  | zero => rw [Function.update_self, List.getElem?_cons_zero]
  | succ i =>
      rw [Function.update_of_ne (hinj.ne (Nat.succ_ne_zero i))]
      exact h (i + 1)

omit [DecidableEq ν] in
theorem Shelved.contents_take (h : Shelved name fs files) (k : Nat) :
    contents name fs k = (files.take (k + 1)).reverse.flatten := by
  induction k with
  | zero =>
      rw [contents, h 0]
      cases files with
      | nil => rfl
      | cons c cs => simp
  | succ k ih =>
      rw [contents, ih, h (k + 1), List.take_add_one (i := k + 1), List.reverse_append,
        List.flatten_append]
      cases files[k + 1]? with
      | none => rfl
      | some c => simp

omit [DecidableEq ν] in
/-- The files on the shelf, the last one first. -/
theorem Shelved.contents (h : Shelved name fs files) (hlen : files.length ≤ k + 1) :
    contents name fs k = files.reverse.flatten := by
  rw [h.contents_take, List.take_of_length_le hlen]

end Files

end Ztk.Lib
