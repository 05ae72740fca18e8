import Ztk.Lib.Machine

/-!
# Reference locks

`reflock_t` of `wepoll.c`: a counter that keeps memory from being freed, and a call that
destroys it and waits until all other references are given back.  Each interlocked
operation on `state` is one step.

The keyed event is a rendezvous: `NtReleaseKeyedEvent` returns when another thread waits for
the same key, and lets it go on.  So the last `reflock_unref` and the waiting
`reflock_unref_and_destroy` meet, and nobody else is involved.

A thread may hold several references.  `failed` is set when an assertion does not hold.
-/

namespace Ztk.Wepoll

open Ztk.Lib

/-! ## The words -/

/-- `REFLOCK__REF`. -/
def reflockRef : BitVec 32 := 0x00000001

/-- `REFLOCK__REF_MASK`. -/
def reflockRefMask : BitVec 32 := 0x0fffffff

/-- `REFLOCK__DESTROY`. -/
def reflockDestroy : BitVec 32 := 0x10000000

/-- `REFLOCK__DESTROY_MASK`. -/
def reflockDestroyMask : BitVec 32 := 0xf0000000

/-- `REFLOCK__POISON`. -/
def reflockPoison : BitVec 32 := 0x300dead0

/-- A number of references, and whether the lock is being destroyed. -/
def reflockWord (destroying : Bool) (refs : Nat) : BitVec 32 :=
  BitVec.ofNat 32 (2 ^ 28 * destroying.toNat + refs)

section Words

variable {d : Bool} {n : Nat}

theorem reflockWord_ref : reflockWord d n + reflockRef = reflockWord d (n + 1) := by
  rw [reflockWord, reflockWord, ← Nat.add_assoc, BitVec.ofNat_add _ 1]
  rfl

theorem reflockWord_unref : reflockWord d (n + 1) - reflockRef = reflockWord d n := by
  rw [← reflockWord_ref, BitVec.add_sub_cancel]

theorem reflockWord_destroy :
    reflockWord false (n + 1) + (reflockDestroy - reflockRef) = reflockWord true n := by
  rw [reflockWord, reflockWord, show 2 ^ 28 * true.toNat + n = n + 1 + (2 ^ 28 - 1) from by
    simp only [Bool.toNat_true]; omega, BitVec.ofNat_add (n + 1)]
  simp only [Bool.toNat_false, Nat.mul_zero, Nat.zero_add]
  rfl

theorem toNat_reflockWord (h : n < 2 ^ 28) :
    (reflockWord d n).toNat = 2 ^ 28 * d.toNat + n := by
  have hd : d.toNat ≤ 1 := Bool.toNat_le d
  rw [reflockWord, BitVec.toNat_ofNat]
  exact Nat.mod_eq_of_lt (by omega)

/-- The upper four bits of a word. -/
theorem and_upper {a b m : Nat} (hb : b < 2 ^ 28) :
    (2 ^ 28 * a + b) &&& (2 ^ 28 * m) = 2 ^ 28 * (a &&& m) := by
  apply Nat.eq_of_testBit_eq
  intro i
  rw [Nat.testBit_and, Nat.testBit_two_pow_mul_add _ hb, Nat.testBit_two_pow_mul,
    Nat.testBit_two_pow_mul, Nat.testBit_and]
  by_cases hi : i < 28
  · rw [if_pos hi, decide_eq_false (Nat.not_le.mpr hi), Bool.false_and, Bool.false_and,
      Bool.and_false]
  · rw [if_neg hi, decide_eq_true (Nat.not_lt.mp hi), Bool.true_and, Bool.true_and]

/-- Fewer than `2 ^ 28` references leave the upper bits alone. -/
theorem reflockWord_destroyMask (h : n < 2 ^ 28) :
    reflockWord d n &&& reflockDestroyMask = if d then reflockDestroy else 0 := by
  apply BitVec.eq_of_toNat_eq
  rw [BitVec.toNat_and, toNat_reflockWord h,
    show reflockDestroyMask.toNat = 2 ^ 28 * 15 from rfl, and_upper h]
  cases d with
  | false => rfl
  | true => rfl

/-- The last reference is gone. -/
theorem reflockWord_eq_destroy (h : n < 2 ^ 28) :
    reflockWord d n = reflockDestroy ↔ d = true ∧ n = 0 := by
  rw [← BitVec.toNat_inj, toNat_reflockWord h, show reflockDestroy.toNat = 2 ^ 28 from rfl]
  cases d with
  | false =>
      simp only [Bool.toNat_false, Bool.false_eq_true, false_and, iff_false]
      omega
  | true =>
      simp only [Bool.toNat_true, true_and]
      omega

theorem reflockWord_refMask (h : n < 2 ^ 28) :
    reflockWord d n &&& reflockRefMask = BitVec.ofNat 32 n := by
  apply BitVec.eq_of_toNat_eq
  have hd : d.toNat ≤ 1 := Bool.toNat_le d
  rw [BitVec.toNat_and, toNat_reflockWord h,
    show reflockRefMask.toNat = 2 ^ 28 - 1 from rfl, Nat.and_two_pow_sub_one_eq_mod,
    BitVec.toNat_ofNat]
  omega

end Words

/-! ## State -/

/-- Where a thread is. -/
inductive ReflockPhase where
  /-- In none of the functions. -/
  | idle
  /-- In `reflock__signal_event`. -/
  | signalling
  /-- In `reflock__await_event`. -/
  | awaiting
  /-- Before `InterlockedExchange` of `reflock_unref_and_destroy`. -/
  | poisoning
deriving DecidableEq

/-- `reflock_t`, and the threads that use it. -/
structure Reflock where
  state : BitVec 32
  /-- The holder of each reference. -/
  owners : List Nat
  phase : Nat → ReflockPhase
  /-- The thread that called `reflock_unref_and_destroy`. -/
  destroyer : Option Nat
  /-- This call has returned. -/
  destroyed : Bool
  /-- An assertion did not hold. -/
  failed : Bool

namespace Reflock

/-- `reflock_init`. -/
def init : Reflock where
  state := 0
  owners := []
  phase _ := .idle
  destroyer := none
  destroyed := false
  failed := false

/-! ## The functions of the source -/

def goto (s : Reflock) (t : Nat) (p : ReflockPhase) : Reflock :=
  { s with phase := Function.update s.phase t p }

/-- `assert`. -/
def check (s : Reflock) (c : Bool) : Reflock := { s with failed := s.failed || !c }

/-- `reflock_ref`, where `InterlockedAdd` has returned `state`. -/
def refAdded (s : Reflock) (t : Nat) (state : BitVec 32) : Reflock :=
  { s with state := state, owners := t :: s.owners }.check (state &&& reflockDestroyMask = 0)

/-- `reflock_ref`. -/
def ref (s : Reflock) (t : Nat) : Reflock := s.refAdded t (s.state + reflockRef)

/-- `reflock_unref`, where `InterlockedAdd` has returned `state`, up to the event. -/
def unrefAdded (s : Reflock) (t : Nat) (state : BitVec 32) : Reflock :=
  let s := { s with state := state, owners := s.owners.erase t }.check
    (state &&& reflockDestroyMask &&& ~~~reflockDestroy = 0)
  if state = reflockDestroy then s.goto t .signalling else s

/-- `reflock_unref`, up to the event. -/
def unref (s : Reflock) (t : Nat) : Reflock := s.unrefAdded t (s.state - reflockRef)

/-- `reflock_unref_and_destroy`, where `InterlockedAdd` has returned `state`, up to the
event. -/
def destroyAdded (s : Reflock) (t : Nat) (state : BitVec 32) : Reflock :=
  let refCount := state &&& reflockRefMask
  let s := { s with state := state, owners := s.owners.erase t, destroyer := some t }.check
    (state &&& reflockDestroyMask = reflockDestroy)
  s.goto t (if refCount ≠ 0 then .awaiting else .poisoning)

/-- `reflock_unref_and_destroy`, up to the event. -/
def unrefAndDestroy (s : Reflock) (t : Nat) : Reflock :=
  s.destroyAdded t (s.state + (reflockDestroy - reflockRef))

/-- `NtReleaseKeyedEvent` of one thread and `NtWaitForKeyedEvent` of another return. -/
def meet (s : Reflock) (t u : Nat) : Reflock := (s.goto t .idle).goto u .poisoning

/-- The end of `reflock_unref_and_destroy`. -/
def poison (s : Reflock) (t : Nat) : Reflock :=
  ({ s.goto t .idle with state := reflockPoison, destroyed := true }).check
    (s.state = reflockDestroy)

section Fields

variable {s : Reflock} {t u : Nat}

theorem unref_owners : (s.unref t).owners = s.owners.erase t := by
  rw [unref, unrefAdded]
  split
  · rfl
  · rfl

theorem unref_destroyer : (s.unref t).destroyer = s.destroyer := by
  rw [unref, unrefAdded]
  split
  · rfl
  · rfl

theorem unref_phase_of_ne (h : u ≠ t) : (s.unref t).phase u = s.phase u := by
  rw [unref, unrefAdded]
  split
  · exact Function.update_of_ne h ..
  · rfl

/-- `reflock_unref_and_destroy` waits unless the caller is alone. -/
theorem unrefAndDestroy_phase :
    (s.unrefAndDestroy t).phase t = .awaiting ∨ (s.unrefAndDestroy t).phase t = .poisoning := by
  have h : (s.unrefAndDestroy t).phase t =
      if s.state + (reflockDestroy - reflockRef) &&& reflockRefMask ≠ 0 then .awaiting
        else .poisoning := Function.update_self ..
  rw [h]
  split
  · exact Or.inl rfl
  · exact Or.inr rfl

theorem unrefAndDestroy_phase_of_ne (h : u ≠ t) : (s.unrefAndDestroy t).phase u = s.phase u :=
  Function.update_of_ne h ..

end Fields

end Reflock

/-! ## The machine -/

inductive ReflockAct where
  | ref (t : Nat)
  | unref (t : Nat)
  | unrefAndDestroy (t : Nat)
  /-- The event is released by one thread and awaited by another. -/
  | meet (t u : Nat)
  | poison (t : Nat)

def reflockStep (s : Reflock) : ReflockAct → Option Reflock
  | .ref t => if s.phase t = .idle then some (s.ref t) else none
  | .unref t => if s.phase t = .idle ∧ t ∈ s.owners then some (s.unref t) else none
  | .unrefAndDestroy t =>
      if s.phase t = .idle ∧ t ∈ s.owners then some (s.unrefAndDestroy t) else none
  | .meet t u =>
      if s.phase t = .signalling ∧ s.phase u = .awaiting then some (s.meet t u) else none
  | .poison t => if s.phase t = .poisoning then some (s.poison t) else none

/-- A reference lock and its threads as a machine. -/
def reflockMachine : Machine Reflock ReflockAct := ⟨reflockStep⟩

/-- The use that the comment on `reflock_t` asks for: nobody takes a reference, or destroys
the lock a second time, after `reflock_unref_and_destroy` was called; the caller gives its
only reference; and the references fit the counter. -/
def ReflockUse (s : Reflock) : ReflockAct → Prop
  | .ref _ => s.destroyer = none ∧ s.owners.length + 1 < 2 ^ 28
  | .unrefAndDestroy t => s.destroyer = none ∧ t ∉ s.owners.erase t
  | .unref _ | .meet _ _ | .poison _ => True

instance (s : Reflock) (a : ReflockAct) : Decidable (ReflockUse s a) :=
  match a with
  | .ref _ => inferInstanceAs (Decidable (s.destroyer = none ∧ s.owners.length + 1 < 2 ^ 28))
  | .unrefAndDestroy t => inferInstanceAs (Decidable (s.destroyer = none ∧ t ∉ s.owners.erase t))
  | .unref _ | .meet _ _ | .poison _ => isTrue trivial

/-! ## The invariant -/

/-- The stages of a lock. -/
inductive ReflockStage (s : Reflock) : Prop where
  | alive (hd : s.destroyer = none) (hf : s.destroyed = false)
      (hw : s.state = reflockWord false s.owners.length) (hi : ∀ t, s.phase t = .idle)
  /-- Others hold references, and their last one will signal. -/
  | draining {d : Nat} (hd : s.destroyer = some d) (hf : s.destroyed = false)
      (hw : s.state = reflockWord true s.owners.length) (hne : s.owners ≠ [])
      (hdo : d ∉ s.owners) (hp : s.phase d = .awaiting) (hi : ∀ t, t ≠ d → s.phase t = .idle)
  /-- The last reference is given back. -/
  | signalled {d u : Nat} (hd : s.destroyer = some d) (hf : s.destroyed = false)
      (hw : s.state = reflockDestroy) (ho : s.owners = []) (hdu : d ≠ u)
      (hp : s.phase d = .awaiting) (hu : s.phase u = .signalling)
      (hi : ∀ t, t ≠ d → t ≠ u → s.phase t = .idle)
  /-- The destroyer knows that it is alone. -/
  | drained {d : Nat} (hd : s.destroyer = some d) (hf : s.destroyed = false)
      (hw : s.state = reflockDestroy) (ho : s.owners = []) (hp : s.phase d = .poisoning)
      (hi : ∀ t, t ≠ d → s.phase t = .idle)
  | destroyed {d : Nat} (hd : s.destroyer = some d) (hf : s.destroyed = true)
      (ho : s.owners = []) (hi : ∀ t, s.phase t = .idle)

/-- No assertion has failed, and the lock is in one of its stages. -/
structure ReflockInv (s : Reflock) : Prop where
  sound : s.failed = false
  few : s.owners.length < 2 ^ 28
  stage : ReflockStage s

namespace ReflockInv

variable {s : Reflock} {t u : Nat}

theorem init : ReflockInv .init where
  sound := rfl
  few := by decide
  stage := .alive rfl rfl rfl fun _ => rfl

/-- Only a lock that nobody destroys has no destroyer. -/
theorem alive (h : ReflockInv s) (hd : s.destroyer = none) :
    s.destroyed = false ∧ s.state = reflockWord false s.owners.length ∧ ∀ t, s.phase t = .idle := by
  cases h.stage with
  | alive _ hf hw hi => exact ⟨hf, hw, hi⟩
  | draining hd' | signalled hd' | drained hd' | destroyed hd' =>
      rw [hd] at hd'
      cases hd'

theorem refAdded (h : ReflockInv s) (hd : s.destroyer = none)
    (hfew : s.owners.length + 1 < 2 ^ 28) {w : BitVec 32}
    (hw : w = reflockWord false (s.owners.length + 1)) : ReflockInv (s.refAdded t w) := by
  obtain ⟨hf, -, hi⟩ := h.alive hd
  refine ⟨?_, hfew, .alive hd hf hw hi⟩
  show (s.failed || !decide (w &&& reflockDestroyMask = 0)) = false
  rw [h.sound, hw, reflockWord_destroyMask hfew]
  rfl

theorem ref (h : ReflockInv s) (hd : s.destroyer = none) (hfew : s.owners.length + 1 < 2 ^ 28) :
    ReflockInv (s.ref t) := by
  refine h.refAdded hd hfew ?_
  rw [(h.alive hd).2.1, reflockWord_ref]

/-- A reference that is held counts. -/
theorem length_erase {l : List Nat} (hm : t ∈ l) : l.length = (l.erase t).length + 1 := by
  have := List.length_erase_of_mem hm
  have := List.length_pos_of_mem hm
  omega

/-- The assertion of `reflock_unref`. -/
theorem unref_check {d : Bool} {n : Nat} (hn : n < 2 ^ 28) :
    reflockWord d n &&& reflockDestroyMask &&& ~~~reflockDestroy = 0 := by
  rw [reflockWord_destroyMask hn]
  cases d with
  | false => rfl
  | true => rfl

/-- Not the last reference, or nobody waits for it. -/
theorem unrefAdded_more (h : ReflockInv s) {d : Bool}
    (hn : (s.owners.erase t).length < 2 ^ 28) {w : BitVec 32}
    (hw : w = reflockWord d (s.owners.erase t).length) (hne : w ≠ reflockDestroy)
    (hstage : ReflockStage { s with state := w, owners := s.owners.erase t }) :
    ReflockInv (s.unrefAdded t w) := by
  simp only [Reflock.unrefAdded]
  rw [if_neg hne]
  have hsound : (s.failed || !decide
      (w &&& reflockDestroyMask &&& ~~~reflockDestroy = 0)) = false := by
    rw [h.sound, hw, unref_check hn]
    rfl
  refine ⟨hsound, hn, ?_⟩
  cases hstage with
  | alive hd hf hw hi => exact .alive hd hf hw hi
  | draining hd hf hw hne hdo hp hi => exact .draining hd hf hw hne hdo hp hi
  | signalled hd hf hw ho hdu hp hu hi => exact .signalled hd hf hw ho hdu hp hu hi
  | drained hd hf hw ho hp hi => exact .drained hd hf hw ho hp hi
  | destroyed hd hf ho hi => exact .destroyed hd hf ho hi

/-- The last reference to a lock that is being destroyed. -/
theorem unrefAdded_last (h : ReflockInv s) {d : Nat} (hd : s.destroyer = some d)
    (hf : s.destroyed = false) (hdt : d ≠ t) (hp : s.phase d = .awaiting)
    (hi : ∀ v, v ≠ d → s.phase v = .idle) (ho : s.owners.erase t = []) {w : BitVec 32}
    (hw : w = reflockDestroy) : ReflockInv (s.unrefAdded t w) := by
  simp only [Reflock.unrefAdded]
  rw [if_pos hw]
  have hsound : (s.failed || !decide
      (w &&& reflockDestroyMask &&& ~~~reflockDestroy = 0)) = false := by
    rw [h.sound, hw]
    rfl
  refine ⟨hsound, ?_, .signalled hd hf hw ho hdt ?_ (Function.update_self ..) ?_⟩
  · show (s.owners.erase t).length < 2 ^ 28
    rw [ho]
    exact Nat.two_pow_pos 28
  · exact (Function.update_of_ne hdt ..).trans hp
  · intro v hv hvt
    exact (Function.update_of_ne hvt ..).trans (hi v hv)

theorem unref (h : ReflockInv s) (hm : t ∈ s.owners) : ReflockInv (s.unref t) := by
  have hfew := h.few
  have hlen := length_erase hm
  have hn : (s.owners.erase t).length < 2 ^ 28 := by omega
  have hnil : s.owners ≠ [] := List.ne_nil_of_mem hm
  cases h.stage with
  | alive hd hf hw hi =>
      have hw' : s.state - reflockRef = reflockWord false (s.owners.erase t).length := by
        rw [hw, hlen, reflockWord_unref]
      refine h.unrefAdded_more hn hw' ?_ (.alive hd hf hw' hi)
      rw [hw', Ne, reflockWord_eq_destroy hn]
      rintro ⟨⟨⟩, -⟩
  | @draining d hd hf hw hne hdo hp hi =>
      have hw' : s.state - reflockRef = reflockWord true (s.owners.erase t).length := by
        rw [hw, hlen, reflockWord_unref]
      have hlast : s.state - reflockRef = reflockDestroy ↔ s.owners.erase t = [] := by
        rw [hw', reflockWord_eq_destroy hn, List.length_eq_zero_iff]
        exact and_iff_right rfl
      by_cases ho : s.owners.erase t = []
      · exact h.unrefAdded_last hd hf (fun he => hdo (he ▸ hm)) hp hi ho (hlast.mpr ho)
      · exact h.unrefAdded_more hn hw' (fun he => ho (hlast.mp he))
          (.draining hd hf hw' ho (fun hm => hdo (List.mem_of_mem_erase hm)) hp hi)
  | signalled _ _ _ ho | drained _ _ _ ho | destroyed _ _ ho => exact absurd ho hnil

theorem destroyAdded (h : ReflockInv s) (hd : s.destroyer = none) (hone : t ∉ s.owners.erase t)
    (hn : (s.owners.erase t).length < 2 ^ 28) {w : BitVec 32}
    (hw : w = reflockWord true (s.owners.erase t).length) : ReflockInv (s.destroyAdded t w) := by
  obtain ⟨hf, -, hi⟩ := h.alive hd
  have hsound : (s.failed || !decide (w &&& reflockDestroyMask = reflockDestroy)) = false := by
    rw [h.sound, hw, reflockWord_destroyMask hn]
    rfl
  have hidle : ∀ p v, v ≠ t → Function.update s.phase t p v = .idle := fun p v hv =>
    (Function.update_of_ne hv ..).trans (hi v)
  have hcount : w &&& reflockRefMask = 0 ↔ s.owners.erase t = [] := by
    rw [hw, reflockWord_refMask hn, ← List.length_eq_zero_iff, ← BitVec.toNat_inj,
      BitVec.toNat_ofNat, Nat.mod_eq_of_lt (by omega)]
    rfl
  simp only [Reflock.destroyAdded]
  split
  · next hmore =>
      exact ⟨hsound, hn, .draining rfl hf hw (fun ho => hmore (hcount.mpr ho)) hone
        (Function.update_self ..) (hidle _)⟩
  · next hlast =>
      have ho : s.owners.erase t = [] := hcount.mp (not_not.mp hlast)
      rw [ho] at hw
      exact ⟨hsound, hn, .drained rfl hf hw ho (Function.update_self ..) (hidle _)⟩

theorem unrefAndDestroy (h : ReflockInv s) (hd : s.destroyer = none) (hm : t ∈ s.owners)
    (hone : t ∉ s.owners.erase t) : ReflockInv (s.unrefAndDestroy t) := by
  have hfew := h.few
  have hlen := length_erase hm
  refine h.destroyAdded hd hone (by omega) ?_
  rw [(h.alive hd).2.1, hlen, reflockWord_destroy]

theorem meet (h : ReflockInv s) (ht : s.phase t = .signalling) (hu : s.phase u = .awaiting) :
    ReflockInv (s.meet t u) := by
  refine ⟨h.sound, h.few, ?_⟩
  have hidle : ∀ {v p}, s.phase v = p → p ≠ .idle → (∀ w, s.phase w = .idle) → False :=
    fun hv hp hi => hp (hv ▸ hi _)
  cases h.stage with
  | alive _ _ _ hi | destroyed _ _ _ hi => exact (hidle ht (by rintro ⟨⟩) hi).elim
  | @draining d hd hf hw hne hdo hp hi =>
      have htd : t ≠ d := by
        rintro rfl
        rw [hp] at ht
        cases ht
      rw [hi t htd] at ht
      cases ht
  | @drained d hd hf hw ho hp hi =>
      have htd : t ≠ d := by
        rintro rfl
        rw [hp] at ht
        cases ht
      rw [hi t htd] at ht
      cases ht
  | @signalled d v hd hf hw ho hdv hp hv hi =>
      have htd : t ≠ d := by
        rintro rfl
        rw [hp] at ht
        cases ht
      have htv : t = v := by
        by_contra hne
        rw [hi t htd hne] at ht
        cases ht
      have hud : u = d := by
        by_contra hne
        by_cases huv : u = v
        · rw [huv, hv] at hu
          cases hu
        · rw [hi u hne huv] at hu
          cases hu
      subst htv
      subst hud
      refine .drained hd hf hw ho (Function.update_self ..) fun w hw' => ?_
      refine (Function.update_of_ne hw' ..).trans ?_
      by_cases hwt : w = t
      · rw [hwt]
        exact Function.update_self ..
      · exact (Function.update_of_ne hwt ..).trans (hi w hw' hwt)

/-- A thread is about to poison the lock only when it is alone with it. -/
theorem drained (h : ReflockInv s) (ht : s.phase t = .poisoning) :
    s.destroyer = some t ∧ s.state = reflockDestroy ∧ s.owners = [] ∧
      ∀ v, v ≠ t → s.phase v = .idle := by
  cases h.stage with
  | alive _ _ _ hi | destroyed _ _ _ hi =>
      rw [hi t] at ht
      cases ht
  | @draining d hd hf hw hne hdo hp hi =>
      by_cases htd : t = d
      · rw [htd, hp] at ht
        cases ht
      · rw [hi t htd] at ht
        cases ht
  | @signalled d v hd hf hw ho hdv hp hv hi =>
      by_cases htd : t = d
      · rw [htd, hp] at ht
        cases ht
      · by_cases htv : t = v
        · rw [htv, hv] at ht
          cases ht
        · rw [hi t htd htv] at ht
          cases ht
  | @drained d hd hf hw ho hp hi =>
      have htd : t = d := by
        by_contra hne
        rw [hi t hne] at ht
        cases ht
      subst htd
      exact ⟨hd, hw, ho, hi⟩

theorem poison (h : ReflockInv s) (ht : s.phase t = .poisoning) : ReflockInv (s.poison t) := by
  obtain ⟨hd, hw, ho, hi⟩ := h.drained ht
  refine ⟨?_, h.few, .destroyed hd rfl ho fun v => ?_⟩
  · show (s.failed || !decide (s.state = reflockDestroy)) = false
    rw [h.sound, hw]
    rfl
  · show Function.update s.phase t .idle v = .idle
    by_cases hv : v = t
    · rw [hv]
      exact Function.update_self ..
    · exact (Function.update_of_ne hv ..).trans (hi v hv)

theorem step (h : ReflockInv s) {a : ReflockAct} {s' : Reflock} (hc : ReflockUse s a)
    (hs : reflockStep s a = some s') : ReflockInv s' := by
  cases a with
  | ref t =>
      obtain ⟨-, hs⟩ := Option.ite_none_right_eq_some.mp hs
      cases hs
      exact h.ref hc.1 hc.2
  | unref t =>
      obtain ⟨⟨-, hm⟩, hs⟩ := Option.ite_none_right_eq_some.mp hs
      cases hs
      exact h.unref hm
  | unrefAndDestroy t =>
      obtain ⟨⟨-, hm⟩, hs⟩ := Option.ite_none_right_eq_some.mp hs
      rw [← Option.some.inj hs]
      exact h.unrefAndDestroy hc.1 hm hc.2
  | meet t u =>
      obtain ⟨⟨ht, hu⟩, hs⟩ := Option.ite_none_right_eq_some.mp hs
      cases hs
      exact h.meet ht hu
  | poison t =>
      obtain ⟨ht, hs⟩ := Option.ite_none_right_eq_some.mp hs
      cases hs
      exact h.poison ht

end ReflockInv

/-! ## What the lock promises -/

/-- A thread that waits in `reflock_unref_and_destroy` is let go by another one: some other
thread holds a reference and can give it back, or one is there to signal. -/
theorem ReflockInv.awaited {s : Reflock} {t : Nat} (h : ReflockInv s)
    (ht : s.phase t = .awaiting) :
    (∃ u ∈ s.owners, u ≠ t ∧ s.phase u = .idle) ∨ ∃ u, s.phase u = .signalling := by
  cases h.stage with
  | alive _ _ _ hi | destroyed _ _ _ hi =>
      rw [hi t] at ht
      cases ht
  | @draining d hd hf hw hne hdo hp hi =>
      have htd : t = d := by
        by_contra hne
        rw [hi t hne] at ht
        cases ht
      obtain ⟨u, hu⟩ := List.exists_mem_of_ne_nil _ hne
      have hud : u ≠ d := fun he => hdo (he ▸ hu)
      exact Or.inl ⟨u, hu, htd ▸ hud, hi u hud⟩
  | @signalled d u hd hf hw ho hdu hp hu hi => exact Or.inr ⟨u, hu⟩
  | @drained d hd hf hw ho hp hi =>
      by_cases htd : t = d
      · rw [htd, hp] at ht
        cases ht
      · rw [hi t htd] at ht
        cases ht

/-- In every run that keeps to the use of the lock no assertion fails; when
`reflock_unref_and_destroy` has returned no reference is left and no thread touches the lock any
more; and while it waits, another thread can still let it go on. -/
theorem reflock_destroy_is_last {s : Reflock} (h : reflockMachine.Leads ReflockUse .init s) :
    s.failed = false ∧
      (s.destroyed = true → s.owners = [] ∧ ∀ t, s.phase t = .idle) ∧
      ∀ t, s.phase t = .awaiting →
        (∃ u ∈ s.owners, u ≠ t ∧ s.phase u = .idle) ∨ ∃ u, s.phase u = .signalling := by
  have hi : ReflockInv s := h.invariant (fun _ _ _ hi hc hs => hi.step hc hs) .init
  refine ⟨hi.sound, fun hd => ?_, fun t ht => hi.awaited ht⟩
  cases hi.stage with
  | alive _ hf | draining _ hf | signalled _ hf | drained _ hf =>
      rw [hd] at hf
      cases hf
  | destroyed _ _ ho hidle => exact ⟨ho, hidle⟩

/-- Thread 1 destroys the lock while thread 2 holds a reference twice. -/
def reflockRun : List ReflockAct :=
  [.ref 1, .ref 2, .ref 2, .unref 2, .unrefAndDestroy 1, .unref 2, .meet 2 1, .poison 1]

theorem reflock_destroy_is_last_run :
    ∃ s, reflockMachine.Leads ReflockUse .init s ∧ s.destroyed = true ∧
      s.state = reflockPoison ∧ s.failed = false ∧ s.owners = [] := by
  obtain ⟨s, hs, hd, hw⟩ := Machine.exists_run (M := reflockMachine) (s := .init)
    (l := reflockRun) (P := fun s => s.destroyed = true ∧ s.state = reflockPoison) (by decide)
  have hl := Machine.leads_of_run (C := ReflockUse) reflockRun _ s hs (by decide)
  obtain ⟨hf, hlast, -⟩ := reflock_destroy_is_last hl
  exact ⟨s, hl, hd, hw, hf, (hlast hd).1⟩

end Ztk.Wepoll
