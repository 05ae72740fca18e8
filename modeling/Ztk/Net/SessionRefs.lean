import Ztk.Net.Session

/-!
# References to buffers

Who owns a reference to a buffer: a queued chunk, or somebody outside the queue
(the application, another session, a function that has not returned).  `Counted
held h nodes` says that the count of every live buffer is the number of its
owners, where `held` counts those outside.  The operations move references: a
chunk that is enqueued takes one over from outside (`Counted.congr`),
`ztk_buf_unref` gives one back (`Counted.unref`).
-/

namespace Ztk.Net

open Ztk.Lib Ztk.Util

/-- The chunk points to the buffer. -/
def OutChunk.points (c : OutChunk) (b : Nat) : Bool :=
  match c.payload with
  | .mem _ => false
  | .buf d => d == b

/-- The number of queued chunks that point to a buffer. -/
def refs (nodes : List (Nat × OutChunk)) (b : Nat) : Nat := nodes.countP fun n => n.2.points b

/-- One more reference from outside. -/
def bump (held : Nat → Nat) (b : Nat) : Nat → Nat := fun c => if c = b then held c + 1 else held c

/-- The references to the live buffers are counted. -/
structure Counted (held : Nat → Nat) (h : BufHeap) (nodes : List (Nat × OutChunk)) : Prop where
  count : ∀ b x, h.buf b = some x → x.refcnt = held b + refs nodes b ∧
    0 < held b + refs nodes b ∧ x.len ≤ x.cap
  live : ∀ b, 0 < held b + refs nodes b → ∃ x, h.buf b = some x
  fresh : ∀ b, h.next ≤ b → h.buf b = none

@[simp] theorem bump_self (held : Nat → Nat) (b : Nat) : bump held b b = held b + 1 := by
  simp [bump]

theorem bump_of_ne (held : Nat → Nat) {b c : Nat} (h : c ≠ b) : bump held b c = held c := by
  simp [bump, h]

namespace Counted

variable {held held' : Nat → Nat} {h : BufHeap} {nodes nodes' : List (Nat × OutChunk)}

/-- Only the number of owners matters. -/
theorem congr (hc : Counted held h nodes)
    (he : ∀ b, held' b + refs nodes' b = held b + refs nodes b) : Counted held' h nodes' where
  count := fun b x hx => by
    obtain ⟨h1, h2, h3⟩ := hc.count b x hx
    have := he b
    refine ⟨?_, by omega, h3⟩
    omega
  live := fun b hb => hc.live b (by rw [← he b]; exact hb)
  fresh := hc.fresh

/-- A reference from outside. -/
theorem live_ext (hc : Counted held h nodes) {b : Nat} (hb : 0 < held b) :
    ∃ x, h.buf b = some x :=
  hc.live b (by omega)

theorem lt_next (hc : Counted held h nodes) {b : Nat} {x : Buf} (hx : h.buf b = some x) :
    b < h.next := by
  by_contra hn
  rw [hc.fresh b (Nat.le_of_not_lt hn)] at hx
  cases hx

/-- One buffer changes, with the references to it from outside. -/
theorem update (hc : Counted held h nodes) {b next : Nat} {o : Option Buf} (hlt : b < next)
    (hle : h.next ≤ next) (hheld : ∀ c, c ≠ b → held' c = held c)
    (hcount : ∀ x, o = some x → x.refcnt = held' b + refs nodes b ∧
      0 < held' b + refs nodes b ∧ x.len ≤ x.cap)
    (hlive : 0 < held' b + refs nodes b → ∃ x, o = some x) :
    Counted held' ⟨Function.update h.buf b o, next⟩ nodes where
  count := fun c y hy => by
    by_cases hcb : c = b
    · subst hcb
      simp only [Function.update_self] at hy
      exact hcount y hy
    · rw [hheld c hcb]
      exact hc.count c y ((Function.update_of_ne hcb ..).symm.trans hy)
  live := fun c hp => by
    by_cases hcb : c = b
    · subst hcb
      obtain ⟨x, hx⟩ := hlive hp
      exact ⟨x, (Function.update_self ..).trans hx⟩
    · rw [hheld c hcb] at hp
      obtain ⟨x, hx⟩ := hc.live c hp
      exact ⟨x, (Function.update_of_ne hcb ..).trans hx⟩
  fresh := fun c hn => by
    have hcb : c ≠ b := (Nat.lt_of_lt_of_le hlt hn).ne'
    exact (Function.update_of_ne hcb ..).trans (hc.fresh c (hle.trans hn))

theorem ref (hc : Counted held h nodes) {b : Nat} {x : Buf} (hx : h.buf b = some x) :
    Counted (bump held b) (h.bufRef b) nodes := by
  obtain ⟨h1, h2, h3⟩ := hc.count b x hx
  refine hc.update (hc.lt_next hx) (Nat.le_refl _) (fun c => bump_of_ne held) ?_ fun _ => ?_
  · intro y hy
    rw [hx, Option.map_some] at hy
    cases hy
    refine ⟨?_, by rw [bump_self]; omega, h3⟩
    rw [bump_self]
    show x.refcnt + 1 = _
    omega
  · rw [hx]
    exact ⟨_, rfl⟩

theorem bufUnref_of_ne (h : BufHeap) {b c : Nat} (hcb : c ≠ b) :
    (h.bufUnref b).buf c = h.buf c := by
  simp only [BufHeap.bufUnref]
  split
  · rfl
  · split
    · simp [hcb]
    · exact BufHeap.modify_of_ne _ _ hcb

/-- The buffer itself after its count went down. -/
theorem unref_self (hc : Counted (bump held b) h nodes) :
    ∃ x, h.buf b = some x ∧ x.len ≤ x.cap ∧ (h.bufUnref b).buf b =
      if held b + refs nodes b = 0 then none else some { x with refcnt := x.refcnt - 1 } := by
  obtain ⟨x, hx⟩ := hc.live b (by rw [bump_self]; omega)
  obtain ⟨h1, -, h3⟩ := hc.count b x hx
  rw [bump_self] at h1
  refine ⟨x, hx, h3, ?_⟩
  simp only [BufHeap.bufUnref, hx]
  by_cases hz : held b + refs nodes b = 0
  · rw [if_pos hz, if_pos (by omega)]
    simp
  · rw [if_neg hz, if_neg (by omega), BufHeap.modify_self, hx]
    rfl

theorem unref (hc : Counted (bump held b) h nodes) : Counted held (h.bufUnref b) nodes := by
  obtain ⟨x, hx, hlen, hself⟩ := hc.unref_self
  obtain ⟨h1, -, -⟩ := hc.count b x hx
  rw [bump_self] at h1
  have hheap : h.bufUnref b = ⟨Function.update h.buf b ((h.bufUnref b).buf b), h.next⟩ := by
    rw [hself]
    simp only [BufHeap.bufUnref, hx]
    by_cases hz : held b + refs nodes b = 0
    · rw [if_pos hz, if_pos (by omega)]
    · rw [if_neg hz, if_neg (by omega), BufHeap.modify, hx]
      rfl
  rw [hheap]
  refine hc.update (hc.lt_next hx) (Nat.le_refl _) (fun c hcb => (bump_of_ne held hcb).symm) ?_ ?_
  · intro y hy
    rw [hself] at hy
    obtain ⟨hz, hy⟩ := Option.ite_none_left_eq_some.mp hy
    cases hy
    refine ⟨?_, by omega, hlen⟩
    show x.refcnt - 1 = _
    omega
  · intro hp
    rw [hself, if_neg (by omega)]
    exact ⟨_, rfl⟩

/-- The contents of a buffer that is still owned survive. -/
theorem unref_data (hc : Counted (bump held b) h nodes) {c : Nat} (hp : 0 < held c + refs nodes c) :
    (h.bufUnref b).bufData c = h.bufData c := by
  by_cases hcb : c = b
  · subst hcb
    obtain ⟨x, hx, -, hself⟩ := hc.unref_self
    rw [BufHeap.bufData, BufHeap.bufData, hself, hx, if_neg (by omega)]
    rfl
  · rw [BufHeap.bufData, BufHeap.bufData, bufUnref_of_ne h hcb]

theorem ref_data (h : BufHeap) (b c : Nat) : (h.bufRef b).bufData c = h.bufData c := by
  by_cases hcb : c = b
  · subst hcb
    rw [BufHeap.bufData, BufHeap.bufData, BufHeap.bufRef, BufHeap.modify_self]
    cases h.buf c <;> rfl
  · rw [BufHeap.bufData, BufHeap.bufData, BufHeap.bufRef, BufHeap.modify_of_ne _ _ hcb]

/-- A buffer with an owner is not the next one. -/
theorem ne_next (hc : Counted held h nodes) {c : Nat} (hp : 0 < held c + refs nodes c) :
    c ≠ h.next := by
  rintro rfl
  obtain ⟨x, hx⟩ := hc.live _ hp
  rw [hc.fresh _ (Nat.le_refl _)] at hx
  cases hx

/-- A new buffer has one owner. -/
theorem alloc (hc : Counted held h nodes) {x : Buf} (hr : x.refcnt = 1) (hl : x.len ≤ x.cap) :
    Counted (bump held h.next) ⟨Function.update h.buf h.next (some x), h.next + 1⟩ nodes := by
  have hz : held h.next + refs nodes h.next = 0 := by
    by_contra hne
    exact hc.ne_next (Nat.pos_of_ne_zero hne) rfl
  refine hc.update (Nat.lt_succ_self _) (Nat.le_succ _) (fun c => bump_of_ne held) ?_ fun _ => ⟨x, rfl⟩
  intro y hy
  cases hy
  exact ⟨by rw [bump_self, hr]; omega, by rw [bump_self]; omega, hl⟩

/-- Writing to a buffer moves no reference. -/
theorem modify (hc : Counted held h nodes) (b : Nat) {f : Buf → Buf}
    (hf : ∀ x, x.len ≤ x.cap → (f x).refcnt = x.refcnt ∧ (f x).len ≤ (f x).cap) :
    Counted held (h.modify b f) nodes := by
  cases hx : h.buf b with
  | none =>
      have hsame : h.modify b f = h := by
        rw [BufHeap.modify, hx, Option.map_none, ← hx, Function.update_eq_self]
      rw [hsame]
      exact hc
  | some x =>
      obtain ⟨h1, h2, h3⟩ := hc.count b x hx
      refine hc.update (hc.lt_next hx) (Nat.le_refl _) (fun _ _ => rfl) ?_ fun _ => ?_
      · intro y hy
        rw [hx, Option.map_some] at hy
        cases hy
        exact ⟨(hf x h3).1.trans h1, h2, (hf x h3).2⟩
      · rw [hx]
        exact ⟨_, rfl⟩

theorem memcpy (hc : Counted held h nodes) (b : Nat) (data : List UInt8) :
    Counted held (h.memcpy b data) nodes := by
  refine hc.modify b fun x hx => ⟨rfl, ?_⟩
  show x.len ≤ (data ++ x.data.drop data.length).length
  rw [List.length_append, List.length_drop]
  have : x.len ≤ x.data.length := hx
  omega

theorem bufSetLen (hc : Counted held h nodes) (b len : Nat) :
    Counted held (h.bufSetLen b len) nodes := by
  refine hc.modify b fun x hx => ?_
  split
  · exact ⟨rfl, hx⟩
  · next hl => exact ⟨rfl, Nat.le_of_not_lt hl⟩

end Counted

end Ztk.Net
