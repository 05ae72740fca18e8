import Ztk.Lib.Machine
import Ztk.Net.Session

/-!
# The meter of the output queue

`out_pending` and the latch `out_highwater_hit` of a session, as a machine that
reads the history of the queue (`events`).  The meter accepts a history when
every change starts at the value the one before left, nothing is deducted that
is not there, and the high-water callback runs when the latch is clear and
`out_pending` reaches the mark.  A session is `Metered` when the meter accepts
its history and agrees with its fields.

Only an enqueue and `ztk_tcp_session_out_discard` clear the latch.  Bytes that
leave the queue do not.  So a crossing of the mark is heard exactly when one of
these two came after the crossing before it (`Metered.heard_iff_separated`).
-/

namespace Ztk.Net

open Ztk.Lib Ztk.Util

/-! ## The machine -/

/-- `out_pending` and `out_highwater_hit`. -/
structure Meter where
  pending : Nat
  hit : Bool

/-- A new session. -/
def Meter.start : Meter := ⟨0, false⟩

/-- The calls of the callback by an enqueue, for the high-water mark `H`. -/
def Meter.calls (H : Nat) (m : Meter) (after : Nat) : Nat :=
  if H ≠ 0 ∧ H ≤ after ∧ m.hit = false then 1 else 0

def Meter.step (H : Nat) (m : Meter) : OutEvent → Option Meter
  | .enqueue before after calls =>
      if before = m.pending ∧ before < after ∧ calls = m.calls H after then
        some ⟨after, if H = 0 then m.hit else decide (H ≤ after)⟩
      else none
  | .deduct pending amount =>
      if pending = m.pending ∧ amount ≤ pending then some ⟨pending - amount, m.hit⟩ else none
  | .discard => if m.pending = 0 then some .start else none

def meterMachine (H : Nat) : Machine Meter OutEvent := ⟨Meter.step H⟩

/-- The meter accepts the history of the session and agrees with it. -/
def Metered (s : Session) : Prop :=
  (meterMachine s.highwaterBytes).run .start s.events = some ⟨s.outPending, s.outHighwaterHit⟩

/-! ## What a session does to its meter -/

/-- Bytes leave the queue, and the branch that sets `out_pending` to 0 is not taken. -/
theorem Metered.deduct {s t : Session} {amount : Nat} (h : Metered s) (ha : amount ≤ s.outPending)
    (hH : t.highwaterBytes = s.highwaterBytes)
    (he : t.events = s.events ++ [.deduct s.outPending amount])
    (hp : t.outPending = if amount ≤ s.outPending then s.outPending - amount else 0)
    (hhit : t.outHighwaterHit = s.outHighwaterHit) : Metered t := by
  rw [Metered, hH, he, hp, hhit, if_pos ha, Machine.run_concat]
  refine ⟨_, h, ?_⟩
  show (if s.outPending = s.outPending ∧ amount ≤ s.outPending then _ else _) = _
  rw [if_pos ⟨rfl, ha⟩]

theorem Metered.discard {s t : Session} (h : Metered s) (hz : s.outPending = 0)
    (hH : t.highwaterBytes = s.highwaterBytes) (he : t.events = s.events ++ [.discard])
    (hp : t.outPending = 0) (hhit : t.outHighwaterHit = false) : Metered t := by
  rw [Metered, hH, he, hp, hhit, Machine.run_concat]
  refine ⟨_, h, ?_⟩
  show (if s.outPending = 0 then _ else _) = _
  rw [if_pos hz]
  rfl

/-- `session_out_check_highwater` is the meter's rule for the latch and the callback. -/
theorem checkHighwater_meter (s : Session) :
    (sessionOutCheckHighwater s).outHighwaterHit =
        (if s.highwaterBytes = 0 then s.outHighwaterHit
          else decide (s.highwaterBytes ≤ s.outPending)) ∧
      (sessionOutCheckHighwater s).notified.length - s.notified.length =
        Meter.calls s.highwaterBytes ⟨s.outPending, s.outHighwaterHit⟩ s.outPending := by
  simp only [sessionOutCheckHighwater, Meter.calls]
  split
  · next h0 => simp [h0]
  · next h0 =>
      split
      · next hlt => simp [h0, Nat.not_le.mpr hlt]
      · next hge =>
          have hge := Nat.not_lt.mp hge
          split
          · next hhit => simp [h0, hge, hhit]
          · next hhit => simp [h0, hge, Bool.not_eq_true _ ▸ hhit]

/-- The high-water mark concerns neither the queue nor the socket. -/
theorem checkHighwater_cases (s : Session) :
    ∃ hit notified, sessionOutCheckHighwater s =
      { s with outHighwaterHit := hit, notified := notified } := by
  simp only [sessionOutCheckHighwater]
  split
  · exact ⟨s.outHighwaterHit, s.notified, rfl⟩
  · split
    · exact ⟨false, s.notified, rfl⟩
    · split
      · exact ⟨s.outHighwaterHit, s.notified, rfl⟩
      · exact ⟨true, _, rfl⟩

/-- An enqueue changes the queue, `out_pending` and what belongs to the meter. -/
theorem sessionOutEnqueue_eq (s : Session) (addr : Nat) (c : OutChunk) :
    ∃ hit notified calls, sessionOutEnqueue s addr c =
      { s with
        out := s.out.pushBack (addr, c)
        outPending := s.outPending + c.len
        outHighwaterHit := hit
        notified := notified
        events := s.events ++ [.enqueue s.outPending (s.outPending + c.len) calls] } := by
  obtain ⟨hit, notified, heq⟩ := checkHighwater_cases
    { s with out := s.out.pushBack (addr, c), outPending := s.outPending + c.len }
  refine ⟨hit, notified, notified.length - s.notified.length, ?_⟩
  rw [sessionOutEnqueue, heq]

theorem Metered.enqueue {s : Session} (h : Metered s) (addr : Nat) {c : OutChunk}
    (hc : 0 < c.len) : Metered (sessionOutEnqueue s addr c) := by
  obtain ⟨hit, notified, heq⟩ := checkHighwater_cases
    { s with out := s.out.pushBack (addr, c), outPending := s.outPending + c.len }
  have hm := checkHighwater_meter
    { s with out := s.out.pushBack (addr, c), outPending := s.outPending + c.len }
  rw [heq] at hm
  obtain ⟨hhit, hcalls⟩ := hm
  rw [sessionOutEnqueue, heq, Metered, Machine.run_concat]
  refine ⟨_, h, ?_⟩
  show (if s.outPending = s.outPending ∧ s.outPending < s.outPending + c.len ∧
    notified.length - s.notified.length = _ then _ else _) = some (Meter.mk _ hit)
  rw [if_pos ⟨rfl, Nat.lt_add_of_pos_right hc, hcalls⟩]
  exact congrArg (fun b => some (Meter.mk (s.outPending + c.len) b)) hhit.symm

/-! ## Histories -/

/-- The enqueue takes `out_pending` from below the mark to at least the mark. -/
def OutEvent.Crosses (H : Nat) : OutEvent → Prop
  | .enqueue before after _ => before < H ∧ H ≤ after
  | _ => False

/-- The event clears the latch: an enqueue that leaves `out_pending` below the
mark, or `ztk_tcp_session_out_discard`. -/
def OutEvent.Resets (H : Nat) : OutEvent → Prop
  | .enqueue _ after _ => after < H
  | .deduct _ _ => False
  | .discard => True

/-- The callback runs once in an enqueue that crosses the mark, and in no other. -/
def Heard (H : Nat) (es : List OutEvent) : Prop :=
  ∀ before after calls, .enqueue before after calls ∈ es →
    calls = if before < H ∧ H ≤ after then 1 else 0

/-- Between any two crossings the latch is cleared. -/
def Separated (H : Nat) (es : List OutEvent) : Prop :=
  ∀ l₁ d l₂ e l₃, es = l₁ ++ d :: (l₂ ++ e :: l₃) → d.Crosses H → e.Crosses H →
    ∃ r ∈ l₂, r.Resets H

/-- No event after the last crossing clears the latch. -/
def Latched (H : Nat) (es : List OutEvent) : Prop :=
  ∃ l₁ d l₂, es = l₁ ++ d :: l₂ ∧ d.Crosses H ∧ ∀ r ∈ l₂, ¬ r.Resets H

variable {H : Nat} {es : List OutEvent} {e : OutEvent}

theorem latched_concat :
    Latched H (es ++ [e]) ↔ e.Crosses H ∨ (Latched H es ∧ ¬ e.Resets H) := by
  constructor
  · rintro ⟨l₁, d, l₂, heq, hd, hr⟩
    rcases List.eq_nil_or_concat l₂ with rfl | ⟨l, x, rfl⟩
    · obtain ⟨-, he⟩ := List.append_inj' heq rfl
      cases he
      exact Or.inl hd
    · rw [List.concat_eq_append, ← List.cons_append, ← List.append_assoc] at heq
      obtain ⟨rfl, hx⟩ := List.append_inj' heq rfl
      cases hx
      refine Or.inr ⟨⟨l₁, d, l, rfl, hd, fun r hl => hr r ?_⟩, hr e ?_⟩
      · rw [List.concat_eq_append]
        exact List.mem_append_left _ hl
      · rw [List.concat_eq_append]
        exact List.mem_append_right _ (List.mem_singleton.mpr rfl)
  · rintro (he | ⟨⟨l₁, d, l₂, rfl, hd, hr⟩, he⟩)
    · exact ⟨es, e, [], rfl, he, fun r hr => absurd hr List.not_mem_nil⟩
    · refine ⟨l₁, d, l₂ ++ [e], by rw [List.append_assoc, List.cons_append], hd, fun r hm => ?_⟩
      rcases List.mem_append.mp hm with hm | hm
      · exact hr r hm
      · rw [List.mem_singleton.mp hm]
        exact he

theorem separated_concat :
    Separated H (es ++ [e]) ↔ Separated H es ∧ (e.Crosses H → ¬ Latched H es) := by
  constructor
  · intro h
    refine ⟨fun l₁ d l₂ x l₃ heq => h l₁ d l₂ x (l₃ ++ [e]) ?_, fun he hl => ?_⟩
    · simp only [heq, List.append_assoc, List.cons_append]
    · obtain ⟨l₁, d, l₂, rfl, hd, hr⟩ := hl
      obtain ⟨r, hm, hreset⟩ := h l₁ d l₂ e []
        (by rw [List.append_assoc, List.cons_append]) hd he
      exact hr r hm hreset
  · rintro ⟨h, hl⟩ l₁ d l₂ x l₃ heq hd hx
    rcases List.eq_nil_or_concat l₃ with rfl | ⟨l, y, rfl⟩
    · rw [← List.cons_append, ← List.append_assoc] at heq
      obtain ⟨rfl, he⟩ := List.append_inj' heq rfl
      cases he
      by_contra hr
      exact hl hx ⟨l₁, d, l₂, rfl, hd, fun r hm hreset => hr ⟨r, hm, hreset⟩⟩
    · have heq : es ++ [e] = (l₁ ++ d :: (l₂ ++ x :: l)) ++ [y] := by
        rw [heq]
        simp only [List.concat_eq_append, List.append_assoc, List.cons_append]
      obtain ⟨rfl, -⟩ := List.append_inj' heq rfl
      exact h l₁ d l₂ x l rfl hd hx

theorem heard_concat : Heard H (es ++ [e]) ↔ Heard H es ∧ Heard H [e] := by
  constructor
  · intro h
    exact ⟨fun b a c hm => h b a c (List.mem_append_left _ hm),
      fun b a c hm => h b a c (List.mem_append_right _ hm)⟩
  · rintro ⟨h₁, h₂⟩ b a c hm
    rcases List.mem_append.mp hm with hm | hm
    · exact h₁ b a c hm
    · exact h₂ b a c hm

/-! ## Accepted histories -/

/-- What the meter knows of a history: it is latched at the mark, the latch is
that of the history, and crossings are heard exactly when they are separated. -/
structure MeterInv (H : Nat) (m : Meter) (es : List OutEvent) : Prop where
  full : H ≤ m.pending → m.hit = true
  latched : m.hit = true ↔ Latched H es
  heard : Heard H es ↔ Separated H es

theorem MeterInv.start (hH : 0 < H) : MeterInv H .start [] where
  full := fun h => absurd (Nat.lt_of_lt_of_le hH h) (Nat.lt_irrefl 0)
  latched := by
    refine iff_of_false Bool.false_ne_true ?_
    rintro ⟨l₁, d, l₂, heq, -⟩
    exact absurd heq.symm (List.append_ne_nil_of_right_ne_nil _ (List.cons_ne_nil _ _))
  heard := by
    refine iff_of_true (fun _ _ _ hm => absurd hm List.not_mem_nil) fun l₁ d l₂ e l₃ heq => ?_
    exact absurd heq.symm (List.append_ne_nil_of_right_ne_nil _ (List.cons_ne_nil _ _))

/-- An event that is no enqueue is heard and crosses nothing. -/
theorem MeterInv.quiet {m m' : Meter} (h : MeterInv H m es)
    (he : ∀ before after calls, e ≠ .enqueue before after calls)
    (hfull : H ≤ m'.pending → m'.hit = true)
    (hhit : m'.hit = true ↔ m.hit = true ∧ ¬ e.Resets H) : MeterInv H m' (es ++ [e]) := by
  have hcross : ¬ e.Crosses H := by
    cases e with
    | enqueue before after calls => exact absurd rfl (he before after calls)
    | deduct pending amount => exact id
    | discard => exact id
  refine ⟨hfull, ?_, ?_⟩
  · rw [hhit, h.latched, latched_concat, or_iff_right hcross]
  · rw [heard_concat, separated_concat, h.heard]
    refine and_congr_right fun _ => iff_of_true (fun b a c hm => ?_) fun hc => absurd hc hcross
    exact absurd (List.mem_singleton.mp hm).symm (he b a c)

/-- An enqueue that starts at the mark finds the latch set, one that crosses it
calls back when the latch is clear. -/
theorem MeterInv.enqueue {m : Meter} (hH : 0 < H) (h : MeterInv H m es) (after : Nat) :
    MeterInv H ⟨after, decide (H ≤ after)⟩
      (es ++ [.enqueue m.pending after (m.calls H after)]) := by
  refine ⟨fun hf => decide_eq_true hf, ?_, ?_⟩
  · rw [latched_concat, decide_eq_true_iff, ← h.latched]
    show H ≤ after ↔ (m.pending < H ∧ H ≤ after) ∨ (m.hit = true ∧ ¬ after < H)
    have hfull := h.full
    constructor
    · intro hle
      rcases Nat.lt_or_ge m.pending H with hp | hp
      · exact Or.inl ⟨hp, hle⟩
      · exact Or.inr ⟨hfull hp, Nat.not_lt.mpr hle⟩
    · rintro (⟨-, hle⟩ | ⟨-, hle⟩)
      · exact hle
      · exact Nat.not_lt.mp hle
  · rw [heard_concat, separated_concat, h.heard, ← h.latched]
    refine and_congr_right fun _ => ?_
    have hone : Heard H [.enqueue m.pending after (m.calls H after)] ↔
        m.calls H after = if m.pending < H ∧ H ≤ after then 1 else 0 := by
      refine ⟨fun hh => hh _ _ _ (List.mem_singleton.mpr rfl), fun hh b a c hm => ?_⟩
      cases List.mem_singleton.mp hm
      exact hh
    rw [hone]
    show Meter.calls H m after = _ ↔ (m.pending < H ∧ H ≤ after → ¬ m.hit = true)
    by_cases hc : m.pending < H ∧ H ≤ after
    · rw [if_pos hc, Meter.calls]
      cases m.hit with
      | true => simp [hc]
      | false => simp [hc, hH.ne']
    · rw [if_neg hc, Meter.calls, if_neg]
      · exact iff_of_true rfl fun h => absurd h hc
      · rintro ⟨-, hle, hhit⟩
        have hp : H ≤ m.pending := Nat.not_lt.mp fun hp => hc ⟨hp, hle⟩
        rw [h.full hp] at hhit
        cases hhit

theorem MeterInv.step {m m' : Meter} (hH : 0 < H) (h : MeterInv H m es)
    (hs : m.step H e = some m') : MeterInv H m' (es ++ [e]) := by
  cases e with
  | enqueue before after calls =>
      obtain ⟨⟨rfl, -, rfl⟩, hm⟩ := Option.ite_none_right_eq_some.mp hs
      rw [if_neg hH.ne'] at hm
      cases hm
      exact h.enqueue hH after
  | deduct pending amount =>
      obtain ⟨⟨rfl, -⟩, hm⟩ := Option.ite_none_right_eq_some.mp hs
      cases hm
      refine h.quiet (fun _ _ _ => OutEvent.noConfusion) (fun hf => h.full ?_) ?_
      · exact hf.trans (Nat.sub_le _ _)
      · exact (and_iff_left id).symm
  | discard =>
      obtain ⟨-, hs⟩ := Option.ite_none_right_eq_some.mp hs
      cases hs
      refine h.quiet (fun _ _ _ => OutEvent.noConfusion) (fun hf => ?_) ?_
      · exact absurd (Nat.lt_of_lt_of_le hH hf) (Nat.lt_irrefl 0)
      · exact iff_of_false Bool.false_ne_true fun hr => hr.2 trivial

theorem meterInv_of_run (hH : 0 < H) {m : Meter}
    (h : (meterMachine H).run .start es = some m) : MeterInv H m es := by
  induction es using List.reverseRecOn generalizing m with
  | nil =>
      cases h
      exact .start hH
  | append_singleton es e ih =>
      obtain ⟨m', hm, hs⟩ := Machine.run_concat.mp h
      exact (ih hm).step hH hs

/-- Crossings are heard exactly when the latch is cleared between them. -/
theorem Metered.heard_iff_separated {s : Session} (h : Metered s) (hH : 0 < s.highwaterBytes) :
    Heard s.highwaterBytes s.events ↔ Separated s.highwaterBytes s.events :=
  (meterInv_of_run hH h).heard

/-- Nothing is deducted that is not there. -/
theorem deduct_le_of_run {m : Meter} (h : (meterMachine H).run .start es = some m)
    {pending amount : Nat} (he : .deduct pending amount ∈ es) : amount ≤ pending := by
  induction es using List.reverseRecOn generalizing m with
  | nil => exact absurd he List.not_mem_nil
  | append_singleton es e ih =>
      obtain ⟨m', hm, hs⟩ := Machine.run_concat.mp h
      rcases List.mem_append.mp he with he | he
      · exact ih hm he
      · cases List.mem_singleton.mp he
        exact (Option.ite_none_right_eq_some.mp hs).1.2

end Ztk.Net
