import Ztk.Util.MpscFifo

/-!
# What the users of the ring queue see

The values popped are the items of the winning calls in the order of their
positions, and the items of one producer keep the order of its calls.  A call
that fails has found its cell in the previous lap, with a whole ring of claims
not yet given back.

The last section shows what the bound on the last statement is for.  A producer
that has loaded position 0 and sleeps while `2 ^ 63 - 2` items pass finds the
number `2 ^ 63` in the cell.  As a signed difference that is negative, and the
call reports a full ring although the ring is empty.
-/

namespace Ztk.Util

open Ztk.Lib

variable {α : Type}

/-! ## The order of each producer -/

/-- The item of a call that has not won a position. -/
def PushPc.unclaimed : PushPc α → List α
  | .loadTail item => [item]
  | .loadSeq item _ => [item]
  | .casTail item _ => [item]
  | _ => []

/-- The item of a call that has won a position and not returned. -/
def PushPc.inflight : PushPc α → List α
  | .storeData item _ => [item]
  | .storeSeq item _ => [item]
  | _ => []

/-- The items a list of claims has of one producer. -/
def itemsOf (i : Nat) (claims : List (Nat × α)) : List α :=
  (claims.filter fun x => x.1 == i).map Prod.snd

theorem itemsOf_append_self (i : Nat) (claims : List (Nat × α)) (item : α) :
    itemsOf i (claims ++ [(i, item)]) = itemsOf i claims ++ [item] := by
  simp [itemsOf]

theorem itemsOf_append_ne {i j : Nat} (h : j ≠ i) (claims : List (Nat × α)) (item : α) :
    itemsOf i (claims ++ [(j, item)]) = itemsOf i claims := by
  simp [itemsOf, h]

theorem itemsOf_take (i k : Nat) (claims : List (Nat × α)) :
    (itemsOf i (claims.take k)).Sublist (itemsOf i claims) :=
  ((List.take_sublist k claims).filter _).map _

/-- The claims of a producer are those of its calls that succeeded, with the one
on its way, and follow the order of its calls. -/
structure OrderAt (s : MpscState α) (i : Nat) : Prop where
  order : ∃ old, s.called i = old ++ (s.prod i).unclaimed ∧
    (itemsOf i s.claimed).Sublist old
  okays : itemsOf i s.claimed = s.okays i ++ (s.prod i).inflight

theorem OrderAt.start (q : MpscQueue α) (i : Nat) : OrderAt (.start q) i :=
  ⟨⟨[], rfl, List.Sublist.refl _⟩, rfl⟩

/-- An access leaves the histories alone, gives up, claims, or publishes. -/
inductive Access (s : MpscState α) (i : Nat) (pc : PushPc α) : Prop where
  | quiet : s.claim i = s.claimed → s.finish i = s.okays i →
      pc.unclaimed = (s.prod i).unclaimed → pc.inflight = (s.prod i).inflight → Access s i pc
  | again : s.claim i = s.claimed → s.finish i = s.okays i → pc.unclaimed = [] →
      pc.inflight = (s.prod i).inflight → Access s i pc
  | claim (item : α) : s.claim i = s.claimed ++ [(i, item)] → s.finish i = s.okays i →
      (s.prod i).unclaimed = [item] → pc.unclaimed = [] → (s.prod i).inflight = [] →
      pc.inflight = [item] → Access s i pc
  | publish (item : α) : s.claim i = s.claimed → s.finish i = s.okays i ++ [item] →
      pc.unclaimed = (s.prod i).unclaimed → (s.prod i).inflight = [item] → pc.inflight = [] →
      Access s i pc

/-- Accesses other than a compare-and-swap claim nothing. -/
theorem claim_of_ne {s : MpscState α} {i : Nat} (h : ∀ x p, s.prod i ≠ .casTail x p) :
    s.claim i = s.claimed := by
  rw [MpscState.claim]
  cases hpc : s.prod i with
  | casTail x p => exact absurd hpc (h x p)
  | _ => rfl

/-- Accesses other than the store to `seq` publish nothing. -/
theorem finish_of_ne {s : MpscState α} {i : Nat} (h : ∀ x p, s.prod i ≠ .storeSeq x p) :
    s.finish i = s.okays i := by
  rw [MpscState.finish]
  cases hpc : s.prod i with
  | storeSeq x p => exact absurd hpc (h x p)
  | _ => rfl

theorem mpscPush_access (s : MpscState α) (i : Nat) :
    Access s i (mpscPush s.q (s.prod i)).2 := by
  have hclaim : (∀ x p, s.prod i ≠ .casTail x p) → s.claim i = s.claimed := claim_of_ne
  have hfinish : (∀ x p, s.prod i ≠ .storeSeq x p) → s.finish i = s.okays i := finish_of_ne
  cases hpc : s.prod i with
  | idle =>
      exact .quiet (hclaim (by simp [hpc])) (hfinish (by simp [hpc])) (by rw [hpc]; rfl)
        (by rw [hpc]; rfl)
  | done err =>
      exact .quiet (hclaim (by simp [hpc])) (hfinish (by simp [hpc])) (by rw [hpc]; rfl)
        (by rw [hpc]; rfl)
  | loadTail item =>
      exact .quiet (hclaim (by simp [hpc])) (hfinish (by simp [hpc])) (by rw [hpc]; rfl)
        (by rw [hpc]; rfl)
  | loadSeq item pos =>
      have hclaim := hclaim (by simp [hpc])
      have hfinish := hfinish (by simp [hpc])
      simp only [mpscPush]
      split
      · exact .quiet hclaim hfinish (by rw [hpc]; rfl) (by rw [hpc]; rfl)
      · split
        · exact .again hclaim hfinish rfl (by rw [hpc]; rfl)
        · exact .quiet hclaim hfinish (by rw [hpc]; rfl) (by rw [hpc]; rfl)
  | casTail item pos =>
      have hfinish := hfinish (by simp [hpc])
      have hclaim : s.claim i =
          if s.q.tail = pos then s.claimed ++ [(i, item)] else s.claimed := by
        rw [MpscState.claim, hpc]
      simp only [mpscPush]
      by_cases ht : s.q.tail = pos
      · rw [if_pos ht] at hclaim ⊢
        exact .claim item hclaim hfinish (by rw [hpc]; rfl) rfl (by rw [hpc]; rfl) rfl
      · rw [if_neg ht] at hclaim ⊢
        exact .quiet hclaim hfinish (by rw [hpc]; rfl) (by rw [hpc]; rfl)
  | storeData item pos =>
      exact .quiet (hclaim (by simp [hpc])) (hfinish (by simp [hpc])) (by rw [hpc]; rfl)
        (by rw [hpc]; rfl)
  | storeSeq item pos =>
      have hfinish : s.finish i = s.okays i ++ [item] := by rw [MpscState.finish, hpc]
      exact .publish item (hclaim (by simp [hpc])) hfinish (by rw [hpc]; rfl) (by rw [hpc]; rfl) rfl

/-- An access of the producer itself. -/
theorem OrderAt.stepPush {s : MpscState α} {i : Nat} (h : OrderAt s i) :
    OrderAt (s.stepPush i) i := by
  obtain ⟨⟨old, hcalled, hsub⟩, hok⟩ := h
  have hp := stepPush_prod_self s i
  have hf : (s.stepPush i).okays i = s.finish i := Function.update_self ..
  have hcl : (s.stepPush i).claimed = s.claim i := rfl
  have hcall : (s.stepPush i).called i = s.called i := rfl
  cases mpscPush_access s i with
  | quiet hc hfin hu hfl =>
      refine ⟨⟨old, ?_, ?_⟩, ?_⟩
      · rw [hcall, hp, hu, hcalled]
      · rwa [hcl, hc]
      · rw [hcl, hc, hf, hfin, hp, hfl, hok]
  | again hc hfin hu hfl =>
      refine ⟨⟨old ++ (s.prod i).unclaimed, ?_, ?_⟩, ?_⟩
      · rw [hcall, hp, hu, hcalled, List.append_nil]
      · rw [hcl, hc]
        exact hsub.trans (List.sublist_append_left _ _)
      · rw [hcl, hc, hf, hfin, hp, hfl, hok]
  | claim item hc hfin hu hu' hfl hfl' =>
      refine ⟨⟨old ++ [item], ?_, ?_⟩, ?_⟩
      · rw [hcall, hp, hu', hcalled, hu, List.append_nil]
      · rw [hcl, hc, itemsOf_append_self]
        exact hsub.append (List.Sublist.refl _)
      · rw [hcl, hc, itemsOf_append_self, hf, hfin, hp, hfl', hok, hfl, List.append_nil]
  | publish item hc hfin hu hfl hfl' =>
      refine ⟨⟨old, ?_, ?_⟩, ?_⟩
      · rw [hcall, hp, hu, hcalled]
      · rwa [hcl, hc]
      · rw [hcl, hc, hf, hfin, hp, hfl', hok, hfl, List.append_nil]

/-- An access of another producer. -/
theorem OrderAt.stepPush_ne {s : MpscState α} {i j : Nat} (h : OrderAt s i) (hne : i ≠ j) :
    OrderAt (s.stepPush j) i := by
  have hp := stepPush_prod_of_ne s hne
  have hf : (s.stepPush j).okays i = s.okays i := Function.update_of_ne hne ..
  have hc : itemsOf i (s.stepPush j).claimed = itemsOf i s.claimed := by
    show itemsOf i (s.claim j) = _
    cases mpscPush_access s j with
    | quiet hc => rw [hc]
    | again hc => rw [hc]
    | claim item hc => rw [hc, itemsOf_append_ne (Ne.symm hne)]
    | publish item hc => rw [hc]
  refine ⟨?_, by rw [hp, hf, hc]; exact h.okays⟩
  rw [hp, hc]
  exact h.order

theorem OrderAt.step {s t : MpscState α} {a : MpscAct α} {i : Nat} (h : OrderAt s i)
    (hs : (mpscMachine α).step s a = some t) : OrderAt t i := by
  rcases mpscStep_cases hs with ⟨j, item, hr, rfl⟩ | ⟨j, -, rfl⟩ | ⟨-, rfl⟩ | ⟨-, rfl⟩
  · by_cases hij : i = j
    · subst hij
      have hun : (s.prod i).unclaimed = [] ∧ (s.prod i).inflight = [] := by
        cases hpc : s.prod i with
        | idle => exact ⟨rfl, rfl⟩
        | done err => exact ⟨rfl, rfl⟩
        | loadTail _ | loadSeq _ _ | casTail _ _ | storeData _ _ | storeSeq _ _ =>
            rw [hpc] at hr
            cases hr
      obtain ⟨⟨old, hcalled, hsub⟩, hok⟩ := h
      rw [hun.1, List.append_nil] at hcalled
      refine ⟨⟨old, ?_, hsub⟩, ?_⟩
      · simp only [MpscState.callPush, Function.update_self, hcalled]
        rfl
      · simp only [MpscState.callPush, Function.update_self]
        rw [hok, hun.2]
        rfl
    · refine ⟨?_, ?_⟩
      · simp only [MpscState.callPush, Function.update_of_ne hij]
        exact h.order
      · simp only [MpscState.callPush, Function.update_of_ne hij]
        exact h.okays
  · by_cases hij : i = j
    · subst hij
      exact h.stepPush
    · exact h.stepPush_ne hij
  · exact ⟨h.order, h.okays⟩
  · exact ⟨h.order, h.okays⟩

/-- The capacity is fixed. -/
theorem mpscStep_cap {s t : MpscState α} {a : MpscAct α}
    (hs : (mpscMachine α).step s a = some t) : t.q.cap = s.q.cap := by
  rcases mpscStep_cases hs with ⟨i, item, -, rfl⟩ | ⟨i, -, rfl⟩ | ⟨-, rfl⟩ | ⟨-, rfl⟩
  · rfl
  · show (mpscPush s.q (s.prod i)).1.cap = s.q.cap
    cases s.prod i with
    | loadSeq item pos =>
        simp only [mpscPush]
        split
        · rfl
        · split <;> rfl
    | casTail item pos =>
        simp only [mpscPush]
        split <;> rfl
    | _ => rfl
  · rfl
  · show (mpscPop s.q s.cons).1.cap = s.q.cap
    cases s.cons with
    | loadSeq pos =>
        simp only [mpscPop]
        split <;> rfl
    | _ => rfl

/-! ## A call that fails -/

/-- `ZTK_ERR_AGAIN` is the result of a load that finds the previous lap. -/
theorem RingInv.again {s : MpscState α} (h : RingInv s)
    (hcap : s.claimed.length + s.q.cap ≤ 2 ^ 63) {i : Nat}
    (ha : (mpscPush s.q (s.prod i)).2 = .done .again) (hn : s.prod i ≠ .done .again) :
    ∃ item pos, s.prod i = .loadSeq item pos ∧ (s.q.cell pos).seq + s.q.cap ≤ pos + 1 ∧
      s.released + s.q.cap ≤ s.claimed.length := by
  have hat := h.producers i
  cases hpc : s.prod i with
  | idle =>
      rw [hpc] at ha
      cases ha
  | done err =>
      rw [hpc] at ha hn
      exact absurd ha hn
  | loadTail item =>
      rw [hpc] at ha
      cases ha
  | casTail item pos =>
      rw [hpc] at ha
      simp only [mpscPush] at ha
      split at ha
      · cases ha
      · cases ha
  | storeData item pos =>
      rw [hpc] at ha
      cases ha
  | storeSeq item pos =>
      rw [hpc] at ha
      cases ha
  | loadSeq item pos =>
      rw [hpc] at ha hat
      have hpos : pos ≤ s.claimed.length := hat
      have h2 := h.geometry.two
      simp only [mpscPush] at ha
      split at ha
      · cases ha
      · split at ha
        · next hneg =>
            refine ⟨item, pos, rfl, ?_⟩
            rcases h.seq_cases hpos with ⟨-, -, hs⟩ | ⟨-, hlt, hle⟩ | ⟨he, hT, hle⟩
            · have := (dif64_neg (by omega) (by omega)).mp hneg
              omega
            · have := (dif64_neg (by omega) (by omega)).mp hneg
              omega
            · exact ⟨hle, by omega⟩
        · cases ha

/-- The ring queue is first in, first out, and fails only when it is full. -/
theorem mpsc_fifo {cq cb : Bool} {cap : Nat} {q : MpscQueue α}
    (hq : mpscCreate cq cb cap = some q) (s : MpscState α)
    (h : (mpscMachine α).Leads Machine.Any (.start q) s) (hT : s.claimed.length < 2 ^ 63) :
    s.values <+: s.claimed.map Prod.snd ∧
    (∀ i, (itemsOf i (s.claimed.take s.values.length)).Sublist (s.called i) ∧
      s.okays i <+: itemsOf i s.claimed) ∧
    (s.claimed.length + cap ≤ 2 ^ 63 → ∀ i,
      (mpscPush s.q (s.prod i)).2 = .done .again → s.prod i ≠ .done .again →
      ∃ item pos, s.prod i = .loadSeq item pos ∧ (s.q.cell pos).seq + cap ≤ pos + 1 ∧
        s.released + cap ≤ s.claimed.length) := by
  have hinv := RingInv.leads hq h hT
  have hcap : s.q.cap = cap := by
    obtain ⟨-, rfl⟩ := mpscCreate_some hq
    exact h.invariant (I := fun s => s.q.cap = cap)
      (fun _ _ _ hi _ hs => (mpscStep_cap hs).trans hi) rfl
  refine ⟨?_, fun i => ?_, fun hb i ha hn => ?_⟩
  · rw [hinv.values]
    exact List.take_prefix _ _
  · have ho : OrderAt s i :=
      h.invariant (I := fun s => OrderAt s i) (fun _ _ _ hi _ hs => hi.step hs) (.start q i)
    obtain ⟨old, hcalled, hsub⟩ := ho.order
    refine ⟨?_, ho.okays ▸ List.prefix_append _ _⟩
    rw [hcalled]
    exact (itemsOf_take _ _ _).trans (hsub.trans (List.sublist_append_left _ _))
  · have := hinv.again (by rw [hcap]; exact hb) ha hn
    rwa [hcap] at this

/-- A ring of two cells. -/
def smallRing : MpscQueue Nat := ⟨fun i => ⟨none, i⟩, 2, 1, 0, 0⟩

/-- Two producers race for position 0, and the loser publishes first.  The first
pop finds nothing, the second one the item of the winner. -/
def race : List (MpscAct Nat) :=
  [.push 1 7, .push 2 8, .stepPush 1, .stepPush 2, .stepPush 1, .stepPush 2, .stepPush 1,
    .stepPush 2, .stepPush 2, .stepPush 2, .stepPush 2, .stepPush 2,
    .pop, .stepPop, .stepPop, .stepPush 1, .stepPush 1,
    .pop, .stepPop, .stepPop, .stepPop, .stepPop, .stepPop]

theorem mpsc_race :
    ∃ s, (mpscMachine Nat).run (.start smallRing) race = some s ∧ s.values = [7] ∧
      s.values <+: s.claimed.map Prod.snd ∧ s.okays 2 <+: itemsOf 2 s.claimed := by
  have hrun : (((mpscMachine Nat).run (.start smallRing) race).map fun s =>
      (s.values, s.claimed.length)) = some ([7], 2) := by decide +kernel
  obtain ⟨s, hs, hv⟩ := Option.map_eq_some_iff.mp hrun
  obtain ⟨hvals, hlen⟩ := Prod.mk.inj hv
  have hq : mpscCreate true true 2 = some smallRing := rfl
  have h := mpsc_fifo hq s
    (Machine.leads_of_run race _ _ hs (Machine.runMeets_any _ _)) (by omega)
  exact ⟨s, hs, hvals, h.1, (h.2.1 2).2⟩

/-! ## A producer that sleeps for too long -/

/-- A new ring of four cells. -/
def fourRing : MpscQueue Unit := ⟨fun i => ⟨none, i⟩, 4, 3, 0, 0⟩

/-- Producer 0 has loaded position 0 and sleeps; producer 1 and the consumer are
at the given points after `T` claims, `r` cells given back and `c` calls. -/
structure Lap (s : MpscState Unit) (pc : PushPc Unit) (cpc : PopPc Unit) (T r c : Nat) :
    Prop where
  leads : (mpscMachine Unit).Leads Machine.Any (.start fourRing) s
  sleeper : s.prod 0 = .loadSeq () 0
  prod : s.prod 1 = pc
  others : ∀ i, i ≠ 0 → i ≠ 1 → s.prod i = .idle
  cons : s.cons = cpc
  claimed : s.claimed.length = T
  released : s.released = r
  calls : s.calls = c

namespace Lap

variable {s : MpscState Unit} {pc : PushPc Unit} {cpc : PopPc Unit} {T r c : Nat}

theorem inv (h : Lap s pc cpc T r c) (hT : T < 2 ^ 63) : RingInv s :=
  RingInv.leads (show mpscCreate true true 4 = some fourRing from rfl) h.leads
    (by rw [h.claimed]; exact hT)

/-- Producer 1 calls `ztk_mpsc_push`. -/
theorem call (h : Lap s pc cpc T r c) (hr : pc.resting = true) :
    Lap (s.callPush 1 ()) (.loadTail ()) cpc T r (c + 1) where
  leads := h.leads.tail (a := .push 1 ()) trivial (by simp [mpscMachine, mpscStep, h.prod, hr])
  sleeper := by simp [MpscState.callPush, h.sleeper]
  prod := by simp [MpscState.callPush]
  others := fun i h0 h1 => by simp [MpscState.callPush, h1, h.others i h0 h1]
  cons := h.cons
  claimed := h.claimed
  released := h.released
  calls := by simp [MpscState.callPush, h.calls]

/-- An access of producer 1. -/
theorem access (h : Lap s pc cpc T r c) (hr : pc.resting = false) (pc' : PushPc Unit)
    (T' : Nat) (hpc : (mpscPush s.q pc).2 = pc') (hc : (s.claim 1).length = T') :
    Lap (s.stepPush 1) pc' cpc T' r c where
  leads := h.leads.tail (a := .stepPush 1) trivial (by simp [mpscMachine, mpscStep, h.prod, hr])
  sleeper := (stepPush_prod_of_ne s (by decide)).trans h.sleeper
  prod := by rw [stepPush_prod_self, h.prod, hpc]
  others := fun i h0 h1 => (stepPush_prod_of_ne s h1).trans (h.others i h0 h1)
  cons := h.cons
  claimed := hc
  released := h.released
  calls := h.calls

theorem claim_eq (h : Lap s pc cpc T r c) (hne : ∀ x p, pc ≠ .casTail x p) :
    (s.claim 1).length = T := by
  rw [claim_of_ne (by rw [h.prod]; exact hne), h.claimed]

/-- The consumer calls `ztk_mpsc_pop`. -/
theorem callPop (h : Lap s pc cpc T r c) (hr : cpc.resting = true) :
    Lap { s with cons := .loadHead } pc .loadHead T r c :=
  { h with
    leads := h.leads.tail (a := .pop) trivial (by simp [mpscMachine, mpscStep, h.cons, hr])
    cons := rfl }

/-- An access of the consumer. -/
theorem take (h : Lap s pc cpc T r c) (hr : cpc.resting = false) (cpc' : PopPc Unit)
    (r' : Nat) (hpc : (mpscPop s.q cpc).2 = cpc') (hc : s.release = r') :
    Lap s.stepPop pc cpc' T r' c :=
  { h with
    leads := h.leads.tail (a := .stepPop) trivial (by simp [mpscMachine, mpscStep, h.cons, hr])
    cons := by
      rw [← hpc, ← h.cons]
      rfl
    released := hc }

/-- Accesses other than the store to `seq` give nothing back. -/
theorem release_eq (h : Lap s pc cpc T r c) (hne : ∀ p d, cpc ≠ .storeSeq p d) :
    s.release = r := by
  rw [MpscState.release, h.cons]
  cases cpc with
  | storeSeq p d => exact absurd rfl (hne p d)
  | _ => exact h.released

/-- Producer 1 pushes an item into the empty ring. -/
theorem push (h : Lap s pc cpc T T c) (hr : pc.resting = true) (hT : T + 1 < 2 ^ 63) :
    ∃ t, Lap t (.done .ok) cpc (T + 1) T (c + 1) := by
  have h₁ := h.call hr
  have htail₁ := (h₁.inv (by omega)).tail.trans h₁.claimed
  have h₂ := h₁.access rfl (.loadSeq () T) T (by simp [mpscPush, htail₁])
    (h₁.claim_eq (by simp))
  have hinv₂ := h₂.inv (by omega)
  have hseq := hinv₂.free T (Nat.le_of_eq h₂.claimed) (by
    have := hinv₂.geometry.two
    rw [h₂.released]
    omega)
  have h₃ := h₂.access rfl (.casTail () T) T
    (by simp only [mpscPush, hseq]; simp [dif64]) (h₂.claim_eq (by simp))
  have htail₃ := (h₃.inv (by omega)).tail.trans h₃.claimed
  have h₄ := h₃.access rfl (.storeData () T) (T + 1) (by simp [mpscPush, htail₃])
    (by simp [MpscState.claim, h₃.prod, htail₃, h₃.claimed])
  have h₅ := h₄.access rfl (.storeSeq () T) (T + 1) rfl (h₄.claim_eq (by simp))
  exact ⟨_, h₅.access rfl (.done .ok) (T + 1) rfl (h₅.claim_eq (by simp))⟩

/-- With no producer between its claim and its return, the item is there. -/
theorem published (h : Lap s (.done .ok) cpc (T + 1) T c) (hT : T + 1 < 2 ^ 63) :
    Published s T := by
  have hinv := h.inv hT
  rcases hinv.taken T (Nat.le_of_eq h.released) (by rw [h.claimed]; omega) with hh | hp
  · obtain ⟨i, item, hi⟩ := hh
    by_cases h0 : i = 0
    · rw [h0, h.sleeper] at hi
      rcases hi with hi | hi <;> cases hi
    · by_cases h1 : i = 1
      · rw [h1, h.prod] at hi
        rcases hi with hi | hi <;> cases hi
      · rw [h.others i h0 h1] at hi
        rcases hi with hi | hi <;> cases hi
  · exact hp

/-- The consumer pops the one item. -/
theorem pop (h : Lap s (.done .ok) cpc (T + 1) T c) (hr : cpc.resting = true)
    (hT : T + 1 < 2 ^ 63) : ∃ t data, Lap t (.done .ok) (.done data) (T + 1) (T + 1) c := by
  have h₁ := h.callPop hr
  have hhead : s.q.head = T := by
    have hh := (h₁.inv hT).head
    exact hh.trans h₁.released
  have h₂ := h₁.take rfl (.loadSeq T) T (by simp [mpscPop, hhead]) (h₁.release_eq (by simp))
  have hpub := h₂.published hT
  obtain ⟨x, -, hcell⟩ := hpub
  have h₃ := h₂.take rfl (.loadData T) T
    (by simp only [mpscPop, hcell, wrap_of_lt (show T + 1 < 2 ^ 64 by omega)]; simp [dif64])
    (h₂.release_eq (by simp))
  have h₄ := h₃.take rfl (.storeSeq T _) T rfl (h₃.release_eq (by simp))
  have h₅ := h₄.take rfl (.storeHead T _) (T + 1) rfl
    (by simp [MpscState.release, h₄.cons, h₄.released])
  exact ⟨_, _, h₅.take rfl (.done _) (T + 1) rfl (h₅.release_eq (by simp))⟩

end Lap

/-- Any number of items can pass while producer 0 sleeps. -/
theorem exists_lap (n : Nat) (hn : n < 2 ^ 63) :
    ∃ s pc cpc, pc.resting = true ∧ cpc.resting = true ∧ Lap s pc cpc n n (n + 1) := by
  induction n with
  | zero =>
      refine ⟨((MpscState.start fourRing).callPush 0 ()).stepPush 0, .idle, .idle, rfl, rfl,
        ?_, rfl, rfl, fun i h0 _ => ?_, rfl, rfl, rfl, rfl⟩
      · exact Machine.leads_of_run [.push 0 (), .stepPush 0] _ _ rfl (Machine.runMeets_any _ _)
      · rw [stepPush_prod_of_ne _ h0]
        simp [MpscState.callPush, MpscState.start, h0]
  | succ n ih =>
      obtain ⟨s, pc, cpc, hp, hc, h⟩ := ih (by omega)
      obtain ⟨t, ht⟩ := h.push hp hn
      obtain ⟨u, data, hu⟩ := ht.pop hc hn
      exact ⟨u, _, _, rfl, rfl, hu⟩

/-- After `2 ^ 63 - 2` items the sleeper takes the empty ring for a full one. -/
theorem mpsc_again_on_empty_ring :
    ∃ s, mpscCreate true true 4 = some fourRing ∧
      (mpscMachine Unit).Leads Machine.Any (.start fourRing) s ∧ s.calls < 2 ^ 63 ∧
      s.prod 0 = .loadSeq () 0 ∧ (mpscPush s.q (s.prod 0)).2 = .done .again ∧
      s.claimed.length < s.released + 4 := by
  obtain ⟨s, pc, cpc, -, -, h⟩ := exists_lap (2 ^ 63 - 2) (by omega)
  have hinv := h.inv (by omega)
  have hcap : s.q.cap = 4 :=
    h.leads.invariant (I := fun s => s.q.cap = 4) (fun _ _ _ hi _ hs => (mpscStep_cap hs).trans hi)
      rfl
  have hfree := hinv.free (2 ^ 63) (by rw [h.claimed]; omega) (by rw [h.released, hcap]; omega)
  have hcell : s.q.cell 0 = s.q.cell (2 ^ 63) := hinv.geometry.cell_congr 0 (2 ^ 63) (by rw [hcap]; rfl)
  refine ⟨s, rfl, h.leads, by rw [h.calls]; omega, h.sleeper, ?_, ?_⟩
  · have hz : dif64 (2 ^ 63) 0 ≠ 0 := by decide
    have hneg : dif64 (2 ^ 63) 0 < 0 := by decide
    rw [h.sleeper]
    simp only [mpscPush, hcell, hfree]
    rw [if_neg hz, if_pos hneg]
  · rw [h.claimed, h.released]
    omega

end Ztk.Util
