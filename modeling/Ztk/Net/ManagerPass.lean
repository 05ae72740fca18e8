import Ztk.Lib.Trace
import Ztk.Net.SessionRegistry

/-!
# A manager pass

`run_manager_on_poller` goes over `srv->sessions` by index and releases the mutex around
each call of `on_manager`.  While the callback runs, sessions may be closed and new ones
added.  `session_remove` puts the last session of the array into the place of the one
it takes out, so a removal at or before the index of the pass moves a session that is
still ahead of the pass behind it.

The ghost list `missed` holds the sessions moved that way.  A session that was in the
array from the beginning to the end of the pass is visited once, unless it is in that list.
-/

namespace Ztk.Net

open Ztk.Lib

/-! ## The array ahead of an index -/

/-- The session that taking `y` out of `l` moves from the positions at and after `n` to
those before. -/
def movedBack (l : List Nat) (n y : Nat) : Option Nat :=
  if l.idxOf y < n ∧ n < l.length then l.getLast? else none

section
variable {a b : List Nat} {x y z n : Nat}

/-- What is ahead of an index when a session before it gives its place to the last one. -/
theorem mem_drop_middle_lt (hyb : y ∉ b) (hzb : z ∉ b) (h : a.length < n) :
    x ∈ (a ++ z :: b).drop n ↔ x ∈ (a ++ y :: (b ++ [z])).drop n ∧ x ≠ y ∧
      (n < (a ++ y :: (b ++ [z])).length → x ≠ z) := by
  obtain ⟨k, hk⟩ : ∃ k, n - a.length = k + 1 := ⟨n - a.length - 1, by omega⟩
  have hlen : (a ++ y :: (b ++ [z])).length = a.length + (b.length + 2) := by simp
  rw [List.drop_append, List.drop_append, hk, List.drop_succ_cons, List.drop_succ_cons,
    List.drop_eq_nil_of_le (by omega), List.nil_append, List.nil_append, hlen, List.drop_append]
  rcases Nat.lt_or_ge b.length k with hout | hin
  · rw [List.drop_eq_nil_of_le (by omega), List.drop_eq_nil_of_le (by simp; omega)]
    simp
  · rw [Nat.sub_eq_zero_of_le hin, List.drop_zero, List.mem_append, List.mem_singleton]
    constructor
    · intro hx
      have hxb := List.mem_of_mem_drop hx
      exact ⟨.inl hx, fun he => hyb (he ▸ hxb), fun _ he => hzb (he ▸ hxb)⟩
    · rintro ⟨hx | rfl, -, hne⟩
      · exact hx
      · exact absurd rfl (hne (by omega))

/-- What is ahead of an index when a session at or after it gives its place to the last one. -/
theorem mem_drop_middle_ge (ha : y ∉ a) (hyb : y ∉ b) (hyz : y ≠ z) (h : n ≤ a.length) :
    x ∈ (a ++ z :: b).drop n ↔ x ∈ (a ++ y :: (b ++ [z])).drop n ∧ x ≠ y := by
  rw [List.drop_append, List.drop_append, Nat.sub_eq_zero_of_le h, List.drop_zero, List.drop_zero]
  simp only [List.mem_append, List.mem_cons, List.not_mem_nil, or_false]
  constructor
  · rintro (hx | rfl | hx)
    · exact ⟨.inl hx, fun he => ha (he ▸ List.mem_of_mem_drop hx)⟩
    · exact ⟨.inr (.inr (.inr rfl)), hyz.symm⟩
    · exact ⟨.inr (.inr (.inl hx)), fun he => hyb (he ▸ hx)⟩
  · rintro ⟨hx | rfl | hx | rfl, hne⟩
    · exact .inl hx
    · exact absurd rfl hne
    · exact .inr (.inr hx)
    · exact .inr (.inl rfl)

end

/-- What is ahead of an index when a session has been taken out. -/
theorem mem_drop_dropSession {l : List Nat} {x y n : Nat} (h : y ∈ l) (hn : l.Nodup) :
    x ∈ (Registry.dropSession l y).drop n ↔ x ∈ l.drop n ∧ x ≠ y ∧ movedBack l n y ≠ some x := by
  obtain ⟨a, b, rfl, ha⟩ := List.eq_append_cons_of_mem h
  have hidx : (a ++ y :: b).idxOf y = a.length := by
    rw [List.idxOf_append_of_notMem ha, List.idxOf_cons_self, Nat.add_zero]
  rw [movedBack, hidx]
  rcases List.eq_nil_or_concat b with rfl | ⟨b, z, rfl⟩
  · have hne : x ∈ a.drop n → x ≠ y := fun hx he => ha (he ▸ List.mem_of_mem_drop hx)
    have hcond : ¬ (a.length < n ∧ n < (a ++ [y]).length) := by
      rw [List.length_append, List.length_singleton]
      omega
    rw [dropSession_last ha, if_neg hcond, List.drop_append, List.mem_append]
    refine ⟨fun hx => ⟨.inl hx, hne hx, by simp⟩, fun ⟨hx, hy, _⟩ => hx.resolve_right fun hx => ?_⟩
    exact hy (List.mem_singleton.mp (List.mem_of_mem_drop hx))
  · rw [List.concat_eq_append] at hn ⊢
    obtain ⟨-, htail, -⟩ := List.nodup_append.mp hn
    obtain ⟨hy, htail⟩ := List.nodup_cons.mp htail
    have hyb : y ∉ b := fun hm => hy (List.mem_append_left _ hm)
    have hyz : y ≠ z := fun he => hy (List.mem_append_right _ (List.mem_singleton.mpr he))
    have hzb : z ∉ b := fun hm =>
      (List.nodup_append.mp htail).2.2 z hm z List.mem_cons_self rfl
    have hlast : (a ++ y :: (b ++ [z])).getLast? = some z := by
      rw [← List.cons_append, ← List.append_assoc, List.getLast?_concat]
    rw [dropSession_middle ha, hlast]
    rcases Nat.lt_or_ge a.length n with hlt | hge
    · rw [mem_drop_middle_lt hyb hzb hlt]
      refine and_congr_right fun _ => and_congr_right fun _ => ?_
      by_cases hlen : n < (a ++ y :: (b ++ [z])).length
      · rw [if_pos ⟨hlt, hlen⟩]
        exact ⟨fun hne he => hne hlen (Option.some.inj he).symm, fun hne _ he => hne (he ▸ rfl)⟩
      · rw [if_neg (by omega)]
        exact iff_of_true (fun hl => absurd hl hlen) (by simp)
    · rw [mem_drop_middle_ge ha hyb hyz hge, if_neg (by omega)]
      simp

/-- The session that is moved back was ahead of the index. -/
theorem mem_drop_of_movedBack {l : List Nat} {x y n : Nat} (h : movedBack l n y = some x) :
    x ∈ l.drop n := by
  obtain ⟨⟨-, hlen⟩, hlast⟩ := Option.ite_none_right_eq_some.mp h
  have hdrop : (l.drop n).getLast? = some x := by
    rw [List.getLast?_drop, if_neg (Nat.not_le.mpr hlen), hlast]
  exact List.mem_of_getLast? hdrop

/-! ## The pass -/

/-- What a pass does with a session. -/
inductive PassEvent where
  | flush (x : Nat)
  | manager (x : Nat)
  | removed (x : Nat)
deriving DecidableEq

/-- The events of a visit. -/
def PassEvent.Visits (x : Nat) (e : PassEvent) : Prop := e = .flush x ∨ e = .manager x

instance (x : Nat) (e : PassEvent) : Decidable (e.Visits x) := inferInstanceAs (Decidable (_ ∨ _))

/-- `run_manager_on_poller` at work on the sessions of a server. -/
structure ManagerPass where
  /-- `srv->sessions`, up to `session_count`. -/
  sessions : List Nat
  /-- `session->closing`. -/
  closing : Nat → Bool
  i : Nat
  /-- The session whose `on_manager` runs; the mutex is free then. -/
  calling : Option Nat
  /-- The pass has returned. -/
  done : Bool
  /-- The sessions there have been. -/
  known : List Nat
  /-- The sessions moved behind the pass. -/
  missed : List Nat
  trace : List PassEvent

namespace ManagerPass

/-- The pass takes the mutex. -/
def start (sessions : List Nat) (closing : Nat → Bool) : ManagerPass :=
  ⟨sessions, closing, 0, none, false, sessions, [], []⟩

/-- How many positions of the array the pass has looked at. -/
def reached (s : ManagerPass) : Nat := if s.calling.isSome then s.i + 1 else s.i

/-- The sessions the pass has yet to look at. -/
def ahead (s : ManagerPass) : List Nat := s.sessions.drop s.reached

/-- The session that `session_remove` of `y` moves behind the pass. -/
def movedBack (s : ManagerPass) (y : Nat) : Option Nat :=
  if s.closing y then none else Net.movedBack s.sessions s.reached y

/-- `session_remove`. -/
def sessionRemove (s : ManagerPass) (y : Nat) : ManagerPass :=
  if s.closing y then s
  else
    { s with
      closing := Function.update s.closing y true
      sessions := Registry.dropSession s.sessions y
      missed := (s.movedBack y).toList ++ s.missed
      trace := s.trace ++ [PassEvent.removed y] }

/-- `session_list_add`. -/
def sessionListAdd (s : ManagerPass) (y : Nat) : ManagerPass :=
  { s with
    closing := Function.update s.closing y false
    sessions := s.sessions ++ [y]
    known := y :: s.known }

/-- `session_out_flush` and the call of `on_manager`, if it is set. -/
def visit (onManager : Bool) (s : ManagerPass) (x : Nat) : ManagerPass :=
  let s : ManagerPass := { s with trace := s.trace ++ [PassEvent.flush x] }
  if onManager then { s with calling := some x, trace := s.trace ++ [PassEvent.manager x] }
  else { s with i := s.i + 1 }

end ManagerPass

inductive PassCall where
  /-- The pass looks at the next position. -/
  | next
  /-- `on_manager`, or another thread, closes a session. -/
  | close (y : Nat)
  /-- A new session is added. -/
  | add (y : Nat)
  /-- `on_manager` returns. -/
  | ret

def managerPassStep (onManager : Bool) (poller : Nat → Nat) (p : Nat) (s : ManagerPass) :
    PassCall → Option ManagerPass
  | .next =>
      if s.calling.isSome ∨ s.done then none
      else
        match s.sessions[s.i]? with
        | none => some { s with done := true }
        | some x =>
            if s.closing x ∨ poller x ≠ p then some { s with i := s.i + 1 }
            else some (s.visit onManager x)
  | .close y => if s.calling.isSome ∧ y ∈ s.known then some (s.sessionRemove y) else none
  | .add y => if s.calling.isSome ∧ y ∉ s.known then some (s.sessionListAdd y) else none
  | .ret => if s.calling.isSome then some { s with calling := none, i := s.i + 1 } else none

/-- `run_manager_on_poller` on poller `p` as a machine; session `x` is pinned to `poller x`. -/
def managerPass (onManager : Bool) (poller : Nat → Nat) (p : Nat) :
    Machine ManagerPass PassCall :=
  ⟨managerPassStep onManager poller p⟩

namespace ManagerPass

/-- `session_out_flush` and `on_manager` of `x`, in the order in which they ran. -/
def visits (s : ManagerPass) (x : Nat) : List PassEvent :=
  s.trace.filter (PassEvent.Visits x)

/-- No session is visited after it was removed. -/
def Quiet (s : ManagerPass) : Prop :=
  Trace.Closed .removed PassEvent.Visits s.trace

/-- A step that moves no session of `stays` behind the pass, unless it is pinned to another
poller. -/
def KeepsAhead (poller : Nat → Nat) (p : Nat) (stays : List Nat) (s : ManagerPass) :
    PassCall → Prop
  | .close y => ∀ z ∈ s.movedBack y, ¬ (z ∈ stays ∧ poller z = p)
  | _ => True

instance (poller : Nat → Nat) (p : Nat) (stays : List Nat) (s : ManagerPass) :
    ∀ a, Decidable (s.KeepsAhead poller p stays a)
  | .close y => inferInstanceAs (Decidable (∀ z ∈ s.movedBack y, _))
  | .next | .add _ | .ret => isTrue trivial

end ManagerPass

/-- One visit of a session: it is flushed, and `on_manager` runs if it is set. -/
def passVisit (onManager : Bool) (x : Nat) : List PassEvent :=
  .flush x :: if onManager then [.manager x] else []

/-- The steps of a pass, and what each does. -/
inductive PassMove (onManager : Bool) (poller : Nat → Nat) (p : Nat) (s : ManagerPass) :
    PassCall → ManagerPass → Prop where
  | finish : s.calling = none → s.sessions[s.i]? = none →
      PassMove onManager poller p s .next { s with done := true }
  | skip : s.calling = none → s.done = false → s.sessions[s.i]? = some x →
      s.closing x ∨ poller x ≠ p → PassMove onManager poller p s .next { s with i := s.i + 1 }
  | visit : s.calling = none → s.done = false → s.sessions[s.i]? = some x → poller x = p →
      PassMove onManager poller p s .next (s.visit onManager x)
  | close : s.calling.isSome → y ∈ s.known →
      PassMove onManager poller p s (.close y) (s.sessionRemove y)
  | add : s.calling.isSome → y ∉ s.known →
      PassMove onManager poller p s (.add y) (s.sessionListAdd y)
  | ret : s.calling.isSome →
      PassMove onManager poller p s .ret { s with calling := none, i := s.i + 1 }

section
variable {onManager : Bool} {poller : Nat → Nat} {p : Nat} {s t : ManagerPass} {a : PassCall}
variable {first : List Nat} {x y : Nat}

theorem PassMove.of_step (h : (managerPass onManager poller p).step s a = some t) :
    PassMove onManager poller p s a t := by
  have h : managerPassStep onManager poller p s a = some t := h
  cases a with
  | next =>
      obtain ⟨hn, h⟩ := Option.ite_none_left_eq_some.mp h
      have hcall : s.calling = none := Option.not_isSome_iff_eq_none.mp fun hc => hn (.inl hc)
      have hdone : s.done = false := Bool.not_eq_true _ ▸ fun hd => hn (.inr hd)
      split at h
      · next hi =>
          cases h
          exact .finish hcall hi
      · next x hi =>
          split at h
          · next hc =>
              cases h
              exact .skip hcall hdone hi hc
          · next hc =>
              cases h
              exact .visit hcall hdone hi (not_not.mp fun hp => hc (.inr hp))
  | close y =>
      obtain ⟨⟨hc, hy⟩, h⟩ := Option.ite_none_right_eq_some.mp h
      cases h
      exact .close hc hy
  | add y =>
      obtain ⟨⟨hc, hy⟩, h⟩ := Option.ite_none_right_eq_some.mp h
      cases h
      exact .add hc hy
  | ret =>
      obtain ⟨hc, h⟩ := Option.ite_none_right_eq_some.mp h
      cases h
      exact .ret hc

/-! ## What has been visited -/

theorem visits_concat (s : ManagerPass) (e : PassEvent) (x : Nat) :
    { s with trace := s.trace ++ [e] }.visits x = s.visits x ++ if e.Visits x then [e] else [] :=
  Trace.filter_concat _

@[simp] theorem visits_flush (x z : Nat) : (PassEvent.flush x).Visits z ↔ x = z := by
  simp [PassEvent.Visits]

@[simp] theorem visits_manager (x z : Nat) : (PassEvent.manager x).Visits z ↔ x = z := by
  simp [PassEvent.Visits]

@[simp] theorem visits_removed (x z : Nat) : ¬ (PassEvent.removed x).Visits z := by
  simp [PassEvent.Visits]

theorem visits_visit (onManager : Bool) (s : ManagerPass) (x z : Nat) :
    (s.visit onManager x).visits z = s.visits z ++ if z = x then passVisit onManager z else [] := by
  have hflush := visits_concat s (.flush x) z
  have hboth := visits_concat { s with trace := s.trace ++ [PassEvent.flush x] } (.manager x) z
  rw [hflush] at hboth
  by_cases he : z = x
  · subst he
    cases onManager with
    | true => exact hboth.trans (by simp [passVisit])
    | false => exact hflush.trans (by simp [passVisit])
  · have hne : ¬ x = z := fun hx => he hx.symm
    cases onManager with
    | true => exact hboth.trans (by simp [he, hne])
    | false => exact hflush.trans (by simp [he, hne])

/-- The session at the index of the pass is the next one ahead of it. -/
theorem ahead_eq_cons (hc : s.calling = none) (hx : s.sessions[s.i]? = some x) :
    s.ahead = x :: s.sessions.drop (s.i + 1) := by
  obtain ⟨hi, rfl⟩ := List.getElem?_eq_some_iff.mp hx
  rw [ManagerPass.ahead, ManagerPass.reached, hc]
  exact List.drop_eq_getElem_cons hi

theorem ahead_visit (onManager : Bool) (s : ManagerPass) (x : Nat) (hc : s.calling = none) :
    (s.visit onManager x).ahead = s.sessions.drop (s.i + 1) := by
  cases onManager with
  | true => rfl
  | false => simp [ManagerPass.visit, ManagerPass.ahead, ManagerPass.reached, hc]

theorem missed_visit (onManager : Bool) (s : ManagerPass) (x : Nat) :
    (s.visit onManager x).missed = s.missed := by
  cases onManager with
  | true => rfl
  | false => rfl

/-! ## What closing a session changes -/

theorem visits_remove (s : ManagerPass) (x y : Nat) :
    (s.sessionRemove y).visits x = s.visits x := by
  rw [ManagerPass.sessionRemove]
  split
  · rfl
  · refine (visits_concat s (.removed y) x).trans ?_
    simp

theorem mem_missed_remove :
    x ∈ (s.sessionRemove y).missed ↔ s.movedBack y = some x ∨ x ∈ s.missed := by
  rw [ManagerPass.sessionRemove]
  split
  · next hc => simp [ManagerPass.movedBack, hc]
  · rw [List.mem_append, Option.mem_toList]

/-- A session that is moved behind the pass was ahead of it. -/
theorem mem_ahead_of_movedBack (h : s.movedBack y = some x) : x ∈ s.ahead :=
  mem_drop_of_movedBack (Option.ite_none_left_eq_some.mp h).2

theorem mem_ahead_remove (hn : s.sessions.Nodup) (hy : y ∈ s.sessions) (hc : s.closing y = false) :
    x ∈ (s.sessionRemove y).ahead ↔ x ∈ s.ahead ∧ x ≠ y ∧ s.movedBack y ≠ some x := by
  have hopen : ¬ s.closing y = true := by simp [hc]
  rw [ManagerPass.sessionRemove, if_neg hopen, ManagerPass.movedBack, if_neg hopen]
  exact mem_drop_dropSession hy hn

/-- A pass over the sessions `first`: those ahead of it have not been visited, and those
behind it have been visited once if they are pinned to the poller and were not moved there. -/
structure PassInv (onManager : Bool) (poller : Nat → Nat) (p : Nat) (first : List Nat)
    (s : ManagerPass) : Prop where
  nodup : s.sessions.Nodup
  first_known : ∀ x ∈ first, x ∈ s.known
  listed : ∀ x ∈ s.sessions, x ∈ s.known
  kept : ∀ x ∈ s.known, x ∈ s.sessions ↔ s.closing x = false
  gone : ∀ x, .removed x ∈ s.trace → x ∈ s.known ∧ s.closing x = true
  ahead : ∀ x ∈ first, x ∈ s.ahead → s.visits x = [] ∧ x ∉ s.missed
  behind : ∀ x ∈ first, x ∈ s.sessions → x ∉ s.ahead →
    s.visits x = if poller x = p ∧ x ∉ s.missed then passVisit onManager x else []
  quiet : s.Quiet
  fin : s.done = true → s.calling = none ∧ s.sessions.length ≤ s.i

namespace PassInv

theorem start {closing : Nat → Bool} (hn : first.Nodup) (hc : ∀ x ∈ first, closing x = false) :
    PassInv onManager poller p first (.start first closing) where
  nodup := hn
  first_known x hx := hx
  listed x hx := hx
  kept x hx := iff_of_true hx (hc x hx)
  gone x hx := by cases hx
  ahead x hx _ := ⟨rfl, List.not_mem_nil⟩
  behind x hx _ ha := absurd hx ha
  quiet := Trace.closed_nil
  fin h := by cases h

/-- The pass looks at a session, and visits it if it is pinned to the poller. -/
theorem advance (h : PassInv onManager poller p first s) (hcall : s.calling = none)
    (hx : s.sessions[s.i]? = some x) {i : Nat} {calling : Option Nat} {tr : List PassEvent}
    (hahead : { s with i := i, calling := calling, trace := tr }.ahead = s.sessions.drop (s.i + 1))
    (hvisits : ∀ z, { s with trace := tr }.visits z =
      s.visits z ++ if z = x ∧ poller x = p then passVisit onManager z else [])
    (hgone : ∀ z, .removed z ∈ tr → .removed z ∈ s.trace)
    (hquiet : { s with trace := tr }.Quiet) (hdone : s.done = false) :
    PassInv onManager poller p first { s with i := i, calling := calling, trace := tr } := by
  have hcons := ahead_eq_cons hcall hx
  have hnd : (x :: s.sessions.drop (s.i + 1)).Nodup :=
    hcons ▸ h.nodup.sublist (List.drop_sublist _ _)
  exact
    { h with
      gone := fun z hz => h.gone z (hgone z hz)
      ahead := fun z hz hm => by
        rw [hahead] at hm
        have hne : z ≠ x := fun he => (List.nodup_cons.mp hnd).1 (he ▸ hm)
        obtain ⟨hv, hmiss⟩ := h.ahead z hz (hcons ▸ List.mem_cons_of_mem x hm)
        refine ⟨(hvisits z).trans ?_, hmiss⟩
        rw [hv, if_neg fun he => hne he.1, List.append_nil]
      behind := fun z hz hs hm => by
        rw [hahead] at hm
        refine (hvisits z).trans ?_
        by_cases he : z = x
        · subst he
          obtain ⟨hv, hmiss⟩ := h.ahead z hz (hcons ▸ List.mem_cons_self)
          rw [hv, List.nil_append]
          exact if_congr ⟨fun hp => ⟨hp.2, hmiss⟩, fun hp => ⟨rfl, hp.1⟩⟩ rfl rfl
        · have hm : z ∉ s.ahead := by
            rw [hcons, List.mem_cons, not_or]
            exact ⟨he, hm⟩
          rw [if_neg fun hp => he hp.1, List.append_nil]
          exact h.behind z hz hs hm
      quiet := hquiet
      fin := fun hd => by
        have hd : s.done = true := hd
        rw [hdone] at hd
        cases hd }

/-- A session that is not pinned to the poller is passed over. -/
theorem skip (h : PassInv onManager poller p first s) (hcall : s.calling = none)
    (hdone : s.done = false) (hx : s.sessions[s.i]? = some x)
    (hc : s.closing x = true ∨ poller x ≠ p) :
    PassInv onManager poller p first { s with i := s.i + 1 } := by
  have hmem : x ∈ s.sessions := List.mem_of_getElem? hx
  have hopen : s.closing x = false := (h.kept x (h.listed x hmem)).mp hmem
  have hp : poller x ≠ p := hc.resolve_left (by simp [hopen])
  have hahead : { s with i := s.i + 1, calling := none, trace := s.trace }.ahead =
      s.sessions.drop (s.i + 1) := rfl
  have hvis : ∀ z, s.visits z =
      s.visits z ++ if z = x ∧ poller x = p then passVisit onManager z else [] := by
    intro z
    rw [if_neg fun he => hp he.2, List.append_nil]
  have hnext := h.advance hcall hx hahead hvis (fun z hz => hz) h.quiet hdone
  rw [← hcall] at hnext
  exact hnext

/-- A session that is pinned to the poller is visited. -/
theorem visit (h : PassInv onManager poller p first s) (hcall : s.calling = none)
    (hdone : s.done = false) (hx : s.sessions[s.i]? = some x) (hp : poller x = p) :
    PassInv onManager poller p first (s.visit onManager x) := by
  have hmem : x ∈ s.sessions := List.mem_of_getElem? hx
  have hlive : .removed x ∉ s.trace := fun hr => by
    have hopen := (h.kept x (h.listed x hmem)).mp hmem
    rw [(h.gone x hr).2] at hopen
    cases hopen
  have hvis : ∀ z, (s.visit onManager x).visits z =
      s.visits z ++ if z = x ∧ poller x = p then passVisit onManager z else [] := by
    intro z
    rw [visits_visit]
    simp only [hp, and_true]
  have hflush : Trace.Closed .removed PassEvent.Visits (s.trace ++ [PassEvent.flush x]) := by
    refine Trace.closed_concat.mpr ⟨h.quiet, fun z hz hv => ?_⟩
    exact hlive ((visits_flush x z).mp hv ▸ hz)
  have hahead := ahead_visit onManager s x hcall
  cases onManager with
  | true =>
      refine h.advance hcall hx hahead hvis (fun z hz => by simpa using hz) ?_ hdone
      refine Trace.closed_concat.mpr ⟨hflush, fun z hz hv => ?_⟩
      rw [← (visits_manager x z).mp hv] at hz
      exact hlive (by simpa using hz)
  | false => exact h.advance hcall hx hahead hvis (fun z hz => by simpa using hz) hflush hdone

/-- A session in the array is closed while `on_manager` runs. -/
theorem remove_open (h : PassInv onManager poller p first s) (hcall : s.calling.isSome)
    (hmem : y ∈ s.sessions) (hc : s.closing y = false) :
    PassInv onManager poller p first (s.sessionRemove y) := by
  have hopen : ¬ s.closing y = true := by simp [hc]
  have heq : s.sessionRemove y = { s with
      closing := Function.update s.closing y true
      sessions := Registry.dropSession s.sessions y
      missed := (s.movedBack y).toList ++ s.missed
      trace := s.trace ++ [PassEvent.removed y] } := if_neg hopen
  have hdrop : ∀ {x}, x ∈ (s.sessionRemove y).sessions ↔ x ∈ s.sessions ∧ x ≠ y := by
    intro x
    rw [heq]
    exact mem_dropSession hmem h.nodup
  have hahead : ∀ {x}, x ∈ (s.sessionRemove y).ahead ↔
      x ∈ s.ahead ∧ x ≠ y ∧ s.movedBack y ≠ some x := mem_ahead_remove h.nodup hmem hc
  have hclosing : ∀ {x}, (s.sessionRemove y).closing x = true ↔ x = y ∨ s.closing x = true := by
    intro x
    rw [heq]
    by_cases he : x = y <;> simp [he]
  have hknown : (s.sessionRemove y).known = s.known := by rw [heq]
  exact
    { nodup := by
        rw [heq]
        exact nodup_dropSession hmem h.nodup
      first_known := fun x hx => hknown ▸ h.first_known x hx
      listed := fun x hx => hknown ▸ h.listed x (hdrop.mp hx).1
      kept := fun x hx => by
        rw [← Bool.not_eq_true, hclosing, hdrop, not_or, Bool.not_eq_true,
          h.kept x (hknown ▸ hx), and_comm]
      gone := fun x hx => by
        rw [hknown, hclosing]
        rw [heq] at hx
        rcases List.mem_append.mp hx with hx | hx
        · obtain ⟨hk, hcl⟩ := h.gone x hx
          exact ⟨hk, .inr hcl⟩
        · cases List.mem_singleton.mp hx
          exact ⟨h.listed y hmem, .inl rfl⟩
      ahead := fun x hx hm => by
        obtain ⟨hm, -, hne⟩ := hahead.mp hm
        obtain ⟨hv, hmiss⟩ := h.ahead x hx hm
        rw [visits_remove, mem_missed_remove]
        exact ⟨hv, not_or.mpr ⟨hne, hmiss⟩⟩
      behind := fun x hx hs hm => by
        obtain ⟨hs, hne⟩ := hdrop.mp hs
        rw [visits_remove]
        by_cases hmv : s.movedBack y = some x
        · rw [(h.ahead x hx (mem_ahead_of_movedBack hmv)).1,
            if_neg fun hh => hh.2 (mem_missed_remove.mpr (.inl hmv))]
        · have hah : x ∉ s.ahead := fun hah => hm (hahead.mpr ⟨hah, hne, hmv⟩)
          have hmiss : x ∈ (s.sessionRemove y).missed ↔ x ∈ s.missed :=
            mem_missed_remove.trans (or_iff_right hmv)
          rw [h.behind x hx hs hah]
          exact if_congr (and_congr_right fun _ => not_congr hmiss.symm) rfl rfl
      quiet := by
        rw [heq]
        exact h.quiet.append_unused (by simp)
      fin := fun hd => by
        rw [heq] at hd
        rw [(h.fin hd).1] at hcall
        cases hcall }

/-- A session is closed while `on_manager` runs. -/
theorem remove (h : PassInv onManager poller p first s) (hcall : s.calling.isSome)
    (hy : y ∈ s.known) : PassInv onManager poller p first (s.sessionRemove y) := by
  cases hc : s.closing y with
  | true =>
      rw [ManagerPass.sessionRemove, if_pos hc]
      exact h
  | false => exact h.remove_open hcall ((h.kept y hy).mpr hc) hc

/-- A session is added while `on_manager` runs. -/
theorem add (h : PassInv onManager poller p first s) (hcall : s.calling.isSome)
    (hy : y ∉ s.known) : PassInv onManager poller p first (s.sessionListAdd y) := by
  have hother : ∀ x ∈ s.known, x ≠ y := fun x hx he => hy (he ▸ hx)
  have hsess : ∀ x ∈ s.known, x ∈ s.sessions ++ [y] ↔ x ∈ s.sessions := by
    intro x hx
    simp [hother x hx]
  have hahead : ∀ x ∈ s.known, x ∈ (s.sessions ++ [y]).drop s.reached ↔ x ∈ s.ahead := by
    intro x hx
    rw [List.drop_append, List.mem_append]
    refine or_iff_left fun hm => hother x hx ?_
    exact List.mem_singleton.mp (List.mem_of_mem_drop hm)
  exact
    { nodup := List.Nodup.append h.nodup (List.nodup_singleton y)
        (by simpa using fun hm => hy (h.listed y hm))
      first_known := fun x hx => List.mem_cons_of_mem y (h.first_known x hx)
      listed := fun x hx => by
        rcases List.mem_append.mp hx with hx | hx
        · exact List.mem_cons_of_mem y (h.listed x hx)
        · exact List.mem_singleton.mp hx ▸ List.mem_cons_self
      kept := fun x hx => by
        show x ∈ s.sessions ++ [y] ↔ Function.update s.closing y false x = false
        rcases List.mem_cons.mp hx with rfl | hx
        · simp
        · rw [hsess x hx, Function.update_of_ne (hother x hx)]
          exact h.kept x hx
      gone := fun x hx => by
        obtain ⟨hk, hc⟩ := h.gone x hx
        refine ⟨List.mem_cons_of_mem y hk, ?_⟩
        show Function.update s.closing y false x = true
        rwa [Function.update_of_ne (hother x hk)]
      ahead := fun x hx hm => h.ahead x hx ((hahead x (h.first_known x hx)).mp hm)
      behind := fun x hx hs hm => by
        have hk := h.first_known x hx
        exact h.behind x hx ((hsess x hk).mp hs) fun ha => hm ((hahead x hk).mpr ha)
      quiet := h.quiet
      fin := fun hd => by
        rw [(h.fin hd).1] at hcall
        cases hcall }

/-- `on_manager` returns. -/
theorem ret (h : PassInv onManager poller p first s) (hcall : s.calling.isSome) :
    PassInv onManager poller p first { s with calling := none, i := s.i + 1 } := by
  have hahead : { s with calling := none, i := s.i + 1 }.ahead = s.ahead := by
    simp [ManagerPass.ahead, ManagerPass.reached, hcall]
  exact
    { h with
      ahead := fun x hx hm => h.ahead x hx (hahead ▸ hm)
      behind := fun x hx hs hm => h.behind x hx hs fun ha => hm (hahead ▸ ha)
      fin := fun hd => by
        rw [(h.fin hd).1] at hcall
        cases hcall }

/-- The index has reached the end of the array. -/
theorem finish (h : PassInv onManager poller p first s) (hcall : s.calling = none)
    (hi : s.sessions[s.i]? = none) : PassInv onManager poller p first { s with done := true } :=
  { h with fin := fun _ => ⟨hcall, List.getElem?_eq_none_iff.mp hi⟩ }

theorem move (h : PassInv onManager poller p first s)
    (hm : PassMove onManager poller p s a t) : PassInv onManager poller p first t := by
  cases hm with
  | finish hcall hi => exact h.finish hcall hi
  | skip hcall hdone hx hc => exact h.skip hcall hdone hx hc
  | visit hcall hdone hx hp => exact h.visit hcall hdone hx hp
  | close hcall hy => exact h.remove hcall hy
  | add hcall hy => exact h.add hcall hy
  | ret hcall => exact h.ret hcall

/-- What has been visited when the pass returns. -/
theorem visits_done (h : PassInv onManager poller p first s) (hd : s.done = true)
    (hx : x ∈ first) (hs : x ∈ s.sessions) (hp : poller x = p) :
    s.visits x = passVisit onManager x ↔ x ∉ s.missed := by
  obtain ⟨hcall, hlen⟩ := h.fin hd
  have hnone : s.ahead = [] := by
    rw [ManagerPass.ahead, ManagerPass.reached, hcall]
    exact List.drop_eq_nil_of_le hlen
  rw [h.behind x hx hs (hnone ▸ List.not_mem_nil)]
  by_cases hm : x ∈ s.missed
  · rw [if_neg fun hh => hh.2 hm]
    exact iff_of_false (by simp [passVisit]) (not_not.mpr hm)
  · rw [if_pos ⟨hp, hm⟩]
    exact iff_of_true rfl hm

end PassInv

/-! ## The sessions moved behind the pass -/

theorem missed_sub (hm : PassMove onManager poller p s a t) : s.missed ⊆ t.missed := by
  cases hm with
  | finish hcall hi => exact List.Subset.refl _
  | skip hcall hdone hx hc => exact List.Subset.refl _
  | visit hcall hdone hx hp =>
      rw [missed_visit]
      exact List.Subset.refl _
  | close hcall hy => exact fun z hz => mem_missed_remove.mpr (.inr hz)
  | add hcall hy => exact List.Subset.refl _
  | ret hcall => exact List.Subset.refl _

/-- A session that stays is missed from a step on exactly if the step moves one behind the
pass. -/
theorem missed_step_iff {stays : List Nat} (hm : PassMove onManager poller p s a t)
    (hs : ¬ ∃ z ∈ s.missed, z ∈ stays ∧ poller z = p) :
    (¬ ∃ z ∈ t.missed, z ∈ stays ∧ poller z = p) ↔ s.KeepsAhead poller p stays a := by
  cases hm with
  | finish hcall hi => exact iff_of_true hs trivial
  | skip hcall hdone hx hc => exact iff_of_true hs trivial
  | visit hcall hdone hx hp =>
      rw [missed_visit]
      exact iff_of_true hs trivial
  | close hcall hy =>
      constructor
      · intro h z hz hst
        exact h ⟨z, mem_missed_remove.mpr (.inl hz), hst⟩
      · rintro h ⟨z, hz, hst⟩
        rcases mem_missed_remove.mp hz with hz | hz
        · exact h z hz hst
        · exact hs ⟨z, hz, hst⟩
  | add hcall hy => exact iff_of_true hs trivial
  | ret hcall => exact iff_of_true hs trivial

end

/-- A pass flushes and calls `on_manager` once for each session that is pinned to the poller
and is in the array from its beginning to its end, and for no session after its removal,
exactly if no removal moves such a session behind the pass. -/
theorem manager_pass_visits_iff (onManager : Bool) (poller : Nat → Nat) (p : Nat)
    (sessions : List Nat) (closing : Nat → Bool) (as : List PassCall) (t : ManagerPass)
    (hn : sessions.Nodup) (hc : ∀ x ∈ sessions, closing x = false)
    (h : (managerPass onManager poller p).run (.start sessions closing) as = some t)
    (hd : t.done = true) :
    (∀ x ∈ sessions, x ∈ t.sessions → poller x = p → t.visits x = passVisit onManager x) ∧
        t.Quiet ↔
      (managerPass onManager poller p).RunMeets
        (ManagerPass.KeepsAhead poller p (sessions.filter (· ∈ t.sessions)))
        (.start sessions closing) as := by
  have hinv : PassInv onManager poller p sessions t :=
    (Machine.leads_of_run as _ t h (Machine.runMeets_any _ _)).invariant
      (fun _ _ _ hi _ hst => hi.move (.of_step hst)) (.start hn hc)
  have hrun := Machine.run_faultless_iff (M := managerPass onManager poller p)
    (F := fun s => ∃ z ∈ s.missed, z ∈ sessions.filter (· ∈ t.sessions) ∧ poller z = p)
    (fun s a u ⟨z, hz, hst⟩ hu => ⟨z, missed_sub (.of_step hu) hz, hst⟩)
    (fun s a u hs hu => missed_step_iff (.of_step hu) hs)
    as (.start sessions closing) t (fun ⟨z, hz, _⟩ => List.not_mem_nil hz) h
  rw [← hrun]
  constructor
  · rintro ⟨hvis, -⟩ ⟨z, hz, hst, hp⟩
    obtain ⟨hz1, hz2⟩ := List.mem_filter.mp hst
    have hz2 : z ∈ t.sessions := of_decide_eq_true hz2
    exact (hinv.visits_done hd hz1 hz2 hp).mp (hvis z hz1 hz2 hp) hz
  · intro hnone
    refine ⟨fun x hx hs hp => ?_, hinv.quiet⟩
    refine (hinv.visits_done hd hx hs hp).mpr fun hm => hnone ⟨x, hm, ?_, hp⟩
    exact List.mem_filter.mpr ⟨hx, decide_eq_true hs⟩

/-- The `on_manager` of session 0 closes its own session, and session 3 of another poller
takes its place. -/
def closeFirstOfFour : List PassCall := [.next, .close 0, .ret, .next, .ret, .next, .ret, .next]

/-- Session 3 is pinned to poller 1, the others to poller 0. -/
def thirdElsewhere (x : Nat) : Nat := if x = 3 then 1 else 0

theorem manager_pass_visits_others :
    ∃ t, (managerPass true thirdElsewhere 0).run (.start [0, 1, 2, 3] fun _ => false)
        closeFirstOfFour = some t ∧
      t.sessions = [3, 1, 2] ∧ t.visits 2 = [.flush 2, .manager 2] := by
  have hrun : ((managerPass true thirdElsewhere 0).run (.start [0, 1, 2, 3] fun _ => false)
      closeFirstOfFour).map (fun t => (t.sessions, t.done)) = some ([3, 1, 2], true) := by
    decide +kernel
  obtain ⟨t, ht, heq⟩ := Option.map_eq_some_iff.mp hrun
  obtain ⟨hsess, hdone⟩ : t.sessions = [3, 1, 2] ∧ t.done = true := by simpa using heq
  have hiff := manager_pass_visits_iff true thirdElsewhere 0 [0, 1, 2, 3] (fun _ => false)
    closeFirstOfFour t (by decide) (fun _ _ => rfl) ht hdone
  rw [hsess] at hiff
  exact ⟨t, ht, hsess, (hiff.mpr (by decide +kernel)).1 2 (by simp) (by simp) rfl⟩

/-- The `on_manager` of session 0 closes its own session, and session 2 takes its place. -/
def closeFirstOfThree : List PassCall := [.next, .close 0, .ret, .next, .ret, .next]

theorem manager_pass_misses_session :
    ∃ t, (managerPass true (fun _ => 0) 0).run (.start [0, 1, 2] fun _ => false)
        closeFirstOfThree = some t ∧
      t.done = true ∧ t.sessions = [2, 1] ∧ t.visits 2 = [] := by
  have hrun : ((managerPass true (fun _ => 0) 0).run (.start [0, 1, 2] fun _ => false)
      closeFirstOfThree).map (fun t => (t.done, t.sessions, t.visits 2)) =
        some (true, [2, 1], []) := by decide +kernel
  obtain ⟨t, ht, heq⟩ := Option.map_eq_some_iff.mp hrun
  obtain ⟨hdone, hsess, hvis⟩ : t.done = true ∧ t.sessions = [2, 1] ∧ t.visits 2 = [] := by
    simpa using heq
  exact ⟨t, ht, hdone, hsess, hvis⟩

end Ztk.Net
