import Ztk.Lib.Machine

/-!
# Reference counts under concurrency

`ztk_buf_ref`, `ztk_buf_unref` and `ztk_buf_try_ref` of `buf.c` on one buffer, by any
number of threads.  Each access to `refcnt` is one step: the fetch-and-add of the
first two, the load and the compare-exchange of the third.  Between its load and
its compare-exchange a thread holds a value that other threads may have outdated.

`owners` has one entry for each reference, the thread that owns it; a reference may
be passed to another thread.  The memory of the buffer is not used for anything
else during a run, also after it was given back.
-/

namespace Ztk.Util

open Ztk.Lib

/-! ## State -/

/-- Where a thread is. -/
inductive RefPhase where
  /-- In none of the functions. -/
  | idle
  /-- In `ztk_buf_try_ref` before the load. -/
  | load
  /-- In `ztk_buf_try_ref`, after the load of `c`. -/
  | exchange (c : BitVec 32)
  /-- In `ztk_buf_unref`, after its decrement has returned 1. -/
  | release
deriving DecidableEq

/-- What `ztk_buf_unref` calls in the end. -/
inductive Handed where
  /-- `ztk_buf_pool_release(b->pool, b, b->pool_blk_cap)`. -/
  | poolRelease
  /-- `free(b)`. -/
  | free
deriving DecidableEq

/-- One buffer and the threads that use it. -/
structure RefState where
  refcnt : BitVec 32
  /-- `b->pool` is not null. -/
  pooled : Bool
  /-- The owner of each reference. -/
  owners : List Nat
  phase : Nat → RefPhase
  /-- The threads in `RefPhase.release`. -/
  releasing : List Nat
  handed : List Handed
  /-- The calls of `ztk_buf_try_ref` that have returned, and whether they got the
  buffer. -/
  tries : List (Nat × Bool)

namespace RefState

/-- A new buffer, owned by the thread that allocated it. -/
def start (pooled : Bool) (thread : Nat) : RefState where
  refcnt := 1
  pooled := pooled
  owners := [thread]
  phase := fun _ => .idle
  releasing := []
  handed := []
  tries := []

/-- The thread goes to another place. -/
def goto (s : RefState) (thread : Nat) (phase : RefPhase) : RefState :=
  { s with phase := Function.update s.phase thread phase }

/-- `ztk_atomic_fetch_add(&b->refcnt, 1)` of `ztk_buf_ref`. -/
def ref (s : RefState) (thread : Nat) : RefState :=
  { s with refcnt := s.refcnt + 1, owners := thread :: s.owners }

/-- `ztk_atomic_fetch_add(&b->refcnt, -1)` of `ztk_buf_unref`. -/
def unref (s : RefState) (thread : Nat) : RefState :=
  let t := { s with refcnt := s.refcnt - 1, owners := s.owners.erase thread }
  if s.refcnt = 1 then { t.goto thread .release with releasing := thread :: s.releasing } else t

/-- The rest of `ztk_buf_unref` after the last reference. -/
def release (s : RefState) (thread : Nat) : RefState :=
  { s.goto thread .idle with
    releasing := s.releasing.erase thread
    handed := s.handed ++ [if s.pooled then .poolRelease else .free] }

/-- A call of `ztk_buf_try_ref` returns. -/
def returns (s : RefState) (thread : Nat) (got : Bool) : RefState :=
  { s.goto thread .idle with tries := s.tries ++ [(thread, got)] }

/-- The load of `ztk_buf_try_ref`, and the test of what it has loaded. -/
def tryLoad (s : RefState) (thread : Nat) : RefState :=
  if s.refcnt.toInt ≤ 0 then s.returns thread false else s.goto thread (.exchange s.refcnt)

/-- The compare-exchange of `ztk_buf_try_ref`. -/
def tryExchange (s : RefState) (thread : Nat) (c : BitVec 32) : RefState :=
  if s.refcnt = c then
    { s with refcnt := c + 1, owners := thread :: s.owners }.returns thread true
  else s.goto thread .load

end RefState

/-! ## The machine -/

/-- One step of a thread. -/
inductive RefAct where
  | ref (thread : Nat)
  | unref (thread : Nat)
  /-- `ztk_buf_pool_release` or `free`, at the end of `ztk_buf_unref`. -/
  | release (thread : Nat)
  /-- A call of `ztk_buf_try_ref`. -/
  | tryRef (thread : Nat)
  | tryLoad (thread : Nat)
  | tryExchange (thread : Nat)
  /-- A thread passes one of its references on. -/
  | pass (thread other : Nat)

def refStep (s : RefState) : RefAct → Option RefState
  | .ref thread =>
      if s.phase thread = .idle ∧ thread ∈ s.owners then some (s.ref thread) else none
  | .unref thread =>
      if s.phase thread = .idle ∧ thread ∈ s.owners then some (s.unref thread) else none
  | .release thread => if s.phase thread = .release then some (s.release thread) else none
  | .tryRef thread => if s.phase thread = .idle then some (s.goto thread .load) else none
  | .tryLoad thread => if s.phase thread = .load then some (s.tryLoad thread) else none
  | .tryExchange thread =>
      match s.phase thread with
      | .exchange c => some (s.tryExchange thread c)
      | _ => none
  | .pass thread other =>
      if s.phase thread = .idle ∧ thread ∈ s.owners then
        some { s with owners := other :: s.owners.erase thread }
      else none

/-- A buffer and its threads as a machine. -/
def refMachine : Machine RefState RefAct := ⟨refStep⟩

/-- There are fewer than `2 ^ 31` references, also after a step that takes one. -/
def FewOwners (s : RefState) : RefAct → Prop
  | .ref _ => s.owners.length + 1 < 2 ^ 31
  | .tryExchange _ => s.owners.length + 1 < 2 ^ 31
  | _ => True

instance (s : RefState) (a : RefAct) : Decidable (FewOwners s a) :=
  match a with
  | .ref _ => inferInstanceAs (Decidable (s.owners.length + 1 < 2 ^ 31))
  | .tryExchange _ => inferInstanceAs (Decidable (s.owners.length + 1 < 2 ^ 31))
  | .unref _ | .release _ | .tryRef _ | .tryLoad _ | .pass _ _ => isTrue trivial

/-! ## The invariant -/

/-- The count is the number of references, and the buffer was given back, or is about
to be, exactly when there is none. -/
structure RefInv (s : RefState) : Prop where
  few : s.owners.length < 2 ^ 31
  count : s.refcnt = BitVec.ofNat 32 s.owners.length
  /-- A value that was loaded is positive. -/
  loaded : ∀ thread c, s.phase thread = .exchange c → 0 < c.toInt
  releasing : ∀ thread, s.phase thread = .release ↔ thread ∈ s.releasing
  once : s.handed.length + s.releasing.length = if s.owners = [] then 1 else 0

theorem toInt_ofNat_few {n : Nat} (h : n < 2 ^ 31) : (BitVec.ofNat 32 n).toInt = n := by
  rw [BitVec.toInt_ofNat']
  exact Int.bmod_eq_of_le (by omega) (by omega)

theorem ofNat_few_inj {m n : Nat} (hm : m < 2 ^ 31) (hn : n < 2 ^ 31) :
    BitVec.ofNat 32 m = BitVec.ofNat 32 n ↔ m = n := by
  refine ⟨fun h => ?_, fun h => by rw [h]⟩
  have := congrArg BitVec.toInt h
  rw [toInt_ofNat_few hm, toInt_ofNat_few hn] at this
  exact_mod_cast this

theorem RefInv.start (pooled : Bool) (thread : Nat) : RefInv (.start pooled thread) where
  few := by show 1 < 2 ^ 31; decide
  count := rfl
  loaded := fun _ _ h => by cases h
  releasing := fun t => by
    show RefPhase.idle = RefPhase.release ↔ t ∈ []
    simp
  once := rfl

namespace RefInv

variable {s : RefState} {thread : Nat}

theorem toInt (h : RefInv s) : s.refcnt.toInt = s.owners.length := by
  rw [h.count, toInt_ofNat_few h.few]

/-- A thread moves to a place where what it has loaded is positive. -/
theorem loaded_update (h : RefInv s) {p : RefPhase}
    (hpos : ∀ c, p = .exchange c → 0 < c.toInt) :
    ∀ t c, Function.update s.phase thread p t = .exchange c → 0 < c.toInt :=
  (Function.forall_update_iff s.phase fun _ q => ∀ c, q = .exchange c → 0 < c.toInt).mpr
    ⟨hpos, fun t _ => h.loaded t⟩

/-- A thread moves between places other than the release. -/
theorem goto (h : RefInv s) (hold : s.phase thread ≠ .release) {p : RefPhase}
    (hnew : p ≠ .release) (hpos : ∀ c, p = .exchange c → 0 < c.toInt) :
    RefInv (s.goto thread p) :=
  { h with
    loaded := h.loaded_update hpos
    releasing := fun t => by
      show Function.update s.phase thread p t = .release ↔ t ∈ s.releasing
      by_cases he : t = thread
      · subst he
        rw [Function.update_self, ← h.releasing t]
        exact iff_of_false hnew hold
      · rw [Function.update_of_ne he]
        exact h.releasing t }

/-- One more reference, while there is one. -/
theorem take (h : RefInv s) (hne : s.owners ≠ []) (hfew : s.owners.length + 1 < 2 ^ 31) :
    RefInv { s with refcnt := s.refcnt + 1, owners := thread :: s.owners } :=
  { h with
    few := hfew
    count := by
      show s.refcnt + 1 = BitVec.ofNat 32 (s.owners.length + 1)
      rw [h.count, BitVec.ofNat_add]
      rfl
    once := by
      have := h.once
      rw [if_neg hne] at this
      rw [if_neg (List.cons_ne_nil _ _)]
      exact this }

/-- One reference less. -/
theorem drop (h : RefInv s) (hidle : s.phase thread ≠ .release) (hm : thread ∈ s.owners) :
    RefInv (s.unref thread) := by
  have hlen := List.length_erase_of_mem hm
  have hpos : 0 < s.owners.length := List.length_pos_of_mem hm
  have hfew := h.few
  have hcount : s.refcnt - 1 = BitVec.ofNat 32 (s.owners.erase thread).length := by
    have hsucc : s.owners.length = (s.owners.erase thread).length + 1 := by omega
    rw [h.count, hsucc, BitVec.ofNat_add]
    exact BitVec.add_sub_cancel _ _
  have hone : s.refcnt = 1 ↔ s.owners.erase thread = [] := by
    rw [h.count, show (1 : BitVec 32) = BitVec.ofNat 32 1 from rfl,
      ofNat_few_inj h.few (by decide), ← List.length_eq_zero_iff]
    omega
  have hne : s.owners ≠ [] := List.ne_nil_of_mem hm
  have honce := h.once
  rw [if_neg hne] at honce
  simp only [RefState.unref]
  split
  · next hlast =>
      refine ⟨by show (s.owners.erase thread).length < _; omega, hcount,
        h.loaded_update fun c hc => (by cases hc), ?_, ?_⟩
      · intro t
        show Function.update s.phase thread .release t = .release ↔ t ∈ thread :: s.releasing
        by_cases he : t = thread
        · subst he
          rw [Function.update_self]
          exact iff_of_true rfl List.mem_cons_self
        · rw [Function.update_of_ne he, h.releasing t, List.mem_cons]
          exact ⟨Or.inr, fun ht => ht.resolve_left he⟩
      · show s.handed.length + (thread :: s.releasing).length =
          if s.owners.erase thread = [] then 1 else 0
        rw [if_pos (hone.mp hlast), List.length_cons]
        omega
  · next hlast =>
      exact
        { h with
          few := by show (s.owners.erase thread).length < _; omega
          count := hcount
          once := by
            show s.handed.length + s.releasing.length =
              if s.owners.erase thread = [] then 1 else 0
            rw [if_neg fun he => hlast (hone.mpr he)]
            exact honce }

theorem release (h : RefInv s) (hr : s.phase thread = .release) : RefInv (s.release thread) := by
  have hm := (h.releasing thread).mp hr
  have honce := h.once
  have hlen := List.length_erase_of_mem hm
  have hpos : 0 < s.releasing.length := List.length_pos_of_mem hm
  have hsingle : s.releasing = [thread] := by
    have : s.releasing.length = 1 := by
      split at honce
      · omega
      · omega
    obtain ⟨x, hx⟩ := List.length_eq_one_iff.mp this
    rw [hx] at hm ⊢
    rw [List.mem_singleton.mp hm]
  refine ⟨h.few, h.count, h.loaded_update fun c hc => (by cases hc), ?_, ?_⟩
  · intro t
    show Function.update s.phase thread .idle t = .release ↔ t ∈ s.releasing.erase thread
    by_cases he : t = thread
    · subst he
      rw [Function.update_self, hsingle]
      simp
    · rw [Function.update_of_ne he, h.releasing t, hsingle]
      simp [he]
  · show (s.handed ++ [_]).length + (s.releasing.erase thread).length = _
    rw [List.length_append, List.length_singleton, hlen]
    show _ = if s.owners = [] then 1 else 0
    omega

/-- A thread in `ztk_buf_try_ref` that has loaded a count gets a reference only while
somebody owns one. -/
theorem owners_of_exchange (h : RefInv s) {c : BitVec 32} (hp : s.phase thread = .exchange c)
    (hc : s.refcnt = c) : s.owners ≠ [] := by
  intro he
  have hpos := h.loaded thread c hp
  rw [← hc, h.toInt, he] at hpos
  exact absurd hpos (by decide)

/-- A call of `ztk_buf_try_ref` returns. -/
theorem returns (h : RefInv s) (hold : s.phase thread ≠ .release) (got : Bool) :
    RefInv (s.returns thread got) :=
  { h.goto hold (p := .idle) (by simp) (by simp) with }

theorem tryExchange (h : RefInv s) {c : BitVec 32} (hp : s.phase thread = .exchange c)
    (hfew : s.owners.length + 1 < 2 ^ 31) : RefInv (s.tryExchange thread c) := by
  have hold : s.phase thread ≠ .release := by rw [hp]; simp
  simp only [RefState.tryExchange]
  split
  · next hc =>
      subst hc
      have htaken : RefInv { s with refcnt := s.refcnt + 1, owners := thread :: s.owners } :=
        h.take (h.owners_of_exchange hp rfl) hfew
      exact htaken.returns hold true
  · exact h.goto hold (by simp) (by simp)

theorem tryLoad (h : RefInv s) (hp : s.phase thread = .load) : RefInv (s.tryLoad thread) := by
  have hold : s.phase thread ≠ .release := by rw [hp]; simp
  simp only [RefState.tryLoad]
  split
  · exact h.returns hold false
  · next hpos =>
      refine h.goto hold (by simp) fun c hc => ?_
      cases hc
      omega

theorem pass (h : RefInv s) (hm : thread ∈ s.owners) (other : Nat) :
    RefInv { s with owners := other :: s.owners.erase thread } := by
  have hlen : (other :: s.owners.erase thread).length = s.owners.length := by
    have := List.length_erase_of_mem hm
    have := List.length_pos_of_mem hm
    rw [List.length_cons]
    omega
  exact
    { h with
      few := by rw [hlen]; exact h.few
      count := by rw [hlen]; exact h.count
      once := by
        have honce := h.once
        rw [if_neg (List.ne_nil_of_mem hm)] at honce
        rw [if_neg (List.cons_ne_nil _ _)]
        exact honce }

theorem step (h : RefInv s) {a : RefAct} {t : RefState} (hfew : FewOwners s a)
    (hs : refMachine.step s a = some t) : RefInv t := by
  cases a with
  | ref thread =>
      obtain ⟨⟨-, hm⟩, hs⟩ := Option.ite_none_right_eq_some.mp hs
      cases hs
      exact h.take (List.ne_nil_of_mem hm) hfew
  | unref thread =>
      obtain ⟨⟨hidle, hm⟩, hs⟩ := Option.ite_none_right_eq_some.mp hs
      cases hs
      exact h.drop (by rw [hidle]; simp) hm
  | release thread =>
      obtain ⟨hr, hs⟩ := Option.ite_none_right_eq_some.mp hs
      cases hs
      exact h.release hr
  | tryRef thread =>
      obtain ⟨hidle, hs⟩ := Option.ite_none_right_eq_some.mp hs
      cases hs
      exact h.goto (by rw [hidle]; simp) (by simp) (by simp)
  | tryLoad thread =>
      obtain ⟨hp, hs⟩ := Option.ite_none_right_eq_some.mp hs
      cases hs
      exact h.tryLoad hp
  | tryExchange thread =>
      simp only [refMachine, refStep] at hs
      split at hs
      · next c hp =>
          cases hs
          exact h.tryExchange hp hfew
      · cases hs
  | pass thread other =>
      obtain ⟨⟨-, hm⟩, hs⟩ := Option.ite_none_right_eq_some.mp hs
      cases hs
      exact h.pass hm other

/-! ## After the last reference -/

/-- Once there is no reference, a step gives none and every call of `ztk_buf_try_ref`
that it ends has got nothing. -/
theorem dead_step (h : RefInv s) (hd : s.owners = []) {a : RefAct} {t : RefState}
    (hs : refMachine.step s a = some t) :
    t.owners = [] ∧ ∃ l, t.tries = s.tries ++ l ∧ ∀ r ∈ l, r.2 = false := by
  have hnone : ∀ thread, thread ∉ s.owners := fun thread hm => by
    rw [hd] at hm
    cases hm
  have hsame : t.owners = s.owners → t.tries = s.tries →
      t.owners = [] ∧ ∃ l, t.tries = s.tries ++ l ∧ ∀ r ∈ l, r.2 = false :=
    fun ho ht => ⟨ho.trans hd, [], by rw [ht, List.append_nil], fun r hr => by cases hr⟩
  cases a with
  | ref thread =>
      obtain ⟨⟨-, hm⟩, -⟩ := Option.ite_none_right_eq_some.mp hs
      exact absurd hm (hnone thread)
  | unref thread =>
      obtain ⟨⟨-, hm⟩, -⟩ := Option.ite_none_right_eq_some.mp hs
      exact absurd hm (hnone thread)
  | pass thread other =>
      obtain ⟨⟨-, hm⟩, -⟩ := Option.ite_none_right_eq_some.mp hs
      exact absurd hm (hnone thread)
  | release thread =>
      obtain ⟨-, hs⟩ := Option.ite_none_right_eq_some.mp hs
      cases hs
      exact hsame rfl rfl
  | tryRef thread =>
      obtain ⟨-, hs⟩ := Option.ite_none_right_eq_some.mp hs
      cases hs
      exact hsame rfl rfl
  | tryLoad thread =>
      obtain ⟨-, hs⟩ := Option.ite_none_right_eq_some.mp hs
      have hz : s.refcnt.toInt ≤ 0 := by
        rw [h.toInt, hd]
        exact Int.le_refl 0
      rw [RefState.tryLoad, if_pos hz] at hs
      cases hs
      exact ⟨hd, [(thread, false)], rfl, fun r hr => by rw [List.mem_singleton.mp hr]⟩
  | tryExchange thread =>
      simp only [refMachine, refStep] at hs
      split at hs
      · next c hp =>
          rw [RefState.tryExchange, if_neg fun hc => h.owners_of_exchange hp hc hd] at hs
          cases hs
          exact hsame rfl rfl
      · cases hs

theorem dead_run (h : RefInv s) (hd : s.owners = []) {t : RefState}
    (hl : refMachine.Leads FewOwners s t) :
    RefInv t ∧ t.owners = [] ∧ ∃ l, t.tries = s.tries ++ l ∧ ∀ r ∈ l, r.2 = false := by
  induction hl with
  | refl => exact ⟨h, hd, [], by rw [List.append_nil], fun r hr => by cases hr⟩
  | tail _ hfew hs ih =>
      obtain ⟨hinv, hown, l, hl, hnull⟩ := ih
      obtain ⟨hown', l', hl', hnull'⟩ := hinv.dead_step hown hs
      refine ⟨hinv.step hfew hs, hown', l ++ l', by rw [hl', hl, List.append_assoc], ?_⟩
      intro r hr
      rcases List.mem_append.mp hr with hr | hr
      · exact hnull r hr
      · exact hnull' r hr

end RefInv

/-- In every interleaving the count is the number of references owned; the buffer is
given back once, by the call that drops the last of them; and from then on no call of
`ztk_buf_try_ref` gets it. -/
theorem buf_refcount_exact (pooled : Bool) (thread : Nat) (s : RefState)
    (h : refMachine.Leads FewOwners (.start pooled thread) s) :
    s.refcnt.toInt = s.owners.length ∧
      (s.handed.length + s.releasing.length = if s.owners = [] then 1 else 0) ∧
      (s.owners = [] → ∀ t, refMachine.Leads FewOwners s t →
        t.owners = [] ∧ ∃ l, t.tries = s.tries ++ l ∧ ∀ r ∈ l, r.2 = false) := by
  have hinv : RefInv s := h.invariant (fun _ _ _ hi hc hs => hi.step hc hs)
    (RefInv.start pooled thread)
  exact ⟨hinv.toInt, hinv.once, fun hd t hl => (hinv.dead_run hd hl).2⟩

/-- Thread 2 loads the count, thread 1 takes and drops references, and the exchange of
thread 2 fails. -/
def staleLoad : List RefAct :=
  [.tryRef 2, .tryLoad 2, .ref 1, .unref 1, .unref 1, .release 1, .tryExchange 2, .tryLoad 2]

theorem buf_refcount_stale_load :
    ∃ s, refMachine.run (.start true 1) staleLoad = some s ∧ s.tries = [(2, false)] ∧
      s.handed = [.poolRelease] ∧ s.refcnt.toInt = s.owners.length := by
  have hrun : (refMachine.run (.start true 1) staleLoad).map (fun s => (s.tries, s.handed))
      = some ([(2, false)], [.poolRelease]) := by decide +kernel
  obtain ⟨s, hs, heq⟩ := Option.map_eq_some_iff.mp hrun
  obtain ⟨htries, hhanded⟩ : s.tries = [(2, false)] ∧ s.handed = [.poolRelease] := by
    simpa using heq
  refine ⟨s, hs, htries, hhanded, (buf_refcount_exact true 1 s ?_).1⟩
  exact Machine.leads_of_run staleLoad _ _ hs (by decide +kernel)

end Ztk.Util
