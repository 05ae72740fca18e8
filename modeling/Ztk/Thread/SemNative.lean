import Ztk.Err
import Ztk.Thread.Sem

/-!
# The semaphore over `sem_t`

`sem_pthread.c` as it is compiled with `ZTK_HAVE_POSIX_SEM`, which is usual on Linux.  A
`sem_t` is a value.  `sem_wait` and `sem_timedwait` lower it in one step when it is not 0,
and `sem_post` raises it in one step, or fails with `EOVERFLOW` where it has reached
`SEM_VALUE_MAX`.  This is `max`.

`ztk_sem_post` adds its tokens one by one, and other threads run between two of them.  When
`sem_post` fails, it returns `ZTK_ERR_PLATFORM` and keeps the tokens that it has added.

`posts`, `taken` and `timeouts` are records.  `posts` has the local variables of the calls
of `ztk_sem_post`, of those that have returned too.
-/

namespace Ztk.Thread

open Ztk.Lib

/-! ## State -/

/-- A call of `ztk_sem_post`. -/
structure NativePost where
  count : Nat
  /-- The tokens added so far. -/
  i : Nat
  /-- What the call has returned. -/
  result : Option Err
deriving DecidableEq

/-- The `errno` of `sem_wait` or `sem_timedwait`. -/
inductive NativeErrno where
  /-- `EINTR`. -/
  | interrupted
  /-- `ETIMEDOUT`, when the clock shows this. -/
  | timedOut (now : Timespec)
  | other
deriving DecidableEq

/-- Where a thread is. -/
inductive NativePhase where
  | idle
  /-- In `sem_wait`. -/
  | blocked
  /-- Before `clock_gettime` of `sem_wait_impl`. -/
  | clock (timeoutMs : Int)
  /-- In `sem_timedwait`. -/
  | timed (w : SemWait)
  /-- At the head of the loop of `ztk_sem_post`, in the call with this number. -/
  | posting (k : Nat)
deriving DecidableEq

/-- `ztk_sem`, and the threads that use it. -/
structure NativeSem where
  /-- The value of `native`. -/
  value : Nat
  phase : Nat → NativePhase
  posts : List NativePost
  /-- The calls that took a token and returned `ZTK_OK`. -/
  taken : Nat
  /-- The calls that returned `ZTK_ERR_TIMEOUT`, and when they gave up. -/
  timeouts : List (SemWait × Timespec)

namespace NativeSem

/-- `ztk_sem_create`.  `sem_init` fails for a value above `SEM_VALUE_MAX`. -/
def create (max : Nat) (initial : BitVec 32) : Option NativeSem :=
  if max < initial.toNat then none
  else some ⟨initial.toNat, fun _ => .idle, [], 0, []⟩

/-- The tokens that were added. -/
def posted (s : NativeSem) : Nat := (s.posts.map NativePost.i).sum

/-! ## The functions of the source -/

def goto (s : NativeSem) (t : Nat) (p : NativePhase) : NativeSem :=
  { s with phase := Function.update s.phase t p }

/-- `sem_wait_impl` up to its first call. -/
def waitImpl (s : NativeSem) (t : Nat) (timeoutMs : Int) : NativeSem :=
  if timeoutMs < 0 then s.goto t .blocked else s.goto t (.clock timeoutMs)

/-- `sem_wait` or `sem_timedwait` returns 0. -/
def acquire (s : NativeSem) (t : Nat) : Option NativeSem :=
  if 0 < s.value then
    some { s.goto t .idle with value := s.value - 1, taken := s.taken + 1 }
  else none

/-- One turn of the loop of `ztk_sem_post`, or its end. -/
def turn (max : Nat) (s : NativeSem) (t k : Nat) (p : NativePost) : NativeSem :=
  if p.i = p.count then { s.goto t .idle with posts := s.posts.set k { p with result := some .ok } }
  else if s.value < max then
    { s with value := s.value + 1, posts := s.posts.set k { p with i := p.i + 1 } }
  else { s.goto t .idle with posts := s.posts.set k { p with result := some .platform } }

end NativeSem

/-! ## The machine -/

inductive NativeAct where
  /-- `ztk_sem_wait`. -/
  | wait (t : Nat)
  /-- `ztk_sem_timedwait`. -/
  | timedwait (t : Nat) (timeoutMs : BitVec 32)
  /-- `ztk_sem_post`, for a count that is not 0. -/
  | post (t : Nat) (count : BitVec 32)
  /-- `clock_gettime` shows this. -/
  | clock (t : Nat) (now : Timespec)
  /-- `sem_wait` or `sem_timedwait` returns 0. -/
  | acquire (t : Nat)
  /-- It returns -1. -/
  | fail (t : Nat) (e : NativeErrno)
  /-- One turn of the loop of `ztk_sem_post`, or its end. -/
  | turn (t : Nat)

/-- A call of `sem_wait` or `sem_timedwait` that fails.  The first has no deadline, and the
second does not give up before it. -/
def NativeSem.fail (s : NativeSem) (t : Nat) : NativeErrno → Option NativeSem
  | .interrupted =>
      match s.phase t with
      | .blocked | .timed _ => some s
      | _ => none
  | .timedOut now =>
      match s.phase t with
      | .timed w =>
          if w.deadline.nanos ≤ now.nanos then
            some { s.goto t .idle with timeouts := s.timeouts ++ [(w, now)] }
          else none
      | _ => none
  | .other =>
      match s.phase t with
      | .blocked | .timed _ => some (s.goto t .idle)
      | _ => none

def nativeStep (max : Nat) (s : NativeSem) : NativeAct → Option NativeSem
  | .wait t => if s.phase t = .idle then some (s.waitImpl t (-1)) else none
  | .timedwait t timeoutMs =>
      if s.phase t = .idle then some (s.waitImpl t timeoutMs.toInt) else none
  | .post t count =>
      if s.phase t = .idle ∧ count ≠ 0 then
        some { s.goto t (.posting s.posts.length) with
          posts := s.posts ++ [⟨count.toNat, 0, none⟩] }
      else none
  | .clock t now =>
      match s.phase t with
      | .clock timeoutMs => if now.Valid then some (s.goto t (.timed ⟨timeoutMs, now⟩)) else none
      | _ => none
  | .acquire t =>
      match s.phase t with
      | .blocked | .timed _ => s.acquire t
      | _ => none
  | .fail t e => s.fail t e
  | .turn t =>
      match s.phase t with
      | .posting k => (s.posts[k]?).map (s.turn max t k)
      | _ => none

/-- A semaphore and its threads as a machine. -/
def nativeMachine (max : Nat) : Machine NativeSem NativeAct := ⟨nativeStep max⟩

/-! ## The invariant -/

/-- A call of `ztk_sem_post` that has returned `ZTK_OK` has added all its tokens, and one that
has failed fewer. -/
inductive NativePost.Fair (p : NativePost) : Prop where
  | underWay : p.result = none → p.i ≤ p.count → Fair p
  | done : p.result = some .ok → p.i = p.count → Fair p
  | failed : p.result = some .platform → p.i < p.count → Fair p

/-- The phase of a wait has a clock that makes sense. -/
def NativePhase.Timely : NativePhase → Prop
  | .clock timeoutMs => 0 ≤ timeoutMs
  | .timed w => 0 ≤ w.timeoutMs ∧ w.start.Valid
  | .idle | .blocked | .posting _ => True

/-- The tokens add up, and the calls of `ztk_sem_post` under way are apart. -/
structure NativeInv (max initial : Nat) (s : NativeSem) : Prop where
  bounded : s.value ≤ max
  tokens : s.value + s.taken = initial + s.posted
  fair : ∀ p ∈ s.posts, p.Fair
  posting : ∀ t k, s.phase t = .posting k → ∃ p, s.posts[k]? = some p ∧ p.result = none
  apart : ∀ t u k, s.phase t = .posting k → s.phase u = .posting k → t = u
  timely : ∀ t, (s.phase t).Timely
  listed : ∀ e ∈ s.timeouts, e.1.Lasted e.2

/-- A call has added a token, or none, and the sum follows. -/
theorem posted_set {l : List NativePost} {k : Nat} {p : NativePost} (h : l[k]? = some p)
    (q : NativePost) : ((l.set k q).map NativePost.i).sum + p.i = (l.map NativePost.i).sum + q.i := by
  induction l generalizing k with
  | nil => cases h
  | cons x l ih =>
      cases k with
      | zero =>
          cases h
          simp only [List.set_cons_zero, List.map_cons, List.sum_cons]
          omega
      | succ k =>
          have := ih h
          simp only [List.set_cons_succ, List.map_cons, List.sum_cons]
          omega

/-- A thread has gone to a phase outside `ztk_sem_post`. -/
theorem posting_of_update {phase : Nat → NativePhase} {t u k : Nat} {p : NativePhase}
    (hp : ∀ k, p ≠ .posting k) (hu : Function.update phase t p u = .posting k) :
    u ≠ t ∧ phase u = .posting k := by
  by_cases hut : u = t
  · rw [hut, Function.update_self] at hu
    exact absurd hu (hp k)
  · rw [Function.update_of_ne hut] at hu
    exact ⟨hut, hu⟩

namespace NativeInv

variable {max initial : Nat} {s : NativeSem} {t : Nat}

theorem create {initial : BitVec 32} (h : NativeSem.create max initial = some s) :
    NativeInv max initial.toNat s := by
  obtain ⟨hle, h⟩ := Option.ite_none_left_eq_some.mp h
  cases h
  exact
    { bounded := Nat.le_of_not_lt hle
      tokens := rfl
      fair := fun _ hp => by cases hp
      posting := fun _ _ hp => by cases hp
      apart := fun _ _ _ hp => by cases hp
      timely := fun _ => trivial
      listed := fun _ he => by cases he }

/-- A thread goes to a phase outside `ztk_sem_post`. -/
theorem goto (h : NativeInv max initial s) {p : NativePhase} (hp : ∀ k, p ≠ .posting k)
    (htimely : p.Timely) : NativeInv max initial (s.goto t p) :=
  { h with
    posting := fun u k hu => h.posting u k (posting_of_update hp hu).2
    apart := fun u v k hu hv =>
      h.apart u v k (posting_of_update hp hu).2 (posting_of_update hp hv).2
    timely := (Function.forall_update_iff s.phase fun _ q => q.Timely).mpr
      ⟨htimely, fun u _ => h.timely u⟩ }

/-- A thread has taken a token. -/
theorem acquire (h : NativeInv max initial s) {s' : NativeSem} (hs : s.acquire t = some s') :
    NativeInv max initial s' := by
  obtain ⟨hpos, hs⟩ := Option.ite_none_right_eq_some.mp hs
  cases hs
  have hidle := h.goto (t := t) (p := .idle) (fun _ => NativePhase.noConfusion) trivial
  exact
    { hidle with
      bounded := Nat.le_trans (Nat.sub_le ..) h.bounded
      tokens := by
        have := h.tokens
        show s.value - 1 + (s.taken + 1) = initial + s.posted
        omega }

theorem fail (h : NativeInv max initial s) {e : NativeErrno} {s' : NativeSem}
    (hs : s.fail t e = some s') : NativeInv max initial s' := by
  have hidle := h.goto (t := t) (p := .idle) (fun _ => NativePhase.noConfusion) trivial
  cases e with
  | interrupted =>
      simp only [NativeSem.fail] at hs
      split at hs
      · cases hs
        exact h
      · cases hs
        exact h
      · cases hs
  | timedOut now =>
      simp only [NativeSem.fail] at hs
      split at hs
      · next w hw =>
          obtain ⟨hle, hs⟩ := Option.ite_none_right_eq_some.mp hs
          cases hs
          have htimely := h.timely t
          rw [hw] at htimely
          refine { hidle with listed := fun e he => ?_ }
          rcases List.mem_append.mp he with he | he
          · exact h.listed e he
          · rw [List.mem_singleton.mp he]
            exact SemWait.lasted htimely.1 hle
      · cases hs
  | other =>
      simp only [NativeSem.fail] at hs
      split at hs
      · cases hs
        exact hidle
      · cases hs
        exact hidle
      · cases hs

/-- `ztk_sem_post` begins. -/
theorem post (h : NativeInv max initial s) (count : Nat) :
    NativeInv max initial { s.goto t (.posting s.posts.length) with
      posts := s.posts ++ [⟨count, 0, none⟩] } := by
  have hold : ∀ u k, s.phase u = .posting k → k < s.posts.length := by
    intro u k hu
    obtain ⟨p, hp, -⟩ := h.posting u k hu
    exact (List.getElem?_eq_some_iff.mp hp).1
  have hcases : ∀ u k, Function.update s.phase t (.posting s.posts.length) u = .posting k →
      (u = t ∧ k = s.posts.length) ∨ s.phase u = .posting k := by
    intro u k hu
    by_cases hut : u = t
    · rw [hut, Function.update_self] at hu
      cases hu
      exact Or.inl ⟨hut, rfl⟩
    · rw [Function.update_of_ne hut] at hu
      exact Or.inr hu
  refine { h with tokens := ?_, fair := ?_, posting := ?_, apart := ?_, timely := ?_ }
  · have := h.tokens
    simp only [NativeSem.posted, List.map_append, List.sum_append] at this ⊢
    exact this
  · intro p hp
    rcases List.mem_append.mp hp with hp | hp
    · exact h.fair p hp
    · rw [List.mem_singleton.mp hp]
      exact .underWay rfl (Nat.zero_le _)
  · intro u k hu
    rcases hcases u k hu with ⟨-, rfl⟩ | hu
    · exact ⟨_, List.getElem?_concat_length .., rfl⟩
    · obtain ⟨p, hp, hr⟩ := h.posting u k hu
      exact ⟨p, (List.getElem?_append_left (hold u k hu)).trans hp, hr⟩
  · intro u v k hu hv
    rcases hcases u k hu with ⟨hut, rfl⟩ | hu'
    · rcases hcases v _ hv with ⟨hvt, -⟩ | hv'
      · rw [hut, hvt]
      · exact absurd (hold v _ hv') (Nat.lt_irrefl _)
    · rcases hcases v k hv with ⟨-, rfl⟩ | hv'
      · exact absurd (hold u _ hu') (Nat.lt_irrefl _)
      · exact h.apart u v k hu' hv'
  · exact (Function.forall_update_iff s.phase fun _ q => q.Timely).mpr
      ⟨trivial, fun u _ => h.timely u⟩

/-- The record of another call. -/
theorem posting_set (h : NativeInv max initial s) {k : Nat} (hk : s.phase t = .posting k)
    (q : NativePost) {u j : Nat} (hut : u ≠ t) (hu : s.phase u = .posting j) :
    ∃ p, (s.posts.set k q)[j]? = some p ∧ p.result = none := by
  have hkj : k ≠ j := by
    rintro rfl
    exact hut (h.apart u t k hu hk)
  obtain ⟨p, hp, hr⟩ := h.posting u j hu
  exact ⟨p, (List.getElem?_set_ne hkj).trans hp, hr⟩

theorem fair_set (h : NativeInv max initial s) (k : Nat) {q : NativePost} (hq : q.Fair) :
    ∀ p ∈ s.posts.set k q, p.Fair := by
  intro p hp
  rcases List.mem_or_eq_of_mem_set hp with hp | rfl
  · exact h.fair p hp
  · exact hq

/-- `ztk_sem_post` returns. -/
theorem finish (h : NativeInv max initial s) {k : Nat} {p : NativePost}
    (hk : s.phase t = .posting k) (hp : s.posts[k]? = some p) {r : Option Err}
    (hq : { p with result := r }.Fair) :
    NativeInv max initial { s.goto t .idle with posts := s.posts.set k { p with result := r } } := by
  have hidle := h.goto (t := t) (p := .idle) (fun _ => NativePhase.noConfusion) trivial
  refine { hidle with tokens := ?_, fair := h.fair_set k hq, posting := ?_ }
  · have hsum := posted_set hp { p with result := r }
    have := h.tokens
    simp only [NativeSem.posted] at this ⊢
    simp only at hsum
    show s.value + s.taken = _
    omega
  · intro u j hu
    obtain ⟨hut, hu⟩ := posting_of_update (fun _ => NativePhase.noConfusion) hu
    exact h.posting_set hk _ hut hu

theorem turn (h : NativeInv max initial s) {k : Nat} {p : NativePost}
    (hk : s.phase t = .posting k) (hp : s.posts[k]? = some p) :
    NativeInv max initial (s.turn max t k p) := by
  obtain ⟨p', hp', hr⟩ := h.posting t k hk
  obtain rfl : p = p' := Option.some.inj (hp.symm.trans hp')
  have hle : p.i ≤ p.count := by
    cases h.fair p (List.mem_of_getElem? hp) with
    | underWay _ hle => exact hle
    | done hd _ => rw [hr] at hd; cases hd
    | failed hf _ => rw [hr] at hf; cases hf
  simp only [NativeSem.turn]
  split
  · next hi => exact h.finish hk hp (.done rfl hi)
  · next hi =>
    have hlt : p.i < p.count := Nat.lt_of_le_of_ne hle hi
    split
    · next hv =>
        have hsum := posted_set hp { p with i := p.i + 1 }
        refine { h with bounded := hv, tokens := ?_, fair := h.fair_set k (.underWay hr hlt),
                        posting := ?_ }
        · have := h.tokens
          simp only [NativeSem.posted] at this ⊢
          simp only at hsum
          omega
        · intro u j hu
          by_cases hut : u = t
          · rw [hut, hk] at hu
            cases hu
            exact ⟨_, List.getElem?_set_self (List.getElem?_eq_some_iff.mp hp).1, hr⟩
          · exact h.posting_set hk _ hut hu
    · exact h.finish hk hp (.failed rfl hlt)

theorem step (h : NativeInv max initial s) {a : NativeAct} {s' : NativeSem}
    (hs : nativeStep max s a = some s') : NativeInv max initial s' := by
  have hwait : ∀ t timeoutMs, NativeInv max initial (s.waitImpl t timeoutMs) := by
    intro t timeoutMs
    unfold NativeSem.waitImpl
    split
    · exact h.goto (fun _ => NativePhase.noConfusion) trivial
    · next h0 => exact h.goto (fun _ => NativePhase.noConfusion) (Int.not_lt.mp h0)
  cases a with
  | wait t =>
      obtain ⟨-, hs⟩ := Option.ite_none_right_eq_some.mp hs
      cases hs
      exact hwait t _
  | timedwait t timeoutMs =>
      obtain ⟨-, hs⟩ := Option.ite_none_right_eq_some.mp hs
      cases hs
      exact hwait t _
  | post t count =>
      obtain ⟨-, hs⟩ := Option.ite_none_right_eq_some.mp hs
      cases hs
      exact h.post count.toNat
  | clock t now =>
      simp only [nativeStep] at hs
      split at hs
      · next timeoutMs hp =>
          obtain ⟨hv, hs⟩ := Option.ite_none_right_eq_some.mp hs
          cases hs
          have htimely := h.timely t
          rw [hp] at htimely
          exact h.goto (fun _ => NativePhase.noConfusion) ⟨htimely, hv⟩
      · cases hs
  | acquire t =>
      simp only [nativeStep] at hs
      split at hs
      · exact h.acquire hs
      · exact h.acquire hs
      · cases hs
  | fail t e => exact h.fail hs
  | turn t =>
      simp only [nativeStep] at hs
      split at hs
      · next k hk =>
          obtain ⟨p, hp, rfl⟩ := Option.map_eq_some_iff.mp hs
          exact h.turn hk hp
      · cases hs

end NativeInv

/-- The invariant holds in every state of every run. -/
theorem nativeInv_of_leads {max : Nat} {initial : BitVec 32} {s₀ s : NativeSem}
    (h₀ : NativeSem.create max initial = some s₀)
    (h : (nativeMachine max).Leads Machine.Any s₀ s) : NativeInv max initial.toNat s :=
  h.invariant (fun _ _ _ hi _ hs => hi.step hs) (.create h₀)

/-! ## Tokens -/

/-- In every run no token is lost or made up, whatever posts fail: the value and the tokens
taken are what was there at first and what was added.  A post that has returned `ZTK_OK` has
added all its tokens, and one that has failed fewer, which stay. -/
theorem native_tokens_conserved {max : Nat} {initial : BitVec 32} {s₀ s : NativeSem}
    (h₀ : NativeSem.create max initial = some s₀)
    (h : (nativeMachine max).Leads Machine.Any s₀ s) :
    s.value ≤ max ∧ s.value + s.taken = initial.toNat + (s.posts.map NativePost.i).sum ∧
      ∀ p ∈ s.posts, (p.result = none ∧ p.i ≤ p.count) ∨ (p.result = some .ok ∧ p.i = p.count) ∨
        (p.result = some .platform ∧ p.i < p.count) := by
  have hi := nativeInv_of_leads h₀ h
  refine ⟨hi.bounded, hi.tokens, fun p hp => ?_⟩
  cases hi.fair p hp with
  | underWay hr hle => exact Or.inl ⟨hr, hle⟩
  | done hr he => exact Or.inr (Or.inl ⟨hr, he⟩)
  | failed hr hlt => exact Or.inr (Or.inr ⟨hr, hlt⟩)

/-- At most two tokens fit.  Thread 1 posts three of them, and a wait of thread 2 comes too
late to make room for the last one. -/
def fullRun : List NativeAct :=
  [.post 1 3, .turn 1, .wait 2, .turn 1, .turn 1, .acquire 2]

theorem native_tokens_conserved_full :
    ∃ s₀ s, NativeSem.create 2 0 = some s₀ ∧ (nativeMachine 2).Leads Machine.Any s₀ s ∧
      s.posts = [⟨3, 2, some .platform⟩] ∧ s.value + s.taken = 0 + 2 := by
  obtain ⟨s, hs, hp⟩ := Machine.exists_run (M := nativeMachine 2)
    (s := ⟨0, fun _ => .idle, [], 0, []⟩) (l := fullRun)
    (P := fun s => s.posts = [⟨3, 2, some .platform⟩]) (by decide)
  have hl := Machine.leads_of_run fullRun _ s hs (Machine.runMeets_any _ _)
  have hcreate : NativeSem.create 2 0 = some ⟨0, fun _ => .idle, [], 0, []⟩ := rfl
  have htokens := (native_tokens_conserved hcreate hl).2.1
  rw [hp] at htokens
  exact ⟨_, s, hcreate, hl, hp, htokens⟩

/-! ## Deadlines -/

/-- The time that `sem_timedwait` is given is valid, and a wait that gave up lasted as long as
it was to. -/
theorem native_timeouts_late {max : Nat} {initial : BitVec 32} {s₀ s : NativeSem}
    (h₀ : NativeSem.create max initial = some s₀)
    (h : (nativeMachine max).Leads Machine.Any s₀ s) :
    (∀ t w, s.phase t = .timed w → w.deadline.Valid) ∧ ∀ e ∈ s.timeouts, e.1.Lasted e.2 := by
  have hi := nativeInv_of_leads h₀ h
  refine ⟨fun t w hw => ?_, hi.listed⟩
  have htimely := hi.timely t
  rw [hw] at htimely
  exact semDeadline_valid htimely.2 htimely.1

/-- In both builds the deadline that a `ztk_sem_timedwait` computes is valid, and one that gave
up was given a timeout that is not negative as an `int`, and lasted that long. -/
theorem timedwait_lasts (initial : BitVec 32) :
    (∀ s, semMachine.Leads Machine.Any (.start initial) s →
      (∀ t, ∀ w ∈ (s.phase t).call, 0 ≤ w.timeoutMs → w.deadline.Valid) ∧
        ∀ e ∈ s.timeouts, e.1.Lasted e.2) ∧
    ∀ max s₀ s, NativeSem.create max initial = some s₀ →
      (nativeMachine max).Leads Machine.Any s₀ s →
      (∀ t w, s.phase t = .timed w → w.deadline.Valid) ∧ ∀ e ∈ s.timeouts, e.1.Lasted e.2 :=
  ⟨fun _ h => sem_timeouts_late h, fun _ _ _ h₀ h => native_timeouts_late h₀ h⟩

/-- A wait of 1500 ms that begins at 0.7 s is woken up for nothing and gives up at 2.2 s. -/
def lateRun : List SemAct :=
  [.timedwait 1 1500, .lock 1 ⟨0, 700000000⟩, .test 1, .wake 1 .woken, .lock 1 ⟨1, 0⟩, .test 1,
    .wake 1 (.timedOut ⟨2, 200000000⟩), .lock 1 ⟨3, 0⟩]

/-- The same with a signal that interrupts it. -/
def lateNativeRun : List NativeAct :=
  [.timedwait 1 1500, .clock 1 ⟨0, 700000000⟩, .fail 1 .interrupted,
    .fail 1 (.timedOut ⟨2, 200000000⟩)]

/-- The wait of both runs. -/
def lateWait : SemWait × Timespec := (⟨1500, ⟨0, 700000000⟩⟩, ⟨2, 200000000⟩)

theorem timedwait_lasts_carry :
    lateWait.1.deadline = ⟨2, 200000000⟩ ∧
      (∃ s, semMachine.Leads Machine.Any (.start 0) s ∧ lateWait ∈ s.timeouts ∧
        lateWait.1.Lasted lateWait.2) ∧
      ∃ s₀ s, NativeSem.create 9 0 = some s₀ ∧ (nativeMachine 9).Leads Machine.Any s₀ s ∧
        lateWait ∈ s.timeouts ∧ lateWait.1.Lasted lateWait.2 := by
  obtain ⟨s, hs, ht⟩ := Machine.exists_run (M := semMachine) (s := .start 0) (l := lateRun)
    (P := fun s => lateWait ∈ s.timeouts) (by decide)
  obtain ⟨u, hu, hv⟩ := Machine.exists_run (M := nativeMachine 9)
    (s := ⟨0, fun _ => .idle, [], 0, []⟩) (l := lateNativeRun)
    (P := fun s => lateWait ∈ s.timeouts) (by decide)
  have hl := Machine.leads_of_run lateRun _ s hs (Machine.runMeets_any _ _)
  have hn := Machine.leads_of_run lateNativeRun _ u hu (Machine.runMeets_any _ _)
  obtain ⟨hsem, hnative⟩ := timedwait_lasts 0
  exact ⟨by decide, ⟨s, hl, ht, (hsem s hl).2 _ ht⟩, _, u, rfl, hn, hv,
    (hnative 9 _ u rfl hn).2 _ hv⟩

end Ztk.Thread
