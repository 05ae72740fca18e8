import Ztk.Lib.Machine

/-!
# The semaphore over a mutex and a condition

`sem_pthread.c` as it is compiled without `ZTK_HAVE_POSIX_SEM`: a count under a mutex,
with a condition that `ztk_sem_post` broadcasts.  The build for a system that has `sem_init`
is in `SemNative`; the deadline of a timed wait is computed in the same way.  Any number of
threads call `ztk_sem_wait`, `ztk_sem_timedwait` and `ztk_sem_post` on one semaphore.  The
steps are those of the source between which another thread can run: taking the mutex, the
test of the count, falling asleep, waking up, and in a post the addition, the broadcast and
the release of the mutex.

A thread that sleeps in the condition may wake up without a broadcast, and a timed one
when the clock has reached its deadline.  The clock is read when the mutex is taken.

`posted`, `taken` and `timeouts` are records of what happened, read by no function.
-/

namespace Ztk.Thread

open Ztk.Lib

/-! ## Deadlines -/

/-- `struct timespec`. -/
structure Timespec where
  sec : Int
  nsec : Int
deriving DecidableEq

/-- The time in nanoseconds. -/
def Timespec.nanos (t : Timespec) : Int := t.sec * 1000000000 + t.nsec

/-- A time as `clock_gettime` reports it and `pthread_cond_timedwait` takes it. -/
def Timespec.Valid (t : Timespec) : Prop := 0 ≤ t.nsec ∧ t.nsec < 1000000000

instance (t : Timespec) : Decidable t.Valid := inferInstanceAs (Decidable (_ ∧ _))

/-- `ts` of `sem_wait_impl`, from the time that the clock shows. -/
def semDeadline (now : Timespec) (timeoutMs : Int) : Timespec :=
  let ts : Timespec :=
    { sec := now.sec + timeoutMs.tdiv 1000
      nsec := now.nsec + timeoutMs.tmod 1000 * 1000000 }
  if 1000000000 ≤ ts.nsec then ⟨ts.sec + 1, ts.nsec - 1000000000⟩ else ts

/-- The deadline is the timeout after the time it is computed at. -/
theorem semDeadline_nanos (now : Timespec) (timeoutMs : Int) :
    (semDeadline now timeoutMs).nanos = now.nanos + timeoutMs * 1000000 := by
  have hdiv : timeoutMs.tdiv 1000 * 1000 + timeoutMs.tmod 1000 = timeoutMs :=
    Int.tdiv_mul_add_tmod timeoutMs 1000
  simp only [semDeadline, Timespec.nanos]
  split
  · simp only
    omega
  · simp only
    omega

/-- One carry is enough. -/
theorem semDeadline_valid {now : Timespec} (h : now.Valid) {timeoutMs : Int} (h0 : 0 ≤ timeoutMs) :
    (semDeadline now timeoutMs).Valid := by
  obtain ⟨hlo, hhi⟩ := h
  have hm : timeoutMs.tmod 1000 = timeoutMs % 1000 := Int.tmod_eq_emod_of_nonneg h0
  simp only [semDeadline, Timespec.Valid]
  split
  · simp only
    omega
  · simp only
    omega

/-! ## State -/

/-- A call of `sem_wait_impl` that has taken the mutex. -/
structure SemWait where
  timeoutMs : Int
  /-- What the clock showed. -/
  start : Timespec
deriving DecidableEq

/-- The time at which the wait gives up. -/
def SemWait.deadline (w : SemWait) : Timespec := semDeadline w.start w.timeoutMs

/-- The timeout is not negative as an `int`, and at this time the wait has lasted as long. -/
def SemWait.Lasted (w : SemWait) (now : Timespec) : Prop :=
  0 ≤ w.timeoutMs ∧ w.start.nanos + w.timeoutMs * 1000000 ≤ now.nanos

theorem SemWait.lasted {w : SemWait} {now : Timespec} (h0 : 0 ≤ w.timeoutMs)
    (h : w.deadline.nanos ≤ now.nanos) : w.Lasted now := by
  rw [deadline, semDeadline_nanos] at h
  exact ⟨h0, h⟩

/-- What `pthread_cond_wait` or `pthread_cond_timedwait` returns. -/
inductive CondResult where
  | woken
  /-- `ETIMEDOUT`, when the clock shows this. -/
  | timedOut (now : Timespec)
  /-- `EINTR`. -/
  | interrupted
  /-- Another error. -/
  | failed
deriving DecidableEq

/-- Where a thread is. -/
inductive SemPhase where
  | idle
  /-- Before `pthread_mutex_lock` of `sem_wait_impl`. -/
  | entering (timeoutMs : Int)
  /-- At the test of a loop, with the mutex. -/
  | testing (w : SemWait)
  /-- In the condition, without the mutex. -/
  | asleep (w : SemWait)
  /-- Woken up in the condition, which has to take the mutex again before it returns. -/
  | awake (w : SemWait) (r : CondResult)
  /-- Before `pthread_mutex_lock` of `ztk_sem_post`. -/
  | posting (count : Nat)
  /-- Before the addition of `ztk_sem_post`, with the mutex. -/
  | adding (count : Nat)
  /-- Before `pthread_cond_broadcast`. -/
  | added
  /-- Before `pthread_mutex_unlock` of `ztk_sem_post`. -/
  | unlocking
deriving DecidableEq

/-- The call of `sem_wait_impl` that the thread is in. -/
def SemPhase.call : SemPhase → Option SemWait
  | .testing w | .asleep w | .awake w _ => some w
  | .idle | .entering _ | .posting _ | .adding _ | .added | .unlocking => none

/-- The thread has the mutex. -/
def SemPhase.holds : SemPhase → Bool
  | .testing _ | .adding _ | .added | .unlocking => true
  | .idle | .entering _ | .asleep _ | .awake _ _ | .posting _ => false

/-- `ztk_sem`, and the threads that use it. -/
structure Sem where
  count : Nat
  /-- The owner of the mutex. -/
  owner : Option Nat
  phase : Nat → SemPhase
  /-- The tokens added so far. -/
  posted : Nat
  /-- The calls that took a token and returned `ZTK_OK`. -/
  taken : Nat
  /-- The calls that returned `ZTK_ERR_TIMEOUT`, and when they gave up. -/
  timeouts : List (SemWait × Timespec)

namespace Sem

/-- `ztk_sem_create`. -/
def start (initial : BitVec 32) : Sem where
  count := initial.toNat
  owner := none
  phase _ := .idle
  posted := 0
  taken := 0
  timeouts := []

/-! ## The functions of the source -/

def goto (s : Sem) (t : Nat) (p : SemPhase) : Sem :=
  { s with phase := Function.update s.phase t p }

/-- The mutex is free, and the thread takes it. -/
def lock (s : Sem) (t : Nat) (p : SemPhase) : Option Sem :=
  if s.owner = none then some { s.goto t p with owner := some t } else none

/-- The thread gives the mutex back. -/
def unlock (s : Sem) (t : Nat) (p : SemPhase) : Sem := { s.goto t p with owner := none }

/-- The test `s->count == 0`: the thread goes to sleep, or takes a token and returns. -/
def test (s : Sem) (t : Nat) (w : SemWait) : Sem :=
  if s.count = 0 then s.unlock t (.asleep w)
  else { s.unlock t .idle with count := s.count - 1, taken := s.taken + 1 }

/-- The condition has returned with the mutex. -/
def resume (s : Sem) (t : Nat) (w : SemWait) (r : CondResult) : Sem :=
  if w.timeoutMs < 0 then s.goto t (.testing w)
  else
    match r with
    | .timedOut now => { s.unlock t .idle with timeouts := s.timeouts ++ [(w, now)] }
    | .failed => s.unlock t .idle
    | .woken | .interrupted => s.goto t (.testing w)

/-- `s->count += count`, where `count` is an `unsigned int`. -/
def add (s : Sem) (t : Nat) (count : Nat) : Sem :=
  { s.goto t .added with count := (s.count + count) % 2 ^ 32, posted := s.posted + count }

/-- `pthread_cond_broadcast`. -/
def broadcast (s : Sem) (t : Nat) : Sem :=
  { s with
    phase := Function.update
      (fun u => match s.phase u with
        | .asleep w => .awake w .woken
        | p => p)
      t .unlocking }

end Sem

/-! ## The machine -/

inductive SemAct where
  /-- `ztk_sem_wait`. -/
  | wait (t : Nat)
  /-- `ztk_sem_timedwait`. -/
  | timedwait (t : Nat) (timeoutMs : BitVec 32)
  /-- `ztk_sem_post`, for a count that is not 0. -/
  | post (t : Nat) (count : BitVec 32)
  /-- The thread takes the mutex.  The clock shows `now`, which a wait reads when it begins. -/
  | lock (t : Nat) (now : Timespec)
  | test (t : Nat)
  /-- A sleeping thread wakes up without a broadcast. -/
  | wake (t : Nat) (r : CondResult)
  | add (t : Nat)
  | broadcast (t : Nat)
  | unlock (t : Nat)

/-- A timed wait ends with `ETIMEDOUT` at its deadline or later. -/
def WakesFor (w : SemWait) : CondResult → Prop
  | .timedOut now => w.deadline.nanos ≤ now.nanos
  | .woken | .interrupted | .failed => True

instance (w : SemWait) (r : CondResult) : Decidable (WakesFor w r) :=
  match r with
  | .timedOut now => inferInstanceAs (Decidable (w.deadline.nanos ≤ now.nanos))
  | .woken | .interrupted | .failed => isTrue trivial

def semStep (s : Sem) : SemAct → Option Sem
  | .wait t => if s.phase t = .idle then some (s.goto t (.entering (-1))) else none
  | .timedwait t timeoutMs =>
      if s.phase t = .idle then some (s.goto t (.entering timeoutMs.toInt)) else none
  | .post t count =>
      if s.phase t = .idle ∧ count ≠ 0 then some (s.goto t (.posting count.toNat)) else none
  | .lock t now =>
      match s.phase t with
      | .entering timeoutMs => if now.Valid then s.lock t (.testing ⟨timeoutMs, now⟩) else none
      | .posting count => s.lock t (.adding count)
      | .awake w r =>
          if s.owner = none then some ({ s with owner := some t }.resume t w r) else none
      | _ => none
  | .test t =>
      match s.phase t with
      | .testing w => some (s.test t w)
      | _ => none
  | .wake t r =>
      match s.phase t with
      | .asleep w => if WakesFor w r then some (s.goto t (.awake w r)) else none
      | _ => none
  | .add t =>
      match s.phase t with
      | .adding count => some (s.add t count)
      | _ => none
  | .broadcast t => if s.phase t = .added then some (s.broadcast t) else none
  | .unlock t => if s.phase t = .unlocking then some (s.unlock t .idle) else none

/-- A semaphore and its threads as a machine. -/
def semMachine : Machine Sem SemAct := ⟨semStep⟩

namespace Sem

variable {s s' : Sem} {t : Nat}

/-! ## What a step does -/

/-- The steps of the source, one by one. -/
inductive Move (s : Sem) : SemAct → Sem → Prop where
  | wait {t : Nat} (hp : s.phase t = .idle) : Move s (.wait t) (s.goto t (.entering (-1)))
  | timedwait {t : Nat} (timeoutMs : BitVec 32) (hp : s.phase t = .idle) :
      Move s (.timedwait t timeoutMs) (s.goto t (.entering timeoutMs.toInt))
  | post {t : Nat} {count : BitVec 32} (hp : s.phase t = .idle) :
      Move s (.post t count) (s.goto t (.posting count.toNat))
  | enter {t : Nat} {timeoutMs : Int} {now : Timespec} (hp : s.phase t = .entering timeoutMs)
      (ho : s.owner = none) (hv : now.Valid) :
      Move s (.lock t now) { s.goto t (.testing ⟨timeoutMs, now⟩) with owner := some t }
  | enterPost {t count : Nat} (now : Timespec) (hp : s.phase t = .posting count)
      (ho : s.owner = none) :
      Move s (.lock t now) { s.goto t (.adding count) with owner := some t }
  | again {t : Nat} {w : SemWait} {r : CondResult} (now : Timespec) (hp : s.phase t = .awake w r)
      (ho : s.owner = none) :
      Move s (.lock t now) { s.goto t (.testing w) with owner := some t }
  | timeout {t : Nat} {w : SemWait} {now' : Timespec} (now : Timespec)
      (hp : s.phase t = .awake w (.timedOut now')) (ho : s.owner = none)
      (hw : 0 ≤ w.timeoutMs) :
      Move s (.lock t now) { s.goto t .idle with timeouts := s.timeouts ++ [(w, now')] }
  | fail {t : Nat} {w : SemWait} (now : Timespec) (hp : s.phase t = .awake w .failed)
      (ho : s.owner = none) : Move s (.lock t now) (s.goto t .idle)
  | sleep {t : Nat} {w : SemWait} (hp : s.phase t = .testing w) (hc : s.count = 0) :
      Move s (.test t) (s.unlock t (.asleep w))
  | take {t : Nat} {w : SemWait} (hp : s.phase t = .testing w) (hc : 0 < s.count) :
      Move s (.test t) { s.unlock t .idle with count := s.count - 1, taken := s.taken + 1 }
  | wake {t : Nat} {w : SemWait} {r : CondResult} (hp : s.phase t = .asleep w)
      (hr : WakesFor w r) : Move s (.wake t r) (s.goto t (.awake w r))
  | add {t count : Nat} (hp : s.phase t = .adding count) : Move s (.add t) (s.add t count)
  | broadcast {t : Nat} (hp : s.phase t = .added) : Move s (.broadcast t) (s.broadcast t)
  | unlock {t : Nat} (hp : s.phase t = .unlocking) : Move s (.unlock t) (s.unlock t .idle)

theorem lock_some {p : SemPhase} (h : s.lock t p = some s') :
    s.owner = none ∧ s' = { s.goto t p with owner := some t } := by
  rw [lock, Option.ite_none_right_eq_some, Option.some.injEq] at h
  exact ⟨h.1, h.2.symm⟩

/-- The mutex was free, so giving it back leaves it free. -/
theorem unlock_of_free (ho : s.owner = none) (p : SemPhase) : s.unlock t p = s.goto t p := by
  rw [unlock, ← ho]
  rfl

/-- What a thread does that comes back from the condition. -/
theorem resume_move {w : SemWait} {r : CondResult} (now : Timespec)
    (hp : s.phase t = .awake w r) (ho : s.owner = none) :
    Move s (.lock t now) ({ s with owner := some t }.resume t w r) := by
  have hu : ({ s with owner := some t } : Sem).unlock t .idle = s.goto t .idle := by
    rw [← unlock_of_free ho]
    rfl
  unfold resume
  split
  · exact .again now hp ho
  · next hw =>
      cases r with
      | woken => exact .again now hp ho
      | interrupted => exact .again now hp ho
      | failed =>
          simp only [hu]
          exact .fail now hp ho
      | timedOut now' =>
          simp only [hu]
          exact .timeout now hp ho (Int.not_lt.mp hw)

theorem step_move {a : SemAct} (h : semStep s a = some s') : s.Move a s' := by
  cases a with
  | wait t =>
      obtain ⟨hp, h⟩ := Option.ite_none_right_eq_some.mp h
      cases h
      exact .wait hp
  | timedwait t timeoutMs =>
      obtain ⟨hp, h⟩ := Option.ite_none_right_eq_some.mp h
      cases h
      exact .timedwait timeoutMs hp
  | post t count =>
      obtain ⟨⟨hp, -⟩, h⟩ := Option.ite_none_right_eq_some.mp h
      cases h
      exact .post hp
  | lock t now =>
      rw [semStep] at h
      split at h
      · next timeoutMs hp =>
          obtain ⟨hv, h⟩ := Option.ite_none_right_eq_some.mp h
          obtain ⟨ho, rfl⟩ := lock_some h
          exact .enter hp ho hv
      · next count hp =>
          obtain ⟨ho, rfl⟩ := lock_some h
          exact .enterPost now hp ho
      · next w r hp =>
          obtain ⟨ho, h⟩ := Option.ite_none_right_eq_some.mp h
          cases h
          exact resume_move now hp ho
      · cases h
  | test t =>
      rw [semStep] at h
      split at h
      · next w hp =>
          cases h
          rw [test]
          split
          · next hc => exact .sleep hp hc
          · next hc => exact .take hp (Nat.pos_of_ne_zero hc)
      · cases h
  | wake t r =>
      rw [semStep] at h
      split at h
      · next w hp =>
          obtain ⟨hr, h⟩ := Option.ite_none_right_eq_some.mp h
          cases h
          exact .wake hp hr
      · cases h
  | add t =>
      rw [semStep] at h
      split at h
      · next count hp =>
          cases h
          exact .add hp
      · cases h
  | broadcast t =>
      obtain ⟨hp, h⟩ := Option.ite_none_right_eq_some.mp h
      cases h
      exact .broadcast hp
  | unlock t =>
      obtain ⟨hp, h⟩ := Option.ite_none_right_eq_some.mp h
      cases h
      exact .unlock hp

end Sem

/-! ## The invariant -/

/-- The mutex belongs to the one thread that is inside a critical section, and a thread
sleeps on a count above 0 only while somebody is about to broadcast. -/
structure SemInv (initial : BitVec 32) (s : Sem) : Prop where
  small : s.count < 2 ^ 32
  tokens : (s.count + s.taken) % 2 ^ 32 = (initial.toNat + s.posted) % 2 ^ 32
  /-- As long as the counter did not wrap. -/
  exact : initial.toNat + s.posted < 2 ^ 32 → s.count + s.taken = initial.toNat + s.posted
  owner : ∀ t, (s.phase t).holds = true ↔ s.owner = some t
  heard : 0 < s.count → ∀ t w, s.phase t = .asleep w → ∃ u, s.phase u = .added
  timely : ∀ t w now, s.phase t = .awake w (.timedOut now) → w.deadline.nanos ≤ now.nanos
  listed : ∀ e ∈ s.timeouts, 0 ≤ e.1.timeoutMs ∧ e.1.deadline.nanos ≤ e.2.nanos

namespace SemInv

variable {initial : BitVec 32} {s : Sem} {t : Nat}

theorem start (initial : BitVec 32) : SemInv initial (.start initial) where
  small := initial.isLt
  tokens := rfl
  exact _ := rfl
  owner t := by simp [Sem.start, SemPhase.holds]
  heard := fun _ _ _ h => by cases h
  timely := fun _ _ _ h => by cases h
  listed := fun _ h => by cases h

/-- The owner after a thread has moved and the mutex has changed hands with it. -/
theorem owner_update (h : SemInv initial s) {p : SemPhase} {owner : Option Nat}
    (hself : p.holds = true ↔ owner = some t)
    (hother : ∀ u, u ≠ t → (s.owner = some u ↔ owner = some u)) :
    ∀ u, (Function.update s.phase t p u).holds = true ↔ owner = some u := by
  intro u
  by_cases hu : u = t
  · rw [hu, Function.update_self]
    exact hself
  · rw [Function.update_of_ne hu, h.owner u]
    exact hother u hu

/-- Sleepers are heard after a move of a thread that was not about to broadcast. -/
theorem heard_update (h : SemInv initial s) {p : SemPhase} (hold : s.phase t ≠ .added)
    (hnew : ∀ w, p ≠ .asleep w) (hc : 0 < s.count) :
    ∀ u w, Function.update s.phase t p u = .asleep w →
      ∃ v, Function.update s.phase t p v = .added := by
  intro u w hu
  by_cases hut : u = t
  · rw [hut, Function.update_self] at hu
    exact absurd hu (hnew w)
  · rw [Function.update_of_ne hut] at hu
    obtain ⟨v, hv⟩ := h.heard hc u w hu
    have hvt : v ≠ t := by
      rintro rfl
      exact hold hv
    exact ⟨v, by rw [Function.update_of_ne hvt, hv]⟩

theorem timely_update (h : SemInv initial s) {p : SemPhase}
    (hnew : ∀ w now, p = .awake w (.timedOut now) → w.deadline.nanos ≤ now.nanos) :
    ∀ u w now, Function.update s.phase t p u = .awake w (.timedOut now) →
      w.deadline.nanos ≤ now.nanos :=
  (Function.forall_update_iff s.phase fun _ q => ∀ w now, q = .awake w (.timedOut now) →
    w.deadline.nanos ≤ now.nanos).mpr ⟨hnew, fun u _ => h.timely u⟩

/-- A thread moves outside the critical sections. -/
theorem goto (h : SemInv initial s) (hold : (s.phase t).holds = false) {p : SemPhase}
    (hnew : p.holds = false) (hsleep : ∀ w, p ≠ .asleep w)
    (htimely : ∀ w now, p = .awake w (.timedOut now) → w.deadline.nanos ≤ now.nanos) :
    SemInv initial (s.goto t p) :=
  have hown : s.owner ≠ some t := fun ho => by
    rw [(h.owner t).mpr ho] at hold
    cases hold
  have hadd : s.phase t ≠ .added := fun ha => by
    rw [ha] at hold
    cases hold
  { h with
    owner := h.owner_update (by rw [hnew]; exact iff_of_false Bool.false_ne_true hown)
      fun _ _ => Iff.rfl
    heard := h.heard_update hadd hsleep
    timely := h.timely_update htimely }

/-- A thread takes the mutex. -/
theorem lock (h : SemInv initial s) (ho : s.owner = none) (hadd : s.phase t ≠ .added)
    {p : SemPhase} (hp : p.holds = true) :
    SemInv initial { s.goto t p with owner := some t } :=
  { h with
    owner := h.owner_update (by rw [hp]; exact iff_of_true rfl rfl) fun u hu => by
      rw [ho]
      exact iff_of_false (by rintro ⟨⟩) fun he => hu (Option.some.inj he).symm
    heard := h.heard_update hadd fun w hw => by rw [hw] at hp; cases hp
    timely := h.timely_update fun w now hw => by rw [hw] at hp; cases hp }

/-- Nobody has the mutex once its owner gives it back. -/
theorem owner_unlock (h : SemInv initial s) (hold : (s.phase t).holds = true) {p : SemPhase}
    (hp : p.holds = false) :
    ∀ u, (Function.update s.phase t p u).holds = true ↔ none = some u := by
  refine h.owner_update (by rw [hp]; exact iff_of_false Bool.false_ne_true (by rintro ⟨⟩)) ?_
  intro u hu
  rw [(h.owner t).mp hold]
  exact iff_of_false (fun he => hu (Option.some.inj he).symm) (by rintro ⟨⟩)

/-- A thread goes to sleep on an empty semaphore. -/
theorem sleep (h : SemInv initial s) {w : SemWait} (hp : s.phase t = .testing w)
    (hc : s.count = 0) : SemInv initial (s.unlock t (.asleep w)) :=
  { h with
    owner := h.owner_unlock (by rw [hp]; rfl) rfl
    heard := fun hpos => absurd hc (Nat.pos_iff_ne_zero.mp hpos)
    timely := h.timely_update fun w now hw => by cases hw }

/-- A thread takes a token. -/
theorem take (h : SemInv initial s) {w : SemWait} (hp : s.phase t = .testing w)
    (hc : 0 < s.count) :
    SemInv initial { s.unlock t .idle with count := s.count - 1, taken := s.taken + 1 } :=
  have hsum : s.count - 1 + (s.taken + 1) = s.count + s.taken := by omega
  { h with
    small := Nat.lt_of_le_of_lt (Nat.sub_le ..) h.small
    tokens := by
      show (s.count - 1 + (s.taken + 1)) % 2 ^ 32 = _
      rw [hsum]
      exact h.tokens
    exact := fun hb => by
      show s.count - 1 + (s.taken + 1) = _
      rw [hsum]
      exact h.exact hb
    owner := h.owner_unlock (by rw [hp]; rfl) rfl
    heard := fun _ => h.heard_update (by rw [hp]; rintro ⟨⟩) (by rintro _ ⟨⟩) hc
    timely := h.timely_update fun w now hw => by cases hw }

/-- Tokens are added, and the thread is about to broadcast. -/
theorem add (h : SemInv initial s) {count : Nat} (hp : s.phase t = .adding count) :
    SemInv initial (s.add t count) where
  small := Nat.mod_lt _ (by decide)
  tokens := by
    have := h.tokens
    show ((s.count + count) % 2 ^ 32 + s.taken) % 2 ^ 32 =
      (initial.toNat + (s.posted + count)) % 2 ^ 32
    omega
  exact := fun hb => by
    have hb' : initial.toNat + (s.posted + count) < 2 ^ 32 := hb
    have := h.exact (by omega)
    show (s.count + count) % 2 ^ 32 + s.taken = initial.toNat + (s.posted + count)
    omega
  owner := h.owner_update
    (iff_of_true rfl ((h.owner t).mp (by rw [hp]; rfl))) fun _ _ => Iff.rfl
  heard := fun _ _ _ _ => ⟨t, Function.update_self ..⟩
  timely := h.timely_update fun w now hw => by cases hw
  listed := h.listed

/-- The broadcast leaves nobody asleep. -/
theorem broadcast (h : SemInv initial s) (hp : s.phase t = .added) :
    SemInv initial (s.broadcast t) := by
  have hphase : ∀ u, u ≠ t → (s.broadcast t).phase u =
      match s.phase u with
      | .asleep w => .awake w .woken
      | p => p := by
    intro u hu
    simp only [Sem.broadcast]
    rw [Function.update_of_ne hu]
  have hself : (s.broadcast t).phase t = .unlocking := by
    simp only [Sem.broadcast]
    rw [Function.update_self]
  refine { h with owner := ?_, heard := ?_, timely := ?_ }
  · intro u
    by_cases hu : u = t
    · rw [hu, hself]
      exact iff_of_true rfl ((h.owner t).mp (by rw [hp]; rfl))
    · rw [hphase u hu]
      show _ ↔ s.owner = some u
      rw [← h.owner u]
      split
      · next w hw =>
          rw [hw]
          exact iff_of_false (by rintro ⟨⟩) (by rintro ⟨⟩)
      · exact Iff.rfl
  · intro _ u w hu
    exfalso
    by_cases hut : u = t
    · rw [hut, hself] at hu
      cases hu
    · rw [hphase u hut] at hu
      split at hu
      · cases hu
      · next hne => exact hne w hu
  · intro u w now hu
    by_cases hut : u = t
    · rw [hut, hself] at hu
      cases hu
    · rw [hphase u hut] at hu
      split at hu
      · cases hu
      · exact h.timely u w now hu

/-- A post is over. -/
theorem unlock (h : SemInv initial s) (hp : s.phase t = .unlocking) :
    SemInv initial (s.unlock t .idle) :=
  { h with
    owner := h.owner_unlock (by rw [hp]; rfl) rfl
    heard := h.heard_update (by rw [hp]; rintro ⟨⟩) (by rintro _ ⟨⟩)
    timely := h.timely_update fun w now hw => by cases hw }

theorem step (h : SemInv initial s) {a : SemAct} {s' : Sem} (hs : semStep s a = some s') :
    SemInv initial s' := by
  cases Sem.step_move hs with
  | wait hp => exact h.goto (by rw [hp]; rfl) rfl (by rintro _ ⟨⟩) (by rintro _ _ ⟨⟩)
  | timedwait timeoutMs hp =>
      exact h.goto (by rw [hp]; rfl) rfl (by rintro _ ⟨⟩) (by rintro _ _ ⟨⟩)
  | post hp => exact h.goto (by rw [hp]; rfl) rfl (by rintro _ ⟨⟩) (by rintro _ _ ⟨⟩)
  | enter hp ho hv => exact h.lock ho (by rw [hp]; rintro ⟨⟩) rfl
  | enterPost now hp ho => exact h.lock ho (by rw [hp]; rintro ⟨⟩) rfl
  | again now hp ho => exact h.lock ho (by rw [hp]; rintro ⟨⟩) rfl
  | @timeout t w now' now hp ho hw =>
      have hi := h.goto (t := t) (p := .idle) (by rw [hp]; rfl) rfl (by rintro _ ⟨⟩)
        (by rintro _ _ ⟨⟩)
      refine { hi with listed := fun e he => ?_ }
      rcases List.mem_append.mp he with he | he
      · exact h.listed e he
      · rw [List.mem_singleton.mp he]
        exact ⟨hw, h.timely t w now' hp⟩
  | fail now hp ho => exact h.goto (by rw [hp]; rfl) rfl (by rintro _ ⟨⟩) (by rintro _ _ ⟨⟩)
  | sleep hp hc => exact h.sleep hp hc
  | take hp hc => exact h.take hp hc
  | wake hp hr =>
      refine h.goto (by rw [hp]; rfl) rfl (by rintro _ ⟨⟩) ?_
      intro w now he
      cases he
      exact hr
  | add hp => exact h.add hp
  | broadcast hp => exact h.broadcast hp
  | unlock hp => exact h.unlock hp

end SemInv

/-- The invariant holds in every state of every run. -/
theorem semInv_of_leads {initial : BitVec 32} {s : Sem}
    (h : semMachine.Leads Machine.Any (.start initial) s) : SemInv initial s :=
  h.invariant (fun _ _ _ hi _ hs => hi.step hs) (.start initial)

/-! ## Tokens and sleepers -/

/-- The thread is before `pthread_mutex_lock` in a wait, or it comes back from the condition
in a loop that goes on: the wait has no timeout, or its condition has neither timed out nor
failed. -/
def SemPhase.Waiting : SemPhase → Prop
  | .entering _ => True
  | .awake w r => w.timeoutMs < 0 ∨ r = .woken ∨ r = .interrupted
  | _ => False

theorem semStep_test {s : Sem} {t : Nat} {w : SemWait} (hp : s.phase t = .testing w)
    (hc : 0 < s.count) :
    semStep s (.test t) =
      some { s.unlock t .idle with count := s.count - 1, taken := s.taken + 1 } := by
  rw [semStep, hp]
  simp only [Sem.test]
  rw [if_neg (Nat.pos_iff_ne_zero.mp hc)]

/-- A thread that is in a wait comes to the test of the count with the mutex. -/
theorem semStep_lock {s : Sem} {t : Nat} (ho : s.owner = none) (hp : (s.phase t).Waiting)
    {now : Timespec} (hv : now.Valid) :
    ∃ w, semStep s (.lock t now) = some { s.goto t (.testing w) with owner := some t } := by
  rw [semStep]
  cases hq : s.phase t with
  | entering timeoutMs =>
      refine ⟨⟨timeoutMs, now⟩, ?_⟩
      simp only [Sem.lock]
      rw [if_pos hv, if_pos ho]
  | awake w r =>
      rw [hq] at hp
      refine ⟨w, ?_⟩
      simp only
      rw [if_pos ho]
      unfold Sem.resume
      rcases hp with hneg | rfl | rfl
      · rw [if_pos hneg]
        rfl
      · split <;> rfl
      · split <;> rfl
  | idle | testing | asleep | posting | adding | added | unlocking =>
      rw [hq] at hp
      exact hp.elim

/-- With the mutex free and a token there, a thread in a wait takes the token by its own
next two steps. -/
theorem Sem.takes_token {s : Sem} {t : Nat} (ho : s.owner = none) (hc : 0 < s.count)
    (hp : (s.phase t).Waiting) {now : Timespec} (hv : now.Valid) :
    ∃ s', semMachine.run s [.lock t now, .test t] = some s' ∧
      s'.count = s.count - 1 ∧ s'.taken = s.taken + 1 ∧ s'.owner = none ∧
      s'.phase t = .idle := by
  obtain ⟨w, hlock⟩ := semStep_lock ho hp hv
  let u : Sem := { s.goto t (.testing w) with owner := some t }
  have hu : u.phase t = .testing w := by
    show Function.update s.phase t (.testing w) t = _
    exact Function.update_self ..
  refine ⟨{ u.unlock t .idle with count := u.count - 1, taken := u.taken + 1 },
    ?_, rfl, rfl, rfl, ?_⟩
  · show (semStep s (.lock t now)).bind (fun v => (semStep v (.test t)).bind some) = _
    rw [hlock, Option.bind_some]
    show (semStep u (.test t)).bind some = _
    rw [semStep_test hu hc]
    rfl
  · show Function.update u.phase t .idle t = _
    exact Function.update_self ..

/-- In every run no token is lost or made up, up to the range of the counter; nobody sleeps
while the mutex is free and a token is there; and a thread in a wait that has neither timed
out nor failed then gets it. -/
theorem sem_tokens_conserved {initial : BitVec 32} {s : Sem}
    (h : semMachine.Leads Machine.Any (.start initial) s) :
    (s.count + s.taken) % 2 ^ 32 = (initial.toNat + s.posted) % 2 ^ 32 ∧
      (initial.toNat + s.posted < 2 ^ 32 → s.count + s.taken = initial.toNat + s.posted) ∧
      (s.owner = none → 0 < s.count →
        (∀ t w, s.phase t ≠ .asleep w) ∧
        ∀ t now, (s.phase t).Waiting → now.Valid →
          ∃ s', semMachine.run s [.lock t now, .test t] = some s' ∧ s'.count = s.count - 1 ∧
            s'.taken = s.taken + 1 ∧ s'.owner = none ∧ s'.phase t = .idle) := by
  have hi := semInv_of_leads h
  refine ⟨hi.tokens, hi.exact, fun ho hc => ⟨fun t w hw => ?_, fun t now hw hv => ?_⟩⟩
  · obtain ⟨u, hu⟩ := hi.heard hc t w hw
    have hown : s.owner = some u := (hi.owner u).mp (by rw [hu]; rfl)
    rw [ho] at hown
    cases hown
  · exact Sem.takes_token ho hc hw hv

/-- Thread 1 falls asleep, thread 2 posts two tokens, and thread 1 takes one of them. -/
def sleeperRun : List SemAct :=
  [.wait 1, .lock 1 ⟨0, 0⟩, .test 1, .post 2 2, .lock 2 ⟨0, 0⟩, .add 2, .broadcast 2, .unlock 2,
    .timedwait 3 5, .lock 1 ⟨0, 0⟩, .test 1]

theorem sem_tokens_conserved_sleeper :
    ∃ s, semMachine.Leads Machine.Any (.start 0) s ∧ s.owner = none ∧ s.count = 1 ∧
      s.taken = 1 ∧ s.posted = 2 ∧ s.count + s.taken = 0 + s.posted ∧
      ∃ s', semMachine.run s [.lock 3 ⟨7, 0⟩, .test 3] = some s' ∧ s'.count = 0 := by
  obtain ⟨s, hs, ho, hc, ht, hp, hw⟩ := Machine.exists_run (M := semMachine)
    (s := .start 0) (l := sleeperRun)
    (P := fun s => s.owner = none ∧ s.count = 1 ∧ s.taken = 1 ∧ s.posted = 2 ∧
      s.phase 3 = .entering 5) (by decide)
  have hl := Machine.leads_of_run sleeperRun _ s hs (Machine.runMeets_any _ _)
  obtain ⟨-, hsum, hfree⟩ := sem_tokens_conserved hl
  obtain ⟨s', hs', hc', -⟩ := (hfree ho (by omega)).2 3 ⟨7, 0⟩ (by rw [hw]; trivial) (by decide)
  refine ⟨s, hl, ho, hc, ht, hp, hsum (by rw [hp]; decide), s', hs', ?_⟩
  rw [hc', hc]

/-! ## Deadlines of waits -/

/-- The waits began at times that the clock can show. -/
def Clocked (phase : Nat → SemPhase) : Prop := ∀ t, ∀ w ∈ (phase t).call, w.start.Valid

theorem Clocked.update {phase : Nat → SemPhase} (h : Clocked phase) (t : Nat) {p : SemPhase}
    (hp : ∀ w ∈ p.call, w.start.Valid) : Clocked (Function.update phase t p) :=
  (Function.forall_update_iff phase fun _ q => ∀ w ∈ q.call, w.start.Valid).mpr
    ⟨hp, fun u _ => h u⟩

theorem Clocked.step {s s' : Sem} {a : SemAct} (h : Clocked s.phase) (hs : semStep s a = some s') :
    Clocked s'.phase := by
  have hsame : ∀ {t : Nat} {p : SemPhase}, p.call = (s.phase t).call →
      Clocked (Function.update s.phase t p) := by
    intro t p hp
    refine h.update t ?_
    rw [hp]
    exact h t
  have hout : ∀ {t : Nat} {p : SemPhase}, p.call = none → Clocked (Function.update s.phase t p) := by
    intro t p hp
    refine h.update t fun w hw => ?_
    rw [hp] at hw
    cases hw
  cases Sem.step_move hs with
  | wait _ | timedwait _ _ | post _ | enterPost _ _ _ | timeout _ _ _ _ | fail _ _ _ | take _ _
  | add _ | unlock _ => exact hout rfl
  | enter hp ho hv =>
      refine h.update _ fun w hw => ?_
      cases hw
      exact hv
  | again _ hp _ | sleep hp _ | wake hp _ => exact hsame (by rw [hp]; rfl)
  | @broadcast t hp =>
      refine Clocked.update (fun u w hw => h u w ?_) t fun w hw => by cases hw
      split at hw
      · next hq =>
          rw [hq]
          exact hw
      · exact hw

/-- In every run the time that a wait hands to `pthread_cond_timedwait` is valid, and a wait
that gave up was given a timeout that is not negative and lasted that long. -/
theorem sem_timeouts_late {initial : BitVec 32} {s : Sem}
    (h : semMachine.Leads Machine.Any (.start initial) s) :
    (∀ t, ∀ w ∈ (s.phase t).call, 0 ≤ w.timeoutMs → w.deadline.Valid) ∧
      ∀ e ∈ s.timeouts, e.1.Lasted e.2 := by
  have hclock : Clocked s.phase :=
    h.invariant (I := fun s => Clocked s.phase) (fun _ _ _ hi _ hs => hi.step hs)
      fun _ _ hw => by cases hw
  refine ⟨fun t w hw h0 => semDeadline_valid (hclock t w hw) h0, fun e he => ?_⟩
  obtain ⟨h0, hle⟩ := (semInv_of_leads h).listed e he
  exact SemWait.lasted h0 hle

end Ztk.Thread
