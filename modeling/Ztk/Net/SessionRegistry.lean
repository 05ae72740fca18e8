import Ztk.Lib.Lifetime
import Ztk.Lib.Machine

/-!
# The sessions of a TCP server

`listen_on_readable`, `session_create`, `session_list_add`, `session_remove`,
`session_destroy` and `ztk_tcp_server_destroy` of `tcp_server.c`, on any number of
pollers with one thread each.  Every poller may accept connections; a session is
attached to the poller that `choose_poller` picked, and only its thread delivers
events to it.

A section under `srv->mutex` is one step.  In the accept loop a session is attached
by one step and put into the array by the next; in `session_remove` it is marked, then
taken out of the array, then destroyed.  Sessions are named by serial numbers, and
`Lifetime` records which are freed and whether a freed one was used.
-/

namespace Ztk.Net

open Ztk.Lib

/-! ## State -/

/-- Where the thread of a poller is. -/
inductive RegistryPhase where
  /-- Between two events, or at the head of the accept loop. -/
  | idle
  /-- In `listen_on_readable`, after `session_create`. -/
  | adding (session : Nat)
  /-- In `session_remove`, before the mutex. -/
  | dropping (session : Nat)
  /-- In `session_remove`, after the mutex. -/
  | destroying (session : Nat)
deriving DecidableEq

/-- The sessions of a server and the threads of its pollers. -/
structure Registry where
  /-- `sessions[0..session_count)`. -/
  sessions : List Nat
  sessionCap : Nat
  /-- The name of the next session. -/
  next : Nat
  /-- `session->poller`. -/
  poller : Nat → Nat
  /-- The session's socket is registered with the poller. -/
  attached : Nat → Bool
  closing : Nat → Bool
  mem : Lifetime
  phase : Nat → RegistryPhase

namespace Registry

/-- A server that has accepted nothing. -/
def start : Registry where
  sessions := []
  sessionCap := 0
  next := 0
  poller := fun _ => 0
  attached := fun _ => false
  closing := fun _ => false
  mem := .start
  phase := fun _ => .idle

/-- The thread goes to another place. -/
def goto (s : Registry) (p : Nat) (phase : RegistryPhase) : Registry :=
  { s with phase := Function.update s.phase p phase }

/-- `session_create`, where the allocation succeeds and the session is attached. -/
def sessionCreate (s : Registry) (target : Nat) : Registry :=
  { s with
    next := s.next + 1
    poller := Function.update s.poller s.next target
    attached := Function.update s.attached s.next true
    closing := Function.update s.closing s.next false }

/-- `session_destroy`. -/
def sessionDestroy (s : Registry) (x : Nat) : Registry :=
  { s with
    attached := Function.update s.attached x false
    mem := (s.mem.use x).free x }

/-- `session_list_add`: the array has room, or `realloc` gives it some. -/
def sessionListAdd (s : Registry) (realloc : Bool) (x : Nat) : Bool × Registry :=
  if s.sessions.length < s.sessionCap then (true, { s with sessions := s.sessions ++ [x] })
  else if realloc then
    (true, { s with
      sessions := s.sessions ++ [x]
      sessionCap := if s.sessionCap = 0 then 8 else s.sessionCap * 2 })
  else (false, s)

/-- The loop of `session_remove` over the array: the last pointer takes the place of
the one found. -/
def dropSession (l : List Nat) (x : Nat) : List Nat :=
  if x ∈ l then (l.set (l.idxOf x) (l.getLastD x)).dropLast else l

/-- The loop of `ztk_tcp_server_destroy`. -/
def tcpServerDestroy (s : Registry) : Registry :=
  { s.sessions.foldl sessionDestroy s with sessions := [] }

end Registry

/-! ## The machine -/

/-- One step of the thread of a poller. -/
inductive RegistryAct where
  /-- `ztk_socket_accept` returns a client, `choose_poller` picks `target`, and
  `session_create` runs. -/
  | accept (p target : Nat) (calloc attach : Bool)
  /-- `session_list_add`, and `session_destroy` if it fails. -/
  | listAdd (p : Nat) (realloc : Bool)
  /-- An event of an attached session; `gone` when it ends in `session_remove`. -/
  | event (p session : Nat) (gone : Bool)
  /-- The section of `session_remove` under the mutex. -/
  | drop (p : Nat)
  /-- `on_error` and `session_destroy`. -/
  | destroy (p : Nat)

/-- The event of an attached session. -/
def stepEvent (s : Registry) (p x : Nat) (gone : Bool) : Registry :=
  let s := { s with mem := s.mem.use x }
  if s.closing x || !gone then s
  else { s with closing := Function.update s.closing x true }.goto p (.dropping x)

def registryStep (s : Registry) : RegistryAct → Option Registry
  | .accept p target calloc attach =>
      if s.phase p ≠ .idle then none
      else if calloc && attach then some ((s.sessionCreate target).goto p (.adding s.next))
      else some s
  | .listAdd p realloc =>
      match s.phase p with
      | .adding x =>
          match s.sessionListAdd realloc x with
          | (true, t) => some (t.goto p .idle)
          | (false, t) => some ((t.sessionDestroy x).goto p .idle)
      | _ => none
  | .event p x gone =>
      if s.phase p = .idle ∧ s.attached x = true ∧ s.poller x = p then some (stepEvent s p x gone)
      else none
  | .drop p =>
      match s.phase p with
      | .dropping x =>
          some ({ s with sessions := Registry.dropSession s.sessions x }.goto p (.destroying x))
      | _ => none
  | .destroy p =>
      match s.phase p with
      | .destroying x => some ((s.sessionDestroy x).goto p .idle)
      | _ => none

/-- The sessions of a server as a machine. -/
def registryMachine : Machine Registry RegistryAct := ⟨registryStep⟩

/-- `session_remove` takes the mutex after `session_list_add` has put the session into
the array. -/
def AfterAdd (s : Registry) : RegistryAct → Prop
  | .drop p => ∀ x, s.phase p = .dropping x → x ∈ s.sessions
  | _ => True

instance (s : Registry) (a : RegistryAct) : Decidable (AfterAdd s a) :=
  match a with
  | .drop p =>
      match hp : s.phase p with
      | .dropping x => decidable_of_iff (x ∈ s.sessions)
          ⟨fun h y hy => by rw [hp] at hy; cases hy; exact h, fun h => h x hp⟩
      | .idle | .adding _ | .destroying _ => isTrue fun x hx => by rw [hp] at hx; cases hx
  | .accept _ _ _ _ | .listAdd _ _ | .event _ _ _ | .destroy _ => isTrue trivial

/-! ## The array -/

/-- The last session of the array is taken out. -/
theorem dropSession_last {a : List Nat} {x : Nat} (ha : x ∉ a) :
    Registry.dropSession (a ++ [x]) x = a := by
  have hidx : (a ++ [x]).idxOf x = a.length := by
    rw [List.idxOf_append_of_notMem ha, List.idxOf_cons_self, Nat.add_zero]
  rw [Registry.dropSession, if_pos (List.mem_append_right a List.mem_cons_self), hidx,
    List.set_append_right _ _ (Nat.le_refl _), Nat.sub_self, List.set_cons_zero,
    List.dropLast_concat]

/-- The last session takes the place of the one that is taken out. -/
theorem dropSession_middle {a b : List Nat} {x z : Nat} (ha : x ∉ a) :
    Registry.dropSession (a ++ x :: (b ++ [z])) x = a ++ z :: b := by
  have hidx : (a ++ x :: (b ++ [z])).idxOf x = a.length := by
    rw [List.idxOf_append_of_notMem ha, List.idxOf_cons_self, Nat.add_zero]
  have hlast : (a ++ x :: (b ++ [z])).getLastD x = z := by
    rw [← List.cons_append, ← List.append_assoc, List.getLastD_concat]
  rw [Registry.dropSession, if_pos (List.mem_append_right a List.mem_cons_self), hidx, hlast,
    List.set_append_right _ _ (Nat.le_refl _), Nat.sub_self, List.set_cons_zero,
    ← List.cons_append, ← List.append_assoc, List.dropLast_concat]

/-- Taking a session out of the array takes out one pointer and reorders the rest. -/
theorem dropSession_perm {l : List Nat} {x : Nat} (h : x ∈ l) :
    (Registry.dropSession l x).Perm (l.erase x) := by
  obtain ⟨a, b, rfl, ha⟩ := List.eq_append_cons_of_mem h
  have herase : (a ++ x :: b).erase x = a ++ b := by
    rw [List.erase_append_right _ ha, List.erase_cons_head]
  rw [herase]
  rcases List.eq_nil_or_concat b with rfl | ⟨b, z, rfl⟩
  · rw [dropSession_last ha, List.append_nil]
  · rw [List.concat_eq_append, dropSession_middle ha]
    exact List.Perm.append_left a (List.perm_append_singleton z b).symm

theorem mem_dropSession {l : List Nat} {x y : Nat} (h : x ∈ l) (hn : l.Nodup) :
    y ∈ Registry.dropSession l x ↔ y ∈ l ∧ y ≠ x := by
  rw [(dropSession_perm h).mem_iff, hn.mem_erase_iff, and_comm]

theorem nodup_dropSession {l : List Nat} {x : Nat} (h : x ∈ l) (hn : l.Nodup) :
    (Registry.dropSession l x).Nodup :=
  (dropSession_perm h).nodup_iff.mpr (hn.erase x)

/-! ## The invariant -/

/-- Sessions in the array are live, and no thread still has to add or destroy them. -/
structure RegistryInv (s : Registry) : Prop where
  sound : s.mem.Sound
  nodup : s.sessions.Nodup
  listed : ∀ x ∈ s.sessions, s.mem.Live x ∧ x < s.next ∧
    ∀ p, s.phase p ≠ .adding x ∧ s.phase p ≠ .destroying x
  adding : ∀ p x, s.phase p = .adding x → s.mem.Live x ∧ x < s.next ∧
    ∀ q, (s.phase q = .adding x → q = p) ∧ s.phase q ≠ .destroying x
  dropping : ∀ p x, s.phase p = .dropping x → x < s.next ∧ s.closing x = true ∧ s.poller x = p
  destroying : ∀ p x, s.phase p = .destroying x → s.mem.Live x ∧ x < s.next ∧
    s.closing x = true ∧ s.poller x = p
  attached : ∀ x, s.attached x = true → s.mem.Live x ∧ x < s.next
  fresh : ∀ x, s.next ≤ x → s.mem.Live x

theorem RegistryInv.start : RegistryInv .start where
  sound := Lifetime.sound_start
  nodup := List.nodup_nil
  listed := fun x hx => by cases hx
  adding := fun p x hp => by cases hp
  dropping := fun p x hp => by cases hp
  destroying := fun p x hp => by cases hp
  attached := fun x hx => by cases hx
  fresh := fun _ _ => rfl

/-- A thread that moves leaves the phases of the others. -/
theorem phase_goto {s : Registry} {p q : Nat} {phase ph : RegistryPhase}
    (h : (s.goto p phase).phase q = ph) : (q = p ∧ phase = ph) ∨ (q ≠ p ∧ s.phase q = ph) := by
  have h : Function.update s.phase p phase q = ph := h
  by_cases hq : q = p
  · subst hq
    rw [Function.update_self] at h
    exact Or.inl ⟨rfl, h⟩
  · rw [Function.update_of_ne hq] at h
    exact Or.inr ⟨hq, h⟩

namespace RegistryInv

variable {s : Registry} {p x : Nat}

/-- A thread is done with its session. -/
theorem idle (h : RegistryInv s) (p : Nat) : RegistryInv (s.goto p .idle) := by
  have hsub : ∀ {q ph}, ph ≠ .idle → (s.goto p .idle).phase q = ph → s.phase q = ph := by
    intro q ph hne hq
    rcases phase_goto hq with ⟨-, he⟩ | ⟨-, hq⟩
    · exact absurd he.symm hne
    · exact hq
  exact
    { h with
      listed := fun x hx => by
        obtain ⟨hl, hn, hp⟩ := h.listed x hx
        exact ⟨hl, hn, fun q => ⟨fun hq => (hp q).1 (hsub (by simp) hq),
          fun hq => (hp q).2 (hsub (by simp) hq)⟩⟩
      adding := fun q x hq => by
        obtain ⟨hl, hn, hu⟩ := h.adding q x (hsub (by simp) hq)
        exact ⟨hl, hn, fun r => ⟨fun hr => (hu r).1 (hsub (by simp) hr),
          fun hr => (hu r).2 (hsub (by simp) hr)⟩⟩
      dropping := fun q x hq => h.dropping q x (hsub (by simp) hq)
      destroying := fun q x hq => h.destroying q x (hsub (by simp) hq) }

/-- Uses of live sessions. -/
theorem use (h : RegistryInv s) (hl : s.mem.Live x) :
    RegistryInv { s with mem := s.mem.use x } :=
  { h with
    sound := h.sound.use hl }

/-- A session outside the array that no other thread will touch is destroyed. -/
theorem destroySession (h : RegistryInv s) (hl : s.mem.Live x) (hn : x < s.next)
    (hout : x ∉ s.sessions) (hadd : ∀ q, s.phase q = .adding x → q = p)
    (hdes : ∀ q, s.phase q = .destroying x → q = p) :
    RegistryInv ((s.sessionDestroy x).goto p .idle) := by
  have hlive : ∀ {y}, s.mem.Live y → y ≠ x → ((s.mem.use x).free x).Live y :=
    fun hy hne => Lifetime.free_live.mpr ⟨hy, hne⟩
  have hsub : ∀ {q ph}, ph ≠ .idle → ((s.sessionDestroy x).goto p .idle).phase q = ph →
      q ≠ p ∧ s.phase q = ph := by
    intro q ph hne hq
    rcases phase_goto hq with ⟨-, he⟩ | ⟨hqp, hq⟩
    · exact absurd he.symm hne
    · exact ⟨hqp, hq⟩
  exact
    { sound := (h.sound.use hl).free hl
      nodup := h.nodup
      listed := fun y hy => by
        obtain ⟨hyl, hyn, hyp⟩ := h.listed y hy
        exact ⟨hlive hyl fun he => hout (he ▸ hy), hyn, fun q =>
          ⟨fun hq => (hyp q).1 (hsub (by simp) hq).2, fun hq => (hyp q).2 (hsub (by simp) hq).2⟩⟩
      adding := fun q y hq => by
        obtain ⟨hqp, hq⟩ := hsub (by simp) hq
        obtain ⟨hyl, hyn, hyp⟩ := h.adding q y hq
        refine ⟨hlive hyl fun he => hqp (hadd q (he ▸ hq)), hyn, fun r =>
          ⟨fun hr => (hyp r).1 (hsub (by simp) hr).2, fun hr => (hyp r).2 (hsub (by simp) hr).2⟩⟩
      dropping := fun q y hq => h.dropping q y (hsub (by simp) hq).2
      destroying := fun q y hq => by
        obtain ⟨hqp, hq⟩ := hsub (by simp) hq
        obtain ⟨hyl, hrest⟩ := h.destroying q y hq
        exact ⟨hlive hyl fun he => hqp (hdes q (he ▸ hq)), hrest⟩
      attached := fun y hy => by
        have hy : Function.update s.attached x false y = true := hy
        by_cases he : y = x
        · subst he
          rw [Function.update_self] at hy
          cases hy
        · rw [Function.update_of_ne he] at hy
          exact ⟨hlive (h.attached y hy).1 he, (h.attached y hy).2⟩
      fresh := fun y hy => hlive (h.fresh y hy) (by
        have hy : s.next ≤ y := hy
        omega) }

/-! ## The steps -/

theorem accept (h : RegistryInv s) (target : Nat) :
    RegistryInv ((s.sessionCreate target).goto p (.adding s.next)) := by
  have hnew : ∀ q, s.phase q ≠ .adding s.next ∧ s.phase q ≠ .destroying s.next := fun q =>
    ⟨fun hq => Nat.lt_irrefl _ (h.adding q _ hq).2.1,
      fun hq => Nat.lt_irrefl _ (h.destroying q _ hq).2.1⟩
  have hold : ∀ {y : Nat} {α : Type} (f : Nat → α) (v : α), y < s.next →
      Function.update f s.next v y = f y := fun f v hy => Function.update_of_ne (by omega) _ _
  exact
    { h with
      listed := fun x hx => by
        obtain ⟨hl, hn, hp⟩ := h.listed x hx
        refine ⟨hl, Nat.lt_succ_of_lt hn, fun q => ⟨fun hq => ?_, fun hq => ?_⟩⟩
        · rcases phase_goto hq with ⟨-, he⟩ | ⟨-, hq⟩
          · cases he
            omega
          · exact (hp q).1 hq
        · rcases phase_goto hq with ⟨-, he⟩ | ⟨-, hq⟩
          · cases he
          · exact (hp q).2 hq
      adding := fun q x hq => by
        rcases phase_goto hq with ⟨rfl, he⟩ | ⟨hqp, hq⟩
        · cases he
          refine ⟨h.fresh _ (Nat.le_refl _), Nat.lt_succ_self _, fun r => ⟨fun hr => ?_, fun hr => ?_⟩⟩
          · rcases phase_goto hr with ⟨he, -⟩ | ⟨-, hr⟩
            · exact he
            · exact absurd hr (hnew r).1
          · rcases phase_goto hr with ⟨-, he⟩ | ⟨-, hr⟩
            · cases he
            · exact (hnew r).2 hr
        · obtain ⟨hl, hn, hu⟩ := h.adding q x hq
          refine ⟨hl, Nat.lt_succ_of_lt hn, fun r => ⟨fun hr => ?_, fun hr => ?_⟩⟩
          · rcases phase_goto hr with ⟨-, he⟩ | ⟨-, hr⟩
            · cases he
              omega
            · exact (hu r).1 hr
          · rcases phase_goto hr with ⟨-, he⟩ | ⟨-, hr⟩
            · cases he
            · exact (hu r).2 hr
      dropping := fun q x hq => by
        rcases phase_goto hq with ⟨-, he⟩ | ⟨-, hq⟩
        · cases he
        · obtain ⟨hn, hc, hp⟩ := h.dropping q x hq
          exact ⟨Nat.lt_succ_of_lt hn, (hold s.closing false hn).trans hc,
            (hold s.poller target hn).trans hp⟩
      destroying := fun q x hq => by
        rcases phase_goto hq with ⟨-, he⟩ | ⟨-, hq⟩
        · cases he
        · obtain ⟨hl, hn, hc, hp⟩ := h.destroying q x hq
          exact ⟨hl, Nat.lt_succ_of_lt hn, (hold s.closing false hn).trans hc,
            (hold s.poller target hn).trans hp⟩
      attached := fun x hx => by
        have hx : Function.update s.attached s.next true x = true := hx
        by_cases he : x = s.next
        · subst he
          exact ⟨h.fresh _ (Nat.le_refl _), Nat.lt_succ_self _⟩
        · rw [Function.update_of_ne he] at hx
          exact ⟨(h.attached x hx).1, Nat.lt_succ_of_lt (h.attached x hx).2⟩
      fresh := fun x hx => h.fresh x (by
        have hx : s.next + 1 ≤ x := hx
        omega) }

/-- The session that a thread adds is put into the array. -/
theorem append (h : RegistryInv s) (hp : s.phase p = .adding x) (cap : Nat) :
    RegistryInv ({ s with sessions := s.sessions ++ [x], sessionCap := cap }.goto p .idle) := by
  obtain ⟨hl, hn, hu⟩ := h.adding p x hp
  have hout : x ∉ s.sessions := fun hm => ((h.listed x hm).2.2 p).1 hp
  have hsub : ∀ {q ph}, ph ≠ .idle → (s.goto p .idle).phase q = ph → q ≠ p ∧ s.phase q = ph := by
    intro q ph hne hq
    rcases phase_goto hq with ⟨-, he⟩ | ⟨hqp, hq⟩
    · exact absurd he.symm hne
    · exact ⟨hqp, hq⟩
  exact
    { h.idle p with
      nodup := List.Nodup.append h.nodup (List.nodup_singleton x) (by simpa using hout)
      listed := fun y hy => by
        rcases List.mem_append.mp hy with hy | hy
        · exact (h.idle p).listed y hy
        · rw [List.mem_singleton.mp hy]
          exact ⟨hl, hn, fun q => ⟨fun hq => (hsub (by simp) hq).1 ((hu q).1 (hsub (by simp) hq).2),
            fun hq => (hu q).2 (hsub (by simp) hq).2⟩⟩ }

theorem listAdd (h : RegistryInv s) {realloc : Bool} {t : Registry}
    (hs : registryStep s (.listAdd p realloc) = some t) : RegistryInv t := by
  simp only [registryStep] at hs
  split at hs
  · next x hp =>
    obtain ⟨hl, hn, hu⟩ := h.adding p x hp
    have hout : x ∉ s.sessions := fun hm => ((h.listed x hm).2.2 p).1 hp
    simp only [Registry.sessionListAdd] at hs
    by_cases hroom : s.sessions.length < s.sessionCap
    · rw [if_pos hroom] at hs
      cases hs
      exact h.append hp s.sessionCap
    · rw [if_neg hroom] at hs
      cases realloc with
      | true =>
          cases hs
          exact h.append hp _
      | false =>
          cases hs
          exact h.destroySession hl hn hout (fun q hq => (hu q).1 hq)
            fun q hq => absurd hq (hu q).2
  · cases hs

theorem event (h : RegistryInv s) (ha : s.attached x = true) (hp : s.poller x = p)
    (gone : Bool) : RegistryInv (stepEvent s p x gone) := by
  obtain ⟨hl, hn⟩ := h.attached x ha
  have hu := h.use hl
  rw [stepEvent]
  simp only
  split
  · exact hu
  · have hclosed : ∀ y, s.closing y = true → Function.update s.closing x true y = true := by
      intro y hy
      by_cases he : y = x
      · rw [he, Function.update_self]
      · rwa [Function.update_of_ne he]
    have hsub : ∀ {q ph}, ph ≠ .dropping x →
        (({ s with mem := s.mem.use x } : Registry).goto p (.dropping x)).phase q = ph →
          s.phase q = ph := by
      intro q ph hne hq
      rcases phase_goto hq with ⟨-, he⟩ | ⟨-, hq⟩
      · exact absurd he.symm hne
      · exact hq
    exact
      { hu with
        listed := fun y hy => by
          obtain ⟨hyl, hyn, hyp⟩ := hu.listed y hy
          exact ⟨hyl, hyn, fun q => ⟨fun hq => (hyp q).1 (hsub (by simp) hq),
            fun hq => (hyp q).2 (hsub (by simp) hq)⟩⟩
        adding := fun q y hq => by
          obtain ⟨hyl, hyn, hyp⟩ := hu.adding q y (hsub (by simp) hq)
          exact ⟨hyl, hyn, fun r => ⟨fun hr => (hyp r).1 (hsub (by simp) hr),
            fun hr => (hyp r).2 (hsub (by simp) hr)⟩⟩
        dropping := fun q y hq => by
          rcases phase_goto hq with ⟨rfl, he⟩ | ⟨-, hq⟩
          · cases he
            exact ⟨hn, Function.update_self .., hp⟩
          · obtain ⟨hyn, hyc, hyp⟩ := h.dropping q y hq
            exact ⟨hyn, hclosed y hyc, hyp⟩
        destroying := fun q y hq => by
          obtain ⟨hyl, hyn, hyc, hyp⟩ := hu.destroying q y (hsub (by simp) hq)
          exact ⟨hyl, hyn, hclosed y hyc, hyp⟩ }

theorem drop (h : RegistryInv s) (hp : s.phase p = .dropping x) (hx : x ∈ s.sessions) :
    RegistryInv
      ({ s with sessions := Registry.dropSession s.sessions x }.goto p (.destroying x)) := by
  obtain ⟨-, hc, hpoll⟩ := h.dropping p x hp
  obtain ⟨hl, hn, hu⟩ := h.listed x hx
  have hmem : ∀ {y}, y ∈ Registry.dropSession s.sessions x → y ∈ s.sessions ∧ y ≠ x :=
    fun hy => (mem_dropSession hx h.nodup).mp hy
  have hsub : ∀ {q ph}, ph ≠ .destroying x → (s.goto p (.destroying x)).phase q = ph →
      s.phase q = ph := by
    intro q ph hne hq
    rcases phase_goto hq with ⟨-, he⟩ | ⟨-, hq⟩
    · exact absurd he.symm hne
    · exact hq
  exact
    { h with
      nodup := nodup_dropSession hx h.nodup
      listed := fun y hy => by
        obtain ⟨hy, hne⟩ := hmem hy
        obtain ⟨hyl, hyn, hyp⟩ := h.listed y hy
        exact ⟨hyl, hyn, fun q => ⟨fun hq => (hyp q).1 (hsub (by simp) hq),
          fun hq => (hyp q).2 (hsub (by simpa using hne) hq)⟩⟩
      adding := fun q y hq => by
        have hq := hsub (by simp) hq
        obtain ⟨hyl, hyn, hyp⟩ := h.adding q y hq
        have hne : y ≠ x := fun he => (hu q).1 (he ▸ hq)
        exact ⟨hyl, hyn, fun r => ⟨fun hr => (hyp r).1 (hsub (by simp) hr),
          fun hr => (hyp r).2 (hsub (by simpa using hne) hr)⟩⟩
      dropping := fun q y hq => h.dropping q y (hsub (by simp) hq)
      destroying := fun q y hq => by
        rcases phase_goto hq with ⟨rfl, he⟩ | ⟨-, hq⟩
        · cases he
          exact ⟨hl, hn, hc, hpoll⟩
        · exact h.destroying q y hq }

theorem step (h : RegistryInv s) {a : RegistryAct} {t : Registry} (ha : AfterAdd s a)
    (hs : registryMachine.step s a = some t) : RegistryInv t := by
  cases a with
  | accept p target calloc attach =>
      simp only [registryMachine, registryStep] at hs
      split at hs
      · cases hs
      · split at hs
        · cases hs
          exact h.accept target
        · cases hs
          exact h
  | listAdd p realloc => exact h.listAdd hs
  | event p x gone =>
      obtain ⟨⟨-, hx, hp⟩, hs⟩ := Option.ite_none_right_eq_some.mp hs
      cases hs
      exact h.event hx hp gone
  | drop p =>
      simp only [registryMachine, registryStep] at hs
      split at hs
      · next x hp =>
          cases hs
          exact h.drop hp (ha x hp)
      · cases hs
  | destroy p =>
      simp only [registryMachine, registryStep] at hs
      split at hs
      · next x hp =>
          cases hs
          obtain ⟨hl, hn, -, hpoll⟩ := h.destroying p x hp
          refine h.destroySession hl hn (fun hm => ((h.listed x hm).2.2 p).2 hp)
            (fun q hq => absurd hp ((h.adding q x hq).2.2 p).2) fun q hq => ?_
          rw [← (h.destroying q x hq).2.2.2, hpoll]
      · cases hs

end RegistryInv

/-! ## Runs -/

/-- Distinct live sessions are destroyed one after the other. -/
theorem destroyAll_sound {l : List Nat} {s : Registry} (hs : s.mem.Sound) (hn : l.Nodup)
    (hl : ∀ x ∈ l, s.mem.Live x) :
    (l.foldl Registry.sessionDestroy s).mem.Sound ∧
      ∀ x ∈ l, ¬ (l.foldl Registry.sessionDestroy s).mem.Live x := by
  suffices h : (l.foldl Registry.sessionDestroy s).mem.Sound ∧
      ∀ y, (l.foldl Registry.sessionDestroy s).mem.Live y ↔ s.mem.Live y ∧ y ∉ l from
    ⟨h.1, fun x hx hlive => ((h.2 x).mp hlive).2 hx⟩
  induction l generalizing s with
  | nil => exact ⟨hs, fun y => by simp⟩
  | cons x l ih =>
      obtain ⟨hxl, hn⟩ := List.nodup_cons.mp hn
      have hx := hl x List.mem_cons_self
      have hlive : ∀ y, (s.sessionDestroy x).mem.Live y ↔ s.mem.Live y ∧ y ≠ x :=
        fun y => Lifetime.free_live
      obtain ⟨hsound, hrest⟩ := ih (s := s.sessionDestroy x) ((hs.use hx).free hx) hn fun y hy =>
        (hlive y).mpr ⟨hl y (List.mem_cons_of_mem x hy), fun he => hxl (he ▸ hy)⟩
      refine ⟨hsound, fun y => ?_⟩
      rw [List.foldl_cons, hrest y, hlive y, and_assoc, List.mem_cons, not_or]

/-- In every run in which `session_remove` takes the mutex after `session_list_add` did,
the sessions in the array are distinct and not destroyed, and `ztk_tcp_server_destroy`
destroys each of them once. -/
theorem registry_sessions_live (s : Registry) (h : registryMachine.Leads AfterAdd .start s) :
    s.sessions.Nodup ∧ (∀ x ∈ s.sessions, s.mem.Live x) ∧
      s.tcpServerDestroy.mem.usedFreed = false ∧ s.tcpServerDestroy.mem.freedTwice = false ∧
      ∀ x ∈ s.sessions, ¬ s.tcpServerDestroy.mem.Live x := by
  have hinv : RegistryInv s :=
    h.invariant (fun _ _ _ hi hc hs => hi.step hc hs) RegistryInv.start
  have hlive : ∀ x ∈ s.sessions, s.mem.Live x := fun x hx => (hinv.listed x hx).1
  obtain ⟨hsound, hgone⟩ := destroyAll_sound hinv.sound hinv.nodup hlive
  exact ⟨hinv.nodup, hlive, hsound.usedFreed, hsound.freedTwice, hgone⟩

/-- Poller 0 accepts two sessions for poller 1, and the first is removed. -/
def acceptRun : List RegistryAct :=
  [.accept 0 1 true true, .event 1 0 true, .listAdd 0 true, .drop 1, .accept 0 1 true true,
    .destroy 1, .listAdd 0 false]

theorem registry_sessions_live_run :
    ∃ s, registryMachine.run .start acceptRun = some s ∧ s.sessions = [1] ∧ s.mem.Live 1 := by
  have hrun : (registryMachine.run .start acceptRun).map (fun s => s.sessions) = some [1] := by
    decide +kernel
  obtain ⟨s, hs, hone⟩ := Option.map_eq_some_iff.mp hrun
  have hl := Machine.leads_of_run (C := AfterAdd) acceptRun _ _ hs (by decide +kernel)
  exact ⟨s, hs, hone, (registry_sessions_live s hl).2.1 1 (by rw [hone]; exact List.mem_cons_self)⟩

/-- The client closes before the session is in the array. -/
def earlyClose : List RegistryAct :=
  [.accept 0 1 true true, .event 1 0 true, .drop 1, .destroy 1, .listAdd 0 true]

theorem registry_dangling_session :
    ∃ s, registryMachine.run .start earlyClose = some s ∧ 0 ∈ s.sessions ∧ ¬ s.mem.Live 0 ∧
      s.tcpServerDestroy.mem.freedTwice = true := by
  have hrun : (registryMachine.run .start earlyClose).map
      (fun s => (s.sessions, s.mem.freed 0, s.tcpServerDestroy.mem.freedTwice)) =
        some ([0], true, true) := by decide +kernel
  obtain ⟨s, hs, heq⟩ := Option.map_eq_some_iff.mp hrun
  obtain ⟨hone, hfreed, htwice⟩ : s.sessions = [0] ∧ s.mem.freed 0 = true ∧
      s.tcpServerDestroy.mem.freedTwice = true := by simpa using heq
  refine ⟨s, hs, by rw [hone]; exact List.mem_cons_self, ?_, htwice⟩
  rw [Lifetime.Live, hfreed]
  simp

end Ztk.Net
