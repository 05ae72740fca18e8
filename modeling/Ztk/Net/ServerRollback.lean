import Ztk.Net.ManagerDriver

/-!
# What a server that is not started holds

`ztk_tcp_server_start` registers the listening socket and a manager timer with one
poller after the other, and when one of them fails it calls `ztk_tcp_server_stop`.
But `ztk_tcp_server_stop` looks at `started`, which is set after the last poller, so
it returns at once and what was registered stays.

A failure is harmless exactly when nothing was registered before it: the socket
cannot listen, or the first poller refuses it.  In runs where every failure is of
this kind, a server that is not started holds nothing (`Accounted`).
-/

namespace Ztk.Net

open Ztk.Lib Ztk.Util

/-- The timer may still call `manager_timer_cb`. -/
def ManagerTimer.live (m : ManagerTimer) : Bool := !m.cancelled && decide (m.phase ≠ .lost)

namespace TcpServer

/-- No poller has the listening socket, and no manager timer is armed. -/
structure Released (srv : TcpServer) : Prop where
  listening : ∀ i, srv.listening i = false
  timers : ∀ k m, srv.timers k = some m → m.live = false

/-- `listen_attach_manager` succeeds. -/
def attaches (srv : TcpServer) (delay : DoDelay) : Bool :=
  match srv.managerIntervalSec with
  | .neg | .zero => true
  | .pos _ => !srv.onManager || (delayPhase delay).isSome

end TcpServer

/-- After the step, a server that is not started holds nothing. -/
def HoldsNothing (env : Nat → NetEnv) (srv : TcpServer) (a : ServerLabel) : Prop :=
  ∀ srv', serverStep env srv a = some srv' → srv'.started = false → srv'.Released

/-- Nothing is registered before the call fails. -/
def FailsFirst (srv : TcpServer) : ServerLabel → Prop
  | .start listen add delay =>
      srv.started = true ∨ listen ≠ .ok ∨ add 0 ≠ .ok ∨
        ∀ i < srv.pollerCount, add i = .ok ∧ srv.attaches (delay i) = true
  | _ => True

instance (srv : TcpServer) (a : ServerLabel) : Decidable (FailsFirst srv a) :=
  match a with
  | .start _ _ _ => inferInstanceAs (Decidable (_ ∨ _ ∨ _ ∨ _))
  | .stop | .accept _ _ _ _ _ _ _ | .call _ | .modEvents _ _ | .insert _ _ | .fire _
  | .managerFlush _ _ | .managerDone _ | .unlink _ => isTrue trivial

namespace TcpServer

variable {srv : TcpServer}

/-! ## Starting -/

/-- A poller gets the listening socket. -/
def listenOn (srv : TcpServer) (i : Nat) : TcpServer :=
  { srv with listening := Function.update srv.listening i true }

@[simp] theorem listenOn_attaches (srv : TcpServer) (i : Nat) (delay : DoDelay) :
    (srv.listenOn i).attaches delay = srv.attaches delay := rfl

/-- What `listen_attach_manager` does. -/
theorem listenAttachManager_cases (srv : TcpServer) (i : Nat) (delay : DoDelay) :
    (srv.attaches delay = true ∧ srv.listenAttachManager i delay = (.ok, srv)) ∨
      (srv.attaches delay = false ∧ srv.listenAttachManager i delay =
        (.nomem, { srv with bindings := Function.update srv.bindings i none })) ∨
      ∃ phase, srv.attaches delay = true ∧ srv.listenAttachManager i delay =
        (.ok, { srv with
          bindings := Function.update srv.bindings i (some srv.nextTimer)
          timers := Function.update srv.timers srv.nextTimer (some ⟨i, phase, false⟩)
          nextTimer := srv.nextTimer + 1 }) := by
  simp only [listenAttachManager, attaches]
  cases srv.managerIntervalSec with
  | neg => exact Or.inl ⟨rfl, rfl⟩
  | zero => exact Or.inl ⟨rfl, rfl⟩
  | pos ms =>
      cases srv.onManager with
      | false => exact Or.inl ⟨rfl, rfl⟩
      | true =>
          cases delayPhase delay with
          | none => exact Or.inr (Or.inl ⟨rfl, rfl⟩)
          | some phase => exact Or.inr (Or.inr ⟨phase, rfl, rfl⟩)

/-- Every armed timer is bound to one of these pollers, and only they have the
listening socket. -/
structure HeldBy (srv : TcpServer) (on : Nat → Prop) : Prop where
  listening : ∀ i, srv.listening i = true → on i
  bound : ∀ k m, srv.timers k = some m → m.live = true → ∃ i, on i ∧ srv.bindings i = some k

theorem HeldBy.mono {on on' : Nat → Prop} (h : srv.HeldBy on) (hle : ∀ i, on i → on' i) :
    srv.HeldBy on' := by
  refine ⟨fun i hi => hle i (h.listening i hi), fun k m hm hl => ?_⟩
  obtain ⟨i, hi, hb⟩ := h.bound k m hm hl
  exact ⟨i, hle i hi, hb⟩

/-- The iteration of the loop for a poller that holds nothing yet. -/
theorem HeldBy.attach {on : Nat → Prop} (h : srv.HeldBy on) {i : Nat} (hi : ¬ on i)
    (delay : DoDelay) :
    ((srv.listenOn i).listenAttachManager i delay).2.HeldBy fun j => on j ∨ j = i := by
  have hlisten : ∀ j, Function.update srv.listening i true j = true → on j ∨ j = i := by
    intro j hj
    by_cases hji : j = i
    · exact Or.inr hji
    · rw [Function.update_of_ne hji] at hj
      exact Or.inl (h.listening j hj)
  have hold : ∀ {b : Option Nat} k m, srv.timers k = some m → m.live = true →
      ∃ j, (on j ∨ j = i) ∧ Function.update srv.bindings i b j = some k := by
    intro b k m hm hl
    obtain ⟨j, hj, hb⟩ := h.bound k m hm hl
    have hne : j ≠ i := by
      rintro rfl
      exact hi hj
    exact ⟨j, Or.inl hj, (Function.update_of_ne hne b srv.bindings).trans hb⟩
  rcases listenAttachManager_cases (srv.listenOn i) i delay with
    ⟨-, heq⟩ | ⟨-, heq⟩ | ⟨phase, -, heq⟩
  · rw [heq]
    refine ⟨hlisten, fun k m hm hl => ?_⟩
    obtain ⟨j, hj, hb⟩ := h.bound k m hm hl
    exact ⟨j, Or.inl hj, hb⟩
  · rw [heq]
    exact ⟨hlisten, fun k m hm hl => hold k m hm hl⟩
  · rw [heq]
    refine ⟨hlisten, fun k m hm hl => ?_⟩
    by_cases hk : k = srv.nextTimer
    · subst hk
      exact ⟨i, Or.inr rfl, Function.update_self i _ srv.bindings⟩
    · have hm : Function.update srv.timers srv.nextTimer (some ⟨i, phase, false⟩) k = some m := hm
      rw [Function.update_of_ne hk] at hm
      exact hold k m hm hl

/-- What `listen_attach_manager` leaves alone. -/
theorem listenAttachManager_frame (srv : TcpServer) (i : Nat) (delay : DoDelay) :
    ∃ bindings timers nextTimer, (srv.listenAttachManager i delay).2 =
      { srv with bindings := bindings, timers := timers, nextTimer := nextTimer } := by
  rcases listenAttachManager_cases srv i delay with ⟨-, heq⟩ | ⟨-, heq⟩ | ⟨phase, -, heq⟩
  · rw [heq]
    exact ⟨_, _, _, rfl⟩
  · rw [heq]
    exact ⟨_, _, _, rfl⟩
  · rw [heq]
    exact ⟨_, _, _, rfl⟩

theorem listenAttachManager_ok (srv : TcpServer) (i : Nat) (delay : DoDelay) :
    (srv.listenAttachManager i delay).1 = .ok ↔ srv.attaches delay = true := by
  rcases listenAttachManager_cases srv i delay with ⟨ha, heq⟩ | ⟨ha, heq⟩ | ⟨phase, ha, heq⟩
  · rw [heq]
    exact iff_of_true rfl ha
  · rw [heq, ha]
    exact iff_of_false Err.noConfusion (by decide)
  · rw [heq]
    exact iff_of_true rfl ha

/-- An iteration of the loop: the next one follows, or the call fails. -/
theorem startPollers_cons (add : Nat → Err) (delay : Nat → DoDelay) (i : Nat) (is : List Nat)
    (hs : srv.started = false) :
    (add i = .ok ∧ srv.attaches (delay i) = true ∧ startPollers add delay srv (i :: is) =
        startPollers add delay ((srv.listenOn i).listenAttachManager i (delay i)).2 is) ∨
      (add i = .ok ∧ srv.attaches (delay i) = false ∧ (startPollers add delay srv (i :: is)).2 =
        ((srv.listenOn i).listenAttachManager i (delay i)).2) ∨
      (add i ≠ .ok ∧ (startPollers add delay srv (i :: is)).2 = srv) := by
  by_cases hadd : add i = .ok
  · obtain ⟨b, t, n, hframe⟩ := listenAttachManager_frame (srv.listenOn i) i (delay i)
    have hok := listenAttachManager_ok (srv.listenOn i) i (delay i)
    rw [listenOn_attaches] at hok
    rcases hr : (srv.listenOn i).listenAttachManager i (delay i) with ⟨err, srv'⟩
    rw [hr] at hframe hok
    have hloop : { srv with listening := Function.update srv.listening i true }.listenAttachManager i
        (delay i) = (err, srv') := hr
    rw [startPollers, if_pos hadd, hloop]
    cases ha : srv.attaches (delay i) with
    | true =>
        have he : err = .ok := hok.mpr ha
        subst he
        exact Or.inl ⟨hadd, rfl, rfl⟩
    | false =>
        have he : err ≠ .ok := fun he => by
          rw [hok.mp he] at ha
          cases ha
        -- `ztk_tcp_server_stop` finds the server not started
        have hstop : srv'.stop = srv' := stop_of_stopped ((congrArg started hframe).trans hs)
        refine Or.inr (Or.inl ⟨hadd, rfl, ?_⟩)
        cases err with
        | ok => exact absurd rfl he
        | nomem | invalid | io | timeout | again | notImpl | platform | state | bufferTooSmall
        | other _ => exact hstop
  · refine Or.inr (Or.inr ⟨hadd, ?_⟩)
    rw [startPollers, if_neg hadd, stop_of_stopped hs]

/-- The loop starts the server exactly when nothing fails, and takes nothing back. -/
theorem startPollers_started (add : Nat → Err) (delay : Nat → DoDelay) (l : List Nat)
    (srv : TcpServer) (hs : srv.started = false) :
    ((startPollers add delay srv l).2.started = true ↔
        ∀ i ∈ l, add i = .ok ∧ srv.attaches (delay i) = true) ∧
      (∀ j, srv.listening j = true → (startPollers add delay srv l).2.listening j = true) ∧
      (startPollers add delay srv l).2.pollerCount = srv.pollerCount := by
  induction l generalizing srv with
  | nil => exact ⟨iff_of_true rfl fun i hi => absurd hi List.not_mem_nil, fun _ => id, rfl⟩
  | cons i is ih =>
      obtain ⟨b, t, n, hframe⟩ := listenAttachManager_frame (srv.listenOn i) i (delay i)
      have hcount : ((srv.listenOn i).listenAttachManager i (delay i)).2.pollerCount =
          srv.pollerCount := by
        rw [hframe]
        rfl
      have hkeep : ∀ j, srv.listening j = true →
          ((srv.listenOn i).listenAttachManager i (delay i)).2.listening j = true := by
        intro j hj
        rw [hframe]
        show Function.update srv.listening i true j = true
        by_cases hji : j = i
        · rw [hji, Function.update_self]
        · rw [Function.update_of_ne hji, hj]
      rcases startPollers_cons add delay i is hs with
        ⟨hadd, ha, heq⟩ | ⟨hadd, ha, heq⟩ | ⟨hadd, heq⟩
      · rw [heq]
        obtain ⟨hst, hli, hpc⟩ := ih ((srv.listenOn i).listenAttachManager i (delay i)).2
          ((congrArg started hframe).trans hs)
        refine ⟨?_, fun j hj => hli j (hkeep j hj), hpc.trans hcount⟩
        rw [hst, List.forall_mem_cons, and_iff_right ⟨hadd, ha⟩]
        simp only [hframe]
        rfl
      · rw [heq]
        refine ⟨iff_of_false ?_ fun hall => ?_, hkeep, hcount⟩
        · rw [congrArg started hframe]
          exact fun h => Bool.false_ne_true (hs.symm.trans h)
        · rw [(hall i List.mem_cons_self).2] at ha
          cases ha
      · rw [heq]
        refine ⟨iff_of_false ?_ fun hall => hadd (hall i List.mem_cons_self).1, fun _ => id, rfl⟩
        rw [hs]
        decide

theorem startPollers_heldBy (add : Nat → Err) (delay : Nat → DoDelay) (l : List Nat)
    (hl : l.Nodup) {on : Nat → Prop} (hon : ∀ i ∈ l, ¬ on i) (h : srv.HeldBy on)
    (hs : srv.started = false) :
    (startPollers add delay srv l).2.HeldBy fun j => on j ∨ j ∈ l := by
  induction l generalizing srv on with
  | nil =>
      have hsame : { srv with started := true }.HeldBy on := ⟨h.listening, h.bound⟩
      exact hsame.mono fun _ => Or.inl
  | cons i is ih =>
      rw [List.nodup_cons] at hl
      obtain ⟨b, t, n, hframe⟩ := listenAttachManager_frame (srv.listenOn i) i (delay i)
      have hatt := h.attach (hon i List.mem_cons_self) (delay i)
      rcases startPollers_cons add delay i is hs with ⟨-, -, heq⟩ | ⟨-, -, heq⟩ | ⟨-, heq⟩
      · rw [heq]
        have hrest := ih hl.2 (fun j hj hoj => ?_) hatt ((congrArg started hframe).trans hs)
        · exact hrest.mono fun j hj => by
            rcases hj with (hj | rfl) | hj
            · exact Or.inl hj
            · exact Or.inr List.mem_cons_self
            · exact Or.inr (List.mem_cons_of_mem _ hj)
        · rcases hoj with hoj | rfl
          · exact hon j (List.mem_cons_of_mem _ hj) hoj
          · exact hl.1 hj
      · rw [heq]
        exact hatt.mono fun j hj => hj.imp_right fun he => by
          rw [he]
          exact List.mem_cons_self
      · rw [heq]
        exact h.mono fun j hj => Or.inl hj

/-! ## Stopping -/

/-- What `ztk_tcp_server_stop` does for one poller. -/
theorem stopPoller_spec (srv : TcpServer) (i : Nat) :
    (srv.stopPoller i).listening = Function.update srv.listening i false ∧
      (∀ j, j ≠ i → (srv.stopPoller i).bindings j = srv.bindings j) ∧
      (∀ k m, (srv.stopPoller i).timers k = some m → m.live = true →
        srv.timers k = some m ∧ srv.bindings i ≠ some k) ∧
      (srv.stopPoller i).pollerCount = srv.pollerCount := by
  simp only [stopPoller]
  split
  · next hb =>
      refine ⟨rfl, fun _ _ => rfl, fun k m hm _ => ⟨hm, ?_⟩, rfl⟩
      rw [hb]
      intro hn
      cases hn
  · next t hb =>
      refine ⟨rfl, fun j hj => Function.update_of_ne hj _ _, fun k m hm hl => ?_, rfl⟩
      have hm : Function.update srv.timers t
          ((srv.timers t).map fun m => { m with cancelled := true }) k = some m := hm
      by_cases hk : k = t
      · -- a cancelled timer is not armed
        rw [hk, Function.update_self, Option.map_eq_some_iff] at hm
        obtain ⟨m', -, rfl⟩ := hm
        cases hl
      · rw [Function.update_of_ne hk] at hm
        refine ⟨hm, fun he => hk ?_⟩
        rw [hb, Option.some.injEq] at he
        exact he.symm

/-- What `ztk_tcp_server_stop` does for some pollers: they lose the listening socket,
and a timer that is still armed was bound to none of them. -/
theorem stopPollers_spec (l : List Nat) (srv : TcpServer) :
    (∀ i, (l.foldl stopPoller srv).listening i = true → srv.listening i = true ∧ i ∉ l) ∧
      (∀ k m, (l.foldl stopPoller srv).timers k = some m → m.live = true →
        srv.timers k = some m ∧ ∀ i ∈ l, srv.bindings i ≠ some k) ∧
      (l.foldl stopPoller srv).pollerCount = srv.pollerCount := by
  induction l generalizing srv with
  | nil =>
      exact ⟨fun i hi => ⟨hi, List.not_mem_nil⟩,
        fun k m hm _ => ⟨hm, fun i hi => absurd hi List.not_mem_nil⟩, rfl⟩
  | cons i is ih =>
      obtain ⟨hli, hti, hpc⟩ := ih (srv.stopPoller i)
      obtain ⟨hlisten, hbind, htimer, hcount⟩ := stopPoller_spec srv i
      rw [List.foldl_cons]
      refine ⟨fun j hj => ?_, fun k m hm hl => ?_, hpc.trans hcount⟩
      · obtain ⟨hj, hjs⟩ := hli j hj
        rw [hlisten] at hj
        have hji : j ≠ i := by
          rintro rfl
          rw [Function.update_self] at hj
          cases hj
        rw [Function.update_of_ne hji] at hj
        exact ⟨hj, fun hm => (List.mem_cons.mp hm).elim hji hjs⟩
      · obtain ⟨hm, hnot⟩ := hti k m hm hl
        obtain ⟨hm, hi⟩ := htimer k m hm hl
        refine ⟨hm, fun j hj => ?_⟩
        by_cases hji : j = i
        · rw [hji]
          exact hi
        · rw [← hbind j hji]
          exact hnot j ((List.mem_cons.mp hj).resolve_left hji)

/-! ## Runs -/

/-- What a server holds is bound to its pollers, and a server that is not started
holds nothing. -/
structure Accounted (srv : TcpServer) : Prop where
  pos : 0 < srv.pollerCount
  held : srv.HeldBy fun i => i < srv.pollerCount
  released : srv.started = false → srv.Released

namespace Accounted

theorem heldNothing (h : srv.Released) : srv.HeldBy fun _ => False := by
  refine ⟨fun i hi => ?_, fun k m hm hl => ?_⟩
  · rw [h.listening i] at hi
    cases hi
  · rw [h.timers k m hm] at hl
    cases hl

/-- The fields that the other operations leave alone. -/
theorem congr (h : srv.Accounted) {srv' : TcpServer} (hcount : srv'.pollerCount = srv.pollerCount)
    (hs : srv'.started = srv.started) (hl : srv'.listening = srv.listening)
    (hb : srv'.bindings = srv.bindings)
    (ht : ∀ k m, srv'.timers k = some m → m.live = true →
      ∃ m', srv.timers k = some m' ∧ m'.live = true) : srv'.Accounted where
  pos := hcount ▸ h.pos
  held := by
    refine ⟨fun i hi => ?_, fun k m hm hlive => ?_⟩
    · rw [hl] at hi
      exact hcount ▸ h.held.listening i hi
    · obtain ⟨m', hm', hlive'⟩ := ht k m hm hlive
      obtain ⟨i, hi, hbi⟩ := h.held.bound k m' hm' hlive'
      exact ⟨i, hcount ▸ hi, hb ▸ hbi⟩
  released := by
    intro hst
    have hr := h.released (hs ▸ hst)
    refine ⟨fun i => by rw [hl]; exact hr.listening i, fun k m hm => ?_⟩
    by_contra hlive
    obtain ⟨m', hm', hlive'⟩ := ht k m hm (eq_true_of_ne_false hlive)
    rw [hr.timers k m' hm'] at hlive'
    cases hlive'

theorem stop (h : srv.Accounted) : srv.stop.Accounted := by
  simp only [TcpServer.stop]
  split
  · exact h
  · obtain ⟨hli, hti, hpc⟩ := stopPollers_spec (List.range srv.pollerCount) srv
    have hrel : { (List.range srv.pollerCount).foldl stopPoller srv with
        started := false }.Released := by
      constructor
      · intro i
        by_contra hi
        obtain ⟨hi, hn⟩ := hli i (eq_true_of_ne_false hi)
        exact hn (List.mem_range.mpr (h.held.listening i hi))
      · intro k m hm
        by_contra hlive
        obtain ⟨hm, hn⟩ := hti k m hm (eq_true_of_ne_false hlive)
        obtain ⟨i, hi, hb⟩ := h.held.bound k m hm (eq_true_of_ne_false hlive)
        exact hn i (List.mem_range.mpr hi) hb
    exact ⟨hpc.symm ▸ h.pos, (heldNothing hrel).mono fun _ => False.elim, fun _ => hrel⟩

/-- The loop over the pollers of the pool: a server that could not be started has
the listening socket at the first poller, unless this one refused it. -/
theorem startPollers_first (add : Nat → Err) (delay : Nat → DoDelay) (h : srv.Accounted)
    (hs : srv.started = false) :
    (add 0 ≠ .ok ∧ (startPollers add delay srv (List.range srv.pollerCount)).2 = srv) ∨
      add 0 = .ok ∧
        (startPollers add delay srv (List.range srv.pollerCount)).2.listening 0 = true := by
  obtain ⟨n, hn⟩ := Nat.exists_eq_succ_of_ne_zero (Nat.pos_iff_ne_zero.mp h.pos)
  rw [hn, List.range_succ_eq_map]
  obtain ⟨b, t, k, hframe⟩ := listenAttachManager_frame (srv.listenOn 0) 0 (delay 0)
  have hlisten : ((srv.listenOn 0).listenAttachManager 0 (delay 0)).2.listening 0 = true := by
    rw [hframe]
    exact Function.update_self 0 true srv.listening
  rcases startPollers_cons add delay 0 ((List.range n).map Nat.succ) hs with
    ⟨hadd, -, heq⟩ | ⟨hadd, -, heq⟩ | ⟨hadd, heq⟩
  · refine Or.inr ⟨hadd, ?_⟩
    rw [heq]
    exact (startPollers_started add delay _ _ ((congrArg started hframe).trans hs)).2.1 0 hlisten
  · refine Or.inr ⟨hadd, ?_⟩
    rw [heq]
    exact hlisten
  · exact Or.inl ⟨hadd, heq⟩

/-- A call of `ztk_tcp_server_start` leaves nothing behind exactly when nothing was
registered before it failed. -/
theorem start_iff (h : srv.Accounted) (listen : Err) (add : Nat → Err) (delay : Nat → DoDelay) :
    ((srv.start listen add delay).2.started = false → (srv.start listen add delay).2.Released) ↔
      FailsFirst srv (.start listen add delay) := by
  simp only [TcpServer.start]
  by_cases hs : srv.started = true
  · rw [if_pos hs]
    exact iff_of_true (fun hf => absurd hf (by rw [hs]; decide)) (Or.inl hs)
  · rw [if_neg hs]
    have hs : srv.started = false := eq_false_of_ne_true hs
    by_cases hlisten : listen = .ok
    · rw [if_pos hlisten]
      rcases h.startPollers_first add delay hs with ⟨hadd, heq⟩ | ⟨hadd, hfirst⟩
      · rw [heq]
        exact iff_of_true h.released (Or.inr (Or.inr (Or.inl hadd)))
      · have hst := (startPollers_started add delay (List.range srv.pollerCount) srv hs).1
        simp only [List.mem_range] at hst
        constructor
        · intro hrel
          refine Or.inr (Or.inr (Or.inr (hst.mp ?_)))
          by_contra hn
          have hno := (hrel (eq_false_of_ne_true hn)).listening 0
          rw [hfirst] at hno
          cases hno
        · rintro (hst' | hne | hne | hall)
          · rw [hs] at hst'
            cases hst'
          · exact absurd hlisten hne
          · exact absurd hadd hne
          · intro hf
            rw [hst.mpr hall] at hf
            cases hf
    · rw [if_neg hlisten]
      exact iff_of_true h.released (Or.inr (Or.inl hlisten))

theorem start (h : srv.Accounted) {listen : Err} {add : Nat → Err} {delay : Nat → DoDelay}
    (hc : FailsFirst srv (.start listen add delay)) :
    (srv.start listen add delay).2.Accounted := by
  have hrel := (h.start_iff listen add delay).mpr hc
  simp only [TcpServer.start] at hrel ⊢
  split
  · exact h
  · next hs =>
      split
      · next hlisten =>
          rw [if_neg hs, if_pos hlisten] at hrel
          have hs : srv.started = false := eq_false_of_ne_true hs
          have hcount := (startPollers_started add delay (List.range srv.pollerCount) srv hs).2.2
          have hheld := startPollers_heldBy add delay (List.range srv.pollerCount) List.nodup_range
            (fun _ _ => id) (heldNothing (h.released hs)) hs
          refine ⟨hcount.symm ▸ h.pos, hheld.mono fun j hj => ?_, hrel⟩
          rw [hcount]
          exact List.mem_range.mp (hj.resolve_left id)
      · exact h

/-- A timer that is not armed stays so. -/
theorem update (h : srv.Accounted) {t : Nat} {m : ManagerTimer} (hm : srv.timers t = some m)
    (o : Option ManagerTimer) (ho : ∀ m', o = some m' → m'.live = true → m.live = true) :
    { srv with timers := Function.update srv.timers t o }.Accounted := by
  refine h.congr rfl rfl rfl rfl fun k m' hm' hl => ?_
  by_cases hk : k = t
  · subst hk
    exact ⟨m, hm, ho m' ((Function.update_self k o srv.timers).symm.trans hm') hl⟩
  · exact ⟨m', (Function.update_of_ne hk o srv.timers).symm.trans hm', hl⟩

theorem setPhase (h : srv.Accounted) {t : Nat} {m : ManagerTimer} (hm : srv.timers t = some m)
    (hp : m.phase ≠ .lost) (phase : TimerPhase) : (srv.setPhase t m phase).Accounted := by
  refine h.update hm (some { m with phase := phase }) ?_
  rintro m' ⟨⟩ hl
  simp only [ManagerTimer.live, Bool.and_eq_true, decide_eq_true_eq] at hl ⊢
  exact ⟨hl.1, hp⟩

theorem acceptClient (h : srv.Accounted) (fd poller : Nat) (memory listed : Bool) (add : Err) :
    (srv.acceptClient fd poller memory listed add).Accounted := by
  simp only [TcpServer.acceptClient]
  split
  · exact h
  · split
    · split
      · exact h
      · exact h.congr rfl rfl rfl rfl fun k m hm hl => ⟨m, hm, hl⟩
    · exact h

variable {env : Nat → NetEnv}

theorem step {srv' : TcpServer} {a : ServerLabel} (h : srv.Accounted) (hc : FailsFirst srv a)
    (hs : serverStep env srv a = some srv') : srv'.Accounted := by
  cases a with
  | start listen add delay =>
      cases hs
      exact h.start hc
  | stop =>
      cases hs
      exact h.stop
  | accept on fd pick pool memory listed add =>
      obtain ⟨-, hs⟩ := Option.ite_none_right_eq_some.mp hs
      cases hs
      exact h.acceptClient fd _ memory listed add
  | call a =>
      obtain ⟨w, rfl⟩ := serverStep_call hs
      exact h.congr rfl rfl rfl rfl fun k m hm hl => ⟨m, hm, hl⟩
  | modEvents i ev =>
      cases hs
      exact h.congr rfl rfl rfl rfl fun k m hm hl => ⟨m, hm, hl⟩
  | insert t realloc =>
      obtain ⟨m, hm, hs⟩ := Option.bind_eq_some_iff.mp hs
      obtain ⟨hp, hs⟩ := Option.ite_none_right_eq_some.mp hs
      cases hs
      exact h.setPhase hm (by rw [hp]; decide) _
  | fire t =>
      obtain ⟨m, hm, hs⟩ := Option.bind_eq_some_iff.mp hs
      obtain ⟨hp, hs⟩ := Option.ite_none_right_eq_some.mp hs
      cases hs
      exact h.setPhase hm (by rw [hp.1]; decide) _
  | managerFlush t i =>
      obtain ⟨m, -, hs⟩ := Option.bind_eq_some_iff.mp hs
      obtain ⟨-, hs⟩ := Option.ite_none_right_eq_some.mp hs
      obtain ⟨w, -, rfl⟩ := Option.map_eq_some_iff.mp hs
      exact h.congr rfl rfl rfl rfl fun k m hm hl => ⟨m, hm, hl⟩
  | managerDone t =>
      obtain ⟨m, hm, hs⟩ := Option.bind_eq_some_iff.mp hs
      obtain ⟨hp, hs⟩ := Option.ite_none_right_eq_some.mp hs
      cases hs
      simp only [TcpServer.managerDone]
      split
      · exact h.setPhase hm (by rw [hp]; decide) _
      · exact h.update hm none fun m' hn => by cases hn
  | unlink t =>
      obtain ⟨m, hm, hs⟩ := Option.bind_eq_some_iff.mp hs
      obtain ⟨-, hs⟩ := Option.ite_none_right_eq_some.mp hs
      cases hs
      exact h.update hm none fun m' hn => by cases hn

theorem create {opts : TcpServerOpts} (h : tcpServerCreate opts = some srv) : srv.Accounted := by
  simp only [tcpServerCreate] at h
  split at h
  · cases h
  · next hn =>
      cases h
      have hrel : ∀ {srv : TcpServer}, srv.listening = (fun _ => false) →
          srv.timers = (fun _ => none) → srv.Released := fun hl ht =>
        ⟨fun i => by rw [hl], fun k m hm => by rw [ht] at hm; cases hm⟩
      exact ⟨Nat.pos_of_ne_zero hn, (heldNothing (hrel rfl rfl)).mono fun _ => False.elim,
        fun _ => hrel rfl rfl⟩

end Accounted

end TcpServer

/-- In every run of a server, and for every failure of its calls: a server that is not
started holds no registration and no armed timer after any step, exactly when every
call of `ztk_tcp_server_start` that fails does so before it has registered anything. -/
theorem server_start_all_or_nothing_iff (env : Nat → NetEnv) {opts : TcpServerOpts}
    {srv : TcpServer} (hcreate : tcpServerCreate opts = some srv) (as : List ServerLabel) :
    (serverMachine env).RunMeets (HoldsNothing env) srv as ↔
      (serverMachine env).RunMeets FailsFirst srv as := by
  refine Machine.runMeets_iff (J := TcpServer.Accounted) (fun srv a srv' h hc hs => h.step hc hs)
    (fun srv a h => ?_) as srv (TcpServer.Accounted.create hcreate)
  by_cases hc : FailsFirst srv a
  · exact iff_of_true (fun srv' hs => (h.step hc hs).released) hc
  · refine iff_of_false (fun hn => hc ?_) hc
    cases a with
    | start listen add delay => exact (h.start_iff listen add delay).mp (hn _ rfl)
    | stop | accept | call | modEvents | insert | fire | managerFlush | managerDone | unlink =>
        exact trivial

/-- Two pollers, and the default interval of the manager. -/
def twoPollerOpts : TcpServerOpts := ⟨2, true, false, .zero, 0⟩

/-- The first poller refuses the listening socket; then the server is started and
stopped. -/
theorem server_start_all_or_nothing_two :
    ∃ srv, tcpServerCreate twoPollerOpts = some srv ∧
      (serverMachine fun _ => fillDrain).RunMeets (HoldsNothing fun _ => fillDrain) srv
        [.start .ok (fun _ => .platform) (fun _ => .posted),
          .start .ok (fun _ => .ok) (fun _ => .posted), .stop] := by
  have hiff := server_start_all_or_nothing_iff (fun _ => fillDrain)
    (show tcpServerCreate twoPollerOpts = some _ from rfl)
  exact ⟨_, rfl, (hiff _).mpr (by decide)⟩

/-- The second poller refuses the listening socket, and the first one keeps it. -/
theorem server_start_leaves_registration :
    ∃ srv, tcpServerCreate twoPollerOpts = some srv ∧
      ¬ (serverMachine fun _ => fillDrain).RunMeets (HoldsNothing fun _ => fillDrain) srv
        [.start .ok (fun i => if i = 1 then .platform else .ok) (fun _ => .posted)] := by
  refine ⟨_, rfl, fun h => ?_⟩
  have hl := (h.1 _ rfl rfl).listening 0
  cases hl

end Ztk.Net
