import Ztk.Net.SessionOutput
import Ztk.Net.TcpServer

/-!
# Who sends what is queued

When the socket of a session is full, the rest of its output stays in the queue.
Sessions install no writable handler and the mask of their sockets has no
`ZTK_POLL_OUT`, so the manager timer of their poller is all that flushes them.
The timer exists when the server has an `on_manager` callback and its interval
is positive, and it stays when the interval is at least a millisecond, since a
callback that returns 0 is not called again.

`Bound` says that a poller has such a timer.  A server with a manager keeps it
for every poller of its pool from the end of `ztk_tcp_server_start` on.
-/

namespace Ztk.Net

open Ztk.Lib

/-! ## Statement -/

namespace TcpServer

/-- The last result of the session's socket. -/
def lastSend (s : Session) : Option Int := s.calls.getLast?.map SendCall.result

/-- A live session with output in its queue because its socket is full. -/
def Waiting (srv : TcpServer) (i : Nat) : Prop :=
  ∃ s, srv.world.session i = some s ∧ s.closing = false ∧ s.out.nodes ≠ [] ∧
    lastSend s = some Err.again.code

/-- The socket reports when it can be written, and the handler flushes. -/
def Conn.Flushing (c : Conn) : Prop :=
  c.sock.attached = true ∧ c.sock.pollEvents.pollOut = true ∧
    ∃ f, c.cb.onWritable = some f ∧ f.flushes = true

/-- Something will flush the session: its socket, or a timer on its poller that is
armed or about to be inserted. -/
def Driver (srv : TcpServer) (i : Nat) : Prop :=
  Conn.Flushing (srv.conns i) ∨
    ∃ t m, srv.timers t = some m ∧ m.poller = (srv.conns i).poller ∧ m.cancelled = false ∧
      (m.phase = .posted ∨ m.phase = .armed)

/-- No round of the manager is running. -/
def Quiet (srv : TcpServer) : Prop := ∀ t m, srv.timers t = some m → m.phase ≠ .firing

end TcpServer

/-- `on_manager` is set, and the interval is 0 or at least a millisecond. -/
def Managed (opts : TcpServerOpts) : Prop :=
  opts.onManager = true ∧
    (opts.managerIntervalSec = .zero ∨ ∃ ms, 0 < ms ∧ opts.managerIntervalSec = .pos ms)

/-- Timers get into the heap, and `pick_poller` returns pollers of the pool. -/
def DriverContract (srv : TcpServer) : ServerLabel → Prop
  | .start _ _ delay => ∀ i, delay i ≠ .inserted false
  | .accept _ _ pick _ _ _ _ => ∀ p, pick = some p → p < srv.pollerCount
  | .insert _ realloc => realloc = true
  | _ => True

/-! ## Servers with a manager -/

namespace TcpServer

/-- A server of `n` pollers with a manager, and sessions on its own pollers only. -/
structure Base (n : Nat) (srv : TcpServer) : Prop where
  size : srv.pollerCount = n
  manager : srv.onManager = true
  interval : ∃ ms, 0 < ms ∧ srv.managerIntervalSec = .pos ms
  conns : ∀ i, (srv.conns i).poller < n
  fresh : ∀ t, srv.nextTimer ≤ t → srv.timers t = none

/-- The manager timer of a poller is on its way to the heap, there, or in its
callback. -/
def Bound (srv : TcpServer) (p : Nat) : Prop :=
  ∃ t m, srv.bindings p = some t ∧ srv.timers t = some m ∧ m.poller = p ∧ m.cancelled = false ∧
    m.phase ≠ .lost

variable {n : Nat} {srv : TcpServer}

/-- A timer keeps what `Bound` asks of it. -/
theorem Bound.update {p : Nat} (h : srv.Bound p) (t : Nat) {o : Option ManagerTimer}
    (ho : ∀ m, srv.timers t = some m → m.cancelled = false → m.phase ≠ .lost →
      ∃ m', o = some m' ∧ m'.poller = m.poller ∧ m'.cancelled = false ∧ m'.phase ≠ .lost) :
    Bound { srv with timers := Function.update srv.timers t o } p := by
  obtain ⟨u, m, hb, hm, hp, hc, hl⟩ := h
  by_cases hut : u = t
  · subst hut
    obtain ⟨m', rfl, hp', hc', hl'⟩ := ho m hm hc hl
    exact ⟨u, m', hb, Function.update_self .., hp'.trans hp, hc', hl'⟩
  · refine ⟨u, m, hb, ?_, hp, hc, hl⟩
    show Function.update srv.timers t o u = some m
    rw [Function.update_of_ne hut, hm]

/-- A timer that exists is not the next one. -/
theorem Base.update (h : srv.Base n) {t : Nat} {m : ManagerTimer} (hm : srv.timers t = some m)
    (o : Option ManagerTimer) : Base n { srv with timers := Function.update srv.timers t o } :=
  { h with
    fresh := fun u hu => by
      have hut : u ≠ t := by
        rintro rfl
        rw [h.fresh u hu] at hm
        cases hm
      show Function.update srv.timers t o u = none
      rw [Function.update_of_ne hut]
      exact h.fresh u hu }

theorem delayPhase_lost {delay : DoDelay} (h : delayPhase delay = some .lost) :
    delay = .inserted false := by
  cases delay with
  | null => cases h
  | posted => cases h
  | inserted realloc =>
      cases realloc with
      | true => cases h
      | false => rfl

/-- `listen_attach_manager` binds a timer or fails. -/
theorem Base.attachManager (h : srv.Base n) (i : Nat) {delay : DoDelay}
    (hd : delay ≠ .inserted false) {err : Err} {srv' : TcpServer}
    (heq : srv.listenAttachManager i delay = (err, srv')) :
    srv'.Base n ∧ srv'.started = srv.started ∧ (err = .ok → srv'.Bound i) ∧
      ∀ p, p ≠ i → srv.Bound p → srv'.Bound p := by
  obtain ⟨ms, -, hms⟩ := h.interval
  simp only [listenAttachManager] at heq
  split at heq
  · next hneg => rw [hms] at hneg; cases hneg
  · next hzero => rw [hms] at hzero; cases hzero
  · rw [if_neg (by simp [h.manager])] at heq
    split at heq
    · cases heq
      refine ⟨{ h with }, rfl, fun he => Err.noConfusion he, ?_⟩
      rintro p hp ⟨t, m, hb, hm⟩
      exact ⟨t, m, (Function.update_of_ne hp ..).trans hb, hm⟩
    · next phase hphase =>
        cases heq
        have hlost : phase ≠ .lost := by
          rintro rfl
          exact hd (delayPhase_lost hphase)
        refine ⟨{ h with fresh := fun t ht => ?_ }, rfl, fun _ => ?_, ?_⟩
        · have ht : srv.nextTimer < t := ht
          show Function.update srv.timers srv.nextTimer _ t = none
          rw [Function.update_of_ne ht.ne']
          exact h.fresh t ht.le
        · exact ⟨srv.nextTimer, _, Function.update_self .., Function.update_self .., rfl, rfl, hlost⟩
        · rintro p hp ⟨t, m, hb, hm, hrest⟩
          have ht : t ≠ srv.nextTimer := by
            rintro rfl
            rw [h.fresh _ (Nat.le_refl _)] at hm
            cases hm
          exact ⟨t, m, (Function.update_of_ne hp ..).trans hb,
            (Function.update_of_ne ht ..).trans hm, hrest⟩

theorem stop_of_stopped (hs : srv.started = false) : srv.stop = srv := by
  rw [stop, hs]
  rfl

/-- The loop of `ztk_tcp_server_start` binds a timer for every poller or fails. -/
theorem Base.startPollers (add : Nat → Err) {delay : Nat → DoDelay}
    (hd : ∀ i, delay i ≠ .inserted false) (l : List Nat) (h : srv.Base n)
    (hs : srv.started = false) :
    (startPollers add delay srv l).2.Base n ∧ ((startPollers add delay srv l).2.started = true →
      ∀ p, p ∈ l ∨ srv.Bound p → (startPollers add delay srv l).2.Bound p) := by
  induction l generalizing srv with
  | nil =>
      refine ⟨{ h with }, fun _ p hp => ?_⟩
      rcases hp with hp | hp
      · exact absurd hp List.not_mem_nil
      · exact hp
  | cons i is ih =>
      rw [TcpServer.startPollers]
      split
      · have hlisten : Base n { srv with listening := Function.update srv.listening i true } :=
          { h with }
        split
        · next srv' heq =>
            obtain ⟨hbase, hst, hbound, hkeep⟩ := hlisten.attachManager i (hd i) heq
            obtain ⟨hbase', hall⟩ := ih hbase (hst.trans hs)
            refine ⟨hbase', fun hok p hp => hall hok p ?_⟩
            by_cases hpi : p = i
            · exact Or.inr (hpi ▸ hbound rfl)
            · rcases hp with hp | hp
              · exact Or.inl ((List.mem_cons.mp hp).resolve_left hpi)
              · exact Or.inr (hkeep p hpi hp)
        · next err srv' _ heq =>
            -- the server is not started yet, so `ztk_tcp_server_stop` does nothing
            obtain ⟨hbase, hst, -⟩ := hlisten.attachManager i (hd i) heq
            rw [stop_of_stopped (hst.trans hs)]
            refine ⟨hbase, fun hok => ?_⟩
            rw [hst.trans hs] at hok
            cases hok
      · rw [stop_of_stopped hs]
        refine ⟨h, fun hok => ?_⟩
        rw [hs] at hok
        cases hok

/-- `ztk_tcp_server_stop` cancels timers and makes none. -/
theorem stopPollers_eq (srv : TcpServer) (l : List Nat) :
    ∃ listening bindings timers, l.foldl stopPoller srv =
        { srv with listening := listening, bindings := bindings, timers := timers } ∧
      ∀ t, srv.timers t = none → timers t = none := by
  induction l generalizing srv with
  | nil => exact ⟨_, _, _, rfl, fun _ => id⟩
  | cons i is ih =>
      have hone : ∃ listening bindings timers, srv.stopPoller i =
          { srv with listening := listening, bindings := bindings, timers := timers } ∧
          ∀ t, srv.timers t = none → timers t = none := by
        simp only [stopPoller]
        split
        · exact ⟨_, _, _, rfl, fun _ => id⟩
        · next u hu =>
            refine ⟨_, _, _, rfl, fun t ht => ?_⟩
            by_cases htu : t = u
            · subst htu
              show Function.update srv.timers t _ t = none
              rw [Function.update_self, ht]
              rfl
            · show Function.update srv.timers u _ t = none
              rw [Function.update_of_ne htu, ht]
      obtain ⟨listening, bindings, timers, heq, hnone⟩ := hone
      obtain ⟨listening', bindings', timers', heq', hnone'⟩ := ih (srv.stopPoller i)
      refine ⟨listening', bindings', timers', ?_, fun t ht => hnone' t ?_⟩
      · rw [List.foldl_cons, heq', heq]
      · rw [heq]
        exact hnone t ht

/-- A call on a session concerns the sessions only. -/
theorem serverStep_call {env : Nat → NetEnv} {srv' : TcpServer} {a : WorldLabel}
    (h : serverStep env srv (.call a) = some srv') : ∃ w, srv' = { srv with world := w } := by
  cases a with
  | accept => cases h
  | _ =>
      obtain ⟨w, -, rfl⟩ := Option.map_eq_some_iff.mp h
      exact ⟨w, rfl⟩

/-- What a server with a manager keeps: while it is started, every poller of the
pool has its timer. -/
structure Driven (n : Nat) (srv : TcpServer) : Prop extends Base n srv where
  bound : srv.started = true → ∀ p, p < n → srv.Bound p

namespace Driven

theorem start (h : srv.Driven n) (listen : Err) (add : Nat → Err) {delay : Nat → DoDelay}
    (hd : ∀ i, delay i ≠ .inserted false) : (srv.start listen add delay).2.Driven n := by
  simp only [TcpServer.start]
  split
  · exact h
  · next hs =>
      split
      · obtain ⟨hbase, hall⟩ := Base.startPollers add hd (List.range srv.pollerCount) h.toBase
          (Bool.not_eq_true _ ▸ hs)
        refine ⟨hbase, fun hok p hp => hall hok p (Or.inl ?_)⟩
        rw [List.mem_range, h.size]
        exact hp
      · exact h

theorem stop (h : srv.Driven n) : srv.stop.Driven n := by
  cases hs : srv.started with
  | false =>
      rw [stop_of_stopped hs]
      exact h
  | true =>
      obtain ⟨listening, bindings, timers, heq, hnone⟩ :=
        stopPollers_eq srv (List.range srv.pollerCount)
      have hstop : srv.stop = { srv with
          listening := listening, bindings := bindings, timers := timers, started := false } := by
        rw [TcpServer.stop, hs, heq]
        rfl
      rw [hstop]
      exact
        { h with
          fresh := fun t ht => hnone t (h.fresh t ht)
          bound := fun hok => Bool.noConfusion hok }

theorem acceptClient (h : srv.Driven n) (fd : Nat) {poller : Nat} (hp : poller < n)
    (memory listed : Bool) (add : Err) :
    (srv.acceptClient fd poller memory listed add).Driven n := by
  simp only [TcpServer.acceptClient]
  split
  · exact h
  · split
    · next conn heq =>
        split
        · exact h
        · refine { h with conns := ?_ }
          have hconn : conn.poller = poller := by
            simp only [sessionAttach] at heq
            rw [← (Prod.mk.inj heq).2]
          exact (Function.forall_update_iff srv.conns fun _ c => c.poller < n).mpr
            ⟨hconn ▸ hp, fun j _ => h.conns j⟩
    · exact h

theorem choosePoller (h : srv.Driven n) {on : Nat} {pick pool : Option Nat}
    (hon : on < srv.pollerCount) (hpool : ∀ p, pool = some p → p < srv.pollerCount)
    (hpick : ∀ p, pick = some p → p < srv.pollerCount) : srv.choosePoller on pick pool < n := by
  rw [← h.size]
  have hget : ∀ o : Option Nat, (∀ p, o = some p → p < srv.pollerCount) →
      o.getD on < srv.pollerCount := by
    intro o ho
    cases o with
    | none => exact hon
    | some p => exact ho p rfl
  simp only [TcpServer.choosePoller]
  split
  · exact hget pick hpick
  · exact hget pool hpool

theorem modEvents (h : srv.Driven n) (i : Nat) (ev : PollEvents) : (srv.modEvents i ev).Driven n := by
  refine { h with conns := ?_ }
  exact (Function.forall_update_iff srv.conns fun _ c => c.poller < n).mpr
    ⟨h.conns i, fun j _ => h.conns j⟩

/-- A timer that is not cancelled stays on its poller and does not get lost. -/
theorem update (h : srv.Driven n) {t : Nat} {m : ManagerTimer} (hm : srv.timers t = some m)
    {o : Option ManagerTimer} (ho : m.cancelled = false → m.phase ≠ .lost →
      ∃ m', o = some m' ∧ m'.poller = m.poller ∧ m'.cancelled = false ∧ m'.phase ≠ .lost) :
    Driven n { srv with timers := Function.update srv.timers t o } where
  toBase := h.toBase.update hm o
  bound := fun hs p hp => (h.bound hs p hp).update t fun m' hm' => by
    rw [hm, Option.some.injEq] at hm'
    exact hm' ▸ ho

theorem setPhase (h : srv.Driven n) {t : Nat} {m : ManagerTimer} (hm : srv.timers t = some m)
    {phase : TimerPhase} (hphase : phase ≠ .lost) : (srv.setPhase t m phase).Driven n :=
  h.update hm fun hc _ => ⟨_, rfl, rfl, hc, hphase⟩

/-- The callback returns a positive delay. -/
theorem managerDone (h : srv.Driven n) {t : Nat} {m : ManagerTimer} (hm : srv.timers t = some m) :
    (srv.managerDone t m).Driven n := by
  obtain ⟨ms, hpos, hms⟩ := h.interval
  have hcb : srv.managerTimerCb = ms := by rw [managerTimerCb, hms]
  simp only [TcpServer.managerDone]
  rw [hcb]
  split
  · exact h.setPhase hm (by decide)
  · next hn =>
      refine h.update hm fun hc => absurd ⟨hpos, ?_⟩ hn
      rw [hc]
      rfl

variable {env : Nat → NetEnv}

theorem step {srv' : TcpServer} {a : ServerLabel} (h : srv.Driven n) (hc : DriverContract srv a)
    (hs : serverStep env srv a = some srv') : srv'.Driven n := by
  cases a with
  | start listen add delay =>
      cases hs
      exact h.start listen add hc
  | stop =>
      cases hs
      exact h.stop
  | accept on fd pick pool memory listed add =>
      obtain ⟨⟨hon, -, hpool⟩, hs⟩ := Option.ite_none_right_eq_some.mp hs
      cases hs
      exact h.acceptClient fd (h.choosePoller hon hpool hc) memory listed add
  | call a =>
      obtain ⟨w, rfl⟩ := serverStep_call hs
      exact { h with }
  | modEvents i ev =>
      cases hs
      exact h.modEvents i ev
  | insert t realloc =>
      obtain ⟨m, hm, hs⟩ := Option.bind_eq_some_iff.mp hs
      obtain ⟨-, hs⟩ := Option.ite_none_right_eq_some.mp hs
      cases hs
      refine h.setPhase hm ?_
      have hr : realloc = true := hc
      rw [hr]
      decide
  | fire t =>
      obtain ⟨m, hm, hs⟩ := Option.bind_eq_some_iff.mp hs
      obtain ⟨-, hs⟩ := Option.ite_none_right_eq_some.mp hs
      cases hs
      exact h.setPhase hm (by decide)
  | managerFlush t i =>
      obtain ⟨m, -, hs⟩ := Option.bind_eq_some_iff.mp hs
      obtain ⟨-, hs⟩ := Option.ite_none_right_eq_some.mp hs
      obtain ⟨w, -, rfl⟩ := Option.map_eq_some_iff.mp hs
      exact { h with }
  | managerDone t =>
      obtain ⟨m, hm, hs⟩ := Option.bind_eq_some_iff.mp hs
      obtain ⟨-, hs⟩ := Option.ite_none_right_eq_some.mp hs
      cases hs
      exact h.managerDone hm
  | unlink t =>
      obtain ⟨m, hm, hs⟩ := Option.bind_eq_some_iff.mp hs
      obtain ⟨⟨hcanc, -⟩, hs⟩ := Option.ite_none_right_eq_some.mp hs
      cases hs
      refine h.update hm fun hn => ?_
      rw [hcanc] at hn
      cases hn

theorem create {opts : TcpServerOpts} (h : tcpServerCreate opts = some srv) (hm : Managed opts) :
    srv.Driven opts.pollerCount := by
  obtain ⟨hman, hint⟩ := hm
  obtain ⟨hn, h⟩ := Option.ite_none_left_eq_some.mp h
  cases h
  refine ⟨⟨rfl, hman, ?_, fun _ => Nat.pos_of_ne_zero hn, fun _ _ => rfl⟩, fun hs => by cases hs⟩
  rcases hint with hz | ⟨ms, hpos, hp⟩
  · refine ⟨2000, by decide, ?_⟩
    simp only [hz, hman, if_true]
  · refine ⟨ms, hpos, ?_⟩
    simp only [hp]

theorem of_leads {opts : TcpServerOpts} {srv₀ : TcpServer}
    (hcreate : tcpServerCreate opts = some srv₀) (hm : Managed opts)
    (h : (serverMachine env).Leads DriverContract srv₀ srv) : srv.Driven opts.pollerCount :=
  h.invariant (fun _ _ _ hi hc hs => hi.step hc hs) (create hcreate hm)

/-- Between rounds the timer of the session's poller is its driver. -/
theorem driver (h : srv.Driven n) (hs : srv.started = true) (hq : srv.Quiet) (i : Nat) :
    srv.Driver i := by
  obtain ⟨t, m, -, hm, hp, hc, hl⟩ := h.bound hs _ (h.conns i)
  refine Or.inr ⟨t, m, hm, hp, hc, ?_⟩
  cases hphase : m.phase with
  | posted => exact Or.inl rfl
  | armed => exact Or.inr rfl
  | firing => exact absurd hphase (hq t m hm)
  | lost => exact absurd hphase hl

end Driven

/-! ## Servers without a manager -/

/-- A server that makes no timer, and sessions without a writable handler. -/
structure Undriven (srv : TcpServer) : Prop where
  off : srv.onManager = false ∨ ∀ ms, srv.managerIntervalSec ≠ .pos ms
  timers : ∀ t, srv.timers t = none
  handler : ∀ i, (srv.conns i).cb.onWritable = none

namespace Undriven

theorem attachManager (h : srv.Undriven) (i : Nat) (delay : DoDelay) :
    srv.listenAttachManager i delay = (.ok, srv) := by
  simp only [listenAttachManager]
  split
  · rfl
  · rfl
  · next ms hms =>
      rcases h.off with ho | ho
      · rw [if_pos (by rw [ho]; rfl)]
      · exact absurd hms (ho ms)

theorem stop (h : srv.Undriven) : srv.stop.Undriven := by
  simp only [TcpServer.stop]
  split
  · exact h
  · obtain ⟨listening, bindings, timers, heq, hnone⟩ :=
      stopPollers_eq srv (List.range srv.pollerCount)
    rw [heq]
    exact { h with timers := fun t => hnone t (h.timers t) }

theorem startPollers (h : srv.Undriven) (add : Nat → Err) (delay : Nat → DoDelay) (l : List Nat) :
    (startPollers add delay srv l).2.Undriven := by
  induction l generalizing srv with
  | nil => exact { h with }
  | cons i is ih =>
      have hl : Undriven { srv with listening := Function.update srv.listening i true } :=
        { h with }
      rw [TcpServer.startPollers]
      split
      · rw [hl.attachManager]
        exact ih hl
      · exact h.stop

theorem start (h : srv.Undriven) (listen : Err) (add : Nat → Err) (delay : Nat → DoDelay) :
    (srv.start listen add delay).2.Undriven := by
  simp only [TcpServer.start]
  split
  · exact h
  · split
    · exact h.startPollers add delay _
    · exact h

theorem acceptClient (h : srv.Undriven) (fd poller : Nat) (memory listed : Bool) (add : Err) :
    (srv.acceptClient fd poller memory listed add).Undriven := by
  simp only [TcpServer.acceptClient]
  split
  · exact h
  · split
    · next conn heq =>
        split
        · exact h
        · refine { h with handler := ?_ }
          have hconn : conn.cb.onWritable = none := by
            simp only [sessionAttach] at heq
            rw [← (Prod.mk.inj heq).2]
          exact (Function.forall_update_iff srv.conns fun _ c => c.cb.onWritable = none).mpr
            ⟨hconn, fun j _ => h.handler j⟩
    · exact h

theorem modEvents (h : srv.Undriven) (i : Nat) (ev : PollEvents) :
    (srv.modEvents i ev).Undriven := by
  refine { h with handler := ?_ }
  exact (Function.forall_update_iff srv.conns fun _ c => c.cb.onWritable = none).mpr
    ⟨h.handler i, fun j _ => h.handler j⟩

variable {env : Nat → NetEnv}

theorem step {srv' : TcpServer} {a : ServerLabel} (h : srv.Undriven)
    (hs : serverStep env srv a = some srv') : srv'.Undriven := by
  -- the steps of a timer need one
  have htimer : ∀ (t : Nat) (f : ManagerTimer → Option TcpServer),
      (srv.timers t).bind f = some srv' → srv'.Undriven := by
    intro t f hf
    rw [h.timers t] at hf
    cases hf
  cases a with
  | start listen add delay =>
      cases hs
      exact h.start listen add delay
  | stop =>
      cases hs
      exact h.stop
  | accept on fd pick pool memory listed add =>
      obtain ⟨-, hs⟩ := Option.ite_none_right_eq_some.mp hs
      cases hs
      exact h.acceptClient fd _ memory listed add
  | call a =>
      obtain ⟨w, rfl⟩ := serverStep_call hs
      exact { h with }
  | modEvents i ev =>
      cases hs
      exact h.modEvents i ev
  | insert t realloc => exact htimer t _ hs
  | fire t => exact htimer t _ hs
  | managerFlush t i => exact htimer t _ hs
  | managerDone t => exact htimer t _ hs
  | unlink t => exact htimer t _ hs

/-- No session of such a server is ever driven. -/
theorem not_driver (h : srv.Undriven) (i : Nat) : ¬ srv.Driver i := by
  rintro (⟨-, -, f, hf, -⟩ | ⟨t, m, hm, -⟩)
  · rw [h.handler i] at hf
    cases hf
  · rw [h.timers t] at hm
    cases hm

end Undriven

end TcpServer

/-! ## The driver -/

variable {env : Nat → NetEnv} {opts : TcpServerOpts} {srv₀ srv : TcpServer}

/-- A started server with a manager has a driver for every session that waits for
its socket. -/
theorem manager_drives_waiting (hcreate : tcpServerCreate opts = some srv₀) (hm : Managed opts)
    (h : (serverMachine env).Leads DriverContract srv₀ srv) (hs : srv.started = true)
    (hq : srv.Quiet) : ∀ i, srv.Waiting i → srv.Driver i := by
  intro i _
  exact (TcpServer.Driven.of_leads hcreate hm h).driver hs hq i

/-- Options with a manager callback and the default interval, and one poller. -/
def managedOpts : TcpServerOpts := ⟨1, true, false, .zero, 0⟩

/-- The server starts, accepts a connection, and a send finds the socket full. -/
def fullSocketRun : List ServerLabel :=
  [.start .ok (fun _ => .ok) fun _ => .posted, .accept 0 7 none none true true .ok,
    .call (.send 0 (some [1]))]

/-- What can be seen of a server: the number of timers and the first of them, and
of its first session the flag `closing`, the length of the queue and the last
result of the socket. -/
structure ServerView where
  started : Bool
  nextTimer : Nat
  phase : Option TimerPhase
  session : Option (Bool × Nat × Option Int)
deriving DecidableEq

def TcpServer.view (srv : TcpServer) : ServerView where
  started := srv.started
  nextTimer := srv.nextTimer
  phase := (srv.timers 0).map ManagerTimer.phase
  session := (srv.world.session 0).map fun s => (s.closing, s.out.nodes.length, lastSend s)

theorem fullSocket_waiting (opts : TcpServerOpts) (nextTimer : Nat) (phase : Option TimerPhase)
    (hrun : ((tcpServerCreate opts).bind fun srv =>
        (serverMachine fun _ => fillDrain).run srv fullSocketRun).map TcpServer.view =
      some ⟨true, nextTimer, phase, some (false, 1, some (-5))⟩) :
    ∃ srv₀ srv, tcpServerCreate opts = some srv₀ ∧
      (serverMachine fun _ => fillDrain).run srv₀ fullSocketRun = some srv ∧ srv.started = true ∧
      srv.nextTimer = nextTimer ∧ (srv.timers 0).map ManagerTimer.phase = phase ∧
      srv.Waiting 0 := by
  obtain ⟨srv, hbind, hview⟩ := Option.map_eq_some_iff.mp hrun
  obtain ⟨srv₀, hcreate, hr⟩ := Option.bind_eq_some_iff.mp hbind
  obtain ⟨hstarted, hnext, hphase, hses⟩ := ServerView.mk.inj hview
  obtain ⟨s, hs, hvals⟩ := Option.map_eq_some_iff.mp hses
  simp only [Prod.mk.injEq] at hvals
  obtain ⟨hclosing, hlen, hlast⟩ := hvals
  refine ⟨srv₀, srv, hcreate, hr, hstarted, hnext, hphase, s, hs, hclosing, fun hnil => ?_, hlast⟩
  rw [hnil] at hlen
  cases hlen

/-- With a manager the session that waits has a driver. -/
theorem manager_drives_full_socket :
    ∃ srv₀ srv, tcpServerCreate managedOpts = some srv₀ ∧
      (serverMachine fun _ => fillDrain).Leads DriverContract srv₀ srv ∧ srv.started = true ∧
      srv.Waiting 0 ∧ srv.Driver 0 := by
  obtain ⟨srv₀, srv, hcreate, hr, hstarted, hnext, hphase, hw⟩ :=
    fullSocket_waiting managedOpts 1 (some .posted) (by decide +kernel)
  have hm : Managed managedOpts := ⟨rfl, Or.inl rfl⟩
  have hl : (serverMachine fun _ => fillDrain).Leads DriverContract srv₀ srv := by
    refine Machine.leads_of_run fullSocketRun srv₀ srv hr ⟨fun _ => DoDelay.noConfusion, ?_⟩
    exact fun _ _ => ⟨fun p hp => (by cases hp), fun _ _ => ⟨trivial, fun _ _ => trivial⟩⟩
  have hd := TcpServer.Driven.of_leads hcreate hm hl
  have hq : srv.Quiet := by
    intro t m hm hf
    have ht : t = 0 := by
      by_contra hne
      rw [hd.fresh t (by omega)] at hm
      cases hm
    rw [← ht, hm, Option.map_some, hf] at hphase
    cases hphase
  exact ⟨srv₀, srv, hcreate, hl, hstarted, hw, manager_drives_waiting hcreate hm hl hstarted hq 0 hw⟩

/-- Zeroed options with one poller. -/
def plainOpts : TcpServerOpts := ⟨1, false, false, .zero, 0⟩

/-- Without a manager the session waits and nothing will flush it. -/
theorem waiting_without_driver :
    ∃ srv₀ srv, tcpServerCreate plainOpts = some srv₀ ∧
      (serverMachine fun _ => fillDrain).Leads Machine.Any srv₀ srv ∧ srv.started = true ∧
      srv.Quiet ∧ srv.Waiting 0 ∧ ¬ srv.Driver 0 := by
  obtain ⟨srv₀, srv, hcreate, hr, hstarted, -, -, hw⟩ :=
    fullSocket_waiting plainOpts 0 none (by decide +kernel)
  have hl := Machine.leads_of_run (C := Machine.Any) fullSocketRun srv₀ srv hr
    (Machine.runMeets_any _ _)
  have h₀ : srv₀.Undriven := by
    cases hcreate
    exact ⟨Or.inl rfl, fun _ => rfl, fun _ => rfl⟩
  have hu : srv.Undriven := hl.invariant (fun _ _ _ hi _ hst => hi.step hst) h₀
  refine ⟨srv₀, srv, hcreate, hl, hstarted, fun t m hm => ?_, hw, hu.not_driver 0⟩
  rw [hu.timers t] at hm
  cases hm

end Ztk.Net
