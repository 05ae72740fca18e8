import Ztk.Net.SessionSend

/-!
# Runs of a session

Calls on one session in any order, between operations of the application on its
buffers.  A run keeps the references the application holds, which include those
of other sessions, and the result and the payload of every call.  The
application uses a buffer only while it has a reference to it.
-/

namespace Ztk.Net

open Ztk.Lib Ztk.Util

/-! ## The machine -/

/-- A session, the references of the application, and the calls so far. -/
structure SessionRun where
  ses : Session
  app : Nat → Nat
  sends : List (Err × List UInt8)

/-- The payloads of the calls that returned `ZTK_OK`, in call order. -/
def SessionRun.payloads (r : SessionRun) : List UInt8 :=
  (r.sends.filter fun c => c.1 = .ok).flatMap fun c => c.2

inductive SessionLabel where
  | send (data : Option (List UInt8))
  | sendv (parts : Option (List (Option (List UInt8))))
  | sendBuf (buf : Option Nat)
  | flush
  | bufAlloc (cap : Nat) (mem : Option (List UInt8))
  | bufRef (b : Nat)
  | bufUnref (b : Nat)
  | memcpy (b : Nat) (data : List UInt8)
  | bufSetLen (b len : Nat)

/-- A call has returned. -/
def SessionRun.called (r : SessionRun) (res : Err × Session) (payload : List UInt8) :
    SessionRun :=
  { r with ses := res.2, sends := r.sends ++ [(res.1, payload)] }

/-- An operation on the buffers, outside the session. -/
def SessionRun.onBufs (r : SessionRun) (h : BufHeap) (app : Nat → Nat) : SessionRun :=
  { r with ses := { r.ses with bufs := h }, app := app }

/-- One reference from outside less. -/
def unbump (held : Nat → Nat) (b : Nat) : Nat → Nat := fun c => if c = b then held c - 1 else held c

variable (env : NetEnv)

def sessionStep (r : SessionRun) : SessionLabel → Option SessionRun
  | .send data => some (r.called (tcpSessionSend env r.ses data) (data.getD []))
  | .sendv parts =>
      some (r.called (tcpSessionSendv env r.ses parts)
        ((parts.getD []).map fun p => p.getD []).flatten)
  | .sendBuf none => some (r.called (tcpSessionSendBuf env r.ses none) [])
  | .sendBuf (some b) =>
      if 0 < r.app b then
        some (r.called (tcpSessionSendBuf env r.ses (some b))
          ((r.ses.bufs.bufData b).take (r.ses.bufs.bufLen b)))
      else none
  | .flush => some { r with ses := tcpSessionFlush env r.ses }
  | .bufAlloc cap mem =>
      match r.ses.bufs.bufAlloc cap mem with
      | (none, h) => some (r.onBufs h r.app)
      | (some b, h) => some (r.onBufs h (bump r.app b))
  | .bufRef b =>
      if 0 < r.app b then some (r.onBufs (r.ses.bufs.bufRef b) (bump r.app b)) else none
  | .bufUnref b =>
      if 0 < r.app b then some (r.onBufs (r.ses.bufs.bufUnref b) (unbump r.app b)) else none
  | .memcpy b data =>
      if 0 < r.app b ∧ data.length ≤ (r.ses.bufs.bufData b).length then
        some (r.onBufs (r.ses.bufs.memcpy b data) r.app)
      else none
  | .bufSetLen b len =>
      if 0 < r.app b then some (r.onBufs (r.ses.bufs.bufSetLen b len) r.app) else none

def sessionMachine : Machine SessionRun SessionLabel := ⟨sessionStep env⟩

/-- At most 16 parts, and no write to a buffer that is queued. -/
def SendContract (r : SessionRun) : SessionLabel → Prop
  | .sendv (some parts) => parts.length ≤ iovMax
  | .memcpy b _ => refs r.ses.out.nodes b = 0
  | _ => True

instance (r : SessionRun) (a : SessionLabel) : Decidable (SendContract r a) :=
  match a with
  | .sendv (some parts) => inferInstanceAs (Decidable (parts.length ≤ iovMax))
  | .memcpy b _ => inferInstanceAs (Decidable (refs r.ses.out.nodes b = 0))
  | .sendv none | .send _ | .sendBuf _ | .flush | .bufAlloc _ _ | .bufRef _ | .bufUnref _
  | .bufSetLen _ _ => isTrue trivial

/-- A session on a socket, with nothing queued and no buffer allocated. -/
def SessionRun.start (sock : Option Int) (highwater : Nat) : SessionRun where
  ses :=
    { closing := false, out := .empty, outPending := 0, outHighwaterHit := false
      highwaterBytes := highwater, notified := [], events := [], sock := sock, calls := [], chunks := 0
      allocs := 0, bufs := ⟨fun _ => none, 0⟩ }
  app := fun _ => 0
  sends := []

/-! ## The invariant of a run -/

/-- The stream of the session is what its calls accepted. -/
structure Faithful (r : SessionRun) : Prop where
  inv : OutInv r.app r.ses
  stream : r.ses.stream = r.payloads

theorem bump_unbump {held : Nat → Nat} {b : Nat} (h : 0 < held b) : bump (unbump held b) b = held := by
  funext c
  by_cases hcb : c = b
  · subst hcb
    rw [bump_self, unbump, if_pos rfl]
    omega
  · rw [bump_of_ne _ hcb, unbump, if_neg hcb]

theorem Faithful.start (sock : Option Int) (highwater : Nat) :
    Faithful (.start sock highwater) where
  inv :=
    { wf := Chain.wf_empty
      below := nofun
      chunks := nofun
      counted := ⟨nofun, nofun, fun _ _ => rfl⟩
      pending := rfl
      metered := rfl }
  stream := rfl

/-- A call that is accepted extends both sides by its payload. -/
theorem Faithful.called {r : SessionRun} (h : Faithful r) {res : Err × Session}
    {payload : List UInt8} (hs : Sent r.app r.ses res payload) :
    Faithful (r.called res payload) where
  inv := hs.inv
  stream := by
    show res.2.stream = ((r.sends ++ [(res.1, payload)]).filter _).flatMap _
    rw [hs.stream, h.stream, List.filter_append, List.flatMap_append, SessionRun.payloads]
    congr 1
    by_cases hok : res.1 = .ok
    · simp [hok]
    · simp [hok]

/-- An operation of the application keeps the contents of queued buffers. -/
theorem Faithful.onBufs {r : SessionRun} (h : Faithful r) {bufs : BufHeap} {app : Nat → Nat}
    (hc : Counted app bufs r.ses.out.nodes)
    (hd : ∀ b, 0 < refs r.ses.out.nodes b → bufs.bufData b = r.ses.bufs.bufData b) :
    Faithful (r.onBufs bufs app) := by
  obtain ⟨hinv, hbytes⟩ := h.inv.onBufs hc hd
  refine ⟨hinv, ?_⟩
  show r.ses.wire ++ queuedBytes bufs r.ses.out.nodes = r.payloads
  rw [hbytes]
  exact h.stream

/-- Writing to a buffer leaves the contents of the others. -/
theorem bufData_modify_of_ne (h : BufHeap) {b c : Nat} (f : Buf → Buf) (hne : c ≠ b) :
    (h.modify b f).bufData c = h.bufData c := by
  rw [BufHeap.bufData, BufHeap.bufData, BufHeap.modify_of_ne _ _ hne]

theorem bufData_bufSetLen (h : BufHeap) (b len c : Nat) :
    (h.bufSetLen b len).bufData c = h.bufData c := by
  by_cases hcb : c = b
  · subst hcb
    rw [BufHeap.bufData, BufHeap.bufData, BufHeap.bufSetLen, BufHeap.modify_self]
    cases h.buf c with
    | none => rfl
    | some x =>
        simp only [Option.map_some, Option.getD_some]
        split <;> rfl
  · exact bufData_modify_of_ne h _ hcb

/-- A refused allocation changes nothing. -/
theorem bufAlloc_none {h h' : BufHeap} {cap : Nat} {mem : Option (List UInt8)}
    (ha : h.bufAlloc cap mem = (none, h')) : h' = h := by
  simp only [BufHeap.bufAlloc] at ha
  split at ha
  · cases ha
    rfl
  · cases mem <;> cases ha
    rfl

/-- A new buffer takes the next address. -/
theorem bufAlloc_some {h h' : BufHeap} {cap b : Nat} {mem : Option (List UInt8)}
    (ha : h.bufAlloc cap mem = (some b, h')) :
    ∃ data, b = h.next ∧
      h' = ⟨Function.update h.buf h.next (some ⟨1, 0, data⟩), h.next + 1⟩ := by
  simp only [BufHeap.bufAlloc] at ha
  split at ha
  · cases ha
  · cases mem with
    | none => cases ha
    | some data =>
        cases ha
        exact ⟨data, rfl, rfl⟩

theorem Faithful.bufAlloc {r : SessionRun} (h : Faithful r) {cap b : Nat}
    {mem : Option (List UInt8)} {bufs : BufHeap}
    (ha : r.ses.bufs.bufAlloc cap mem = (some b, bufs)) :
    Faithful (r.onBufs bufs (bump r.app b)) := by
  obtain ⟨data, rfl, rfl⟩ := bufAlloc_some ha
  obtain ⟨hinv, hbytes⟩ := h.inv.allocated (x := ⟨1, 0, data⟩) rfl (Nat.zero_le _)
  exact ⟨hinv, (congrArg (r.ses.wire ++ ·) hbytes).trans h.stream⟩

theorem Faithful.bufUnref {r : SessionRun} (h : Faithful r) {b : Nat} (hb : 0 < r.app b) :
    Faithful (r.onBufs (r.ses.bufs.bufUnref b) (unbump r.app b)) := by
  have hc : Counted (bump (unbump r.app b) b) r.ses.bufs r.ses.out.nodes := by
    rw [bump_unbump hb]
    exact h.inv.counted
  exact h.onBufs hc.unref fun c hp => hc.unref_data (Nat.add_pos_right _ hp)

theorem Faithful.memcpy {r : SessionRun} (h : Faithful r) {b : Nat} {data : List UInt8}
    (hq : refs r.ses.out.nodes b = 0) :
    Faithful (r.onBufs (r.ses.bufs.memcpy b data) r.app) := by
  refine h.onBufs (h.inv.counted.memcpy b data) fun c hp => ?_
  have hne : c ≠ b := by
    rintro rfl
    omega
  exact bufData_modify_of_ne _ _ hne

theorem Faithful.bufSetLen {r : SessionRun} (h : Faithful r) (b len : Nat) :
    Faithful (r.onBufs (r.ses.bufs.bufSetLen b len) r.app) :=
  h.onBufs (h.inv.counted.bufSetLen b len) fun _ _ => bufData_bufSetLen _ _ _ _

variable {env}

/-- A step that keeps the contract keeps the stream faithful. -/
theorem Faithful.step {r t : SessionRun} {a : SessionLabel} (hp : Plenty env) (hz : NeverZero env)
    (h : Faithful r) (hc : SendContract r a) (hs : sessionStep env r a = some t) :
    Faithful t := by
  cases a with
  | send data =>
      cases hs
      exact h.called (h.inv.send hp hz data)
  | sendv parts =>
      cases hs
      cases parts with
      | none => exact h.called (h.inv.refused .invalid (by decide) _)
      | some parts => exact h.called (h.inv.sendv hp hz hc)
  | sendBuf buf =>
      cases buf with
      | none =>
          cases hs
          exact h.called (h.inv.refused .invalid (by decide) _)
      | some b =>
          obtain ⟨hb, hs⟩ := Option.ite_none_right_eq_some.mp hs
          cases hs
          exact h.called (h.inv.sendBuf hp hz hb)
  | flush =>
      cases hs
      have hf := h.inv.flush env
      exact ⟨hf.inv, hf.stream.trans h.stream⟩
  | bufAlloc cap mem =>
      simp only [sessionStep] at hs
      split at hs
      · next ha =>
          cases hs
          rw [bufAlloc_none ha]
          exact h.onBufs h.inv.counted fun _ _ => rfl
      · next ha =>
          cases hs
          exact h.bufAlloc ha
  | bufRef b =>
      obtain ⟨hb, hs⟩ := Option.ite_none_right_eq_some.mp hs
      cases hs
      obtain ⟨x, hx⟩ := h.inv.counted.live_ext hb
      exact h.onBufs (h.inv.counted.ref hx) fun c _ => Counted.ref_data _ b c
  | bufUnref b =>
      obtain ⟨hb, hs⟩ := Option.ite_none_right_eq_some.mp hs
      cases hs
      exact h.bufUnref hb
  | memcpy b data =>
      obtain ⟨-, hs⟩ := Option.ite_none_right_eq_some.mp hs
      cases hs
      exact h.memcpy hc
  | bufSetLen b len =>
      obtain ⟨-, hs⟩ := Option.ite_none_right_eq_some.mp hs
      cases hs
      exact h.bufSetLen b len

/-- In every run of calls, whatever the platform takes, the bytes accepted by the
socket and then those in the queue are the payloads of the accepted calls. -/
theorem session_stream_fidelity (hp : Plenty env) (hz : NeverZero env) {sock : Option Int}
    {highwater : Nat} {r : SessionRun}
    (h : (sessionMachine env).Leads SendContract (.start sock highwater) r) :
    r.ses.wire ++ queuedBytes r.ses.bufs r.ses.out.nodes =
      (r.sends.filter fun c => c.1 = .ok).flatMap fun c => c.2 := by
  have hf : Faithful r :=
    h.invariant (fun _ _ _ hi hc hs => hi.step hp hz hc hs) (Faithful.start sock highwater)
  exact hf.stream

/-- A platform that takes one byte, is full, takes two bytes, fails. -/
def shortResult (k : Nat) (parts : List (List UInt8)) : Int :=
  if parts.flatten.length < 2 then Err.io.code
  else if k % 4 = 0 then 1
  else if k % 4 = 1 then Err.again.code
  else if k % 4 = 2 then 2
  else Err.io.code

theorem shortResult_spec (k : Nat) (parts : List (List UInt8)) :
    shortResult k parts ≤ parts.flatten.length ∧ -2 ^ 31 ≤ shortResult k parts ∧
      shortResult k parts ≠ 0 := by
  simp only [shortResult, Err.code]
  split
  · exact ⟨by omega, by decide, by decide⟩
  · split
    · exact ⟨by omega, by decide, by decide⟩
    · split
      · exact ⟨by omega, by decide, by decide⟩
      · split
        · exact ⟨by omega, by decide, by decide⟩
        · exact ⟨by omega, by decide, by decide⟩

theorem zeros_le (k size : Nat) (data : List UInt8)
    (h : (fun _ size => some (List.replicate size 0)) k size = some data) :
    size ≤ data.length := by
  cases h
  exact Nat.le_of_eq List.length_replicate.symm

/-- This platform, with memory for everything. -/
def shortSend : NetEnv where
  send := shortResult
  calloc _ := true
  alloc _ size := some (List.replicate size 0)
  send_le k parts := (shortResult_spec k parts).1
  send_ge k parts := (shortResult_spec k parts).2.1
  alloc_le := zeros_le

/-- The three kinds of calls, the second and third while bytes are queued, then a
flush that the platform stops. -/
def shortSendRun : List SessionLabel :=
  [.bufAlloc 4 (some [0, 0, 0, 0]), .memcpy 0 [7, 8, 9], .bufSetLen 0 3, .send (some [1, 2, 3]),
    .sendBuf (some 0), .bufUnref 0, .sendv (some [some [4], some [5, 6]]), .flush]

theorem session_stream_short_sends :
    ∃ r, (sessionMachine shortSend).Leads SendContract (.start (some 5) 0) r ∧
      r.ses.wire = [1, 2, 3, 7, 8, 9] ∧
      r.ses.wire ++ queuedBytes r.ses.bufs r.ses.out.nodes =
        (r.sends.filter fun c => c.1 = .ok).flatMap fun c => c.2 := by
  have hrun : ((sessionMachine shortSend).run (.start (some 5) 0) shortSendRun).map
      (fun r => r.ses.wire) = some [1, 2, 3, 7, 8, 9] := by decide +kernel
  obtain ⟨r, hr, hw⟩ := Option.map_eq_some_iff.mp hrun
  have hl := Machine.leads_of_run (C := SendContract) shortSendRun _ r hr (by decide +kernel)
  have hz : NeverZero shortSend := fun k parts => (shortResult_spec k parts).2.2
  exact ⟨r, hl, hw, session_stream_fidelity ⟨fun _ => rfl, fun _ _ _ => Option.some_ne_none _⟩ hz hl⟩

end Ztk.Net
