import Ztk.Net.SessionRuns

/-!
# Sessions that share buffers

Any number of sessions, opened and destroyed at any time, and the application,
all with references to the buffers of one heap.  Every session has its own
platform and its own pattern of allocation failures.  The application uses a
buffer only while it has a reference to it, and may write to it while it is
queued.

The invariant is that of one session (`OutInv`) for each of them, where the
references of the others count as held outside.  A call on one session keeps
the contents of the buffers that somebody else owns (`Keeps`), so the others do
not notice it.
-/

namespace Ztk.Net

open Ztk.Lib Ztk.Util

/-! ## The machine -/

/-- The sessions, the buffers, and the references of the application. -/
structure World where
  /-- The sessions by their serial numbers; `none` also after `session_destroy`. -/
  ses : Nat → Option Session
  /-- Sessions created so far. -/
  count : Nat
  bufs : BufHeap
  app : Nat → Nat

namespace World

/-- A session with the heap that all sessions share. -/
def session (w : World) (i : Nat) : Option Session :=
  (w.ses i).map fun s => { s with bufs := w.bufs }

/-- The chunks queued by a session. -/
def nodes (w : World) (i : Nat) : List (Nat × OutChunk) :=
  ((w.ses i).map fun s => s.out.nodes).getD []

/-- A session or nothing in place of a session, with the heap after a call. -/
def put (w : World) (i : Nat) (o : Option Session) (bufs : BufHeap) : World :=
  { w with ses := Function.update w.ses i o, bufs := bufs }

/-- A call on a session. -/
def call (w : World) (i : Nat) (f : Session → Session) : Option World :=
  (w.session i).map fun s => w.put i (some (f s)) (f s).bufs

/-- An operation of the application on the buffers. -/
def onBufs (w : World) (bufs : BufHeap) (app : Nat → Nat) : World :=
  { w with bufs := bufs, app := app }

/-- The references of the application, and those of the queued chunks of all
sessions. -/
def owners (w : World) (b : Nat) : Nat :=
  w.app b + ∑ i ∈ Finset.range w.count, refs (w.nodes i) b

/-- The references to a buffer that a session does not have. -/
def others (w : World) (i b : Nat) : Nat :=
  w.app b + ∑ j ∈ (Finset.range w.count).erase i, refs (w.nodes j) b

/-- No session and no buffer. -/
def start : World := ⟨fun _ => none, 0, ⟨fun _ => none, 0⟩, fun _ => 0⟩

end World

/-- A session on a socket with nothing queued. -/
def newSession (sock : Option Int) (highwater : Nat) : Session :=
  (SessionRun.start sock highwater).ses

/-- `session_destroy`.  What is left is the heap. -/
def sessionDestroy (s : Session) : BufHeap := (popAll s).bufs

/-- `ztk_tcp_session_out_pending`. -/
def tcpSessionOutPending (s : Session) : Nat := s.outPending

inductive WorldLabel where
  | accept (sock : Option Int) (highwater : Nat)
  | send (i : Nat) (data : Option (List UInt8))
  | sendv (i : Nat) (parts : Option (List (Option (List UInt8))))
  | sendBuf (i : Nat) (buf : Option Nat)
  | flush (i : Nat)
  | outDiscard (i : Nat)
  /-- `session_remove` up to the call of `session_destroy`. -/
  | remove (i : Nat)
  | destroy (i : Nat)
  | bufAlloc (cap : Nat) (mem : Option (List UInt8))
  | bufRef (b : Nat)
  | bufUnref (b : Nat)
  | memcpy (b : Nat) (data : List UInt8)
  | bufSetLen (b len : Nat)

variable (env : Nat → NetEnv)

def worldStep (w : World) : WorldLabel → Option World
  | .accept sock highwater =>
      some { w with
        ses := Function.update w.ses w.count (some (newSession sock highwater))
        count := w.count + 1 }
  | .send i data => w.call i fun s => (tcpSessionSend (env i) s data).2
  | .sendv i parts => w.call i fun s => (tcpSessionSendv (env i) s parts).2
  | .sendBuf i none => w.call i fun s => (tcpSessionSendBuf (env i) s none).2
  | .sendBuf i (some b) =>
      if 0 < w.app b then w.call i fun s => (tcpSessionSendBuf (env i) s (some b)).2 else none
  | .flush i => w.call i fun s => tcpSessionFlush (env i) s
  | .outDiscard i => w.call i fun s => tcpSessionOutDiscard s
  | .remove i => w.call i fun s => { s with closing := true }
  | .destroy i => (w.session i).map fun s => w.put i none (sessionDestroy s)
  | .bufAlloc cap mem =>
      match w.bufs.bufAlloc cap mem with
      | (none, h) => some (w.onBufs h w.app)
      | (some b, h) => some (w.onBufs h (bump w.app b))
  | .bufRef b => if 0 < w.app b then some (w.onBufs (w.bufs.bufRef b) (bump w.app b)) else none
  | .bufUnref b =>
      if 0 < w.app b then some (w.onBufs (w.bufs.bufUnref b) (unbump w.app b)) else none
  | .memcpy b data =>
      if 0 < w.app b ∧ data.length ≤ (w.bufs.bufData b).length then
        some (w.onBufs (w.bufs.memcpy b data) w.app)
      else none
  | .bufSetLen b len =>
      if 0 < w.app b then some (w.onBufs (w.bufs.bufSetLen b len) w.app) else none

def worldMachine : Machine World WorldLabel := ⟨worldStep env⟩

/-! ## The invariant -/

/-- Every session keeps its queue, and all references are counted. -/
structure WorldInv (w : World) : Prop where
  unborn : ∀ i, w.count ≤ i → w.ses i = none
  counted : Counted w.owners w.bufs []
  queue : ∀ i s, w.session i = some s → OutInv (w.others i) s

namespace World

theorem session_nodes {w : World} {i : Nat} {s : Session} (h : w.session i = some s) :
    w.nodes i = s.out.nodes := by
  obtain ⟨t, ht, rfl⟩ := Option.map_eq_some_iff.mp h
  rw [nodes, ht]
  rfl

theorem session_bufs {w : World} {i : Nat} {s : Session} (h : w.session i = some s) :
    s.bufs = w.bufs := by
  obtain ⟨t, -, rfl⟩ := Option.map_eq_some_iff.mp h
  rfl

@[simp] theorem put_ses_self (w : World) (i : Nat) (o : Option Session) (bufs : BufHeap) :
    (w.put i o bufs).ses i = o :=
  Function.update_self ..

theorem put_ses_of_ne (w : World) {i j : Nat} (o : Option Session) (bufs : BufHeap)
    (hne : j ≠ i) : (w.put i o bufs).ses j = w.ses j :=
  Function.update_of_ne hne ..

theorem put_nodes_self (w : World) (i : Nat) (o : Option Session) (bufs : BufHeap) :
    (w.put i o bufs).nodes i = (o.map fun s => s.out.nodes).getD [] := by
  rw [nodes, put_ses_self]

theorem put_nodes_of_ne (w : World) {i j : Nat} (o : Option Session) (bufs : BufHeap)
    (hne : j ≠ i) : (w.put i o bufs).nodes j = w.nodes j := by
  rw [nodes, nodes, put_ses_of_ne w o bufs hne]

/-- A session's own references and those of the others. -/
theorem others_add {w : World} {i : Nat} (hi : i < w.count) (b : Nat) :
    w.others i b + refs (w.nodes i) b = w.owners b := by
  rw [others, owners, Nat.add_assoc, Finset.sum_erase_add _ _ (Finset.mem_range.mpr hi)]

/-- The references of the others do not depend on the session. -/
theorem others_put (w : World) (i : Nat) (o : Option Session) (bufs : BufHeap) :
    (w.put i o bufs).others i = w.others i := by
  funext b
  refine congrArg (w.app b + ·) (Finset.sum_congr rfl fun j hj => ?_)
  rw [put_nodes_of_ne w o bufs (Finset.ne_of_mem_erase hj)]

/-- What another session has queued. -/
theorem refs_le_others {w : World} {i j : Nat} (hj : j < w.count) (hne : j ≠ i) (b : Nat) :
    refs (w.nodes j) b ≤ w.others i b := by
  refine (Finset.single_le_sum (f := fun j => refs (w.nodes j) b) (fun _ _ => Nat.zero_le _) ?_).trans
    (Nat.le_add_left _ _)
  exact Finset.mem_erase.mpr ⟨hne, Finset.mem_range.mpr hj⟩

theorem owned {w : World} {i b : Nat} (hi : i < w.count) (hb : 0 < refs (w.nodes i) b) :
    0 < w.owners b := by
  rw [← others_add hi]
  exact Nat.add_pos_right _ hb

end World

namespace WorldInv

variable {w : World} {i : Nat} {s : Session}

theorem lt_count (h : WorldInv w) (hs : w.ses i ≠ none) : i < w.count :=
  Nat.lt_of_not_le fun hle => hs (h.unborn i hle)

theorem session_lt (h : WorldInv w) (hs : w.session i = some s) : i < w.count := by
  refine h.lt_count fun hn => ?_
  rw [World.session, hn] at hs
  cases hs

/-- After an operation on the heap that counts its references and leaves the
sizes of queued buffers alone, every queue is as it was. -/
theorem requeue (h : WorldInv w) {w' : World} (hs : w.ses i = w'.ses i) (hi : i < w.count)
    (hc : Counted w'.owners w'.bufs []) (hcount : w'.count = w.count)
    (hd : ∀ b, 0 < refs (w.nodes i) b → (w'.bufs.bufData b).length = (w.bufs.bufData b).length)
    (ht : w'.session i = some s) : OutInv (w'.others i) s := by
  obtain ⟨t, hti, rfl⟩ := Option.map_eq_some_iff.mp ht
  have hold : w.session i = some { t with bufs := w.bufs } := by
    rw [World.session, hs, hti]
    rfl
  have hnodes : w.nodes i = t.out.nodes := (World.session_nodes hold).trans rfl
  refine (h.queue i _ hold).onHeap (hc.congr fun b => ?_) fun b hb => hd b (hnodes ▸ hb)
  rw [← World.others_add (hcount ▸ hi), World.session_nodes ht]
  rfl

/-- A call on a session that gives back what it takes is not noticed elsewhere. -/
theorem put (h : WorldInv w) (hi : i < w.count) {o : Option Session} {bufs : BufHeap}
    (hc : Counted (w.others i) bufs ((o.map fun s => s.out.nodes).getD []))
    (ho : ∀ t, o = some t → OutInv (w.others i) { t with bufs := bufs })
    (hk : Keeps (w.others i) w.bufs bufs) : WorldInv (w.put i o bufs) := by
  have hcounted : Counted (w.put i o bufs).owners bufs [] := by
    refine hc.congr fun b => ?_
    rw [← World.others_add (i := i) (w := w.put i o bufs) hi, World.others_put,
      World.put_nodes_self]
    rfl
  refine ⟨fun j hj => ?_, hcounted, fun j t ht => ?_⟩
  · have hne : j ≠ i := fun he => absurd hi (Nat.not_lt.mpr (he ▸ hj))
    rw [World.put_ses_of_ne w o bufs hne]
    exact h.unborn j hj
  · by_cases hji : j = i
    · subst hji
      obtain ⟨u, hu, rfl⟩ := Option.map_eq_some_iff.mp ht
      rw [World.put_ses_self] at hu
      rw [World.others_put]
      exact ho u hu
    · have hsame : w.ses j = (w.put i o bufs).ses j := (World.put_ses_of_ne w o bufs hji).symm
      have hj : j < w.count := h.lt_count (by
        rw [hsame]
        intro hn
        rw [World.session, hn] at ht
        cases ht)
      refine h.requeue hsame hj hcounted rfl (fun b hb => ?_) ht
      exact congrArg List.length (hk b (hb.trans_le (World.refs_le_others hj hji b)))

/-- A call on a session. -/
theorem call (h : WorldInv w) {f : Session → Session} {w' : World} (hw : w.call i f = some w')
    (hf : ∀ s, w.session i = some s → OutInv (w.others i) s →
      OutInv (w.others i) (f s) ∧ Keeps (w.others i) s.bufs (f s).bufs) : WorldInv w' := by
  obtain ⟨s, hs, rfl⟩ := Option.map_eq_some_iff.mp hw
  obtain ⟨hinv, hk⟩ := hf s hs (h.queue i s hs)
  refine h.put (h.session_lt hs) hinv.counted (fun t ht => ?_) (World.session_bufs hs ▸ hk)
  cases ht
  exact hinv

theorem destroy (h : WorldInv w) (hs : w.session i = some s) :
    WorldInv (w.put i none (sessionDestroy s)) := by
  obtain ⟨hinv, hnil, hk⟩ := (h.queue i s hs).popAll
  refine h.put (h.session_lt hs) ?_ (fun t ht => by cases ht) (World.session_bufs hs ▸ hk)
  have := hinv.counted
  rwa [hnil] at this

/-- An operation of the application. -/
theorem onBufs (h : WorldInv w) {bufs : BufHeap} {app : Nat → Nat}
    (hc : Counted (w.onBufs bufs app).owners bufs [])
    (hd : ∀ i, i < w.count → ∀ b, 0 < refs (w.nodes i) b →
      (bufs.bufData b).length = (w.bufs.bufData b).length) : WorldInv (w.onBufs bufs app) where
  unborn := h.unborn
  counted := hc
  queue := fun i t ht => by
    have hi : i < w.count := h.lt_count (by
      intro hn
      rw [World.session, World.onBufs, hn] at ht
      cases ht)
    exact h.requeue rfl hi hc rfl (hd i hi) ht

/-- A new session has nothing queued. -/
theorem accept (h : WorldInv w) (sock : Option Int) (highwater : Nat) :
    WorldInv { w with
      ses := Function.update w.ses w.count (some (newSession sock highwater))
      count := w.count + 1 } := by
  have hnone : w.nodes w.count = [] := by
    rw [World.nodes, h.unborn w.count (Nat.le_refl _)]
    rfl
  -- the new place holds nothing yet
  have howners : World.owners { w with count := w.count + 1 } = w.owners := by
    funext b
    show w.app b + ∑ i ∈ Finset.range (w.count + 1), refs (w.nodes i) b = _
    rw [Finset.sum_range_succ, hnone]
    rfl
  have hothers : ∀ i, i < w.count → World.others { w with count := w.count + 1 } i = w.others i := by
    intro i hi
    funext b
    have h₁ := World.others_add hi b
    have h₂ := World.others_add (w := { w with count := w.count + 1 }) (Nat.lt_succ_of_lt hi) b
    rw [howners] at h₂
    exact Nat.add_right_cancel (h₂.trans h₁.symm)
  have hgrown : WorldInv { w with count := w.count + 1 } :=
    { unborn := fun i hi => h.unborn i (Nat.le_of_succ_le hi)
      counted := by
        rw [howners]
        exact h.counted
      queue := fun i s hs => by
        rw [hothers i (h.session_lt hs)]
        exact h.queue i s hs }
  have hc : Counted (World.others { w with count := w.count + 1 } w.count) w.bufs [] := by
    refine hgrown.counted.congr fun b => ?_
    rw [← World.others_add (w := { w with count := w.count + 1 }) (Nat.lt_succ_self w.count) b]
    exact congrArg (_ + ·) (congrArg (refs · b) hnone).symm
  refine hgrown.put (i := w.count) (Nat.lt_succ_self _) hc (fun t ht => ?_) (.refl _ _)
  cases ht
  exact
    { wf := Chain.wf_empty
      below := fun n hn => absurd hn List.not_mem_nil
      chunks := fun n hn => absurd hn List.not_mem_nil
      counted := hc
      pending := rfl
      metered := rfl }

/-- One more reference of the application. -/
theorem owners_bump (bufs : BufHeap) (b : Nat) :
    (w.onBufs bufs (bump w.app b)).owners = bump w.owners b := by
  funext c
  show bump w.app b c + _ = _
  by_cases hcb : c = b
  · subst hcb
    rw [bump_self, bump_self, World.owners, Nat.add_right_comm]
    rfl
  · rw [bump_of_ne _ hcb, bump_of_ne _ hcb]
    rfl

theorem bufAlloc (h : WorldInv w) {cap b : Nat} {mem : Option (List UInt8)} {bufs : BufHeap}
    (ha : w.bufs.bufAlloc cap mem = (some b, bufs)) : WorldInv (w.onBufs bufs (bump w.app b)) := by
  obtain ⟨data, rfl, rfl⟩ := bufAlloc_some ha
  refine h.onBufs ?_ fun i hi b hb => ?_
  · rw [owners_bump]
    exact h.counted.alloc rfl (Nat.zero_le _)
  · have hne := h.counted.ne_next (Nat.add_pos_left (World.owned hi hb) _)
    simp only [BufHeap.bufData, Function.update_of_ne hne]

theorem bufUnref (h : WorldInv w) {b : Nat} (hb : 0 < w.app b) :
    WorldInv (w.onBufs (w.bufs.bufUnref b) (unbump w.app b)) := by
  have hc : Counted (bump (w.onBufs (w.bufs.bufUnref b) (unbump w.app b)).owners b) w.bufs [] := by
    rw [← owners_bump (w := w.onBufs (w.bufs.bufUnref b) (unbump w.app b)) w.bufs]
    show Counted (w.onBufs w.bufs (bump (unbump w.app b) b)).owners w.bufs []
    rw [bump_unbump hb]
    exact h.counted
  refine h.onBufs hc.unref fun i hi c hr => ?_
  have ho := World.owned (w := w.onBufs (w.bufs.bufUnref b) (unbump w.app b)) hi hr
  exact congrArg List.length (hc.unref_data (Nat.add_pos_left ho _))

/-- The bytes that are written are within the buffer. -/
theorem memcpy_length (h : BufHeap) {b : Nat} {data : List UInt8}
    (hfit : data.length ≤ (h.bufData b).length) (c : Nat) :
    ((h.memcpy b data).bufData c).length = (h.bufData c).length := by
  by_cases hcb : c = b
  · subst hcb
    rw [BufHeap.bufData] at hfit
    rw [BufHeap.bufData, BufHeap.bufData, BufHeap.memcpy, BufHeap.modify_self]
    cases hx : h.buf c with
    | none => rfl
    | some x =>
        rw [hx] at hfit
        simp only [Option.map_some, Option.getD_some, List.length_append, List.length_drop] at hfit ⊢
        omega
  · exact congrArg List.length (bufData_modify_of_ne h _ hcb)

variable {env}

theorem step {w' : World} {a : WorldLabel} (h : WorldInv w) (hs : worldStep env w a = some w') :
    WorldInv w' := by
  cases a with
  | accept sock highwater =>
      cases hs
      exact h.accept sock highwater
  | send i data =>
      refine h.call hs fun s _ hinv => ?_
      cases data with
      | none => exact ⟨hinv, .refl _ _⟩
      | some data =>
          have ho := hinv.sendOutcome (env i) data
          exact ⟨ho.inv, ho.frame⟩
  | sendv i parts =>
      refine h.call hs fun s _ hinv => ?_
      cases parts with
      | none => exact ⟨hinv, .refl _ _⟩
      | some parts =>
          have ho := hinv.sendvOutcome (env i) parts
          exact ⟨ho.inv, ho.frame⟩
  | sendBuf i buf =>
      cases buf with
      | none => exact h.call hs fun s _ hinv => ⟨hinv, .refl _ _⟩
      | some b =>
          obtain ⟨hb, hs⟩ := Option.ite_none_right_eq_some.mp hs
          refine h.call hs fun s _ hinv => ?_
          have ho := hinv.sendBufOutcome (env i) (Nat.add_pos_left hb _)
          exact ⟨ho.inv, ho.frame⟩
  | flush i =>
      refine h.call hs fun s _ hinv => ?_
      have hf := hinv.flush (env i)
      exact ⟨hf.inv, hf.frame⟩
  | outDiscard i =>
      refine h.call hs fun s _ hinv => ?_
      obtain ⟨hdone, -, hk⟩ := hinv.discard
      exact ⟨hdone, hk⟩
  | remove i => exact h.call hs fun s _ hinv => ⟨{ hinv with }, .refl _ _⟩
  | destroy i =>
      obtain ⟨s, hses, rfl⟩ := Option.map_eq_some_iff.mp hs
      exact h.destroy hses
  | bufAlloc cap mem =>
      simp only [worldStep] at hs
      split at hs
      · next ha =>
          cases hs
          rw [bufAlloc_none ha]
          exact h
      · next ha =>
          cases hs
          exact h.bufAlloc ha
  | bufRef b =>
      obtain ⟨hb, hs⟩ := Option.ite_none_right_eq_some.mp hs
      cases hs
      obtain ⟨x, hx⟩ := h.counted.live_ext (Nat.add_pos_left hb _)
      refine h.onBufs ?_ fun _ _ c _ => congrArg List.length (Counted.ref_data _ b c)
      rw [owners_bump]
      exact h.counted.ref hx
  | bufUnref b =>
      obtain ⟨hb, hs⟩ := Option.ite_none_right_eq_some.mp hs
      cases hs
      exact h.bufUnref hb
  | memcpy b data =>
      obtain ⟨⟨-, hfit⟩, hs⟩ := Option.ite_none_right_eq_some.mp hs
      cases hs
      exact h.onBufs (h.counted.memcpy b data) fun _ _ c _ => memcpy_length _ hfit c
  | bufSetLen b len =>
      obtain ⟨-, hs⟩ := Option.ite_none_right_eq_some.mp hs
      cases hs
      exact h.onBufs (h.counted.bufSetLen b len) fun _ _ c _ =>
        congrArg List.length (bufData_bufSetLen _ _ _ c)

theorem start : WorldInv .start where
  unborn := fun _ _ => rfl
  counted := ⟨fun b x hx => (by cases hx), fun b hb => absurd hb (Nat.lt_irrefl 0), fun _ _ => rfl⟩
  queue := fun i s hs => by cases hs

theorem of_leads {w : World} (h : (worldMachine env).Leads Machine.Any .start w) : WorldInv w :=
  h.invariant (fun _ _ _ hi _ hs => hi.step hs) start

end WorldInv

end Ztk.Net
