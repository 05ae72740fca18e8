import Ztk.Net.UdpServer

/-!
# Receiving datagrams

`udp_on_readable` of `udp_server.c` and `udp_client_on_readable` of `udp_client.c`.
Both read until `ztk_socket_recvfrom` returns something that is not positive, into a
buffer that is longer than any datagram.  An empty datagram makes it return 0, and
both loops end there as they do at the end of the queue.  The client tells its user of
an error unless the result is `ZTK_ERR_AGAIN`.

A slot of the server drops an event whose descriptor is not the one of its own socket.
Where all slots share a descriptor it is the one of slot 0.
-/

namespace Ztk.Net

open Ztk.Lib Ztk.Poller

/-! ## State -/

/-- A datagram. -/
structure Datagram where
  ip : String
  port : Nat
  bytes : List (BitVec 8)
  fits : bytes.length ≤ 65535
deriving DecidableEq

/-- What a reader finds in a UDP socket: the datagrams that wait, and what `recvfrom`
returns when none does. -/
structure UdpQueue where
  pending : List Datagram
  ended : Int
  neg : ended < 0

/-- What a readable event does: the calls of `on_packet`, the last result of
`ztk_socket_recvfrom` if it is called, the calls of `on_error`, and the sockets
afterwards, by descriptor. -/
structure Received where
  packets : List Datagram
  last : Option Int
  errors : Nat
  net : Int → UdpQueue

/-- Nothing is read. -/
def Received.idle (net : Int → UdpQueue) : Received := ⟨[], none, 0, net⟩

/-- `ztk_udp_client`, as far as it is read here. -/
structure UdpClient where
  onPacket : Bool
  onError : Bool
  /-- `recv_buf` is not null. -/
  recvBuf : Bool
  recvCap : Nat

/-! ## The functions of the source -/

/-- What fits into a buffer. -/
def Datagram.cut (d : Datagram) (len : Nat) : Datagram where
  ip := d.ip
  port := d.port
  bytes := d.bytes.take len
  fits := (List.length_take_le' len d.bytes).trans d.fits

/-- The loops over `ztk_socket_recvfrom` with a buffer of `len` bytes: the datagrams
that are passed on, the result that ends the loop, and the datagrams that still wait. -/
def drain (len : Nat) (ended : Int) : List Datagram → List Datagram × Int × List Datagram
  | [] => ([], ended, [])
  | d :: ds =>
      if 0 < (d.cut len).bytes.length then
        let (packets, last, left) := drain len ended ds
        (d.cut len :: packets, last, left)
      else ([], (d.cut len).bytes.length, ds)

/-- The loop at a socket, with `onError` what the last result makes of it. -/
def drainSock (net : Int → UdpQueue) (fd : Int) (len : Nat) (onError : Int → Nat) : Received :=
  let (packets, last, left) := drain len (net fd).ended (net fd).pending
  { packets := packets
    last := some last
    errors := onError last
    net := Function.update net fd { net fd with pending := left } }

/-- `ZTK_UDP_RECV` and `ZTK_UDP_CLIENT_RECV`. -/
def udpRecv : Nat := 65536

/-- `udp_on_readable` for a slot of the server. -/
def UdpWorld.udpOnReadable (w : UdpWorld) (onPacket : Bool) (net : Int → UdpQueue) (i : Nat)
    (fd : Int) : Received :=
  if w.srv.fd i ≠ fd then .idle net
  else if !onPacket then .idle net
  else
    let sock := if w.srv.sharedFdMode then w.srv.fd 0 else w.srv.fd i
    drainSock net sock udpRecv fun _ => 0

/-- A poller has a readable event for a descriptor: it calls the handler with the user
pointer of its entry. -/
def UdpWorld.readable (w : UdpWorld) (onPacket : Bool) (net : Int → UdpQueue) (p : Nat)
    (fd : Int) : Received :=
  match ((w.pollers p).findEntry fd).bind FdEntry.user with
  | some (.slot i) => w.udpOnReadable onPacket net i fd
  | _ => .idle net

namespace UdpClient

/-- `udp_client_ensure_recv_buf`: whether there is a buffer, and the client. -/
def ensureRecvBuf (c : UdpClient) (realloc : Bool) : Bool × UdpClient :=
  if c.recvBuf ∧ udpRecv ≤ c.recvCap then (true, c)
  else if !realloc then (false, c)
  else (true, { c with recvBuf := true, recvCap := udpRecv })

/-- `udp_client_on_readable`, at a socket. -/
def udpClientOnReadable (c : UdpClient) (realloc : Bool) (net : Int → UdpQueue) (fd : Int) :
    UdpClient × Received :=
  if !c.onPacket then (c, .idle net)
  else
    match c.ensureRecvBuf realloc with
    | (false, c) => (c, .idle net)
    | (true, c) =>
        (c, drainSock net fd c.recvCap fun n => if n = Err.again.code then 0 else c.onError.toNat)

end UdpClient

/-! ## The loop -/

variable {net : Int → UdpQueue} {len : Nat} {fd : Int}

/-- The datagram is not empty. -/
def Datagram.Full (d : Datagram) : Prop := d.bytes ≠ []

instance (d : Datagram) : Decidable d.Full := inferInstanceAs (Decidable (_ ≠ _))

theorem Datagram.cut_eq (d : Datagram) (h : udpRecv ≤ len) : d.cut len = d := by
  have hlen : d.bytes.length ≤ len := d.fits.trans ((Nat.le_succ _).trans h)
  rw [cut]
  simp only [List.take_of_length_le hlen]

/-- The loop passes on what comes before the first empty datagram, and drops that one. -/
theorem drain_eq (h : udpRecv ≤ len) (ended : Int) (ds : List Datagram) :
    drain len ended ds = (ds.takeWhile fun d => decide d.Full,
      if ∀ d ∈ ds, d.Full then ended else 0, (ds.dropWhile fun d => decide d.Full).tail) := by
  induction ds with
  | nil => rfl
  | cons d ds ih =>
      rw [drain, d.cut_eq h]
      by_cases hd : d.Full
      · rw [if_pos (List.length_pos_of_ne_nil hd), ih]
        simp only [List.takeWhile_cons, List.dropWhile_cons, List.forall_mem_cons, hd, decide_true,
          if_true, true_and]
      · have hnil : d.bytes = [] := not_not.mp hd
        simp [hnil, hd]

/-- Only a prefix of full datagrams is passed on. -/
theorem takeWhile_full {ds : List Datagram} :
    ds.takeWhile (fun d => decide d.Full) = ds ↔ ∀ d ∈ ds, d.Full := by
  rw [List.takeWhile_eq_self_iff]
  simp only [decide_eq_true_eq]

theorem dropWhile_full {ds : List Datagram} (h : ∀ d ∈ ds, d.Full) :
    ds.dropWhile (fun d => decide d.Full) = [] := by
  rw [List.dropWhile_eq_nil_iff]
  exact fun d hd => decide_eq_true (h d hd)

/-- Every datagram that waits is passed on once and in order, and none is left. -/
structure Delivered (net : Int → UdpQueue) (fd : Int) (r : Received) : Prop where
  packets : r.packets = (net fd).pending
  left : (r.net fd).pending = []

/-- Nothing is read, so nothing is delivered. -/
theorem delivered_idle : Delivered net fd (.idle net) ↔ (net fd).pending = [] :=
  ⟨Delivered.left, fun h => ⟨h.symm, h⟩⟩

/-- The loop delivers exactly the queues without an empty datagram. -/
theorem delivered_drainSock (h : udpRecv ≤ len) (onError : Int → Nat) :
    Delivered net fd (drainSock net fd len onError) ↔ ∀ d ∈ (net fd).pending, d.Full := by
  constructor
  · intro hd
    have hp := hd.packets
    rw [drainSock, drain_eq h] at hp
    exact takeWhile_full.mp hp
  · intro hf
    refine ⟨?_, ?_⟩
    · rw [drainSock, drain_eq h]
      exact takeWhile_full.mpr hf
    · rw [drainSock, drain_eq h]
      simp only [Function.update_self, dropWhile_full hf, List.tail_nil]

/-- The result that ends the loop. -/
theorem drainSock_last (h : udpRecv ≤ len) (onError : Int → Nat) :
    (drainSock net fd len onError).last =
      some (if ∀ d ∈ (net fd).pending, d.Full then (net fd).ended else 0) := by
  rw [drainSock, drain_eq h]

/-! ## Every datagram -/

/-- The client has a handler for packets, and a buffer or memory for one. -/
def UdpClient.Ready (c : UdpClient) (realloc : Bool) : Prop :=
  c.onPacket = true ∧ (c.recvBuf = true ∧ udpRecv ≤ c.recvCap ∨ realloc = true)

/-- How `udp_client_on_readable` can end. -/
theorem UdpClient.onReadable_cases (c : UdpClient) (realloc : Bool) (net : Int → UdpQueue)
    (fd : Int) :
    (c.Ready realloc ∧ ∃ len, udpRecv ≤ len ∧ (c.udpClientOnReadable realloc net fd).2 =
        drainSock net fd len fun n => if n = Err.again.code then 0 else c.onError.toNat) ∨
      (¬ c.Ready realloc ∧ (c.udpClientOnReadable realloc net fd).2 = .idle net) := by
  rw [udpClientOnReadable]
  split
  · next hp =>
      rw [Bool.not_eq_true'] at hp
      exact Or.inr ⟨fun h => Bool.false_ne_true (hp.symm.trans h.1), rfl⟩
  · next hp =>
      rw [Bool.not_eq_true', Bool.not_eq_false] at hp
      rw [ensureRecvBuf]
      split_ifs with hcap hr
      · exact Or.inl ⟨⟨hp, Or.inl hcap⟩, c.recvCap, hcap.2, rfl⟩
      · refine Or.inr ⟨fun h => h.2.elim hcap fun hr' => ?_, rfl⟩
        rw [hr'] at hr
        exact Bool.false_ne_true hr
      · rw [Bool.not_eq_true', Bool.not_eq_false] at hr
        exact Or.inl ⟨⟨hp, Or.inr hr⟩, udpRecv, le_refl _, rfl⟩

/-- `on_error` is called for a negative result only, and not for `ZTK_ERR_AGAIN`. -/
def ErrorsFounded (r : Received) : Prop :=
  r.errors ≠ 0 → ∃ n, r.last = some n ∧ n < 0 ∧ n ≠ Err.again.code

/-- The client delivers exactly the queues without an empty datagram. -/
theorem client_delivers (c : UdpClient) (realloc : Bool)
    (hend : (net fd).ended = Err.again.code) :
    (Delivered net fd (c.udpClientOnReadable realloc net fd).2 ∧
        (c.udpClientOnReadable realloc net fd).2.errors = 0) ↔
      ∀ d ∈ (net fd).pending, c.Ready realloc ∧ d.Full := by
  rcases c.onReadable_cases realloc net fd with ⟨hr, len, hlen, heq⟩ | ⟨hr, heq⟩
  · rw [heq, delivered_drainSock hlen]
    constructor
    · exact fun h d hd => ⟨hr, h.1 d hd⟩
    · intro h
      have hf : ∀ d ∈ (net fd).pending, d.Full := fun d hd => (h d hd).2
      refine ⟨hf, ?_⟩
      rw [drainSock, drain_eq hlen, if_pos hf]
      exact if_pos hend
  · rw [heq, delivered_idle]
    constructor
    · rintro ⟨hnil, -⟩ d hd
      rw [hnil] at hd
      exact absurd hd List.not_mem_nil
    · intro h
      exact ⟨List.eq_nil_iff_forall_not_mem.mpr fun d hd => hr (h d hd).1, rfl⟩

/-- The client tells of an error without one exactly when it comes upon an empty
datagram. -/
theorem client_errors (c : UdpClient) (realloc : Bool) :
    ErrorsFounded (c.udpClientOnReadable realloc net fd).2 ↔
      (c.onError = true → c.Ready realloc → ∀ d ∈ (net fd).pending, d.Full) := by
  rcases c.onReadable_cases realloc net fd with ⟨hr, len, hlen, heq⟩ | ⟨hr, heq⟩
  · rw [heq, ErrorsFounded, drainSock_last hlen, drainSock, drain_eq hlen]
    by_cases hf : ∀ d ∈ (net fd).pending, d.Full
    · simp only [if_pos hf]
      refine iff_of_true (fun he => ⟨_, rfl, (net fd).neg, fun ha => he (if_pos ha)⟩)
        fun _ _ => hf
    · simp only [if_neg hf]
      have hne : ¬ (0 : Int) = Err.again.code := by decide
      rw [if_neg hne]
      constructor
      · intro h ho
        rw [ho] at h
        obtain ⟨n, hn, hneg, -⟩ := h Nat.one_ne_zero
        rw [← Option.some.inj hn] at hneg
        exact absurd hneg (Int.lt_irrefl 0)
      · intro h he
        have ho : c.onError = true := by
          by_contra ho
          rw [Bool.not_eq_true] at ho
          rw [ho] at he
          exact he rfl
        exact absurd (h ho hr) hf
  · rw [heq]
    exact iff_of_true (fun he => absurd rfl he) fun _ h => absurd h hr

/-- A slot of the server at its own descriptor, where that is the one it reads. -/
theorem slot_delivers (w : UdpWorld) (onPacket : Bool) {i : Nat} (hkey : w.key i = w.srv.fd i) :
    Delivered net (w.srv.fd i) (w.udpOnReadable onPacket net i (w.srv.fd i)) ↔
      ∀ d ∈ (net (w.srv.fd i)).pending, onPacket = true ∧ d.Full := by
  rw [UdpWorld.udpOnReadable]
  rw [if_neg (not_not.mpr rfl)]
  cases onPacket with
  | false =>
      rw [Bool.not_false, if_pos rfl, delivered_idle, List.eq_nil_iff_forall_not_mem]
      simp only [Bool.false_eq_true, false_and]
  | true =>
      rw [Bool.not_true, if_neg Bool.false_ne_true]
      have hsock : (if w.srv.sharedFdMode then w.srv.fd 0 else w.srv.fd i) = w.srv.fd i := hkey
      simp only [hsock, delivered_drainSock (le_refl udpRecv), true_and]

/-- A dispatch delivers the datagrams that wait exactly when none of them is empty, at a
client and at the first slot of a server that have handlers, and the client tells of an
error only where there is one exactly when it comes upon no empty datagram. -/
theorem datagrams_delivered_iff (c : UdpClient) (realloc : Bool) (w : UdpWorld) (onPacket : Bool)
    (net : Int → UdpQueue) (fd : Int) :
    ((net fd).ended = Err.again.code →
        ((Delivered net fd (c.udpClientOnReadable realloc net fd).2 ∧
            (c.udpClientOnReadable realloc net fd).2.errors = 0) ↔
          ∀ d ∈ (net fd).pending, c.Ready realloc ∧ d.Full)) ∧
      (ErrorsFounded (c.udpClientOnReadable realloc net fd).2 ↔
        (c.onError = true → c.Ready realloc → ∀ d ∈ (net fd).pending, d.Full)) ∧
      (Delivered net (w.srv.fd 0) (w.udpOnReadable onPacket net 0 (w.srv.fd 0)) ↔
        ∀ d ∈ (net (w.srv.fd 0)).pending, onPacket = true ∧ d.Full) := by
  refine ⟨client_delivers c realloc, client_errors c realloc, slot_delivers w onPacket ?_⟩
  rw [UdpWorld.key]
  rw [ite_self]

/-- An empty datagram in front of one with a byte. -/
def emptyFirst : UdpQueue where
  pending := [⟨"192.0.2.1", 9000, [], by decide⟩, ⟨"192.0.2.1", 9000, [7], by decide⟩]
  ended := Err.again.code
  neg := by decide

/-- A server that is started on two pollers. -/
def startedSlots (hasReuseport : Bool) : UdpWorld :=
  (twoSlots.start (bindingEnv hasReuseport fun _ => true)).2

/-- A client that has not received anything yet. -/
def freshClient : UdpClient := ⟨true, true, false, 0⟩

/-- The client passes nothing on, tells of an error and leaves a datagram behind, and the
server passes nothing on. -/
theorem empty_datagram_ends_loop :
    ¬ Delivered (fun _ => emptyFirst) 4
        (freshClient.udpClientOnReadable true (fun _ => emptyFirst) 4).2 ∧
      ¬ ErrorsFounded (freshClient.udpClientOnReadable true (fun _ => emptyFirst) 4).2 ∧
      ¬ Delivered (fun _ => emptyFirst) ((startedSlots true).srv.fd 0)
        ((startedSlots true).udpOnReadable true (fun _ => emptyFirst) 0
          ((startedSlots true).srv.fd 0)) := by
  refine ⟨fun h => ?_, fun h => ?_, fun h => ?_⟩
  · have hp := h.packets
    exact absurd hp (by decide)
  · obtain ⟨n, hn, hneg, -⟩ := h (by decide)
    have hzero : some n = some 0 := hn.symm.trans (by decide)
    rw [Option.some.inj hzero] at hneg
    exact absurd hneg (Int.lt_irrefl 0)
  · have hp := h.packets
    exact absurd hp (by decide)

/-! ## Slots that share a descriptor -/

namespace UdpWorld

variable {w : UdpWorld}

/-- A slot is registered with a descriptor. -/
def Registered (w : UdpWorld) (fd : Int) (i : Nat) : Prop :=
  ∃ e, (w.pollers i).findEntry fd = some e ∧ e.user = some (.slot i)

/-- What every run keeps: the slots of a started server that share a descriptor are
registered with the one of slot 0. -/
structure Sharing (w : UdpWorld) : Prop where
  apart : w.Apart
  shared : w.srv.started = true → w.srv.sharedFdMode = true →
    0 ≤ w.srv.fd 0 ∧ ∀ i < w.srv.slotCount, w.Registered (w.srv.fd 0) i

/-- The descriptors stay as they are. -/
theorem Apart.of_eq (h : w.Apart) {v : UdpWorld} (hfd : v.srv.fd = w.srv.fd)
    (hopen : v.opened = w.opened) : v.Apart where
  nonneg := by
    rw [hopen]
    exact h.nonneg
  owned := by
    rw [hfd, hopen]
    exact h.owned
  apart := by
    rw [hfd]
    exact h.apart

/-- `close_fd`. -/
theorem Apart.closeFd (h : w.Apart) (i : Nat) : (w.closeFd i).Apart := by
  rw [UdpWorld.closeFd]
  split
  · exact h
  · refine h.assignFd (i := i) (x := -1) rfl (fun fd hfd => h.nonneg fd (List.mem_of_mem_filter hfd))
      (fun j hji hj => ?_) fun h0 => absurd h0 (by decide)
    exact List.mem_filter.mpr ⟨h.owned j hj, decide_eq_true fun hfd => hji (h.apart j i hj hfd)⟩

/-- A slot gets a descriptor that is not open. -/
theorem Apart.openFd (h : w.Apart) {i : Nat} {fd : Nat} (hfresh : (fd : Int) ∉ w.opened) :
    Apart { w with
      srv := { w.srv with fd := Function.update w.srv.fd i fd }
      opened := fd :: w.opened } :=
  h.assignFd (i := i) (x := fd) rfl (List.forall_mem_cons.mpr ⟨Int.natCast_nonneg fd, h.nonneg⟩)
    (fun j _ hj => List.mem_cons_of_mem _ (h.owned j hj)) fun _ => ⟨List.mem_cons_self, hfresh⟩

/-- `ztk_socket_bind_udp_ex`: where it succeeds the slot has a descriptor. -/
theorem Apart.bindUdpEx (h : w.Apart) (env : UdpEnv) (i : Nat) :
    (w.bindUdpEx env i).2.Apart ∧
      ((w.bindUdpEx env i).1 = .ok → 0 ≤ (w.bindUdpEx env i).2.srv.fd i) := by
  have hc := h.closeFd i
  rw [UdpWorld.bindUdpEx]
  split
  · refine ⟨hc.openFd (env.fresh i _), fun _ => ?_⟩
    simp only [Function.update_self]
    exact Int.natCast_nonneg _
  · next hne => exact ⟨hc, fun hok => absurd hok hne⟩

/-- `ztk_udp_server_stop`. -/
theorem stop_eq (w : UdpWorld) :
    w.stop.srv.fd = w.srv.fd ∧ w.stop.opened = w.opened ∧ w.stop.srv.started = false := by
  rw [UdpWorld.stop]
  split
  · next hs =>
      rw [Bool.not_eq_true'] at hs
      exact ⟨rfl, rfl, hs⟩
  · have hfold : ∀ (l : List Nat) (v : UdpWorld),
        (l.foldl (fun v i => v.delSlot i (w.key i)) v).srv.fd = v.srv.fd ∧
          (l.foldl (fun v i => v.delSlot i (w.key i)) v).opened = v.opened := by
      intro l
      induction l with
      | nil => exact fun v => ⟨rfl, rfl⟩
      | cons i is ih => exact fun v => ih (v.delSlot i (w.key i))
    exact ⟨(hfold _ w).1, (hfold _ w).2, rfl⟩

theorem Sharing.stop (h : w.Sharing) : w.stop.Sharing := by
  obtain ⟨hfd, hopen, hs⟩ := w.stop_eq
  exact ⟨h.apart.of_eq hfd hopen, fun hst => absurd (hs.symm.trans hst) Bool.false_ne_true⟩

/-- A body that keeps the descriptors apart and the mode: so does the loop. -/
theorem Apart.startEach (body : UdpWorld → Nat → Err × UdpWorld) (mode : Bool)
    (hbody : ∀ (u : UdpWorld) i, u.Apart → u.srv.sharedFdMode = mode →
      (body u i).2.Apart ∧ (body u i).2.srv.sharedFdMode = mode)
    (l : List Nat) (h : w.Apart) (hm : w.srv.sharedFdMode = mode) :
    (UdpWorld.startEach body w l).2.Apart ∧
      ((UdpWorld.startEach body w l).2.srv.started = true →
        (UdpWorld.startEach body w l).2.srv.sharedFdMode = mode) := by
  induction l generalizing w with
  | nil => exact ⟨h.of_eq rfl rfl, fun _ => hm⟩
  | cons i is ih =>
      obtain ⟨hv, hmv⟩ := hbody w i h hm
      rw [UdpWorld.startEach]
      generalize body w i = r at hv hmv
      obtain ⟨err, v⟩ := r
      split
      · next heq =>
          cases heq
          exact ih hv hmv
      · next heq =>
          cases heq
          obtain ⟨hfd, hopen, hs⟩ := v.stop_eq
          exact ⟨hv.of_eq hfd hopen, fun hst => absurd (hs.symm.trans hst) Bool.false_ne_true⟩

/-- The loop over slots with their own descriptors. -/
theorem Apart.bindSlot (h : w.Apart) (env : UdpEnv) (i : Nat) :
    (w.bindSlot env i).2.Apart ∧ (w.bindSlot env i).2.srv.sharedFdMode = w.srv.sharedFdMode := by
  obtain ⟨hv, -⟩ := h.bindUdpEx env i
  have hmode : (w.bindUdpEx env i).2.srv.sharedFdMode = w.srv.sharedFdMode := by
    obtain ⟨fd, hsrv, -⟩ := w.closeFd_srv i
    rw [UdpWorld.bindUdpEx]
    split
    · show (w.closeFd i).srv.sharedFdMode = w.srv.sharedFdMode
      rw [hsrv]
    · rw [hsrv]
  rw [UdpWorld.bindSlot]
  generalize w.bindUdpEx env i = r at hv hmode
  obtain ⟨err, v⟩ := r
  split
  · next heq =>
      cases heq
      split
      · exact ⟨hv.of_eq rfl rfl, hmode⟩
      · exact ⟨hv.of_eq rfl rfl, hmode⟩
  · next heq =>
      cases heq
      exact ⟨hv, hmode⟩

/-- The loop over slots that share a descriptor: where the server is started in the end,
all of them are registered with it. -/
theorem startEach_shared (env : UdpEnv) (fd : Int) (l : List Nat) (hl : l.Nodup)
    (hs : w.srv.started = false) :
    ∃ err started v, UdpWorld.startEach (fun u i => u.addSlot env i fd) w l = (err, v) ∧
      v.srv = { w.srv with started := started } ∧ v.opened = w.opened ∧
      (∀ j, j ∉ l → v.pollers j = w.pollers j) ∧
      (started = true → ∀ i ∈ l, v.Registered fd i) := by
  induction l generalizing w with
  | nil => exact ⟨.ok, true, _, rfl, rfl, rfl, fun _ _ => rfl, fun _ i hi => absurd hi List.not_mem_nil⟩
  | cons i is ih =>
      rw [List.nodup_cons] at hl
      have hreg : (w.addSlot env i fd).1 = .ok → (w.addSlot env i fd).2.Registered fd i := by
        intro hok
        obtain ⟨e, he, hu⟩ := Epoll.pollerAdd_user hok
        refine ⟨e, ?_, hu⟩
        rw [UdpWorld.addSlot]
        simp only [Function.update_self]
        exact he
      have hother : ∀ j, j ≠ i → (w.addSlot env i fd).2.pollers j = w.pollers j := by
        intro j hj
        rw [UdpWorld.addSlot]
        exact Function.update_of_ne hj _ _
      have hsrv : (w.addSlot env i fd).2.srv = w.srv := rfl
      have hopen : (w.addSlot env i fd).2.opened = w.opened := rfl
      rw [UdpWorld.startEach]
      generalize w.addSlot env i fd = r at hreg hother hsrv hopen
      obtain ⟨err, u⟩ := r
      split
      · next heq =>
          cases heq
          obtain ⟨err, started, v, heq, hv, ho, hp, hr⟩ := ih hl.2 (by rw [hsrv]; exact hs)
          refine ⟨err, started, v, heq, by rw [hv, hsrv], ho.trans hopen, fun j hj => ?_,
            fun hst => List.forall_mem_cons.mpr ⟨?_, hr hst⟩⟩
          · rw [List.mem_cons, not_or] at hj
            rw [hp j hj.2, hother j hj.1]
          · obtain ⟨e, he, hu⟩ := hreg rfl
            exact ⟨e, by rw [hp i hl.1]; exact he, hu⟩
      · next heq =>
          cases heq
          have hstop : u.stop = u := stop_of_stopped (by rw [hsrv]; exact hs)
          refine ⟨_, false, u, by rw [hstop], ?_, hopen, fun j hj => ?_, fun hst => ?_⟩
          · rw [hsrv, ← hs]
          · exact hother j fun hji => hj (hji ▸ List.mem_cons_self)
          · exact absurd hst Bool.false_ne_true

/-- `ztk_udp_server_start`. -/
theorem Sharing.start (h : w.Sharing) (env : UdpEnv) : (w.start env).2.Sharing := by
  rw [UdpWorld.start]
  split
  · exact h
  · next hs =>
      rw [Bool.not_eq_true] at hs
      have hv : (w.setSrv { w.srv with sharedFdMode := w.sharing env }).Apart :=
        h.apart.of_eq rfl rfl
      cases hm : w.sharing env with
      | false =>
          rw [hm] at hv
          obtain ⟨hap, hmode⟩ := Apart.startEach (fun u i => u.bindSlot env i) false
            (fun u i hu hum => ⟨(hu.bindSlot env i).1, (hu.bindSlot env i).2.trans hum⟩)
            (List.range w.srv.slotCount) hv rfl
          exact ⟨hap, fun hst hsh => absurd ((hmode hst).symm.trans hsh) Bool.false_ne_true⟩
      | true =>
          rw [hm] at hv
          obtain ⟨hb, hpos⟩ := hv.bindUdpEx env 0
          have hbs : ((w.setSrv { w.srv with sharedFdMode := true }).bindUdpEx env 0).2.srv.started =
              false := by
            obtain ⟨fd, hsrv, -⟩ := (w.setSrv { w.srv with sharedFdMode := true }).closeFd_srv 0
            rw [UdpWorld.bindUdpEx]
            split
            · show ((w.setSrv _).closeFd 0).srv.started = false
              rw [hsrv]
              exact hs
            · rw [hsrv]
              exact hs
          rw [if_pos rfl]
          generalize (w.setSrv { w.srv with sharedFdMode := true }).bindUdpEx env 0 = r at *
          obtain ⟨err, u⟩ := r
          split
          · next heq =>
              cases heq
              obtain ⟨err, started, v, heq, hvs, ho, -, hr⟩ := startEach_shared (w := u.getLocal env)
                env ((u.getLocal env).srv.fd 0) (List.range (u.getLocal env).srv.slotCount)
                List.nodup_range hbs
              have hfd : v.srv.fd = u.srv.fd := by
                rw [hvs]
                rfl
              simp only [heq]
              refine ⟨hb.of_eq hfd ho, fun hst _ => ⟨?_, fun i hi => ?_⟩⟩
              · rw [hfd]
                exact hpos rfl
              · rw [hvs] at hst hi
                rw [hfd]
                exact hr hst i (List.mem_range.mpr hi)
          · next heq =>
              cases heq
              exact ⟨hb, fun hst => absurd (hbs.symm.trans hst) Bool.false_ne_true⟩

/-- What every run keeps. -/
theorem Sharing.leads {w₀ : UdpWorld} (h : w₀.Created)
    (hr : udpMachine.Leads Machine.Any w₀ w) : w.Sharing := by
  refine hr.invariant (I := Sharing) (fun s a t hs _ ht => ?_) ?_
  · cases ht
    cases a with
    | start env => exact hs.start env
    | stop => exact hs.stop
  · have hneg : ∀ i, ¬ 0 ≤ w₀.srv.fd i := by
      intro i
      rw [h.fds i]
      decide
    refine ⟨⟨h.nonneg, fun i hi => absurd hi (hneg i), fun i _ hi => absurd hi (hneg i)⟩, ?_⟩
    exact fun hst => absurd (h.started.symm.trans hst) Bool.false_ne_true

/-- Slot `i` of a server whose slots share a descriptor gets the event of its poller. -/
theorem Sharing.readable (h : w.Sharing) (hs : w.srv.started = true)
    (hm : w.srv.sharedFdMode = true) {i : Nat} (hi : i < w.srv.slotCount) (onPacket : Bool)
    (net : Int → UdpQueue) :
    w.readable onPacket net i (w.key i) = w.udpOnReadable onPacket net i (w.srv.fd 0) := by
  have hkey : w.key i = w.srv.fd 0 := if_pos hm
  obtain ⟨e, he, hu⟩ := (h.shared hs hm).2 i hi
  rw [hkey, UdpWorld.readable, he, Option.bind_some, hu]

/-- No other slot has the descriptor that all share. -/
theorem Sharing.fd_eq_iff (h : w.Sharing) (hs : w.srv.started = true)
    (hm : w.srv.sharedFdMode = true) (i : Nat) : w.srv.fd i = w.srv.fd 0 ↔ i = 0 := by
  constructor
  · intro hfd
    exact (h.apart.apart 0 i (h.shared hs hm).1 hfd.symm).symm
  · rintro rfl
    rfl

end UdpWorld

/-- A readable event is served: the socket is read until it has no more, and every
datagram that waits is passed on once and in order. -/
structure Served (net : Int → UdpQueue) (fd : Int) (r : Received) : Prop where
  delivered : Delivered net fd r
  last : r.last = some (net fd).ended

/-- In every run, a slot of a started server that shares a descriptor serves a readable
event exactly when it is slot 0 and there is a handler for packets. -/
theorem shared_slot_serves_iff {w₀ w : UdpWorld} (h : w₀.Created)
    (hr : udpMachine.Leads Machine.Any w₀ w) (hs : w.srv.started = true)
    (hm : w.srv.sharedFdMode = true) {i : Nat} (hi : i < w.srv.slotCount) (onPacket : Bool)
    (net : Int → UdpQueue) (hfull : ∀ d ∈ (net (w.key i)).pending, d.Full) :
    Served net (w.key i) (w.readable onPacket net i (w.key i)) ↔ i = 0 ∧ onPacket = true := by
  have hsh := UdpWorld.Sharing.leads h hr
  have hkey : w.key i = w.srv.fd 0 := if_pos hm
  rw [hsh.readable hs hm hi, hkey]
  rw [hkey] at hfull
  have hidle : ¬ Served net (w.srv.fd 0) (.idle net) := fun hserved => by
    have hlast := hserved.last
    cases hlast
  rw [UdpWorld.udpOnReadable]
  by_cases h0 : i = 0
  · rw [if_neg (not_not.mpr ((hsh.fd_eq_iff hs hm i).mpr h0))]
    cases onPacket with
    | false => exact iff_of_false hidle fun hc => Bool.false_ne_true hc.2
    | true =>
        rw [Bool.not_true, if_neg Bool.false_ne_true, if_pos hm]
        refine iff_of_true ⟨(delivered_drainSock (le_refl _) _).mpr hfull, ?_⟩ ⟨h0, rfl⟩
        rw [drainSock_last (le_refl _), if_pos hfull]
  · rw [if_pos fun hfd => h0 ((hsh.fd_eq_iff hs hm i).mp hfd)]
    exact iff_of_false hidle fun hc => h0 hc.1

/-- A datagram with a byte. -/
def oneDatagram : UdpQueue where
  pending := [⟨"192.0.2.1", 9000, [7], by decide⟩]
  ended := Err.again.code
  neg := by decide

/-- Slot 0 serves the event of its poller. -/
theorem shared_slot_serves_first :
    Served (fun _ => oneDatagram) ((startedSlots false).key 0)
      ((startedSlots false).readable true (fun _ => oneDatagram) 0 ((startedSlots false).key 0)) := by
  have hr : udpMachine.Leads Machine.Any twoSlots (startedSlots false) :=
    Machine.Leads.single (a := .start (bindingEnv false fun _ => true)) trivial rfl
  refine (shared_slot_serves_iff twoSlots_created hr ?_ ?_ ?_ true _ ?_).mpr ⟨rfl, rfl⟩
  · decide +kernel
  · decide +kernel
  · decide +kernel
  · decide

/-- Slot 1 drops the event of its poller, and the datagram stays. -/
theorem shared_slot_drops :
    ¬ Served (fun _ => oneDatagram) ((startedSlots false).key 1)
      ((startedSlots false).readable true (fun _ => oneDatagram) 1 ((startedSlots false).key 1)) := by
  intro h
  have hlast := h.last
  exact absurd hlast (by decide +kernel)

end Ztk.Net
