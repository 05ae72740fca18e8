import Ztk.Net.TcpClient

/-!
# Sends of the TCP client

`ztk_tcp_client_send` with the bytes that the socket accepts.  The loop asks the socket at
most 65 times for each byte, so it ends whatever the socket answers.  It gives up after 65
times `ZTK_ERR_AGAIN` in a row, also when a part of the payload is already accepted; the
caller is not told how much.
-/

namespace Ztk.Net

namespace TcpSend

/-- What a send returns, and what the socket accepted of the payload. -/
structure Sent where
  err : Err
  bytes : List UInt8
deriving DecidableEq

/-- The socket accepted `bytes` before. -/
def Sent.after (bytes : List UInt8) (s : Sent) : Sent := { s with bytes := bytes ++ s.bytes }

/-- The loop of `ztk_tcp_client_send`, on what the calls of `ztk_socket_send` return. -/
def sendLoop (data : List UInt8) : List Int → Nat → Nat → Option Sent
  | [], off, _ => if off < data.length then none else some ⟨.ok, []⟩
  | n :: ns, off, spin =>
      if off < data.length then
        if 0 < n then
          (sendLoop data ns (off + n.toNat) 0).map (.after ((data.drop off).take n.toNat))
        else if n = Err.again.code then
          if 64 < spin + 1 then some ⟨.again, []⟩ else sendLoop data ns off (spin + 1)
        else if n < 0 then some ⟨.ofCode n, []⟩
        else some ⟨.io, []⟩
      else some ⟨.ok, []⟩

/-- `ztk_tcp_client_send`. -/
def clientSend (c : TcpClient) (data : List UInt8) (sent : List Int) : Option Sent :=
  if !c.connected || c.closing || data = [] then some ⟨.state, []⟩ else sendLoop data sent 0 0

theorem sendLoop_err (data : List UInt8) : ∀ (sent : List Int) (off spin : Nat),
    (sendLoop data sent off spin).map Sent.err = tcpSendLoop data.length sent off spin
  | [], off, spin => by
      rw [sendLoop, tcpSendLoop]
      split <;> rfl
  | n :: ns, off, spin => by
      have hpart := sendLoop_err data ns (off + n.toNat) 0
      have hwait := sendLoop_err data ns off (spin + 1)
      rw [sendLoop, tcpSendLoop]
      split
      · split
        · rw [← hpart, Option.map_map]
          rfl
        · split
          · split
            · rfl
            · exact hwait
          · split <;> rfl
      · rfl

/-- What is returned is what `tcpClientSend` says. -/
theorem clientSend_err (c : TcpClient) (data : List UInt8) (sent : List Int) :
    (clientSend c data sent).map Sent.err = tcpClientSend c (some data) sent := by
  unfold clientSend tcpClientSend
  simp only
  split
  · rfl
  · exact sendLoop_err data sent 0 0

/-! ## How far the loop gets -/

/-- The loop takes the results `pre` and is at `off`, after `spin` times `ZTK_ERR_AGAIN`. -/
inductive Taken (len : Nat) : List Int → Nat → Nat → Prop where
  | start : Taken len [] 0 0
  | part {pre : List Int} {off spin : Nat} {n : Int} : Taken len pre off spin → off < len →
      0 < n → Taken len (pre ++ [n]) (off + n.toNat) 0
  | wait {pre : List Int} {off spin : Nat} : Taken len pre off spin → off < len → spin < 64 →
      Taken len (pre ++ [Err.again.code]) off (spin + 1)

/-- Where the loop stops. -/
inductive Stops (len off spin : Nat) : List Int → Prop where
  | done {post : List Int} : len ≤ off → Stops len off spin post
  | starved : off < len → Stops len off spin []
  | gaveUp {post : List Int} : off < len → spin = 64 → Stops len off spin (Err.again.code :: post)
  | failed {n : Int} {post : List Int} : off < len → n ≤ 0 → n ≠ Err.again.code →
      Stops len off spin (n :: post)

variable {len off spin : Nat} {pre post sent : List Int} {data : List UInt8}

namespace Taken

theorem spin_le (h : Taken len pre off spin) : spin ≤ 64 := by
  induction h with
  | start => exact Nat.zero_le _
  | part => exact Nat.zero_le _
  | wait _ _ hs _ => exact hs

/-- There are at most 65 calls for each byte. -/
theorem length_le (h : Taken len pre off spin) : pre.length ≤ 65 * off + spin := by
  induction h with
  | start => exact Nat.le_refl _
  | part h hoff hn ih =>
      have hs := h.spin_le
      rw [List.length_append, List.length_singleton]
      omega
  | wait h hoff hs ih =>
      rw [List.length_append, List.length_singleton]
      omega

/-- The loop goes on until it stops. -/
theorem stops (h : Taken len pre off spin) (post : List Int) :
    ∃ pre' post' off' spin', pre ++ post = pre' ++ post' ∧ Taken len pre' off' spin' ∧
      Stops len off' spin' post' := by
  induction post generalizing pre off spin with
  | nil =>
      rcases Nat.lt_or_ge off len with hoff | hoff
      · exact ⟨pre, [], off, spin, rfl, h, .starved hoff⟩
      · exact ⟨pre, [], off, spin, rfl, h, .done hoff⟩
  | cons n ns ih =>
      rcases Nat.lt_or_ge off len with hoff | hoff
      case inr => exact ⟨pre, n :: ns, off, spin, rfl, h, .done hoff⟩
      by_cases hn : 0 < n
      · obtain ⟨pre', post', off', spin', heq, ht, hs⟩ := ih (h.part hoff hn)
        exact ⟨pre', post', off', spin', by rw [← heq, List.append_assoc]; rfl, ht, hs⟩
      by_cases ha : n = Err.again.code
      case neg => exact ⟨pre, n :: ns, off, spin, rfl, h, .failed hoff (Int.not_lt.mp hn) ha⟩
      subst ha
      rcases Nat.lt_or_ge spin 64 with hspin | hspin
      · obtain ⟨pre', post', off', spin', heq, ht, hs⟩ := ih (h.wait hoff hspin)
        exact ⟨pre', post', off', spin', by rw [← heq, List.append_assoc]; rfl, ht, hs⟩
      · exact ⟨pre, _, off, spin, rfl, h, .gaveUp hoff (Nat.le_antisymm h.spin_le hspin)⟩

/-- The socket has the payload up to `off`. -/
theorem sendLoop_append (h : Taken data.length pre off spin) (post : List Int) :
    sendLoop data (pre ++ post) 0 0 =
      (sendLoop data post off spin).map (.after (data.take off)) := by
  induction h generalizing post with
  | start =>
      rw [List.nil_append]
      cases sendLoop data post 0 0 <;> rfl
  | part h hoff hn ih =>
      next pre off spin n =>
      rw [List.append_assoc, ih, List.singleton_append, sendLoop, if_pos hoff, if_pos hn,
        Option.map_map, List.take_add]
      congr 1
      funext s
      exact congrArg (Sent.mk s.err) (List.append_assoc _ _ _).symm
  | wait h hoff hs ih =>
      rw [List.append_assoc, ih, List.singleton_append, sendLoop, if_pos hoff,
        if_neg (by decide), if_pos rfl, if_neg (by omega)]

end Taken

/-! ## What it comes to -/

/-- The loop gives up. -/
def GivesUp (len off spin : Nat) (post : List Int) : Prop :=
  off < len ∧ spin = 64 ∧ post.head? = some Err.again.code

/-- What the loop returns where it stops. -/
theorem Stops.sendLoop (h : Stops data.length off spin post) (hp : off < data.length → post ≠ []) :
    ∃ err, sendLoop data post off spin = some ⟨err, []⟩ ∧ (err = .ok ↔ data.length ≤ off) ∧
      (err = .again ↔ GivesUp data.length off spin post) := by
  cases h with
  | done hoff =>
      have hn : ¬ off < data.length := Nat.not_lt.mpr hoff
      refine ⟨.ok, ?_, iff_of_true rfl hoff, iff_of_false Err.noConfusion fun hg => hn hg.1⟩
      cases post with
      | nil => exact if_neg hn
      | cons n ns => exact if_neg hn
  | starved hoff => exact absurd rfl (hp hoff)
  | gaveUp hoff hspin =>
      refine ⟨.again, ?_, iff_of_false Err.noConfusion (Nat.not_le.mpr hoff),
        iff_of_true rfl ⟨hoff, hspin, rfl⟩⟩
      rw [TcpSend.sendLoop, if_pos hoff, if_neg (by decide), if_pos rfl, if_pos (by omega)]
  | @failed n post hoff hn ha =>
      have hnot : ¬ GivesUp data.length off spin (n :: post) := fun hg => ha (Option.some.inj hg.2.2)
      rw [TcpSend.sendLoop, if_pos hoff, if_neg (Int.not_lt.mpr hn), if_neg ha]
      by_cases hneg : n < 0
      · rw [if_pos hneg]
        refine ⟨.ofCode n, rfl, iff_of_false ?_ (Nat.not_le.mpr hoff), iff_of_false ?_ hnot⟩
        · intro hok
          rw [Err.ofCode_eq_ok.mp hok] at hneg
          exact absurd hneg (by decide)
        · intro hag
          exact ha (by rw [← hag, Err.code_ofCode])
      · rw [if_neg hneg]
        exact ⟨.io, rfl, iff_of_false Err.noConfusion (Nat.not_le.mpr hoff),
          iff_of_false Err.noConfusion hnot⟩

/-- The sum of what was accepted. -/
def accepted (pre : List Int) : Nat := (pre.map Int.toNat).sum

/-- The socket takes a part of the payload, and between the parts says `ZTK_ERR_AGAIN` less
than 65 times in a row. -/
structure Going (len : Nat) (pre : List Int) : Prop where
  each : ∀ n ∈ pre, 0 < n ∨ n = Err.again.code
  part : accepted pre < len
  spins : ¬ List.replicate 65 Err.again.code <:+: pre

/-- After a part of the payload the socket says `ZTK_ERR_AGAIN` 65 times in a row. -/
def Stalls (len : Nat) (sent : List Int) : Prop :=
  ∃ pre, pre ++ List.replicate 65 Err.again.code <+: sent ∧ Going len pre ∧ ∃ n ∈ pre, 0 < n

/-- The `ZTK_ERR_AGAIN` at the end of the results are counted. -/
theorem Taken.suffix (h : Taken len pre off spin) (k : Nat) :
    List.replicate k Err.again.code <:+ pre ↔ k ≤ spin := by
  induction h generalizing k with
  | start => simp
  | part h hoff hn ih =>
      next pre off spin n =>
      cases k with
      | zero => simp
      | succ k =>
          have hne : Err.again.code ≠ n := fun he => absurd (he ▸ hn) (by decide)
          rw [List.replicate_succ', List.suffix_concat_iff]
          simp [hne]
  | wait h hoff hs ih =>
      cases k with
      | zero => simp
      | succ k =>
          rw [List.replicate_succ', List.suffix_concat_iff]
          simp [ih]

theorem accepted_concat (pre : List Int) (n : Int) : accepted (pre ++ [n]) = accepted pre + n.toNat := by
  simp [accepted]

theorem Taken.going (h : Taken len pre off spin) :
    (∀ n ∈ pre, 0 < n ∨ n = Err.again.code) ∧ accepted pre = off ∧
      ¬ List.replicate 65 Err.again.code <:+: pre := by
  have hspins : ∀ {pre off spin}, Taken len pre off spin →
      ¬ List.replicate 65 Err.again.code <:+ pre := fun h hs => by
    have := (h.suffix 65).mp hs
    have := h.spin_le
    omega
  induction h with
  | start => simp [accepted]
  | part h hoff hn ih =>
      refine ⟨?_, ?_, ?_⟩
      · rw [List.forall_mem_append, List.forall_mem_singleton]
        exact ⟨ih.1, Or.inl hn⟩
      · rw [accepted_concat, ih.2.1]
      · rw [List.infix_concat_iff, not_or]
        exact ⟨hspins (h.part hoff hn), ih.2.2⟩
  | wait h hoff hs ih =>
      refine ⟨?_, ?_, ?_⟩
      · rw [List.forall_mem_append, List.forall_mem_singleton]
        exact ⟨ih.1, Or.inr rfl⟩
      · rw [accepted_concat, ih.2.1]
        rfl
      · rw [List.infix_concat_iff, not_or]
        exact ⟨hspins (h.wait hoff hs), ih.2.2⟩

/-- Results that let the loop go on are taken. -/
theorem Going.taken (h : Going len pre) : ∃ spin, Taken len pre (accepted pre) spin := by
  induction pre using List.reverseRecOn with
  | nil => exact ⟨0, .start⟩
  | append_singleton pre n ih =>
      have hpart := h.part
      have heach := h.each
      have hspins := h.spins
      rw [accepted_concat] at hpart ⊢
      rw [List.forall_mem_append, List.forall_mem_singleton] at heach
      rw [List.infix_concat_iff, not_or] at hspins
      obtain ⟨spin, ht⟩ := ih ⟨heach.1, by omega, hspins.2⟩
      rcases heach.2 with hn | rfl
      · exact ⟨0, ht.part (by omega) hn⟩
      · refine ⟨spin + 1, ht.wait (by omega) ?_⟩
        by_contra hge
        refine hspins.1 ?_
        rw [List.replicate_succ', List.suffix_concat_iff]
        exact Or.inr ⟨_, rfl, (ht.suffix 64).mpr (by omega)⟩

/-- The loop waits as long as it may. -/
theorem Taken.waits (h : Taken len pre off spin) (hoff : off < len) : ∀ k, spin + k ≤ 64 →
    Taken len (pre ++ List.replicate k Err.again.code) off (spin + k)
  | 0, _ => by rwa [List.replicate_zero, List.append_nil]
  | k + 1, hk => by
      rw [List.replicate_succ', ← List.append_assoc]
      exact (h.waits hoff k (by omega)).wait hoff (by omega)

theorem exists_pos_iff (pre : List Int) : (∃ n ∈ pre, 0 < n) ↔ 0 < accepted pre := by
  induction pre with
  | nil => simp [accepted]
  | cons n pre ih =>
      have hc : accepted (n :: pre) = n.toNat + accepted pre := by simp [accepted]
      rw [hc, List.exists_mem_cons_iff, ih]
      omega

theorem Taken.stalls (h : Taken len pre off spin) (hg : GivesUp len off spin post)
    (hpos : 0 < off) : Stalls len (pre ++ post) := by
  obtain ⟨hoff, rfl, hhead⟩ := hg
  obtain ⟨heach, hacc, hspins⟩ := h.going
  obtain ⟨ns, rfl⟩ := List.head?_eq_some_iff.mp hhead
  obtain ⟨pre', rfl⟩ := (h.suffix 64).mpr (Nat.le_refl _)
  have hacc' : accepted pre' = off := by
    rw [← hacc]
    simp [accepted, Err.code]
  refine ⟨pre', ⟨ns, ?_⟩, ⟨fun n hn => heach n (List.mem_append_left _ hn), hacc'.trans_lt hoff,
    fun hi => hspins (hi.trans (List.prefix_append _ _).isInfix)⟩, ?_⟩
  · rw [List.replicate_succ', ← List.append_assoc, List.append_assoc, List.singleton_append]
  · rw [exists_pos_iff, hacc']
    exact hpos

/-- When the results stall the send is given up, with a part of the payload accepted. -/
theorem Stalls.sendLoop (h : Stalls data.length sent) :
    ∃ off, sendLoop data sent 0 0 = some ⟨.again, data.take off⟩ ∧ 0 < off ∧ off < data.length := by
  obtain ⟨pre, ⟨post, rfl⟩, hg, hpos⟩ := h
  obtain ⟨spin, ht⟩ := hg.taken
  have hle := ht.spin_le
  have hoff := hg.part
  refine ⟨accepted pre, ?_, (exists_pos_iff pre).mp hpos, hoff⟩
  -- of the 65 the first ones bring the count to 64
  have hsplit : List.replicate 65 Err.again.code =
      List.replicate (64 - spin) Err.again.code ++
        Err.again.code :: List.replicate spin Err.again.code := by
    rw [← List.replicate_succ, List.replicate_append_replicate]
    congr 1
    omega
  have hw := ht.waits hoff (64 - spin) (by omega)
  rw [Nat.add_sub_cancel' hle] at hw
  rw [hsplit, ← List.append_assoc, List.append_assoc, List.cons_append, hw.sendLoop_append,
    TcpSend.sendLoop, if_pos hoff, if_neg (by decide), if_pos rfl, if_pos (by omega)]
  exact congrArg (fun bytes => some (Sent.mk .again bytes)) (List.append_nil _)

/-- A send ends however the socket answers, with the result that `tcpClientSend` has, and what
was accepted is a part of the payload.  It is all or nothing exactly when there is something to send, and the socket does not take a
part and then say `ZTK_ERR_AGAIN` 65 times in a row. -/
theorem tcp_send_all_or_nothing_iff {c : TcpClient} (hc : tcpClientIsConnected c = true)
    (data : List UInt8) {sent : List Int} (hlen : 65 * data.length ≤ sent.length) :
    ∃ s, clientSend c data sent = some s ∧ tcpClientSend c (some data) sent = some s.err ∧
      s.bytes <+: data ∧
      ((s.err = .ok ↔ s.bytes = data) ∧ (s.err = .again → s.bytes = []) ↔
        data ≠ [] ∧ ¬ Stalls data.length sent) := by
  have herr : ∀ {s}, clientSend c data sent = some s →
      tcpClientSend c (some data) sent = some s.err := by
    intro s hs
    rw [← clientSend_err, hs]
    rfl
  obtain ⟨hcon, hclos⟩ : c.connected = true ∧ c.closing = false := by
    simpa [tcpClientIsConnected] using hc
  by_cases hdata : data = []
  · have hstate : clientSend c data sent = some ⟨.state, []⟩ := by simp [clientSend, hdata]
    refine ⟨_, hstate, herr hstate, List.nil_prefix, iff_of_false ?_ ?_⟩
    · exact fun hn => Err.noConfusion (hn.1.mpr hdata.symm)
    · exact fun hn => hn.1 hdata
  have hsend : clientSend c data sent = sendLoop data sent 0 0 := by
    simp [clientSend, hcon, hclos, hdata]
  obtain ⟨pre, post, off, spin, heq, ht, hs⟩ :=
    (Taken.start : Taken data.length [] 0 0).stops sent
  rw [List.nil_append] at heq
  subst heq
  have hpost : off < data.length → post ≠ [] := by
    rintro hoff rfl
    have := ht.length_le
    have := ht.spin_le
    rw [List.append_nil] at hlen
    omega
  obtain ⟨err, hret, hok, hagain⟩ := hs.sendLoop hpost
  have hloop : sendLoop data (pre ++ post) 0 0 = some ⟨err, data.take off⟩ := by
    rw [ht.sendLoop_append, hret]
    exact congrArg (fun bytes => some (Sent.mk err bytes)) (List.append_nil _)
  refine ⟨_, hsend.trans hloop, herr (hsend.trans hloop), List.take_prefix _ _, ?_⟩
  simp only [hdata, not_false_eq_true, ne_eq, true_and, hok, List.take_eq_self_iff,
    List.take_eq_nil_iff, or_false]
  constructor
  · intro hag hst
    obtain ⟨off', hloop', hpos, hlt⟩ := hst.sendLoop
    rw [hloop, Option.some.injEq, Sent.mk.injEq] at hloop'
    have h0 := hag hloop'.1
    have hlen' := congrArg List.length hloop'.2
    rw [List.length_take, List.length_take, h0] at hlen'
    omega
  · intro hst herr
    by_contra h0
    exact hst (ht.stalls (hagain.mp herr) (Nat.pos_of_ne_zero h0))

/-- A client that connected at once. -/
def connectedClient : TcpClient :=
  (tcpClientConnect tcpClientCreate (some [104]) ⟨.ok, 5, false⟩ .ok).2

theorem tcp_send_all_or_nothing_two :
    ∃ s, clientSend connectedClient [1, 2] (List.replicate 130 1) = some s ∧
      tcpClientSend connectedClient (some [1, 2]) (List.replicate 130 1) = some s.err ∧
      s.bytes <+: [1, 2] ∧
      ((s.err = .ok ↔ s.bytes = [1, 2]) ∧ (s.err = .again → s.bytes = []) ↔
        [1, 2] ≠ ([] : List UInt8) ∧ ¬ Stalls 2 (List.replicate 130 1)) :=
  tcp_send_all_or_nothing_iff (by decide) [1, 2] (by simp)

/-- One of two bytes is accepted, and the caller is told to send both again. -/
theorem tcp_send_all_or_nothing_fails :
    tcpClientIsConnected connectedClient = true ∧
      clientSend connectedClient [1, 2] (1 :: List.replicate 65 Err.again.code) =
        some ⟨.again, [1]⟩ := by
  decide

end TcpSend

end Ztk.Net
