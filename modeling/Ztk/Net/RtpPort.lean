import Ztk.Err
import Ztk.Lib.Custody
import Ztk.Lib.Machine

/-!
# RTP port pools

`rtp_port.c`.  A pool keeps the even ports of a range on an array used as a
stack; `ztk_rtp_port_pool_acquire` takes the top one and hands it out with the odd
port above it, and `ztk_rtp_port_pool_release` pushes a port back.  The array grows in
`pool_push` only, and `realloc` may fail whenever it is called.

A run keeps beside the pool the RTP ports that are held: handed out and not
released since.
-/

namespace Ztk.Net

open Ztk.Lib

/-! ## The pool -/

/-- `struct ztk_rtp_port_pool`. -/
structure RtpPortPool where
  rangeStart : UInt16
  rangeEnd : UInt16
  /-- `free_ports[0..free_count)`. -/
  freePorts : List UInt16
  freeCap : Nat
deriving DecidableEq

/-- `ztk_rtp_port_pool_opts_t`. -/
structure RtpPortPoolOpts where
  rangeStart : UInt16
  rangeEnd : UInt16

namespace RtpPortPool

/-- `ZTK_RTP_PORT_DEFAULT_START`. -/
def defaultStart : UInt16 := 30000

/-- `ZTK_RTP_PORT_DEFAULT_END`. -/
def defaultEnd : UInt16 := 39998

/-- `port_valid`. -/
def portValid (p start last : UInt16) : Bool :=
  start ≤ p && p ≤ last && p &&& 1 == 0

/-- `pool_push`, where `realloc` succeeds or fails if it is called. -/
def poolPush (pool : RtpPortPool) (port : UInt16) (realloc : Bool) : Bool × RtpPortPool :=
  if pool.freePorts.length < pool.freeCap then
    (true, { pool with freePorts := pool.freePorts ++ [port] })
  else if realloc then
    (true, { pool with
      freePorts := pool.freePorts ++ [port]
      freeCap := if pool.freeCap = 0 then 64 else pool.freeCap * 2 % 2 ^ 32 })
  else (false, pool)

/-- `pool_pop`. -/
def poolPop (pool : RtpPortPool) : Option (UInt16 × RtpPortPool) :=
  match pool.freePorts.getLast? with
  | none => none
  | some port => some (port, { pool with freePorts := pool.freePorts.dropLast })

/-- The values of `p` in the loop of `ztk_rtp_port_pool_create`, from `start` to `end` in
steps of two. -/
def rangePorts (start last : UInt16) : List UInt16 :=
  (List.range' start.toNat ((last.toNat - start.toNat) / 2 + 1) 2).map UInt16.ofNat

/-- The loop of `ztk_rtp_port_pool_create`; `realloc p` says whether a call made for `p`
succeeds. -/
def pushAll (realloc : UInt16 → Bool) : RtpPortPool → List UInt16 → Option RtpPortPool
  | pool, [] => some pool
  | pool, p :: ps =>
      match pool.poolPush p (realloc p) with
      | (true, pool') => pushAll realloc pool' ps
      | (false, _) => none

/-- `start` and `end` in `ztk_rtp_port_pool_create`: a zero field means the default. -/
def rangeOf : Option RtpPortPoolOpts → UInt16 × UInt16
  | none => (defaultStart, defaultEnd)
  | some opts =>
      (if opts.rangeStart ≠ 0 then opts.rangeStart else defaultStart,
        if opts.rangeEnd ≠ 0 then opts.rangeEnd else defaultEnd)

/-- `ztk_rtp_port_pool_create`. -/
def create (opts : Option RtpPortPoolOpts) (calloc : Bool) (realloc : UInt16 → Bool) :
    Option RtpPortPool :=
  let (start, last) := rangeOf opts
  if start &&& 1 ≠ 0 ∨ last &&& 1 ≠ 0 ∨ last < start then none
  else if calloc then pushAll realloc ⟨start, last, [], 0⟩ (rangePorts start last)
  else none

/-- `ztk_rtp_port_pool_acquire`; `rtp` and `rtcp` say which of the result pointers are
given. -/
def acquire (pool : RtpPortPool) (rtp rtcp : Bool) : Err × Option (UInt16 × UInt16) × RtpPortPool :=
  if !rtp || !rtcp then (.invalid, none, pool)
  else
    match pool.poolPop with
    | none => (.nomem, none, pool)
    | some (port, pool') => (.ok, some (port, port + 1), pool')

/-- `ztk_rtp_port_pool_release`. -/
def release (pool : RtpPortPool) (port : UInt16) (realloc : Bool) : RtpPortPool :=
  if portValid port pool.rangeStart pool.rangeEnd then (pool.poolPush port realloc).2 else pool

/-- `ztk_rtp_port_pool_free_count`. -/
def freeCount (pool : RtpPortPool) : Nat := pool.freePorts.length

end RtpPortPool

/-! ## The ports of a range -/

/-- An even port from `start` to `last`. -/
def EvenIn (start last p : UInt16) : Prop :=
  start ≤ p ∧ p ≤ last ∧ p.toNat % 2 = 0

instance (start last p : UInt16) : Decidable (EvenIn start last p) :=
  inferInstanceAs (Decidable (_ ∧ _ ∧ _))

namespace RtpPortPool

theorem and_one_eq_zero {p : UInt16} : p &&& 1 = 0 ↔ p.toNat % 2 = 0 := by
  rw [← UInt16.toNat_inj, UInt16.toNat_and]
  exact Iff.of_eq (congrArg (· = 0) (Nat.and_one_is_mod p.toNat))

theorem portValid_iff {p start last : UInt16} :
    portValid p start last = true ↔ EvenIn start last p := by
  rw [portValid, Bool.and_eq_true, Bool.and_eq_true, decide_eq_true_eq, decide_eq_true_eq,
    beq_iff_eq, and_one_eq_zero, and_assoc]
  exact Iff.rfl

theorem le_of_mem_range {start last : UInt16} {n : Nat} (hle : start ≤ last)
    (hn : n ∈ List.range' start.toNat ((last.toNat - start.toNat) / 2 + 1) 2) :
    n ≤ last.toNat := by
  obtain ⟨i, hi, rfl⟩ := List.mem_range'.mp hn
  rw [UInt16.le_iff_toNat_le] at hle
  omega

/-- The cast of the loop variable loses nothing. -/
theorem toNat_ofNat_of_le {last : UInt16} {n : Nat} (h : n ≤ last.toNat) :
    (UInt16.ofNat n).toNat = n :=
  UInt16.toNat_ofNat_of_lt' (Nat.lt_of_le_of_lt h last.toNat_lt)

theorem mem_rangePorts {start last p : UInt16} (hle : start ≤ last)
    (hstart : start.toNat % 2 = 0) : p ∈ rangePorts start last ↔ EvenIn start last p := by
  rw [rangePorts, List.mem_map]
  constructor
  · rintro ⟨n, hn, rfl⟩
    have hlast := le_of_mem_range hle hn
    obtain ⟨i, hi, rfl⟩ := List.mem_range'.mp hn
    rw [EvenIn, UInt16.le_iff_toNat_le, UInt16.le_iff_toNat_le, toNat_ofNat_of_le hlast]
    refine ⟨Nat.le_add_right _ _, hlast, ?_⟩
    omega
  · rintro ⟨h1, h2, h3⟩
    rw [UInt16.le_iff_toNat_le] at h1 h2
    refine ⟨p.toNat, List.mem_range'.mpr ⟨(p.toNat - start.toNat) / 2, ?_, ?_⟩, ?_⟩
    · omega
    · omega
    · exact UInt16.ofNat_toNat

theorem rangePorts_nodup {start last : UInt16} (hle : start ≤ last) :
    (rangePorts start last).Nodup := by
  refine List.Nodup.map_on ?_ (List.nodup_range' 2)
  intro m hm n hn h
  have hval := congrArg UInt16.toNat h
  rwa [toNat_ofNat_of_le (le_of_mem_range hle hm), toNat_ofNat_of_le (le_of_mem_range hle hn)]
    at hval

theorem rangePorts_length (start last : UInt16) :
    (rangePorts start last).length = (last.toNat - start.toNat) / 2 + 1 := by
  rw [rangePorts, List.length_map, List.length_range']

theorem ncard_evenIn {start last : UInt16} (hle : start ≤ last) (hstart : start.toNat % 2 = 0) :
    Set.ncard {p | EvenIn start last p} = (rangePorts start last).length := by
  have hset : {p | EvenIn start last p} = ((rangePorts start last).toFinset : Set UInt16) := by
    ext p
    rw [Set.mem_ofPred_eq, List.coe_toFinset, Set.mem_ofPred_eq, mem_rangePorts hle hstart]
  rw [hset, Set.ncard_coe_finset, List.toFinset_card_of_nodup (rangePorts_nodup hle)]

theorem rangePorts_length_le (start last : UInt16) :
    (rangePorts start last).length ≤ 2 ^ 15 := by
  have hlt := last.toNat_lt
  rw [rangePorts_length]
  omega

/-! ## Creation -/

/-- The array holds what is on it, and was not doubled without need. -/
def Fits (pool : RtpPortPool) : Prop :=
  pool.freePorts.length ≤ pool.freeCap ∧ pool.freeCap ≤ max 64 (2 * pool.freePorts.length)

theorem poolPush_of_room {pool : RtpPortPool} (port : UInt16) (realloc : Bool)
    (h : pool.freePorts.length < pool.freeCap) :
    pool.poolPush port realloc = (true, { pool with freePorts := pool.freePorts ++ [port] }) := by
  rw [poolPush, if_pos h]

theorem poolPush_true {pool pool' : RtpPortPool} {port : UInt16} {realloc : Bool}
    (h : pool.poolPush port realloc = (true, pool')) :
    pool'.rangeStart = pool.rangeStart ∧ pool'.rangeEnd = pool.rangeEnd ∧
      pool'.freePorts = pool.freePorts ++ [port] := by
  rw [poolPush] at h
  split at h
  · cases h
    exact ⟨rfl, rfl, rfl⟩
  · split at h
    · cases h
      exact ⟨rfl, rfl, rfl⟩
    · cases h

/-- The capacity of a pool that holds no more than a range has ports stays far below
the largest `unsigned`. -/
theorem Fits.push {pool pool' : RtpPortPool} {port : UInt16} {realloc : Bool} (hfits : pool.Fits)
    (hlen : pool.freePorts.length ≤ 2 ^ 15) (h : pool.poolPush port realloc = (true, pool')) :
    pool'.Fits := by
  obtain ⟨hle, hmax⟩ := hfits
  rw [poolPush] at h
  split at h
  · next hroom =>
    cases h
    refine ⟨?_, ?_⟩
    · simp only [List.length_append, List.length_singleton]
      omega
    · simp only [List.length_append, List.length_singleton]
      omega
  · next hfull =>
    split at h
    · cases h
      have hmod : pool.freeCap * 2 % 2 ^ 32 = pool.freeCap * 2 := Nat.mod_eq_of_lt (by omega)
      simp only [Fits, List.length_append, List.length_singleton, hmod]
      split <;> omega
    · cases h

theorem pushAll_some {realloc : UInt16 → Bool} {pool' : RtpPortPool} :
    ∀ {ps : List UInt16} {pool : RtpPortPool}, pushAll realloc pool ps = some pool' →
      pool.Fits → pool.freePorts.length + ps.length ≤ 2 ^ 15 →
      pool'.rangeStart = pool.rangeStart ∧ pool'.rangeEnd = pool.rangeEnd ∧
        pool'.freePorts = pool.freePorts ++ ps ∧ pool'.Fits
  | [], pool, h, hfits, _ => by
      cases h
      exact ⟨rfl, rfl, (List.append_nil _).symm, hfits⟩
  | p :: ps, pool, h, hfits, hlen => by
      rw [List.length_cons] at hlen
      rw [pushAll] at h
      split at h
      · next mid hpush =>
        obtain ⟨hs, he, hf⟩ := poolPush_true hpush
        have hmid : mid.freePorts.length + ps.length ≤ 2 ^ 15 := by
          rw [hf, List.length_append, List.length_singleton]
          omega
        obtain ⟨hs', he', hf', hfits'⟩ := pushAll_some h (hfits.push (by omega) hpush) hmid
        refine ⟨hs'.trans hs, he'.trans he, ?_, hfits'⟩
        rw [hf', hf, List.append_assoc, List.singleton_append]
      · cases h

/-- A pool that is created has an even range, with every port of it free. -/
theorem create_some {opts : Option RtpPortPoolOpts} {calloc : Bool} {realloc : UInt16 → Bool}
    {pool : RtpPortPool} (h : create opts calloc realloc = some pool) :
    pool.rangeStart ≤ pool.rangeEnd ∧ pool.rangeStart.toNat % 2 = 0 ∧
      pool.freePorts = rangePorts pool.rangeStart pool.rangeEnd ∧
      pool.freePorts.length ≤ pool.freeCap := by
  simp only [create] at h
  generalize (rangeOf opts).1 = start at h
  generalize (rangeOf opts).2 = last at h
  split at h
  · cases h
  · next hok =>
    rw [not_or, not_or, not_not, not_not, UInt16.not_lt] at hok
    obtain ⟨heven, -, hle⟩ := hok
    split at h
    · obtain ⟨hs, he, hf, hfits⟩ := pushAll_some h ⟨Nat.le_refl _, Nat.zero_le _⟩
        ((Nat.zero_add _).trans_le (rangePorts_length_le _ _))
      rw [List.nil_append] at hf
      rw [hs, he]
      exact ⟨hle, and_one_eq_zero.mp heven, hf, hfits.1⟩
    · cases h

theorem release_of_room {pool : RtpPortPool} {port : UInt16} (realloc : Bool)
    (hroom : pool.freePorts.length < pool.freeCap)
    (hvalid : EvenIn pool.rangeStart pool.rangeEnd port) :
    pool.release port realloc = { pool with freePorts := pool.freePorts ++ [port] } := by
  rw [release, if_pos (portValid_iff.mpr hvalid), poolPush_of_room port realloc hroom]

theorem release_of_invalid {pool : RtpPortPool} {port : UInt16} (realloc : Bool)
    (hvalid : ¬ EvenIn pool.rangeStart pool.rangeEnd port) :
    pool.release port realloc = pool := by
  rw [release, if_neg fun h => hvalid (portValid_iff.mp h)]

/-- A release takes nothing off the array. -/
theorem mem_release {pool : RtpPortPool} (port : UInt16) (realloc : Bool) {q : UInt16}
    (hq : q ∈ pool.freePorts) : q ∈ (pool.release port realloc).freePorts := by
  rw [release, poolPush]
  split
  · split
    · exact List.mem_append_left _ hq
    · split
      · exact List.mem_append_left _ hq
      · exact hq
  · exact hq

/-- What a call of `ztk_rtp_port_pool_acquire` does. -/
theorem acquire_cases (pool : RtpPortPool) (rtp rtcp : Bool) :
    ((rtp && rtcp) = false ∧ pool.acquire rtp rtcp = (.invalid, none, pool)) ∨
    ((rtp && rtcp) = true ∧ pool.freePorts = [] ∧ pool.acquire rtp rtcp = (.nomem, none, pool)) ∨
    ∃ ports port, (rtp && rtcp) = true ∧ pool.freePorts = ports ++ [port] ∧
      pool.acquire rtp rtcp =
        (.ok, some (port, port + 1), { pool with freePorts := ports }) := by
  rw [acquire]
  cases hgiven : rtp && rtcp with
  | false =>
      refine .inl ⟨rfl, if_pos ?_⟩
      rw [← Bool.not_and, hgiven]
      rfl
  | true =>
      refine .inr ?_
      rw [if_neg (by rw [← Bool.not_and, hgiven]; decide), poolPop]
      rcases List.eq_nil_or_concat pool.freePorts with hnil | ⟨ports, port, hports⟩
      · rw [hnil]
        exact .inl ⟨rfl, rfl, rfl⟩
      · rw [List.concat_eq_append] at hports
        rw [hports, List.getLast?_concat, List.dropLast_concat]
        exact .inr ⟨ports, port, rfl, rfl, rfl⟩

/-- The call fails for want of ports exactly when none is free. -/
theorem acquire_nomem_iff (pool : RtpPortPool) (rtp rtcp : Bool) :
    (pool.acquire rtp rtcp).1 = .nomem ↔ (rtp && rtcp) = true ∧ pool.freePorts = [] := by
  rcases acquire_cases pool rtp rtcp with ⟨hf, h⟩ | ⟨ht, hnil, h⟩ | ⟨ports, port, -, hports, h⟩
  · rw [h, hf]
    exact iff_of_false (fun hc => by cases hc) fun hc => by cases hc.1
  · rw [h]
    exact iff_of_true rfl ⟨ht, hnil⟩
  · rw [h, hports]
    exact iff_of_false (fun hc => by cases hc) fun hc =>
      List.append_ne_nil_of_right_ne_nil _ (List.cons_ne_nil _ _) hc.2

/-- What is handed out is the last free port, and the port above it. -/
theorem acquire_some {pool pool' : RtpPortPool} {rtp rtcp : Bool} {err : Err} {port above : UInt16}
    (h : pool.acquire rtp rtcp = (err, some (port, above), pool')) :
    err = .ok ∧ above = port + 1 ∧ port ∈ pool.freePorts := by
  rcases acquire_cases pool rtp rtcp with ⟨-, hc⟩ | ⟨-, -, hc⟩ | ⟨ports, p, -, hports, hc⟩
  · rw [hc] at h
    cases h
  · rw [hc] at h
    cases h
  · rw [hc] at h
    cases h
    exact ⟨rfl, rfl, by rw [hports]; exact List.mem_append_right _ (List.mem_singleton_self _)⟩

end RtpPortPool

/-! ## Runs -/

/-- A pool and the RTP ports that are held. -/
structure PortRun where
  pool : RtpPortPool
  held : List UInt16
deriving DecidableEq

/-- A call on a pool. -/
inductive PortCall where
  /-- `ztk_rtp_port_pool_acquire`. -/
  | acquire (rtp rtcp : Bool)
  /-- `ztk_rtp_port_pool_release`, where `realloc` succeeds or fails if it is called. -/
  | release (port : UInt16) (realloc : Bool)
deriving DecidableEq

namespace PortRun

/-- One call. -/
def step (s : PortRun) : PortCall → PortRun
  | .acquire rtp rtcp =>
      match s.pool.acquire rtp rtcp with
      | (_, some (port, _), pool') => ⟨pool', port :: s.held⟩
      | (_, none, pool') => ⟨pool', s.held⟩
  | .release port realloc => ⟨s.pool.release port realloc, s.held.erase port⟩

/-- Only held ports are released, and ports the pool does not deal in. -/
def ReleasesHeld (s : PortRun) : PortCall → Prop
  | .acquire _ _ => True
  | .release port _ => port ∈ s.held ∨ ¬ EvenIn s.pool.rangeStart s.pool.rangeEnd port

/-- No port is released that is free. -/
def NoDoubleRelease (s : PortRun) : PortCall → Prop
  | .acquire _ _ => True
  | .release port _ => port ∉ s.pool.freePorts

instance (s : PortRun) : ∀ a, Decidable (s.ReleasesHeld a)
  | .acquire _ _ => isTrue trivial
  | .release _ _ => inferInstanceAs (Decidable (_ ∨ ¬ _))

instance (s : PortRun) : ∀ a, Decidable (s.NoDoubleRelease a)
  | .acquire _ _ => isTrue trivial
  | .release _ _ => inferInstanceAs (Decidable (_ ∉ _))

/-- The ports of the range are free or held, and the array has room for all of them. -/
structure Sound (start last : UInt16) (s : PortRun) : Prop where
  start_eq : s.pool.rangeStart = start
  last_eq : s.pool.rangeEnd = last
  custody : Custody (RtpPortPool.rangePorts start last) s.pool.freePorts s.held
  room : (RtpPortPool.rangePorts start last).length ≤ s.pool.freeCap

end PortRun

/-- Pools in use. -/
def portMachine : Machine PortRun PortCall where
  step s a := some (s.step a)

namespace PortRun

variable {start last : UInt16} {s t : PortRun}

theorem Sound.mem_held_iff (hle : start ≤ last) (heven : start.toNat % 2 = 0)
    (h : Sound start last s) {port : UInt16} :
    port ∈ s.held ↔ EvenIn start last port ∧ port ∉ s.pool.freePorts := by
  rw [h.custody.mem_held_iff, RtpPortPool.mem_rangePorts hle heven]

theorem Sound.step (hle : start ≤ last) (heven : start.toNat % 2 = 0) (h : Sound start last s)
    (a : PortCall) (hc : NoDoubleRelease s a) : Sound start last (s.step a) := by
  cases a with
  | acquire rtp rtcp =>
      rw [PortRun.step]
      rcases RtpPortPool.acquire_cases s.pool rtp rtcp with
        ⟨-, ha⟩ | ⟨-, -, ha⟩ | ⟨ports, port, -, hports, ha⟩
      · rw [ha]
        exact h
      · rw [ha]
        exact h
      · rw [ha]
        have hcust := h.custody
        rw [hports] at hcust
        exact ⟨h.start_eq, h.last_eq, hcust.take, h.room⟩
  | release port realloc =>
      rw [PortRun.step]
      by_cases hvalid : EvenIn start last port
      · have hheld : port ∈ s.held := (h.mem_held_iff hle heven).mpr ⟨hvalid, hc⟩
        have hroom := Nat.lt_of_lt_of_le (h.custody.shelf_length_lt hheld) h.room
        rw [RtpPortPool.release_of_room realloc hroom (by rwa [h.start_eq, h.last_eq])]
        exact ⟨h.start_eq, h.last_eq, h.custody.give hheld, h.room⟩
      · have hfree : port ∉ s.held := fun hh => hvalid ((h.mem_held_iff hle heven).mp hh).1
        rw [RtpPortPool.release_of_invalid realloc (by rwa [h.start_eq, h.last_eq]),
          List.erase_of_not_mem hfree]
        exact h

theorem Sound.created {pool : RtpPortPool}
    (hfree : pool.freePorts = RtpPortPool.rangePorts pool.rangeStart pool.rangeEnd)
    (hle : pool.rangeStart ≤ pool.rangeEnd) (hcap : pool.freePorts.length ≤ pool.freeCap) :
    Sound pool.rangeStart pool.rangeEnd ⟨pool, []⟩ := by
  refine ⟨rfl, rfl, ?_, ?_⟩
  · dsimp only
    rw [hfree]
    exact Custody.start (RtpPortPool.rangePorts_nodup hle)
  · rwa [← hfree]

theorem Sound.run (hle : start ≤ last) (heven : start.toNat % 2 = 0) (h : Sound start last s)
    (hrun : portMachine.Leads NoDoubleRelease s t) : Sound start last t := by
  refine hrun.invariant (fun u a v hu hc hst => ?_) h
  cases hst
  exact hu.step hle heven a hc

/-- While the ports are in custody, who releases held ports only releases none twice. -/
theorem Sound.noDoubleRelease (hle : start ≤ last) (heven : start.toNat % 2 = 0)
    (h : Sound start last s) {a : PortCall} (hc : ReleasesHeld s a) : NoDoubleRelease s a := by
  cases a with
  | acquire rtp rtcp => exact trivial
  | release port realloc =>
      rcases hc with hheld | hbad
      · exact ((h.mem_held_iff hle heven).mp hheld).2
      · intro hfree
        rw [h.start_eq, h.last_eq] at hbad
        exact hbad ((RtpPortPool.mem_rangePorts hle heven).mp
          (h.custody.mem_iff.mp (.inl hfree)))

theorem Sound.run_releasesHeld (hle : start ≤ last) (heven : start.toNat % 2 = 0)
    (h : Sound start last s) (hrun : portMachine.Leads ReleasesHeld s t) : Sound start last t := by
  refine hrun.invariant (fun u a v hu hc hst => ?_) h
  cases hst
  exact hu.step hle heven a (hu.noDoubleRelease hle heven hc)

end PortRun

/-! ## RTCP ports -/

namespace RtpPortPool

/-- The port above an even one is a port. -/
theorem toNat_add_one {p : UInt16} (h : p.toNat % 2 = 0) : (p + 1).toNat = p.toNat + 1 := by
  have hlt := p.toNat_lt
  have hone : (1 : UInt16).toNat = 1 := rfl
  rw [UInt16.toNat_add, hone]
  exact Nat.mod_eq_of_lt (by omega)

/-- The pairs of two even ports share no number. -/
theorem pairs_disjoint {p q : UInt16} (hp : p.toNat % 2 = 0) (hq : q.toNat % 2 = 0)
    (hne : p ≠ q) : List.Disjoint [p, p + 1] [q, q + 1] := by
  have hne' : p.toNat ≠ q.toNat := fun h => hne (UInt16.toNat_inj.mp h)
  have hp' := toNat_add_one hp
  have hq' := toNat_add_one hq
  intro x hxp hxq
  simp only [List.mem_cons, List.not_mem_nil, or_false] at hxp hxq
  rcases hxp with rfl | rfl <;> rcases hxq with h | h
  · exact hne h
  · rw [h] at hp
    omega
  · rw [← h] at hq
    omega
  · rw [h] at hp'
    omega

end RtpPortPool

/-! ## What the pool guarantees -/

/-- In every run that releases held ports only, each port of the range is either free
or held; a call fails exactly when none is free, hands out numbers nobody holds, and no
call loses a port. -/
theorem rtp_ports_conserved (opts : Option RtpPortPoolOpts) (calloc : Bool)
    (realloc : UInt16 → Bool) (pool : RtpPortPool)
    (hcreate : RtpPortPool.create opts calloc realloc = some pool) (s : PortRun)
    (hrun : portMachine.Leads PortRun.ReleasesHeld ⟨pool, []⟩ s) :
    s.pool.freePorts.Nodup ∧ s.held.Nodup ∧ s.pool.freePorts.Disjoint s.held ∧
    (∀ p, p ∈ s.pool.freePorts ∨ p ∈ s.held ↔ EvenIn pool.rangeStart pool.rangeEnd p) ∧
    (∀ rtp rtcp, (s.pool.acquire rtp rtcp).1 = .nomem ↔
      (rtp && rtcp) = true ∧ s.pool.freePorts = []) ∧
    (∀ rtp rtcp err port above pool',
      s.pool.acquire rtp rtcp = (err, some (port, above), pool') →
        above.toNat = port.toNat + 1 ∧
        ∀ q ∈ s.held, List.Disjoint [port, above] [q, q + 1]) ∧
    (∀ p grow, p ∈ s.held → p ∈ (s.pool.release p grow).freePorts) ∧
    ∀ p grow, s.pool.freePorts ⊆ (s.pool.release p grow).freePorts := by
  obtain ⟨hle, heven, hfree, hcap⟩ := RtpPortPool.create_some hcreate
  have hs := (PortRun.Sound.created hfree hle hcap).run_releasesHeld hle heven hrun
  have hmem : ∀ p, p ∈ s.pool.freePorts ∨ p ∈ s.held ↔
      EvenIn pool.rangeStart pool.rangeEnd p := fun p => by
    rw [hs.custody.mem_iff, RtpPortPool.mem_rangePorts hle heven]
  refine ⟨hs.custody.shelf_nodup, hs.custody.held_nodup, hs.custody.disjoint, hmem,
    RtpPortPool.acquire_nomem_iff s.pool, ?_, ?_, ?_⟩
  · intro rtp rtcp err port above pool' hacq
    obtain ⟨-, rfl, hport⟩ := RtpPortPool.acquire_some hacq
    have hp := ((hmem port).mp (.inl hport)).2.2
    refine ⟨RtpPortPool.toNat_add_one hp, fun q hq => ?_⟩
    refine RtpPortPool.pairs_disjoint hp ((hmem q).mp (.inr hq)).2.2 ?_
    rintro rfl
    exact hs.custody.disjoint hport hq
  · intro p grow hp
    have hroom := Nat.lt_of_lt_of_le (hs.custody.shelf_length_lt hp) hs.room
    have hvalid : EvenIn s.pool.rangeStart s.pool.rangeEnd p := by
      rw [hs.start_eq, hs.last_eq]
      exact (hmem p).mp (.inr hp)
    rw [RtpPortPool.release_of_room grow hroom hvalid]
    exact List.mem_append_right _ (List.mem_singleton_self p)
  · intro p grow q hq
    exact RtpPortPool.mem_release p grow hq

/-- Two pairs are handed out, and one comes back while `realloc` fails. -/
theorem rtp_ports_conserved_returned :
    ∃ pool s, RtpPortPool.create (some ⟨30000, 30004⟩) true (fun _ => true) = some pool ∧
      portMachine.run ⟨pool, []⟩
        [.acquire true true, .acquire true true, .release 30004 false] = some s ∧
      s.held = [30002] ∧
      ∀ p, p ∈ s.pool.freePorts ∨ p ∈ s.held ↔ EvenIn 30000 30004 p := by
  refine ⟨⟨30000, 30004, [30000, 30002, 30004], 64⟩, _, by decide +kernel, rfl, rfl, ?_⟩
  exact (rtp_ports_conserved (some ⟨30000, 30004⟩) true (fun _ => true)
    ⟨30000, 30004, [30000, 30002, 30004], 64⟩ (by decide +kernel) _
    (Machine.leads_of_run [.acquire true true, .acquire true true, .release 30004 false] _ _ rfl
      (by decide +kernel))).2.2.2.1

/-- In every run that releases no free port, no more ports are free than the range has,
and a port is handed out only while nobody holds it. -/
theorem rtp_port_one_holder (opts : Option RtpPortPoolOpts) (calloc : Bool)
    (realloc : UInt16 → Bool) (pool : RtpPortPool)
    (hcreate : RtpPortPool.create opts calloc realloc = some pool) (s : PortRun)
    (hrun : portMachine.Leads PortRun.NoDoubleRelease ⟨pool, []⟩ s) :
    s.pool.freeCount ≤ Set.ncard {p | EvenIn pool.rangeStart pool.rangeEnd p} ∧
    ∀ rtp rtcp err port above pool',
      s.pool.acquire rtp rtcp = (err, some (port, above), pool') → port ∉ s.held := by
  obtain ⟨hle, heven, hfree, hcap⟩ := RtpPortPool.create_some hcreate
  have hs := (PortRun.Sound.created hfree hle hcap).run hle heven hrun
  refine ⟨?_, fun rtp rtcp err port above pool' hacq => ?_⟩
  · rw [RtpPortPool.ncard_evenIn hle heven, RtpPortPool.freeCount, ← hs.custody.length_add]
    exact Nat.le_add_right _ _
  · exact hs.custody.disjoint (RtpPortPool.acquire_some hacq).2.2

/-- A port is released by its holder, and an odd number is offered. -/
theorem rtp_port_one_holder_released :
    ∃ pool s, RtpPortPool.create (some ⟨30000, 30002⟩) true (fun _ => true) = some pool ∧
      portMachine.run ⟨pool, []⟩
        [.acquire true true, .release 30002 true, .release 30001 true] = some s ∧
      s.pool.freeCount ≤ Set.ncard {p | EvenIn 30000 30002 p} := by
  refine ⟨⟨30000, 30002, [30000, 30002], 64⟩, _, by decide +kernel, rfl, ?_⟩
  exact (rtp_port_one_holder (some ⟨30000, 30002⟩) true (fun _ => true)
    ⟨30000, 30002, [30000, 30002], 64⟩ (by decide +kernel) _
    (Machine.leads_of_run [.acquire true true, .release 30002 true, .release 30001 true] _ _ rfl
      (by decide +kernel))).1

/-- A port that is released twice lies on the array twice, and then two callers get it. -/
theorem rtp_port_released_twice :
    ∃ pool s t pool', RtpPortPool.create (some ⟨30000, 30002⟩) true (fun _ => true) = some pool ∧
      portMachine.Leads Machine.Any ⟨pool, []⟩ s ∧
      ¬ s.pool.freeCount ≤ Set.ncard {p | EvenIn pool.rangeStart pool.rangeEnd p} ∧
      portMachine.Leads Machine.Any s t ∧
      t.pool.acquire true true = (.ok, some (30002, 30003), pool') ∧ 30002 ∈ t.held := by
  refine ⟨⟨30000, 30002, [30000, 30002], 64⟩, ⟨⟨30000, 30002, [30000, 30002, 30002], 64⟩, []⟩,
    ⟨⟨30000, 30002, [30000, 30002], 64⟩, [30002]⟩, _, by decide +kernel, ?_, ?_, ?_, rfl,
    by decide⟩
  · exact Machine.leads_of_run [.acquire true true, .release 30002 true, .release 30002 true] _ _
      rfl (Machine.runMeets_any _ _)
  · rw [RtpPortPool.ncard_evenIn (by decide) (by decide)]
    decide +kernel
  · exact Machine.leads_of_run [.acquire true true] _ _ rfl (Machine.runMeets_any _ _)

end Ztk.Net
