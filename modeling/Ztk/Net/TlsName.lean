import Ztk.Net.TlsClose

/-!
# The server name of the TLS client

`tls_start_ssl` sets `sni_name` on the new handle, and `host_for_connect` where there is
no such name.  `ztk_tls_client_connect` stores its host in `host_for_connect` at every
call, and in `sni_name` while this is empty.  Nothing empties `sni_name`, so what a client
without `sni_host` keeps there is the first host that it was ever given.
-/

namespace Ztk.Net

open Ztk.Lib

namespace TlsName

/-! ## The calls so far -/

/-- The host of a call of `ztk_tls_client_connect`. -/
def hostOf : TlsLabel → Option (List UInt8)
  | .connect host _ _ => host
  | _ => none

/-- The hosts of the calls of `ztk_tls_client_connect`, in order. -/
def hosts (as : List TlsLabel) : List (List UInt8) := as.filterMap hostOf

/-- The host of the most recent call. -/
def lastHost (as : List TlsLabel) : List UInt8 := (hosts as).getLast?.getD []

/-- The first host that is not empty. -/
def firstHost (as : List TlsLabel) : List UInt8 := ((hosts as).find? (· ≠ [])).getD []

/-- What is set on a handle for a name; nothing is set for the empty one. -/
def serverName (name : List UInt8) : Option (List UInt8) := if name ≠ [] then some name else none

variable {as : List TlsLabel} {a : TlsLabel} {host : List UInt8}

theorem hosts_concat (as : List TlsLabel) (a : TlsLabel) :
    hosts (as ++ [a]) = hosts as ++ (hostOf a).toList := by
  rw [hosts, List.filterMap_append, hosts]
  cases h : hostOf a with
  | none => rw [List.filterMap_cons_none h, List.filterMap_nil, Option.toList]
  | some host => rw [List.filterMap_cons_some h, List.filterMap_nil, Option.toList]

theorem lastHost_concat (h : hostOf a = some host) : lastHost (as ++ [a]) = host := by
  rw [lastHost, hosts_concat, h, Option.toList, List.getLast?_concat, Option.getD_some]

theorem firstHost_concat (h : hostOf a = some host) :
    firstHost (as ++ [a]) = if firstHost as = [] then host else firstHost as := by
  rw [firstHost, hosts_concat, h, Option.toList, List.find?_append, firstHost]
  cases hf : (hosts as).find? (· ≠ []) with
  | none =>
      rw [Option.none_or, Option.getD_none, if_pos rfl]
      cases host with
      | nil => rfl
      | cons x xs => rfl
  | some first =>
      have hne : first ≠ [] := by simpa using List.find?_some hf
      rw [Option.some_or, Option.getD_some, if_neg hne]

/-- Where no host was given but empty ones, the last one is empty too. -/
theorem lastHost_of_firstHost_nil (h : firstHost as = []) : lastHost as = [] := by
  rw [firstHost] at h
  cases hf : (hosts as).find? (· ≠ []) with
  | none =>
      rw [lastHost]
      cases hl : (hosts as).getLast? with
      | none => rfl
      | some host =>
          have hnil := List.find?_eq_none.mp hf host (List.mem_of_getLast? hl)
          simpa using hnil
  | some first =>
      rw [hf, Option.getD_some] at h
      have hne : first ≠ [] := by simpa using List.find?_some hf
      exact absurd h hne

/-- A client that is only ever given one host. -/
theorem firstHost_eq_lastHost (h : ∀ x ∈ hosts as, x = host) : firstHost as = lastHost as := by
  by_cases hnil : firstHost as = []
  · rw [hnil, lastHost_of_firstHost_nil hnil]
  · rw [firstHost, lastHost]
    cases hf : (hosts as).find? (· ≠ []) with
    | none =>
        rw [firstHost, hf] at hnil
        exact absurd rfl hnil
    | some first =>
        have hm := List.mem_of_find?_eq_some hf
        have hne := List.ne_nil_of_mem hm
        rw [List.getLast?_eq_some_getLast hne, Option.getD_some, Option.getD_some]
        exact (h first hm).trans (h _ (List.getLast_mem hne)).symm

/-- Another label leaves the hosts as they are. -/
theorem hosts_other (h : hostOf a = none) :
    lastHost (as ++ [a]) = lastHost as ∧ firstHost (as ++ [a]) = firstHost as := by
  rw [lastHost, firstHost, hosts_concat, h, Option.toList, List.append_nil]
  exact ⟨rfl, rfl⟩

/-! ## The stored names -/

/-- `sni_name` and `host_for_connect`. -/
def names (r : TlsRun) : List UInt8 × List UInt8 := (r.c.sniName, r.c.hostForConnect)

variable {r t : TlsRun}

@[simp] theorem modPoll_names (r : TlsRun) (want : Bool) : names (tlsModPoll r want) = names r := rfl

@[simp] theorem fireError_names (r : TlsRun) : names (tlsFireError r) = names r := by
  rw [tlsFireError]
  split <;> rfl

@[simp] theorem sslError_names (r : TlsRun) (err : SslErr) :
    names (tlsSslError r err).2 = names r := by
  cases err with
  | wantRead => rfl
  | wantWrite => rfl
  | other => exact fireError_names r

@[simp] theorem doHandshake_names (r : TlsRun) : names (tlsDoHandshake r) = names r := by
  rw [tlsDoHandshake]
  split <;> rfl

theorem handshakeDone_names (r : TlsRun) (x : SslRet) : names (tlsHandshakeDone r x) = names r := by
  rw [tlsHandshakeDone]
  split
  · rfl
  · exact sslError_names r x.err

@[simp] theorem drainPlain_names (r : TlsRun) : names (tlsDrainPlain r) = names r := by
  rw [tlsDrainPlain]
  split <;> rfl

theorem drainRead_names (r : TlsRun) (x : SslRet) : names (tlsDrainRead r x) = names r := by
  rw [tlsDrainRead]
  split
  · rfl
  split
  · exact fireError_names r
  split
  · rfl
  · rfl
  · exact fireError_names r

theorem flushPending_names (r : TlsRun) : names (tlsFlushPending r) = names r := by
  rw [tlsFlushPending]
  split <;> rfl

theorem flushWrite_names (r : TlsRun) (off : Nat) (x : SslRet) :
    names (tlsFlushWrite r off x) = names r := by
  rw [tlsFlushWrite]
  split
  · simp only
    split <;> rfl
  · cases x.err with
    | wantRead => rfl
    | wantWrite => rfl
    | other => exact fireError_names r

theorem sendWrite_names (r : TlsRun) (data : List UInt8) (off : Nat) (x : SslRet) :
    names (tlsSendWrite r data off x) = names r := by
  rcases Int.lt_or_le 0 x.ret with hx | hx
  · rw [tlsSendWrite, if_pos hx]
    simp only
    split <;> rfl
  by_cases he : x.err = .other
  · rw [tlsSendWrite_fail r data off hx he]
    exact fireError_names _
  · rw [tlsSendWrite_wait r data off hx he]
    simp only
    split <;> rfl

theorem sslStarted_names (r : TlsRun) (new setFd : Bool) :
    names (tlsSslStarted r new setFd) = names r := by
  rw [tlsSslStarted]
  split
  · exact fireError_names _
  split
  · exact fireError_names _
  · exact doHandshake_names _

@[simp] theorem tcpConnected_names (r : TlsRun) : names (tlsTcpConnected r) = names r := rfl

@[simp] theorem sockOnWritable_names (r : TlsRun) : names (tlsSockOnWritable r) = names r := by
  rw [tlsSockOnWritable]
  split
  · rfl
  split
  · split
    · exact fireError_names r
    split
    · exact fireError_names r
    split
    · rfl
    · rfl
  split
  · rfl
  · exact doHandshake_names r
  · rfl

theorem writableChecked_names (r : TlsRun) (plat : Err) :
    names (tlsWritableChecked r plat) = names r := by
  rw [tlsWritableChecked]
  split
  · exact fireError_names r
  · simp only
    split
    · rfl
    split
    · exact fireError_names _
    · rfl

@[simp] theorem readable_names (r : TlsRun) : names (tlsReadable r) = names r := by
  rw [tlsReadable]
  split
  · rfl
  · exact doHandshake_names r
  · exact drainPlain_names r

@[simp] theorem sockOnReadable_names (r : TlsRun) : names (tlsSockOnReadable r) = names r := by
  rw [tlsSockOnReadable]
  split
  · rfl
  split
  · exact sockOnWritable_names _
  · exact readable_names r

theorem pollerRest_names (r : TlsRun) (s : Sock) (ev : PollEvents) :
    names (tlsPollerRest r s ev) = names r := by
  rw [tlsPollerRest]
  split
  · exact sockOnWritable_names _
  split
  · exact sockOnReadable_names r
  · rfl

theorem pollerCb_names (r : TlsRun) (s : Sock) (fd : Int) (ev : PollEvents) :
    names (tlsPollerCb r s fd ev) = names r := by
  rw [tlsPollerCb]
  split
  · rfl
  split
  · exact fireError_names r
  split
  · rfl
  · exact pollerRest_names r s ev

theorem pollerChecked_names (r : TlsRun) (s : Sock) (ev : PollEvents) (plat : Err) :
    names (tlsPollerChecked r s ev plat) = names r := by
  rw [tlsPollerChecked]
  simp only
  split
  · exact pollerRest_names _ _ ev
  · exact fireError_names _

theorem clientSend_names (r : TlsRun) (data : Option (List UInt8)) :
    names (tlsClientSend r data) = names r := by
  simp only [tlsClientSend]
  split
  · rfl
  split
  · rfl
  split
  · split <;> rfl
  · rfl

theorem clientClose_names (r : TlsRun) (alloc : Bool) : names (tlsClientClose r alloc) = names r := by
  rw [tlsClientClose]
  split <;> rfl

/-- A call of `ztk_tls_client_connect` stores its host, and fills the name. -/
theorem clientConnect_names (hc : r.c.closing = false) (host : List UInt8) (plat : PlatConnect)
    (add : Err) : names (tlsClientConnect r (some host) plat add) =
      (if r.c.sniName = [] then host.take 255 else r.c.sniName, host.take 255) := by
  simp only [tlsClientConnect, hc, Bool.false_eq_true, if_false]
  split
  · rfl
  · split
    · split
      · split <;> rfl
      · rfl
    · rfl

/-- Only a connect stores a name. -/
theorem trans_names (h : TlsTrans r a t) (hn : hostOf a = none) : names t = names r := by
  cases h with
  | connect host plat add _ =>
      cases hn
      rfl
  | send data _ => exact clientSend_names r data
  | close alloc _ => exact clientClose_names r alloc
  | event fd ev _ _ _ => exact pollerCb_names r _ fd ev
  | pollChecked ev k plat _ _ => exact pollerChecked_names _ _ ev plat
  | writableChecked k plat _ => exact writableChecked_names _ plat
  | sslStarted k new setFd _ => exact sslStarted_names _ new setFd
  | handshakeDone k _ _ _ => exact handshakeDone_names _ _
  | drainRead k _ _ => exact drainRead_names _ _
  | flushWrite off k _ _ _ => exact flushWrite_names _ off _
  | sendWrite data off k _ _ _ => exact sendWrite_names _ data off _
  | pollIn serial k _ _ => exact sockOnReadable_names _
  | readableReturn k _ => rfl
  | readableRest k _ => exact readable_names _
  | flushPending k _ => exact flushPending_names _
  | drainPlain k _ => exact drainPlain_names _
  | sendIo data k _ => rfl
  | callback k _ => rfl

/-! ## Where the handle is made -/

/-- The frame leads to a new handle before any other code runs. -/
def opens : TlsFrame → Bool
  | .checkWritable | .startSsl => true
  | _ => false

/-- No frame leads to a new handle. -/
def Calm (k : List TlsFrame) : Prop := ∀ f ∈ k, opens f = false

/-- A new handle is only due on top, on a client that is not closing. -/
inductive Guarded (r : TlsRun) : Prop where
  | calm : Calm r.stack → Guarded r
  | due (f : TlsFrame) (k : List TlsFrame) : r.stack = f :: k → r.c.closing = false → Calm k →
      Guarded r

variable {f : TlsFrame} {k : List TlsFrame}

namespace Calm

theorem cons (hf : opens f = false) (h : Calm k) : Calm (f :: k) :=
  List.forall_mem_cons.mpr ⟨hf, h⟩

theorem callback_append (h : Calm k) (set : Bool) : Calm (callback set ++ k) := by
  cases set with
  | false => exact h
  | true => exact cons rfl h

theorem fireError (h : Calm r.stack) : Calm (tlsFireError r).stack := by
  rw [tlsFireError]
  split
  · exact h
  · exact h.callback_append _

theorem sslError (h : Calm r.stack) (err : SslErr) : Calm (tlsSslError r err).2.stack := by
  cases err with
  | wantRead => exact h
  | wantWrite => exact h
  | other => exact h.fireError

theorem doHandshake (h : Calm r.stack) : Calm (tlsDoHandshake r).stack := by
  rw [tlsDoHandshake]
  split
  · exact h
  · exact cons rfl h

theorem handshakeDone (h : Calm r.stack) (x : SslRet) : Calm (tlsHandshakeDone r x).stack := by
  rw [tlsHandshakeDone]
  split
  · exact callback_append (cons rfl (cons rfl h)) _
  · exact h.sslError x.err

theorem drainPlain (h : Calm r.stack) : Calm (tlsDrainPlain r).stack := by
  rw [tlsDrainPlain]
  split
  · exact h
  · exact cons rfl h

theorem drainRead (h : Calm r.stack) (x : SslRet) : Calm (tlsDrainRead r x).stack := by
  rw [tlsDrainRead]
  split
  · exact callback_append (cons rfl h) _
  split
  · exact h.fireError
  split
  · exact h
  · exact h
  · exact h.fireError

theorem flushPending (h : Calm r.stack) : Calm (tlsFlushPending r).stack := by
  rw [tlsFlushPending]
  split
  · exact h
  · exact cons rfl h

theorem flushWrite (h : Calm r.stack) (off : Nat) (x : SslRet) :
    Calm (tlsFlushWrite r off x).stack := by
  rw [tlsFlushWrite]
  split
  · simp only
    split
    · exact cons rfl h
    · exact h
  · cases x.err with
    | wantRead => exact h
    | wantWrite => exact h
    | other => exact h.fireError

theorem sendWrite (h : Calm r.stack) (data : List UInt8) (off : Nat) (x : SslRet) :
    Calm (tlsSendWrite r data off x).stack := by
  rcases Int.lt_or_le 0 x.ret with hx | hx
  · rw [tlsSendWrite, if_pos hx]
    simp only
    split
    · exact cons rfl h
    · exact h
  by_cases he : x.err = .other
  · rw [tlsSendWrite_fail r data off hx he]
    exact fireError (r := { r with stack := .sendIo data :: r.stack }) (cons rfl h)
  · rw [tlsSendWrite_wait r data off hx he]
    simp only
    split <;> exact h

theorem sslStarted (h : Calm r.stack) (new setFd : Bool) : Calm (tlsSslStarted r new setFd).stack := by
  rw [tlsSslStarted]
  split
  · exact fireError (r := { r with c := { r.c with sslHandle := none } }) h
  split
  · exact fireError (r := { r with c := { r.c with sslHandle := some ⟨none⟩ } }) h
  · exact doHandshake h

theorem readable (h : Calm r.stack) : Calm (tlsReadable r).stack := by
  rw [tlsReadable]
  split
  · exact h
  · exact h.doHandshake
  · exact h.drainPlain

theorem tcpConnected (h : Calm r.stack) (hc : r.c.closing = false) : Guarded (tlsTcpConnected r) :=
  .due .startSsl r.stack rfl hc h

theorem sockOnWritable (h : Calm r.stack) : Guarded (tlsSockOnWritable r) := by
  rw [tlsSockOnWritable]
  split
  · exact .calm h
  · next hc =>
    have hc : r.c.closing = false := Bool.eq_false_of_not_eq_true hc
    split
    · split
      · exact .calm h.fireError
      split
      · exact .calm h.fireError
      split
      · exact h.tcpConnected hc
      · exact .due .checkWritable r.stack rfl hc h
    split
    · exact .calm h
    · exact .calm h.doHandshake
    · exact .calm (cons rfl (cons rfl h))

theorem writableChecked (h : Calm r.stack) (hc : r.c.closing = false) (plat : Err) :
    Guarded (tlsWritableChecked r plat) := by
  rw [tlsWritableChecked]
  split
  · exact .calm h.fireError
  · next s _ =>
    simp only
    split
    · exact tcpConnected (r := { r with c := { r.c with sock := some (s.checkConnect plat).2 } }) h hc
    split
    · exact .calm
        (fireError (r := { r with c := { r.c with sock := some (s.checkConnect plat).2 } }) h)
    · exact .calm h

theorem sockOnReadable (h : Calm r.stack) : Guarded (tlsSockOnReadable r) := by
  rw [tlsSockOnReadable]
  split
  · exact .calm h
  split
  · exact sockOnWritable (r := { r with stack := .readableRest :: r.stack }) (cons rfl h)
  · exact .calm h.readable

theorem pollerRest (h : Calm r.stack) (s : Sock) (ev : PollEvents) :
    Guarded (tlsPollerRest r s ev) := by
  rw [tlsPollerRest]
  split
  · refine sockOnWritable
      (r := { r with stack := if ev.pollIn then .pollIn s.serial :: r.stack else r.stack }) ?_
    split
    · exact cons rfl h
    · exact h
  split
  · exact h.sockOnReadable
  · exact .calm h

theorem pollerCb (h : Calm r.stack) (s : Sock) (fd : Int) (ev : PollEvents) :
    Guarded (tlsPollerCb r s fd ev) := by
  rw [tlsPollerCb]
  split
  · exact .calm h
  split
  · exact .calm h.fireError
  split
  · exact .calm (cons rfl h)
  · exact h.pollerRest s ev

theorem pollerChecked (h : Calm r.stack) (s : Sock) (ev : PollEvents) (plat : Err) :
    Guarded (tlsPollerChecked r s ev plat) := by
  rw [tlsPollerChecked]
  simp only
  split
  · exact pollerRest (r := { r with c := { r.c with sock := some _ } }) h _ ev
  · exact .calm (fireError (r := { r with c := { r.c with sock := some _ } }) h)

theorem clientSend (h : Calm r.stack) (data : Option (List UInt8)) :
    Calm (tlsClientSend r data).stack := by
  simp only [tlsClientSend]
  split
  · exact h
  split
  · exact h
  split
  · split <;> exact h
  · exact cons rfl h

theorem clientClose (h : Calm r.stack) (alloc : Bool) : Calm (tlsClientClose r alloc).stack := by
  rw [tlsClientClose]
  split <;> exact h

theorem clientConnect (h : Calm r.stack) (host : Option (List UInt8)) (plat : PlatConnect)
    (add : Err) : Guarded (tlsClientConnect r host plat add) := by
  rcases tlsClientConnect_cases r host plat add with heq | ⟨sock, start, name, -, hc, heq⟩
  · rw [heq]
    exact .calm h
  · rw [heq]
    cases start with
    | false => exact .calm h
    | true => exact tcpConnected (r := tlsAttempt r sock name) h hc

end Calm

namespace Guarded

/-- Below the top no handle is due. -/
theorem tail (h : Guarded r) (hs : r.stack = f :: k) : Calm k := by
  cases h with
  | calm h =>
      rw [hs] at h
      exact (List.forall_mem_cons.mp h).2
  | due g l hg _ hl =>
      rw [hs] at hg
      cases hg
      exact hl

/-- Where a handle is due, the client is not closing. -/
theorem closing (h : Guarded r) (hs : r.stack = f :: k) (hf : opens f = true) :
    r.c.closing = false := by
  cases h with
  | calm h =>
      rw [hs] at h
      have hno := h f List.mem_cons_self
      rw [hf] at hno
      cases hno
  | due g l _ hc _ => exact hc

/-- Where the application has control, no handle is due. -/
theorem idle (h : Guarded r) (hi : r.idle) : Calm r.stack := by
  cases hs : r.stack with
  | nil => exact fun f hf => by cases hf
  | cons f k =>
      have hf := TlsRun.idle_head hi f (by rw [hs]; rfl)
      exact .cons (by rw [hf]; rfl) (h.tail hs)

theorem step (h : Guarded r) (hs : TlsTrans r a t) : Guarded t := by
  cases hs with
  | connect host plat add hi => exact (h.idle hi).clientConnect host plat add
  | send data hi => exact .calm ((h.idle hi).clientSend data)
  | close alloc hi => exact .calm ((h.idle hi).clientClose alloc)
  | event fd ev hk hsock hatt => exact (h.idle (.inl hk)).pollerCb _ fd ev
  | pollChecked ev k plat hk hsock => exact (h.tail hk).pollerChecked _ ev plat
  | writableChecked k plat hk =>
      exact Calm.writableChecked (r := { r with stack := k }) (h.tail hk) (h.closing hk rfl) plat
  | sslStarted k new setFd hk => exact .calm ((h.tail hk).sslStarted new setFd)
  | handshakeDone k hk hssl hle => exact .calm ((h.tail hk).handshakeDone _)
  | drainRead k hk hssl => exact .calm ((h.tail hk).drainRead _)
  | flushWrite off k hk hssl hle => exact .calm ((h.tail hk).flushWrite off _)
  | sendWrite data off k hk hssl hle => exact .calm ((h.tail hk).sendWrite data off _)
  | pollIn serial k hk hserial => exact (h.tail hk).sockOnReadable
  | readableReturn k hk => exact .calm (h.tail hk)
  | readableRest k hk => exact .calm ((h.tail hk).readable)
  | flushPending k hk => exact .calm ((h.tail hk).flushPending)
  | drainPlain k hk => exact .calm ((h.tail hk).drainPlain)
  | sendIo data k hk => exact .calm (h.tail hk)
  | callback k hk => exact .calm (h.tail hk)

end Guarded

theorem doHandshake_handle (r : TlsRun) :
    (tlsDoHandshake r).c.sslHandle = r.c.sslHandle := by
  rw [tlsDoHandshake]
  split <;> rfl

/-! ## Runs -/

/-- What a client without `sni_host` has stored after the labels `as`. -/
structure Named (as : List TlsLabel) (r : TlsRun) : Prop where
  guarded : Guarded r
  stored : r.c.closing = false → names r = (firstHost as, lastHost as)

theorem Named.create (ops : TlsOps) : Named [] (tlsClientCreate ops none) :=
  ⟨.calm (fun _ hf => absurd hf List.not_mem_nil), fun _ => rfl⟩

/-- One label more. -/
theorem Named.step (h : Named as r) (hs : TlsTrans r a t)
    (hshort : ∀ host, hostOf a = some host → host.length < 256) : Named (as ++ [a]) t := by
  refine ⟨h.guarded.step hs, fun ht => ?_⟩
  rw [tlsTrans_closing hs, Bool.or_eq_false_iff] at ht
  have hold := h.stored ht.1
  cases ha : hostOf a with
  | none =>
      have hother : lastHost (as ++ [a]) = lastHost as ∧ firstHost (as ++ [a]) = firstHost as :=
        hosts_other ha
      obtain ⟨hlast, hfirst⟩ := hother
      rw [trans_names hs ha, hold, hlast, hfirst]
  | some host =>
      have hlen := hshort host ha
      rw [lastHost_concat ha, firstHost_concat ha]
      have hfirst : r.c.sniName = firstHost as := congrArg Prod.fst hold
      cases hs with
      | connect host' plat add hi =>
          cases ha
          rw [clientConnect_names ht.1, List.take_of_length_le (by omega), hfirst]
      | _ => cases ha

theorem Named.of_run (ops : TlsOps) {r : TlsRun} : ∀ (as : List TlsLabel),
    (∀ host ∈ hosts as, host.length < 256) →
    tlsMachine.run (tlsClientCreate ops none) as = some r → Named as r := by
  intro as
  induction as using List.reverseRecOn generalizing r with
  | nil =>
      intro _ hr
      cases hr
      exact .create ops
  | append_singleton bs a ih =>
      intro hshort hr
      obtain ⟨s, hs, hst⟩ := Machine.run_concat.mp hr
      rw [hosts_concat] at hshort
      have hb : Named bs s := ih (fun host hm => hshort host (List.mem_append_left _ hm)) hs
      refine hb.step (tlsStep_trans hst) fun host hh => hshort host (List.mem_append_right _ ?_)
      rw [hh]
      exact List.mem_singleton_self host

/-- The name on a new handle: the first host that was given to the client. -/
theorem sslStarted_name (h : Named as r) (hs : tlsStep r (.sslNew true true) = some t) :
    t.c.sslHandle = some ⟨serverName (firstHost as)⟩ := by
  cases tlsStep_trans hs with
  | sslStarted k new setFd hk =>
      obtain ⟨hfirst, hlast⟩ := Prod.mk.inj (h.stored (h.guarded.closing hk rfl))
      have hname : (if r.c.sniName ≠ [] then r.c.sniName else r.c.hostForConnect) =
          firstHost as := by
        rw [hfirst, hlast]
        by_cases hnil : firstHost as = []
        · rw [if_neg (not_not_intro hnil), hnil, lastHost_of_firstHost_nil hnil]
        · rw [if_pos hnil]
      simp only [tlsSslStarted, Bool.not_true, Bool.false_eq_true, if_false, hname,
        doHandshake_handle]
      rfl

/-- The handle that a client without `sni_host` gets last in the run `as` has the name of
the most recent connect. -/
def NamedLast (ops : TlsOps) (as : List TlsLabel) : Prop :=
  ∀ r, tlsMachine.run (tlsClientCreate ops none) (as ++ [.sslNew true true]) = some r →
    r.c.sslHandle = some ⟨serverName (lastHost as)⟩

theorem serverName_inj {name name' : List UInt8} (h : serverName name = serverName name') :
    name = name' := by
  rw [serverName, serverName] at h
  split at h <;> split at h
  · exact Option.some.inj h
  · cases h
  · cases h
  · next h1 h2 => rw [not_not.mp h1, not_not.mp h2]

/-- In a run of a client without `sni_host` every new handle has the name of the most recent
connect, exactly when at every new handle the first host that was given to the client is the
last one. -/
theorem sni_follows_host_iff (ops : TlsOps) (as : List TlsLabel)
    (hshort : ∀ host ∈ hosts as, host.length < 256) {r : TlsRun}
    (hrun : tlsMachine.run (tlsClientCreate ops none) as = some r) :
    (∀ bs, bs ++ [.sslNew true true] <+: as → NamedLast ops bs) ↔
      ∀ bs, bs ++ [.sslNew true true] <+: as → firstHost bs = lastHost bs := by
  refine forall₂_congr fun bs hbs => ?_
  obtain ⟨cs, rfl⟩ := hbs
  rw [Machine.run_append, Option.bind_eq_some_iff] at hrun
  obtain ⟨t, ht, -⟩ := hrun
  obtain ⟨s, hs, hst⟩ := Machine.run_concat.mp ht
  have hb : ∀ host ∈ hosts bs, host.length < 256 := by
    intro host hm
    refine hshort host ?_
    rw [hosts, List.filterMap_append, List.filterMap_append]
    exact List.mem_append_left _ (List.mem_append_left _ hm)
  have hname := sslStarted_name (Named.of_run ops bs hb hs) hst
  constructor
  · intro hnamed
    have heq := hnamed t ht
    rw [hname, Option.some.injEq, SslHandle.mk.injEq] at heq
    exact serverName_inj heq
  · intro heq u hu
    rw [ht] at hu
    cases hu
    rw [hname, heq]

/-- A client connects to one host, is closed, and connects to it again. -/
def sameHost : List TlsLabel :=
  [.connect (some [104]) ⟨.ok, 3, false⟩ .ok, .sslNew true true, .ssl ⟨-1, .wantRead⟩, .close true,
    .connect (some [104]) ⟨.ok, 4, false⟩ .ok, .sslNew true true]

theorem sni_follows_host_same : NamedLast ⟨true, true, true⟩ (sameHost.take 5) := by
  have hrun : (tlsMachine.run (tlsClientCreate ⟨true, true, true⟩ none) sameHost).isSome = true := by
    decide +kernel
  obtain ⟨r, hr⟩ := Option.isSome_iff_exists.mp hrun
  refine (sni_follows_host_iff ⟨true, true, true⟩ sameHost (by decide +kernel) hr).mpr
    (fun bs hbs => ?_) (sameHost.take 5) ⟨[], rfl⟩
  have hall : ∀ x ∈ hosts sameHost, x = [104] := by decide +kernel
  have hsub : hosts bs <+: hosts sameHost :=
    ((List.prefix_append bs _).trans hbs).filterMap hostOf
  exact firstHost_eq_lastHost fun x hx => hall x (hsub.subset hx)

/-- The second connect is to another host. -/
def otherHost : List TlsLabel :=
  [.connect (some [104]) ⟨.ok, 3, false⟩ .ok, .sslNew true true, .ssl ⟨-1, .wantRead⟩, .close true,
    .connect (some [105]) ⟨.ok, 4, false⟩ .ok]

/-- The new handle has the name of the first one. -/
theorem sni_follows_host_fails :
    lastHost otherHost = [105] ∧ ¬ NamedLast ⟨true, true, true⟩ otherHost := by
  have hrun : (tlsMachine.run (tlsClientCreate ⟨true, true, true⟩ none)
      (otherHost ++ [.sslNew true true])).map
        (fun r => decide (r.c.sslHandle = some ⟨some [104]⟩)) = some true := by
    decide +kernel
  obtain ⟨r, hr, hname⟩ := Machine.exists_run hrun
  refine ⟨rfl, fun hlast => ?_⟩
  have heq := hlast r hr
  rw [hname] at heq
  exact absurd heq (by decide)

end TlsName

end Ztk.Net
