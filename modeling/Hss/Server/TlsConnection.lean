import Hss.Lib.Loop
import Hss.Server.Transport

namespace Hss.Tls

open Hss.Loop Hss.Transport

def EINTR : Nat := 4

def EBADF : Nat := 9

def GNUTLS_E_FATAL_ALERT_RECEIVED : Int := -12

def GNUTLS_E_WARNING_ALERT_RECEIVED : Int := -16

def GNUTLS_E_AGAIN : Int := -28

def GNUTLS_E_INTERRUPTED : Int := -52

inductive TlsState
  | initialized
  | handshaking
  | established
  | failed
  deriving DecidableEq, Repr

inductive Operation
  | recv
  | send
  deriving DecidableEq, Repr

/-- The calls made on a session, with the values returned. -/
inductive GnutlsCall
  | handshake (result : Int)
  | record (operation : Operation) (result : Int)
  | bye (result : Int)
  | deinit
  deriving DecidableEq, Repr

/-- The library behind a session. A record call returns a size or a negative
error; one that receives also fills the buffer. -/
structure Gnutls (σ : Type) where
  handshake : σ → Int × σ
  recordRecv : σ → Nat → (Int × List UInt8) × σ
  recordSend : σ → List UInt8 → Int × σ
  bye : σ → Int × σ

/-- A `struct connection_underlying`, with the calls made on its session. -/
structure ConnectionUnderlying (σ : Type) where
  state : TlsState
  world : σ
  calls : List GnutlsCall

variable {σ : Type}

def ConnectionUnderlying.note (u : ConnectionUnderlying σ) (call : GnutlsCall) (world : σ) :
    ConnectionUnderlying σ := { u with world, calls := u.calls ++ [call] }

def doHandshake (gnutls : Gnutls σ) (underlying : ConnectionUnderlying σ) :
    Int × ConnectionUnderlying σ :=
  let (result, world) := gnutls.handshake underlying.world
  let underlying := underlying.note (.handshake result) world
  if result = 0 then (result, { underlying with state := .established })
  else if result = GNUTLS_E_FATAL_ALERT_RECEIVED ∨ result = GNUTLS_E_WARNING_ALERT_RECEIVED then
    if result = GNUTLS_E_FATAL_ALERT_RECEIVED then (result, { underlying with state := .failed })
    else (result, underlying)
  else (result, underlying)

def setErrno (gnutlsErrorCode : Int) : Nat :=
  if gnutlsErrorCode = GNUTLS_E_AGAIN ∨ gnutlsErrorCode = GNUTLS_E_WARNING_ALERT_RECEIVED then EAGAIN
  else if gnutlsErrorCode = GNUTLS_E_INTERRUPTED then EINTR
  else if gnutlsErrorCode = GNUTLS_E_FATAL_ALERT_RECEIVED then EBADF
  else 0

/-- The wrapper around both operations: a size with what came along, or -1 with
`errno`. -/
def tlsRecvSend {α : Type} (gnutls : Gnutls σ) (kind : Operation) (operation : σ → (Int × α) × σ)
    (underlying : ConnectionUnderlying σ) : Except Nat (Nat × α) × ConnectionUnderlying σ :=
  if underlying.state = .failed then (.error EBADF, underlying)
  else
    let (result, underlying) :=
      if underlying.state = .initialized ∨ underlying.state = .handshaking then
        doHandshake gnutls underlying
      else (0, underlying)
    if result ≠ 0 then (.error (setErrno result), underlying)
    else if underlying.state = .established then
      let ((size, data), world) := operation underlying.world
      let underlying := underlying.note (.record kind size) world
      if size < 0 then (.error (setErrno size), underlying)
      else (.ok (size.toNat, data), underlying)
    else (.error EBADF, underlying)

def tlsRecv (gnutls : Gnutls σ) (underlying : ConnectionUnderlying σ) (nbytes : Nat) :
    RecvOutcome × ConnectionUnderlying σ :=
  match tlsRecvSend gnutls .recv (gnutls.recordRecv · nbytes) underlying with
  | (.error errno, underlying) => (.failed errno, underlying)
  | (.ok (size, bytes), underlying) => (.received (bytes.take size), underlying)

def tlsSend (gnutls : Gnutls σ) (underlying : ConnectionUnderlying σ) (buf : List UInt8) :
    SendOutcome × ConnectionUnderlying σ :=
  match tlsRecvSend gnutls .send (fun w => (((gnutls.recordSend w buf).1, ()),
    (gnutls.recordSend w buf).2)) underlying with
  | (.error errno, underlying) => (.failed errno, underlying)
  | (.ok (size, ()), underlying) => (.sent size, underlying)

def byeStep (gnutls : Gnutls σ) (underlying : ConnectionUnderlying σ) :
    ConnectionUnderlying σ ⊕ ConnectionUnderlying σ :=
  let (result, world) := gnutls.bye underlying.world
  let underlying := underlying.note (.bye result) world
  if result = GNUTLS_E_AGAIN then .inl underlying else .inr underlying

/-- The fuel bounds the rounds of the blocking `gnutls_bye`. -/
def tlsDestroyUnderlying (gnutls : Gnutls σ) (fuel : Nat) (underlying : ConnectionUnderlying σ) :
    Option (ConnectionUnderlying σ) := do
  let underlying ← iterate (byeStep gnutls) fuel underlying
  some (underlying.note .deinit underlying.world)

/-- What `tls_initialize_underlying` sets of a connection; a function pointer
that is not set holds what `malloc` left in it. -/
structure TlsConnection (σ : Type) where
  underlying : ConnectionUnderlying σ
  recv : Option (ConnectionUnderlying σ → Nat → RecvOutcome × ConnectionUnderlying σ)
  send : Option (ConnectionUnderlying σ → List UInt8 → SendOutcome × ConnectionUnderlying σ)
  destroyUnderlying : Option (Nat → ConnectionUnderlying σ → Option (ConnectionUnderlying σ))

/-- What the calls made while a session is set up return. -/
structure Setup where
  init : Int
  setDefaultPriority : Int
  certificateAllocateCredentials : Int
  certificateSetX509KeyFile2 : Int
  credentialsSet : Int

/-- `none` is the exit of the program when it has no credential, which is loaded
anew every time. -/
def getCredential (setup : Setup) : Option Unit :=
  if setup.certificateAllocateCredentials ≠ 0 then none
  else if setup.certificateSetX509KeyFile2 ≠ 0 then none
  else some ()

def tlsInitializeUnderlying (gnutls : Gnutls σ) (setup : Setup) (world : σ) :
    Option (TlsConnection σ) :=
  let connection : TlsConnection σ := ⟨⟨.failed, world, []⟩, none, none, none⟩
  if setup.init ≠ 0 then some connection
  else if setup.setDefaultPriority ≠ 0 then some connection
  else do
    getCredential setup
    if setup.credentialsSet ≠ 0 then some connection
    else
      some
        { underlying := { connection.underlying with state := .initialized }
          recv := some (tlsRecv gnutls)
          send := some (tlsSend gnutls)
          destroyUnderlying := some (tlsDestroyUnderlying gnutls) }

inductive Use
  | recv (nbytes : Nat)
  | send (buf : List UInt8)

inductive Returned
  | recv (outcome : RecvOutcome)
  | send (outcome : SendOutcome)
  deriving DecidableEq, Repr

def Returned.failed (errno : Nat) : Use → Returned
  | .recv _ => .recv (.failed errno)
  | .send _ => .send (.failed errno)

/-- `none` is a call through a pointer that is not set. -/
def TlsConnection.use (c : TlsConnection σ) : Use → Option (Returned × TlsConnection σ)
  | .recv nbytes => c.recv.map fun recv =>
    let (outcome, underlying) := recv c.underlying nbytes
    (.recv outcome, { c with underlying })
  | .send buf => c.send.map fun send =>
    let (outcome, underlying) := send c.underlying buf
    (.send outcome, { c with underlying })

def TlsConnection.after (c : TlsConnection σ) : List Use → Option (TlsConnection σ)
  | [] => some c
  | u :: uses => (c.use u).bind fun r => r.2.after uses

def SetupSucceeds (setup : Setup) : Prop :=
  setup.init = 0 ∧ setup.setDefaultPriority = 0 ∧ setup.credentialsSet = 0

def GnutlsCall.isRecord : GnutlsCall → Bool
  | .record _ _ => true
  | _ => false

def FatalAlert (calls : List GnutlsCall) : Prop :=
  ∃ call ∈ calls, call = .handshake GNUTLS_E_FATAL_ALERT_RECEIVED ∨
    ∃ kind, call = .record kind GNUTLS_E_FATAL_ALERT_RECEIVED

def FatalRecord (calls : List GnutlsCall) : Prop :=
  ∃ kind, .record kind GNUTLS_E_FATAL_ALERT_RECEIVED ∈ calls

def RecordsAfterHandshake (calls : List GnutlsCall) : Prop :=
  ∀ before call later, calls = before ++ call :: later → call.isRecord = true →
    .handshake 0 ∈ before

def Refuses (c : TlsConnection σ) (u : Use) : Prop :=
  c.use u = some (.failed EBADF u, c)

/-- The pointers are set, records follow the handshake, and what has failed
stays failed, over these calls of `recv` and `send`. -/
structure StaysFailed (setup : Setup) (c : TlsConnection σ) (uses : List Use) : Prop where
  recv : c.recv.isSome
  send : c.send.isSome
  destroyUnderlying : c.destroyUnderlying.isSome
  records : ∀ earlier c', earlier <+: uses → c.after earlier = some c' →
    RecordsAfterHandshake c'.underlying.calls
  refuses : ∀ earlier u c', earlier ++ [u] <+: uses → c.after earlier = some c' →
    ¬ SetupSucceeds setup ∨ FatalAlert c'.underlying.calls → Refuses c' u

/-- The setup succeeds, and nothing is called once a record call has returned the
fatal alert. -/
structure Spared (setup : Setup) (c : TlsConnection σ) (uses : List Use) : Prop where
  setup : SetupSucceeds setup
  record : ∀ earlier u c', earlier ++ [u] <+: uses → c.after earlier = some c' →
    ¬ FatalRecord c'.underlying.calls

/-- What one call of the wrapper does to the state, with the calls it makes. -/
inductive Moves : TlsState → List GnutlsCall → TlsState → Prop
  | refused : Moves .failed [] .failed
  | pending {state : TlsState} {result : Int} : state ≠ .failed → state ≠ .established →
      result ≠ 0 → Moves state [.handshake result]
        (if result = GNUTLS_E_FATAL_ALERT_RECEIVED then .failed else state)
  | opened {state : TlsState} (kind : Operation) (size : Int) : state ≠ .failed →
      state ≠ .established → Moves state [.handshake 0, .record kind size] .established
  | record (kind : Operation) (size : Int) : Moves .established [.record kind size] .established

variable {gnutls : Gnutls σ} {underlying : ConnectionUnderlying σ} {setup : Setup} {world : σ}
  {c c' : TlsConnection σ} {u : Use} {uses earlier : List Use} {calls new : List GnutlsCall}
  {state state' : TlsState}

theorem doHandshake_zero {w : σ} (h : gnutls.handshake underlying.world = (0, w)) :
    doHandshake gnutls underlying =
      (0, { underlying.note (.handshake 0) w with state := .established }) := by
  simp only [doHandshake, h, if_true]

theorem doHandshake_ne {w : σ} {result : Int} (h : gnutls.handshake underlying.world = (result, w))
    (hne : result ≠ 0) : doHandshake gnutls underlying =
      (result, { underlying.note (.handshake result) w with
        state := if result = GNUTLS_E_FATAL_ALERT_RECEIVED then .failed else underlying.state }) := by
  simp only [doHandshake, h, if_neg hne]
  by_cases hfatal : result = GNUTLS_E_FATAL_ALERT_RECEIVED
  · rw [if_pos hfatal, if_pos (.inl hfatal), if_pos hfatal]
  · rw [if_neg hfatal, if_neg hfatal, ite_self]
    rfl

theorem tlsRecvSend_failed {α : Type} {kind : Operation} {operation : σ → (Int × α) × σ}
    (h : underlying.state = .failed) :
    tlsRecvSend gnutls kind operation underlying = (.error EBADF, underlying) := by
  rw [tlsRecvSend, if_pos h]

theorem tlsRecvSend_moves {α : Type} (gnutls : Gnutls σ) (kind : Operation)
    (operation : σ → (Int × α) × σ) (underlying : ConnectionUnderlying σ) :
    ∃ new, (tlsRecvSend gnutls kind operation underlying).2.calls = underlying.calls ++ new ∧
      Moves underlying.state new (tlsRecvSend gnutls kind operation underlying).2.state := by
  by_cases hfailed : underlying.state = .failed
  · refine ⟨[], ?_, ?_⟩
    · rw [tlsRecvSend_failed hfailed, List.append_nil]
    · rw [tlsRecvSend_failed hfailed, hfailed]
      exact .refused
  by_cases hopen : underlying.state = .established
  · have hskip : ¬ (underlying.state = .initialized ∨ underlying.state = .handshaking) := by
      rw [hopen]
      rintro (h | h) <;> cases h
    rcases hrecord : operation underlying.world with ⟨⟨size, data⟩, w⟩
    refine ⟨[.record kind size], ?_, ?_⟩
    all_goals
      simp only [tlsRecvSend, if_neg hfailed, if_neg hskip, ne_eq, not_true, if_false, if_pos hopen,
        hrecord]
    · split <;> rfl
    · rw [hopen]
      split <;> exact hopen ▸ .record kind size
  · have hfirst : underlying.state = .initialized ∨ underlying.state = .handshaking := by
      cases hstate : underlying.state with
      | initialized => exact .inl rfl
      | handshaking => exact .inr rfl
      | established => exact absurd hstate hopen
      | failed => exact absurd hstate hfailed
    rcases hhandshake : gnutls.handshake underlying.world with ⟨result, w⟩
    by_cases hzero : result = 0
    · subst hzero
      rcases hrecord : operation w with ⟨⟨size, data⟩, w'⟩
      refine ⟨[.handshake 0, .record kind size], ?_, ?_⟩
      all_goals
        simp only [tlsRecvSend, if_neg hfailed, if_pos hfirst, doHandshake_zero hhandshake, ne_eq,
          not_true, if_false, if_true, ConnectionUnderlying.note, hrecord]
      · split <;> simp only [List.append_assoc, List.cons_append, List.nil_append]
      · split <;> exact .opened kind size hfailed hopen
    · refine ⟨[.handshake result], ?_, ?_⟩
      all_goals
        simp only [tlsRecvSend, if_neg hfailed, if_pos hfirst, doHandshake_ne hhandshake hzero,
          ne_eq, hzero, not_false_iff, if_true, ConnectionUnderlying.note]
      exact .pending hfailed hopen hzero

structure Wired (gnutls : Gnutls σ) (c : TlsConnection σ) : Prop where
  recv : c.recv = some (tlsRecv gnutls)
  send : c.send = some (tlsSend gnutls)
  destroyUnderlying : c.destroyUnderlying = some (tlsDestroyUnderlying gnutls)

theorem tlsRecv_snd (gnutls : Gnutls σ) (underlying : ConnectionUnderlying σ) (nbytes : Nat) :
    (tlsRecv gnutls underlying nbytes).2 =
      (tlsRecvSend gnutls .recv (gnutls.recordRecv · nbytes) underlying).2 := by
  rw [tlsRecv]
  split <;> (rename_i he; rw [he])

theorem tlsSend_snd (gnutls : Gnutls σ) (underlying : ConnectionUnderlying σ) (buf : List UInt8) :
    (tlsSend gnutls underlying buf).2 = (tlsRecvSend gnutls .send (fun w =>
      (((gnutls.recordSend w buf).1, ()), (gnutls.recordSend w buf).2)) underlying).2 := by
  rw [tlsSend]
  split <;> (rename_i he; rw [he])

theorem Wired.use (h : Wired gnutls c) (u : Use) : ∃ r c', c.use u = some (r, c') ∧
    Wired gnutls c' ∧ ∃ new, c'.underlying.calls = c.underlying.calls ++ new ∧
      Moves c.underlying.state new c'.underlying.state := by
  obtain ⟨underlying, recv, send, destroyUnderlying⟩ := c
  obtain ⟨rfl, rfl, rfl⟩ := h
  cases u with
  | recv nbytes =>
    have hmoves := tlsRecvSend_moves gnutls .recv (gnutls.recordRecv · nbytes) underlying
    rw [← tlsRecv_snd] at hmoves
    exact ⟨_, _, rfl, ⟨rfl, rfl, rfl⟩, hmoves⟩
  | send buf =>
    have hmoves := tlsRecvSend_moves gnutls .send (fun w =>
      (((gnutls.recordSend w buf).1, ()), (gnutls.recordSend w buf).2)) underlying
    rw [← tlsSend_snd] at hmoves
    exact ⟨_, _, rfl, ⟨rfl, rfl, rfl⟩, hmoves⟩

theorem Wired.refuses (h : Wired gnutls c) (hstate : c.underlying.state = .failed) (u : Use) :
    Refuses c u := by
  obtain ⟨underlying, recv, send, destroyUnderlying⟩ := c
  obtain ⟨rfl, rfl, rfl⟩ := h
  cases u with
  | recv nbytes =>
    have hrecv : tlsRecv gnutls underlying nbytes = (.failed EBADF, underlying) := by
      rw [tlsRecv, tlsRecvSend_failed hstate]
    rw [Refuses, TlsConnection.use, Option.map_some, hrecv]
    rfl
  | send buf =>
    have hsend : tlsSend gnutls underlying buf = (.failed EBADF, underlying) := by
      rw [tlsSend, tlsRecvSend_failed hstate]
    rw [Refuses, TlsConnection.use, Option.map_some, hsend]
    rfl

theorem recordsAfterHandshake_nil : RecordsAfterHandshake [] := by
  intro before call later h
  cases before <;> cases h

theorem RecordsAfterHandshake.snoc (h : RecordsAfterHandshake calls) {call : GnutlsCall}
    (hcall : call.isRecord = true → .handshake 0 ∈ calls) :
    RecordsAfterHandshake (calls ++ [call]) := by
  intro before call' later hsplit hrecord
  obtain rfl | ⟨later', last, rfl⟩ := List.eq_nil_or_concat later
  · obtain ⟨rfl, hlast⟩ := List.append_inj' hsplit rfl
    cases hlast
    exact hcall hrecord
  · rw [List.concat_eq_append, ← List.cons_append, ← List.append_assoc] at hsplit
    obtain ⟨hinit, -⟩ := List.append_inj' hsplit rfl
    exact h before call' later' hinit hrecord

structure Consistent (state : TlsState) (calls : List GnutlsCall) : Prop where
  records : RecordsAfterHandshake calls
  established : state = .established → .handshake 0 ∈ calls
  recorded : ∀ call ∈ calls, call.isRecord = true → state = .established
  fatal : .handshake GNUTLS_E_FATAL_ALERT_RECEIVED ∈ calls → state = .failed

theorem consistent_initialized : Consistent .initialized [] where
  records := recordsAfterHandshake_nil
  established h := by cases h
  recorded call h := by cases h
  fatal h := by cases h

theorem fatalAlert_ne_zero : GNUTLS_E_FATAL_ALERT_RECEIVED ≠ 0 := by decide

theorem Consistent.moves (h : Consistent state calls) (hmoves : Moves state new state') :
    Consistent state' (calls ++ new) := by
  cases hmoves with
  | refused =>
    rw [List.append_nil]
    exact h
  | @pending _ result hfailed hopen hzero =>
    have hold : ∀ call ∈ calls, ¬ call.isRecord = true :=
      fun call hcall hrecord => hopen (h.recorded call hcall hrecord)
    refine ⟨h.records.snoc (fun hrecord => by cases hrecord), ?_, ?_, ?_⟩
    · intro hstate
      split at hstate
      · cases hstate
      · exact absurd hstate hopen
    · intro call hcall hrecord
      obtain hcall | hcall := List.mem_append.mp hcall
      · exact absurd hrecord (hold call hcall)
      · rw [List.mem_singleton.mp hcall] at hrecord
        cases hrecord
    · intro hfatal
      obtain hfatal | hfatal := List.mem_append.mp hfatal
      · exact absurd (h.fatal hfatal) hfailed
      · cases List.mem_singleton.mp hfatal
        exact if_pos rfl
  | opened kind size hfailed hopen =>
    have hhandshake : .handshake 0 ∈ calls ++ [.handshake 0] :=
      List.mem_append_right _ (List.mem_singleton_self _)
    have hsplit : calls ++ [.handshake 0, .record kind size] =
        calls ++ [.handshake 0] ++ [.record kind size] := by
      rw [List.append_assoc, List.cons_append, List.nil_append]
    rw [hsplit]
    refine ⟨?_, fun _ => List.mem_append_left _ hhandshake, fun _ _ _ => rfl, ?_⟩
    · exact (h.records.snoc (fun hrecord => by cases hrecord)).snoc fun _ => hhandshake
    · intro hfatal
      simp only [List.mem_append, List.mem_singleton, GnutlsCall.handshake.injEq, reduceCtorEq,
        or_false, fatalAlert_ne_zero] at hfatal
      exact absurd (h.fatal hfatal) hfailed
  | record kind size =>
    have hhandshake := h.established rfl
    refine ⟨h.records.snoc fun _ => hhandshake, fun _ => List.mem_append_left _ hhandshake,
      fun _ _ _ => rfl, ?_⟩
    intro hfatal
    simp only [List.mem_append, List.mem_singleton, reduceCtorEq, or_false] at hfatal
    exact h.fatal hfatal

theorem Wired.after (h : Wired gnutls c)
    (hc : Consistent c.underlying.state c.underlying.calls) (hafter : c.after uses = some c') :
    Wired gnutls c' ∧ Consistent c'.underlying.state c'.underlying.calls := by
  induction uses generalizing c with
  | nil =>
    cases hafter
    exact ⟨h, hc⟩
  | cons u uses ih =>
    obtain ⟨r, c₁, huse, hwired, new, hcalls, hmoves⟩ := h.use u
    rw [TlsConnection.after, huse, Option.bind_some] at hafter
    apply ih hwired _ hafter
    rw [hcalls]
    exact hc.moves hmoves

/-- Setting up a session succeeds as a whole, or leaves every pointer unset. -/
theorem initialize_cases (h : tlsInitializeUnderlying gnutls setup world = some c) :
    (SetupSucceeds setup ∧ Wired gnutls c ∧ c.underlying = ⟨.initialized, world, []⟩) ∨
      (¬ SetupSucceeds setup ∧ c.recv = none ∧ c.send = none ∧ c.destroyUnderlying = none ∧
        c.underlying = ⟨.failed, world, []⟩) := by
  rw [tlsInitializeUnderlying] at h
  split at h
  · rename_i hinit
    cases h
    exact .inr ⟨fun hs => hinit hs.1, rfl, rfl, rfl, rfl⟩
  split at h
  · rename_i hpriority
    cases h
    exact .inr ⟨fun hs => hpriority hs.2.1, rfl, rfl, rfl, rfl⟩
  rename_i hinit hpriority
  obtain ⟨_, -, h⟩ := Option.bind_eq_some_iff.mp h
  split at h
  · rename_i hset
    cases h
    exact .inr ⟨fun hs => hset hs.2.2, rfl, rfl, rfl, rfl⟩
  · rename_i hset
    cases h
    exact .inl ⟨⟨not_not.mp hinit, not_not.mp hpriority, not_not.mp hset⟩, ⟨rfl, rfl, rfl⟩, rfl⟩

theorem Consistent.fatalRecord_of_open (h : Consistent state calls) (hstate : state ≠ .failed)
    (hfatal : FatalAlert calls) : FatalRecord calls := by
  obtain ⟨call, hmem, rfl | ⟨kind, rfl⟩⟩ := hfatal
  · exact absurd (h.fatal hmem) hstate
  · exact ⟨kind, hmem⟩

theorem Wired.not_refuses (h : Wired gnutls c)
    (hc : Consistent c.underlying.state c.underlying.calls)
    (hrecord : FatalRecord c.underlying.calls) : ¬ Refuses c u := by
  intro hrefuses
  obtain ⟨kind, hmem⟩ := hrecord
  have hstate := hc.recorded _ hmem rfl
  obtain ⟨r, c₁, huse, -, new, hcalls, hmoves⟩ := h.use u
  cases huse.symm.trans hrefuses
  have hnew : new = [] := List.append_cancel_left (hcalls.symm.trans (List.append_nil _).symm)
  rw [hnew, hstate] at hmoves
  cases hmoves

/-- A failed session stays failed exactly if its setup succeeded and nothing is
called after a fatal alert in the record layer. -/
theorem stays_failed_iff (h : tlsInitializeUnderlying gnutls setup world = some c)
    (uses : List Use) : StaysFailed setup c uses ↔ Spared setup c uses := by
  obtain ⟨hsetup, hwired, hfresh⟩ | ⟨hsetup, hrecv, -⟩ := initialize_cases h
  · have hconsistent : Consistent c.underlying.state c.underlying.calls := by
      rw [hfresh]
      exact consistent_initialized
    constructor
    · intro hstays
      refine ⟨hsetup, fun earlier u c' hpart hafter hrecord => ?_⟩
      obtain ⟨hwired', hconsistent'⟩ := hwired.after hconsistent hafter
      obtain ⟨kind, hmem⟩ := hrecord
      have hfatal : FatalAlert c'.underlying.calls := ⟨_, hmem, .inr ⟨kind, rfl⟩⟩
      exact hwired'.not_refuses hconsistent' ⟨kind, hmem⟩
        (hstays.refuses earlier u c' hpart hafter (.inr hfatal))
    · intro hspared
      refine ⟨by rw [hwired.recv]; rfl, by rw [hwired.send]; rfl,
        by rw [hwired.destroyUnderlying]; rfl, ?_, ?_⟩
      · intro earlier c' _ hafter
        exact (hwired.after hconsistent hafter).2.records
      · intro earlier u c' hpart hafter hfatal
        obtain ⟨hwired', hconsistent'⟩ := hwired.after hconsistent hafter
        obtain hnot | hfatal := hfatal
        · exact absurd hsetup hnot
        · by_cases hstate : c'.underlying.state = .failed
          · exact hwired'.refuses hstate u
          · exact absurd (hconsistent'.fatalRecord_of_open hstate hfatal)
              (hspared.record earlier u c' hpart hafter)
  · constructor
    · intro hstays
      have hset := hstays.recv
      rw [hrecv] at hset
      cases hset
    · intro hspared
      exact absurd hspared.setup hsetup

def answering (handshake record : Int) : Gnutls Unit where
  handshake _ := (handshake, ())
  recordRecv _ _ := ((record, []), ())
  recordSend _ _ := (record, ())
  bye _ := (0, ())

def smoothSetup : Setup := ⟨0, 0, 0, 0, 0⟩

theorem refused_handshake_spared {c : TlsConnection Unit}
    (h : tlsInitializeUnderlying (answering (-12) 0) smoothSetup () = some c) :
    Spared smoothSetup c [.recv 4096, .send []] := by
  refine ⟨⟨rfl, rfl, rfl⟩, ?_⟩
  intro earlier u c' hpart hafter
  cases h
  rintro ⟨kind, hmem⟩
  rcases earlier with _ | ⟨a, _ | ⟨b, rest⟩⟩
  · cases hafter
    cases hmem
  · cases (List.cons_prefix_cons.mp hpart).1
    cases hafter
    cases hmem with
    | tail _ hmem => cases hmem
  · have hlength := hpart.length_le
    simp only [List.length_append, List.length_cons, List.length_nil] at hlength
    omega

theorem stays_failed_iff_refused_handshake :
    ∃ c, tlsInitializeUnderlying (answering (-12) 0) smoothSetup () = some c ∧
      StaysFailed smoothSetup c [.recv 4096, .send []] :=
  ⟨_, rfl, (stays_failed_iff rfl _).mpr (refused_handshake_spared rfl)⟩

/-- A session that cannot be allocated leaves the pointers unset, and a session
with a fatal alert in the record layer is used again. -/
theorem failed_session_used_again :
    (∃ c, tlsInitializeUnderlying (answering 0 0) ⟨-25, 0, 0, 0, 0⟩ () = some c ∧
      c.recv.isNone ∧ c.send.isNone ∧ c.destroyUnderlying.isNone ∧
      ¬ StaysFailed ⟨-25, 0, 0, 0, 0⟩ c []) ∧
    ∃ c, tlsInitializeUnderlying (answering 0 (-12)) smoothSetup () = some c ∧
      ¬ StaysFailed smoothSetup c [.recv 4096, .recv 4096] := by
  refine ⟨⟨_, rfl, rfl, rfl, rfl, fun h => ?_⟩, ⟨_, rfl, fun h => ?_⟩⟩
  · have hset := h.recv
    cases hset
  · have hfatal : FatalAlert [.handshake 0, .record .recv (-12)] :=
      ⟨.record .recv (-12), List.mem_cons_of_mem _ List.mem_cons_self, .inr ⟨.recv, rfl⟩⟩
    have hrefuses := h.refuses [.recv 4096] (.recv 4096) _ (List.prefix_refl _) rfl (.inr hfatal)
    have hcalls := congrArg (Option.map fun r => r.2.underlying.calls.length) hrefuses
    revert hcalls
    decide

variable {limit : Nat}

/-- No record call returns more than it is asked for. -/
structure Bounded (gnutls : Gnutls σ) : Prop where
  recv : ∀ w n, (gnutls.recordRecv w n).1.1 ≤ n
  send : ∀ w buf, (gnutls.recordSend w buf).1 ≤ buf.length

theorem tlsRecvSend_size {α : Type} {kind : Operation} {operation : σ → (Int × α) × σ}
    (hbound : ∀ w, (operation w).1.1 ≤ limit) {size : Nat} {data : α}
    {after : ConnectionUnderlying σ}
    (h : tlsRecvSend gnutls kind operation underlying = (.ok (size, data), after)) :
    size ≤ limit := by
  rw [tlsRecvSend] at h
  split at h
  · cases h
  generalize (if underlying.state = .initialized ∨ underlying.state = .handshaking then
    doHandshake gnutls underlying else (0, underlying)) = first at h
  obtain ⟨result, opened⟩ := first
  dsimp only at h
  split at h
  · cases h
  split at h
  · split at h
    · cases h
    · cases h
      exact Int.toNat_le.mpr (hbound opened.world)
  · cases h

def tlsSocket (gnutls : Gnutls σ) : Socket (ConnectionUnderlying σ) where
  recv := tlsRecv gnutls
  send := tlsSend gnutls

theorem honest_tlsSocket (h : Bounded gnutls) : Honest (tlsSocket gnutls) where
  recv underlying n bytes hrecv := by
    simp only [tlsSocket, tlsRecv] at hrecv
    split at hrecv
    · cases hrecv
    · rename_i size data after he
      cases hrecv
      rw [List.length_take]
      exact Nat.le_trans (Nat.min_le_left _ _) (tlsRecvSend_size (fun w => h.recv w n) he)
  send underlying buf size hsend := by
    simp only [tlsSocket, tlsSend] at hsend
    split at hsend
    · cases hsend
    · rename_i he
      cases hsend
      exact tlsRecvSend_size (fun w => h.send w buf) he

end Hss.Tls
