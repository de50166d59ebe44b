import Hss.Server.Session
import Hss.Server.TlsConnection

namespace Hss.MainLoop

open Hss.DescriptorList Hss.Transaction Hss.Transport Hss.Connection Hss.Tls Hss.Transfer

inductive Io
  | recv
  | send
  | gnutls (call : GnutlsCall)
  deriving DecidableEq, Repr

def noting {σ : Type} (sock : Socket σ) : Socket (σ × List Io) where
  recv w n := ((sock.recv w.1 n).1, (sock.recv w.1 n).2, w.2 ++ [.recv])
  send w bytes := ((sock.send w.1 bytes).1, (sock.send w.1 bytes).2, w.2 ++ [.send])

/-- The function pointers of a connection, with its `underlying` if it has one. -/
inductive Transport (σ : Type)
  | tcp
  | tls (connection : TlsConnection σ)

/-- What a `struct connection_information` holds, and the number of connections
registered before it. -/
structure Peer (σ : Type) where
  serial : Nat
  information : ConnectionInformation
  transport : Transport σ

/-- What lies behind the plain sockets and behind the TLS sessions. -/
structure Outside (σ : Type) where
  tcp : Socket σ
  gnutls : Gnutls σ

inductive Observation
  | io (operation : Io)
  | closed (type : FileDescriptorType)
  deriving DecidableEq, Repr

/-- The bits of an event mask that the loop looks at; `hangup` is any of
`EPOLLERR`, `EPOLLHUP` and `EPOLLRDHUP`. -/
structure EpollEvents where
  hangup : Bool
  event : Event
  deriving DecidableEq, Repr

/-- Where the loop goes on once an entry has been destroyed. -/
inductive After
  | hangup (rest : List (Address × EpollEvents))
  | handled (rest : List (Address × EpollEvents))
  | leaving

inductive Phase
  | listening
  | waiting
  | handling (events : List (Address × EpollEvents))
  | destroying (information : Address) (after : After)
  | leaving
  | left

structure Server (σ : Type) where
  registry : Registry (Peer σ)
  globals : Globals
  accepted : Nat
  log : List (Nat × Observation)
  phase : Phase

variable {σ : Type}

def start (logLevel : LoggingLogLevel) : Server σ := ⟨initial, ⟨true, logLevel⟩, 0, [], .listening⟩

/-- The connection that `initialize_connection_information` sets up; `none` is
the exit of the program without a credential. -/
def initializePeer (outside : Outside σ) (type : FileDescriptorType) (setup : Setup) (w : σ)
    (serial : Nat) (request : Request.HttpRequest) (response : Response.HttpResponse) :
    Option (Peer σ) :=
  let information := initializeConnectionInformation type request response
  if type = .tcpSocket then some ⟨serial, information, .tcp⟩
  else (tlsInitializeUnderlying outside.gnutls setup w).map fun c => ⟨serial, information, .tls c⟩

structure Handled (σ : Type) where
  fate : Fate
  transport : Transport σ
  globals : Globals
  operations : List Io
  parsed : Option (List UInt8)
  rendered : Option (List UInt8)
  opened : Option (List UInt8)

def handleTcp (sock : Socket σ) (fuel : Nat) (env : Environment) (globals : Globals) (event : Event)
    (w : σ) (c : ConnectionInformation) : Option (Handled σ) :=
  (handleConnection fuel (recorded (noting sock)) env globals event c ((w, []), [], [])).map
    fun call => ⟨call.fate, .tcp, call.globals, call.world.1.2, call.parsed, call.rendered,
      call.opened⟩

/-- A call through a pointer that is not set crashes. -/
def handleTls (connection : TlsConnection σ) (fuel : Nat) (env : Environment) (globals : Globals)
    (event : Event) (w : σ) (c : ConnectionInformation) : Option (Handled σ) :=
  match connection.recv, connection.send with
  | some recv, some send =>
    (handleConnection fuel (recorded ⟨recv, send⟩) env globals event c
      (⟨connection.underlying.state, w, []⟩, [], [])).map fun call =>
        ⟨call.fate, .tls { connection with underlying := call.world.1 }, call.globals,
          call.world.1.calls.map .gnutls, call.parsed, call.rendered, call.opened⟩
  | _, _ =>
    if event.epollin = false ∧ c.state = .waitingRequest ∨
        event.epollout = false ∧ c.state = .writingResponse then
      some ⟨.alive c, .tls connection, globals, [], none, none, none⟩
    else some ⟨.crashed, .tls connection, globals, [], none, none, none⟩

/-- The world behind a connection has moved on by itself since the last call. -/
def handlePeer (outside : Outside σ) (fuel : Nat) (env : Environment) (globals : Globals)
    (event : Event) (w : σ) (p : Peer σ) : Option (Handled σ) :=
  match p.transport with
  | .tcp => handleTcp outside.tcp fuel env globals event w p.information
  | .tls connection => handleTls connection fuel env globals event w p.information

/-- The operations of `destroy_underlying`; `none` is a call through a pointer
that is not set. -/
def teardown (fuel : Nat) (w : σ) : Transport σ → Option (List Io)
  | .tcp => some []
  | .tls connection => do
    let destroy ← connection.destroyUnderlying
    let underlying ← destroy fuel ⟨connection.underlying.state, w, []⟩
    some (underlying.calls.map .gnutls)

def observe (serial : Nat) (operations : List Io) : List (Nat × Observation) :=
  operations.map fun operation => (serial, .io operation)

theorem closed_not_mem_observe (n serial : Nat) (type : FileDescriptorType) (operations : List Io) :
    (n, .closed type) ∉ observe serial operations := by
  intro h
  obtain ⟨op, -, heq⟩ := List.mem_map.mp h
  cases congrArg Prod.snd heq

structure Next (s : Server σ) (a : Address) (ev : EpollEvents) (rest : List (Address × EpollEvents))
    (e : FileDescriptorInformation (Peer σ)) : Prop where
  phase : s.phase = .handling ((a, ev) :: rest)
  entry : s.registry.entries a = some e

structure Handles (outside : Outside σ) (s : Server σ) (a : Address)
    (rest : List (Address × EpollEvents)) (e : FileDescriptorInformation (Peer σ)) (p : Peer σ)
    (env : Environment) (r : Handled σ) : Prop where
  next : ∃ ev fuel w, Next s a ev rest e ∧ ev.hangup = false ∧
    handlePeer outside fuel env s.globals ev.event w p = some r
  type : e.type ≠ .listenSocket
  connection : e.connection = some p

def Server.handled (s : Server σ) (a : Address) (e : FileDescriptorInformation (Peer σ))
    (p : Peer σ) (r : Handled σ) (information : ConnectionInformation) (phase : Phase) : Server σ where
  registry := { s.registry with
    entries := Function.update s.registry.entries a
      (some { e with connection := some { p with information, transport := r.transport } }) }
  globals := r.globals
  accepted := s.accepted
  log := s.log ++ observe p.serial r.operations
  phase := phase

/-- What `destroy_file_information` is observed to do. -/
def Observed (e : FileDescriptorInformation (Peer σ)) (observed : List (Nat × Observation)) :
    Prop :=
  e.connection = none ∧ observed = [] ∨ ∃ p fuel w operations, e.connection = some p ∧
    teardown fuel w p.transport = some operations ∧
    observed = (p.serial, .closed p.information.type) :: observe p.serial operations

/-- The phase after `destroy_file_information`, and the flag: the loop is left
when the last entry has hung up. -/
def After.resume (head : Option Address) (globals : Globals) : After → Globals × Phase
  | .hangup rest =>
    if head = none then ({ globals with running := false }, .waiting) else (globals, .handling rest)
  | .handled rest => (globals, .handling rest)
  | .leaving => (globals, .leaving)

/-- The steps of `main`. What `malloc`, `epoll_wait`, `accept` and the transports
return is any of what they can return; a step that is missing is undefined. -/
inductive Step (outside : Outside σ) : Server σ → Server σ → Prop
  | listen {s : Server σ} (a : Address) (fd : Int) (peer : Int → FileDescriptorType → Peer σ) :
      s.phase = .listening → s.registry.entries a = none →
      Step outside s { s with registry := registerFileDescriptor peer a fd .listenSocket s.registry }
  | listened {s : Server σ} : s.phase = .listening → Step outside s { s with phase := .waiting }
  | wait {s : Server σ} (events : List (Address × EpollEvents)) : s.phase = .waiting →
      s.globals.running = true → events.length ≤ 128 → (events.map (·.1)).Nodup →
      (∀ ev ∈ events, s.registry.entries ev.1 ≠ none) →
      Step outside s { s with phase := .handling events }
  | stop {s : Server σ} : s.phase = .waiting → s.globals.running = false →
      Step outside s { s with phase := .leaving }
  | next {s : Server σ} : s.phase = .handling [] → Step outside s { s with phase := .waiting }
  | hangup {s : Server σ} {a : Address} {ev : EpollEvents} {rest : List (Address × EpollEvents)}
      {e : FileDescriptorInformation (Peer σ)} : Next s a ev rest e → ev.hangup = true →
      Step outside s { s with phase := .destroying a (.hangup rest) }
  | refuse {s : Server σ} {a : Address} {ev : EpollEvents} {rest : List (Address × EpollEvents)}
      {e : FileDescriptorInformation (Peer σ)} : Next s a ev rest e → ev.hangup = false →
      e.type = .listenSocket → Step outside s { s with phase := .handling rest }
  | accept {s : Server σ} {a : Address} {ev : EpollEvents} {rest : List (Address × EpollEvents)}
      {e : FileDescriptorInformation (Peer σ)} {p : Peer σ} (new : Address) (fd : Int)
      (type : FileDescriptorType) (setup : Setup) (w : σ) (request : Request.HttpRequest)
      (response : Response.HttpResponse) : Next s a ev rest e → ev.hangup = false →
      e.type = .listenSocket → type ≠ .listenSocket → s.registry.entries new = none →
      initializePeer outside type setup w s.accepted request response = some p →
      Step outside s { s with
        registry := registerFileDescriptor (fun _ _ => p) new fd type s.registry
        accepted := s.accepted + 1
        phase := .handling rest }
  | exit {s : Server σ} {a : Address} {ev : EpollEvents} {rest : List (Address × EpollEvents)}
      {e : FileDescriptorInformation (Peer σ)} (setup : Setup) (w : σ)
      (request : Request.HttpRequest) (response : Response.HttpResponse) : Next s a ev rest e →
      ev.hangup = false → e.type = .listenSocket →
      initializePeer outside .tlsSocket setup w s.accepted request response = none →
      Step outside s { s with phase := .left }
  | handle {s : Server σ} {a : Address} {rest : List (Address × EpollEvents)}
      {e : FileDescriptorInformation (Peer σ)} {p : Peer σ} {env : Environment} {r : Handled σ}
      {c : ConnectionInformation} : Handles outside s a rest e p env r → r.fate = .alive c →
      Step outside s (s.handled a e p r c (.handling rest))
  | fail {s : Server σ} {a : Address} {rest : List (Address × EpollEvents)}
      {e : FileDescriptorInformation (Peer σ)} {p : Peer σ} {env : Environment} {r : Handled σ} :
      Handles outside s a rest e p env r → r.fate = .destroyed →
      Step outside s (s.handled a e p r p.information (.destroying a (.handled rest)))
  | destroy {s : Server σ} {a : Address} {after : After}
      {e : FileDescriptorInformation (Peer σ)} {registry : Registry (Peer σ)}
      {globals : Globals} {phase : Phase} {observed : List (Nat × Observation)} :
      s.phase = .destroying a after → s.registry.entries a = some e →
      destroyFileInformation a s.registry = some registry →
      after.resume registry.head s.globals = (globals, phase) →
      Observed e observed →
      Step outside s { s with registry, globals, log := s.log ++ observed, phase }
  | leave {s : Server σ} {a : Address} : s.phase = .leaving → s.registry.head = some a →
      Step outside s { s with phase := .destroying a .leaving }
  | left {s : Server σ} : s.phase = .leaving → s.registry.head = none →
      Step outside s { s with phase := .left }

inductive Reachable (outside : Outside σ) : Server σ → Prop
  | start (logLevel : LoggingLogLevel) : Reachable outside (start logLevel)
  | step {s s' : Server σ} : Reachable outside s → Step outside s s' → Reachable outside s'

def connectionAt {C : Type} (r : Registry C) (a : Address) : Option C :=
  (r.entries a).bind (·.connection)

section Entries

variable {C : Type} {r r' : Registry C} {a : Address}

theorem connectionAt_none (h : r.entries a = none) : connectionAt r a = none := by
  rw [connectionAt, h, Option.bind_none]

theorem connectionAt_entry {e : FileDescriptorInformation C} {c : C} (h : r.entries a = some e)
    (hc : e.connection = some c) : connectionAt r a = some c := by
  rw [connectionAt, h, Option.bind_some, hc]

theorem connectionAt_register (init : Int → FileDescriptorType → C) (fd : Int)
    (type : FileDescriptorType) :
    connectionAt (registerFileDescriptor init a fd type r) = Function.update (connectionAt r) a
      (if type ≠ .listenSocket then some (init fd type) else none) := by
  funext b
  by_cases hb : b = a
  · subst hb
    simp only [connectionAt, registerFileDescriptor, Function.update_self, Option.bind_some]
  · simp only [connectionAt, registerFileDescriptor, Function.update_of_ne hb]

theorem connectionAt_store {link : Link} {target : Option Address}
    (h : r.store target link = some r') : connectionAt r' = connectionAt r := by
  cases link with
  | head =>
    cases h
    rfl
  | next b =>
    obtain ⟨e, he, rfl⟩ := Option.map_eq_some_iff.mp h
    funext c
    by_cases hc : c = b
    · subst hc
      simp only [connectionAt, Function.update_self, he, Option.bind_some]
    · simp only [connectionAt, Function.update_of_ne hc]

theorem connectionAt_destroy (h : destroyFileInformation a r = some r') :
    connectionAt r' = Function.update (connectionAt r) a none := by
  obtain ⟨e, -, h⟩ := Option.bind_eq_some_iff.mp h
  obtain ⟨r₁, hstore, h⟩ := Option.bind_eq_some_iff.mp h
  cases h
  have hkeep := connectionAt_store hstore
  funext b
  by_cases hb : b = a
  · subst hb
    simp only [connectionAt, Function.update_self, Option.bind_none]
  · have hkeepb := congrFun hkeep b
    simp only [connectionAt, Function.update_of_ne hb] at hkeepb ⊢
    exact hkeepb

end Entries

theorem writeResponse_type {fuel : Nat} {sock : Socket σ} {c c' : ConnectionInformation} {w : σ}
    {world : σ} (h : writeResponse fuel sock c w = some (.alive c', world)) : c'.type = c.type := by
  obtain ⟨⟨why, s⟩, -, h⟩ := Option.bind_eq_some_iff.mp h
  cases why <;> cases h <;> rfl

theorem handleConnection_type {fuel : Nat} {sock : Socket σ} {env : Environment} {globals : Globals}
    {event : Event} {c c' : ConnectionInformation} {w : Log σ} {call : Call (Log σ)}
    (h : handleConnection fuel (recorded sock) env globals event c w = some call)
    (halive : call.fate = .alive c') : c'.type = c.type := by
  cases calling_of_handleConnection h with
  | skipped | idle =>
    cases halive
    rfl
  | destroyed | crashed => cases halive
  | served _ _ hserving =>
    cases hserving with
    | unparsed | unanswered => cases halive
    | incomplete =>
      cases halive
      rfl
    | answered _ _ hrespond hwrite =>
      subst halive
      have htype := (respond_cases hrespond).2.1
      exact (writeResponse_type hwrite).trans htype
  | written _ hwrite =>
    subst halive
    exact writeResponse_type hwrite

/-- The connection object is one that its socket has led to, and the pointers are
those of its transport, or none is set. -/
def Owned (outside : Outside σ) (p : Peer σ) : Prop :=
  match p.transport with
  | .tcp => p.information.type = .tcpSocket ∧ ∃ l, Session.Run (noting outside.tcp) p.information l
  | .tls c => p.information.type = .tlsSocket ∧
      (Wired outside.gnutls c ∧ (∃ l, Session.Run (tlsSocket outside.gnutls) p.information l) ∨
        c.recv = none ∧ c.send = none ∧ c.destroyUnderlying = none)

variable {outside : Outside σ} {p : Peer σ} {r : Handled σ} {fuel : Nat} {env : Environment}
  {globals : Globals} {event : Event} {w : σ} {s s' : Server σ}

theorem Owned.type_ne_listen (h : Owned outside p) :
    p.information.type = .tcpSocket ∨ p.information.type = .tlsSocket := by
  rw [Owned] at h
  split at h
  · exact .inl h.1
  · exact .inr h.1

theorem owned_initialize {type : FileDescriptorType} (htype : type ≠ .listenSocket) {setup : Setup}
    {serial : Nat} {request : Request.HttpRequest} {response : Response.HttpResponse}
    (h : initializePeer outside type setup w serial request response = some p) :
    Owned outside p ∧ p.serial = serial := by
  rw [initializePeer] at h
  split at h
  · rename_i htcp
    cases h
    refine ⟨⟨htcp, .fresh, ?_⟩, rfl⟩
    exact .accepted type request response
  · rename_i htcp
    obtain ⟨c, hc, rfl⟩ := Option.map_eq_some_iff.mp h
    have htls : type = .tlsSocket := by
      cases type with
      | listenSocket => exact absurd rfl htype
      | tcpSocket => exact absurd rfl htcp
      | tlsSocket => rfl
    refine ⟨⟨htls, ?_⟩, rfl⟩
    obtain ⟨-, hwired, -⟩ | ⟨-, hrecv, hsend, hdestroy, -⟩ := initialize_cases hc
    · exact .inl ⟨hwired, .fresh, .accepted type request response⟩
    · exact .inr ⟨hrecv, hsend, hdestroy⟩

theorem Owned.handleTcp (h : Owned outside p) (htransport : p.transport = .tcp)
    (hr : handleTcp outside.tcp fuel env globals event w p.information = some r) :
    Owned outside { p with transport := r.transport } ∧ ∀ c, r.fate = .alive c →
      Owned outside { p with information := c, transport := r.transport } := by
  obtain ⟨call, hcall, rfl⟩ := Option.map_eq_some_iff.mp hr
  rw [Owned, htransport] at h
  obtain ⟨htype, l, hrun⟩ := h
  refine ⟨⟨htype, l, hrun⟩, fun c halive => ?_⟩
  have hnext := hrun.call fuel env globals event (w, []) call hcall halive
  exact ⟨(handleConnection_type hcall halive).trans htype, _, hnext⟩

theorem handleTls_wired {gnutls : Gnutls σ} {connection : TlsConnection σ}
    {c : ConnectionInformation} (hwired : Wired gnutls connection)
    (hr : handleTls connection fuel env globals event w c = some r) :
    ∃ call, handleConnection fuel (recorded (tlsSocket gnutls)) env globals event c
        (⟨connection.underlying.state, w, []⟩, [], []) = some call ∧
      r = ⟨call.fate, .tls { connection with underlying := call.world.1 }, call.globals,
        call.world.1.calls.map .gnutls, call.parsed, call.rendered, call.opened⟩ := by
  rw [handleTls, hwired.recv, hwired.send] at hr
  obtain ⟨call, hcall, rfl⟩ := Option.map_eq_some_iff.mp hr
  exact ⟨call, hcall, by rw [hwired.recv, hwired.send]⟩

theorem handleTls_of_recv_eq_none {connection : TlsConnection σ} {c : ConnectionInformation}
    (hnone : connection.recv = none)
    (hr : handleTls connection fuel env globals event w c = some r) :
    r = ⟨.alive c, .tls connection, globals, [], none, none, none⟩ ∨
      r = ⟨.crashed, .tls connection, globals, [], none, none, none⟩ := by
  simp only [handleTls, hnone] at hr
  split at hr
  · exact .inl (Option.some.inj hr).symm
  · exact .inr (Option.some.inj hr).symm

theorem Owned.handleTls (h : Owned outside p) {connection : TlsConnection σ}
    (htransport : p.transport = .tls connection)
    (hr : handleTls connection fuel env globals event w p.information = some r) :
    Owned outside { p with transport := r.transport } ∧ ∀ c, r.fate = .alive c →
      Owned outside { p with information := c, transport := r.transport } := by
  rw [Owned, htransport] at h
  obtain ⟨htype, hpointers⟩ := h
  obtain ⟨hwired, l, hrun⟩ | hnone := hpointers
  · obtain ⟨call, hcall, rfl⟩ := handleTls_wired hwired hr
    have hkept : Wired outside.gnutls { connection with underlying := call.world.1 } :=
      ⟨hwired.recv, hwired.send, hwired.destroyUnderlying⟩
    refine ⟨⟨htype, .inl ⟨hkept, l, hrun⟩⟩, fun c halive => ?_⟩
    have hnext := hrun.call fuel env globals event _ call hcall halive
    exact ⟨(handleConnection_type hcall halive).trans htype, .inl ⟨hkept, _, hnext⟩⟩
  · obtain rfl | rfl := handleTls_of_recv_eq_none hnone.1 hr
    · refine ⟨⟨htype, .inr hnone⟩, fun c halive => ?_⟩
      cases halive
      exact ⟨htype, .inr hnone⟩
    · refine ⟨⟨htype, .inr hnone⟩, fun c halive => ?_⟩
      cases halive

theorem Owned.handle (h : Owned outside p)
    (hr : handlePeer outside fuel env globals event w p = some r) :
    Owned outside { p with transport := r.transport } ∧ ∀ c, r.fate = .alive c →
      Owned outside { p with information := c, transport := r.transport } := by
  rw [handlePeer] at hr
  split at hr
  · rename_i htransport
    exact h.handleTcp htransport hr
  · rename_i htransport
    exact h.handleTls htransport hr

/-- What holds in every state of a run: a connection belongs to one entry, and its
descriptor is open while the entry is live. -/
structure Sane (outside : Outside σ) (s : Server σ) : Prop where
  owned : ∀ a p, connectionAt s.registry a = some p → Owned outside p
  serial : ∀ a p, connectionAt s.registry a = some p → p.serial < s.accepted
  isOpen : ∀ a p type, connectionAt s.registry a = some p → (p.serial, .closed type) ∉ s.log
  distinct : ∀ a b p q, connectionAt s.registry a = some p → connectionAt s.registry b = some q →
    p.serial = q.serial → a = b
  below : ∀ o ∈ s.log, o.1 < s.accepted

theorem sane_start (outside : Outside σ) (logLevel : LoggingLogLevel) :
    Sane outside (start logLevel) where
  owned _ _ h := by cases h
  serial _ _ h := by cases h
  isOpen _ _ _ h := by cases h
  distinct _ _ _ _ h := by cases h
  below _ h := by cases h

theorem update_cases {C : Type} {f f' : Address → Option C} {a b : Address} {q q' : C}
    (h : f' = Function.update f a (some q)) (hb : f' b = some q') :
    (b = a ∧ q' = q) ∨ (b ≠ a ∧ f b = some q') := by
  rw [h] at hb
  by_cases hne : b = a
  · subst hne
    rw [Function.update_self] at hb
    exact .inl ⟨rfl, (Option.some.inj hb).symm⟩
  · rw [Function.update_of_ne hne] at hb
    exact .inr ⟨hne, hb⟩

theorem connectionAt_handled {a : Address} {e : FileDescriptorInformation (Peer σ)}
    (c : ConnectionInformation) (phase : Phase) :
    connectionAt (s.handled a e p r c phase).registry = Function.update (connectionAt s.registry) a
      (some { p with information := c, transport := r.transport }) := by
  funext b
  by_cases hb : b = a
  · subst hb
    simp only [connectionAt, Server.handled, Function.update_self, Option.bind_some]
  · simp only [connectionAt, Server.handled, Function.update_of_ne hb]

theorem Handles.connectionAt {a : Address} {rest : List (Address × EpollEvents)}
    {e : FileDescriptorInformation (Peer σ)} (h : Handles outside s a rest e p env r) :
    connectionAt s.registry a = some p := by
  obtain ⟨ev, fuel, w, hnext, -, -⟩ := h.next
  exact connectionAt_entry hnext.entry h.connection

theorem Sane.replace (h : Sane outside s) {a : Address} {q : Peer σ}
    (hp : MainLoop.connectionAt s.registry a = some p) (hq : Owned outside q)
    (hserial : q.serial = p.serial)
    (hentries : MainLoop.connectionAt s'.registry =
      Function.update (MainLoop.connectionAt s.registry) a (some q))
    (haccepted : s'.accepted = s.accepted) {operations : List Io}
    (hlog : s'.log = s.log ++ observe p.serial operations) : Sane outside s' := by
  have hold : ∀ b q', MainLoop.connectionAt s'.registry b = some q' →
      ∃ q₀, MainLoop.connectionAt s.registry b = some q₀ ∧ q'.serial = q₀.serial := by
    intro b q' hb
    obtain ⟨rfl, rfl⟩ | ⟨-, hb⟩ := update_cases hentries hb
    · exact ⟨p, hp, hserial⟩
    · exact ⟨q', hb, rfl⟩
  refine ⟨?_, ?_, ?_, ?_, ?_⟩
  · intro b q' hb
    obtain ⟨rfl, rfl⟩ | ⟨-, hb⟩ := update_cases hentries hb
    · exact hq
    · exact h.owned b q' hb
  · intro b q' hb
    obtain ⟨q₀, hq₀, hs⟩ := hold b q' hb
    rw [hs, haccepted]
    exact h.serial b q₀ hq₀
  · intro b q' type hb hmem
    obtain ⟨q₀, hq₀, hs⟩ := hold b q' hb
    rw [hs, hlog] at hmem
    obtain hmem | hmem := List.mem_append.mp hmem
    · exact h.isOpen b q₀ type hq₀ hmem
    · exact closed_not_mem_observe _ _ _ _ hmem
  · intro b b' q₁ q₂ hb hb' heq
    obtain ⟨p₁, hp₁, hs₁⟩ := hold b q₁ hb
    obtain ⟨p₂, hp₂, hs₂⟩ := hold b' q₂ hb'
    exact h.distinct b b' p₁ p₂ hp₁ hp₂ (hs₁.symm.trans (heq.trans hs₂))
  · intro o ho
    rw [hlog] at ho
    rw [haccepted]
    obtain ho | ho := List.mem_append.mp ho
    · exact h.below o ho
    · obtain ⟨op, -, rfl⟩ := List.mem_map.mp ho
      exact h.serial a p hp

theorem Sane.quiet (h : Sane outside s)
    (hentries : ∀ a p, MainLoop.connectionAt s'.registry a = some p →
      MainLoop.connectionAt s.registry a = some p)
    (haccepted : s'.accepted = s.accepted) (hlog : s'.log = s.log) : Sane outside s' := by
  refine ⟨?_, ?_, ?_, ?_, ?_⟩
  · exact fun a p hp => h.owned a p (hentries a p hp)
  · intro a p hp
    rw [haccepted]
    exact h.serial a p (hentries a p hp)
  · intro a p type hp
    rw [hlog]
    exact h.isOpen a p type (hentries a p hp)
  · exact fun a b p q hp hq => h.distinct a b p q (hentries a p hp) (hentries b q hq)
  · intro o ho
    rw [hlog] at ho
    rw [haccepted]
    exact h.below o ho

theorem Sane.accept (h : Sane outside s) {new : Address}
    (hnew : MainLoop.connectionAt s.registry new = none) (hp : Owned outside p)
    (hserial : p.serial = s.accepted)
    (hentries : MainLoop.connectionAt s'.registry =
      Function.update (MainLoop.connectionAt s.registry) new (some p))
    (haccepted : s'.accepted = s.accepted + 1) (hlog : s'.log = s.log) : Sane outside s' := by
  refine ⟨?_, ?_, ?_, ?_, ?_⟩
  · intro b q hb
    obtain ⟨rfl, rfl⟩ | ⟨-, hb⟩ := update_cases hentries hb
    · exact hp
    · exact h.owned b q hb
  · intro b q hb
    rw [haccepted]
    obtain ⟨rfl, rfl⟩ | ⟨-, hb⟩ := update_cases hentries hb
    · exact hserial ▸ Nat.lt_succ_self _
    · exact Nat.lt_succ_of_lt (h.serial b q hb)
  · intro b q type hb hmem
    rw [hlog] at hmem
    obtain ⟨rfl, rfl⟩ | ⟨-, hb⟩ := update_cases hentries hb
    · exact absurd (h.below _ hmem) (Nat.not_lt_of_le (Nat.le_of_eq hserial.symm))
    · exact h.isOpen b q type hb hmem
  · intro b b' q q' hb hb' heq
    obtain ⟨rfl, rfl⟩ | ⟨-, hb⟩ := update_cases hentries hb
    · obtain ⟨rfl, rfl⟩ | ⟨-, hb'⟩ := update_cases hentries hb'
      · rfl
      · have hlt := h.serial b' q' hb'
        omega
    · obtain ⟨rfl, rfl⟩ | ⟨-, hb'⟩ := update_cases hentries hb'
      · have hlt := h.serial b q hb
        omega
      · exact h.distinct b b' q q' hb hb' heq
  · intro o ho
    rw [hlog] at ho
    rw [haccepted]
    exact Nat.lt_succ_of_lt (h.below o ho)

theorem Sane.destroy (h : Sane outside s) {a : Address} {e : FileDescriptorInformation (Peer σ)}
    (he : s.registry.entries a = some e) {observed : List (Nat × Observation)}
    (hobserved : Observed e observed)
    (hentries : MainLoop.connectionAt s'.registry =
      Function.update (MainLoop.connectionAt s.registry) a none)
    (haccepted : s'.accepted = s.accepted) (hlog : s'.log = s.log ++ observed) :
    Sane outside s' := by
  have hcases : ∀ b q, MainLoop.connectionAt s'.registry b = some q →
      b ≠ a ∧ MainLoop.connectionAt s.registry b = some q := by
    intro b q hb
    rw [hentries] at hb
    by_cases hne : b = a
    · subst hne
      rw [Function.update_self] at hb
      cases hb
    · rw [Function.update_of_ne hne] at hb
      exact ⟨hne, hb⟩
  have hserial : ∀ o ∈ observed, ∃ p, MainLoop.connectionAt s.registry a = some p ∧
      o.1 = p.serial := by
    intro o ho
    obtain ⟨-, rfl⟩ | ⟨p, fuel, w, operations, hp, -, rfl⟩ := hobserved
    · cases ho
    · refine ⟨p, connectionAt_entry he hp, ?_⟩
      obtain rfl | ho := List.mem_cons.mp ho
      · rfl
      · obtain ⟨op, -, rfl⟩ := List.mem_map.mp ho
        rfl
  refine ⟨?_, ?_, ?_, ?_, ?_⟩
  · exact fun b q hb => h.owned b q (hcases b q hb).2
  · intro b q hb
    rw [haccepted]
    exact h.serial b q (hcases b q hb).2
  · intro b q type hb hmem
    obtain ⟨hne, hb⟩ := hcases b q hb
    rw [hlog] at hmem
    obtain hmem | hmem := List.mem_append.mp hmem
    · exact h.isOpen b q type hb hmem
    · obtain ⟨p, hp, hs⟩ := hserial _ hmem
      exact hne (h.distinct b a q p hb hp hs)
  · exact fun b b' q q' hb hb' => h.distinct b b' q q' (hcases b q hb).2 (hcases b' q' hb').2
  · intro o ho
    rw [hlog] at ho
    rw [haccepted]
    obtain ho | ho := List.mem_append.mp ho
    · exact h.below o ho
    · obtain ⟨p, hp, hs⟩ := hserial o ho
      rw [hs]
      exact h.serial a p hp

theorem Handles.owned (hh : Sane outside s) {a : Address} {rest : List (Address × EpollEvents)}
    {e : FileDescriptorInformation (Peer σ)} (h : Handles outside s a rest e p env r) :
    Owned outside { p with transport := r.transport } ∧ ∀ c, r.fate = .alive c →
      Owned outside { p with information := c, transport := r.transport } := by
  obtain ⟨ev, fuel, w, -, -, hr⟩ := h.next
  exact (hh.owned a p h.connectionAt).handle hr

theorem Sane.step (h : Sane outside s) (hstep : Step outside s s') : Sane outside s' := by
  cases hstep with
  | listen a fd peer _ ha =>
    refine h.quiet (fun b p hb => ?_) rfl rfl
    rw [connectionAt_register, if_neg (not_not.mpr rfl)] at hb
    by_cases hne : b = a
    · subst hne
      rw [Function.update_self] at hb
      cases hb
    · rwa [Function.update_of_ne hne] at hb
  | listened => exact h.quiet (fun _ _ hb => hb) rfl rfl
  | wait => exact h.quiet (fun _ _ hb => hb) rfl rfl
  | stop => exact h.quiet (fun _ _ hb => hb) rfl rfl
  | next => exact h.quiet (fun _ _ hb => hb) rfl rfl
  | hangup => exact h.quiet (fun _ _ hb => hb) rfl rfl
  | refuse => exact h.quiet (fun _ _ hb => hb) rfl rfl
  | accept new fd type setup w request response _ _ _ htype hnew hp =>
    obtain ⟨howned, hserial⟩ := owned_initialize htype hp
    refine h.accept (connectionAt_none hnew) howned hserial ?_ rfl rfl
    rw [connectionAt_register, if_pos htype]
  | exit => exact h.quiet (fun _ _ hb => hb) rfl rfl
  | handle hhandles halive =>
    have howned := (hhandles.owned h).2 _ halive
    exact h.replace hhandles.connectionAt howned rfl (connectionAt_handled _ _) rfl rfl
  | fail hhandles =>
    have howned := (hhandles.owned h).1
    exact h.replace hhandles.connectionAt howned rfl (connectionAt_handled _ _) rfl rfl
  | destroy _ he hdestroy _ hobserved =>
    exact h.destroy he hobserved (connectionAt_destroy hdestroy) rfl rfl
  | leave => exact h.quiet (fun _ _ hb => hb) rfl rfl
  | left => exact h.quiet (fun _ _ hb => hb) rfl rfl

theorem Reachable.sane (h : Reachable outside s) : Sane outside s := by
  induction h with
  | start logLevel => exact sane_start outside logLevel
  | step _ hstep ih => exact ih.step hstep

/-- What the server sees of an event: a call on a connection that its socket has
led to, or nothing, where there are no pointers to call through. -/
inductive Makes (globals : Globals) (p : Peer σ) (env : Environment) (r : Handled σ) : Prop
  | call {τ : Type} {sock : Socket τ} {l : Session.Ledger} {fuel : Nat} {event : Event} {w : τ}
      {call : Call (Log τ)} : Honest sock → Session.Run sock p.information l →
      handleConnection fuel (recorded sock) env globals event p.information (w, [], []) =
        some call → r.globals = call.globals → r.parsed = call.parsed →
      r.rendered = call.rendered → r.opened = call.opened → Makes globals p env r
  | nothing : r.globals = globals → r.rendered = none → r.opened = none → Makes globals p env r

theorem honest_noting {sock : Socket σ} (h : Honest sock) : Honest (noting sock) where
  recv w n bytes hrecv := h.recv w.1 n bytes hrecv
  send w bytes size hsend := h.send w.1 bytes size hsend

theorem Handles.makes (hs : Sane outside s) (htcp : Honest outside.tcp)
    (hgnutls : Bounded outside.gnutls) {a : Address} {rest : List (Address × EpollEvents)}
    {e : FileDescriptorInformation (Peer σ)} (h : Handles outside s a rest e p env r) :
    Makes s.globals p env r := by
  obtain ⟨ev, fuel, w, -, -, hr⟩ := h.next
  have howned := hs.owned a p h.connectionAt
  rw [handlePeer] at hr
  rw [Owned] at howned
  split at hr
  · rename_i htransport
    rw [htransport] at howned
    obtain ⟨-, l, hrun⟩ := howned
    obtain ⟨call, hcall, rfl⟩ := Option.map_eq_some_iff.mp hr
    exact .call (honest_noting htcp) hrun hcall rfl rfl rfl rfl
  · rename_i htransport
    rw [htransport] at howned
    obtain ⟨-, hpointers⟩ := howned
    obtain ⟨hwired, l, hrun⟩ | ⟨hnone, -⟩ := hpointers
    · obtain ⟨call, hcall, rfl⟩ := handleTls_wired hwired hr
      exact .call (honest_tlsSocket hgnutls) hrun hcall rfl rfl rfl rfl
    · obtain rfl | rfl := handleTls_of_recv_eq_none hnone hr
      · exact .nothing rfl rfl rfl
      · exact .nothing rfl rfl rfl

/-- A session whose records are what a plain socket carries. -/
def unprotected (sock : Socket σ) : Gnutls σ where
  handshake w := (0, w)
  recordRecv w n :=
    match sock.recv w n with
    | (.received bytes, w) => ((bytes.length, bytes), w)
    | (.failed _, w) => ((GNUTLS_E_AGAIN, []), w)
  recordSend w bytes :=
    match sock.send w bytes with
    | (.sent size, w) => (size, w)
    | (.failed _, w) => (GNUTLS_E_AGAIN, w)
  bye w := (0, w)

theorem bounded_unprotected {sock : Socket σ} (h : Honest sock) : Bounded (unprotected sock) := by
  have hagain : GNUTLS_E_AGAIN ≤ 0 := by decide
  constructor
  · intro w n
    simp only [unprotected]
    rcases hr : sock.recv w n with ⟨bytes | errno, w'⟩
    · exact Int.ofNat_le.mpr (h.recv w n bytes (by rw [hr]))
    · exact Int.le_trans hagain (Int.natCast_nonneg n)
  · intro w bytes
    simp only [unprotected]
    rcases hr : sock.send w bytes with ⟨size | errno, w'⟩
    · exact Int.ofNat_le.mpr (h.send w bytes size (by rw [hr]))
    · exact Int.le_trans hagain (Int.natCast_nonneg _)

/-- The server after one connection has been accepted, with an event for it. -/
theorem served (outside : Outside σ) {type : FileDescriptorType} (htype : type ≠ .listenSocket)
    (w : σ) {p : Peer σ} (hp : initializePeer outside type smoothSetup w 0 Acceptance.freshBlock
      Response.freshResponse = some p) (ev : EpollEvents) :
    ∃ s e, Reachable outside s ∧ Next s 1 ev [] e ∧ e.type = type ∧ e.connection = some p ∧
      s.globals = ⟨true, .information⟩ ∧ s.log = [] ∧
      ∃ registry, destroyFileInformation 1 s.registry = some registry := by
  have hstart : Reachable outside (start .information) := .start .information
  have hlisten := hstart.step (.listen 0 3 (fun _ _ => p) rfl rfl)
  have hwaiting := hlisten.step (.listened rfl)
  have hready := hwaiting.step (.wait [(0, ⟨false, true, true⟩)] rfl rfl (by decide) (by decide)
    (by simp [registerFileDescriptor]))
  have haccepted := hready.step (.accept 1 4 type smoothSetup w Acceptance.freshBlock
    Response.freshResponse ⟨rfl, rfl⟩ rfl rfl htype rfl hp)
  have hagain := haccepted.step (.next rfl)
  have hevent := hagain.step (.wait [(1, ev)] rfl rfl (by simp) (by simp)
    (by simp [registerFileDescriptor]))
  exact ⟨_, _, hevent, ⟨rfl, rfl⟩, rfl, if_pos htype, rfl, rfl, _, rfl⟩

theorem served_handles (outside : Outside σ) {type : FileDescriptorType}
    (htype : type ≠ .listenSocket) (w w' : σ) {p : Peer σ}
    (hp : initializePeer outside type smoothSetup w 0 Acceptance.freshBlock Response.freshResponse =
      some p) {fuel : Nat} {env : Environment} {event : Event} {r : Handled σ}
    (hr : handlePeer outside fuel env ⟨true, .information⟩ event w' p = some r) :
    ∃ s e, Reachable outside s ∧ Handles outside s 1 [] e p env r ∧
      s.globals = ⟨true, .information⟩ := by
  obtain ⟨s, e, hreach, hnext, hentry, hconnection, hglobals, -⟩ :=
    served outside htype w hp ⟨false, event⟩
  have hr' : handlePeer outside fuel env s.globals event w' p = some r := by
    rw [hglobals]
    exact hr
  exact ⟨s, e, hreach, ⟨⟨_, fuel, w', hnext, rfl, hr'⟩, by rwa [hentry], hconnection⟩, hglobals⟩

def secured : Outside (List UInt8 × List Nat) := ⟨chunked, unprotected chunked⟩

/-- A connection that is accepted receives this, and is alive then. -/
structure Called (host : Host) (n : Nat) (globals : Globals) (request : List UInt8)
    (p : Peer (List UInt8 × List Nat)) (r : Handled (List UInt8 × List Nat))
    (c : ConnectionInformation) : Prop where
  accepted : initializePeer secured .tlsSocket smoothSetup ([], []) n Acceptance.freshBlock
    Response.freshResponse = some p
  serial : p.serial = n
  handled : handlePeer secured 9 ⟨Session.roomy, host⟩ globals Session.readable (request, []) p =
    some r
  alive : r.fate = .alive c

def firstCall (host : Host) (n : Nat) (globals : Globals) (request : List UInt8)
    (check : Handled (List UInt8 × List Nat) → Bool) : Bool :=
  ((initializePeer secured .tlsSocket smoothSetup ([], []) n Acceptance.freshBlock
    Response.freshResponse).bind fun p => handlePeer secured 9 ⟨Session.roomy, host⟩ globals
      Session.readable (request, []) p).any fun r =>
        r.fate ≠ .destroyed ∧ r.fate ≠ .crashed ∧ check r

theorem called_of_firstCall {host : Host} {n : Nat} {globals : Globals} {request : List UInt8}
    {check : Handled (List UInt8 × List Nat) → Bool}
    (h : firstCall host n globals request check = true) :
    ∃ p r c, Called host n globals request p r c ∧ check r = true := by
  obtain ⟨r, hr, hchecks⟩ := (Option.any_eq_true _ _).mp h
  obtain ⟨p, hp, hr⟩ := Option.bind_eq_some_iff.mp hr
  obtain ⟨hdestroyed, hcrashed, hcheck⟩ := of_decide_eq_true hchecks
  obtain ⟨-, hserial⟩ := owned_initialize (by decide) hp
  cases hfate : r.fate with
  | alive c => exact ⟨p, r, c, ⟨hp, hserial, hr, hfate⟩, hcheck⟩
  | destroyed => exact absurd hfate hdestroyed
  | crashed => exact absurd hfate hcrashed

def paired (type : FileDescriptorType) (p q : Peer σ) (phase : Phase) : Server σ where
  registry := registerFileDescriptor (fun _ _ => q) 2 5 type
    (registerFileDescriptor (fun _ _ => p) 1 4 type
      (registerFileDescriptor (fun _ _ => p) 0 3 .listenSocket initial))
  globals := ⟨true, .information⟩
  accepted := 2
  log := []
  phase := phase

theorem reachable_paired {type : FileDescriptorType} (htype : type ≠ .listenSocket) {w : σ}
    {p q : Peer σ} (hp : initializePeer outside type smoothSetup w 0 Acceptance.freshBlock
      Response.freshResponse = some p)
    (hq : initializePeer outside type smoothSetup w 1 Acceptance.freshBlock
      Response.freshResponse = some q) (ev ev' : EpollEvents) :
    Reachable outside (paired type p q (.handling [(1, ev), (2, ev')])) := by
  have hstart : Reachable outside (start .information) := .start .information
  have hwaiting := (hstart.step (.listen 0 3 (fun _ _ => p) rfl rfl)).step (.listened rfl)
  have hready := hwaiting.step (.wait [(0, ⟨false, true, true⟩)] rfl rfl (by decide) (by decide)
    (by simp [registerFileDescriptor]))
  have hfirst := hready.step (.accept 1 4 type smoothSetup w Acceptance.freshBlock
    Response.freshResponse ⟨rfl, rfl⟩ rfl rfl htype rfl hp)
  have hagain := (hfirst.step (.next rfl)).step (.wait [(0, ⟨false, true, true⟩)] rfl rfl
    (by decide) (by decide) (by simp [registerFileDescriptor]))
  have hsecond := hagain.step (.accept 2 5 type smoothSetup w Acceptance.freshBlock
    Response.freshResponse ⟨rfl, rfl⟩ rfl rfl htype rfl hq)
  exact (hsecond.step (.next rfl)).step (.wait [(1, ev), (2, ev')] rfl rfl (by simp) (by simp)
    (by simp [registerFileDescriptor]))

end Hss.MainLoop
