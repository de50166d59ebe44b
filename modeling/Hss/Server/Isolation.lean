import Hss.Lib.Components
import Hss.Server.Teardown
import Hss.Server.Url

namespace Hss.Isolation

open Hss.CString Hss.DescriptorList Hss.Headers Hss.Request Hss.Response Hss.Transaction Hss.Url
  Hss.Transport Hss.Connection Hss.Transfer Hss.Exchange Hss.Tls Hss.MainLoop Hss.Teardown
  Hss.Simulation Hss.Components

variable {σ : Type}

/-- What is done to one connection, with what it is answered from outside: by the kernel, by
GnuTLS, and by the allocator, whose blocks come with what is left in them. -/
inductive Deed (σ : Type)
  | accept (type : FileDescriptorType) (connects : type ≠ .listenSocket) (setup : Setup) (w : σ)
      (request : HttpRequest) (response : HttpResponse)
  | handle (fuel : Nat) (env : Environment) (event : Event) (w : σ)
  | destroy (fuel : Nat) (w : σ)

/-- What is observed of it then, with the request parsed, the response rendered and the path
opened. -/
structure Output where
  observed : List Observation
  parsed : Option (List UInt8)
  rendered : Option (List UInt8)
  opened : Option (List UInt8)
  deriving DecidableEq, Repr

inductive Alone (σ : Type)
  | awaited
  | living (information : ConnectionInformation) (transport : Transport σ)
  | gone

def outputOf (r : Handled σ) : Output :=
  ⟨r.operations.map .io, r.parsed, r.rendered, r.opened⟩

def perform (outside : Outside σ) (globals : Globals) :
    Alone σ → Deed σ → Option (Output × Alone σ)
  | .awaited, .accept type _ setup w request response =>
    (initializePeer outside type setup w 0 request response).map fun p =>
      (⟨[], none, none, none⟩, .living p.information p.transport)
  | .living c transport, .handle fuel env event w => do
    let r ← handlePeer outside fuel env globals event w ⟨0, c, transport⟩
    match r.fate with
    | .alive c => some (outputOf r, .living c r.transport)
    | .destroyed => some (outputOf r, .living c r.transport)
    | .crashed => none
  | .living c transport, .destroy fuel w =>
    (teardown fuel w transport).map fun operations =>
      (⟨.closed c.type :: operations.map .io, none, none, none⟩, .gone)
  | _, _ => none

section Globals

variable {globals globals' : Globals} {host : Host} {c : ConnectionInformation}

def SameOutcome (o o' : Outcome) : Prop := o'.response = o.response ∧ o'.opened = o.opened

def SameCall (call call' : Call σ) : Prop := ∃ globals, call' = { call with globals }

def SameHandled (r r' : Handled σ) : Prop := ∃ globals, r' = { r with globals }

variable (globals globals') in
theorem magicCall_globals (request : HttpRequest) (response : HttpResponse) (url : List UInt8) :
    Option.Rel (fun v w => w.1 = v.1) (magicCall host globals request response url)
      (magicCall host globals' request response url) := by
  simp only [magicCall]
  split
  · exact rel_bind_same _ fun _ => .some rfl
  · refine rel_bind_same _ fun order => ?_
    split
    · exact rel_bind_same _ fun _ => .some rfl
    split
    · exact rel_bind_same _ fun _ => .some rfl
    split
    · exact rel_bind_same _ fun _ => .some rfl
    · exact rel_bind_same _ fun _ => .some rfl

theorem answerRequest_globals (globals globals' : Globals) (code : HttpErrorCode)
    (request : HttpRequest) : Option.Rel SameOutcome (answerRequest host globals c code request)
      (answerRequest host globals' c code request) := by
  simp only [answerRequest, handleHttpTransaction]
  split
  · rw [Option.map_eq_bind, Option.map_eq_bind]
    exact rel_bind_same _ fun _ => .some ⟨rfl, rfl⟩
  split
  · exact rel_bind_same _ fun _ => .some ⟨rfl, rfl⟩
  split
  · refine rel_bind (magicCall_globals globals globals' request c.response _) ?_
    rintro ⟨response, after⟩ ⟨response', after'⟩ heq
    exact .some ⟨heq, rfl⟩
  · exact rel_bind_same _ fun _ => .some ⟨rfl, rfl⟩

theorem respond_globals (globals globals' : Globals) (env : Environment) (code : HttpErrorCode)
    (request : HttpRequest) :
    Option.Rel (fun v w => w.1 = v.1 ∧ w.2.1 = v.2.1 ∧ SameOutcome v.2.2 w.2.2)
      (respond env globals c code request) (respond env globals' c code request) := by
  refine rel_bind (answerRequest_globals globals globals' code request) ?_
  rintro outcome outcome' hsame
  rw [hsame.1]
  exact rel_bind_same _ fun _ => .some ⟨rfl, rfl, hsame⟩

theorem serve_globals (globals globals' : Globals) (fuel : Nat) (sock : Socket σ)
    (env : Environment) (w : σ) : Option.Rel SameCall (serve fuel sock env globals c w)
      (serve fuel sock env globals' c w) := by
  rw [serve, serve]
  split
  · exact .some ⟨_, rfl⟩
  split
  · exact .some ⟨_, rfl⟩
  · rename_i code request _ _
    have hrespond := respond_globals (c := c) globals globals' env code request
    generalize respond env globals c code request = x at hrespond ⊢
    generalize respond env globals' c code request = y at hrespond ⊢
    cases hrespond with
    | @some v w hsame =>
      obtain ⟨c₁, rendered, outcome⟩ := v
      obtain ⟨c₂, rendered', outcome'⟩ := w
      obtain ⟨rfl, rfl, hresponse, hopened⟩ := hsame
      refine rel_bind_same _ fun _ => .some ⟨outcome'.globals, ?_⟩
      dsimp only at hopened ⊢
      rw [hopened]
    | none => exact .some ⟨_, rfl⟩

theorem handleConnection_globals (globals globals' : Globals) (fuel : Nat) (sock : Socket σ)
    (env : Environment) (event : Event) (c : ConnectionInformation) (w : σ) :
    Option.Rel SameCall (handleConnection fuel sock env globals event c w)
      (handleConnection fuel sock env globals' event c w) := by
  rw [handleConnection, handleConnection]
  split
  · exact .some ⟨_, rfl⟩
  split
  · exact .some ⟨_, rfl⟩
  split
  · refine rel_bind_same _ fun received => ?_
    obtain ⟨received, w⟩ := received
    cases received with
    | stored buffer => exact serve_globals globals globals' fuel sock env w
    | idle | destroyed | crashed => exact .some ⟨_, rfl⟩
  · exact rel_bind_same _ fun _ => .some ⟨_, rfl⟩

theorem handlePeer_globals {outside : Outside σ} {fuel : Nat} {env : Environment} {event : Event}
    {w : σ} {p : Peer σ} {r : Handled σ} (globals globals' : Globals) (serial : Nat)
    (h : handlePeer outside fuel env globals event w p = some r) :
    ∃ after, handlePeer outside fuel env globals' event w { p with serial } =
      some { r with globals := after } := by
  have hsame : Option.Rel SameHandled (handlePeer outside fuel env globals event w p)
      (handlePeer outside fuel env globals' event w { p with serial }) := by
    rw [handlePeer, handlePeer]
    dsimp only
    split
    · rw [handleTcp, handleTcp, Option.map_eq_bind, Option.map_eq_bind]
      refine rel_bind (handleConnection_globals globals globals' _ _ _ _ _ _) ?_
      rintro call _ ⟨after, rfl⟩
      exact .some ⟨after, rfl⟩
    · rw [handleTls, handleTls]
      split
      · rw [Option.map_eq_bind, Option.map_eq_bind]
        refine rel_bind (handleConnection_globals globals globals' _ _ _ _ _ _) ?_
        rintro call _ ⟨after, rfl⟩
        exact .some ⟨after, rfl⟩
      · split
        · exact .some ⟨_, rfl⟩
        · exact .some ⟨_, rfl⟩
  rw [h] at hsame
  generalize handlePeer outside fuel env globals' event w { p with serial } = y at hsame ⊢
  cases hsame with
  | some hsame =>
    obtain ⟨after, rfl⟩ := hsame
    exact ⟨after, rfl⟩

end Globals

section Leftovers

variable {outside : Outside σ} {fuel : Nat} {env : Environment} {globals : Globals} {event : Event}
  {c : ConnectionInformation}

/-- The same answers, with other bytes left behind the url. -/
def withStale (env : Environment) (stale : List UInt8) : Environment :=
  { env with host := { env.host with stale } }

theorem respond_stale {code : HttpErrorCode} {request : HttpRequest}
    (hne : code = .succeed → urlOf request ≠ []) (stale : List UInt8) :
    respond (withStale env stale) globals c code request = respond env globals c code request := by
  have hanswer : answerRequest (withStale env stale).host globals c code request =
      answerRequest env.host globals c code request := by
    rw [answerRequest, answerRequest]
    split
    · rfl
    · rename_i hcode
      exact transaction_stale (fun _ => hne (not_not.mp hcode)) stale
  rw [respond, respond, hanswer]
  rfl

theorem serve_stale {sock : Socket σ} {w : σ}
    (hne : ∀ request, parseWindow env c = some (.succeed, request) → urlOf request ≠ [])
    (stale : List UInt8) :
    serve fuel sock (withStale env stale) globals c w = serve fuel sock env globals c w := by
  have hmemory : (withStale env stale).memory = env.memory := rfl
  rw [serve, serve, hmemory]
  split
  · rfl
  · rename_i code request hparse
    rw [respond_stale (fun hcode => hne request (hcode ▸ hparse)) stale]

theorem parsed_of_serve {sock : Socket σ} {w : σ} {call : Call σ}
    (h : serve fuel sock env globals c w = some call) : call.parsed = some c.buffer.window := by
  cases serving_of_serve h <;> rfl

/-- The window in the block is what the socket has delivered, and the url of an accepted one
is handed out up to its first NUL. -/
theorem handleConnection_stale {sock : Socket σ} (hsock : Honest sock) {v : View}
    (hrep : Represents c v) {w : σ} {R S : List UInt8} {call : Call (Log σ)}
    (hcall : handleConnection fuel (recorded sock) env globals event c (w, R, S) = some call)
    (hnamed : ∀ window ∈ call.parsed, Named window) (stale : List UInt8) :
    handleConnection fuel (recorded sock) (withStale env stale) globals event c (w, R, S) =
      some call := by
  have hmemory : (withStale env stale).memory = env.memory := rfl
  rw [handleConnection] at hcall ⊢
  rw [hmemory]
  by_cases hidle : event.epollin = false ∧ c.state = .waitingRequest
  · rwa [if_pos hidle] at hcall ⊢
  by_cases hbusy : event.epollout = false ∧ c.state = .writingResponse
  · rwa [if_neg hidle, if_pos hbusy] at hcall ⊢
  rw [if_neg hidle, if_neg hbusy] at hcall ⊢
  cases hstate : c.state with
  | writingResponse => rwa [hstate] at hcall
  | waitingRequest =>
    rw [hstate] at hcall
    obtain ⟨⟨received, world⟩, hreceive, hcall⟩ := Option.bind_eq_some_iff.mp hcall
    simp only [hreceive, Option.bind_eq_bind, Option.bind_some]
    cases received with
    | idle | destroyed | crashed => exact hcall
    | stored buffer =>
      rw [← hcall]
      refine serve_stale (fun request hparse => ?_) stale
      obtain ⟨data, -, -, -, rfl⟩ := receive_spec hsock hrep.buffer hreceive
      have hwindow := hnamed _ (parsed_of_serve hcall)
      simp only [parseWindow, filled, List.drop_zero, Nat.sub_zero] at hparse
      rw [filled, Rendering.window_whole] at hwindow
      exact hwindow.urlOf_ne_nil hrep.request hparse

/-- Unless a url is empty as a C string, a connection does the same whatever is left behind
it. -/
theorem handlePeer_stale {outside : Outside σ} (htcp : Honest outside.tcp)
    (hgnutls : Bounded outside.gnutls) {p : Peer σ} (howned : Owned outside p) {w : σ}
    {r : Handled σ} (hr : handlePeer outside fuel env globals event w p = some r)
    (hnamed : ∀ window ∈ r.parsed, Named window) (stale : List UInt8) :
    handlePeer outside fuel (withStale env stale) globals event w p = some r := by
  rw [handlePeer] at hr ⊢
  rw [Owned] at howned
  cases htransport : p.transport with
  | tcp =>
    rw [htransport] at howned hr
    obtain ⟨-, l, hrun⟩ := howned
    obtain ⟨v, hrep, -⟩ := hrun.represented (honest_noting htcp)
    obtain ⟨call, hcall, rfl⟩ := Option.map_eq_some_iff.mp hr
    rw [handleTcp, handleConnection_stale (honest_noting htcp) hrep hcall hnamed]
    rfl
  | tls connection =>
    rw [htransport] at howned hr
    obtain ⟨-, ⟨hwired, l, hrun⟩ | ⟨hnone, -⟩⟩ := howned
    · have hsock := honest_tlsSocket hgnutls
      obtain ⟨v, hrep, -⟩ := hrun.represented hsock
      obtain ⟨call, hcall, rfl⟩ := handleTls_wired hwired hr
      have hsame := handleConnection_stale hsock hrep hcall hnamed stale
      simp only [handleTls, hwired.recv, hwired.send]
      exact Option.map_eq_some_iff.mpr ⟨call, hsame, rfl⟩
    · simp only [handleTls, hnone] at hr ⊢
      exact hr

def Alone.Owned (outside : Outside σ) : Alone σ → Prop
  | .living c transport => MainLoop.Owned outside ⟨0, c, transport⟩
  | _ => True

/-- The same deed, with other bytes left in the memory that it is done on. -/
inductive Deed.Alike : Deed σ → Deed σ → Prop
  | refl (deed : Deed σ) : Alike deed deed
  | handle (fuel : Nat) (env : Environment) (event : Event) (w : σ) (stale : List UInt8) :
      Alike (.handle fuel env event w) (.handle fuel (withStale env stale) event w)

theorem handle_alike (htcp : Honest outside.tcp) (hgnutls : Bounded outside.gnutls)
    {c : ConnectionInformation} {transport : Transport σ} {alone' : Alone σ} {deed' : Deed σ}
    {fuel : Nat} {env : Environment} {event : Event} {w : σ} {output : Output}
    (howned : (Alone.living c transport).Owned outside)
    (h : perform outside globals (.living c transport) (.handle fuel env event w) =
      some (output, alone'))
    (hnamed : ∀ window ∈ output.parsed, Named window)
    (halike : (Deed.handle fuel env event w).Alike deed') :
    perform outside globals (.living c transport) deed' = some (output, alone') ∧
      alone'.Owned outside := by
  obtain ⟨r, hr, hfate⟩ := Option.bind_eq_some_iff.mp h
  obtain ⟨hkept, hnext⟩ := MainLoop.Owned.handle howned hr
  have houtput : output.parsed = r.parsed ∧ alone'.Owned outside := by
    cases hf : r.fate with
    | alive c' =>
      rw [hf] at hfate
      cases hfate
      exact ⟨rfl, hnext c' hf⟩
    | destroyed =>
      rw [hf] at hfate
      cases hfate
      exact ⟨rfl, hkept⟩
    | crashed =>
      rw [hf] at hfate
      cases hfate
  refine ⟨?_, houtput.2⟩
  cases halike with
  | refl => exact h
  | handle _ _ _ _ stale =>
    rw [houtput.1] at hnamed
    have hsame := handlePeer_stale htcp hgnutls howned hr hnamed stale
    rw [perform, hsame]
    exact hfate

theorem perform_alike (htcp : Honest outside.tcp) (hgnutls : Bounded outside.gnutls)
    {alone alone' : Alone σ} {deed deed' : Deed σ} {output : Output} (howned : alone.Owned outside)
    (h : perform outside globals alone deed = some (output, alone'))
    (hnamed : ∀ window ∈ output.parsed, Named window) (halike : deed.Alike deed') :
    perform outside globals alone deed' = some (output, alone') ∧ alone'.Owned outside := by
  cases alone with
  | awaited =>
    cases halike with
    | refl =>
      refine ⟨h, ?_⟩
      cases deed with
      | accept type connects setup w request response =>
        obtain ⟨p, hp, h⟩ := Option.map_eq_some_iff.mp h
        cases h
        obtain ⟨howned, -⟩ := owned_initialize connects hp
        exact howned
      | handle | destroy => cases h
    | handle => cases h
  | living c transport =>
    cases deed with
    | accept => cases h
    | destroy fuel w =>
      obtain ⟨operations, hteardown, h'⟩ := Option.map_eq_some_iff.mp h
      cases h'
      cases halike
      exact ⟨h, trivial⟩
    | handle fuel env event w => exact handle_alike htcp hgnutls howned h hnamed halike
  | gone => cases h

end Leftovers

abbrev Label (σ : Type) := Nat × Deed σ × Output

def Output.silent : Output := ⟨[], none, none, none⟩

inductive Concerns (outside : Outside σ) (s s' : Server σ) : Option (Label σ) → Prop
  | none : connectionAt s'.registry = connectionAt s.registry → s'.accepted = s.accepted →
      Concerns outside s s' none
  | accept {new : Address} {type : FileDescriptorType} (connects : type ≠ .listenSocket)
      {setup : Setup} {w : σ} {request : HttpRequest} {response : HttpResponse} {p : Peer σ} :
      initializePeer outside type setup w s.accepted request response = some p →
      connectionAt s'.registry = Function.update (connectionAt s.registry) new (some p) →
      connectionAt s.registry new = none → p.serial = s.accepted → s'.accepted = s.accepted + 1 →
      Concerns outside s s' (some (s.accepted, .accept type connects setup w request response, .silent))
  | handle {a : Address} {p : Peer σ} {fuel : Nat} {env : Environment} {event : Event} {w : σ}
      {r : Handled σ} {c : ConnectionInformation} : connectionAt s.registry a = some p →
      handlePeer outside fuel env s.globals event w p = some r →
      (r.fate = .alive c ∨ r.fate = .destroyed ∧ c = p.information) →
      connectionAt s'.registry = Function.update (connectionAt s.registry) a
        (some { p with information := c, transport := r.transport }) →
      s'.accepted = s.accepted →
      Concerns outside s s' (some (p.serial, .handle fuel env event w, outputOf r))
  | destroy {a : Address} {p : Peer σ} {fuel : Nat} {w : σ} {operations : List Io} :
      connectionAt s.registry a = some p → teardown fuel w p.transport = some operations →
      connectionAt s'.registry = Function.update (connectionAt s.registry) a none →
      s'.accepted = s.accepted →
      Concerns outside s s' (some (p.serial, .destroy fuel w,
        ⟨.closed p.information.type :: operations.map .io, none, none, none⟩))

def logOf (record : List (Label σ)) : List (Nat × Observation) :=
  record.flatMap fun label => label.2.2.observed.map (label.1, ·)

structure Labelled (outside : Outside σ) (s : Server σ) (label : Option (Label σ))
    (s' : Server σ) : Prop where
  step : Step outside s s'
  concerns : Concerns outside s s' label
  log : s'.log = s.log ++ logOf label.toList

variable {outside : Outside σ} {s s' : Server σ}

theorem logOf_none (log : List (Nat × Observation)) :
    log = log ++ logOf (none : Option (Label σ)).toList :=
  (List.append_nil log).symm

theorem logOf_handle (p : Peer σ) (deed : Deed σ) (r : Handled σ) :
    logOf (some (p.serial, deed, outputOf r)).toList = observe p.serial r.operations := by
  simp only [logOf, Option.toList_some, List.flatMap_cons, List.flatMap_nil, List.append_nil,
    outputOf, List.map_map, observe]
  rfl

theorem connectionAt_destroy_listen {a : Address} {e : FileDescriptorInformation (Peer σ)}
    {registry registry' : Registry (Peer σ)} (he : registry.entries a = some e)
    (hnone : e.connection = none) (h : destroyFileInformation a registry = some registry') :
    connectionAt registry' = connectionAt registry := by
  rw [connectionAt_destroy h, Function.update_eq_self_iff, connectionAt, he, Option.bind_some,
    hnone]

theorem labelled_quiet (h : Step outside s s')
    (hentries : connectionAt s'.registry = connectionAt s.registry)
    (haccepted : s'.accepted = s.accepted) (hlog : s'.log = s.log) : Labelled outside s none s' where
  step := h
  concerns := .none hentries haccepted
  log := hlog.trans (logOf_none s.log)

theorem labelled_listen {a : Address} (fd : Int) (peer : Int → FileDescriptorType → Peer σ)
    (hphase : s.phase = .listening) (ha : s.registry.entries a = none) : Labelled outside s none
      { s with registry := registerFileDescriptor peer a fd .listenSocket s.registry } := by
  refine labelled_quiet (.listen a fd peer hphase ha) ?_ rfl rfl
  rw [connectionAt_register, if_neg (not_not.mpr rfl), Function.update_eq_self_iff]
  exact (connectionAt_none ha).symm

section Events

variable {a : Address} {ev : EpollEvents} {rest : List (Address × EpollEvents)}
  {e : FileDescriptorInformation (Peer σ)} {p : Peer σ}

theorem labelled_accept (new : Address) (fd : Int) {type : FileDescriptorType} {setup : Setup}
    {w : σ} {request : HttpRequest} {response : HttpResponse} (hnext : Next s a ev rest e)
    (hready : ev.hangup = false) (hlisten : e.type = .listenSocket) (htype : type ≠ .listenSocket)
    (hnew : s.registry.entries new = none)
    (hp : initializePeer outside type setup w s.accepted request response = some p) :
    Labelled outside s (some (s.accepted, .accept type htype setup w request response, .silent))
      { s with
        registry := registerFileDescriptor (fun _ _ => p) new fd type s.registry
        accepted := s.accepted + 1
        phase := .handling rest } where
  step := .accept new fd type setup w request response hnext hready hlisten htype hnew hp
  concerns := by
    obtain ⟨-, hserial⟩ := owned_initialize htype hp
    refine .accept htype hp ?_ (connectionAt_none hnew) hserial rfl
    rw [connectionAt_register, if_pos htype]
  log := (List.append_nil _).symm

theorem labelled_handle {fuel : Nat} {env : Environment} {w : σ} {r : Handled σ}
    {c : ConnectionInformation} (hnext : Next s a ev rest e) (hready : ev.hangup = false)
    (htype : e.type ≠ .listenSocket) (hconnection : e.connection = some p)
    (hr : handlePeer outside fuel env s.globals ev.event w p = some r) (halive : r.fate = .alive c) :
    Labelled outside s (some (p.serial, .handle fuel env ev.event w, outputOf r))
      (s.handled a e p r c (.handling rest)) := by
  have hhandles : Handles outside s a rest e p env r :=
    ⟨⟨ev, fuel, w, hnext, hready, hr⟩, htype, hconnection⟩
  exact ⟨.handle hhandles halive,
    .handle hhandles.connectionAt hr (.inl halive) (connectionAt_handled _ _) rfl,
    congrArg (s.log ++ ·) (logOf_handle p _ r).symm⟩

end Events

theorem labelled_of_step (h : Step outside s s') : ∃ label, Labelled outside s label s' := by
  have hstep := h
  cases h with
  | listen a fd peer hphase ha => exact ⟨none, labelled_listen fd peer hphase ha⟩
  | listened | wait | stop | next | hangup | refuse | exit | leave | left =>
    exact ⟨none, labelled_quiet hstep rfl rfl rfl⟩
  | accept new fd type setup w request response hnext hready hlisten htype hnew hp =>
    exact ⟨_, labelled_accept new fd hnext hready hlisten htype hnew hp⟩
  | handle hhandles halive =>
    obtain ⟨ev, fuel, w, hnext, hready, hr⟩ := hhandles.next
    exact ⟨_, labelled_handle hnext hready hhandles.type hhandles.connection hr halive⟩
  | @fail a rest e p env r hhandles hdestroyed =>
    obtain ⟨ev, fuel, w, -, -, hr⟩ := hhandles.next
    exact ⟨_, hstep, .handle hhandles.connectionAt hr (.inr ⟨hdestroyed, rfl⟩)
      (connectionAt_handled _ _) rfl, congrArg (s.log ++ ·) (logOf_handle p _ r).symm⟩
  | destroy _ he hdestroy _ hobserved =>
    obtain ⟨hnone, rfl⟩ | ⟨p, fuel, w, operations, hp, hteardown, rfl⟩ := hobserved
    · exact ⟨none, hstep, .none (connectionAt_destroy_listen he hnone hdestroy) rfl, rfl⟩
    · refine ⟨_, hstep, .destroy (connectionAt_entry he hp) hteardown
        (connectionAt_destroy hdestroy) rfl, congrArg (s.log ++ ·) ?_⟩
      simp only [logOf, Option.toList_some, List.flatMap_cons, List.flatMap_nil, List.append_nil,
        List.map_cons, List.map_map, observe]
      rfl

/-- The connection with this number, as the server has it. -/
inductive Sees (n : Nat) (s : Server σ) : Alone σ → Prop
  | awaited : s.accepted ≤ n → Sees n s .awaited
  | living {a : Address} {p : Peer σ} : connectionAt s.registry a = some p → p.serial = n →
      Sees n s (.living p.information p.transport)
  | gone : n < s.accepted → (∀ a p, connectionAt s.registry a = some p → p.serial ≠ n) →
      Sees n s .gone

variable {n : Nat} {alone : Alone σ}

theorem Sees.kept (h : Sees n s alone) (hle : s.accepted ≤ s'.accepted)
    (hnumber : n < s.accepted ∨ s'.accepted ≤ n)
    (hentries : ∀ a p, p.serial = n →
      (connectionAt s'.registry a = some p ↔ connectionAt s.registry a = some p)) :
    Sees n s' alone := by
  cases h with
  | awaited hn => exact .awaited (hnumber.resolve_left (Nat.not_lt_of_le hn))
  | @living a p hp hn => exact .living ((hentries a p hn).mpr hp) hn
  | gone hn hgone =>
    refine .gone (Nat.lt_of_lt_of_le hn hle) fun a p hp heq => ?_
    exact hgone a p ((hentries a p heq).mp hp) heq

theorem entries_update {a : Address} {x : Option (Peer σ)}
    (h : connectionAt s'.registry = Function.update (connectionAt s.registry) a x)
    (hx : ∀ p ∈ x, p.serial ≠ n) (ha : ∀ p, connectionAt s.registry a = some p → p.serial ≠ n)
    (b : Address) (p : Peer σ) (hp : p.serial = n) :
    connectionAt s'.registry b = some p ↔ connectionAt s.registry b = some p := by
  rw [h]
  by_cases hb : b = a
  · subst hb
    rw [Function.update_self]
    exact iff_of_false (fun hmem => hx p hmem hp) fun hmem => ha p hmem hp
  · rw [Function.update_of_ne hb]

theorem Sees.eq_living (hs : Sane outside s) (h : Sees n s alone) {a : Address} {p : Peer σ}
    (hp : connectionAt s.registry a = some p) (hn : p.serial = n) :
    alone = .living p.information p.transport := by
  have hlt := hs.serial a p hp
  cases h with
  | awaited hle => omega
  | @living b q hq hn' =>
    obtain rfl := hs.distinct b a q p hq hp (hn'.trans hn.symm)
    cases hq.symm.trans hp
    rfl
  | gone _ hgone => exact absurd hn (hgone a p hp)

theorem initializePeer_serial {type : FileDescriptorType} {setup : Setup} {w : σ} {serial : Nat}
    {request : HttpRequest} {response : HttpResponse} {p : Peer σ}
    (h : initializePeer outside type setup w serial request response = some p) :
    initializePeer outside type setup w 0 request response = some { p with serial := 0 } := by
  rw [initializePeer] at h ⊢
  split at h
  · rename_i htcp
    cases h
    rw [if_pos htcp]
  · rename_i htcp
    obtain ⟨connection, hconnection, rfl⟩ := Option.map_eq_some_iff.mp h
    rw [if_neg htcp, hconnection]
    rfl

theorem Sees.own {globals : Globals} {deed : Deed σ} {output : Output} (hs : Sane outside s)
    (h : Labelled outside s (some (n, deed, output)) s') (hsees : Sees n s alone) :
    ∃ alone', perform outside globals alone deed = some (output, alone') ∧ Sees n s' alone' := by
  have hconcerns := h.concerns
  generalize hlabel : some (n, deed, output) = label at hconcerns
  cases hconcerns with
  | none => cases hlabel
  | @accept new type connects setup w request response p hp hentries _ hserial _ =>
    cases hlabel
    cases hsees with
    | awaited =>
      refine ⟨.living p.information p.transport, ?_, .living (a := new) ?_ hserial⟩
      · rw [perform, initializePeer_serial hp]
        rfl
      · rw [hentries, Function.update_self]
    | living hq hn => exact absurd hn (Nat.ne_of_lt (hs.serial _ _ hq))
    | gone hlt => exact absurd hlt (Nat.lt_irrefl _)
  | @handle a p fuel env event w r c hp hr hfate hentries _ =>
    cases hlabel
    obtain rfl := hsees.eq_living hs hp rfl
    obtain ⟨after, halone⟩ := handlePeer_globals _ globals 0 hr
    refine ⟨.living c r.transport, ?_, ?_⟩
    · simp only [perform, halone, Option.bind_eq_bind, Option.bind_some]
      obtain halive | ⟨hdestroyed, rfl⟩ := hfate
      · rw [halive]
        rfl
      · rw [hdestroyed]
        rfl
    · have hliving : connectionAt s'.registry a =
          some { p with information := c, transport := r.transport } := by
        rw [hentries, Function.update_self]
      exact .living hliving rfl
  | @destroy a p fuel w operations hp hteardown hentries haccepted =>
    cases hlabel
    obtain rfl := hsees.eq_living hs hp rfl
    refine ⟨.gone, ?_, .gone (haccepted ▸ hs.serial a p hp) fun b q hq heq => ?_⟩
    · simp only [perform, hteardown, Option.map_some]
    · rw [hentries] at hq
      by_cases hb : b = a
      · subst hb
        rw [Function.update_self] at hq
        cases hq
      · rw [Function.update_of_ne hb] at hq
        exact hb (hs.distinct b a q p hq hp heq)

theorem Sees.other {label : Option (Label σ)} (h : Labelled outside s label s')
    (hother : ∀ v ∈ label, v.1 ≠ n) (hsees : Sees n s alone) : Sees n s' alone := by
  cases h.concerns with
  | none hentries haccepted =>
    refine hsees.kept haccepted.ge (Nat.lt_or_ge n s'.accepted |>.imp_left (haccepted ▸ ·))
      fun a p _ => ?_
    rw [hentries]
  | accept _ _ hentries hnew hserial haccepted =>
    have hne : s.accepted ≠ n := hother _ rfl
    refine hsees.kept (by omega) (by omega) (entries_update hentries ?_ ?_)
    · rintro p ⟨⟩
      exact hserial ▸ hne
    · intro p hp
      cases hnew.symm.trans hp
  | handle hp _ _ hentries haccepted =>
    have hne := hother _ rfl
    refine hsees.kept haccepted.ge (by omega) (entries_update hentries ?_ ?_)
    · rintro p ⟨⟩
      exact hne
    · intro q hq
      cases hp.symm.trans hq
      exact hne
  | destroy hp _ hentries haccepted =>
    have hne := hother _ rfl
    refine hsees.kept haccepted.ge (by omega) (entries_update hentries ?_ ?_)
    · intro q hq
      cases hq
    · intro q hq
      cases hp.symm.trans hq
      exact hne

theorem separates (outside : Outside σ) (globals : Globals) :
    Separates (Labelled outside) (Sane outside) (perform outside globals) Sees where
  inv _ _ _ hs h := hs.step h.step
  own _ _ _ _ _ _ hs h hsees := hsees.own hs h
  other _ _ _ _ _ _ h hother hsees := hsees.other h hother

theorem recorded_of_reachable (h : Reachable outside s) :
    ∃ logLevel record, Recorded (Labelled outside) (start logLevel) record s := by
  induction h with
  | start logLevel => exact ⟨logLevel, [], .start⟩
  | step _ hstep ih =>
    obtain ⟨logLevel, record, hrecorded⟩ := ih
    obtain ⟨label, hlabelled⟩ := labelled_of_step hstep
    exact ⟨logLevel, _, hrecorded.step hlabelled⟩

variable {logLevel logLevel' : LoggingLogLevel} {record record' : List (Label σ)}

theorem logOf_append (record record' : List (Label σ)) :
    logOf (record ++ record') = logOf record ++ logOf record' :=
  List.flatMap_append

theorem log_eq (h : Recorded (Labelled outside) (start logLevel) record s) :
    s.log = logOf record := by
  induction h with
  | start => rfl
  | step _ hlabelled ih => rw [hlabelled.log, ih, logOf_append]

def deeds (n : Nat) (record : List (Label σ)) : List (Deed σ) := (dealings n record).map (·.1)

def outputs (n : Nat) (record : List (Label σ)) : List Output := (dealings n record).map (·.2)

def observations (n : Nat) (log : List (Nat × Observation)) : List Observation :=
  (log.filter (·.1 = n)).map (·.2)

theorem observations_logOf (n : Nat) (record : List (Label σ)) :
    observations n (logOf record) = (outputs n record).flatMap (·.observed) := by
  induction record with
  | nil => rfl
  | cons label record ih =>
    obtain ⟨m, deed, output⟩ := label
    have hfirst : ∀ observed : List Observation,
        observations n (observed.map (m, ·)) = if m = n then observed else [] := by
      intro observed
      by_cases hm : m = n
      · simp [observations, hm, List.filter_map, Function.comp_def]
      · simp [observations, hm, List.filter_map, Function.comp_def]
    have happend : observations n (logOf ((m, deed, output) :: record)) =
        observations n (output.observed.map (m, ·)) ++ observations n (logOf record) := by
      simp only [observations, logOf, List.flatMap_cons, List.filter_append, List.map_append]
    rw [happend, hfirst, ih]
    by_cases hm : m = n
    · simp [outputs, dealings, hm]
    · simp [outputs, dealings, hm]

/-- However the server interleaves its connections, each of them is in the state that what
was done to it leads to by itself, under any globals; it has parsed, rendered and opened
the same, and the same has been observed of it. What was done to it is done with the same
answers from outside, the bytes that the allocator leaves behind a url among them. These do
not matter where no url is empty as a C string: over sockets that deliver no more than they
are asked for, the connection does the same whatever other connections have left there. -/
theorem connections_alone (h : Recorded (Labelled outside) (start logLevel) record s)
    (globals : Globals) (n : Nat) :
    ∃ alone, performAll (perform outside globals) .awaited (deeds n record) =
        some (outputs n record, alone) ∧
      Sees n s alone ∧ observations n s.log = (outputs n record).flatMap (·.observed) ∧
      (Honest outside.tcp → Bounded outside.gnutls →
        (∀ output ∈ outputs n record, ∀ window ∈ output.parsed, Named window) →
        ∀ others, List.Forall₂ Deed.Alike (deeds n record) others →
          performAll (perform outside globals) .awaited others = some (outputs n record, alone)) := by
  obtain ⟨alone, hrun, hsees⟩ := h.alone (separates outside globals) (sane_start outside logLevel)
    (.awaited (Nat.zero_le n))
  refine ⟨alone, hrun, hsees, ?_, fun htcp hgnutls hnamed others halike => ?_⟩
  · rw [log_eq h, observations_logOf]
  · have hstart : Alone.Owned outside .awaited := trivial
    refine performAll_alike _ (fun s deed deed' output s' howned hdeed hparsed hlike => ?_) hstart hrun
      hnamed halike
    exact perform_alike htcp hgnutls howned hdeed hparsed hlike

def accepting (w : σ) : Deed σ :=
  .accept .tlsSocket (by decide) smoothSetup w Acceptance.freshBlock freshResponse

theorem recorded_paired {w : σ} {p q : Peer σ} (hp : initializePeer outside .tlsSocket smoothSetup w 0
      Acceptance.freshBlock freshResponse = some p)
    (hq : initializePeer outside .tlsSocket smoothSetup w 1 Acceptance.freshBlock freshResponse =
      some q) (ev ev' : EpollEvents) : Recorded (Labelled outside) (start .information)
      [(0, accepting w, .silent), (1, accepting w, .silent)]
      (paired .tlsSocket p q (.handling [(1, ev), (2, ev')])) := by
  have htls : FileDescriptorType.tlsSocket ≠ .listenSocket := by decide
  have hstart : Recorded (Labelled outside) (start .information) [] (start .information) := .start
  have hlisten := hstart.quiet (labelled_listen (a := 0) 3 (fun _ _ => p) rfl rfl)
  have hwaiting := hlisten.quiet (labelled_quiet (.listened rfl) rfl rfl rfl)
  have hready := hwaiting.quiet (labelled_quiet (.wait [(0, ⟨false, true, true⟩)] rfl rfl
    (by decide) (by decide) (by simp [registerFileDescriptor])) rfl rfl rfl)
  have hfirst := hready.step (labelled_accept 1 4 ⟨rfl, rfl⟩ rfl rfl htls rfl hp)
  have hnext := hfirst.quiet (labelled_quiet (.next rfl) rfl rfl rfl)
  have hagain := hnext.quiet (labelled_quiet (.wait [(0, ⟨false, true, true⟩)] rfl rfl
    (by decide) (by decide) (by simp [registerFileDescriptor])) rfl rfl rfl)
  have hsecond := hagain.step (labelled_accept 2 5 ⟨rfl, rfl⟩ rfl rfl htls rfl hq)
  have hbatch := hsecond.quiet (labelled_quiet (.next rfl) rfl rfl rfl)
  exact hbatch.quiet (labelled_quiet (.wait [(1, ev), (2, ev')] rfl rfl (by simp) (by simp)
    (by simp [registerFileDescriptor])) rfl rfl rfl)

def fileRequest : List UInt8 := ascii "GET /f H\r\n\r\n"

def fileText : List UInt8 :=
  ascii "HTTP/1.1 200 OK\r\nContent-Length: 10\r\nServer: hSS/0.0.1-alpha\r\n\r\n0123456789"

def partRequest : List UInt8 := ascii "GET /f H\r\nRange: bytes=2-5\r\n\r\n"

def partText : List UInt8 := ascii "HTTP/1.1 206 Partial Content\r\nContent-Length: 4\r\n" ++
  ascii "Content-Range: bytes 2-5/10\r\nServer: hSS/0.0.1-alpha\r\n\r\n2345"

def answers (n : Nat) (request text : List UInt8) : Bool :=
  firstCall smallHost n ⟨true, .information⟩ request fun r =>
    r.globals = ⟨true, .information⟩ ∧ r.parsed = some request ∧ r.rendered = some text

theorem answers_pair : answers 0 fileRequest fileText = true ∧
    answers 1 partRequest partText = true := by
  decide +kernel

theorem named_outputs {r : Handled σ} {request : List UInt8} (hparsed : r.parsed = some request)
    (hnamed : Named request) :
    ∀ output ∈ [Output.silent, outputOf r], ∀ window ∈ output.parsed, Named window := by
  intro output houtput window hwindow
  obtain rfl | houtput := List.mem_cons.mp houtput
  · cases hwindow
  · rw [List.mem_singleton.mp houtput, outputOf, hparsed] at hwindow
    cases hwindow
    exact hnamed

/-- Two TLS connections whose requests come in one batch. Each of them is answered as by
itself, with any log level and with anything left in the memory. -/
theorem connections_alone_pair : ∃ record s,
    Recorded (Labelled secured) (start .information) record s ∧
    record.map (·.1) = [0, 1, 0, 1] ∧ ∀ logLevel stale,
      (∃ outs alone, performAll (perform secured ⟨true, logLevel⟩) .awaited
        [accepting ([], []), .handle 9 (withStale ⟨Session.roomy, smallHost⟩ stale)
          Session.readable (fileRequest, [])] = some (outs, alone) ∧
        outs.map (·.rendered) = [none, some fileText]) ∧
      ∃ outs alone, performAll (perform secured ⟨true, logLevel⟩) .awaited
        [accepting ([], []), .handle 9 (withStale ⟨Session.roomy, smallHost⟩ stale)
          Session.readable (partRequest, [])] = some (outs, alone) ∧
        outs.map (·.rendered) = [none, some partText] := by
  obtain ⟨p, r, c, ⟨hp, hserial, hr, halive⟩, hchecks⟩ := called_of_firstCall answers_pair.1
  obtain ⟨q, r', c', ⟨hq, hserial', hr', halive'⟩, hchecks'⟩ := called_of_firstCall answers_pair.2
  obtain ⟨hglobals, hparsed, hrendered⟩ := of_decide_eq_true hchecks
  obtain ⟨-, hparsed', hrendered'⟩ := of_decide_eq_true hchecks'
  have htls : FileDescriptorType.tlsSocket ≠ .listenSocket := by decide
  have hbatch := recorded_paired hp hq ⟨false, Session.readable⟩ ⟨false, Session.readable⟩
  have hfirst := hbatch.step (labelled_handle ⟨rfl, rfl⟩ rfl htls rfl hr halive)
  have hsecond := hfirst.step (labelled_handle ⟨rfl, rfl⟩ rfl htls rfl (hglobals ▸ hr') halive')
  simp only [hserial, hserial'] at hsecond
  have hnul : Named fileRequest ∧ Named partRequest :=
    ⟨named_of_not_mem (by decide), named_of_not_mem (by decide)⟩
  refine ⟨_, _, hsecond, rfl, fun logLevel stale => ⟨?_, ?_⟩⟩
  · obtain ⟨alone, -, -, -, hany⟩ := connections_alone hsecond ⟨true, logLevel⟩ 0
    have hrun := hany honest_chunked (bounded_unprotected honest_chunked) (named_outputs hparsed hnul.1) _
      (.cons (.refl _) (.cons (.handle _ _ _ _ stale) .nil))
    refine ⟨_, alone, hrun, ?_⟩
    rw [← hrendered]
    rfl
  · obtain ⟨alone, -, -, -, hany⟩ := connections_alone hsecond ⟨true, logLevel⟩ 1
    have hrun := hany honest_chunked (bounded_unprotected honest_chunked) (named_outputs hparsed' hnul.2) _
      (.cons (.refl _) (.cons (.handle _ _ _ _ stale) .nil))
    refine ⟨_, alone, hrun, ?_⟩
    rw [← hrendered']
    rfl

theorem Sees.unique (hs : Sane outside s) {alone alone' : Alone σ} (h : Sees n s alone)
    (h' : Sees n s alone') : alone = alone' := by
  cases h with
  | awaited hle =>
    cases h' with
    | awaited => rfl
    | living hp hn =>
      have hlt := hs.serial _ _ hp
      omega
    | gone hlt => omega
  | living hp hn => exact (h'.eq_living hs hp hn).symm
  | gone hlt hgone =>
    cases h' with
    | awaited hle => omega
    | living hp hn => exact absurd hn (hgone _ _ hp)
    | gone => rfl

/-- Two connections to which the same is done with the same answers from outside cannot be
told apart, whatever is done to others. -/
theorem noninterference (h : Recorded (Labelled outside) (start logLevel) record s)
    (h' : Recorded (Labelled outside) (start logLevel') record' s') {n n' : Nat}
    (hdeeds : deeds n record = deeds n' record') :
    outputs n record = outputs n' record' ∧ observations n s.log = observations n' s'.log ∧
      ∀ alone, Sees n s alone ↔ Sees n' s' alone := by
  have hseparates := separates outside ⟨true, logLevel⟩
  have hsane := h.inv hseparates (sane_start outside logLevel)
  have hsane' := h'.inv hseparates (sane_start outside logLevel')
  obtain ⟨alone, hrun, hsees⟩ :=
    h.alone hseparates (sane_start outside logLevel) (.awaited (Nat.zero_le n))
  obtain ⟨alone', hrun', hsees'⟩ :=
    h'.alone hseparates (sane_start outside logLevel') (.awaited (Nat.zero_le n'))
  change performAll _ _ (deeds n record) = _ at hrun
  rw [hdeeds] at hrun
  obtain ⟨houtputs, rfl⟩ := Prod.mk.inj (Option.some.inj (hrun.symm.trans hrun'))
  have houtputs : outputs n record = outputs n' record' := houtputs
  refine ⟨houtputs, ?_, fun other => ⟨fun hother => ?_, fun hother => ?_⟩⟩
  · rw [log_eq h, log_eq h', observations_logOf, observations_logOf, houtputs]
  · rwa [hother.unique hsane hsees]
  · rwa [hother.unique hsane' hsees']

end Hss.Isolation
