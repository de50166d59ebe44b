import Hss.Server.MainLoop
import Hss.Server.Leak

namespace Hss.Privilege

open Hss.CString Hss.Headers Hss.Request Hss.Response Hss.DescriptorList Hss.Transaction
  Hss.StreamParser Hss.Meaning Hss.Acceptance Hss.Transport Hss.Connection Hss.Tls Hss.Effects
  Hss.Rendering Hss.Transfer Hss.Exchange Hss.Session Hss.Leak Hss.MainLoop

def CarriesCode (host : Host) (request : HttpRequest) : Prop :=
  ∃ code, getRequestHeader request (ascii "Authorization") = some code ∧
    memcmp (code ++ [0]) host.authorizationCode authorizationCodeLength = some .eq

structure Authorized (type : FileDescriptorType) (host : Host) (window : List UInt8) : Prop where
  type : type = .tlsSocket
  accepted : Accepted window
  url : ascii "/magic-call/" <+: urlOf (requestOf window)
  code : CarriesCode host (requestOf window)

/-- A response without a body that says to go elsewhere or that the request is bad. -/
def Refusal (text : List UInt8) : Prop :=
  ∃ code held, (code = .moveMovedPermanently ∨ code = .badRequest) ∧ held.body = none ∧
    text = responseText code held

variable {type : FileDescriptorType} {host : Host} {globals : Globals} {request : HttpRequest}
  {response : HttpResponse} {outcome : Outcome} {window : List UInt8}

theorem magicCall_globals {url : List UInt8} {response' : HttpResponse} {globals' : Globals}
    (h : magicCall host globals request response url = some (response', globals'))
    (hne : globals' ≠ globals) : CarriesCode host request := by
  rw [magicCall] at h
  split at h
  · obtain ⟨found, -, h⟩ := Option.bind_eq_some_iff.mp h
    cases h
    exact absurd rfl hne
  · rename_i code hcode
    obtain ⟨order, horder, h⟩ := Option.bind_eq_some_iff.mp h
    split at h
    · obtain ⟨found, -, h⟩ := Option.bind_eq_some_iff.mp h
      cases h
      exact absurd rfl hne
    · rename_i heq
      exact ⟨code, hcode, horder.trans (congrArg some (not_not.mp heq))⟩

theorem transaction_globals
    (h : handleHttpTransaction type host globals request response = some outcome) (hne : outcome.globals ≠ globals) :
    type ≠ .tcpSocket ∧ ascii "/magic-call/" <+: urlOf request ∧ CarriesCode host request := by
  rw [handleHttpTransaction] at h
  split at h
  · obtain ⟨response', -, h⟩ := Option.bind_eq_some_iff.mp h
    cases h
    exact absurd rfl hne
  · rename_i htype
    split at h
    · rename_i hmagic
      obtain ⟨⟨response', globals'⟩, hcall, h⟩ := Option.bind_eq_some_iff.mp h
      cases h
      have hlength : (ascii "/magic-call/").length = 12 := by decide
      refine ⟨htype, strncmp_prefix (by decide) ?_, magicCall_globals hcall hne⟩
      rw [hlength]
      exact hmagic
    · obtain ⟨⟨response', opened⟩, -, h⟩ := Option.bind_eq_some_iff.mp h
      cases h
      exact absurd rfl hne

section Calls

variable {σ : Type} {sock : Socket σ} {c : ConnectionInformation} {l : Ledger} {fuel : Nat}
  {env : Environment} {event : Event} {w : σ} {call : Call (Log σ)} {text : List UInt8}

/-- A call that changes the globals has parsed an authorized request. -/
theorem call_globals (hsock : Honest sock) (hrun : Run sock c l)
    (hcall : handleConnection fuel (recorded sock) env globals event c (w, [], []) = some call)
    (hne : call.globals ≠ globals) : ∃ window, call.parsed = some window ∧
      c.type ≠ .tcpSocket ∧ Accepted window ∧ ascii "/magic-call/" <+: urlOf (requestOf window) ∧
      CarriesCode env.host (requestOf window) := by
  obtain ⟨v, hrep, -⟩ := hrun.represented hsock
  obtain ⟨hsame, -⟩ | ⟨window, outcome, hparsed, haccepted, hdone, hglobals, -⟩ :=
    call_transaction hsock hrep hcall
  · exact absurd hsame hne
  · rw [hglobals] at hne
    obtain ⟨htype, hurl, hcarries⟩ := transaction_globals hdone hne
    exact ⟨window, hparsed, htype, haccepted, hurl, hcarries⟩

theorem answer_tcp {a : Effect} (h : answer .tcpSocket host window = some a) :
    (a.code = .moveMovedPermanently ∨ a.code = .badRequest) ∧ a.body = none := by
  rw [answer, reply] at h
  split at h
  · cases h
    exact ⟨.inr rfl, rfl⟩
  · cases h
    exact ⟨.inl rfl, rfl⟩

theorem held_body_tcp {history : History} (h : Answered .tcpSocket history) :
    (heldAfter .tcpSocket history).body = none := by
  induction history using List.reverseRecOn with
  | nil => rfl
  | append_singleton history r ih =>
    obtain ⟨hrest, a, ha⟩ := answered_append h
    rw [heldAfter_append history ha, Held.update, (answer_tcp ha).2, ih hrest]
    rfl

theorem rendered_tcp (hsock : Honest sock) (hrun : Run sock c l) (htype : c.type = .tcpSocket)
    (hcall : handleConnection fuel (recorded sock) env globals event c (w, [], []) = some call)
    (hrendered : call.rendered = some text) : Refusal text := by
  obtain ⟨v, hrep, -⟩ := hrun.represented hsock
  obtain ⟨received, sent, next, hturn, -⟩ := call_turn hsock hrep hcall
  obtain ⟨window, hparsed⟩ := hturn.parsed_of_rendered hrendered
  obtain ⟨hanswered, a, ha, rfl⟩ := rendered_text hsock hrun hcall hparsed hrendered
  rw [htype] at hanswered ha ⊢
  obtain ⟨hcode, hbody⟩ := answer_tcp ha
  refine ⟨a.code, _, hcode, ?_, rfl⟩
  rw [Held.update, hbody, held_body_tcp hanswered]
  rfl

end Calls

/-- In every state of a run, handling a connection changes the running flag or the
log level only for an authorized request, and a plain connection is only ever
redirected or refused. -/
theorem privileged_effects_authorized {σ : Type} {outside : Outside σ} (htcp : Honest outside.tcp)
    (hgnutls : Bounded outside.gnutls) {s : Server σ} (hreach : Reachable outside s) {a : Address}
    {rest : List (Address × EpollEvents)} {e : FileDescriptorInformation (Peer σ)} {p : Peer σ}
    {env : Environment} {r : Handled σ} (h : Handles outside s a rest e p env r) :
    (r.globals ≠ s.globals →
      ∃ window, r.parsed = some window ∧ Authorized p.information.type env.host window) ∧
    (p.information.type = .tcpSocket → ∀ text, r.rendered = some text → Refusal text) := by
  have hsane := hreach.sane
  have htype := (hsane.owned a p h.connectionAt).type_ne_listen
  cases h.makes hsane htcp hgnutls with
  | nothing hglobals hrendered =>
    refine ⟨fun hne => absurd hglobals hne, fun _ text htext => ?_⟩
    cases hrendered.symm.trans htext
  | call hsock hrun hcall hglobals hparsed hrendered =>
    constructor
    · intro hne
      rw [hglobals] at hne
      obtain ⟨window, hwindow, htcp, haccepted, hurl, hcode⟩ := call_globals hsock hrun hcall hne
      exact ⟨window, hparsed.trans hwindow, ⟨htype.resolve_left htcp, haccepted, hurl, hcode⟩⟩
    · intro htcp text htext
      exact rendered_tcp hsock hrun htcp hcall (hrendered.symm.trans htext)

/-- A shutdown with the authorization code, on the first connection. -/
theorem privileged_effects_authorized_shutdown :
    ∃ (s : Server (List UInt8 × List Nat)) (e : FileDescriptorInformation _) (p : Peer _)
      (r : Handled _) (window : List UInt8), Reachable secured s ∧
      Handles secured s 1 [] e p ⟨roomy, smallHost⟩ r ∧
      s.globals.running = true ∧ r.globals.running = false ∧ r.parsed = some window ∧
      Authorized .tlsSocket smallHost window := by
  have hstopped : firstCall smallHost 0 firstGlobals shutdownRequest
      (fun r => !r.globals.running) = true := by
    decide +kernel
  obtain ⟨p, r, c, ⟨hp, -, hr, -⟩, hrunning⟩ := called_of_firstCall hstopped
  rw [Bool.not_eq_true'] at hrunning
  obtain ⟨s, e, hreach, hhandles, hglobals⟩ :=
    served_handles secured (by decide) ([], []) (shutdownRequest, []) hp hr
  have hne : r.globals ≠ s.globals := by
    rw [hglobals]
    intro heq
    rw [heq] at hrunning
    cases hrunning
  have htls : p.information.type = .tlsSocket := by
    cases hp
    rfl
  obtain ⟨window, hparsed, hauthorized⟩ := (privileged_effects_authorized honest_chunked
    (bounded_unprotected honest_chunked) hreach hhandles).1 hne
  rw [htls] at hauthorized
  exact ⟨s, e, p, r, window, hreach, hhandles, by rw [hglobals], hrunning, hparsed, hauthorized⟩

end Hss.Privilege
