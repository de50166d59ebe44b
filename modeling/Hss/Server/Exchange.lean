import Hss.Http.Acceptance
import Hss.Server.Rendering
import Hss.Server.Transfer

namespace Hss.Exchange

open Hss.CString Hss.Headers Hss.Request Hss.Response Hss.DescriptorList Hss.Transaction Hss.Loop
  Hss.StreamParser Hss.Meaning Hss.Refinement Hss.Acceptance Hss.Transport Hss.ReadLoop
  Hss.ReceiveBuffer Hss.Connection Hss.Effects Hss.Rendering Hss.Transfer

/-- A connection without memory and indices: the bytes of a request received so
far, the rest of the response being sent, and what the response object holds. -/
structure View where
  pending : List UInt8
  unsent : List UInt8
  held : Held

def View.fresh : View := ⟨[], [], nothing⟩

def View.sent (v : View) (n : Nat) : View := { v with unsent := v.unsent.drop n }

def View.window (v : View) (received : List UInt8) : List UInt8 := v.pending ++ received

def requestOf (window : List UInt8) : HttpRequest :=
  match requestReply window with
  | .done text _ => parsedRequest freshBlock text
  | _ => freshBlock

def answer (type : FileDescriptorType) (host : Host) (window : List UInt8) : Option Effect :=
  reply type host (verdict (requestReply window)) (requestOf window)

/-- What a call does with the bytes it receives: the bytes it parses, the response
it renders, and the connection before anything of that is sent, if it is alive. -/
inductive Turn (type : FileDescriptorType) (host : Host) (v : View) :
    List UInt8 → Option (List UInt8) → Option (List UInt8) → Option View → Prop
  | idle : Turn type host v [] none none (some v)
  | lost {received : List UInt8} : v.unsent = [] → Turn type host v received none none none
  | more {received : List UInt8} : v.unsent = [] → received ≠ [] →
      verdict (requestReply (v.window received)) = .incompleteRequest →
      (v.window received).length < 2 ^ 63 →
      Turn type host v received (some (v.window received)) none
        (some { v with pending := v.window received })
  | undefined {received : List UInt8} : v.unsent = [] → received ≠ [] →
      verdict (requestReply (v.window received)) ≠ .incompleteRequest →
      Turn type host v received (some (v.window received)) none none
  | reply {received : List UInt8} {a : Effect} : v.unsent = [] → received ≠ [] →
      verdict (requestReply (v.window received)) ≠ .incompleteRequest →
      answer type host (v.window received) = some a →
      (v.window received).length < 2 ^ 63 →
      (responseText a.code (v.held.update a)).length < 2 ^ 63 →
      Turn type host v received (some (v.window received))
        (some (responseText a.code (v.held.update a)))
        (some ⟨[], responseText a.code (v.held.update a), v.held.update a⟩)

structure Represents (c : ConnectionInformation) (v : View) : Prop where
  buffer : c.buffer.WellFormed
  request : Reachable c.request
  holds : Holds c.response v.held
  phase : (c.state = .waitingRequest ∧ v.unsent = [] ∧ c.buffer.window = v.pending) ∨
    (c.state = .writingResponse ∧ v.unsent ≠ [] ∧ c.buffer.window = v.unsent ∧ v.pending = [])

variable {σ : Type} {sock : Socket σ} {w : σ} {R S input received : List UInt8} {fuel : Nat}
  {env : Environment} {globals : Globals} {event : Event} {c c' : ConnectionInformation}
  {v : View} {world : Log σ} {call : Call (Log σ)} {type : FileDescriptorType} {host : Host}

theorem represents_fresh (type : FileDescriptorType) (request : HttpRequest)
    (response : HttpResponse) :
    Represents (initializeConnectionInformation type request response) .fresh where
  buffer := ⟨Nat.le_refl _, Nat.le_refl _, rfl, Nat.two_pow_pos 63⟩
  request := .fresh request
  holds := holds_fresh response
  phase := .inl ⟨rfl, rfl, rfl⟩

theorem Represents.waiting (h : Represents c v) (hstate : c.state = .waitingRequest) :
    v.unsent = [] ∧ c.buffer.window = v.pending := by
  obtain ⟨-, hphase⟩ | ⟨hwriting, -⟩ := h.phase
  · exact hphase
  · rw [hstate] at hwriting
    cases hwriting

theorem Represents.writing (h : Represents c v) (hstate : c.state = .writingResponse) :
    v.unsent ≠ [] ∧ c.buffer.window = v.unsent ∧ v.pending = [] := by
  obtain ⟨hwaiting, -⟩ | ⟨-, hphase⟩ := h.phase
  · rw [hstate] at hwaiting
    cases hwaiting
  · exact hphase

theorem fromBuffer_answer {d : HttpRequest} (hd : Reachable d) {tail : List UInt8}
    (hnul : 0 ∈ tail) (input : List UInt8) :
    ∃ d', httpRequestFromBuffer d (input ++ tail) input.length =
      some (verdict (requestReply input), d') ∧ Reachable d' ∧
      ∀ type host, reply type host (verdict (requestReply input)) d' = answer type host input := by
  obtain ⟨text, htext, he⟩ | ⟨hv, -⟩ := fromBuffer_cases hd.clean input tail
  · refine ⟨parsedRequest d text, ?_, .parse input tail hd he, ?_⟩
    · rw [htext]
      exact he
    · intro type host
      have hmethod : parsedRequest d text = parsedRequest freshBlock text := rfl
      rw [answer, requestOf, htext, hmethod]
  · obtain ⟨d', he⟩ := fromBuffer_returns hd.clean input hnul
    refine ⟨d', he, .parse input tail hd he, ?_⟩
    intro type host
    rw [answer, reply, reply, if_pos hv, if_pos hv]

theorem Represents.afterSending (h : Represents c v) (hstate : c.state = .writingResponse)
    {n : Nat} (hn : n ≤ v.unsent.length) : Represents (afterSending c n) (v.sent n) := by
  obtain ⟨hunsent, hwindow, hpending⟩ := h.writing hstate
  have hrest : (advance c.buffer n).window = v.unsent.drop n := by rw [window_advance, hwindow]
  refine ⟨wellFormed_advance h.buffer (hwindow ▸ hn), h.request, h.holds, ?_⟩
  by_cases hdone : v.unsent.drop n = []
  · have hstate' : (Transfer.afterSending c n).state = .waitingRequest := if_pos (by rwa [hwindow])
    exact .inl ⟨hstate', hdone, hrest.trans (hdone.trans hpending.symm)⟩
  · have hstate' : (Transfer.afterSending c n).state = c.state := if_neg (by rwa [hwindow])
    exact .inr ⟨hstate'.trans hstate, hdone, hrest, hpending⟩

theorem Represents.write (hsock : Honest sock) (h : Represents c v)
    (hstate : c.state = .writingResponse) {fate : Fate}
    (hw : writeResponse fuel (recorded sock) c (w, R, S) = some (fate, world)) :
    ∃ sent, sent <+: v.unsent ∧ world.2 = (R, S ++ sent) ∧ ∀ c', fate = .alive c' →
      c' = Transfer.afterSending c sent.length ∧ Represents c' (v.sent sent.length) := by
  obtain ⟨hunsent, hwindow, -⟩ := h.writing hstate
  obtain ⟨sent, rest, hsplit, hlog, hfate⟩ :=
    writeResponse_spec hsock h.buffer (hwindow ▸ hunsent) hw
  have hprefix : sent <+: v.unsent := ⟨rest, by rw [← hsplit, hwindow]⟩
  refine ⟨sent, hprefix, hlog, ?_⟩
  rintro c' rfl
  obtain hfate | hfate := hfate
  · cases hfate
  · cases hfate
    exact ⟨rfl, h.afterSending hstate hprefix.length_le⟩

theorem responseText_ne_nil (code : HttpResponseCode) (held : Held) : responseText code held ≠ [] := by
  simp [responseText, httpVersion, ascii]

theorem Represents.of_ready {held : Held} {text : List UInt8} (hready : Ready c c' held text)
    (hrequest : Reachable c'.request) (htext : text ≠ []) : Represents c' ⟨[], text, held⟩ :=
  ⟨hready.buffer, hrequest, hready.holds, .inr ⟨hready.state, htext, hready.window, rfl⟩⟩

structure Stored (c : ConnectionInformation) (window : List UInt8) (held : Held) : Prop where
  state : c.state = .waitingRequest
  block : c.buffer = ⟨window, window.length, 0, window.length⟩
  wellFormed : c.buffer.WellFormed
  request : Reachable c.request
  holds : Holds c.response held

theorem Stored.window {window : List UInt8} {held : Held} (h : Stored c window held) :
    c.buffer.window = window := by
  rw [h.block, Buffer.window, slice, List.take_length, List.drop_zero]

theorem Stored.serve (hsock : Honest sock) (h : Stored c (v.window received) v.held)
    (hunsent : v.unsent = []) (hne : received ≠ [])
    (hs : Serving fuel (recorded sock) env globals c (w, R, S) call) :
    ∃ sent next, Turn c.type env.host v received call.parsed call.rendered next ∧
      call.parsed = some (v.window received) ∧ call.world.2 = (R, S ++ sent) ∧
      ∀ c', call.fate = .alive c' → c'.type = c.type ∧ ∃ v', next = some v' ∧
        sent <+: v'.unsent ∧ Represents c' (v'.sent sent.length) := by
  obtain ⟨d, hparse, hd, hanswer⟩ :=
    fromBuffer_answer h.request env.memory.nul (v.window received)
  have hwindow := h.window
  have hbytes : c.buffer.buffer = v.window received := by rw [h.block]
  have hstart : c.buffer.start = 0 := by rw [h.block]
  have hend : c.buffer.end_ = (v.window received).length := by rw [h.block]
  have hverdict : parseWindow env c = some (verdict (requestReply (v.window received)), d) := by
    rw [parseWindow, hbytes, hstart, hend, List.drop_zero, Nat.sub_zero]
    exact hparse
  have hwhole := length_window_lt h.wellFormed
  rw [hwindow] at hwhole
  cases hs with
  | unparsed hnone => cases hverdict.symm.trans hnone
  | incomplete hsome =>
    obtain ⟨hmore, rfl⟩ := Prod.mk.inj (Option.some.inj (hverdict.symm.trans hsome))
    rw [hwindow]
    refine ⟨[], _, .more hunsent hne hmore hwhole, rfl, by rw [List.append_nil], ?_⟩
    rintro c' ⟨⟩
    refine ⟨rfl, _, rfl, List.nil_prefix, h.wellFormed, hd, h.holds, .inl ⟨h.state, ?_, hwindow⟩⟩
    rw [View.sent, hunsent, List.drop_nil]
  | unanswered hsome hcode =>
    obtain ⟨hsame, rfl⟩ := Prod.mk.inj (Option.some.inj (hverdict.symm.trans hsome))
    rw [← hsame] at hcode
    rw [hwindow]
    refine ⟨[], _, .undefined hunsent hne hcode, rfl, by rw [List.append_nil], ?_⟩
    intro c' hfate
    cases hfate
  | answered hsome hcode hrespond hwrite =>
    obtain ⟨hsame, rfl⟩ := Prod.mk.inj (Option.some.inj (hverdict.symm.trans hsome))
    rw [← hsame] at hcode hrespond
    obtain ⟨a, ha, rfl, hready, hrequest⟩ := respond_some h.holds h.wellFormed hrespond
    have htext := responseText_ne_nil a.code (v.held.update a)
    have hrepresents := Represents.of_ready hready (hrequest ▸ hd.destroy) htext
    obtain ⟨sent, hprefix, hlog, halive⟩ := hrepresents.write hsock hready.state hwrite
    have hlimit := length_window_lt hready.buffer
    rw [hready.window] at hlimit
    rw [hwindow]
    refine ⟨sent, _, .reply hunsent hne hcode ((hanswer _ _).symm.trans ha) hwhole hlimit, rfl,
      hlog, ?_⟩
    intro c' hfate
    obtain ⟨rfl, hc'⟩ := halive c' hfate
    exact ⟨hready.type, _, rfl, hprefix, hc'⟩

theorem Turn.parsed_of_rendered {parsed rendered : Option (List UInt8)} {next : Option View}
    (h : Turn type host v received parsed rendered next) {text : List UInt8}
    (ht : rendered = some text) : ∃ window, parsed = some window := by
  cases h with
  | reply => exact ⟨_, rfl⟩
  | _ => cases ht

/-- What a call receives is lost only if the connection fails or the round is
larger than the page table. -/
def Kept (sock : Socket σ) (memory : Memory) (v : View) (received : List UInt8)
    (parsed : Option (List UInt8)) : Prop :=
  received ≠ [] → Steady sock → received.length < pageTableSize →
    memory.grants (v.window received).length = true → parsed = some (v.window received)

/-- A call of `handle_connection` takes a turn and sends a part of what is to be
sent then. -/
theorem call_turn (hsock : Honest sock) (h : Represents c v)
    (hcall : handleConnection fuel (recorded sock) env globals event c (w, R, S) = some call) :
    ∃ received sent next, Turn c.type env.host v received call.parsed call.rendered next ∧
      Kept sock env.memory v received call.parsed ∧
      call.world.2 = (R ++ received, S ++ sent) ∧
      ∀ c', call.fate = .alive c' → c'.type = c.type ∧ ∃ v', next = some v' ∧
        sent <+: v'.unsent ∧ Represents c' (v'.sent sent.length) := by
  have hquiet : ∀ parsed, Kept sock env.memory v [] parsed := fun _ hne => absurd rfl hne
  have hsame : (R ++ [], S ++ []) = (R, S) := by rw [List.append_nil, List.append_nil]
  have hstays : ∀ c', Fate.alive c = .alive c' → c'.type = c.type ∧ ∃ v', some v = some v' ∧
      [] <+: v'.unsent ∧ Represents c' (v'.sent ([] : List UInt8).length) := by
    rintro c' ⟨⟩
    exact ⟨rfl, v, rfl, List.nil_prefix, h⟩
  cases calling_of_handleConnection hcall with
  | skipped => exact ⟨[], [], _, .idle, hquiet _, hsame.symm, hstays⟩
  | idle _ hreceive =>
    obtain ⟨data, hlog, rfl⟩ := receive_spec hsock h.buffer hreceive
    rw [List.append_nil] at hlog
    exact ⟨[], [], _, .idle, hquiet _, hlog.trans hsame.symm, hstays⟩
  | destroyed hstate hreceive =>
    obtain ⟨data, hlog, hdenied⟩ := receive_spec hsock h.buffer hreceive
    obtain ⟨hunsent, hwindow⟩ := h.waiting hstate
    refine ⟨data, [], none, .lost hunsent, ?_, by rw [List.append_nil]; exact hlog, ?_⟩
    · intro _ hsteady _ hgrant
      have hrefused := hdenied hsteady
      rw [hwindow] at hrefused
      cases hrefused.symm.trans hgrant
    · intro c' hfate
      cases hfate
  | crashed hstate hreceive =>
    obtain ⟨data, hlog, hlarge⟩ := receive_spec hsock h.buffer hreceive
    obtain ⟨hunsent, -⟩ := h.waiting hstate
    refine ⟨data, [], none, .lost hunsent, ?_, by rw [List.append_nil]; exact hlog, ?_⟩
    · intro _ _ hsmall _
      exact absurd hsmall (Nat.not_lt_of_le hlarge)
    · intro c' hfate
      cases hfate
  | @served b world _ hstate hreceive hserving =>
    obtain ⟨data, hlog, hne, hb, rfl⟩ := receive_spec hsock h.buffer hreceive
    obtain ⟨hunsent, hwindow⟩ := h.waiting hstate
    obtain ⟨w', logs⟩ := world
    obtain rfl : logs = (R ++ data, S) := hlog
    have hstored : Stored { c with buffer := filled c.buffer data } (v.window data) v.held :=
      ⟨hstate, by rw [filled, hwindow, View.window], hb, h.request, h.holds⟩
    obtain ⟨sent, next, hturn, hparsed, hlog', halive⟩ := hstored.serve hsock hunsent hne hserving
    exact ⟨data, sent, next, hturn, fun _ _ _ _ => hparsed, hlog', halive⟩
  | written hstate hwrite =>
    obtain ⟨sent, hprefix, hlog, halive⟩ := h.write hsock hstate hwrite
    refine ⟨[], sent, some v, .idle, hquiet _, by rw [List.append_nil]; exact hlog, ?_⟩
    intro c' hfate
    obtain ⟨rfl, hc'⟩ := halive c' hfate
    exact ⟨rfl, v, rfl, hprefix, hc'⟩

theorem fromBuffer_request {d d' : HttpRequest} (hd : Reachable d) {tail : List UInt8}
    (h : httpRequestFromBuffer d (input ++ tail) input.length = some (.succeed, d')) :
    d' = requestOf input ∧ verdict (requestReply input) = .succeed := by
  obtain ⟨text, htext, he⟩ | ⟨hverdict, -⟩ := fromBuffer_cases hd.clean input tail
  · cases h.symm.trans he
    rw [requestOf, htext]
    exact ⟨rfl, rfl⟩
  · exact absurd (fromBuffer_code hd.clean h).symm hverdict

/-- What a call does besides receiving and sending: nothing, or it answers the
window it parses. -/
theorem call_answers (hsock : Honest sock) (h : Represents c v)
    (hcall : handleConnection fuel (recorded sock) env globals event c (w, R, S) = some call) :
    (call.globals = globals ∧ call.rendered = none ∧ call.opened = none) ∨
      ∃ window code request outcome, call.parsed = some window ∧
        httpRequestFromBuffer c.request (window ++ env.memory.behind) window.length =
          some (code, request) ∧ answerRequest env.host globals c code request = some outcome ∧
        call.globals = outcome.globals ∧ call.opened = outcome.opened := by
  cases calling_of_handleConnection hcall with
  | skipped | idle | destroyed | crashed | written => exact .inl ⟨rfl, rfl, rfl⟩
  | served _ hreceive hserving =>
    obtain ⟨data, -, -, -, rfl⟩ := receive_spec hsock h.buffer hreceive
    cases hserving with
    | unparsed | incomplete | unanswered => exact .inl ⟨rfl, rfl, rfl⟩
    | answered hparse _ hrespond _ =>
      simp only [parseWindow, filled, List.drop_zero, Nat.sub_zero] at hparse
      refine .inr ⟨_, _, _, _, rfl, ?_, (respond_cases hrespond).1, rfl, rfl⟩
      rw [filled, window_whole]
      exact hparse

theorem call_transaction (hsock : Honest sock) (h : Represents c v)
    (hcall : handleConnection fuel (recorded sock) env globals event c (w, R, S) = some call) :
    (call.globals = globals ∧ call.opened = none) ∨
      ∃ window outcome, call.parsed = some window ∧ verdict (requestReply window) = .succeed ∧
        handleHttpTransaction c.type env.host globals (requestOf window) c.response =
          some outcome ∧ call.globals = outcome.globals ∧ call.opened = outcome.opened := by
  obtain ⟨hglobals, -, hopened⟩ | ⟨window, code, request, outcome, hparsed, hparse, hanswer,
      hglobals, hopened⟩ := call_answers hsock h hcall
  · exact .inl ⟨hglobals, hopened⟩
  · rw [answerRequest] at hanswer
    split at hanswer
    · obtain ⟨response, -, rfl⟩ := Option.map_eq_some_iff.mp hanswer
      exact .inl ⟨hglobals, hopened⟩
    · rename_i hcode
      rw [not_not.mp hcode] at hparse
      obtain ⟨rfl, haccepted⟩ := fromBuffer_request h.request hparse
      exact .inr ⟨window, outcome, hparsed, haccepted, hanswer, hglobals, hopened⟩

end Hss.Exchange
