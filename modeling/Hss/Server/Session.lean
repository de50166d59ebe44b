import Hss.Server.Exchange

namespace Hss.Session

open Hss.CString Hss.Request Hss.Response Hss.DescriptorList Hss.Transaction Hss.Transport
  Hss.ReadLoop Hss.ReceiveBuffer Hss.Connection Hss.Effects Hss.Rendering Hss.Acceptance
  Hss.Transfer Hss.Exchange

/-- The books an observer of the socket keeps: the bytes received since the
connection was created or its last response was completely sent, the rest of the
response being sent, and the requests answered with the host that answered. -/
structure Ledger where
  pending : List UInt8
  unsent : List UInt8
  served : List (Host × List UInt8)

def Ledger.fresh : Ledger := ⟨[], [], []⟩

def answered (host : Host) (parsed rendered : Option (List UInt8)) : List (Host × List UInt8) :=
  match rendered with
  | none => []
  | some _ => parsed.toList.map fun request => (host, request)

/-- The books after a call of which these bytes and texts are observed. -/
def Ledger.after (l : Ledger) (host : Host) (received sent : List UInt8)
    (parsed rendered : Option (List UInt8)) : Ledger :=
  let outgoing := l.unsent ++ rendered.getD []
  let unsent := outgoing.drop sent.length
  { pending := if outgoing ≠ [] ∧ unsent = [] then [] else l.pending ++ received
    unsent
    served := l.served ++ answered host parsed rendered }

variable {σ : Type}

/-- The connections that some sequence of events leads to, with the books kept. -/
inductive Run (sock : Socket σ) : ConnectionInformation → Ledger → Prop
  | accepted (type : FileDescriptorType) (request : HttpRequest) (response : HttpResponse) :
      Run sock (initializeConnectionInformation type request response) .fresh
  | call {c c' : ConnectionInformation} {l : Ledger} (fuel : Nat) (env : Environment)
      (globals : Globals) (event : Event) (w : σ) (call : Call (Log σ)) : Run sock c l →
      handleConnection fuel (recorded sock) env globals event c (w, [], []) = some call →
      call.fate = .alive c' →
      Run sock c' (l.after env.host call.world.2.1 call.world.2.2 call.parsed call.rendered)

def heldAfter (type : FileDescriptorType) (served : List (Host × List UInt8)) : Held :=
  served.foldl (fun held r =>
    match answer type r.1 r.2 with
    | none => held
    | some a => held.update a) nothing

structure Tracks (type : FileDescriptorType) (l : Ledger) (v : View) : Prop where
  unsent : l.unsent = v.unsent
  pending : v.unsent = [] → l.pending = v.pending
  consumed : v.unsent ≠ [] → v.pending = []
  held : v.held = heldAfter type l.served
  served : ∀ r ∈ l.served, ∃ a, answer type r.1 r.2 = some a

variable {sock : Socket σ} {c c' : ConnectionInformation} {l : Ledger} {v v' : View}
  {type : FileDescriptorType} {host : Host} {received sent : List UInt8}
  {parsed rendered : Option (List UInt8)}

theorem heldAfter_append (served : List (Host × List UInt8)) {request : List UInt8} {a : Effect}
    (ha : answer type host request = some a) :
    heldAfter type (served ++ [(host, request)]) = (heldAfter type served).update a := by
  simp only [heldAfter, List.foldl_append, List.foldl_cons, List.foldl_nil, ha]

theorem tracks_fresh : Tracks type .fresh .fresh :=
  ⟨rfl, fun _ => rfl, fun h => absurd rfl h, rfl, fun _ hr => by cases hr⟩

theorem Tracks.turn (h : Tracks type l v) (ht : Turn type host v received parsed rendered (some v'))
    (hsent : sent <+: v'.unsent) :
    Tracks type (l.after host received sent parsed rendered) (v'.sent sent.length) := by
  have hunsent := h.unsent
  cases ht with
  | idle =>
    have hout : l.unsent ++ (none : Option (List UInt8)).getD [] = v.unsent := by
      rw [Option.getD_none, List.append_nil, hunsent]
    refine ⟨?_, ?_, ?_, ?_, ?_⟩
    · simp only [Ledger.after, hout, View.sent]
    · intro hdone
      simp only [Ledger.after, hout, List.append_nil, View.sent]
      by_cases hidle : v.unsent = []
      · rw [if_neg fun hboth => hboth.1 hidle, h.pending hidle]
      · rw [if_pos ⟨hidle, hdone⟩, h.consumed hidle]
    · intro hleft
      refine h.consumed fun hidle => hleft ?_
      rw [View.sent, hidle, List.drop_nil]
    · simp only [Ledger.after, answered, List.append_nil, View.sent, h.held]
    · simp only [Ledger.after, answered, List.append_nil]
      exact h.served
  | more hidle =>
    have hout : l.unsent ++ (none : Option (List UInt8)).getD [] = [] := by
      rw [Option.getD_none, List.append_nil, hunsent, hidle]
    refine ⟨?_, ?_, ?_, ?_, ?_⟩
    · simp only [Ledger.after, hout, View.sent, hidle]
    · intro _
      simp only [Ledger.after, hout, ne_eq, not_true, false_and, if_false, View.sent, View.window,
        h.pending hidle]
    · intro hleft
      exact absurd (by rw [View.sent, hidle, List.drop_nil]) hleft
    · simp only [Ledger.after, answered, List.append_nil, View.sent, h.held]
    · simp only [Ledger.after, answered, List.append_nil]
      exact h.served
  | @reply _ a hidle _ _ ha _ _ =>
    have htext := responseText_ne_nil a.code (v.held.update a)
    refine ⟨?_, ?_, fun _ => rfl, ?_, ?_⟩
    · simp only [Ledger.after, View.sent, hunsent, hidle, Option.getD_some, List.nil_append]
    · intro hdone
      simp only [Ledger.after, hunsent, hidle, Option.getD_some, List.nil_append]
      exact if_pos ⟨htext, hdone⟩
    · have hheld := heldAfter_append l.served ha
      rw [← h.held] at hheld
      exact hheld.symm
    · intro r hr
      obtain hr | hr := List.mem_append.mp hr
      · exact h.served r hr
      · rw [List.mem_singleton.mp hr]
        exact ⟨a, ha⟩

theorem Run.represented (hsock : Honest sock) (h : Run sock c l) :
    ∃ v, Represents c v ∧ Tracks c.type l v := by
  induction h with
  | accepted type request response =>
    exact ⟨.fresh, represents_fresh type request response, tracks_fresh⟩
  | call fuel env globals event w call _ hcall halive ih =>
    obtain ⟨v, hrep, htracks⟩ := ih
    obtain ⟨received, sent, next, hturn, -, hlog, hnext⟩ := call_turn hsock hrep hcall
    obtain ⟨htype, v', rfl, hprefix, hrep'⟩ := hnext _ halive
    refine ⟨v'.sent sent.length, hrep', ?_⟩
    rw [hlog, htype]
    exact htracks.turn hturn hprefix

def roomy : Memory where
  grants n := decide (n < 2 ^ 63)
  limit _ h := of_decide_eq_true h
  garbage _ := 0
  behind := [0]
  nul := List.mem_singleton_self 0

def readable : Event := ⟨true, true⟩

def firstGlobals : Globals := ⟨true, .information⟩

def accepted (type : FileDescriptorType) : ConnectionInformation :=
  initializeConnectionInformation type freshBlock freshResponse

def once (c : ConnectionInformation) (request : List UInt8) :
    Option (Call (Log (List UInt8 × List Nat))) :=
  handleConnection 9 (recorded chunked) ⟨roomy, smallHost⟩ firstGlobals readable c
    ((request, []), [], [])

theorem run_accepted (type : FileDescriptorType) : Run chunked (accepted type) .fresh :=
  .accepted type freshBlock freshResponse

def rootRequest : List UInt8 := ascii "GET / H\r\n\r\n"

def redirectText : List UInt8 :=
  ascii "HTTP/1.1 301 Moved Permanently\r\nContent-Length: 0\r\n" ++
    ascii "Location: https://127.0.0.1:443/\r\nServer: hSS/0.0.1-alpha\r\n\r\n"

def redirected : ConnectionInformation where
  type := .tcpSocket
  state := .waitingRequest
  buffer := ⟨redirectText, 112, 112, 112⟩
  request := httpRequestInitialize freshBlock
  response := ⟨⟨.moveMovedPermanently, .live (ascii "Moved Permanently"), 17⟩,
    [⟨ascii "Content-Length", ascii "0"⟩, ⟨ascii "Location", ascii "https://127.0.0.1:443/"⟩,
      ⟨ascii "Server", serverName⟩], ⟨none, 0⟩⟩

def redirectCall : Call (Log (List UInt8 × List Nat)) :=
  ⟨.alive redirected, (([], []), rootRequest, redirectText), firstGlobals, some rootRequest,
    some redirectText, none⟩

theorem once_accepted : once (accepted .tcpSocket) rootRequest = some redirectCall := by
  decide +kernel

theorem once_redirected : once redirected rootRequest = some redirectCall := by decide +kernel

end Hss.Session
