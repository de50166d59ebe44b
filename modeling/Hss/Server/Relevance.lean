import Hss.Server.Segments
import Hss.Server.Url

namespace Hss.Relevance

open Hss.CString Hss.Headers Hss.Request Hss.StreamParser Hss.Meaning Hss.Refinement Hss.Grammar
  Hss.Acceptance Hss.DescriptorList Hss.Transaction Hss.Transport Hss.Connection Hss.Effects
  Hss.Exchange Hss.Segments

def askedFor : List (List UInt8) := [ascii "Authorization", ascii "Range"]

/-- Two accepted requests for one path that say the same in the headers asked for. The blanks,
the order of the lines, the other headers, the version and how much of the method is there
are left open. -/
structure Alike (r r' : RequestForm) : Prop where
  loose : r.Loose
  loose' : r'.Loose
  url : cstr r'.url = cstr r.url
  headers : ∀ name ∈ askedFor, ∀ value,
    (∃ l ∈ r'.lines, l.key = name ∧ l.value = value) ↔ ∃ l ∈ r.lines, l.key = name ∧ l.value = value

variable {type : FileDescriptorType} {host : Host} {request request' : HttpRequest}
  {r r' : RequestForm} {v v₁ v₂ : View} {name value : List UInt8}

theorem cstr_askedFor (h : name ∈ askedFor) : cstr name = name := by
  simp only [askedFor, List.mem_cons, List.not_mem_nil, or_false] at h
  obtain rfl | rfl := h <;> decide

theorem getRequestHeader_parsed (d : HttpRequest) (text : RequestText) (name : List UInt8) :
    getRequestHeader (parsedRequest d text) name =
      (findHeader text.headers name).map fun e => cstr e.value := by
  cases hfind : findHeader text.headers name <;>
    simp [getRequestHeader, httpRequestGetHeader, parsedRequest, hfind]

theorem found_iff (hr : r.Loose) {headers : List Header} (hord : Ordered headers)
    (hmem : ∀ e, e ∈ headers ↔ ∃ l ∈ r.lines, e = l.header) (hname : cstr name = name) :
    (findHeader headers name).map (·.value) = some value ↔
      ∃ l ∈ r.lines, l.key = name ∧ l.value = value := by
  rw [Option.map_eq_some_iff]
  constructor
  · rintro ⟨e, he, rfl⟩
    obtain ⟨hmem', hkey⟩ := (findHeader_eq_some hord).mp he
    obtain ⟨l, hl, rfl⟩ := (hmem e).mp hmem'
    exact ⟨l, hl, (keyOf_header (hr.lines l hl)).symm.trans (hkey.trans hname), rfl⟩
  · rintro ⟨l, hl, hkey, rfl⟩
    refine ⟨l.header, (findHeader_eq_some hord).mpr ⟨(hmem _).mpr ⟨l, hl, rfl⟩, ?_⟩, rfl⟩
    rw [keyOf_header (hr.lines l hl), hkey, hname]

/-- A transaction reads nothing of a request but its url and the headers it asks for, and
nothing behind a url that is not empty. -/
theorem effect_congr (hurl : urlOf request' = urlOf request)
    (hheaders : ∀ name ∈ askedFor, getRequestHeader request' name = getRequestHeader request name)
    (hne : type ≠ .tcpSocket → urlOf request ≠ []) (stale : List UInt8) :
    effect type { host with stale } request' = effect type host request := by
  have hauthorization := hheaders (ascii "Authorization") List.mem_cons_self
  have hrange := hheaders (ascii "Range") (List.mem_cons_of_mem _ List.mem_cons_self)
  by_cases htype : type = .tcpSocket
  · simp only [effect, if_pos htype, hurl, redirectEffect]
  · have hpath := cstr_behind (hne htype) (not_mem_urlOf request)
    simp only [effect, hurl, redirectEffect, magicEffect, hauthorization, pathEffect, hpath,
      fileEffect, hrange]

theorem Alike.answer (h : Alike r r') (hne : type ≠ .tcpSocket → cstr r.url ≠ [])
    (host : Host) (stale : List UInt8) :
    answer type { host with stale } r'.bytes = answer type host r.bytes := by
  obtain ⟨headers, hreply, hord, hmem⟩ := accepted_of_loose h.loose
  obtain ⟨headers', hreply', hord', hmem'⟩ := accepted_of_loose h.loose'
  have hsame : ∀ name ∈ askedFor,
      (findHeader headers' name).map (·.value) = (findHeader headers name).map (·.value) := by
    intro name hname
    have hnul := cstr_askedFor hname
    ext value
    rw [found_iff h.loose' hord' hmem' hnul, found_iff h.loose hord hmem hnul]
    exact h.headers name hname value
  have heffect : effect type { host with stale }
      (parsedRequest freshBlock ⟨r'.url, r'.version, headers'⟩) =
        effect type host (parsedRequest freshBlock ⟨r.url, r.version, headers⟩) := by
    refine effect_congr ?_ (fun name hname => ?_) (fun htype => ?_) stale
    · rw [Url.urlOf_parsed, Url.urlOf_parsed]
      exact h.url
    · have hvalues := congrArg (Option.map cstr) (hsame name hname)
      rw [Option.map_map, Option.map_map] at hvalues
      rw [getRequestHeader_parsed, getRequestHeader_parsed]
      exact hvalues
    · rw [Url.urlOf_parsed]
      exact hne htype
  simp only [Exchange.answer, requestOf, hreply, hreply', verdict, reply, ne_eq, not_true_eq_false,
    if_false]
  exact heffect

theorem window_idle (hpending : v.pending = []) (received : List UInt8) :
    v.window received = received := by
  rw [View.window, hpending, List.nil_append]

theorem round_of_loose (hr : r.Loose) (hpending : v.pending = []) {x : View × List UInt8}
    (h : View.round type host v r.bytes = some x) : ∃ a, answer type host r.bytes = some a ∧
      x = (⟨[], [], v.held.update a⟩, Rendering.responseText a.code (v.held.update a)) := by
  obtain ⟨headers, hreply, -⟩ := accepted_of_loose hr
  have hmore : verdict (requestReply r.bytes) ≠ .incompleteRequest := by
    rw [hreply]
    exact Headers.HttpErrorCode.noConfusion
  rw [View.round, window_idle hpending, if_neg hmore] at h
  split at h
  · cases h
  · obtain ⟨a, ha, h⟩ := Option.bind_eq_some_iff.mp h
    split at h
    · cases h
    · exact ⟨a, ha, (Option.some.inj h).symm⟩

theorem rounds_alike {pairs : List (RequestForm × RequestForm)} {outs outs' : List (List UInt8)}
    {stale : List UInt8} (halike : ∀ p ∈ pairs, Alike p.1 p.2)
    (hne : type ≠ .tcpSocket → ∀ p ∈ pairs, cstr p.1.url ≠ []) (hpending : v.pending = [])
    (h : View.rounds type host v (pairs.map (·.1.bytes)) = some (v₁, outs))
    (h' : View.rounds type { host with stale } v (pairs.map (·.2.bytes)) = some (v₂, outs')) :
    outs' = outs := by
  induction pairs generalizing v outs outs' with
  | nil =>
    cases h
    cases h'
    rfl
  | cons p pairs ih =>
    obtain ⟨x, hround, h⟩ := Option.bind_eq_some_iff.mp h
    obtain ⟨x', hround', h'⟩ := Option.bind_eq_some_iff.mp h'
    obtain ⟨⟨u, rest⟩, hrest, h⟩ := Option.map_eq_some_iff.mp h
    obtain ⟨⟨u', rest'⟩, hrest', h'⟩ := Option.map_eq_some_iff.mp h'
    have hp := halike p List.mem_cons_self
    obtain ⟨a, ha, rfl⟩ := round_of_loose hp.loose hpending hround
    obtain ⟨a', ha', rfl⟩ := round_of_loose hp.loose' hpending hround'
    rw [hp.answer fun htype => hne htype p List.mem_cons_self, ha] at ha'
    cases ha'
    cases h
    cases h'
    rw [ih (fun q hq => halike q (List.mem_cons_of_mem _ hq))
      (fun htype q hq => hne htype q (List.mem_cons_of_mem _ hq)) rfl hrest hrest']

/-- What a client is sent depends on nothing but the paths it asks for and what it says under
`Authorization` and `Range`: on two connections of one type, to servers with one code, one
address and one file system, whose requests are alike one by one, the same bytes are sent for
each of them, whatever else the requests say and whatever the servers' memory holds. On a TLS
connection this is about urls that are not empty as C strings: for an empty one the path that
is looked up is what an earlier request has left in its block. -/
theorem responses_alike {σ σ' : Type} {sock : Socket σ} {sock' : Socket σ'} (hsock : Honest sock)
    (hsock' : Honest sock') (env env' : Environment)
    (hhost : env'.host = { env.host with stale := env'.host.stale })
    (request request' : HttpRequest) (response response' : Response.HttpResponse)
    {pairs : List (RequestForm × RequestForm)} (halike : ∀ p ∈ pairs, Alike p.1 p.2)
    (hne : type ≠ .tcpSocket → ∀ p ∈ pairs, cstr p.1.url ≠ [])
    {rounds : List (σ × List UInt8)} {rounds' : List (σ' × List UInt8)}
    {outs outs' : List (List UInt8)} (hrounds : rounds.map (·.2) = pairs.map (·.1.bytes))
    (hrounds' : rounds'.map (·.2) = pairs.map (·.2.bytes))
    (h : Session sock env (initializeConnectionInformation type request response) rounds outs)
    (h' : Session sock' env' (initializeConnectionInformation type request' response') rounds'
      outs') : outs' = outs := by
  obtain ⟨v₁, hview⟩ := h.view hsock (represents_fresh type request response)
  obtain ⟨v₂, hview'⟩ := h'.view hsock' (represents_fresh type request' response')
  rw [hrounds] at hview
  rw [hrounds', hhost] at hview'
  exact rounds_alike halike hne rfl hview hview'

theorem alike_of_filter (hr : r.Loose) (hr' : r'.Loose) (hurl : cstr r'.url = cstr r.url)
    (hlines : r'.lines.filter (·.key ∈ askedFor) = r.lines.filter (·.key ∈ askedFor)) :
    Alike r r' where
  loose := hr
  loose' := hr'
  url := hurl
  headers name hname value := by
    have hkept : ∀ lines : List HeaderLine, (∃ l ∈ lines, l.key = name ∧ l.value = value) ↔
        ∃ l ∈ lines.filter (·.key ∈ askedFor), l.key = name ∧ l.value = value := by
      intro lines
      constructor
      · rintro ⟨l, hl, rfl, hvalue⟩
        exact ⟨l, List.mem_filter.mpr ⟨hl, decide_eq_true hname⟩, rfl, hvalue⟩
      · rintro ⟨l, hl, hsame⟩
        exact ⟨l, (List.mem_filter.mp hl).1, hsame⟩
    rw [hkept, hkept r.lines, hlines]

theorem session_whole {env : Environment} (hroomy : ∀ n < 2 ^ 63, env.memory.grants n = true)
    {requests outs : List (List UInt8)} (hne : ∀ b ∈ requests, b ≠ [])
    (hsmall : ∀ b ∈ requests, b.length < ReadLoop.pageTableSize)
    (h : (View.rounds type env.host .fresh requests).map (·.2) = some outs) :
    Session chunked env (Session.accepted type) (requests.map fun b => ((b, []), b)) outs := by
  obtain ⟨⟨v₁, outs⟩, hview, rfl⟩ := Option.map_eq_some_iff.mp h
  have hrep := represents_fresh type freshBlock Response.freshResponse
  have hrounds : (requests.map fun b => (b, ([] : List Nat))).map (·.1) = requests := by
    rw [List.map_map]
    exact List.map_id requests
  rw [← hrounds] at hview
  obtain ⟨outs', hsession⟩ := session_chunked hrep rfl (List.forall_mem_map.mpr hne)
    (List.forall_mem_map.mpr hsmall) hroomy hview
  rw [List.map_map] at hsession
  obtain ⟨v₂, hview'⟩ := hsession.view honest_chunked hrep
  rw [List.map_map] at hview hview'
  cases hview.symm.trans hview'
  exact hsession

def partLine (value : String) : HeaderLine := ⟨ascii "Range", [32], ascii value, []⟩

def hostLine : HeaderLine := ⟨ascii "Host", [], ascii "h", [32]⟩

def partPairs : List (RequestForm × RequestForm) :=
  [(Lookup.getRequest (ascii "/f") [partLine "bytes=2-5"],
      Lookup.getRequest (ascii "/f") [hostLine, partLine "bytes=2-5"]),
    (Lookup.getRequest (ascii "/f") [partLine "bytes=7-"],
      Lookup.getRequest (ascii "/f") [partLine "bytes=7-", hostLine])]

theorem alike_partPairs : ∀ p ∈ partPairs, Alike p.1 p.2 := by
  have halike : ∀ p ∈ partPairs, p.1.Loose ∧ p.2.Loose ∧ cstr p.2.url = cstr p.1.url ∧
      p.2.lines.filter (·.key ∈ askedFor) = p.1.lines.filter (·.key ∈ askedFor) := by
    decide +kernel
  intro p hp
  obtain ⟨hloose, hloose', hurl, hlines⟩ := halike p hp
  exact alike_of_filter hloose hloose' hurl hlines

/-- The name of a file that an earlier request may have left. -/
def littered : Environment := ⟨Session.roomy, { smallHost with stale := ascii "keys/key.pem" }⟩

def partText (length part body : String) : List UInt8 :=
  ascii "HTTP/1.1 206 Partial Content\r\nContent-Length: " ++ ascii length ++
    ascii "\r\nContent-Range: bytes " ++ ascii part ++
    ascii "\r\nServer: hSS/0.0.1-alpha\r\n\r\n" ++ ascii body

def partTexts : List (List UInt8) := [partText "4" "2-5/10" "2345", partText "3" "7-9/10" "789"]

theorem session_parts : Session chunked plain (Session.accepted .tlsSocket)
    ((partPairs.map (·.1.bytes)).map fun b => ((b, []), b)) partTexts :=
  session_whole (fun n hn => decide_eq_true hn) (by decide) (by decide) (by decide +kernel)

/-- Neither another header nor what is left in the memory makes a difference. -/
theorem responses_alike_parts : Session chunked littered (Session.accepted .tlsSocket)
    ((partPairs.map (·.2.bytes)).map fun b => ((b, []), b)) partTexts := by
  have hsome : (View.rounds .tlsSocket littered.host .fresh (partPairs.map (·.2.bytes))).isSome =
      true := by
    decide +kernel
  obtain ⟨⟨v, outs⟩, hview⟩ := Option.isSome_iff_exists.mp hsome
  have hsession := session_whole (fun n hn => decide_eq_true hn) (by decide) (by decide)
    (congrArg (Option.map (·.2)) hview)
  have hne : FileDescriptorType.tlsSocket ≠ .tcpSocket → ∀ p ∈ partPairs, cstr p.1.url ≠ [] :=
    fun _ => by decide
  have hsame : outs = partTexts := responses_alike honest_chunked honest_chunked plain littered rfl
    freshBlock freshBlock Response.freshResponse Response.freshResponse alike_partPairs hne rfl rfl
    session_parts hsession
  exact hsame ▸ hsession

end Hss.Relevance
