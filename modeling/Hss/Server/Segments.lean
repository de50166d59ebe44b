import Hss.Server.Delivery
import Hss.Server.Session

namespace Hss.Segments

open Hss.CString Hss.Request Hss.Response Hss.DescriptorList Hss.Transaction Hss.StreamParser
  Hss.Meaning Hss.Acceptance Hss.Transport Hss.ReadLoop Hss.ReceiveBuffer Hss.Connection
  Hss.Effects Hss.Rendering Hss.Transfer Hss.Exchange Hss.Delivery Hss.Session

variable {σ : Type}

inductive Quiet (sock : Socket σ) (env : Environment) :
    ConnectionInformation → List UInt8 → ConnectionInformation → Prop
  | refl (c : ConnectionInformation) : Quiet sock env c [] c
  | call {c c₁ c₂ : ConnectionInformation} {sent : List UInt8} (fuel : Nat) (globals : Globals)
      (event : Event) (w : σ) (call : Call (Log σ)) : Quiet sock env c sent c₁ →
      handleConnection fuel (recorded sock) env globals event c₁ (w, [], []) = some call →
      call.fate = .alive c₂ → call.world.2.1 = [] →
      Quiet sock env c (sent ++ call.world.2.2) c₂

/-- A call receives these bytes, and calls behind it send until nothing is left. -/
def Round (sock : Socket σ) (env : Environment) (c : ConnectionInformation) (w : σ)
    (received sent : List UInt8) (c' : ConnectionInformation) : Prop :=
  ∃ fuel globals event call c₁ rest,
    handleConnection fuel (recorded sock) env globals event c (w, [], []) = some call ∧
    call.fate = .alive c₁ ∧ call.world.2.1 = received ∧ Quiet sock env c₁ rest c' ∧
    c'.state = .waitingRequest ∧ sent = call.world.2.2 ++ rest

/-- Rounds one after another, each given by the world it begins in and the bytes
it receives, with what each sends. -/
inductive Session (sock : Socket σ) (env : Environment) :
    ConnectionInformation → List (σ × List UInt8) → List (List UInt8) → Prop
  | done (c : ConnectionInformation) : Session sock env c [] []
  | round {c c' : ConnectionInformation} {w : σ} {received sent : List UInt8}
      {rounds : List (σ × List UInt8)} {outs : List (List UInt8)} : received ≠ [] →
      Round sock env c w received sent c' → Session sock env c' rounds outs →
      Session sock env c ((w, received) :: rounds) (sent :: outs)

/-- What a round does to a connection that has nothing to send, and what it sends. -/
def View.round (type : FileDescriptorType) (host : Host) (v : View) (received : List UInt8) :
    Option (View × List UInt8) :=
  if 2 ^ 63 ≤ (v.window received).length then none
  else if verdict (requestReply (v.window received)) = .incompleteRequest then
    some (⟨v.window received, [], v.held⟩, [])
  else
    (answer type host (v.window received)).bind fun a =>
      if 2 ^ 63 ≤ (responseText a.code (v.held.update a)).length then none
      else some (⟨[], [], v.held.update a⟩, responseText a.code (v.held.update a))

def View.rounds (type : FileDescriptorType) (host : Host) :
    View → List (List UInt8) → Option (View × List (List UInt8))
  | v, [] => some (v, [])
  | v, received :: rest =>
    (View.round type host v received).bind fun r =>
      (View.rounds type host r.1 rest).map fun s => (s.1, r.2 :: s.2)

variable {sock : Socket σ} {env : Environment} {c c' : ConnectionInformation} {v v' : View}
  {type : FileDescriptorType} {host : Host} {w : σ} {received sent out : List UInt8}
  {outs : List (List UInt8)}

theorem sent_sent (v : View) (m n : Nat) : (v.sent m).sent n = v.sent (m + n) := by
  rw [View.sent, View.sent, View.sent, List.drop_drop]

theorem Turn.quiet {parsed rendered : Option (List UInt8)}
    (h : Turn type host v [] parsed rendered (some v')) : v' = v := by
  cases h with
  | idle => rfl
  | more _ hne => exact absurd rfl hne
  | reply _ hne => exact absurd rfl hne

theorem Quiet.sends (hsock : Honest sock) (hrep : Represents c v) (h : Quiet sock env c sent c') :
    sent <+: v.unsent ∧ Represents c' (v.sent sent.length) ∧ c'.type = c.type := by
  induction h with
  | refl => exact ⟨List.nil_prefix, hrep, rfl⟩
  | @call c₁ c₂ sent fuel globals event w call _ hcall halive hnothing ih =>
    obtain ⟨⟨rest, hsplit⟩, hrep₁, htype⟩ := ih
    obtain ⟨received, more, next, hturn, -, hlog, hnext⟩ := call_turn hsock hrep₁ hcall
    obtain ⟨htype', v', rfl, hprefix, hrep₂⟩ := hnext _ halive
    rw [hlog] at hnothing ⊢
    obtain rfl : received = [] := hnothing
    obtain rfl := Turn.quiet hturn
    rw [sent_sent] at hrep₂
    rw [View.sent, ← hsplit, List.drop_left] at hprefix
    refine ⟨?_, ?_, htype'.trans htype⟩
    · rw [← hsplit]
      exact (List.prefix_append_right_inj sent).mpr hprefix
    · rw [List.length_append]
      exact hrep₂

theorem Turn.round {parsed rendered : Option (List UInt8)} (hne : received ≠ [])
    (h : Turn type host v received parsed rendered (some v')) :
    View.round type host v received = some (⟨v'.pending, [], v'.held⟩, v'.unsent) := by
  cases h with
  | idle => exact absurd rfl hne
  | more hidle _ hmore hlimit =>
    rw [View.round, if_neg (Nat.not_le_of_lt hlimit), if_pos hmore, hidle]
  | reply _ _ hmore ha hlimit hlimit' =>
    rw [View.round, if_neg (Nat.not_le_of_lt hlimit), if_neg hmore, ha, Option.bind_some,
      if_neg (Nat.not_le_of_lt hlimit')]

theorem Round.view (hsock : Honest sock) (hrep : Represents c v) (hne : received ≠ [])
    (h : Round sock env c w received sent c') :
    ∃ v', View.round c.type env.host v received = some (v', sent) ∧ Represents c' v' ∧
      v'.unsent = [] ∧ c'.type = c.type := by
  obtain ⟨fuel, globals, event, call, c₁, rest, hcall, halive, hreceived, hquiet, hstate, rfl⟩ := h
  obtain ⟨received', sent, next, hturn, -, hlog, hnext⟩ := call_turn hsock hrep hcall
  obtain ⟨htype, v', rfl, ⟨left, hsplit⟩, hrep₁⟩ := hnext _ halive
  obtain ⟨hrest, hrep₂, htype'⟩ := hquiet.sends hsock hrep₁
  rw [hlog] at hreceived ⊢
  obtain rfl : received' = received := hreceived
  rw [sent_sent, ← List.length_append] at hrep₂
  have hall : sent ++ rest = v'.unsent := by
    obtain ⟨hdone, -⟩ := hrep₂.waiting hstate
    rw [View.sent, ← hsplit, List.drop_left] at hrest
    have hprefix : sent ++ rest <+: v'.unsent := by
      rw [← hsplit]
      exact (List.prefix_append_right_inj sent).mpr hrest
    exact hprefix.eq_of_length_le (List.drop_eq_nil_iff.mp hdone)
  have hround := Turn.round hne hturn
  rw [← hall] at hround
  have hview : v'.sent (sent ++ rest).length = ⟨v'.pending, [], v'.held⟩ := by
    rw [View.sent, hall, List.drop_length]
  rw [hview] at hrep₂
  exact ⟨_, hround, hrep₂, rfl, htype'.trans htype⟩

theorem Session.view {rounds : List (σ × List UInt8)} (hsock : Honest sock) (hrep : Represents c v)
    (h : Session sock env c rounds outs) :
    ∃ v', View.rounds c.type env.host v (rounds.map (·.2)) = some (v', outs) := by
  induction h generalizing v with
  | done c => exact ⟨v, rfl⟩
  | round hne hround _ ih =>
    obtain ⟨v₁, hstep, hrep₁, -, htype⟩ := hround.view hsock hrep hne
    obtain ⟨v', hrest⟩ := ih hrep₁
    rw [htype] at hrest
    refine ⟨v', ?_⟩
    simp only [List.map_cons, View.rounds, hstep, Option.bind_some, hrest, Option.map_some]

theorem round_chunked (hrep : Represents c v) (hidle : v.unsent = []) (hne : received ≠ [])
    (hsmall : received.length < pageTableSize) (hroomy : ∀ n < 2 ^ 63, env.memory.grants n = true)
    (h : View.round c.type env.host v received = some (v', out)) (sizes : List Nat) :
    ∃ sent c', Round chunked env c (received, sizes) received sent c' := by
  rw [View.round] at h
  split at h
  · cases h
  · rename_i hlimit
    have hserved : Served env c v (v.window received) := by
      split at h
      · rename_i hmore
        exact .inl hmore
      · obtain ⟨a, ha, h⟩ := Option.bind_eq_some_iff.mp h
        split at h
        · cases h
        · rename_i hlimit'
          exact .inr ⟨a, ha, hroomy _ (Nat.lt_of_not_le hlimit')⟩
    have hgrant := hroomy _ (Nat.lt_of_not_le hlimit)
    have hevent : readable.epollin = true := rfl
    obtain ⟨fuel, call, c', hcall, halive, hstate, hreceived⟩ :=
      call_chunked firstGlobals hrep hidle hne hsmall sizes hgrant hserved hevent
    exact ⟨call.world.2.2 ++ [], c', fuel, firstGlobals, readable, call, c', [], hcall, halive,
      hreceived, .refl c', hstate, rfl⟩

theorem session_chunked {rounds : List (List UInt8 × List Nat)} (hrep : Represents c v)
    (hidle : v.unsent = []) (hne : ∀ r ∈ rounds, r.1 ≠ [])
    (hsmall : ∀ r ∈ rounds, r.1.length < pageTableSize)
    (hroomy : ∀ n < 2 ^ 63, env.memory.grants n = true)
    (h : View.rounds c.type env.host v (rounds.map (·.1)) = some (v', outs)) :
    ∃ outs, Session chunked env c (rounds.map fun r => (r, r.1)) outs := by
  induction rounds generalizing c v v' outs with
  | nil => exact ⟨[], .done c⟩
  | cons r rounds ih =>
    obtain ⟨bytes, sizes⟩ := r
    obtain ⟨⟨v₁, out⟩, hstep, h⟩ := Option.bind_eq_some_iff.mp h
    obtain ⟨⟨v₂, outs'⟩, hrest, -⟩ := Option.map_eq_some_iff.mp h
    have hbytes : bytes ≠ [] := hne (bytes, sizes) List.mem_cons_self
    obtain ⟨sent, c', hround⟩ := round_chunked hrep hidle hbytes
      (hsmall (bytes, sizes) List.mem_cons_self) hroomy hstep sizes
    obtain ⟨v₁', hstep', hrep', hidle', htype⟩ := hround.view honest_chunked hrep hbytes
    obtain ⟨rfl, -⟩ := Prod.mk.inj (Option.some.inj (hstep.symm.trans hstep'))
    rw [← htype] at hrest
    obtain ⟨outs, hsession⟩ := ih hrep' hidle' (fun r hr => hne r (List.mem_cons_of_mem _ hr))
      (fun r hr => hsmall r (List.mem_cons_of_mem _ hr)) hrest
    exact ⟨sent :: outs, .round hbytes hround hsession⟩

theorem round_shift (v : View) (piece rest : List UInt8) :
    View.round type host ⟨v.window piece, [], v.held⟩ rest =
      View.round type host v (piece ++ rest) := by
  have hwindow : View.window ⟨v.window piece, [], v.held⟩ rest = v.window (piece ++ rest) :=
    List.append_assoc v.pending piece rest
  rw [View.round, View.round, hwindow]

theorem rounds_pieces {pieces : List (List UInt8)} {text : RequestText} (hne : ∀ p ∈ pieces, p ≠ [])
    (hsome : pieces ≠ []) (haccept : requestReply (v.window pieces.flatten) = .done text [])
    (h : View.round type host v pieces.flatten = some (v', out)) :
    View.rounds type host v pieces =
      some (v', List.replicate (pieces.length - 1) [] ++ [out]) := by
  induction pieces generalizing v with
  | nil => exact absurd rfl hsome
  | cons piece pieces ih =>
    by_cases hlast : pieces = []
    · subst hlast
      rw [List.flatten_singleton] at h
      rw [View.rounds, h]
      rfl
    · have hrest : pieces.flatten ≠ [] := by
        intro hnil
        obtain ⟨p, hp⟩ := List.exists_mem_of_ne_nil pieces hlast
        exact hne p (List.mem_cons_of_mem _ hp) (List.flatten_eq_nil_iff.mp hnil p hp)
      rw [List.flatten_cons] at h haccept
      rw [View.window, ← List.append_assoc] at haccept
      have hmore := verdict_cut haccept hrest
      have hlimit : ¬ 2 ^ 63 ≤ (v.window piece).length := by
        intro hle
        rw [View.round, if_pos] at h
        · cases h
        · rw [View.window, ← List.append_assoc, List.length_append]
          exact Nat.le_add_right_of_le hle
      have hstep : View.round type host v piece = some (⟨v.window piece, [], v.held⟩, []) := by
        rw [View.round, if_neg hlimit]
        exact if_pos hmore
      rw [← round_shift] at h
      have hpos : 0 < pieces.length := List.length_pos_iff.mpr hlast
      have hlength : (piece :: pieces).length - 1 = (pieces.length - 1) + 1 := by
        rw [List.length_cons]
        omega
      have hpieces := ih (fun p hp => hne p (List.mem_cons_of_mem _ hp)) hlast
        (v := ⟨v.window piece, [], v.held⟩) haccept h
      rw [View.rounds, hstep, Option.bind_some, hpieces, hlength, List.replicate_succ]
      rfl

theorem rounds_append {rest : List (List UInt8)} {rounds : List (List UInt8)}
    (h : View.rounds type host v rounds = some (v', outs)) :
    View.rounds type host v (rounds ++ rest) =
      (View.rounds type host v' rest).map fun s => (s.1, outs ++ s.2) := by
  induction rounds generalizing v outs with
  | nil =>
    cases h
    simp only [List.nil_append, Option.map_id']
  | cons r rounds ih =>
    obtain ⟨⟨v₁, out⟩, hstep, h⟩ := Option.bind_eq_some_iff.mp h
    obtain ⟨⟨v₂, outs'⟩, hrest, h⟩ := Option.map_eq_some_iff.mp h
    cases h
    simp only [List.cons_append, View.rounds, hstep, Option.bind_some, ih hrest, Option.map_map]
    rfl

theorem round_accepted {request : List UInt8} {text : RequestText} (hpending : v.pending = [])
    (haccept : requestReply request = .done text [])
    (h : View.round type host v request = some (v', out)) : v'.pending = [] ∧ out ≠ [] := by
  have hmore : verdict (requestReply (v.window request)) ≠ .incompleteRequest := by
    rw [View.window, hpending, List.nil_append, haccept]
    simp [verdict]
  rw [View.round] at h
  by_cases hlimit : 2 ^ 63 ≤ (v.window request).length
  · rw [if_pos hlimit] at h
    cases h
  · rw [if_neg hlimit, if_neg hmore] at h
    obtain ⟨a, -, h⟩ := Option.bind_eq_some_iff.mp h
    split at h
    · cases h
    · cases h
      exact ⟨rfl, responseText_ne_nil _ _⟩

def sends (out : List UInt8) : Bool := !out.isEmpty

theorem filter_pieces (n : Nat) (hout : out ≠ []) :
    (List.replicate n [] ++ [out]).filter sends = [out] := by
  have hsends : sends out = true := by
    rw [sends, Bool.not_eq_true', List.isEmpty_eq_false_iff]
    exact hout
  rw [List.filter_append, List.filter_replicate_of_neg (by decide), List.nil_append,
    List.filter_singleton, hsends]
  rfl

/-- However the requests are cut into rounds, the responses are those to the
whole requests. -/
theorem rounds_segments {segments : List (List (List UInt8))} (hpending : v.pending = [])
    (hne : ∀ g ∈ segments, ∀ p ∈ g, p ≠ [])
    (haccept : ∀ g ∈ segments, ∃ text, requestReply g.flatten = .done text [])
    (h : View.rounds type host v (segments.map List.flatten) = some (v', outs)) :
    (∃ outs', View.rounds type host v segments.flatten = some (v', outs') ∧
      outs'.filter sends = outs) ∧
    outs.length = segments.length ∧ ∀ out ∈ outs, out ≠ [] := by
  induction segments generalizing v outs with
  | nil =>
    cases h
    exact ⟨⟨[], rfl, rfl⟩, rfl, nofun⟩
  | cons g segments ih =>
    obtain ⟨⟨v₁, out⟩, hstep, h⟩ := Option.bind_eq_some_iff.mp h
    obtain ⟨⟨v₂, outs₂⟩, hrest, h⟩ := Option.map_eq_some_iff.mp h
    cases h
    obtain ⟨text, htext⟩ := haccept g List.mem_cons_self
    obtain ⟨hpending₁, hout⟩ := round_accepted hpending htext hstep
    have hsome : g ≠ [] := by
      rintro rfl
      cases htext
    have hwindow : v.window g.flatten = g.flatten := by
      rw [View.window, hpending, List.nil_append]
    have hpieces := rounds_pieces (hne g List.mem_cons_self) hsome (hwindow.symm ▸ htext) hstep
    obtain ⟨⟨outs', hrounds, hfilter⟩, hlength, houts⟩ := ih hpending₁
      (fun g hg => hne g (List.mem_cons_of_mem _ hg))
      (fun g hg => haccept g (List.mem_cons_of_mem _ hg)) hrest
    refine ⟨⟨(List.replicate (g.length - 1) [] ++ [out]) ++ outs', ?_, ?_⟩, ?_, ?_⟩
    · rw [List.flatten_cons, rounds_append hpieces, hrounds, Option.map_some]
    · rw [List.filter_append, filter_pieces _ hout, hfilter]
      rfl
    · rw [List.length_cons, List.length_cons, hlength]
    · intro out' hmem
      obtain rfl | hmem := List.mem_cons.mp hmem
      · exact hout
      · exact houts out' hmem

/-- Requests that are accepted on their own, each cut into rounds and chunks in
any way, get one response each: the one to the request that arrives alone, from one
host and with the same bytes left behind the url. -/
theorem segmentation_independent {σ' : Type} {sock' : Socket σ'} (hsock : Honest sock)
    (hsock' : Honest sock') (env env' : Environment) (hhost : env'.host = env.host)
    (request request' : HttpRequest) (response response' : HttpResponse)
    (segments : List (List (List UInt8))) (hne : ∀ g ∈ segments, ∀ p ∈ g, p ≠ [])
    (haccept : ∀ g ∈ segments, Accepts (httpRequestInitialize request) g.flatten [])
    (alone : List (σ × List UInt8)) (halone : alone.map (·.2) = segments.map List.flatten)
    (hsession : Session sock env (initializeConnectionInformation type request response) alone outs) :
    outs.length = segments.length ∧ (∀ out ∈ outs, out ≠ []) ∧
    (∀ rounds outs', rounds.map (·.2) = segments.flatten →
      Session sock' env' (initializeConnectionInformation type request' response') rounds outs' →
      outs'.filter sends = outs) ∧
    (∀ rounds : List (List UInt8 × List Nat), rounds.map (·.1) = segments.flatten →
      (∀ r ∈ rounds, r.1.length < pageTableSize) → (∀ n < 2 ^ 63, env'.memory.grants n = true) →
      ∃ outs', Session chunked env' (initializeConnectionInformation type request' response')
        (rounds.map fun r => (r, r.1)) outs') := by
  obtain ⟨v', hview⟩ := hsession.view hsock (represents_fresh type request response)
  rw [halone] at hview
  have haccept' : ∀ g ∈ segments, ∃ text, requestReply g.flatten = .done text [] := fun g hg =>
    (accepts_iff_reply (Refinement.clean_fresh request) _ _).mp (haccept g hg)
  obtain ⟨⟨outs₁, hrounds, hfilter⟩, hlength, houts⟩ := rounds_segments rfl hne haccept' hview
  have hrep := represents_fresh type request' response'
  have hpieces : ∀ p ∈ segments.flatten, p ≠ [] := by
    intro p hp
    obtain ⟨g, hg, hp⟩ := List.mem_flatten.mp hp
    exact hne g hg p hp
  refine ⟨hlength, houts, ?_, ?_⟩
  · intro rounds outs' hcut hsession'
    obtain ⟨v₂, hview'⟩ := hsession'.view hsock' hrep
    rw [hcut, hhost] at hview'
    obtain ⟨-, rfl⟩ := Prod.mk.inj (Option.some.inj (hrounds.symm.trans hview'))
    exact hfilter
  · intro rounds hcut hsmall hroomy
    have hcut' : ∀ r ∈ rounds, r.1 ≠ [] := fun r hr =>
      hpieces r.1 (hcut ▸ List.mem_map_of_mem hr)
    rw [← hhost, ← hcut] at hrounds
    exact session_chunked hrep rfl hcut' hsmall hroomy hrounds

def plain : Environment := ⟨roomy, smallHost⟩

theorem session_alone : Session chunked plain (accepted .tcpSocket)
    [((rootRequest, []), rootRequest), ((rootRequest, []), rootRequest)]
    [redirectText, redirectText] := by
  have hne : rootRequest ≠ [] := by decide
  have hsent : redirectText = redirectCall.world.2.2 ++ [] := (List.append_nil _).symm
  have hround : ∀ c, once c rootRequest = some redirectCall →
      Round chunked plain c (rootRequest, []) rootRequest redirectText redirected := fun c honce =>
    ⟨9, firstGlobals, readable, redirectCall, redirected, [], honce, rfl, rfl, .refl _, rfl, hsent⟩
  exact .round hne (hround _ once_accepted) (.round hne (hround _ once_redirected) (.done _))

theorem segmentation_independent_halves :
    ∃ outs, Session chunked plain (accepted .tcpSocket)
      [((rootRequest, [3]), rootRequest), ((ascii "GET / ", [1]), ascii "GET / "),
        ((ascii "H\r\n\r\n", []), ascii "H\r\n\r\n")] outs ∧
      outs.filter sends = [redirectText, redirectText] := by
  obtain ⟨-, -, hsame, hexists⟩ := segmentation_independent honest_chunked honest_chunked
    plain plain rfl freshBlock freshBlock freshResponse
    freshResponse
    [[rootRequest], [ascii "GET / ", ascii "H\r\n\r\n"]] (by decide)
    (fun g hg => by
      have hg' : g.flatten = rootRequest := by
        obtain rfl | hg := List.mem_cons.mp hg
        · rfl
        · rw [List.mem_singleton.mp hg]
          rfl
      rw [hg']
      exact ⟨_, rfl⟩)
    [((rootRequest, []), rootRequest), ((rootRequest, []), rootRequest)] rfl session_alone
  obtain ⟨outs, hsession⟩ := hexists
    [(rootRequest, [3]), (ascii "GET / ", [1]), (ascii "H\r\n\r\n", [])] rfl (by decide)
    (fun n hn => decide_eq_true hn)
  exact ⟨outs, hsession, hsame _ outs rfl hsession⟩

def badRequestText : List UInt8 :=
  ascii "HTTP/1.1 400 Bad Request\r\nContent-Length: 0\r\nServer: hSS/0.0.1-alpha\r\n\r\n"

def refused : ConnectionInformation where
  type := .tcpSocket
  state := .waitingRequest
  buffer := ⟨badRequestText, 72, 72, 72⟩
  request := httpRequestInitialize freshBlock
  response := ⟨⟨.badRequest, .live (ascii "Bad Request"), 11⟩,
    [⟨ascii "Content-Length", ascii "0"⟩, ⟨ascii "Server", serverName⟩], ⟨none, 0⟩⟩

theorem once_refused : once (accepted .tcpSocket) (rootRequest ++ rootRequest) =
    some ⟨.alive refused, (([], []), rootRequest ++ rootRequest, badRequestText), firstGlobals,
      some (rootRequest ++ rootRequest), some badRequestText, none⟩ := by
  decide +kernel

/-- Bytes behind a request are taken for a body, which no request has. -/
theorem requests_in_one_round :
    Accepts (httpRequestInitialize freshBlock) rootRequest [] ∧
      Session chunked plain (accepted .tcpSocket)
        [((rootRequest, []), rootRequest), ((rootRequest, []), rootRequest)]
        [redirectText, redirectText] ∧
      Session chunked plain (accepted .tcpSocket)
        [((rootRequest ++ rootRequest, []), rootRequest ++ rootRequest)] [badRequestText] :=
  ⟨⟨_, rfl⟩, session_alone, .round (by decide) ⟨9, firstGlobals, readable, _, refused, [],
    once_refused, rfl, rfl, .refl _, rfl, (List.append_nil _).symm⟩ (.done _)⟩

end Hss.Segments
