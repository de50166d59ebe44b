import Hss.Server.Session

namespace Hss.Leak

open Hss.CString Hss.Headers Hss.Request Hss.Response Hss.Range Hss.DescriptorList Hss.Transaction
  Hss.StreamParser Hss.Meaning Hss.Refinement Hss.Acceptance Hss.Transport Hss.Connection
  Hss.Effects Hss.Rendering Hss.Transfer Hss.Exchange Hss.Session

def headerCost (h : ServerHeader) : Option (List UInt8) → Nat
  | none => 0
  | some value => strlen h.name + strlen value + 4

theorem length_entry (values : Values) (h : ServerHeader) :
    ((entry values h).flatMap renderHeader).length = headerCost h (values h) := by
  rw [entry]
  cases values h with
  | none => rfl
  | some value => rw [List.flatMap_singleton, length_renderHeader, headerCost]

def lengthCost (body : List UInt8) : Nat :=
  headerCost .contentLength (some (decimalText body.length)) + body.length

theorem length_responseText (code : HttpResponseCode) :
    ∃ k, ∀ held : Held, (responseText code held).length =
      k + headerCost .contentRange held.contentRange + headerCost .location held.location +
        lengthCost (held.body.getD []) := by
  refine ⟨(httpVersion ++ ascii " " ++ getRepresentativeStateCode code ++
    (ascii " " ++ descriptionOf code) ++ ascii "\r\n").length +
    headerCost .server (some serverName) + (ascii "\r\n").length, fun held => ?_⟩
  simp only [responseText, headerList, List.flatMap_append, List.length_append, length_entry,
    Held.values, lengthCost]
  omega

theorem strlen_decimalText (n : Nat) : strlen (decimalText n) = (decimalText n).length := by
  rw [strlen, cstr_decimalText]

theorem lengthCost_nil_le (body : List UInt8) : lengthCost [] + body.length ≤ lengthCost body := by
  have hpos : 0 < (decimalText body.length).length :=
    List.length_pos_iff.mpr (decimalText_ne_nil body.length)
  have hone : (decimalText 0).length = 1 := by decide
  simp only [lengthCost, headerCost, strlen_decimalText, hone, List.length_nil]
  omega

theorem headerCost_or (h : ServerHeader) (own old : Option (List UInt8)) :
    headerCost h (own.or none) ≤ headerCost h (own.or old) ∧
      (headerCost h (own.or old) ≤ headerCost h (own.or none) → own = none → old = none) := by
  cases own with
  | none =>
    rw [Option.none_or, Option.none_or]
    refine ⟨Nat.zero_le _, fun hle _ => ?_⟩
    cases old with
    | none => rfl
    | some value => exact absurd hle (by simp [headerCost])
  | some value => exact ⟨Nat.le_refl _, nofun⟩

theorem lengthCost_or (own old : Option (List UInt8)) :
    lengthCost ((own.or none).getD []) ≤ lengthCost ((own.or old).getD []) ∧
      (lengthCost ((own.or old).getD []) ≤ lengthCost ((own.or none).getD []) →
        own = none → old.getD [] = []) := by
  cases own with
  | none =>
    rw [Option.none_or, Option.none_or, Option.getD_none]
    have hcost := lengthCost_nil_le (old.getD [])
    refine ⟨by omega, fun hle _ => List.length_eq_zero_iff.mp ?_⟩
    omega
  | some body => exact ⟨Nat.le_refl _, nofun⟩

structure Hidden (held : Held) (a : Effect) : Prop where
  contentRange : a.contentRange = none → held.contentRange = none
  location : a.location = none → held.location = none
  body : a.body = none → held.body.getD [] = []

theorem or_eq_of_hidden {own old : Option (List UInt8)} (h : own = none → old = none) :
    own.or old = own.or none := by
  cases own with
  | none => rw [Option.none_or, Option.none_or, h rfl]
  | some value => rfl

/-- What is left of an effect is what the response object adds to its parts: more
bytes, unless it is hidden. -/
theorem responseText_eq_iff (held : Held) (a : Effect) :
    responseText a.code (held.update a) = responseText a.code (nothing.update a) ↔
      Hidden held a := by
  constructor
  · intro h
    obtain ⟨k, hk⟩ := length_responseText a.code
    have hlength := congrArg List.length h
    rw [hk, hk] at hlength
    simp only [Held.update, nothing] at hlength
    obtain ⟨hcr, hcr'⟩ := headerCost_or .contentRange a.contentRange held.contentRange
    obtain ⟨hloc, hloc'⟩ := headerCost_or .location a.location held.location
    obtain ⟨hbody, hbody'⟩ := lengthCost_or a.body held.body
    exact ⟨hcr' (by omega), hloc' (by omega), hbody' (by omega)⟩
  · intro h
    have hbody : (a.body.or held.body).getD [] = (a.body.or none).getD [] := by
      cases hown : a.body with
      | none => rw [Option.none_or, Option.none_or, h.body hown, Option.getD_none]
      | some body => rfl
    have hvalues : (held.update a).values = (nothing.update a).values := by
      funext slot
      cases slot with
      | contentLength => simp only [Held.values, Held.update, nothing, hbody]
      | contentRange =>
        simp only [Held.values, Held.update, nothing, or_eq_of_hidden h.contentRange]
      | location => simp only [Held.values, Held.update, nothing, or_eq_of_hidden h.location]
      | server => rfl
    rw [responseText, responseText, hvalues]
    simp only [Held.update, nothing, hbody]

/-- The file a request for a path is answered from, and the interval of it. -/
def fileFor (host : Host) (request : HttpRequest) : Option (File × Range) :=
  if strncmp (urlOf request) (ascii "/magic-call/") 12 = .eq then none
  else
    (host.realpath (cstr ((urlOf request ++ 0 :: host.stale).drop 1))).bind fun path =>
      let cwd := currentWorkingDirectory host.getcwd
      if memcmp cwd (path ++ [0]) cwd.length = some .eq then
        (host.openFile path).bind fun file =>
          (parseRange ((getRequestHeader request (ascii "Range")).map (· ++ [0])) file.size).map
            fun range => (file, range)
      else none

abbrev Accepted (window : List UInt8) : Prop := verdict (requestReply window) = .succeed

/-- The file that a complete window of bytes is answered from. -/
def fileSent (type : FileDescriptorType) (host : Host) (window : List UInt8) :
    Option (File × Range) :=
  if type = .tcpSocket ∨ ¬ Accepted window then none else fileFor host (requestOf window)

def Whole (type : FileDescriptorType) (host : Host) (window : List UInt8) : Prop :=
  ∀ f, fileSent type host window = some f → f.2.start = f.2.end_

def sentBytes (f : File × Range) : List UInt8 :=
  ((f.1.mapping.getD []).drop f.2.start).take (realLength f.2 f.1.size)

/-- Which parts of the response an effect sets, by the file that is sent. -/
structure Sets (a : Effect) (file : Option (File × Range)) : Prop where
  body : a.body = file.map sentBytes
  contentRange : a.contentRange = none ↔ ∀ f, file = some f → f.2.start = f.2.end_
  length : ∀ f, file = some f → (sentBytes f).length = realLength f.2 f.1.size

variable {type : FileDescriptorType} {host : Host} {request : HttpRequest} {a : Effect}
  {window : List UInt8}

theorem sets_none (hbody : a.body = none) (hrange : a.contentRange = none) : Sets a none :=
  ⟨hbody, ⟨fun _ => nofun, fun _ => hrange⟩, nofun⟩

theorem sets_range {file : File} {range : Range} (h : rangeEffect file range = some a) :
    Sets a (some (file, range)) ∧ a.location = none := by
  rw [rangeEffect] at h
  split at h
  · rename_i hle
    have hlength : ∀ f, some (file, range) = some f →
        (sentBytes f).length = realLength f.2 f.1.size := by
      rintro f ⟨⟩
      rw [sentBytes, List.length_take, Nat.min_eq_left hle]
    split at h
    · rename_i hwhole
      cases h
      refine ⟨⟨rfl, ⟨?_, fun _ => rfl⟩, hlength⟩, rfl⟩
      rintro - f ⟨⟩
      exact hwhole
    · rename_i hpart
      cases h
      refine ⟨⟨rfl, ⟨fun hnone => absurd hnone (Option.some_ne_none _), ?_⟩, hlength⟩, rfl⟩
      intro hwhole
      exact absurd (hwhole (file, range) rfl) hpart
  · cases h

theorem sets_magic {url : List UInt8} (h : magicEffect host request url = some a) :
    Sets a none ∧ a.location = none := by
  obtain ⟨code, rfl, -⟩ := magicEffect_cases h
  exact ⟨sets_none rfl rfl, rfl⟩

theorem sets_path (hmagic : ¬ strncmp (urlOf request) (ascii "/magic-call/") 12 = .eq)
    (h : pathEffect host request (urlOf request) = some a) :
    Sets a (fileFor host request) ∧ a.location = none := by
  have hbare : Sets (bare .notFound) none ∧ (bare .notFound).location = none :=
    ⟨sets_none rfl rfl, rfl⟩
  rw [pathEffect] at h
  rw [fileFor, if_neg hmagic]
  cases hreal : host.realpath (cstr ((urlOf request ++ 0 :: host.stale).drop 1)) with
  | none =>
    rw [hreal] at h
    cases h
    exact hbare
  | some path =>
    rw [hreal] at h
    obtain ⟨order, horder, h⟩ := Option.bind_eq_some_iff.mp h
    simp only [Option.bind_some, horder, Option.some.injEq]
    by_cases heq : order = .eq
    · rw [if_neg (not_not.mpr heq)] at h
      rw [if_pos heq]
      cases hopen : host.openFile path with
      | none =>
        rw [hopen] at h
        cases h
        exact hbare
      | some file =>
        rw [hopen] at h
        obtain ⟨range, hrange, h⟩ := Option.bind_eq_some_iff.mp h
        rw [Option.bind_some, hrange]
        exact sets_range h
    · rw [if_pos heq] at h
      rw [if_neg heq]
      cases h
      exact hbare

theorem sets_answer (h : answer type host window = some a) :
    Sets a (fileSent type host window) ∧
      (a.location = none ↔ (type = .tcpSocket → ¬ Accepted window)) := by
  rw [answer, reply] at h
  by_cases haccepted : Accepted window
  · rw [if_neg (not_not.mpr haccepted), effect] at h
    by_cases htcp : type = .tcpSocket
    · rw [if_pos htcp] at h
      cases h
      rw [fileSent, if_pos (.inl htcp)]
      exact ⟨sets_none rfl rfl, fun hnone => absurd hnone (Option.some_ne_none _),
        fun hno => absurd haccepted (hno htcp)⟩
    · have hone : ¬ (type = .tcpSocket ∨ ¬ Accepted window) := by
        rintro (h | h)
        · exact htcp h
        · exact h haccepted
      rw [if_neg htcp] at h
      rw [fileSent, if_neg hone]
      by_cases hmagic : strncmp (urlOf (requestOf window)) (ascii "/magic-call/") 12 = .eq
      · rw [if_pos hmagic] at h
        obtain ⟨hsets, hlocation⟩ := sets_magic h
        rw [fileFor, if_pos hmagic]
        exact ⟨hsets, fun _ h => absurd h htcp, fun _ => hlocation⟩
      · rw [if_neg hmagic] at h
        obtain ⟨hsets, hlocation⟩ := sets_path hmagic h
        exact ⟨hsets, fun _ h => absurd h htcp, fun _ => hlocation⟩
  · rw [if_pos haccepted] at h
    cases h
    rw [fileSent, if_pos (.inr haccepted)]
    exact ⟨sets_none rfl rfl, fun _ _ => haccepted, fun _ => rfl⟩

abbrev History := List (Host × List UInt8)

def filesSent (type : FileDescriptorType) (history : History) : List (File × Range) :=
  history.filterMap fun r => fileSent type r.1 r.2

def Answered (type : FileDescriptorType) (history : History) : Prop :=
  ∀ r ∈ history, ∃ a, answer type r.1 r.2 = some a

variable {history : History} {r : Host × List UInt8}

theorem answered_append (h : Answered type (history ++ [r])) :
    Answered type history ∧ ∃ a, answer type r.1 r.2 = some a :=
  ⟨fun r hr => h r (List.mem_append_left _ hr),
    h r (List.mem_append_right _ (List.mem_singleton_self r))⟩

theorem forall_mem_append_singleton {α : Type} {P : α → Prop} {l : List α} {x : α} :
    (∀ y ∈ l ++ [x], P y) ↔ P x ∧ ∀ y ∈ l, P y := by
  simp only [List.mem_append, List.mem_singleton, or_imp, forall_and, forall_eq, and_comm]

theorem or_eq_none_iff {own old : Option (List UInt8)} :
    own.or old = none ↔ own = none ∧ old = none := by
  cases own with
  | none => rw [Option.none_or, and_iff_right rfl]
  | some value => exact ⟨nofun, fun h => h.1⟩

theorem held_contentRange (h : Answered type history) :
    (heldAfter type history).contentRange = none ↔ ∀ r ∈ history, Whole type r.1 r.2 := by
  induction history using List.reverseRecOn with
  | nil => exact ⟨fun _ => nofun, fun _ => rfl⟩
  | append_singleton history r ih =>
    obtain ⟨hrest, a, ha⟩ := answered_append h
    rw [heldAfter_append history ha, Held.update, or_eq_none_iff, ih hrest,
      forall_mem_append_singleton, Whole, (sets_answer ha).1.contentRange]

theorem held_location (h : Answered type history) :
    (heldAfter type history).location = none ↔
      ∀ r ∈ history, type = .tcpSocket → ¬ Accepted r.2 := by
  induction history using List.reverseRecOn with
  | nil => exact ⟨fun _ => nofun, fun _ => rfl⟩
  | append_singleton history r ih =>
    obtain ⟨hrest, a, ha⟩ := answered_append h
    rw [heldAfter_append history ha, Held.update, or_eq_none_iff, ih hrest,
      forall_mem_append_singleton, (sets_answer ha).2]

theorem held_body (h : Answered type history) :
    (heldAfter type history).body = (filesSent type history).getLast?.map sentBytes := by
  induction history using List.reverseRecOn with
  | nil => rfl
  | append_singleton history r ih =>
    obtain ⟨hrest, a, ha⟩ := answered_append h
    rw [heldAfter_append history ha, Held.update, ih hrest, (sets_answer ha).1.body, filesSent,
      filesSent, List.filterMap_append]
    cases hfile : fileSent type r.1 r.2 with
    | none => simp [hfile]
    | some f => simp [hfile]

theorem length_sentBytes (h : Answered type history) {f : File × Range}
    (hf : f ∈ filesSent type history) : (sentBytes f).length = realLength f.2 f.1.size := by
  obtain ⟨r, hr, hsent⟩ := List.mem_filterMap.mp hf
  obtain ⟨a, ha⟩ := h r hr
  exact (sets_answer ha).1.length f hsent

/-- The request is answered as if it was the first: a rejected one comes behind
no redirect, one without a part of a file behind none with a part, and one
without a file behind an empty file, if behind any. -/
structure Separate (type : FileDescriptorType) (history : History) (host : Host)
    (window : List UInt8) : Prop where
  redirect : type = .tcpSocket → ¬ Accepted window → ∀ r ∈ history, ¬ Accepted r.2
  part : Whole type host window → ∀ r ∈ history, Whole type r.1 r.2
  file : fileSent type host window = none →
    ∀ f, (filesSent type history).getLast? = some f → realLength f.2 f.1.size = 0

theorem hidden_body_iff (h : Answered type history) :
    (heldAfter type history).body.getD [] = [] ↔
      ∀ f, (filesSent type history).getLast? = some f → realLength f.2 f.1.size = 0 := by
  rw [held_body h]
  cases hlast : (filesSent type history).getLast? with
  | none => exact ⟨fun _ => nofun, fun _ => rfl⟩
  | some f =>
    have hlength := length_sentBytes h (List.mem_of_getLast? hlast)
    rw [Option.map_some, Option.getD_some, ← List.length_eq_zero_iff, hlength]
    constructor
    · rintro hzero f' ⟨⟩
      exact hzero
    · intro hzero
      exact hzero f rfl

theorem hidden_iff_separate (h : Answered type history) (ha : answer type host window = some a) :
    Hidden (heldAfter type history) a ↔ Separate type history host window := by
  obtain ⟨⟨hbody, hrange, -⟩, hlocation⟩ := sets_answer ha
  have hfile : a.body = none ↔ fileSent type host window = none := by
    rw [hbody, Option.map_eq_none_iff]
  constructor
  · rintro ⟨hr, hl, hb⟩
    refine ⟨?_, ?_, ?_⟩
    · intro htcp hrejected r hmem
      exact (held_location h).mp (hl (hlocation.mpr fun _ => hrejected)) r hmem htcp
    · intro hwhole
      exact (held_contentRange h).mp (hr (hrange.mpr hwhole))
    · intro hnone
      exact (hidden_body_iff h).mp (hb (hfile.mpr hnone))
  · rintro ⟨hredirect, hpart, hempty⟩
    refine ⟨?_, ?_, ?_⟩
    · intro hnone
      exact (held_contentRange h).mpr (hpart (hrange.mp hnone))
    · intro hnone
      exact (held_location h).mpr fun r hr htcp => hredirect htcp (hlocation.mp hnone htcp) r hr
    · intro hnone
      exact (hidden_body_iff h).mpr (hempty (hfile.mp hnone))

section Runs

variable {σ σ' : Type} {sock : Socket σ} {sock' : Socket σ'} {c c' : ConnectionInformation}
  {l l' : Ledger} {fuel fuel' : Nat} {env env' : Environment} {globals globals' : Globals}
  {event event' : Event} {w : σ} {w' : σ'} {call : Call (Log σ)} {call' : Call (Log σ')}
  {text text' : List UInt8}

theorem Turn.rendered_eq {v : View} {received : List UInt8} {next : Option View}
    (h : Turn type host v received (some window) (some text) next) :
    ∃ a, answer type host window = some a ∧ text = responseText a.code (v.held.update a) := by
  cases h with
  | reply _ _ _ ha _ _ => exact ⟨_, ha, rfl⟩

theorem rendered_text (hsock : Honest sock) (hrun : Run sock c l)
    (hcall : handleConnection fuel (recorded sock) env globals event c (w, [], []) = some call)
    (hparsed : call.parsed = some window) (hrendered : call.rendered = some text) :
    Answered c.type l.served ∧ ∃ a, answer c.type env.host window = some a ∧
      text = responseText a.code ((heldAfter c.type l.served).update a) := by
  obtain ⟨v, hrep, htracks⟩ := hrun.represented hsock
  obtain ⟨received, sent, next, hturn, -⟩ := call_turn hsock hrep hcall
  rw [hparsed, hrendered] at hturn
  obtain ⟨a, ha, htext⟩ := Turn.rendered_eq hturn
  rw [htracks.held] at htext
  exact ⟨htracks.served, a, ha, htext⟩

/-- A response on a kept-alive connection is the one on a fresh connection,
exactly if the requests before leave nothing that shows in it. Both are answered by one
host: the same files, and the same bytes left behind the url. -/
theorem response_separate_iff (hsock : Honest sock) (hsock' : Honest sock')
    (hrun : Run sock c l) (hrun' : Run sock' c' l') (hfresh : l'.served = [])
    (htype : c'.type = c.type) (hhost : env'.host = env.host)
    (hcall : handleConnection fuel (recorded sock) env globals event c (w, [], []) = some call)
    (hcall' : handleConnection fuel' (recorded sock') env' globals' event' c' (w', [], []) =
      some call')
    (hparsed : call.parsed = some window) (hparsed' : call'.parsed = some window)
    (hrendered : call.rendered = some text) (hrendered' : call'.rendered = some text') :
    text = text' ↔ Separate c.type l.served env.host window := by
  obtain ⟨hanswered, a, ha, htext⟩ := rendered_text hsock hrun hcall hparsed hrendered
  obtain ⟨-, a', ha', htext'⟩ := rendered_text hsock' hrun' hcall' hparsed' hrendered'
  rw [htype, hhost] at ha'
  obtain rfl : a = a' := Option.some.inj (ha.symm.trans ha')
  have hnothing : heldAfter c'.type l'.served = nothing := by rw [hfresh, heldAfter, List.foldl_nil]
  rw [hnothing] at htext'
  rw [htext, htext', responseText_eq_iff]
  exact hidden_iff_separate hanswered ha

end Runs

theorem response_separate_redirects :
    ∃ first second, once (accepted .tcpSocket) rootRequest = some first ∧
      once redirected rootRequest = some second ∧ second.rendered = first.rendered := by
  have hrun := (run_accepted .tcpSocket).call 9 ⟨roomy, smallHost⟩ firstGlobals readable
    (rootRequest, []) _ once_accepted rfl
  have hnone : ∀ window, fileSent .tcpSocket smallHost window = none := fun _ => if_pos (.inl rfl)
  have hseparate : Separate .tcpSocket [(smallHost, rootRequest)] smallHost rootRequest := by
    refine ⟨fun _ hrejected => absurd (by decide +kernel) hrejected, ?_, ?_⟩
    · rintro - r hr f hf
      rw [List.mem_singleton.mp hr, hnone] at hf
      cases hf
    · rintro - f hf
      rw [filesSent, List.filterMap_cons, hnone] at hf
      cases hf
  refine ⟨_, _, once_accepted, once_redirected, congrArg some ?_⟩
  exact (response_separate_iff honest_chunked honest_chunked hrun (run_accepted .tcpSocket) rfl rfl
    rfl once_redirected once_accepted rfl rfl rfl rfl).mpr hseparate

def fileText : List UInt8 :=
  ascii "HTTP/1.1 200 OK\r\nContent-Length: 10\r\nServer: hSS/0.0.1-alpha\r\n\r\n0123456789"

def afterFile : ConnectionInformation where
  type := .tlsSocket
  state := .waitingRequest
  buffer := ⟨fileText, 74, 74, 74⟩
  request := httpRequestInitialize freshBlock
  response := ⟨⟨.ok, .live (ascii "OK"), 2⟩, [⟨ascii "Content-Length", ascii "10"⟩,
    ⟨ascii "Server", serverName⟩], ⟨some (ascii "0123456789"), 10⟩⟩

theorem once_file : once (accepted .tlsSocket) (ascii "GET /f H\r\n\r\n") =
    some ⟨.alive afterFile, (([], []), ascii "GET /f H\r\n\r\n", fileText), firstGlobals,
      some (ascii "GET /f H\r\n\r\n"), some fileText, some (ascii "/srv/f")⟩ := by
  decide +kernel

/-- Behind the request for a file, a request for a missing one is answered with
the content of the former. -/
theorem body_of_earlier_file :
    Run chunked afterFile ⟨[], [], [(smallHost, ascii "GET /f H\r\n\r\n")]⟩ ∧
      (once afterFile (ascii "GET /g H\r\n\r\n")).bind (·.rendered) =
        some (ascii "HTTP/1.1 404 Not Found\r\nContent-Length: 10\r\n" ++
          ascii "Server: hSS/0.0.1-alpha\r\n\r\n0123456789") ∧
      (once (accepted .tlsSocket) (ascii "GET /g H\r\n\r\n")).bind (·.rendered) =
        some (ascii "HTTP/1.1 404 Not Found\r\nContent-Length: 0\r\n" ++
          ascii "Server: hSS/0.0.1-alpha\r\n\r\n") :=
  ⟨(run_accepted .tlsSocket).call 9 ⟨roomy, smallHost⟩ firstGlobals readable
    (ascii "GET /f H\r\n\r\n", []) _ once_file rfl, by decide +kernel, by decide +kernel⟩

end Hss.Leak
