import Hss.Http.Client
import Hss.Server.Splitting

namespace Hss.Conversation

open Hss.CString Hss.Headers Hss.Request Hss.Response Hss.Range Hss.DescriptorList Hss.Transaction
  Hss.Messages Hss.Encoding Hss.ContentLength Hss.Meaning Hss.Grammar Hss.HeaderBlock Hss.Client
  Hss.Transport Hss.ReceiveBuffer Hss.Connection Hss.Effects Hss.Rendering Hss.Acceptance
  Hss.Transfer Hss.Exchange Hss.Session Hss.Leak Hss.Splitting

def seen (code : HttpResponseCode) (held : Held) : Message :=
  ⟨statusText code, headerList held.values, held.body.getD []⟩

/-- What the receiver is to see of the requests answered, one after another. -/
def replies (type : FileDescriptorType) : Held → History → List Message
  | _, [] => []
  | held, r :: history =>
    match answer type r.1 r.2 with
    | none => replies type held history
    | some a => seen a.code (held.update a) :: replies type (held.update a) history

/-- The parts that come from requests can be carried by a line. -/
structure Carried (contentRange location : Option (List UInt8)) : Prop where
  contentRange : ∀ v, contentRange = some v → Encodable (ascii "Content-Range") v
  location : ∀ v, location = some v → Encodable (ascii "Location") v

/-- The connections that some sequence of events leads to, with the books kept and all the bytes
sent so far. -/
inductive Conversing {σ : Type} (sock : Socket σ) :
    ConnectionInformation → Ledger → List UInt8 → Prop
  | accepted (type : FileDescriptorType) (request : HttpRequest) (response : HttpResponse) :
      Conversing sock (initializeConnectionInformation type request response) .fresh []
  | call {c c' : ConnectionInformation} {l : Ledger} {sent : List UInt8} (fuel : Nat)
      (env : Environment) (globals : Globals) (event : Event) (w : σ) (call : Call (Log σ)) :
      Conversing sock c l sent →
      handleConnection fuel (recorded sock) env globals event c (w, [], []) = some call →
      call.fate = .alive c' →
      Conversing sock c'
        (l.after env.host call.world.2.1 call.world.2.2 call.parsed call.rendered)
        (sent ++ call.world.2.2)

variable {type : FileDescriptorType} {host : Host} {window : List UInt8} {a : Effect} {held : Held}
  {history : History} {r : Host × List UInt8}

theorem isspace_le {c : UInt8} (h : isspace c = true) : c.toNat ≤ 32 := by
  simp only [isspace, Bool.or_eq_true, Bool.and_eq_true, decide_eq_true_eq, UInt8.le_iff_toNat_le,
    ← UInt8.toNat_inj, UInt8.reduceToNat] at h
  omega

theorem solid_of_lt {s : List UInt8} (h : ∀ c ∈ s, 32 < c.toNat) : Solid s := by
  intro c hc
  cases hspace : isspace c with
  | false => rfl
  | true => exact absurd (h c hc) (Nat.not_lt_of_le (isspace_le hspace))

theorem solid_decimalText (n : Nat) : Solid (decimalText n) := by
  apply solid_of_lt
  intro c hc
  have hdigit := decimalText_digit n c hc
  simp only [isdigit, Bool.and_eq_true, decide_eq_true_eq, UInt8.le_iff_toNat_le,
    UInt8.reduceToNat] at hdigit
  omega

theorem solid_address {s : List UInt8} (h : AddressText s) : Solid s := by
  apply solid_of_lt
  intro c hc
  have haddress := h c hc
  simp only [isdigit, Bool.and_eq_true, decide_eq_true_eq, UInt8.le_iff_toNat_le,
    ← UInt8.toNat_inj, UInt8.reduceToNat] at haddress
  omega

theorem solid_append {s t : List UInt8} (hs : Solid s) (ht : Solid t) : Solid (s ++ t) :=
  fun c hc => (List.mem_append.mp hc).elim (hs c) (ht c)

theorem solid_cstr {s : List UInt8} (h : Solid s) : Solid (cstr s) :=
  fun c hc => h c ((List.takeWhile_prefix _).subset hc)

theorem encodable_name (h : ServerHeader) {value : List UInt8} (htrimmed : Trimmed value)
    (hnul : 0 ∉ value) (hline : OneLine value) : Encodable h.name value where
  solid := by
    have hall : h.name.all (!isspace ·) = true := by cases h <;> decide
    simpa [Solid] using hall
  noColon := by cases h <;> decide
  noNul := by cases h <;> decide
  trimmed := htrimmed
  valueNoNul := hnul
  oneLine hin := hline.1 (hin.subset List.mem_cons_self)

theorem encodable_contentRange (range : Range) (size : Nat) :
    Encodable (ascii "Content-Range") (contentRange range size) := by
  refine encodable_name .contentRange ?_ ?_ (oneLine_contentRange range size)
  · have hne := decimalText_ne_nil size
    refine ⟨⟨98, by rw [contentRange]; rfl, by decide⟩,
      (decimalText size).getLast hne, ?_, solid_decimalText size _ (List.getLast_mem hne)⟩
    rw [contentRange, List.getLast?_append_of_ne_nil _ hne, List.getLast?_eq_some_getLast hne]
  · intro hmem
    rw [← cstr_contentRange] at hmem
    exact not_mem_cstr _ hmem

theorem encodable_location {address url : List UInt8} (haddress : AddressText address)
    (hurl : Solid url) : Encodable (ascii "Location")
      (cstr (ascii "https://" ++ address ++ ascii ":" ++ decimalText httpsPort ++ url)) := by
  have hscheme : Solid (ascii "https://") := by
    have hall : (ascii "https://").all (!isspace ·) = true := by decide
    simpa [Solid] using hall
  have hcolon : Solid (ascii ":") := by
    have hall : (ascii ":").all (!isspace ·) = true := by decide
    simpa [Solid] using hall
  have hsolid : Solid (ascii "https://" ++ address ++ ascii ":" ++ decimalText httpsPort ++ url) :=
    solid_append (solid_append (solid_append (solid_append hscheme (solid_address haddress)) hcolon)
      (solid_decimalText httpsPort)) hurl
  refine encodable_name .location (trimmed_of_solid (solid_cstr hsolid) ?_) (not_mem_cstr _)
    (oneLine_of_solid (solid_cstr hsolid))
  exact List.cons_ne_nil _ _

theorem carried_none : Carried none none where
  contentRange v hv := by cases hv
  location v hv := by cases hv

theorem carried_rangeEffect {file : File} {range : Range} (h : rangeEffect file range = some a) :
    Carried a.contentRange a.location := by
  rw [rangeEffect] at h
  split at h
  · split at h
    · cases h
      exact carried_none
    · cases h
      refine ⟨?_, carried_none.location⟩
      rintro v ⟨⟩
      exact encodable_contentRange range file.size
  · cases h

theorem carried_answer (haddress : AddressText host.address) (h : answer type host window = some a) :
    Carried a.contentRange a.location := by
  obtain ⟨c, rfl, -⟩ | ⟨hcode, rfl⟩ | ⟨file, range, hfile⟩ := reply_cases h
  · exact carried_none
  · refine ⟨carried_none.contentRange, ?_⟩
    rintro v ⟨⟩
    exact encodable_location haddress (solid_urlOf hcode)
  · exact carried_rangeEffect hfile

theorem Carried.update (hheld : Carried held.contentRange held.location)
    (ha : Carried a.contentRange a.location) :
    Carried (held.update a).contentRange (held.update a).location := by
  constructor
  · intro v hv
    obtain hv | ⟨-, hv⟩ := Option.or_eq_some_iff.mp hv
    · exact ha.contentRange v hv
    · exact hheld.contentRange v hv
  · intro v hv
    obtain hv | ⟨-, hv⟩ := Option.or_eq_some_iff.mp hv
    · exact ha.location v hv
    · exact hheld.location v hv

theorem carried_heldAfter (hanswered : Answered type history)
    (haddress : ∀ r ∈ history, AddressText r.1.address) :
    Carried (heldAfter type history).contentRange (heldAfter type history).location := by
  induction history using List.reverseRecOn with
  | nil => exact carried_none
  | append_singleton history r ih =>
    obtain ⟨hrest, a, ha⟩ := answered_append hanswered
    rw [heldAfter_append history ha]
    have hr := haddress r (List.mem_append_right _ (List.mem_singleton_self r))
    exact (ih hrest fun r' hr' => haddress r' (List.mem_append_left _ hr')).update
      (carried_answer hr ha)

theorem encodable_headerList (h : Carried held.contentRange held.location) :
    ∀ e ∈ headerList held.values, Encodable e.key e.value := by
  intro e he
  obtain ⟨name, hvalue, hkey⟩ := mem_headerList.mp he
  rw [hkey]
  cases name with
  | contentLength =>
    rw [← Option.some.inj hvalue]
    exact encodable_length _
  | contentRange => exact h.contentRange _ hvalue
  | location => exact h.location _ hvalue
  | server =>
    have hall : serverName.all (!isspace ·) = true := by decide
    have hsolid : Solid serverName := by simpa [Solid] using hall
    rw [← Option.some.inj hvalue]
    exact encodable_name .server (trimmed_of_solid hsolid (by decide)) (by decide) (by decide)

theorem statedLength_headerList (held : Held) :
    statedLength (headerList held.values) = some (held.body.getD []).length := by
  have hsame : SameName ServerHeader.contentLength.name lengthName := rfl
  rw [statedLength, headerList, entry]
  simp only [Held.values, List.cons_append, List.find?_cons, hsame, decide_true, Option.map_some,
    decimal_decimalText]

theorem says_responseText {code : HttpResponseCode} (hcode : getDefaultDescription code ≠ none)
    (h : Carried held.contentRange held.location) :
    Says clientReply (responseText code held) (seen code held) := by
  rw [responseText_eq]
  exact says_text (oneLine_statusText hcode) (encodable_headerList h) (statedLength_headerList held)

theorem replies_append (held : Held) (history : History)
    (ha : answer type r.1 r.2 = some a) (h : Answered type history) :
    replies type held (history ++ [r]) = replies type held history ++
      [seen a.code ((history.foldl (fun held r =>
        match answer type r.1 r.2 with
        | none => held
        | some a => held.update a) held).update a)] := by
  induction history generalizing held with
  | nil => simp only [List.nil_append, replies, ha, List.foldl_nil]
  | cons next history ih =>
    obtain ⟨b, hb⟩ := h next List.mem_cons_self
    have hrest := ih (held.update b) fun r hr => h r (List.mem_cons_of_mem _ hr)
    simp only [List.cons_append, replies, hb, hrest, List.foldl_cons]

theorem length_replies (held : Held) {history : History} (h : Answered type history) :
    (replies type held history).length = history.length := by
  induction history generalizing held with
  | nil => rfl
  | cons r history ih =>
    obtain ⟨a, ha⟩ := h r List.mem_cons_self
    have hrest := ih (held.update a) fun r hr => h r (List.mem_cons_of_mem _ hr)
    simp only [replies, ha, List.length_cons, hrest]

/-- The bytes sent with those still to be sent are the responses that were rendered, of which only
the last one may be unfinished. -/
structure Tells (type : FileDescriptorType) (l : Ledger) (sent : List UInt8)
    (texts : List (List UInt8)) : Prop where
  read : List.Forall₂ (Says clientReply) texts (replies type nothing l.served)
  bytes : texts.flatten = sent ++ l.unsent
  last : l.unsent ≠ [] → ∃ before text, texts = before ++ [text] ∧
    l.unsent.length ≤ text.length

variable {l : Ledger} {v v' : View} {received sent sent' : List UInt8}
  {parsed rendered : Option (List UInt8)} {texts : List (List UInt8)}

theorem tells_fresh : Tells type .fresh [] [] :=
  ⟨.nil, rfl, fun h => absurd rfl h⟩

theorem drop_of_prefix {s t : List UInt8} (h : s <+: t) : s ++ t.drop s.length = t := by
  obtain ⟨rest, rfl⟩ := h
  rw [List.drop_left]

theorem Tells.advance (h : Tells type l sent texts) (hfront : sent' <+: l.unsent)
    {l' : Ledger} (hserved : l'.served = l.served)
    (hunsent : l'.unsent = l.unsent.drop sent'.length) : Tells type l' (sent ++ sent') texts := by
  refine ⟨hserved ▸ h.read, ?_, ?_⟩
  · rw [hunsent, List.append_assoc, drop_of_prefix hfront, h.bytes]
  · intro hne
    have hleft : l.unsent ≠ [] := by
      intro hnil
      rw [hunsent, hnil, List.drop_nil] at hne
      exact hne rfl
    obtain ⟨before, text, htexts, hle⟩ := h.last hleft
    refine ⟨before, text, htexts, ?_⟩
    rw [hunsent, List.length_drop]
    exact (Nat.sub_le _ _).trans hle

theorem Tells.turn (h : Tells type l sent texts) (htracks : Tracks type l v)
    (ht : Turn type host v received parsed rendered (some v')) (hsent : sent' <+: v'.unsent)
    (haddresses : ∀ r ∈ (l.after host received sent' parsed rendered).served,
      AddressText r.1.address) :
    ∃ texts', Tells type (l.after host received sent' parsed rendered) (sent ++ sent') texts' := by
  have hunsent := htracks.unsent
  cases ht with
  | idle =>
    rw [← hunsent] at hsent
    refine ⟨texts, h.advance hsent ?_ ?_⟩
    · exact List.append_nil _
    · rw [Ledger.after, Option.getD_none, List.append_nil]
  | more hidle =>
    rw [View.window, ← hunsent] at hsent
    refine ⟨texts, h.advance hsent ?_ ?_⟩
    · exact List.append_nil _
    · rw [Ledger.after, Option.getD_none, List.append_nil]
  | @reply _ a hidle _ _ ha _ _ =>
    have hheld := htracks.held
    have hclosed : l.unsent = [] := hunsent.trans hidle
    have haddress : ∀ r ∈ l.served ++ [(host, v.window received)], AddressText r.1.address :=
      haddresses
    have hcarried : Carried v.held.contentRange v.held.location := by
      rw [hheld]
      exact carried_heldAfter htracks.served fun r hr => haddress r (List.mem_append_left _ hr)
    have hown : Carried a.contentRange a.location :=
      carried_answer (haddress _ (List.mem_append_right _ (List.mem_singleton_self _))) ha
    have hread := says_responseText (clean_reply ha).mapped (hcarried.update hown)
    have happend : replies type nothing (l.served ++ [(host, v.window received)]) =
        replies type nothing l.served ++ [seen a.code (v.held.update a)] := by
      rw [replies_append nothing l.served ha htracks.served, hheld]
      rfl
    have hafter : (l.after host received sent' (some (v.window received))
        (some (responseText a.code (v.held.update a)))).unsent =
        (responseText a.code (v.held.update a)).drop sent'.length := by
      rw [Ledger.after, hclosed, Option.getD_some, List.nil_append]
    refine ⟨texts ++ [responseText a.code (v.held.update a)], ?_, ?_, ?_⟩
    · show List.Forall₂ _ _ (replies type nothing (l.served ++ [(host, v.window received)]))
      rw [happend]
      exact List.rel_append h.read (.cons hread .nil)
    · rw [hafter, List.append_assoc, drop_of_prefix hsent, List.flatten_append, h.bytes, hclosed,
        List.append_nil, List.flatten_singleton]
    · intro _
      refine ⟨texts, _, rfl, ?_⟩
      rw [hafter, List.length_drop]
      exact Nat.sub_le _ _

/-- The last response is cut where what is left of it begins. -/
theorem Tells.unfinished (h : Tells type l sent texts) (hne : l.unsent ≠ []) :
    ∃ before part, sent = before.flatten ++ part ∧
      List.Forall₂ (Says clientReply) (before ++ [part ++ l.unsent])
        (replies type nothing l.served) := by
  obtain ⟨before, text, rfl, hle⟩ := h.last hne
  have hbytes := h.bytes
  rw [List.flatten_append, List.flatten_singleton] at hbytes
  have hsuffix : l.unsent <:+ before.flatten ++ text := ⟨sent, hbytes.symm⟩
  obtain ⟨part, rfl⟩ := List.suffix_of_suffix_length_le hsuffix (List.suffix_append _ _) hle
  refine ⟨before, part, ?_, h.read⟩
  rw [← List.append_assoc] at hbytes
  exact (List.append_cancel_right hbytes).symm

theorem Conversing.run {σ : Type} {sock : Socket σ} {c : ConnectionInformation}
    (h : Conversing sock c l sent) : Run sock c l := by
  induction h with
  | accepted type request response => exact .accepted type request response
  | call fuel env globals event w call _ hcall halive ih =>
    exact .call fuel env globals event w call ih hcall halive

theorem Conversing.tells {σ : Type} {sock : Socket σ} (hsock : Honest sock)
    {c : ConnectionInformation} (h : Conversing sock c l sent)
    (haddresses : ∀ r ∈ l.served, AddressText r.1.address) :
    ∃ texts, Tells c.type l sent texts := by
  induction h with
  | accepted type request response => exact ⟨[], tells_fresh⟩
  | call fuel env globals event w call hbefore hcall halive ih =>
    obtain ⟨texts, htells⟩ := ih fun r hr => haddresses r (List.mem_append_left _ hr)
    obtain ⟨v, hrep, htracks⟩ := hbefore.run.represented hsock
    obtain ⟨received, sent', next, hturn, -, hlog, hnext⟩ := call_turn hsock hrep hcall
    obtain ⟨htype, v', rfl, hprefix, -⟩ := hnext _ halive
    rw [hlog] at haddresses ⊢
    rw [htype]
    exact htells.turn htracks hturn hprefix haddresses

/-- A client that reads the stream by the stated lengths sees one reply for each request, in order
and as the server made it; while the last response is being sent it has seen all the others and
waits with the part of it that has come. -/
theorem client_reads_replies {σ : Type} {sock : Socket σ} (hsock : Honest sock)
    {c : ConnectionInformation} (h : Conversing sock c l sent)
    (haddresses : ∀ r ∈ l.served, AddressText r.1.address) :
    (replies c.type nothing l.served).length = l.served.length ∧
    (c.state = .waitingRequest →
      messages clientReply sent = (replies c.type nothing l.served, [])) ∧
    (c.state = .writingResponse → ∃ part last,
      messages clientReply sent = ((replies c.type nothing l.served).dropLast, part) ∧
      (replies c.type nothing l.served).getLast? = some last ∧
      Says clientReply (part ++ l.unsent) last) := by
  obtain ⟨texts, htells⟩ := h.tells hsock haddresses
  obtain ⟨v, hrep, htracks⟩ := h.run.represented hsock
  refine ⟨length_replies nothing htracks.served, ?_, ?_⟩
  · intro hstate
    have hclosed : l.unsent = [] := htracks.unsent.trans (hrep.waiting hstate).1
    have hbytes := htells.bytes
    rw [hclosed, List.append_nil] at hbytes
    have hread := messages_flatten clientReply_streaming htells.read []
    rwa [List.append_nil, messages_nil, List.append_nil, hbytes] at hread
  · intro hstate
    have hopen : l.unsent ≠ [] := htracks.unsent ▸ (hrep.writing hstate).1
    obtain ⟨before, part, hsent, hread⟩ := htells.unfinished hopen
    obtain ⟨last, hmessages, hlast, hsays⟩ :=
      messages_unfinished clientReply_streaming hread hopen
    rw [← hsent] at hmessages
    exact ⟨part, last, hmessages, hlast, hsays⟩

theorem addressText_smallHost : AddressText smallHost.address := by
  have hall : smallHost.address.all (fun c => isdigit c || c = 46) = true := by decide
  intro c hc
  obtain hd | hd := Bool.or_eq_true_iff.mp (List.all_eq_true.mp hall c hc)
  · exact .inl hd
  · exact .inr (.inr (.inl (of_decide_eq_true hd)))

def redirectReply : Message where
  statusLine := ascii "HTTP/1.1 301 Moved Permanently"
  headers := [⟨ascii "Content-Length", ascii "0"⟩,
    ⟨ascii "Location", ascii "https://127.0.0.1:443/"⟩, ⟨ascii "Server", serverName⟩]
  body := []

/-- Two requests on one connection, with the redirect that answers each of them. -/
theorem client_reads_replies_twice :
    messages clientReply (redirectText ++ redirectText) = ([redirectReply, redirectReply], []) := by
  have hfirst := Conversing.call 9 ⟨roomy, smallHost⟩ firstGlobals readable (rootRequest, [])
    redirectCall (.accepted .tcpSocket freshBlock freshResponse) once_accepted rfl
  have hsecond := Conversing.call 9 ⟨roomy, smallHost⟩ firstGlobals readable (rootRequest, [])
    redirectCall hfirst once_redirected rfl
  have hhosts : ∀ r ∈ [(smallHost, rootRequest), (smallHost, rootRequest)],
      AddressText r.1.address := by
    simp [addressText_smallHost]
  have hseen : replies .tcpSocket nothing [(smallHost, rootRequest), (smallHost, rootRequest)] =
      [redirectReply, redirectReply] := by
    decide +kernel
  have hread := (client_reads_replies honest_chunked hsecond hhosts).2.1 rfl
  exact hread.trans (congrArg (Prod.mk · []) hseen)

end Hss.Conversation
