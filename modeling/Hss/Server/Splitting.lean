import Hss.Http.Encoding
import Hss.Server.Leak
import Hss.Server.Url

namespace Hss.Splitting

open Hss.CString Hss.Headers Hss.Request Hss.Response Hss.Range Hss.DescriptorList Hss.Transaction
  Hss.Lines Hss.Encoding Hss.StreamParser Hss.Meaning Hss.Refinement Hss.Grammar Hss.Acceptance
  Hss.Transport Hss.Connection Hss.Effects Hss.Rendering Hss.Transfer Hss.Exchange Hss.Session
  Hss.Leak

/-- What `inet_ntop` writes: hexadecimal digits, dots and colons. -/
def AddressText (s : List UInt8) : Prop :=
  ∀ c ∈ s, isdigit c = true ∨ (97 ≤ c ∧ c ≤ 102) ∨ c = 46 ∨ c = 58

def statusText (code : HttpResponseCode) : List UInt8 :=
  httpVersion ++ ascii " " ++ getRepresentativeStateCode code ++ (ascii " " ++ descriptionOf code)

variable {type : FileDescriptorType} {host : Host} {request : HttpRequest} {a : Effect}
  {window : List UInt8} {held : Held}

theorem responseText_eq (code : HttpResponseCode) (held : Held) :
    responseText code held = statusText code ++ 13 :: 10 ::
      (headerBlock (headerList held.values) ++ held.body.getD []) := by
  have hline : ascii "\r\n" = [13, 10] := by decide
  simp only [responseText, statusText, headerBlock, flatMap_renderHeader, hline,
    List.append_assoc, List.cons_append, List.nil_append]

theorem oneLine_address {s : List UInt8} (h : AddressText s) : OneLine s := by
  constructor
  · intro hc
    have h13 := h 13 hc
    revert h13
    decide
  · intro hc
    have h10 := h 10 hc
    revert h10
    decide

theorem solid_urlOf (h : verdict (requestReply window) = .succeed) :
    Solid (urlOf (requestOf window)) := by
  cases hreply : requestReply window with
  | more =>
    rw [hreply] at h
    cases h
  | reject e =>
    rw [hreply] at h
    exact absurd h (verdict_reject_ne_succeed hreply)
  | done text rest =>
    cases rest with
    | cons c rest =>
      rw [hreply] at h
      cases h
    | nil =>
      obtain ⟨r, hloose, rfl⟩ := loose_of_accepted hreply
      obtain ⟨headers, hdone, -⟩ := accepted_of_loose hloose
      cases hreply.symm.trans hdone
      rw [requestOf, hreply]
      simp only [Url.urlOf_parsed]
      exact fun c hc => hloose.url.1 c ((List.takeWhile_prefix _).subset hc)

structure InLine (contentRange location : Option (List UInt8)) : Prop where
  contentRange : ∀ v, contentRange = some v → OneLine v
  location : ∀ v, location = some v → OneLine v

theorem oneLine_contentRange (range : Range) (size : Nat) : OneLine (contentRange range size) := by
  have hunit : OneLine (ascii "bytes ") := by decide
  have hdash : OneLine (ascii "-") := by decide
  have hslash : OneLine (ascii "/") := by decide
  exact ((((hunit.append (oneLine_decimalText _)).append hdash).append
    (oneLine_decimalText _)).append hslash).append (oneLine_decimalText _)

theorem inLine_none : InLine none none where
  contentRange v hv := by cases hv
  location v hv := by cases hv

theorem inLine_rangeEffect {file : File} {range : Range} (h : rangeEffect file range = some a) :
    InLine a.contentRange a.location := by
  rw [rangeEffect] at h
  split at h
  · split at h
    · cases h
      exact inLine_none
    · cases h
      refine ⟨?_, inLine_none.location⟩
      rintro v ⟨⟩
      exact oneLine_contentRange range file.size
  · cases h

/-- The location repeats the url of the request and the address. -/
theorem inLine_answer (haddress : AddressText host.address) (h : answer type host window = some a) :
    InLine a.contentRange a.location := by
  obtain ⟨c, rfl, -⟩ | ⟨hcode, rfl⟩ | ⟨file, range, hfile⟩ := reply_cases h
  · exact inLine_none
  · refine ⟨inLine_none.contentRange, ?_⟩
    rintro v ⟨⟩
    have hscheme : OneLine (ascii "https://") := by decide
    have hcolon : OneLine (ascii ":") := by decide
    have hport := oneLine_decimalText httpsPort
    have hurl : OneLine (urlOf (requestOf window)) := oneLine_of_solid (solid_urlOf hcode)
    exact ((((hscheme.append (oneLine_address haddress)).append hcolon).append hport).append
      hurl).cstr
  · exact inLine_rangeEffect hfile

theorem InLine.update (hheld : InLine held.contentRange held.location)
    (ha : InLine a.contentRange a.location) :
    InLine (held.update a).contentRange (held.update a).location := by
  constructor
  · intro v hv
    obtain hv | ⟨-, hv⟩ := Option.or_eq_some_iff.mp hv
    · exact ha.contentRange v hv
    · exact hheld.contentRange v hv
  · intro v hv
    obtain hv | ⟨-, hv⟩ := Option.or_eq_some_iff.mp hv
    · exact ha.location v hv
    · exact hheld.location v hv

theorem inLine_heldAfter {history : History} (hanswered : Answered type history)
    (haddress : ∀ r ∈ history, AddressText r.1.address) :
    InLine (heldAfter type history).contentRange (heldAfter type history).location := by
  induction history using List.reverseRecOn with
  | nil => exact inLine_none
  | append_singleton history r ih =>
    obtain ⟨hrest, a, ha⟩ := answered_append hanswered
    rw [heldAfter_append history ha]
    have hr := haddress r (List.mem_append_right _ (List.mem_singleton_self r))
    exact (ih hrest fun r' hr' => haddress r' (List.mem_append_left _ hr')).update
      (inLine_answer hr ha)

theorem mem_headerList {values : Values} {e : Header} :
    e ∈ headerList values ↔ ∃ h, values h = some e.value ∧ e.key = h.name := by
  have hentry : ∀ h, e ∈ entry values h ↔ values h = some e.value ∧ e.key = h.name := by
    intro h
    rw [entry]
    cases values h with
    | none => simp
    | some value =>
      obtain ⟨key, value'⟩ := e
      simp [and_comm, eq_comm]
  simp only [headerList, List.mem_append, hentry]
  constructor
  · rintro (h | h | h | h)
    · exact ⟨_, h⟩
    · exact ⟨_, h⟩
    · exact ⟨_, h⟩
    · exact ⟨_, h⟩
  · rintro ⟨h, hh⟩
    cases h with
    | contentLength => exact .inl hh
    | contentRange => exact .inr (.inl hh)
    | location => exact .inr (.inr (.inl hh))
    | server => exact .inr (.inr (.inr hh))

theorem oneLine_headerList (hheld : InLine held.contentRange held.location) :
    ∀ e ∈ headerList held.values, OneLine (headerText e) := by
  intro e he
  obtain ⟨h, hvalue, hkey⟩ := mem_headerList.mp he
  have hname : OneLine (cstr h.name) := by cases h <;> decide
  rw [← hkey] at hname
  apply oneLine_headerText hname
  apply OneLine.cstr
  cases h with
  | contentLength =>
    rw [← Option.some.inj hvalue]
    exact oneLine_decimalText _
  | contentRange => exact hheld.contentRange _ hvalue
  | location => exact hheld.location _ hvalue
  | server =>
    rw [← Option.some.inj hvalue]
    decide

theorem oneLine_statusText {code : HttpResponseCode} (h : getDefaultDescription code ≠ none) :
    OneLine (statusText code) := by
  cases code with
  | unmapped value => exact absurd rfl h
  | _ => decide

/-- Up to its first empty line a response is its status line and the lines of the
headers the server has set, and the rest of it is the body. -/
theorem response_not_split {σ : Type} {sock : Socket σ} (hsock : Honest sock)
    {c : ConnectionInformation} {l : Ledger} (hrun : Run sock c l)
    (haddresses : ∀ r ∈ l.served, AddressText r.1.address) (env : Environment)
    (haddress : AddressText env.host.address) {fuel : Nat} {globals : Globals} {event : Event}
    {w : σ} {call : Call (Log σ)} {text : List UInt8}
    (hcall : handleConnection fuel (recorded sock) env globals event c (w, [], []) = some call)
    (hrendered : call.rendered = some text) :
    ∃ window a held, call.parsed = some window ∧ answer c.type env.host window = some a ∧
      held = (heldAfter c.type l.served).update a ∧
      CutAt (ascii "\r\n\r\n") text (List.intercalate (ascii "\r\n")
        (statusText a.code :: (headerList held.values).map headerText)) (held.body.getD []) := by
  obtain ⟨v, hrep, htracks⟩ := hrun.represented hsock
  obtain ⟨received, sent, next, hturn, -⟩ := call_turn hsock hrep hcall
  obtain ⟨window, hparsed⟩ := hturn.parsed_of_rendered hrendered
  obtain ⟨hanswered, a, ha, rfl⟩ := rendered_text hsock hrun hcall hparsed hrendered
  have hheld := (inLine_heldAfter hanswered haddresses).update (inLine_answer haddress ha)
  have hstatus := oneLine_statusText (clean_reply ha).mapped
  have hne : statusText a.code ≠ [] := by simp [statusText, httpVersion, ascii]
  refine ⟨window, a, _, hparsed, ha, rfl, ?_⟩
  rw [responseText_eq]
  exact cutAt_text (hstatus.plain hne) (oneLine_headerList hheld) _

theorem response_not_split_redirect :
    ∃ window a held, some rootRequest = some window ∧
      answer .tcpSocket smallHost window = some a ∧ held = nothing.update a ∧
      CutAt (ascii "\r\n\r\n") redirectText (List.intercalate (ascii "\r\n")
        (statusText a.code :: (headerList held.values).map headerText)) (held.body.getD []) := by
  have haddress : AddressText smallHost.address := by
    have hall : smallHost.address.all (fun c => isdigit c || c = 46) = true := by decide
    intro c hc
    obtain hd | hd := Bool.or_eq_true_iff.mp (List.all_eq_true.mp hall c hc)
    · exact .inl hd
    · exact .inr (.inr (.inl (of_decide_eq_true hd)))
  exact response_not_split honest_chunked (run_accepted .tcpSocket)
    (fun r hr => absurd hr List.not_mem_nil) ⟨roomy, smallHost⟩ haddress once_accepted rfl

end Hss.Splitting
