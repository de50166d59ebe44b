import Hss.Server.Effects
import Mathlib.Logic.Function.Basic

namespace Hss.Rendering

open Hss.CString Hss.Headers Hss.Request Hss.Response Hss.DescriptorList Hss.Transaction
  Hss.ReceiveBuffer Hss.Connection Hss.Effects

inductive ServerHeader
  | contentLength
  | contentRange
  | location
  | server
  deriving DecidableEq, Repr

namespace ServerHeader

def name : ServerHeader → List UInt8
  | contentLength => ascii "Content-Length"
  | contentRange => ascii "Content-Range"
  | location => ascii "Location"
  | server => ascii "Server"

end ServerHeader

abbrev Values := ServerHeader → Option (List UInt8)

def entry (values : Values) (h : ServerHeader) : List Header :=
  match values h with
  | none => []
  | some value => [⟨h.name, value⟩]

def headerList (values : Values) : List Header :=
  entry values .contentLength ++ (entry values .contentRange ++
    (entry values .location ++ entry values .server))

theorem setHeader_headerList (values : Values) (h : ServerHeader) (value : List UInt8) :
    setHeader (headerList values) h.name value =
      headerList (Function.update values h (some (cstr value))) := by
  obtain ⟨cl, hcl⟩ : ∃ cl, values .contentLength = cl := ⟨_, rfl⟩
  obtain ⟨cr, hcr⟩ : ∃ cr, values .contentRange = cr := ⟨_, rfl⟩
  obtain ⟨loc, hloc⟩ : ∃ loc, values .location = loc := ⟨_, rfl⟩
  obtain ⟨sv, hsv⟩ : ∃ sv, values .server = sv := ⟨_, rfl⟩
  cases h <;>
    simp only [headerList, entry, Function.update, hcl, hcr, hloc, hsv, dif_pos, dif_neg,
      reduceCtorEq, not_false_iff] <;>
    cases cl <;> cases cr <;> cases loc <;> cases sv <;> rfl

/-- What a response object still holds of the requests answered so far. -/
structure Held where
  contentRange : Option (List UInt8)
  location : Option (List UInt8)
  body : Option (List UInt8)
  deriving DecidableEq, Repr

def nothing : Held := ⟨none, none, none⟩

def Held.update (held : Held) (a : Effect) : Held :=
  ⟨a.contentRange.or held.contentRange, a.location.or held.location, a.body.or held.body⟩

def serverName : List UInt8 := ascii "hSS/0.0.1-alpha"

def Held.values (held : Held) : Values
  | .contentLength => some (decimalText (held.body.getD []).length)
  | .contentRange => held.contentRange
  | .location => held.location
  | .server => some serverName

def responseText (code : HttpResponseCode) (held : Held) : List UInt8 :=
  httpVersion ++ ascii " " ++ getRepresentativeStateCode code ++
    (ascii " " ++ descriptionOf code) ++ ascii "\r\n" ++
    (headerList held.values).flatMap renderHeader ++ ascii "\r\n" ++ held.body.getD []

def bodyOf : Option (List UInt8) → Body
  | none => ⟨none, 0⟩
  | some b => ⟨some b, b.length⟩

/-- The response object holds these parts, and a body has its length in the
headers. -/
structure Holds (response : HttpResponse) (held : Held) : Prop where
  usable : Usable response
  headers : ∃ values, response.headers = headerList values ∧
    values .contentRange = held.contentRange ∧ values .location = held.location ∧
    ∀ b, held.body = some b → values .contentLength = some (decimalText b.length)
  body : response.body = bodyOf held.body

theorem holds_fresh (response : HttpResponse) : Holds (httpResponseInitialize response) nothing where
  usable := usable_fresh response
  headers := ⟨fun _ => none, rfl, rfl, rfl, fun b hb => by cases hb⟩
  body := rfl

variable {response : HttpResponse} {held : Held} {a : Effect} {type : FileDescriptorType}
  {host : Host} {request : HttpRequest} {code : HttpErrorCode}

/-- An effect has one of the codes of the enumeration, and strings in its
headers. -/
structure Clean (a : Effect) : Prop where
  mapped : getDefaultDescription a.code ≠ none
  contentRange : ∀ v, a.contentRange = some v → cstr v = v
  location : ∀ v, a.location = some v → cstr v = v

theorem cstr_of_none {value : Option (List UInt8)} (h : value = none) :
    ∀ v, value = some v → cstr v = v := by
  intro v hv
  rw [h] at hv
  cases hv

theorem clean_bare {c : HttpResponseCode} (h : getDefaultDescription c ≠ none) : Clean (bare c) :=
  ⟨h, cstr_of_none rfl, cstr_of_none rfl⟩

theorem clean_rangeEffect {file : File} {range : Range.Range} (h : rangeEffect file range = some a) :
    Clean a := by
  rw [rangeEffect] at h
  split at h
  · split at h
    · cases h
      exact ⟨Option.some_ne_none _, cstr_of_none rfl, cstr_of_none rfl⟩
    · cases h
      refine ⟨Option.some_ne_none _, ?_, cstr_of_none rfl⟩
      rintro v ⟨⟩
      exact cstr_contentRange range file.size
  · cases h

theorem clean_reply (h : reply type host code request = some a) : Clean a := by
  obtain ⟨c, rfl, hmapped⟩ | ⟨-, rfl⟩ | ⟨file, range, hfile⟩ := reply_cases h
  · exact clean_bare hmapped
  · refine ⟨Option.some_ne_none _, cstr_of_none rfl, ?_⟩
    rintro v ⟨⟩
    exact cstr_cstr _
  · exact clean_rangeEffect hfile

theorem setOptional_headerList (values : Values) (h : ServerHeader) {value : Option (List UInt8)}
    (hnul : ∀ v, value = some v → cstr v = v) : setOptional (headerList values) h.name value =
      headerList (Function.update values h (value.or (values h))) := by
  cases value with
  | none => rw [setOptional, Option.none_or, Function.update_eq_self]
  | some v => rw [setOptional, setHeader_headerList, hnul v rfl, Option.some_or]

def Values.update (values : Values) (a : Effect) : Values
  | .contentLength => (a.body.map fun b => decimalText b.length).or (values .contentLength)
  | .contentRange => a.contentRange.or (values .contentRange)
  | .location => a.location.or (values .location)
  | .server => values .server

theorem apply_headers (ha : Clean a) {values : Values} (h : response.headers = headerList values) :
    (a.apply response).headers = headerList (values.update a) := by
  have hlength : ∀ v, a.body.map (fun b => decimalText b.length) = some v → cstr v = v := by
    intro v hv
    obtain ⟨b, -, rfl⟩ := Option.map_eq_some_iff.mp hv
    exact cstr_decimalText b.length
  have hcl := fun values => setOptional_headerList values .contentLength hlength
  have hcr := fun values => setOptional_headerList values .contentRange ha.contentRange
  have hloc := fun values => setOptional_headerList values .location ha.location
  simp only [ServerHeader.name] at hcl hcr hloc
  simp only [Effect.apply, h, hcl, hcr, hloc]
  congr
  funext slot
  cases slot <;> rfl

theorem Holds.apply (h : Holds response held) (ha : Clean a) :
    Holds (a.apply response) (held.update a) where
  usable := by simp [Usable, Effect.apply]
  headers := by
    obtain ⟨values, hheaders, hcr, hloc, hcl⟩ := h.headers
    refine ⟨values.update a, apply_headers ha hheaders, ?_, ?_, ?_⟩
    · rw [Values.update, Held.update, hcr]
    · rw [Values.update, Held.update, hloc]
    · intro b hb
      rw [Held.update] at hb
      rw [Values.update]
      cases hbody : a.body with
      | none =>
        rw [hbody, Option.none_or] at hb
        exact hcl b hb
      | some b' =>
        rw [hbody, Option.some_or] at hb
        cases hb
        rfl
  body := by
    rw [Effect.apply, Held.update]
    cases a.body with
    | none => exact h.body
    | some b => rfl

def named (response : HttpResponse) : HttpResponse :=
  settleBody (httpResponseSetHeader response (ascii "Server") (ascii "hSS/0.0.1-alpha"))

theorem length_bodyOf (body : Option (List UInt8)) : (bodyOf body).length = (body.getD []).length := by
  cases body <;> rfl

theorem Holds.named_headers (h : Holds response held) :
    (named response).headers = headerList held.values := by
  obtain ⟨values, hheaders, hcr, hloc, hcl⟩ := h.headers
  have hserver : setHeader response.headers (ascii "Server") (ascii "hSS/0.0.1-alpha") =
      headerList (Function.update values .server (some serverName)) := by
    rw [hheaders]
    exact setHeader_headerList values .server serverName
  have hlength := setHeader_headerList (Function.update values .server (some serverName))
    .contentLength (ascii "0")
  simp only [ServerHeader.name] at hlength
  simp only [named, httpResponseSetHeader, settleBody, h.body, length_bodyOf, hserver]
  by_cases hzero : (held.body.getD []).length = 0
  · rw [if_pos hzero, hlength]
    apply congrArg headerList
    funext slot
    cases slot with
    | contentLength =>
      rw [Held.values, hzero]
      rfl
    | contentRange => exact hcr
    | location => exact hloc
    | server => rfl
  · rw [if_neg hzero]
    apply congrArg headerList
    funext slot
    cases slot with
    | contentLength =>
      obtain ⟨b, hb⟩ : ∃ b, held.body = some b := by
        apply Option.ne_none_iff_exists'.mp
        intro hnone
        exact hzero (by rw [hnone]; rfl)
      rw [Held.values, hb]
      exact hcl b hb
    | contentRange => exact hcr
    | location => exact hloc
    | server => rfl

theorem named_stateLine (response : HttpResponse) :
    (named response).stateLine = response.stateLine := by
  rw [named, settleBody_stateLine, httpResponseSetHeader]

theorem named_body (response : HttpResponse) : (named response).body = response.body := by
  rw [named, settleBody_body, httpResponseSetHeader]

theorem Holds.named (h : Holds response held) : Holds (named response) held where
  usable := by
    rw [Usable, named_stateLine]
    exact h.usable
  headers := by
    refine ⟨held.values, h.named_headers, rfl, rfl, fun b hb => ?_⟩
    rw [Held.values, hb, Option.getD_some]
  body := (named_body response).trans h.body

theorem descriptionOf_ne_nil {c : HttpResponseCode} (h : getDefaultDescription c ≠ none) :
    (descriptionOf c).length ≠ 0 := by
  cases c with
  | unmapped value => exact absurd rfl h
  | _ => decide

theorem representativeStateCode_take {c : HttpResponseCode} (h : getDefaultDescription c ≠ none) :
    (getRepresentativeStateCode c).take stateCodeLength = getRepresentativeStateCode c := by
  cases c with
  | unmapped value => exact absurd rfl h
  | _ => rfl

theorem take_bodyOf (body : Option (List UInt8)) :
    ((bodyOf body).body.getD []).take (bodyOf body).length = body.getD [] := by
  cases body with
  | none => rfl
  | some b => exact List.take_length

theorem renderedBytes_named (h : Holds response held) (ha : Clean a) :
    renderedBytes (named (a.apply response)) = responseText a.code (held.update a) ∧
      Sound (named (a.apply response)) := by
  have happlied := h.apply ha
  have hstate : (named (a.apply response)).stateLine =
      ⟨a.code, .live (descriptionOf a.code), (descriptionOf a.code).length⟩ :=
    named_stateLine _
  have hbody : (named (a.apply response)).body = bodyOf (held.update a).body :=
    (named_body _).trans happlied.body
  constructor
  · simp only [renderedBytes, responseText, hstate, hbody, happlied.named_headers, take_bodyOf,
      representativeStateCode_take ha.mapped, descriptionOf_ne_nil ha.mapped, ne_eq,
      not_false_iff, if_true, Description.text, List.take_length]
  · constructor
    · rw [hstate]
      rfl
    · rw [hbody]
      cases (held.update a).body <;> rfl

theorem Holds.settleBody_named (h : Holds response held) :
    settleBody (Rendering.named response) = Rendering.named response := by
  have hlength := setHeader_headerList held.values .contentLength (ascii "0")
  simp only [ServerHeader.name] at hlength
  rw [settleBody, httpResponseSetHeader, h.named_headers, hlength, named_body, h.body, length_bodyOf]
  by_cases hzero : (held.body.getD []).length = 0
  · have hvalue : some (cstr (ascii "0")) = held.values .contentLength := by
      simp only [Held.values, hzero]
      rfl
    rw [if_pos hzero, hvalue, Function.update_eq_self, ← h.named_headers, ← h.body, ← named_body]
  · rw [if_neg hzero]

variable {memory : Memory} {b : Buffer}

/-- The text goes to the front of the block, or of a new one of its size. -/
theorem renderResponse_eq (memory : Memory) (h : Holds response held) (hsound : Sound (named response))
    (hb : b.WellFormed) {text : List UInt8} (htext : renderedBytes (named response) = text) :
    renderResponse memory
      (httpResponseSetHeader response (ascii "Server") (ascii "hSS/0.0.1-alpha")) b =
      if text.length ≤ b.capability then
        some (text, named response,
          ⟨text ++ b.buffer.drop text.length, b.capability, 0, text.length⟩)
      else if memory.grants text.length then
        some (text, named response, ⟨text, text.length, 0, text.length⟩)
      else none := by
  have hfirst : settleBody (httpResponseSetHeader response (ascii "Server")
      (ascii "hSS/0.0.1-alpha")) = named response := rfl
  by_cases hfits : text.length ≤ b.capability
  · have hblock : text.length ≤ b.buffer.length := hb.block ▸ hfits
    have hrender := render_fits hfirst hsound (htext ▸ hfits)
    rw [htext] at hrender
    simp only [renderResponse, hrender, reduceCtorEq, if_false, writeAt_zero hblock, if_pos hfits,
      Option.bind_eq_bind, Option.bind_some]
  · have hrender := render_short hfirst hsound (htext ▸ Nat.lt_of_not_le hfits)
    have hagain := render_fits h.settleBody_named hsound (Nat.le_refl _)
    rw [htext] at hrender hagain
    simp only [renderResponse, hrender, if_true, if_neg hfits]
    by_cases hgrant : memory.grants text.length = true
    · have hlen : (fresh memory text.length).length = text.length := by
        rw [fresh, List.length_map, List.length_range]
      simp only [hgrant, if_true, Option.bind_eq_bind, Option.bind_some, hagain,
        writeAt_zero (Nat.le_of_eq hlen.symm), List.drop_of_length_le (Nat.le_of_eq hlen),
        List.append_nil]
    · simp only [hgrant, if_false, Option.bind_eq_bind, Option.bind_none, Bool.false_eq_true]

theorem answerRequest_reply (host : Host) (globals : Globals) (code : HttpErrorCode)
    (request : HttpRequest) {c : ConnectionInformation} (hr : Usable c.response) :
    (answerRequest host globals c code request).map (·.response) =
      (reply c.type host code request).map (·.apply c.response) := by
  rw [answerRequest, reply]
  by_cases hcode : code ≠ .succeed
  · have hmapped : getDefaultDescription .badRequest ≠ none := Option.some_ne_none _
    rw [if_pos hcode, if_pos hcode, setCode_bare hr hmapped]
    rfl
  · rw [if_neg hcode, if_neg hcode, transaction_effect hr]

structure Ready (c c' : ConnectionInformation) (held : Held) (text : List UInt8) : Prop where
  type : c'.type = c.type
  state : c'.state = .writingResponse
  buffer : c'.buffer.WellFormed
  window : c'.buffer.window = text
  holds : Holds c'.response held

theorem window_front (text rest : List UInt8) (capability : Nat) :
    Buffer.window ⟨text ++ rest, capability, 0, text.length⟩ = text := by
  rw [Buffer.window, slice, List.take_left, List.drop_zero]

theorem window_whole (text : List UInt8) (capability : Nat) :
    Buffer.window ⟨text, capability, 0, text.length⟩ = text := by
  rw [Buffer.window, slice, List.take_length, List.drop_zero]

theorem ready_of_renderResponse {c : ConnectionInformation} {response' : HttpResponse}
    {rendered : List UInt8} {buffer : Buffer} {r : HttpRequest} (hheld : Holds c.response held)
    (hb : c.buffer.WellFormed) (ha : Clean a)
    (h : renderResponse memory (httpResponseSetHeader (a.apply c.response) (ascii "Server")
      (ascii "hSS/0.0.1-alpha")) c.buffer = some (rendered, response', buffer)) :
    rendered = responseText a.code (held.update a) ∧
      Ready c { c with state := .writingResponse, buffer, request := r, response := response' }
        (held.update a) rendered ∧ buffer.start = 0 := by
  obtain ⟨htext, hsound⟩ := renderedBytes_named hheld ha
  have happlied := hheld.apply ha
  rw [renderResponse_eq memory happlied hsound hb htext] at h
  by_cases hfits : (responseText a.code (held.update a)).length ≤ c.buffer.capability
  · rw [if_pos hfits] at h
    cases h
    have hblock := hb.block
    refine ⟨rfl, ⟨rfl, rfl, ⟨Nat.zero_le _, hfits, ?_, hb.bound⟩, window_front _ _ _, happlied.named⟩, rfl⟩
    simp only [List.length_append, List.length_drop]
    omega
  · rw [if_neg hfits] at h
    by_cases hgrant : memory.grants (responseText a.code (held.update a)).length = true
    · rw [if_pos hgrant] at h
      cases h
      have hbound := memory.limit _ hgrant
      exact ⟨rfl, ⟨rfl, rfl, ⟨Nat.zero_le _, Nat.le_refl _, rfl, hbound⟩, window_whole _ _,
        happlied.named⟩, rfl⟩
    · rw [if_neg hgrant] at h
      cases h

theorem respond_some {env : Environment} {globals : Globals} {c c' : ConnectionInformation}
    {rendered : List UInt8} {outcome : Outcome} (hheld : Holds c.response held)
    (hb : c.buffer.WellFormed)
    (h : respond env globals c code request = some (c', rendered, outcome)) :
    ∃ a, reply c.type env.host code request = some a ∧
      rendered = responseText a.code (held.update a) ∧ Ready c c' (held.update a) rendered ∧
      c'.request = httpRequestDestroy request := by
  obtain ⟨out, hout, h⟩ := Option.bind_eq_some_iff.mp h
  obtain ⟨⟨text, response', buffer⟩, hrender, h⟩ := Option.bind_eq_some_iff.mp h
  have hreply := answerRequest_reply env.host globals code request hheld.usable
  rw [hout, Option.map_some] at hreply
  obtain ⟨a, ha, hresponse⟩ := Option.map_eq_some_iff.mp hreply.symm
  rw [← hresponse] at hrender
  obtain ⟨htext, hready, -⟩ := ready_of_renderResponse hheld hb (clean_reply ha) hrender
  cases h
  exact ⟨a, ha, htext, hready, rfl⟩

theorem respond_isSome {env : Environment} (globals : Globals) {c : ConnectionInformation}
    (hheld : Holds c.response held) (hb : c.buffer.WellFormed)
    (ha : reply c.type env.host code request = some a)
    (hgrant : env.memory.grants (responseText a.code (held.update a)).length = true) :
    (respond env globals c code request).isSome := by
  have hreply := answerRequest_reply env.host globals code request hheld.usable
  rw [ha, Option.map_some] at hreply
  obtain ⟨out, hout, hresponse⟩ := Option.map_eq_some_iff.mp hreply
  obtain ⟨htext, hsound⟩ := renderedBytes_named hheld (clean_reply ha)
  have hrender := renderResponse_eq env.memory (hheld.apply (clean_reply ha)) hsound hb htext
  rw [← hresponse] at hrender
  simp only [respond, hout, Option.bind_eq_bind, Option.bind_some, hrender, hgrant, if_true]
  split <;> rfl

end Hss.Rendering
