import Hss.Http.Headers

namespace Hss.Response

open Hss.CString Hss.Headers

/-- `unmapped` stands for the values outside the enumeration, that of
`HTTP_RESPONSE_CODE_MAX` included. -/
inductive HttpResponseCode
  | ok
  | noContent
  | partialContent
  | moveMovedPermanently
  | badRequest
  | forbidden
  | notFound
  | internalServerError
  | notImplemented
  | httpVersionNotSupported
  | unmapped (value : Int)
  deriving DecidableEq, Repr

/-- The pointer `description`, with the text it points to. -/
inductive Description
  | null
  | live (text : List UInt8)
  | freed
  deriving DecidableEq, Repr

structure StateLine where
  code : HttpResponseCode
  description : Description
  descriptionLength : Nat
  deriving DecidableEq, Repr

structure HttpResponse where
  stateLine : StateLine
  headers : List Header
  body : Body
  deriving DecidableEq, Repr

/-- The code is the one field that initialization leaves alone. -/
def httpResponseInitialize (response : HttpResponse) : HttpResponse where
  stateLine := ⟨response.stateLine.code, .null, 0⟩
  headers := []
  body := ⟨none, 0⟩

def getDefaultDescription : HttpResponseCode → Option (List UInt8)
  | .ok => some (ascii "OK")
  | .noContent => some (ascii "No Content")
  | .partialContent => some (ascii "Partial Content")
  | .moveMovedPermanently => some (ascii "Moved Permanently")
  | .badRequest => some (ascii "Bad Request")
  | .forbidden => some (ascii "Forbidden")
  | .notFound => some (ascii "Not Found")
  | .internalServerError => some (ascii "Internal Server Error")
  | .notImplemented => some (ascii "Not Implemented")
  | .httpVersionNotSupported => some (ascii "HTTP Version Not Supported")
  | .unmapped _ => none

def threeDigits (value : Int) : List UInt8 :=
  let digits := decimalText value.natAbs
  if value < 0 then 45 :: (List.replicate (2 - digits.length) 48 ++ digits)
  else List.replicate (3 - digits.length) 48 ++ digits

def getRepresentativeStateCode : HttpResponseCode → List UInt8
  | .ok => ascii "200"
  | .noContent => ascii "204"
  | .partialContent => ascii "206"
  | .moveMovedPermanently => ascii "301"
  | .badRequest => ascii "400"
  | .forbidden => ascii "403"
  | .notFound => ascii "404"
  | .internalServerError => ascii "500"
  | .notImplemented => ascii "501"
  | .httpVersionNotSupported => ascii "505"
  | .unmapped value => threeDigits value

/-- `free`; `none` is a double free. -/
def freeDescription : Description → Option Unit
  | .freed => none
  | _ => some ()

def httpResponseSetCode (response : HttpResponse) (code : HttpResponseCode)
    (description : Option (List UInt8)) : Option HttpResponse := do
  freeDescription response.stateLine.description
  let old : StateLine :=
    if response.stateLine.description = .null then response.stateLine
    else { response.stateLine with description := .freed, descriptionLength := 0 }
  let stateLine : StateLine :=
    match description.orElse fun _ => getDefaultDescription code with
    | some text => ⟨code, .live (cstr text), strlen text⟩
    | none => { old with code }
  some { response with stateLine }

def setHeader (headers : List Header) (key value : List UInt8) : List Header :=
  let found := lookupHeader headers key
  match found.target with
  | some target => found.passed ++ { target with value := cstr value } :: found.rest.tail
  | none => found.passed ++ ⟨cstr key, cstr value⟩ :: found.rest

def httpResponseSetHeader (response : HttpResponse) (key value : List UInt8) : HttpResponse :=
  { response with headers := setHeader response.headers key value }

/-- `memory` is what can be read at `body`; `none` is a copy from behind it. -/
def httpResponseSetBody (response : HttpResponse) (memory : List UInt8) (length : Option Nat) :
    Option HttpResponse :=
  let length := length.getD (strlen memory)
  if memory.length < length then none
  else
    let response := { response with body := ⟨some (memory.take length), length⟩ }
    some (httpResponseSetHeader response (ascii "Content-Length") (decimalText length))

def httpVersion : List UInt8 := ascii "HTTP/1.1"

def stateCodeLength : Nat := 3

def measureResponseSize (response : HttpResponse) : Nat :=
  let startLine :=
    if response.stateLine.descriptionLength ≠ 0 then
      httpVersion.length + stateCodeLength + response.stateLine.descriptionLength + 4
    else httpVersion.length + stateCodeLength + 3
  let headers := (response.headers.map fun h => strlen h.key + strlen h.value + 4).sum
  startLine + headers + 2 + response.body.length

def Description.text : Description → List UInt8
  | .live text => text
  | _ => []

def renderHeader (h : Header) : List UInt8 := cstr h.key ++ ascii ": " ++ cstr h.value ++ ascii "\r\n"

def renderedBytes (response : HttpResponse) : List UInt8 :=
  let startLine := httpVersion ++ ascii " " ++
    (getRepresentativeStateCode response.stateLine.code).take stateCodeLength ++
    (if response.stateLine.descriptionLength ≠ 0 then
      ascii " " ++ response.stateLine.description.text.take response.stateLine.descriptionLength
    else []) ++ ascii "\r\n"
  startLine ++ response.headers.flatMap renderHeader ++ ascii "\r\n" ++
    (response.body.body.getD []).take response.body.length

/-- The update of `Content-Length` that rendering begins with; the assertion on
the body pointer is compiled out. -/
def settleBody (response : HttpResponse) : HttpResponse :=
  if response.body.length = 0 then
    httpResponseSetHeader response (ascii "Content-Length") (ascii "0")
  else response

structure Rendering where
  code : HttpErrorCode
  response : HttpResponse
  bytes : List UInt8
  length : Nat

/-- The buffer is given by its length, or it is NULL; `bytes` is what is written
into it. -/
def httpResponseRender (response : HttpResponse) (buffer : Option Nat) : Rendering :=
  let response := settleBody response
  let size := measureResponseSize response
  match buffer with
  | none => ⟨.succeed, response, [], size⟩
  | some length =>
    if length < size then ⟨.insufficientBufferSize, response, [], size⟩
    else ⟨.succeed, response, renderedBytes response, size⟩

def httpResponseDestroy (response : HttpResponse) : Option HttpResponse := do
  freeDescription response.stateLine.description
  some (httpResponseInitialize { response with headers := [], body := destroyBody response.body })

/-- What keeps the functions on a response away from undefined behaviour. -/
def Usable (response : HttpResponse) : Prop := response.stateLine.description ≠ .freed

instance (response : HttpResponse) : Decidable (Usable response) :=
  inferInstanceAs (Decidable (_ ≠ _))

variable {response : HttpResponse}

theorem usable_fresh (response : HttpResponse) : Usable (httpResponseInitialize response) := by
  simp [Usable, httpResponseInitialize]

theorem getDefaultDescription_noNul {code : HttpResponseCode} {text : List UInt8}
    (h : getDefaultDescription code = some text) : cstr text = text := by
  cases code <;> cases h <;> decide

theorem freeDescription_usable (h : Usable response) :
    freeDescription response.stateLine.description = some () := by
  simp only [Usable] at h
  cases hd : response.stateLine.description with
  | freed => exact absurd hd h
  | null => rfl
  | live text => rfl

theorem setCode_default (h : Usable response) {code : HttpResponseCode} {text : List UInt8}
    (hd : getDefaultDescription code = some text) :
    httpResponseSetCode response code none =
      some { response with stateLine := ⟨code, .live text, text.length⟩ } := by
  have hnul := getDefaultDescription_noNul hd
  have hdefault : ((none : Option (List UInt8)).orElse fun _ => getDefaultDescription code) =
      some text := hd
  simp only [httpResponseSetCode, freeDescription_usable h, hdefault, hnul, strlen,
    Option.bind_eq_bind, Option.bind_some]

theorem setBody_some (response : HttpResponse) {memory : List UInt8} {length : Nat}
    (h : length ≤ memory.length) :
    httpResponseSetBody response memory (some length) =
      some { response with
        body := ⟨some (memory.take length), length⟩
        headers := setHeader response.headers (ascii "Content-Length") (decimalText length) } := by
  have hle : ¬ memory.length < length := Nat.not_lt_of_le h
  simp only [httpResponseSetBody, Option.getD_some, if_neg hle, httpResponseSetHeader]

theorem setBody_none {memory : List UInt8} {length : Nat} (h : memory.length < length) :
    httpResponseSetBody response memory (some length) = none := by
  simp only [httpResponseSetBody, Option.getD_some, if_pos h]

theorem setHeader_cstr (headers : List Header) (key value : List UInt8) :
    setHeader headers key (cstr value) = setHeader headers key value := by
  simp only [setHeader, cstr_cstr]

theorem mem_setHeader (headers : List Header) (key value : List UInt8) :
    ∃ e ∈ setHeader headers key value, keyOf e = cstr key ∧ e.value = cstr value := by
  simp only [setHeader]
  split
  · rename_i target htarget
    refine ⟨_, List.mem_append_right _ List.mem_cons_self, ?_, rfl⟩
    have hmem := Option.filter_eq_some_iff.mp htarget
    exact strcmp_eq_iff.mp (by simpa using hmem.2)
  · exact ⟨_, List.mem_append_right _ List.mem_cons_self, cstr_cstr key, rfl⟩

theorem lookupHeader_setHeader (headers : List Header) (key value : List UInt8) :
    (lookupHeader (setHeader headers key value) key).target.map (·.value) = some (cstr value) := by
  have hpassed : ∀ h ∈ (lookupHeader headers key).passed, strcmp h.key key = .lt := by
    intro h hh
    simpa using List.mem_takeWhile_imp hh
  simp only [setHeader]
  split
  · rename_i target htarget
    have hmem := Option.filter_eq_some_iff.mp htarget
    rw [lookupHeader_append hpassed (by simpa using hmem.2), Option.map_some]
  · rw [lookupHeader_append hpassed (by simp [strcmp_eq_iff]), Option.map_some]

structure Stored (e : Header) : Prop where
  key : cstr e.key = e.key
  value : cstr e.value = e.value

structure Listed (headers : List Header) : Prop where
  ordered : Ordered headers
  stored : ∀ e ∈ headers, Stored e

theorem listed_nil : Listed [] := ⟨List.Pairwise.nil, by simp⟩

variable {headers : List Header}

theorem Listed.setHeader_eq (h : Listed headers) (key value : List UInt8) :
    setHeader headers key value = OrderedList.put keyOf ⟨cstr key, cstr value⟩ headers := by
  obtain ⟨h, hs⟩ := h
  rw [setHeader, OrderedList.put, keyOf_cstr, ← OrderedList.before_eq_filter h,
    ← lookupHeader_passed, lookupHeader_rest]
  cases ht : (lookupHeader headers key).target with
  | none =>
    have hnew : ∀ e ∈ headers, keyOf e ≠ cstr key := by
      intro e he hk
      cases ht.symm.trans ((lookupHeader_target_eq h).mpr ⟨he, hk⟩)
    rw [OrderedList.since_of_not_mem h hnew]
  | some target =>
    obtain ⟨hmem, hk⟩ := (lookupHeader_target_eq h).mp ht
    have hstored : target.key = cstr key := (hs target hmem).key.symm.trans hk
    rw [← hk, OrderedList.since_of_mem h hmem, List.tail_cons, hk]
    simp only [hstored]

theorem Listed.mem_setHeader (h : Listed headers) {key value : List UInt8} {e : Header} :
    e ∈ setHeader headers key value ↔
      e = ⟨cstr key, cstr value⟩ ∨ e ∈ headers ∧ keyOf e ≠ cstr key := by
  rw [h.setHeader_eq, OrderedList.mem_put, keyOf_cstr]

theorem Listed.setHeader (h : Listed headers) (key value : List UInt8) :
    Listed (setHeader headers key value) := by
  constructor
  · rw [h.setHeader_eq]
    exact h.ordered.put
  · intro e he
    obtain rfl | ⟨he, -⟩ := h.mem_setHeader.mp he
    · exact ⟨cstr_cstr key, cstr_cstr value⟩
    · exact h.stored e he

structure Sound (response : HttpResponse) : Prop where
  description : response.stateLine.descriptionLength = response.stateLine.description.text.length
  body : response.body.length = (response.body.body.getD []).length

theorem length_threeDigits (value : Int) : 3 ≤ (threeDigits value).length := by
  simp only [threeDigits]
  split
  · simp only [List.length_cons, List.length_append, List.length_replicate]
    omega
  · simp only [List.length_append, List.length_replicate]
    omega

theorem length_representativeStateCode (code : HttpResponseCode) :
    3 ≤ (getRepresentativeStateCode code).length := by
  cases code with
  | unmapped value => exact length_threeDigits value
  | _ => decide

theorem length_renderHeader (h : Header) :
    (renderHeader h).length = strlen h.key + strlen h.value + 4 := by
  have hcolon : (ascii ": ").length = 2 := by decide
  have hline : (ascii "\r\n").length = 2 := by decide
  simp only [renderHeader, List.length_append, strlen, hcolon, hline]
  omega

theorem length_renderedBytes (h : Sound response) :
    (renderedBytes response).length = measureResponseSize response := by
  have hblank : (ascii " ").length = 1 := by decide
  have hline : (ascii "\r\n").length = 2 := by decide
  have hcode := length_representativeStateCode response.stateLine.code
  have hheaders : (response.headers.map fun e => strlen e.key + strlen e.value + 4) =
      response.headers.map fun e => (renderHeader e).length :=
    List.map_congr_left fun e _ => (length_renderHeader e).symm
  simp only [renderedBytes, measureResponseSize, hheaders, List.length_append, List.length_flatMap,
    List.length_take, hblank, hline, h.body, min_self, stateCodeLength]
  split
  · simp only [List.length_append, hblank, List.length_take, ← h.description, min_self]
    omega
  · simp only [List.length_nil]
    omega

@[simp] theorem settleBody_stateLine (response : HttpResponse) :
    (settleBody response).stateLine = response.stateLine := by
  by_cases h : response.body.length = 0 <;> simp [settleBody, httpResponseSetHeader, h]

@[simp] theorem settleBody_body (response : HttpResponse) :
    (settleBody response).body = response.body := by
  by_cases h : response.body.length = 0 <;> simp [settleBody, httpResponseSetHeader, h]

theorem render_fits {capacity : Nat} {settled : HttpResponse} (h : settleBody response = settled)
    (hsound : Sound settled) (hfits : (renderedBytes settled).length ≤ capacity) :
    httpResponseRender response (some capacity) =
      ⟨.succeed, settled, renderedBytes settled, (renderedBytes settled).length⟩ := by
  rw [length_renderedBytes hsound] at hfits ⊢
  simp only [httpResponseRender, h, if_neg (Nat.not_lt_of_le hfits)]

theorem render_short {capacity : Nat} {settled : HttpResponse} (h : settleBody response = settled)
    (hsound : Sound settled) (hshort : capacity < (renderedBytes settled).length) :
    httpResponseRender response (some capacity) =
      ⟨.insufficientBufferSize, settled, [], (renderedBytes settled).length⟩ := by
  rw [length_renderedBytes hsound] at hshort ⊢
  simp only [httpResponseRender, h, if_pos hshort]

def freshResponse : HttpResponse := ⟨⟨.ok, .null, 0⟩, [], ⟨none, 0⟩⟩

end Hss.Response
