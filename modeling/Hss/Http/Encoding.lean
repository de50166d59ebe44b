import Hss.Http.Response
import Hss.Lib.Lines

namespace Hss.Encoding

open Hss.CString Hss.Headers Hss.Response Hss.Lines

def statusLine (response : HttpResponse) : List UInt8 :=
  httpVersion ++ ascii " " ++
    (getRepresentativeStateCode response.stateLine.code).take stateCodeLength ++
    (if response.stateLine.descriptionLength ≠ 0 then
      ascii " " ++ response.stateLine.description.text.take response.stateLine.descriptionLength
    else [])

def headerText (h : Header) : List UInt8 := cstr h.key ++ ascii ": " ++ cstr h.value

def headerBlock (headers : List Header) : List UInt8 :=
  joined 13 10 (headers.map headerText) ++ [13, 10]

variable {response : HttpResponse} {headers : List Header}

theorem flatMap_renderHeader (headers : List Header) :
    headers.flatMap renderHeader = joined 13 10 (headers.map headerText) := by
  rw [joined, List.flatMap_map]
  rfl

theorem renderedBytes_eq (response : HttpResponse) :
    renderedBytes response = statusLine response ++ 13 :: 10 :: (headerBlock response.headers ++
      (response.body.body.getD []).take response.body.length) := by
  have hline : ascii "\r\n" = [13, 10] := by decide
  simp only [renderedBytes, statusLine, headerBlock, flatMap_renderHeader, hline,
    List.append_assoc, List.cons_append, List.nil_append]

def OneLine (s : List UInt8) : Prop := 13 ∉ s ∧ 10 ∉ s

instance (s : List UInt8) : Decidable (OneLine s) := inferInstanceAs (Decidable (_ ∧ _))

theorem OneLine.append {s t : List UInt8} (hs : OneLine s) (ht : OneLine t) : OneLine (s ++ t) :=
  ⟨fun h => (List.mem_append.mp h).elim hs.1 ht.1, fun h => (List.mem_append.mp h).elim hs.2 ht.2⟩

theorem OneLine.take {s : List UInt8} (hs : OneLine s) (n : Nat) : OneLine (s.take n) :=
  ⟨fun h => hs.1 (List.mem_of_mem_take h), fun h => hs.2 (List.mem_of_mem_take h)⟩

theorem OneLine.cstr {s : List UInt8} (h : OneLine s) : OneLine (cstr s) :=
  ⟨fun hc => h.1 ((List.takeWhile_prefix _).subset hc),
    fun hc => h.2 ((List.takeWhile_prefix _).subset hc)⟩

theorem oneLine_of_solid {s : List UInt8} (h : ∀ c ∈ s, isspace c = false) : OneLine s :=
  ⟨fun hm => absurd (h 13 hm) (by decide), fun hm => absurd (h 10 hm) (by decide)⟩

theorem oneLine_decimalText (n : Nat) : OneLine (decimalText n) :=
  ⟨fun h => absurd (decimalText_digit n 13 h) (by decide),
    fun h => absurd (decimalText_digit n 10 h) (by decide)⟩

theorem oneLine_replicate (n : Nat) : OneLine (List.replicate n 48) :=
  ⟨fun h => absurd (List.eq_of_mem_replicate h) (by decide),
    fun h => absurd (List.eq_of_mem_replicate h) (by decide)⟩

theorem oneLine_threeDigits (value : Int) : OneLine (threeDigits value) := by
  have hdigits : ∀ n, OneLine (List.replicate n 48 ++ decimalText value.natAbs) := fun n =>
    (oneLine_replicate n).append (oneLine_decimalText _)
  have hminus : OneLine [45] := by decide
  rw [threeDigits]
  split
  · exact hminus.append (hdigits _)
  · exact hdigits _

theorem oneLine_stateCode (code : HttpResponseCode) : OneLine (getRepresentativeStateCode code) := by
  cases code with
  | unmapped value => exact oneLine_threeDigits value
  | _ => decide

theorem oneLine_defaultDescription {code : HttpResponseCode} {text : List UInt8}
    (h : getDefaultDescription code = some text) : OneLine text := by
  cases code <;> cases h <;> decide

theorem OneLine.plain {s : List UInt8} (h : OneLine s) (hne : s ≠ []) : Plain 13 s := ⟨hne, h.1⟩

theorem oneLine_statusLine (h : OneLine response.stateLine.description.text) :
    OneLine (statusLine response) := by
  have hversion : OneLine (httpVersion ++ ascii " ") := by decide
  have hblank : OneLine (ascii " ") := by decide
  have hnone : OneLine ([] : List UInt8) := by decide
  apply (hversion.append ((oneLine_stateCode _).take _)).append
  split
  · exact hblank.append (h.take _)
  · exact hnone

theorem statusLine_ne_nil (response : HttpResponse) : statusLine response ≠ [] := by
  intro h
  have hlen := congrArg List.length h
  have hversion : httpVersion.length = 8 := by decide
  simp only [statusLine, List.length_append, List.length_nil, hversion] at hlen
  omega

theorem headerText_ne_nil (h : Header) : headerText h ≠ [] := by
  have hcolon : ascii ": " ≠ [] := by decide
  simp [headerText, hcolon]

theorem oneLine_headerText {h : Header} (hkey : OneLine (cstr h.key)) (hvalue : OneLine (cstr h.value)) :
    OneLine (headerText h) := by
  have hcolon : OneLine (ascii ": ") := by decide
  exact (hkey.append hcolon).append hvalue

/-- Where no part of it holds a line end, a rendered text is cut at its first empty
line into the lines of the header section and the body. -/
theorem cutAt_text {start : List UInt8} (hstart : Plain 13 start)
    (hheaders : ∀ h ∈ headers, OneLine (headerText h)) (body : List UInt8) :
    CutAt [13, 10, 13, 10] (start ++ 13 :: 10 :: (headerBlock headers ++ body))
      (List.intercalate [13, 10] (start :: headers.map headerText)) body := by
  have hplain : ∀ l ∈ start :: headers.map headerText, Plain 13 l := by
    intro l hl
    obtain rfl | hl := List.mem_cons.mp hl
    · exact hstart
    · obtain ⟨h, hh, rfl⟩ := List.mem_map.mp hl
      exact (hheaders h hh).plain (headerText_ne_nil h)
  have hcut := cutAt_joined (c := 13) (d := 10) (by decide) hplain body
  rw [joined_cons, List.append_assoc] at hcut
  simpa only [headerBlock, List.cons_append, List.append_assoc, List.nil_append] using hcut

inductive Call
  | setCode (code : HttpResponseCode) (description : Option (List UInt8))
  | setHeader (key value : List UInt8)
  | setBody (memory : List UInt8) (length : Option Nat)
  | render (buffer : Option Nat)
  deriving DecidableEq, Repr

def Call.run (response : HttpResponse) : Call → Option HttpResponse
  | setCode code description => httpResponseSetCode response code description
  | setHeader key value => some (httpResponseSetHeader response key value)
  | setBody memory length => httpResponseSetBody response memory length
  | render buffer => some (httpResponseRender response buffer).response

def runCalls (response : HttpResponse) (calls : List Call) : Option HttpResponse :=
  calls.foldlM Call.run response

section Runs

variable {response' : HttpResponse} {call : Call} {calls : List Call}

theorem runCalls_cons (response : HttpResponse) (call : Call) (calls : List Call) :
    runCalls response (call :: calls) =
      (call.run response).bind fun next => runCalls next calls :=
  List.foldlM_cons

theorem runCalls_cons_some (h : runCalls response (call :: calls) = some response') :
    ∃ next, call.run response = some next ∧ runCalls next calls = some response' := by
  rw [runCalls_cons] at h
  exact Option.bind_eq_some_iff.mp h

theorem runCalls_keeps {p : HttpResponse → Prop}
    (hstep : ∀ response response', ∀ call ∈ calls, p response →
      call.run response = some response' → p response')
    (h : p response) (hrun : runCalls response calls = some response') : p response' := by
  induction calls generalizing response with
  | nil =>
    cases hrun
    exact h
  | cons call calls ih =>
    obtain ⟨next, hnext, hrun⟩ := runCalls_cons_some hrun
    have hkept := hstep response next call List.mem_cons_self h hnext
    exact ih (fun _ _ call hc => hstep _ _ call (List.mem_cons_of_mem _ hc)) hkept hrun

end Runs

def lengthName : List UInt8 := ascii "Content-Length"

def lengthEntry (length : Nat) : Header := ⟨lengthName, decimalText length⟩

theorem lengthEntry_eq (length : Nat) :
    lengthEntry length = ⟨cstr lengthName, cstr (decimalText length)⟩ := by
  rw [cstr_decimalText]
  rfl

def describes (code : HttpResponseCode) (description : Option (List UInt8)) : Option (List UInt8) :=
  description.orElse fun _ => getDefaultDescription code

theorem setCode_described {code : HttpResponseCode} {description : Option (List UInt8)}
    {text : List UInt8} (hd : describes code description = some text) (h : Usable response) :
    httpResponseSetCode response code description =
      some { response with stateLine := ⟨code, .live (cstr text), strlen text⟩ } := by
  rw [describes] at hd
  simp only [httpResponseSetCode, freeDescription_usable h, hd, Option.bind_eq_bind,
    Option.bind_some]

/-- Without a text the pointer is left as it is, and what it points to is freed. -/
theorem setCode_undescribed {code : HttpResponseCode} {description : Option (List UInt8)}
    (hd : describes code description = none) (h : Usable response) :
    httpResponseSetCode response code description = some { response with
      stateLine := if response.stateLine.description = .null then { response.stateLine with code }
        else ⟨code, .freed, 0⟩ } := by
  rw [describes] at hd
  simp only [httpResponseSetCode, freeDescription_usable h, hd, Option.bind_eq_bind,
    Option.bind_some]
  split <;> simp_all

theorem setCode_freed (h : ¬ Usable response) (code : HttpResponseCode)
    (description : Option (List UInt8)) : httpResponseSetCode response code description = none := by
  have hfreed : response.stateLine.description = .freed := not_not.mp h
  simp only [httpResponseSetCode, hfreed, freeDescription, Option.bind_eq_bind, Option.bind_none]

theorem setCode_cases {response' : HttpResponse} {code : HttpResponseCode}
    {description : Option (List UInt8)} (h : Sound response)
    (hset : httpResponseSetCode response code description = some response') :
    ∃ stateLine : StateLine, Sound { response with stateLine } ∧
      response' = { response with stateLine } := by
  by_cases hu : Usable response
  · cases hd : describes code description with
    | some text =>
      cases (setCode_described hd hu).symm.trans hset
      exact ⟨⟨code, .live (cstr text), strlen text⟩, ⟨rfl, h.body⟩, rfl⟩
    | none =>
      cases (setCode_undescribed hd hu).symm.trans hset
      refine ⟨if response.stateLine.description = .null then { response.stateLine with code }
        else ⟨code, .freed, 0⟩, ⟨?_, h.body⟩, rfl⟩
      split
      · exact h.description
      · rfl
  · rw [setCode_freed hu] at hset
    cases hset

theorem setCode_keeps {response' : HttpResponse} {code : HttpResponseCode}
    {description : Option (List UInt8)}
    (h : httpResponseSetCode response code description = some response') :
    ∃ stateLine : StateLine, response' = { response with stateLine } := by
  obtain ⟨_, -, h⟩ := Option.bind_eq_some_iff.mp h
  cases h
  exact ⟨_, rfl⟩

theorem length_le_of_allowed {memory : List UInt8} {length : Option Nat}
    (h : ∀ n, length = some n → n ≤ memory.length) :
    length.getD (strlen memory) ≤ memory.length := by
  cases length with
  | none => exact (List.takeWhile_prefix _).length_le
  | some n => exact h n rfl

theorem setBody_eq (response : HttpResponse) {memory : List UInt8} {length : Option Nat}
    (h : length.getD (strlen memory) ≤ memory.length) :
    httpResponseSetBody response memory length = some { response with
      headers := setHeader response.headers lengthName (decimalText (length.getD (strlen memory)))
      body := ⟨some (memory.take (length.getD (strlen memory))), length.getD (strlen memory)⟩ } := by
  simp only [httpResponseSetBody, if_neg (Nat.not_lt_of_le h)]
  rfl

theorem length_le_of_setBody {response' : HttpResponse} {memory : List UInt8} {length : Option Nat}
    (h : httpResponseSetBody response memory length = some response') :
    length.getD (strlen memory) ≤ memory.length := by
  by_contra hlt
  simp only [httpResponseSetBody, if_pos (Nat.lt_of_not_le hlt)] at h
  cases h

theorem setBody_cases {response' : HttpResponse} {memory : List UInt8} {length : Option Nat}
    (h : httpResponseSetBody response memory length = some response') :
    ∃ body : Body, body.length = (body.body.getD []).length ∧ response' = { response with
      headers := setHeader response.headers lengthName (decimalText body.length), body } := by
  have hle := length_le_of_setBody h
  cases (setBody_eq response hle).symm.trans h
  refine ⟨⟨some (memory.take (length.getD (strlen memory))), length.getD (strlen memory)⟩, ?_, rfl⟩
  simp only [Option.getD_some, List.length_take, Nat.min_eq_left hle]

theorem settleBody_eq (response : HttpResponse) :
    settleBody response = if response.body.length = 0 then { response with
      headers := setHeader response.headers lengthName (decimalText response.body.length) }
      else response := by
  by_cases hlen : response.body.length = 0
  · have hzero : decimalText 0 = ascii "0" := by decide
    simp only [settleBody, hlen, if_true, hzero]
    rfl
  · rw [settleBody, if_neg hlen, if_neg hlen]

theorem render_response (response : HttpResponse) (buffer : Option Nat) :
    (httpResponseRender response buffer).response = settleBody response := by
  cases buffer with
  | none => rfl
  | some length =>
    simp only [httpResponseRender]
    split <;> rfl

end Hss.Encoding
