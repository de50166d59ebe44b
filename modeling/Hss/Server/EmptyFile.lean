import Hss.Http.Building
import Hss.Server.FileLookup

namespace Hss.EmptyFile

open Hss.CString Hss.Headers Hss.Request Hss.Response Hss.Encoding Hss.Building Hss.Range
  Hss.RangeSpec Hss.MalformedRange Hss.RangeText Hss.Transaction Hss.PartialContent Hss.FileLookup

/-- The assertion that rendering begins with. -/
def Asserted (response : HttpResponse) : Prop :=
  response.body.length = 0 → response.body.body = none

def bodyLength : Call → Option Nat
  | .setBody memory length => some (length.getD (strlen memory))
  | _ => none

def lastBody : List Call → Option Nat
  | [] => none
  | call :: calls => (lastBody calls).or (bodyLength call)

/-- A regular file as it is mapped: `mmap` fails for length 0. -/
def storedFile (content : List UInt8) : File :=
  ⟨content.length, if content = [] then none else some (mappedPages content)⟩

/-- A build with assertions serves the file: neither the assertion of
`parse_single_range` fails nor the copy nor, later, the assertion of rendering. -/
def Served (request : HttpRequest) (response : HttpResponse) (file : File) : Prop :=
  (∀ s, getRequestHeader request (ascii "Range") = some s → parseRangeAsserts (s ++ [0]) = true) ∧
    ∃ response', serveFile request response file = some response' ∧ Asserted response'

variable {response response' : HttpResponse} {call : Call} {calls : List Call}

theorem body_step (h : call.run response = some response') :
    match bodyLength call with
    | some n => response'.body.length = n ∧ response'.body.body ≠ none
    | none => response'.body = response.body := by
  cases call with
  | setCode code description =>
    obtain ⟨stateLine, rfl⟩ := setCode_keeps h
    rfl
  | setHeader key value =>
    cases h
    rfl
  | setBody memory length =>
    cases (setBody_eq response (length_le_of_setBody h)).symm.trans h
    exact ⟨rfl, Option.some_ne_none _⟩
  | render buffer =>
    cases h
    rw [render_response]
    exact settleBody_body response

theorem body_run (h : runCalls response calls = some response') :
    match lastBody calls with
    | some n => response'.body.length = n ∧ response'.body.body ≠ none
    | none => response'.body = response.body := by
  induction calls generalizing response with
  | nil =>
    cases h
    rfl
  | cons call calls ih =>
    obtain ⟨next, hnext, h⟩ := runCalls_cons_some h
    have hrest := ih h
    have hstep := body_step hnext
    rw [lastBody]
    cases hlast : lastBody calls with
    | some n =>
      rw [hlast] at hrest
      exact hrest
    | none =>
      rw [hlast] at hrest
      rw [Option.none_or]
      have hbody : response'.body = next.body := hrest
      rw [hbody]
      exact hstep

theorem asserted_of_last {n : Nat} (hlast : lastBody calls = some n)
    (h : runCalls response calls = some response') : Asserted response' ↔ n ≠ 0 := by
  have hbody := body_run h
  rw [hlast] at hbody
  obtain ⟨hlength, hblock⟩ := hbody
  rw [Asserted, hlength]
  exact ⟨fun ha hn => hblock (ha hn), fun hn hzero => absurd hzero hn⟩

def fileCalls (file : File) (range : Range) : List Call :=
  .setBody ((file.mapping.getD []).drop range.start) (some (realLength range file.size)) ::
    if range.start ≠ range.end_ then
      [.setCode .partialContent none,
        .setHeader (ascii "Content-Range") (contentRange range file.size)]
    else [.setCode .ok none]

theorem serveFile_calls {request : HttpRequest} {file : File} {range : Range}
    (h : parseRange ((getRequestHeader request (ascii "Range")).map (· ++ [0])) file.size =
      some range) : serveFile request response file = runCalls response (fileCalls file range) := by
  simp only [serveFile, h, fileCalls, Option.bind_eq_bind, Option.bind_some]
  split <;> simp [runCalls, Call.run]

theorem lastBody_fileCalls (file : File) (range : Range) :
    lastBody (fileCalls file range) = some (realLength range file.size) := by
  rw [fileCalls]
  split <;> rfl

theorem realLength_eq_zero {range : Range} (h : Checked range) (size : Nat) :
    realLength range size = 0 ↔ range = fullRange ∧ size = 0 := by
  obtain rfl | hne := h
  · simp [realLength, fullRange]
  · have hlt : range.start < range.end_ := hne
    have hfull : range ≠ fullRange := by
      rintro rfl
      exact absurd hlt (Nat.lt_irrefl 0)
    rw [realLength, if_neg (Nat.ne_of_lt hlt)]
    simp only [hfull, false_and, iff_false]
    omega

/-- The assertions about a value are that its specs have their dash. -/
theorem parseRangeAsserts_iff {value : Option (List UInt8)} (hnul : ∀ s, value = some s → 0 ∉ s) :
    (∀ s, value = some s → parseRangeAsserts (s ++ [0]) = true) ↔
      ∀ list, Lists value list → ∀ p ∈ pieces list, Dashed p := by
  have hmem : ∀ {s list : List UInt8}, value = some s →
      s.dropWhile isspace = ascii "bytes=" ++ list → 0 ∉ list := by
    intro s list hs hlist h
    exact hnul s hs ((List.dropWhile_sublist _).subset (hlist ▸ List.mem_append_right _ h))
  constructor
  · rintro h list ⟨s, hs, hlist⟩
    rw [← rangesAssert_pieces (hmem hs hlist), ← (parseRange_list 0 hlist (hmem hs hlist)).1]
    exact h s hs
  · intro h s hs
    by_cases hunit : ascii "bytes=" <+: s.dropWhile isspace
    · obtain ⟨list, hlist⟩ := hunit
      have hnul' := hmem hs hlist.symm
      rw [(parseRange_list 0 hlist.symm hnul').1, rangesAssert_pieces hnul']
      exact h list ⟨s, hs, hlist.symm⟩
    · have hcmp : strncmp (s.dropWhile isspace ++ [0]) (ascii "bytes=") 6 ≠ .eq := fun heq =>
        hunit ((unit_iff _).mp heq)
      simp only [parseRangeAsserts, dropWhile_nul, if_pos hcmp]

/-- Of a file that is copied, the body is empty only if the file is. -/
theorem asserted_served {request : HttpRequest} {content : List UInt8}
    (h : serveFile request response (storedFile content) = some response') :
    Asserted response' ↔ content ≠ [] := by
  obtain ⟨range, hparse, hcopy⟩ := Option.bind_eq_some_iff.mp h
  obtain ⟨copied, hset, -⟩ := Option.bind_eq_some_iff.mp hcopy
  have hle := length_le_of_setBody hset
  rw [serveFile_calls hparse] at h
  rw [asserted_of_last (lastBody_fileCalls _ range) h, Ne, Ne, not_iff_not,
    realLength_eq_zero (checked_parseRange hparse)]
  refine ⟨fun hzero => List.eq_nil_of_length_eq_zero hzero.2, fun hempty => ?_⟩
  rw [← realLength_eq_zero (checked_parseRange hparse)]
  simpa [storedFile, hempty] using hle

/-- The assertion holds unless the body set last is empty. A regular file is served
exactly if it is not empty, the specs of its `Range` value have their dash, and nothing is
asked for that the mapping does not hold. -/
theorem assertion_holds_iff (block : HttpResponse)
    (hrun : runCalls (httpResponseInitialize block) calls = some response) :
    (Asserted response ↔ lastBody calls ≠ some 0) ∧
    ∀ (request : HttpRequest) (response : HttpResponse) (content : List UInt8), Usable response →
      (Served request response (storedFile content) ↔ content ≠ [] ∧
        (∀ list, Lists (getRequestHeader request (ascii "Range")) list →
          ∀ p ∈ pieces list, Dashed p) ∧
        Servable (getRequestHeader request (ascii "Range")) (storedFile content)) := by
  constructor
  · cases hlast : lastBody calls with
    | some n =>
      rw [asserted_of_last hlast hrun]
      simp
    | none =>
      have hbody := body_run hrun
      rw [hlast] at hbody
      have hnull : response.body = ⟨none, 0⟩ := hbody
      simp [Asserted, hnull]
  · intro request response content hr
    rw [Served, parseRangeAsserts_iff (getRequestHeader_nul request _), ← serveFile_iff hr]
    constructor
    · rintro ⟨hdashed, response', hserve, hasserted⟩
      exact ⟨(asserted_served hserve).mp hasserted, hdashed, response', hserve⟩
    · rintro ⟨hne, hdashed, response', hserve⟩
      exact ⟨hdashed, response', hserve, (asserted_served hserve).mpr hne⟩

theorem assertion_holds_iff_page :
    (∃ response, runCalls (httpResponseInitialize freshResponse) page = some response ∧
      Asserted response) ∧
    Served (plainRequest (ascii "/f")) freshResponse (storedFile (ascii "0123456789")) := by
  obtain ⟨response, hrun⟩ : ∃ response,
      runCalls (httpResponseInitialize freshResponse) page = some response := ⟨_, rfl⟩
  obtain ⟨hcalls, hfiles⟩ := assertion_holds_iff freshResponse hrun
  refine ⟨⟨response, hrun, hcalls.mpr (by decide)⟩, (hfiles _ _ _ (by decide)).mpr ?_⟩
  have hlists : ∀ list,
      ¬ Lists (getRequestHeader (plainRequest (ascii "/f")) (ascii "Range")) list := by
    rintro list ⟨s, hs, -⟩
    cases hs
  exact ⟨by decide, fun list h => absurd h (hlists list), fun list h => absurd h (hlists list),
    fun list h => absurd h (hlists list), fun _ => .inr ⟨_, rfl, length_mappedPages _⟩⟩

/-- The response to a request for an empty file cannot be rendered with assertions. -/
theorem empty_file_aborts :
    (∃ response, runCalls (httpResponseInitialize freshResponse) [.setBody [] (some 0)] =
      some response ∧ ¬ Asserted response) ∧
    ∃ response, serveFile (plainRequest (ascii "/f")) freshResponse (storedFile []) = some response ∧
      ¬ Asserted response := by
  have hblock : ∀ r : HttpResponse, r.body = ⟨some [], 0⟩ → ¬ Asserted r := by
    intro r hr ha
    rw [Asserted, hr] at ha
    cases ha rfl
  exact ⟨⟨_, rfl, hblock _ rfl⟩, _, rfl, hblock _ rfl⟩

end Hss.EmptyFile
