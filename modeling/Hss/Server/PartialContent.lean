import Hss.Http.RangeSpec
import Hss.Server.Transaction

namespace Hss.PartialContent

open Hss.CString Hss.Headers Hss.Request Hss.Response Hss.Range Hss.RangeSpec Hss.DescriptorList
  Hss.Transaction

/-- The request is for this file: no magic call, and the path it resolves to
lies below the current directory and can be opened. -/
structure Opens (host : Host) (request : HttpRequest) (path content : List UInt8) : Prop where
  common : strncmp (urlOf request) (ascii "/magic-call/") 12 ≠ .eq
  resolved : host.realpath (cstr ((urlOf request ++ 0 :: host.stale).drop 1)) = some path
  confined : memcmp (currentWorkingDirectory host.getcwd) (path ++ [0])
    (currentWorkingDirectory host.getcwd).length = some .eq
  opened : host.openFile path = some (regularFile content)

theorem transaction_opens {type : FileDescriptorType} (htype : type ≠ .tcpSocket) {host : Host}
    {globals : Globals} {request : HttpRequest} {response : HttpResponse}
    {path content : List UInt8} (h : Opens host request path content) :
    handleHttpTransaction type host globals request response =
      (serveFile request response (regularFile content)).map (⟨·, globals, some path⟩) :=
  transaction_file htype h.common h.resolved h.confined h.opened

/-- The bytes that the answer carries, and what it says about them. -/
structure Slice (content : List UInt8) (range : Range) (response : HttpResponse) : Prop where
  within : Within content.length range
  inside : range.start + response.body.length ≤ content.length
  whole : range = fullRange →
    response.stateLine.code = .ok ∧ response.body = ⟨some content, content.length⟩
  part : range ≠ fullRange → response.stateLine.code = .partialContent ∧
    response.body =
      ⟨some ((content.take range.end_).drop range.start), range.end_ - range.start⟩ ∧
    range.end_ - 1 < content.length ∧
    ∃ h ∈ response.headers, keyOf h = ascii "Content-Range" ∧ h.value =
      ascii "bytes " ++ decimalText range.start ++ ascii "-" ++ decimalText (range.end_ - 1) ++
        ascii "/" ++ decimalText content.length

theorem take_mappedPages {content : List UInt8} {start n : Nat} (h : start + n ≤ content.length) :
    ((mappedPages content).drop start).take n = (content.take (start + n)).drop start := by
  rw [mappedPages, List.take_drop, List.take_append_of_le_length h]

theorem length_mappedPages (content : List UInt8) : content.length ≤ (mappedPages content).length := by
  rw [mappedPages, List.length_append]
  exact Nat.le_add_right _ _

theorem slice_fullRange (response : HttpResponse) (content : List UInt8) :
    Slice content fullRange (fileResponse response (regularFile content) fullRange) := by
  have htake := take_mappedPages (Nat.le_of_eq (Nat.zero_add content.length))
  rw [Nat.zero_add, List.take_length, List.drop_zero] at htake
  have hbody : (fileResponse response (regularFile content) fullRange).body =
      ⟨some content, content.length⟩ := congrArg (fun b => Body.mk (some b) content.length) htake
  exact ⟨.inl rfl, by rw [hbody]; exact Nat.le_of_eq (Nat.zero_add _), fun _ => ⟨rfl, hbody⟩,
    fun h => absurd rfl h⟩

theorem slice_part (response : HttpResponse) {content : List UInt8} {range : Range}
    (hne : range.start < range.end_) (hend : range.end_ ≤ content.length) :
    Slice content range (fileResponse response (regularFile content) range) := by
  have hlength : realLength range content.length = range.end_ - range.start :=
    if_neg (Nat.ne_of_lt hne)
  have hsum : range.start + (range.end_ - range.start) = range.end_ :=
    Nat.add_sub_cancel' (Nat.le_of_lt hne)
  have htake := take_mappedPages (hsum.trans_le hend)
  rw [hsum] at htake
  have hfile : fileResponse response (regularFile content) range =
      ⟨⟨.partialContent, .live (ascii "Partial Content"), 15⟩,
        setHeader (setHeader response.headers (ascii "Content-Length")
          (decimalText (realLength range content.length))) (ascii "Content-Range")
          (contentRange range content.length),
        ⟨some ((content.take range.end_).drop range.start), range.end_ - range.start⟩⟩ := by
    rw [fileResponse, if_neg (Nat.ne_of_lt hne)]
    simp only [regularFile, hlength, Option.getD_some, htake]
  have hfull : range ≠ fullRange := by
    rintro rfl
    exact Nat.lt_irrefl 0 hne
  obtain ⟨e, he, hkey, hvalue⟩ := mem_setHeader (setHeader response.headers
    (ascii "Content-Length") (decimalText (realLength range content.length)))
    (ascii "Content-Range") (contentRange range content.length)
  rw [hfile]
  refine ⟨.inr ⟨hne, hend⟩, ?_, fun h => absurd h hfull,
    fun _ => ⟨rfl, rfl, by omega, e, he, hkey, hvalue.trans (cstr_contentRange _ _)⟩⟩
  show range.start + (range.end_ - range.start) ≤ content.length
  omega

theorem parseRange_iff {value : Option RangeValue} (hv : ∀ v ∈ value, v.WellFormed) {size : Nat}
    (hsize : size < sizeMax) : ∃ range,
      parseRange (value.map (·.text ++ [0])) size = some range ∧
      (range = fullRange ∨ range.Nonempty) ∧ (Within size range ↔ ∀ v ∈ value, v.Fits size) := by
  cases value with
  | none => exact ⟨fullRange, rfl, .inl rfl, by simp, fun _ => .inl rfl⟩
  | some v =>
    obtain ⟨range, hparse, hform, hiff⟩ := parseRange_within_iff (hv v rfl) hsize []
    exact ⟨range, hparse, hform, hiff.trans (by simp)⟩

/-- For a well-formed `Range` value, or none, `parse_range` stays inside the file
exactly if the run of adjoining specs it selects does; then the answer to a
request for a regular file carries the bytes it announces. -/
theorem partial_content_iff {value : Option RangeValue} (hv : ∀ v ∈ value, v.WellFormed) :
    (∀ size, size < sizeMax →
      ((∃ range, parseRange (value.map (·.text ++ [0])) size = some range ∧ Within size range) ↔
        ∀ v ∈ value, v.Fits size)) ∧
    ∀ (host : Host) (globals : Globals) (request : HttpRequest) (response : HttpResponse)
      (path content : List UInt8), content ≠ [] → content.length < sizeMax → Usable response →
      Opens host request path content →
      getRequestHeader request (ascii "Range") = value.map (·.text) →
      ((∃ range outcome, parseRange (value.map (·.text ++ [0])) content.length = some range ∧
        handleHttpTransaction .tlsSocket host globals request response = some outcome ∧
        Slice content range outcome.response) ↔ ∀ v ∈ value, v.Fits content.length) := by
  constructor
  · intro size hsize
    obtain ⟨range, hparse, -, hiff⟩ := parseRange_iff hv hsize
    rw [← hiff]
    constructor
    · rintro ⟨range', hparse', hwithin⟩
      cases hparse.symm.trans hparse'
      exact hwithin
    · exact fun hwithin => ⟨range, hparse, hwithin⟩
  · intro host globals request response path content _ hsize hr hopens hheader
    obtain ⟨range, hparse, -, hiff⟩ := parseRange_iff hv hsize
    rw [← hiff]
    constructor
    · rintro ⟨range', outcome, hparse', -, hslice⟩
      cases hparse.symm.trans hparse'
      exact hslice.within
    · intro hwithin
      have hserve := serveFile_eq request (regularFile content) hr
        (by rw [hheader, Option.map_map]; exact hparse)
      have hslice : Slice content range (fileResponse response (regularFile content) range) := by
        obtain rfl | ⟨hne, hend⟩ := hwithin
        · exact slice_fullRange response content
        · exact slice_part response hne hend
      rw [if_pos ?_] at hserve
      · refine ⟨range, ⟨fileResponse response (regularFile content) range, globals, some path⟩,
          hparse, ?_, hslice⟩
        rw [transaction_opens (by decide) hopens, hserve, Option.map_some]
      · have hinside := hslice.inside
        have hlength : (fileResponse response (regularFile content) range).body.length =
            realLength range content.length := by
          rw [fileResponse]
          split <;> rfl
        rw [hlength] at hinside
        have hpages := length_mappedPages content
        simp only [regularFile, Option.getD_some, List.length_drop]
        omega

def oneSpec (first last : String) : RangeValue := ⟨[], [⟨[], .between (ascii first) (ascii last), []⟩]⟩

theorem oneSpec_wellFormed {first last : String} (hf : Number (ascii first))
    (hl : Number (ascii last)) : (oneSpec first last).WellFormed where
  leading := by rintro c ⟨⟩
  items := by
    intro i hi
    rw [List.mem_singleton.mp hi]
    exact ⟨by rintro c ⟨⟩, ⟨hf, hl⟩, by rintro c ⟨⟩⟩
  nonempty := List.cons_ne_nil _ _

def rangeRequest (value : List UInt8) : HttpRequest :=
  ⟨.parsed, ⟨.get, some (ascii "H"), 1, some (ascii "/f"), 2⟩, [⟨ascii "Range", value⟩], ⟨none, 0⟩⟩

theorem partial_content_first_half :
    (∃ range, parseRange (some (ascii "bytes=0-4" ++ [0])) 10 = some range ∧ Within 10 range) ∧
    ∃ range outcome, parseRange (some (ascii "bytes=0-4" ++ [0])) 10 = some range ∧
      handleHttpTransaction .tlsSocket smallHost ⟨true, .information⟩
        (rangeRequest (ascii "bytes=0-4")) freshResponse = some outcome ∧
      Slice (ascii "0123456789") range outcome.response := by
  have hv : ∀ v ∈ some (oneSpec "0" "4"), v.WellFormed := by
    rintro v ⟨⟩
    exact oneSpec_wellFormed (by decide) (by decide)
  have hfits : ∀ v ∈ some (oneSpec "0" "4"), v.Fits 10 := by
    rintro v ⟨⟩ - first hfirst e he
    obtain ⟨r, hr, rfl⟩ := he.mem (List.mem_of_head? hfirst)
    have hr' : r = ⟨0, 5⟩ := List.mem_singleton.mp hr
    rw [hr']
    decide
  refine ⟨((partial_content_iff hv).1 10 (by decide)).mpr hfits,
    ((partial_content_iff hv).2 smallHost ⟨true, .information⟩ (rangeRequest (ascii "bytes=0-4"))
      freshResponse (ascii "/srv/f") (ascii "0123456789") (by decide) (by decide) (by decide)
      ⟨by decide, by decide, by decide, ?_⟩ (by decide)).mpr hfits⟩
  simp only [smallHost, if_true]

/-- The last position of a spec is used as it is, however small the file. -/
theorem last_position_beyond_file :
    (oneSpec "0" "99").WellFormed ∧ (oneSpec "0" "99").text = ascii "bytes=0-99" ∧
      parseRange (some (ascii "bytes=0-99" ++ [0])) 10 = some ⟨0, 100⟩ ∧ ¬ Within 10 ⟨0, 100⟩ := by
  refine ⟨oneSpec_wellFormed (by decide) (by decide),
    by decide, by decide, ?_⟩
  rintro (h | h)
  · exact absurd h (by decide)
  · exact absurd h.2 (by decide)

end Hss.PartialContent
