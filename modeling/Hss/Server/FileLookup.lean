import Hss.Http.RangeText
import Hss.Server.Confinement
import Hss.Server.Url

namespace Hss.FileLookup

open Hss.CString Hss.Headers Hss.Request Hss.Response Hss.Range Hss.RangeSpec Hss.Interval
  Hss.MalformedRange Hss.RangeText Hss.DescriptorList Hss.Transaction Hss.Effects Hss.Confinement
  Hss.Url Hss.PartialContent Hss.Acceptance

/-- The body is copied from inside a successful mapping of the file, or nothing is
copied. -/
def Copied (file : File) (range : Range) (body : Body) : Prop :=
  let length := realLength range file.size
  body.length = length ∧ (length = 0 ∨ ∃ content, file.mapping = some content ∧
    range.start + length ≤ content.length ∧
    body.body = some ((content.drop range.start).take length))

/-- A lookup ends in a response: a body that is copied from the file, or an error
status and no body set. A magic call sets no body either. -/
structure Answered (host : Host) (globals : Globals) (request : HttpRequest)
    (response : HttpResponse) : Prop where
  lookup : ReachesLookup .tlsSocket request → ∃ outcome,
    handleHttpTransaction .tlsSocket host globals request response = some outcome ∧
      (outcome.response.stateLine.code = .notFound ∧ outcome.response.body = response.body ∨
        ∃ path file range, host.openFile path = some file ∧
          parseRange ((getRequestHeader request (ascii "Range")).map (· ++ [0])) file.size =
            some range ∧
          Copied file range outcome.response.body)
  magic : ¬ ReachesLookup .tlsSocket request → ∀ outcome,
    handleHttpTransaction .tlsSocket host globals request response = some outcome →
      outcome.response.body = response.body

/-- The file is mapped, and the mapping holds the positions in front of `end_`. -/
def Reaches (file : File) (end_ : Nat) : Prop :=
  ∃ content, file.mapping = some content ∧ end_ ≤ content.length

/-- Of a file with this `Range` value, if any, nothing is asked that its mapping does not
hold: a list of specs can be read up to its NUL; if no spec is empty and no two overlap,
the run of adjoining specs that begins with the first one ends inside the mapping; in all
other cases the whole file is mapped, or it is empty. -/
structure Servable (value : Option (List UInt8)) (file : File) : Prop where
  legible : ∀ list, Lists value list → ∀ t ∈ specs list, Legible t
  part : ∀ list, Lists value list → Clear (positions file.size list) → ∀ e,
    RightEnd (positions file.size list) (asked file.size (list.dropWhile isspace)) e →
      Reaches file e
  whole : (∀ list, Lists value list → ¬ Clear (positions file.size list)) →
    file.size = 0 ∨ Reaches file file.size

variable {host : Host} {globals : Globals} {request : HttpRequest} {response : HttpResponse}
  {file : File} {path : List UInt8} {value : Option (List UInt8)}

theorem reaches_iff {e : Nat} (he : 0 < e) :
    Reaches file e ↔ e ≤ (file.mapping.getD []).length := by
  rw [Reaches]
  cases file.mapping with
  | none => simp [Nat.ne_of_gt he]
  | some content => simp

theorem part_iff {ranges : List Range} {first : Range} (hclear : Clear ranges)
    (hfirst : first ∈ ranges) :
    (∀ e, RightEnd ranges first e → Reaches file e) ↔
      realLength ((sortRanges ranges).foldl absorb first) file.size ≤
        ((file.mapping.getD []).drop ((sortRanges ranges).foldl absorb first).start).length := by
  have hresult : _ < _ := foldl_absorb_nonempty (hclear.1 first hfirst) (sortRanges_clear hclear).2.1
  have hreach : (∀ e, RightEnd ranges first e → Reaches file e) ↔
      ∀ e, RightEnd ranges first e → e ≤ (file.mapping.getD []).length := by
    refine forall_congr' fun e => forall_congr' fun he => reaches_iff ?_
    obtain ⟨r, hr, rfl⟩ := he.mem hfirst
    exact Nat.zero_lt_of_lt (hclear.1 r hr)
  rw [hreach, ← foldl_absorb_end_le_iff hclear hfirst, realLength, if_neg (Nat.ne_of_lt hresult),
    List.length_drop]
  omega

theorem whole_iff (file : File) : (file.size = 0 ∨ Reaches file file.size) ↔
    realLength fullRange file.size ≤ ((file.mapping.getD []).drop fullRange.start).length := by
  show _ ↔ file.size ≤ (file.mapping.getD []).length
  obtain hzero | hpos := Nat.eq_zero_or_pos file.size
  · simp [hzero]
  · rw [reaches_iff hpos, or_iff_right (Nat.ne_of_gt hpos)]

theorem servable_iff (hnul : ∀ s, value = some s → 0 ∉ s) : Servable value file ↔
    ∃ range, parseRange (value.map (· ++ [0])) file.size = some range ∧
      realLength range file.size ≤ ((file.mapping.getD []).drop range.start).length := by
  by_cases hlists : ∃ list, Lists value list
  swap
  · push Not at hlists
    rw [parseRange_no_list file.size hlists]
    simp only [Option.some.injEq, exists_eq_left']
    rw [← whole_iff]
    exact ⟨fun h => h.whole fun list hlist => absurd hlist (hlists list), fun h =>
      ⟨fun list hlist => absurd hlist (hlists list), fun list hlist => absurd hlist (hlists list),
        fun _ => h⟩⟩
  obtain ⟨list, hlist⟩ := hlists
  obtain ⟨s, rfl, hs⟩ := id hlist
  have hparse := parseRange_specs file.size (hnul s rfl) hs
  by_cases hlegible : ∀ t ∈ specs list, Legible t
  swap
  · rw [if_neg hlegible] at hparse
    refine iff_of_false (fun h => hlegible (h.legible list hlist)) ?_
    rintro ⟨range, hrange, -⟩
    cases hparse.symm.trans hrange
  rw [if_pos hlegible] at hparse
  simp only [Option.map_some, hparse, Option.some.injEq, exists_eq_left']
  have hall : ∀ list', Lists (some s) list' → ∀ t ∈ specs list', Legible t := fun list' hlist' =>
    hlist.unique hlist' ▸ hlegible
  by_cases hclear : Clear (positions file.size list)
  · have hfirst : asked file.size (list.dropWhile isspace) ∈ positions file.size list :=
      List.mem_map_of_mem (mem_specs list)
    rw [if_pos hclear, ← part_iff hclear hfirst]
    refine ⟨fun h => h.part list hlist hclear, fun h => ⟨hall, fun list' hlist' _ => ?_, ?_⟩⟩
    · exact hlist.unique hlist' ▸ h
    · exact fun hnot => absurd hclear (hnot list hlist)
  · rw [if_neg hclear, ← whole_iff]
    have hnone : ∀ list', Lists (some s) list' → ¬ Clear (positions file.size list') :=
      fun list' hlist' => hlist.unique hlist' ▸ hclear
    exact ⟨fun h => h.whole hnone, fun h =>
      ⟨hall, fun list' hlist' hclear' => absurd hclear' (hnone list' hlist'), fun _ => h⟩⟩

theorem getRequestHeader_nul (request : HttpRequest) (name : List UInt8) :
    ∀ s, getRequestHeader request name = some s → 0 ∉ s := by
  intro s hs
  simp only [getRequestHeader] at hs
  split at hs
  · cases hs
  · cases hs
    rw [httpRequestGetHeader]
    split
    · exact List.not_mem_nil
    · split
      · exact List.not_mem_nil
      · simp only
        split
        · exact List.not_mem_nil
        · exact not_mem_cstr _

/-- A file is served exactly if its mapping holds what is asked for. -/
theorem serveFile_iff (hr : Usable response) :
    (∃ response', serveFile request response file = some response') ↔
      Servable (getRequestHeader request (ascii "Range")) file := by
  rw [servable_iff (getRequestHeader_nul request _)]
  cases hparse : parseRange ((getRequestHeader request (ascii "Range")).map (· ++ [0]))
    file.size with
  | none => simp [serveFile, hparse]
  | some range =>
    rw [serveFile_eq request file hr hparse]
    simp

theorem lookup_missing (hcwd : 0 ∉ currentWorkingDirectory host.getcwd) (hr : Usable response)
    (hreach : ReachesLookup .tlsSocket request)
    (h : ∀ path, openCall .tlsSocket host request = some path → host.openFile path = none) :
    ∃ outcome, handleHttpTransaction .tlsSocket host globals request response = some outcome ∧
      outcome.response.stateLine.code = .notFound ∧ outcome.response.body = response.body := by
  obtain ⟨htype, hmagic⟩ := hreach
  have hmissing : effect .tlsSocket host request = some (bare .notFound) := by
    rw [effect, if_neg htype, if_neg hmagic, pathEffect]
    cases hreal : host.realpath (cstr ((urlOf request ++ 0 :: host.stale).drop 1)) with
    | none => rfl
    | some path =>
      obtain ⟨order, horder⟩ := memcmp_isSome hcwd path
      simp only [horder, Option.bind_some]
      by_cases heq : order = .eq
      · subst heq
        have hnone := h path (openCall_eq_some.mpr ⟨htype, hmagic, hreal, horder⟩)
        simp only [ne_eq, not_true, if_false, hnone]
      · rw [if_pos heq]
  have heffect : (handleHttpTransaction .tlsSocket host globals request response).map (·.response) =
      (effect .tlsSocket host request).map (·.apply response) := transaction_effect hr
  rw [hmissing, Option.map_some] at heffect
  obtain ⟨outcome, hdone, hresponse⟩ := Option.map_eq_some_iff.mp heffect
  refine ⟨outcome, hdone, ?_, ?_⟩
  · rw [hresponse]
    rfl
  · rw [hresponse]
    rfl

theorem fileResponse_body (response : HttpResponse) (file : File) (range : Range) :
    (fileResponse response file range).body =
      ⟨some (((file.mapping.getD []).drop range.start).take (realLength range file.size)),
        realLength range file.size⟩ := by
  rw [fileResponse]
  split <;> rfl

theorem lookup_opened (globals : Globals) (hr : Usable response)
    (hopen : openCall .tlsSocket host request = some path)
    (hfile : host.openFile path = some file) :
    (Servable (getRequestHeader request (ascii "Range")) file → ∃ outcome range,
      handleHttpTransaction .tlsSocket host globals request response = some outcome ∧
      parseRange ((getRequestHeader request (ascii "Range")).map (· ++ [0])) file.size = some range ∧
      Copied file range outcome.response.body) ∧
    (¬ Servable (getRequestHeader request (ascii "Range")) file →
      handleHttpTransaction .tlsSocket host globals request response = none) := by
  obtain ⟨htype, hmagic, hreal, horder⟩ := openCall_eq_some.mp hopen
  rw [transaction_file htype hmagic hreal horder hfile]
  constructor
  · intro hservable
    obtain ⟨range, hparse, hle⟩ := (servable_iff (getRequestHeader_nul request _)).mp hservable
    have hserve := serveFile_eq request file hr hparse
    rw [if_pos hle] at hserve
    rw [hserve]
    refine ⟨_, range, rfl, hparse, ?_⟩
    simp only [Copied, fileResponse_body, true_and]
    rw [List.length_drop] at hle
    cases hmapping : file.mapping with
    | none =>
      rw [hmapping, Option.getD_none, List.length_nil, Nat.zero_sub] at hle
      exact .inl (Nat.le_zero.mp hle)
    | some content =>
      rw [hmapping, Option.getD_some] at hle
      rw [or_iff_not_imp_left]
      exact fun hne => ⟨content, rfl, by omega, rfl⟩
  · intro hnot
    rw [← serveFile_iff hr, not_exists, ← Option.eq_none_iff_forall_ne_some] at hnot
    rw [hnot, Option.map_none]

theorem magic_body (hr : Usable response) (hmagic : ¬ ReachesLookup .tlsSocket request)
    {outcome : Outcome}
    (h : handleHttpTransaction .tlsSocket host globals request response = some outcome) :
    outcome.response.body = response.body := by
  have htype : FileDescriptorType.tlsSocket ≠ .tcpSocket := by decide
  have hcall : strncmp (urlOf request) (ascii "/magic-call/") 12 = .eq := by
    by_contra hne
    exact hmagic ⟨htype, hne⟩
  have heffect : (handleHttpTransaction .tlsSocket host globals request response).map (·.response) =
      (effect .tlsSocket host request).map (·.apply response) := transaction_effect hr
  rw [h, effect, if_neg htype, if_pos hcall] at heffect
  obtain ⟨a, ha, happly⟩ := Option.map_eq_some_iff.mp heffect.symm
  obtain ⟨code, rfl, -⟩ := magicEffect_cases ha
  exact (congrArg HttpResponse.body happly).symm

/-- Every lookup ends in a response exactly if, of a file that is opened, nothing is asked
that its mapping does not hold. -/
theorem lookup_answered_iff (globals : Globals) (hcwd : 0 ∉ currentWorkingDirectory host.getcwd)
    (hr : Usable response) :
    Answered host globals request response ↔
      ∀ path file, openCall .tlsSocket host request = some path →
        host.openFile path = some file →
        Servable (getRequestHeader request (ascii "Range")) file := by
  constructor
  · intro hanswered path file hopen hfile
    by_contra hnot
    obtain ⟨htype, hmagic, -⟩ := openCall_eq_some.mp hopen
    obtain ⟨outcome, hdone, -⟩ := hanswered.lookup ⟨htype, hmagic⟩
    cases ((lookup_opened globals hr hopen hfile).2 hnot).symm.trans hdone
  · intro hservable
    refine ⟨fun hreach => ?_, fun hmagic outcome => magic_body hr hmagic⟩
    by_cases hfound : ∃ path file, openCall .tlsSocket host request = some path ∧
        host.openFile path = some file
    · obtain ⟨path, file, hopen, hfile⟩ := hfound
      obtain ⟨outcome, range, hdone, hparse, hcopied⟩ :=
        (lookup_opened globals hr hopen hfile).1 (hservable path file hopen hfile)
      exact ⟨outcome, hdone, .inr ⟨path, file, range, hfile, hparse, hcopied⟩⟩
    · push Not at hfound
      obtain ⟨outcome, hdone, hcode⟩ := lookup_missing hcwd hr hreach fun path hopen =>
        Option.eq_none_iff_forall_ne_some.mpr fun file => hfound path file hopen
      exact ⟨outcome, hdone, .inl hcode⟩

def store : Host :=
  { smallHost with openFile := fun path =>
      if path = ascii "/srv/f" then some (regularFile (ascii "0123456789"))
      else if path = ascii "/srv/d" then some ⟨4096, none⟩
      else none }

theorem lookup_answered_iff_part :
    Answered store ⟨true, .information⟩ (rangeRequest (ascii "bytes=2-4")) freshResponse := by
  refine (lookup_answered_iff ⟨true, .information⟩ (by decide) (by decide)).mpr ?_
  intro path file hopen hfile
  have hpath : path = ascii "/srv/f" := by
    have hcall : openCall .tlsSocket store (rangeRequest (ascii "bytes=2-4")) =
        some (ascii "/srv/f") := by
      decide
    exact Option.some.inj (hopen.symm.trans hcall)
  obtain rfl : regularFile (ascii "0123456789") = file := by
    rw [hpath] at hfile
    simpa [store] using hfile
  have hlist : Lists (getRequestHeader (rangeRequest (ascii "bytes=2-4")) (ascii "Range"))
      (ascii "2-4") := ⟨ascii "bytes=2-4", by decide, by decide⟩
  refine ⟨fun list h => ?_, fun list h _ e he => ?_, fun h => ?_⟩
  · exact hlist.unique h ▸ by decide
  · rw [hlist.unique h] at he
    obtain ⟨r, hr, rfl⟩ := he.mem (List.mem_map_of_mem (mem_specs (ascii "2-4")))
    obtain rfl : r = ⟨2, 5⟩ := List.mem_singleton.mp hr
    exact ⟨_, rfl, Nat.le_trans (by decide) (length_mappedPages _)⟩
  · exact absurd (by decide) (h (ascii "2-4") hlist)

/-- A directory can be opened, and its mapping fails: what is copied are 4096 bytes at
`MAP_FAILED`. -/
theorem directory_not_answered :
    httpRequestFromBuffer (httpRequestInitialize freshBlock) (ascii "GET /d H\r\n\r\n") 12 =
        some (.succeed, plainRequest (ascii "/d")) ∧
      ¬ Answered store ⟨true, .information⟩ (plainRequest (ascii "/d")) freshResponse := by
  refine ⟨rfl, fun h => ?_⟩
  obtain ⟨outcome, hdone, -⟩ := h.lookup (by decide)
  have hnone : handleHttpTransaction .tlsSocket store ⟨true, .information⟩
      (plainRequest (ascii "/d")) freshResponse = none := by decide
  cases hnone.symm.trans hdone

end Hss.FileLookup
