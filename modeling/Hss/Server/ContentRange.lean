import Hss.Server.Effects
import Hss.Server.PartialContent

namespace Hss.ContentRange

open Hss.CString Hss.Headers Hss.Request Hss.Response Hss.Range Hss.RangeSpec Hss.DescriptorList
  Hss.Transaction Hss.Effects

/-- The `Range` value that asks for what a `Content-Range` value names. -/
def askedBack (value : List UInt8) : List UInt8 :=
  ascii "bytes=" ++ (value.drop 6).takeWhile (· ≠ 47)

def Writable (size : Nat) (range : Range) : Prop := range.end_ ≤ max size (2 ^ 63 - 1)

variable {size : Nat} {m : List UInt8} {range : Range}

theorem toSize_last_le {v : Int} (hmin : 0 ≤ v) (hmax : v < llongMax) :
    toSize (v + 1) ≤ 2 ^ 63 - 1 := by
  simp only [toSize, sizeMax, llongMax] at *
  omega

theorem strtoll_le (s : List UInt8) : (strtoll s).1 ≤ llongMax := by
  simp only [strtoll]
  generalize s.dropWhile isspace = t
  generalize (if t.head? = some 45 ∨ t.head? = some 43 then t.tail else t) = u
  split
  · exact (by decide : (0 : Int) ≤ llongMax)
  · exact max_le (by decide : llongMin ≤ llongMax) (min_le_left _ _)

theorem strtoll_digit_nonneg {d : UInt8} (hd : isdigit d = true) (s : List UInt8) :
    0 ≤ (strtoll (d :: s)).1 := by
  obtain ⟨hspace, hminus, -⟩ := isdigit_facts hd
  have hskip : (d :: s).dropWhile isspace = d :: s := List.dropWhile_cons_of_neg (by simp [hspace])
  have hpositive : ¬ (d :: s).head? = some 45 := fun h => hminus (Option.some.inj h)
  simp only [strtoll, hskip, if_neg hpositive]
  generalize (if (d :: s).head? = some 45 ∨ (d :: s).head? = some 43 then (d :: s).tail
    else d :: s) = u
  split
  · exact Int.le_refl 0
  · exact le_max_of_le_right (le_min (by decide : 0 ≤ llongMax) (Int.natCast_nonneg _))

theorem writable_readSingleRange (h : readSingleRange m size = some range) :
    Writable size range := by
  cases m with
  | nil => cases h
  | cons c rest =>
    rw [readSingleRange] at h
    split at h
    · cases h
      exact le_max_left _ _
    · split at h
      · rename_i start c' d after _
        split at h
        · rename_i hd
          dsimp only at h
          split at h
          · cases h
          · rename_i hlast
            cases h
            exact le_max_of_le_right (toSize_last_le (strtoll_digit_nonneg hd after)
              (lt_of_le_of_ne (strtoll_le _) hlast))
        · cases h
          exact le_max_left _ _
      · cases h

theorem writable_parseSingleRange (h : parseSingleRange m size = some range) :
    Writable size range := by
  obtain ⟨read, hread, -⟩ := Option.bind_eq_some_iff.mp h
  rw [parseSingleRange_of_read hread] at h
  cases h
  split
  · exact writable_readSingleRange hread
  · exact Nat.zero_le _

theorem writable_parseRanges {n : Nat} {ranges : List Range}
    (h : parseRanges size n m = some ranges) : ∀ r ∈ ranges, Writable size r := by
  induction n generalizing m ranges with
  | zero =>
    cases h
    exact fun _ hr => absurd hr List.not_mem_nil
  | succ n ih =>
    obtain ⟨range, hrange, h⟩ := Option.bind_eq_some_iff.mp h
    obtain ⟨rest, hrest, h⟩ := Option.bind_eq_some_iff.mp h
    cases h
    exact List.forall_mem_cons.mpr ⟨writable_parseSingleRange hrange, ih hrest⟩

theorem writable_parseRange {representation : Option (List UInt8)}
    (h : parseRange representation size = some range) : Writable size range := by
  cases representation with
  | none =>
    cases h
    exact Nat.zero_le _
  | some m =>
    simp only [parseRange] at h
    split at h
    · cases h
      exact Nat.zero_le _
    · split at h
      · rename_i first ranges hranges
        have hwritable := writable_parseRanges hranges
        rw [mergeRanges_sorted (checked_parseRanges hranges)] at h
        cases h
        split
        · have hend := Interval.foldl_absorb_rightEnd (p := first)
            (.first : Interval.RightEnd (first :: ranges) first first.end_)
            fun r hr => (sortRanges_perm (first :: ranges)).mem_iff.mp hr
          obtain ⟨r, hr, heq⟩ := hend.mem List.mem_cons_self
          rw [Writable, ← heq]
          exact hwritable r hr
        · exact Nat.zero_le _
      · cases h

theorem number_decimalText {n : Nat} (h : n < 2 ^ 63 - 1) : Number (decimalText n) where
  nonempty := decimalText_ne_nil n
  digit := decimalText_digit n
  bound := by rwa [decimal_decimalText]

theorem askedBack_contentRange (range : Range) (size : Nat) :
    askedBack (contentRange range size) =
      ascii "bytes=" ++ (decimalText range.start ++ 45 :: decimalText (range.end_ - 1)) := by
  have hnot : ∀ n, ∀ c ∈ decimalText n, (decide (c ≠ 47)) = true := by
    intro n c hc
    refine decide_eq_true fun h47 => ?_
    subst h47
    exact absurd (decimalText_digit n 47 hc) (by decide)
  have hdrop : (contentRange range size).drop 6 = (decimalText range.start ++
      45 :: decimalText (range.end_ - 1)) ++ 47 :: decimalText size := by
    rw [contentRange]
    simp only [List.append_assoc]
    rfl
  have hpositions : ∀ c ∈ decimalText range.start ++ 45 :: decimalText (range.end_ - 1),
      (decide (c ≠ 47)) = true := by
    intro c hc
    obtain hc | hc := List.mem_append.mp hc
    · exact hnot _ c hc
    · obtain rfl | hc := List.mem_cons.mp hc
      · decide
      · exact hnot _ c hc
  rw [askedBack, hdrop, List.takeWhile_append_of_pos hpositions,
    List.takeWhile_cons_of_neg (by decide), List.append_nil]

/-- The text of a range, asked for, is this range again. -/
theorem parseRange_askedBack (hsize : size < 2 ^ 63) (hwritable : Writable size range)
    (hne : range.Nonempty) (rest : List UInt8) :
    parseRange (some (askedBack (contentRange range size) ++ 0 :: rest)) size = some range := by
  have hlt : range.start < range.end_ := hne
  have hend : range.end_ ≤ 2 ^ 63 - 1 := hwritable.trans (max_le (by omega) (Nat.le_refl _))
  let spec : ByteRange := .between (decimalText range.start) (decimalText (range.end_ - 1))
  let v : RangeValue := ⟨[], [⟨[], spec, []⟩]⟩
  have hspec : spec.WellFormed := ⟨number_decimalText (by omega), number_decimalText (by omega)⟩
  have hv : v.WellFormed := by
    refine ⟨nofun, fun i hi => ?_, List.cons_ne_nil _ _⟩
    rw [List.mem_singleton.mp hi]
    exact ⟨nofun, hspec, nofun⟩
  have htext : v.text = askedBack (contentRange range size) := by
    simp only [askedBack_contentRange, RangeValue.text, v, spec, itemsText, Item.text,
      ByteRange.text, List.nil_append, List.append_nil]
  have hinterval : spec.interval size = range := by
    simp only [spec, ByteRange.interval, decimal_decimalText,
      Nat.sub_add_cancel (Nat.one_le_of_lt hlt)]
  have hmap : v.items.map (·.spec.resolve size) = [range] := by
    simp only [v, List.map_cons, List.map_nil, ByteRange.resolve, hinterval, if_pos hne]
  obtain ⟨first, hfirst, hparse⟩ := parseRange_resolved hv (lt_trans hsize (by decide)) rest
  rw [hmap] at hfirst hparse
  cases hfirst
  have habsorb : range.absorb range = range := by
    rw [Interval.absorb, if_neg (Nat.ne_of_gt hlt), if_neg (Nat.ne_of_lt hlt)]
  have hclear : Clear [range] := ⟨List.forall_mem_singleton.mpr hne, List.pairwise_singleton _ _⟩
  have hsort : sortRanges [range] = [range] := rfl
  rw [if_pos hclear, hsort, List.foldl_cons, List.foldl_nil, habsorb, htext] at hparse
  exact hparse

section Effects

variable {type : FileDescriptorType} {host : Host} {request : HttpRequest} {file : File}
  {a : Effect}

/-- The effect of a partial answer, and that what its `Content-Range` names is answered so too. -/
def Resumes (a : Effect) (answer : HttpRequest → Option Effect) (request : HttpRequest) : Prop :=
  ∃ range size bytes, a = ⟨.partialContent, some (contentRange range size), none, some bytes⟩ ∧
    ∀ request', urlOf request' = urlOf request →
      getRequestHeader request' (ascii "Range") = some (askedBack (contentRange range size)) →
        answer request' = some a

theorem rangeEffect_part (h : rangeEffect file range = some a)
    (hpart : a.code = .partialContent) : range.start ≠ range.end_ ∧ ∃ bytes,
      a = ⟨.partialContent, some (contentRange range file.size), none, some bytes⟩ := by
  rw [rangeEffect] at h
  split at h
  · split at h
    · cases h
      cases hpart
    · cases h
      exact ⟨by assumption, _, rfl⟩
  · cases h

theorem resumes_file (hsize : file.size < 2 ^ 63) (h : fileEffect request file = some a)
    (hpart : a.code = .partialContent) : Resumes a (fileEffect · file) request := by
  obtain ⟨range, hparse, heffect⟩ := Option.bind_eq_some_iff.mp h
  obtain ⟨hne, bytes, ha⟩ := rangeEffect_part heffect hpart
  have hnonempty : range.Nonempty := by
    refine (checked_parseRange hparse).resolve_left fun hfull => hne ?_
    rw [hfull]
    rfl
  refine ⟨range, file.size, bytes, ha, fun request' _ hheader => ?_⟩
  have hagain := parseRange_askedBack hsize (writable_parseRange hparse) hnonempty []
  show (parseRange _ _).bind _ = _
  rw [hheader, Option.map_some, hagain, Option.bind_some]
  exact heffect

theorem resumes_path (hfiles : ∀ path file, host.openFile path = some file → file.size < 2 ^ 63)
    {url : List UInt8} (h : pathEffect host request url = some a)
    (hpart : a.code = .partialContent) : Resumes a (pathEffect host · url) request := by
  rw [pathEffect] at h
  cases hreal : host.realpath (cstr ((url ++ 0 :: host.stale).drop 1)) with
  | none =>
    rw [hreal] at h
    cases h
    cases hpart
  | some path =>
    simp only [hreal] at h
    obtain ⟨order, horder, h⟩ := Option.bind_eq_some_iff.mp h
    split at h
    · cases h
      cases hpart
    · rename_i heq
      cases hopen : host.openFile path with
      | none =>
        simp only [hopen] at h
        cases h
        cases hpart
      | some file =>
        simp only [hopen] at h
        obtain ⟨range, size, bytes, ha, hagain⟩ := resumes_file (hfiles _ _ hopen) h hpart
        refine ⟨range, size, bytes, ha, fun request' hurl hheader => ?_⟩
        simp only [pathEffect, hreal, horder, Option.bind_some, if_neg heq, hopen,
          hagain request' hurl hheader]

theorem magicEffect_code_ne {url : List UInt8} (h : magicEffect host request url = some a) :
    a.code ≠ .partialContent := by
  rw [magicEffect] at h
  split at h
  · cases h
    decide
  · obtain ⟨order, -, rfl⟩ := Option.map_eq_some_iff.mp h
    split
    · decide
    split
    · decide
    split
    · decide
    · decide

theorem resumes_effect (hfiles : ∀ path file, host.openFile path = some file → file.size < 2 ^ 63)
    (h : effect type host request = some a) (hpart : a.code = .partialContent) :
    Resumes a (effect type host) request := by
  rw [effect] at h
  split at h
  · cases h
    cases hpart
  rename_i htype
  split at h
  · exact absurd hpart (magicEffect_code_ne h)
  rename_i hmagic
  obtain ⟨range, size, bytes, ha, hagain⟩ := resumes_path hfiles h hpart
  refine ⟨range, size, bytes, ha, fun request' hurl hheader => ?_⟩
  rw [effect, if_neg htype, hurl, if_neg hmagic]
  exact hagain request' hurl hheader

end Effects

variable {type : FileDescriptorType} {host : Host} {globals : Globals} {request : HttpRequest}
  {response : HttpResponse} {outcome : Outcome}

/-- A partial answer names its range so that it can be asked for again: whatever `Range` value
led to it, a request for the same path with the range of its `Content-Range` is answered, at
any later time while the files are the same, with the same status line, the same body and the
same `Content-Range`. The path is the one looked up: the bytes left behind the url are the
same. -/
theorem content_range_asked_back (hr : Usable response)
    (hfiles : ∀ path file, host.openFile path = some file → file.size < 2 ^ 63)
    (h : handleHttpTransaction type host globals request response = some outcome)
    (hpart : outcome.response.stateLine.code = .partialContent) :
    ∃ e ∈ outcome.response.headers, keyOf e = ascii "Content-Range" ∧
      ∀ (globals' : Globals) (request' : HttpRequest) (response' : HttpResponse),
        Usable response' → urlOf request' = urlOf request →
        getRequestHeader request' (ascii "Range") = some (askedBack e.value) →
        ∃ outcome', handleHttpTransaction type host globals' request' response' = some outcome' ∧
          outcome'.response.stateLine = outcome.response.stateLine ∧
          outcome'.response.body = outcome.response.body ∧
          ∃ e' ∈ outcome'.response.headers, keyOf e' = ascii "Content-Range" ∧
            e'.value = e.value := by
  have heffect := @transaction_effect type host globals request response hr
  rw [h, Option.map_some] at heffect
  obtain ⟨a, ha, hresponse⟩ := Option.map_eq_some_iff.mp heffect.symm
  rw [← hresponse] at hpart ⊢
  obtain ⟨range, size, bytes, rfl, hagain⟩ := resumes_effect hfiles ha hpart
  have hnamed : ∀ headers : List Header, ∃ e ∈ setHeader headers (ascii "Content-Range")
      (contentRange range size), keyOf e = ascii "Content-Range" ∧
        e.value = contentRange range size := by
    intro headers
    obtain ⟨e, he, hkey, hvalue⟩ := mem_setHeader headers (ascii "Content-Range")
      (contentRange range size)
    exact ⟨e, he, hkey, hvalue.trans (cstr_contentRange _ _)⟩
  obtain ⟨e, he, hkey, hvalue⟩ := hnamed (setHeader response.headers (ascii "Content-Length")
    (decimalText bytes.length))
  refine ⟨e, he, hkey, fun globals' request' response' hr' hurl hheader => ?_⟩
  rw [hvalue] at hheader ⊢
  have heffect' := @transaction_effect type host globals' request' response' hr'
  rw [hagain request' hurl hheader, Option.map_some] at heffect'
  obtain ⟨outcome', houtcome', hresponse'⟩ := Option.map_eq_some_iff.mp heffect'
  refine ⟨outcome', houtcome', ?_⟩
  rw [hresponse']
  exact ⟨rfl, rfl, hnamed _⟩

/-- Two adjoining ranges are answered as one, and that one can be asked for. -/
theorem content_range_asked_back_merged : ∃ outcome outcome',
    handleHttpTransaction .tlsSocket smallHost ⟨true, .information⟩
      (PartialContent.rangeRequest (ascii "bytes=4-5,2-3")) freshResponse =
        some outcome ∧
    handleHttpTransaction .tlsSocket smallHost ⟨true, .information⟩
      (PartialContent.rangeRequest (ascii "bytes=2-5")) freshResponse =
        some outcome' ∧
    outcome'.response.body = outcome.response.body := by
  have hrun : (handleHttpTransaction .tlsSocket smallHost ⟨true, .information⟩
      (PartialContent.rangeRequest (ascii "bytes=4-5,2-3")) freshResponse).map
        (fun o => (o.response.stateLine.code, o.response.headers)) =
      some (.partialContent, [⟨ascii "Content-Length", ascii "4"⟩,
        ⟨ascii "Content-Range", ascii "bytes 2-5/10"⟩]) := by decide +kernel
  obtain ⟨outcome, h, hv⟩ := Option.map_eq_some_iff.mp hrun
  obtain ⟨hcode, hheaders⟩ := Prod.mk.inj hv
  have hfiles : ∀ path file, smallHost.openFile path = some file →
      file.size < 2 ^ 63 := by
    intro path file hopen
    simp only [smallHost] at hopen
    split at hopen
    · cases hopen
      decide
    · cases hopen
  obtain ⟨e, he, hkey, hagain⟩ := content_range_asked_back (by decide) hfiles h hcode
  have hvalue : e.value = ascii "bytes 2-5/10" := by
    rw [hheaders] at he
    obtain rfl | he := List.mem_cons.mp he
    · exact absurd hkey (by decide)
    · rw [List.mem_singleton.mp he]
  obtain ⟨outcome', h', -, hbody, -⟩ := hagain ⟨true, .information⟩
    (PartialContent.rangeRequest (ascii "bytes=2-5")) freshResponse (by decide) rfl
    (by rw [hvalue]; decide)
  exact ⟨outcome, outcome', h, h', hbody⟩

end Hss.ContentRange
