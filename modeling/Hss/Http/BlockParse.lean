import Hss.Http.Reads

namespace Hss.BlockParse

open Hss.CString Hss.Request Hss.Meaning Hss.Refinement Hss.Acceptance Hss.Reads

variable {b tail rest : List UInt8} {length start end_ i : Nat} {d : HttpRequest}

theorem slice_left (b tail : List UInt8) (start : Nat) (h : end_ ≤ b.length) :
    slice (b ++ tail) start end_ = slice b start end_ := by
  rw [slice, slice, List.take_append_of_le_length h]

theorem rangeNonBlank_left (b tail : List UInt8) (start : Nat) :
    rangeNonBlank (b ++ tail) b.length start = rangeNonBlank b b.length start := by
  rw [rangeNonBlank, rangeNonBlank, slice_left b tail start (Nat.le_refl _)]

theorem rangeNonBlank_le (m : List UInt8) (h : start ≤ length) :
    rangeNonBlank m length start ≤ length := by
  have hword := (List.takeWhile_sublist (!isspace ·) (l := slice m start length)).length_le
  have hslice : (slice m start length).length ≤ length - start := by
    rw [slice, List.length_drop, List.length_take]
    omega
  rw [rangeNonBlank]
  omega

theorem skipWhitespaces_left (hlength : end_ + rest.length = length)
    (h : Inside length (skipWhitespacesReads length (rest ++ tail) end_)) :
    skipWhitespaces length (rest ++ tail) end_ = skipWhitespaces length rest end_ := by
  induction rest generalizing end_ with
  | nil =>
    have hread : end_ ∈ skipWhitespacesReads length ([] ++ tail) end_ := by
      cases tail <;> exact List.mem_cons_self
    exact absurd (h end_ hread) (by rw [← hlength]; exact Nat.lt_irrefl _)
  | cons c rest ih =>
    rw [List.cons_append, skipWhitespacesReads, inside_cons] at h
    rw [List.cons_append, skipWhitespaces, skipWhitespaces]
    by_cases hblank : isspace c
    swap
    · rw [if_neg hblank, if_neg hblank]
    by_cases hlast : end_ + 1 = length
    · rw [if_pos hblank, if_pos hblank, if_pos hlast, if_pos hlast]
    · rw [if_pos ⟨hblank, hlast⟩] at h
      rw [if_pos hblank, if_pos hblank, if_neg hlast, if_neg hlast]
      refine ih ?_ h.2
      rw [← hlength, List.length_cons]
      omega

theorem skip_left (hend : end_ ≤ b.length)
    (h : Inside b.length (skipWhitespacesReads b.length ((b ++ tail).drop end_) end_)) :
    skipWhitespaces b.length ((b ++ tail).drop end_) end_ =
      skipWhitespaces b.length (b.drop end_) end_ := by
  rw [List.drop_append_of_le_length hend] at h ⊢
  refine skipWhitespaces_left ?_ h
  rw [List.length_drop]
  omega

theorem strchr_left {c : UInt8} (hlength : i + rest.length = length)
    (h : Inside length (strchrReads c (rest ++ tail) i)) :
    strchr c (rest ++ tail) i = strchr c rest i := by
  induction rest generalizing i with
  | nil =>
    have hread : i ∈ strchrReads c ([] ++ tail) i := by cases tail <;> exact List.mem_cons_self
    exact absurd (h i hread) (by rw [← hlength]; exact Nat.lt_irrefl _)
  | cons a rest ih =>
    rw [List.cons_append, strchrReads, inside_cons] at h
    rw [List.cons_append, strchr, strchr]
    by_cases hfound : a = c
    · rw [if_pos hfound, if_pos hfound]
    by_cases hnul : a = 0
    · rw [if_neg hfound, if_neg hfound, if_pos hnul, if_pos hnul]
    · rw [if_neg (not_or.mpr ⟨hfound, hnul⟩)] at h
      rw [if_neg hfound, if_neg hfound, if_neg hnul, if_neg hnul]
      refine ih ?_ h.2
      rw [← hlength, List.length_cons]
      omega

theorem parseMethod_left (d : HttpRequest)
    (h : Inside b.length (parseMethodReads (b ++ tail) b.length)) :
    parseMethod d (b ++ tail) b.length = parseMethod d b b.length := by
  have hend := rangeNonBlank_le b (Nat.zero_le b.length)
  simp only [parseMethodReads, rangeNonBlank_left, inside_append,
    strncmp_append _ _ _ hend] at h
  simp only [parseMethod, rangeNonBlank_left, Nat.sub_zero, strncmp_append _ _ _ hend]
  split
  · rfl
  · rename_i hget
    rw [if_neg hget] at h
    rw [skip_left hend h.2.2]

theorem rangeNonBlank_inside (h : ¬ start = rangeNonBlank b b.length start) :
    rangeNonBlank b b.length start ≤ b.length := by
  by_contra hle
  exact h (rangeNonBlank_beyond b (by_contra fun hstart =>
    hle (rangeNonBlank_le b (Nat.le_of_not_le hstart)))).symm

theorem parseUrl_left (d : HttpRequest)
    (h : Inside b.length (parseUrlReads (b ++ tail) b.length start)) :
    parseUrl d (b ++ tail) b.length start = parseUrl d b b.length start := by
  simp only [parseUrlReads, rangeNonBlank_left, inside_append] at h
  simp only [parseUrl, rangeNonBlank_left]
  split
  · rfl
  · rename_i hword
    have hend := rangeNonBlank_inside hword
    rw [if_neg hword] at h
    rw [skip_left hend h.2, slice_left b tail start hend]

theorem parseHttpVersion_left (d : HttpRequest) (b tail : List UInt8) (start : Nat) :
    parseHttpVersion d (b ++ tail) b.length start = parseHttpVersion d b b.length start := by
  simp only [parseHttpVersion, rangeNonBlank_left]
  split
  · rfl
  · rename_i hword
    rw [slice_left b tail start (rangeNonBlank_inside hword)]
    split
    · rfl
    · rw [List.getElem?_append_left (by omega), List.getElem?_append_left (by omega)]

theorem rangeLine_left (b tail : List UInt8) (h : start ≤ b.length) :
    rangeLine b.length ((b ++ tail).drop start) start = rangeLine b.length (b.drop start) start := by
  have hlength : b.length = start + (b.drop start).length := by
    rw [List.length_drop]
    omega
  have hline : rangeLine (start + (b.drop start).length) (b.drop start ++ tail) start = _ :=
    rangeLine_eq tail start
  have halone : rangeLine (start + (b.drop start).length) (b.drop start ++ []) start = _ :=
    rangeLine_eq [] start
  rw [List.append_nil] at halone
  rw [List.drop_append_of_le_length h, hlength, hline, halone]

theorem rangeLine_index (h : rangeLine length rest start = .index end_) : end_ + 1 < length := by
  induction rest generalizing start with
  | nil =>
    simp only [rangeLine] at h
    split at h <;> cases h
  | cons c rest ih =>
    cases rest with
    | nil =>
      simp only [rangeLine] at h
      split at h <;> cases h
    | cons d rest =>
      rw [rangeLine] at h
      split at h
      · rename_i hroom
        split at h
        · exact ih h
        · cases h
          exact hroom
      · cases h

theorem parseHeader_left (d : HttpRequest) (hstart : start ≤ b.length) (hend : end_ ≤ b.length)
    (h : Inside b.length (parseHeaderReads (b ++ tail) start end_)) :
    parseHeader d (b ++ tail) start end_ = parseHeader d b start end_ := by
  rw [parseHeaderReads, inside_append, List.drop_append_of_le_length hstart] at h
  have hcolon := strchr_left (by rw [List.length_drop]; omega) h.1
  rw [parseHeader, parseHeader, List.drop_append_of_le_length hstart, hcolon]
  cases hfound : strchr 58 (b.drop start) start with
  | none => rfl
  | some found =>
    cases found with
    | none => rfl
    | some colon =>
      have hread := mem_strchrReads (hcolon.trans hfound)
      have hle : colon ≤ b.length := Nat.le_of_lt (h.1 colon hread)
      simp only [slice_left b tail _ hle, slice_left b tail _ hend,
        slice_left b tail _ (Nat.le_trans (Nat.sub_le end_ _) hend)]

theorem parseHeaders_left (fuel : Nat) (d : HttpRequest) (hstart : start ≤ b.length)
    (h : Inside b.length (parseHeadersReads (b ++ tail) b.length fuel d start)) :
    parseHeaders (b ++ tail) b.length fuel d start = parseHeaders b b.length fuel d start := by
  induction fuel generalizing d start with
  | zero => rfl
  | succ fuel ih =>
    rw [parseHeadersReads, rangeLine_left b tail hstart, inside_append] at h
    rw [parseHeaders, parseHeaders, rangeLine_left b tail hstart]
    cases hline : rangeLine b.length (b.drop start) start with
    | fault => rfl
    | incomplete => rfl
    | index end_ =>
      have hroom := rangeLine_index hline
      simp only [hline] at h
      change (if start = end_ then _ else _) = (if start = end_ then _ else _)
      split
      · rfl
      · rename_i hne
        rw [if_neg hne, inside_append] at h
        have hheader := parseHeader_left d hstart (by omega) h.2.1
        rw [hheader] at h ⊢
        cases hparse : parseHeader d b start end_ with
        | error result => rfl
        | ok d' =>
          rw [hparse] at h
          exact ih d' (by omega) h.2.2

theorem bind_left {α : Type} {stage stage' : Scan (HttpRequest × Nat)}
    {next : HttpRequest → Nat → List Nat} {f f' : HttpRequest × Nat → Scan α}
    (hstage : stage = stage') (h : Inside length (afterStage stage next))
    (hnext : ∀ d start, stage = .ok (d, start) → Inside length (next d start) →
      f (d, start) = f' (d, start)) : stage >>= f = stage' >>= f' := by
  subst hstage
  cases hs : stage with
  | error result => rfl
  | ok v =>
    rw [hs] at h
    exact hnext v.1 v.2 hs h

theorem parseHttpVersion_le {d' : HttpRequest} (m : List UInt8)
    (h : parseHttpVersion d m length start = .ok (d', end_)) : end_ ≤ length := by
  simp only [parseHttpVersion] at h
  split at h
  · cases h
  · split at h
    · cases h
    · split at h
      · cases h
      · cases h
        omega

/-- A parser that stays inside its buffer does the same whatever stands behind. -/
theorem fromBuffer_left (h : Inside b.length (httpRequestFromBufferReads d (b ++ tail) b.length)) :
    httpRequestFromBuffer d (b ++ tail) b.length = httpRequestFromBuffer d b b.length := by
  rw [httpRequestFromBufferReads, inside_append] at h
  have hrequest : ∀ d' : HttpRequest,
      Inside b.length (parseMethodReads (b ++ tail) b.length) ∧ Inside b.length
        (afterStage (parseMethod d' (b ++ tail) b.length) fun destination start =>
          parseUrlReads (b ++ tail) b.length start ++
            afterStage (parseUrl destination (b ++ tail) b.length start) fun destination start =>
              parseHttpVersionReads (b ++ tail) b.length start ++
                afterStage (parseHttpVersion destination (b ++ tail) b.length start)
                  fun destination start =>
                    parseHeadersReads (b ++ tail) b.length b.length destination start) →
      parseRequest d' (b ++ tail) b.length = parseRequest d' b b.length := by
    rintro d' ⟨hmethod, h⟩
    refine bind_left (parseMethod_left d' hmethod) h fun d₁ start _ h => ?_
    rw [inside_append] at h
    refine bind_left (parseUrl_left d₁ h.1) h.2 fun d₂ start _ h => ?_
    rw [inside_append] at h
    refine bind_left (parseHttpVersion_left d₂ b tail start) h.2 fun d₃ start hversion h => ?_
    dsimp only
    rw [parseHeaders_left b.length d₃ (parseHttpVersion_le _ hversion) h]
  unfold httpRequestFromBuffer
  dsimp only
  rw [hrequest _ h]

/-- Of a buffer that the parser does not run off, a block of its own is enough. -/
theorem fromBuffer_block (hd : Clean d) (h : ¬ RunsOff b) (tail : List UInt8) :
    httpRequestFromBuffer d (b ++ tail) b.length = httpRequestFromBuffer d b b.length := by
  rw [runsOff_iff] at h
  exact fromBuffer_left ((fromBufferReads_iff hd b tail).mpr h)

theorem exists_fromBuffer_block (hd : Clean d) (h : ¬ RunsOff b) :
    ∃ code e, httpRequestFromBuffer d b b.length = some (code, e) := by
  obtain ⟨e, he, -⟩ := exists_fromBuffer hd b (List.mem_singleton_self (0 : UInt8))
  exact ⟨_, e, (fromBuffer_block hd h [0]).symm.trans he⟩

end Hss.BlockParse
