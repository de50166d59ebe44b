import Hss.Http.Acceptance

namespace Hss.Finished

open Hss.CString Hss.Headers Hss.Request Hss.StreamParser Hss.Meaning Hss.Refinement Hss.Grammar
  Hss.Acceptance

def Final (code : HttpErrorCode) : Prop :=
  code = .succeed ∨ code = .parseInvalidRequestSyntax ∨ code = .unsupportedMethod ∨
    code = .duplicateHeaderKey

/-- A first word that passes for the method, and at most one more. -/
def ShortOfWords (b : List UInt8) : Prop :=
  ∃ method gap url trailing, b = method ++ (gap ++ (url ++ trailing)) ∧
    strncmp (ascii "GET") method method.length = .eq ∧ Solid method ∧ Blank gap ∧ gap ≠ [] ∧
    Solid url ∧ Blank trailing

variable {b : List UInt8}

theorem blank_emptyLine : ∀ c ∈ ([13, 10, 13, 10] : List UInt8), isspace c = true := by
  simp [isspace]

theorem more_of_shortOfWords (h : ShortOfWords b) : requestReply b = .more := by
  obtain ⟨method, gap, url, trailing, rfl, hget, hmethod, hgap, hne, hurl, htrailing⟩ := h
  have hmethodReply : methodReply (method ++ (gap ++ (url ++ trailing))) =
      (word isspace (method ++ (gap ++ (url ++ trailing)))).andThen fun _ rest => .done () rest := by
    rw [methodReply, token_append_blank hmethod hgap hne, strncmp_append _ _ _ (Nat.le_refl _), hget,
      if_neg (by simp)]
  by_cases hu : url = []
  · have hblank : Blank (gap ++ trailing) := by
      intro c hc
      exact (List.mem_append.mp hc).elim (hgap c) (htrailing c)
    have hword : (word isspace (method ++ (gap ++ ([] ++ trailing))) : Answer (List UInt8)) = .more :=
      word_more_iff.mpr ⟨method, gap ++ trailing, rfl, hmethod, hblank⟩
    rw [hu] at hmethodReply ⊢
    simp only [requestReply, hmethodReply, hword, Reply.andThen]
  · have hword := word_done hmethod hgap hne (solid_head hurl hu trailing)
    have hwait : (word isspace (url ++ trailing) : Answer (List UInt8)) = .more :=
      word_more_iff.mpr ⟨url, trailing, rfl, hurl, htrailing⟩
    have hurlReply : urlReply (url ++ trailing) = .more := by
      unfold urlReply
      split
      · rfl
      · exact hwait
    simp only [requestReply, hmethodReply, hword, Reply.andThen, hurlReply]

theorem token_ne_nil (h : ∃ c, b.head? = some c ∧ isspace c = false) : token b ≠ [] := by
  obtain ⟨c, hc, hs⟩ := h
  cases b with
  | nil => cases hc
  | cons a b =>
    cases hc
    simp [token, hs]

theorem methodReply_more (h : methodReply b = .more) : ∃ method trailing, b = method ++ trailing ∧
    strncmp (ascii "GET") method method.length = .eq ∧ Solid method ∧ Blank trailing := by
  unfold methodReply at h
  split at h
  · cases h
  · rename_i hget
    cases hw : (word isspace b : Answer (List UInt8)) with
    | done t rest => simp [hw, Reply.andThen] at h
    | reject e => simp [hw, Reply.andThen] at h
    | more =>
      obtain ⟨method, trailing, rfl, hmethod, htrailing⟩ := word_more_iff.mp hw
      have htoken : token (method ++ trailing) = method := by
        refine (takeWhile_append_sep (by simpa [Solid] using hmethod) fun c hc => ?_).1
        simp [htrailing c (List.mem_of_head? hc)]
      rw [htoken, strncmp_append _ _ _ (Nat.le_refl _), not_not] at hget
      exact ⟨method, trailing, rfl, hget, hmethod, htrailing⟩

theorem urlReply_more (hhead : ∃ c, b.head? = some c ∧ isspace c = false)
    (h : urlReply b = .more) : ∃ url trailing, b = url ++ trailing ∧ Solid url ∧ Blank trailing := by
  rw [urlReply, if_neg (token_ne_nil hhead)] at h
  exact word_more_iff.mp h

/-- A version in front of an empty line is never waited for. -/
theorem versionReply_cases (hhead : ∃ c, b.head? = some c ∧ isspace c = false)
    (hend : [13, 10, 13, 10] <:+ b) : versionReply b = .reject .parseInvalidRequestSyntax ∨
      ∃ version rest, versionReply b = .done version rest ∧ Closed 13 10 rest := by
  have htoken : ∀ c ∈ token b, isspace c = false := by
    intro c hc
    simpa using List.mem_takeWhile_imp hc
  rw [← token_append_dropWhile b] at hend
  have hrest := suffix_of_suffix_word blank_emptyLine htoken hend
  rw [versionReply, if_neg (token_ne_nil hhead)]
  cases hd : b.dropWhile (!isspace ·) with
  | nil =>
    rw [hd] at hrest
    exact absurd hrest.length_le (by decide)
  | cons c rest' =>
    rw [hd] at hrest
    cases rest' with
    | nil =>
      have hlen := hrest.length_le
      simp at hlen
    | cons e rest =>
      by_cases hce : c = 13 ∧ e = 10
      · right
        refine ⟨token b, rest, if_pos hce, ?_⟩
        rw [hce.1, hce.2] at hrest
        exact closed_tail (by decide) hrest
      · exact .inl (if_neg hce)

theorem headers_not_more (headers : List Header) (h : Closed 13 10 b) :
    repeated headerReply headers b ≠ .more := by
  induction hn : b.length using Nat.strongRecOn generalizing b headers with
  | _ n ih =>
    obtain ⟨l, rest, hs, hrest⟩ := h.splitPair (by decide)
    rw [repeated]
    simp only [headerReply, line, hs, Reply.andThen]
    by_cases hl : l = []
    · simp [hl]
    · rw [if_neg hl]
      cases headerOf l with
      | none => simp
      | some header =>
        have hshort : rest.length < b.length := by
          rw [splitPair_eq hs]
          simp only [List.length_append, List.length_cons]
          omega
        cases hins : insertHeader headers header with
        | mk code headers' =>
          cases code
          case succeed =>
            simp only [hins, hshort, ↓reduceIte]
            exact ih rest.length (hn ▸ hshort) headers' (hrest hl) rfl
          all_goals simp [hins]

/-- Only a lack of words keeps the parser waiting once the empty line is there. -/
theorem shortOfWords_of_more (hend : [13, 10, 13, 10] <:+ b) (h : requestReply b = .more) :
    ShortOfWords b := by
  unfold requestReply at h
  cases hm : methodReply b with
  | reject e => simp [hm, Reply.andThen] at h
  | more =>
    obtain ⟨method, trailing, rfl, hget, hmethod, htrailing⟩ := methodReply_more hm
    refine ⟨method, trailing, [], [], by simp, hget, hmethod, htrailing, ?_, by simp [Solid],
      by simp [Blank]⟩
    rintro rfl
    have hnil := suffix_of_suffix_word blank_emptyLine hmethod hend
    exact absurd hnil.length_le (by decide)
  | done _ rest₁ =>
    obtain ⟨method, gap, rfl, hget, hmethod, hgap, hne, hhead⟩ := methodReply_done hm
    simp only [hm, Reply.andThen] at h
    cases hu : urlReply rest₁ with
    | reject e => simp [hu] at h
    | more =>
      obtain ⟨url, trailing, rfl, hurl, htrailing⟩ := urlReply_more hhead hu
      exact ⟨method, gap, url, trailing, rfl, hget, hmethod, hgap, hne, hurl, htrailing⟩
    | done url rest₂ =>
      obtain ⟨gap', rfl, -, -, -, -, hhead'⟩ := urlReply_done hu
      have hend' : [13, 10, 13, 10] <:+ rest₂ := by
        rw [← List.append_assoc, ← List.append_assoc, ← List.append_assoc] at hend
        exact suffix_of_suffix_head blank_emptyLine hhead' hend
      simp only [hu] at h
      obtain hv | ⟨version, rest₃, hv, hclosed⟩ := versionReply_cases hhead' hend'
      · simp [hv] at h
      · simp only [hv] at h
        cases hr : repeated headerReply [] rest₃ with
        | more => exact absurd hr (headers_not_more [] hclosed)
        | reject e => simp [hr] at h
        | done headers rest => simp [hr] at h

theorem insertHeader_code (headers : List Header) (header : Header) :
    (insertHeader headers header).1 = .succeed ∨
      (insertHeader headers header).1 = .duplicateHeaderKey := by
  simp only [insertHeader]
  cases (lookupHeader headers header.key).target with
  | none => exact .inl rfl
  | some target => exact .inr rfl

theorem headerReply_refuses (headers : List Header) (b : List UInt8) :
    (headerReply headers b).Refuses Final := by
  refine Reply.Refuses.andThen ?_ fun l rest e h => ?_
  · intro e h
    unfold line at h
    split at h <;> cases h
  · by_cases hl : l = []
    · simp [hl] at h
    · rw [if_neg hl] at h
      cases hh : headerOf l with
      | none =>
        simp only [hh, Reply.reject.injEq] at h
        exact .inr (.inl h.symm)
      | some header =>
        have hcode := insertHeader_code headers header
        simp only [hh] at h
        cases hins : insertHeader headers header with
        | mk code headers' =>
          rw [hins] at hcode h
          obtain rfl | rfl := hcode
          · cases h
          · cases h
            exact .inr (.inr (.inr rfl))

theorem requestReply_refuses (b : List UInt8) : (requestReply b).Refuses Final := by
  have hword : ∀ b : List UInt8, (word isspace b : Answer (List UInt8)).Refuses Final := by
    intro b e h
    unfold word at h
    split at h <;> cases h
  refine Reply.Refuses.andThen ?_ fun _ b => Reply.Refuses.andThen ?_ fun _ b =>
    Reply.Refuses.andThen ?_ fun _ b => Reply.Refuses.andThen ?_ fun _ _ e h => ?_
  · intro e h
    unfold methodReply at h
    split at h
    · cases h
      exact .inr (.inr (.inl rfl))
    · exact (hword _).andThen (fun _ _ e h => by cases h) e h
  · intro e h
    unfold urlReply at h
    split at h
    · cases h
    · exact hword _ e h
  · intro e h
    unfold versionReply at h
    split at h
    · cases h
    · split at h
      · split at h
        · cases h
        · cases h
          exact .inr (.inl rfl)
      · cases h
  · exact refuses_repeated headerReply_refuses [] b
  · cases h

theorem final_verdict_iff (b : List UInt8) :
    Final (verdict (requestReply b)) ↔ requestReply b ≠ .more := by
  cases hr : requestReply b with
  | more => simp [verdict, Final]
  | reject e => simpa [verdict] using requestReply_refuses b e hr
  | done text rest => cases rest <;> simp [verdict, Final]

theorem final_iff (hend : [13, 10, 13, 10] <:+ b) :
    Final (verdict (requestReply b)) ↔ ¬ ShortOfWords b := by
  rw [final_verdict_iff]
  exact not_congr ⟨shortOfWords_of_more hend, more_of_shortOfWords⟩

/-- A request that ends with an empty line gets its verdict exactly if it is not
short of words. -/
theorem finished_gets_verdict_iff {d : HttpRequest} (hd : Reachable d) {b : List UInt8}
    (hend : ascii "\r\n\r\n" <:+ b) :
    ((∀ tail code d', httpRequestFromBuffer d (b ++ tail) b.length = some (code, d') → Final code) ↔
      ¬ ShortOfWords b) ∧
    ∀ tail, 0 ∈ tail →
      ((∃ code d', httpRequestFromBuffer d (b ++ tail) b.length = some (code, d') ∧ Final code) ↔
        ¬ ShortOfWords b) := by
  have hline : ascii "\r\n\r\n" = [13, 10, 13, 10] := by decide
  rw [hline] at hend
  have hback : ∀ tail, 0 ∈ tail →
      ((∃ code d', httpRequestFromBuffer d (b ++ tail) b.length = some (code, d') ∧ Final code) ↔
        ¬ ShortOfWords b) := by
    intro tail hnul
    rw [← final_iff hend]
    obtain ⟨e, he⟩ := fromBuffer_returns hd.clean b hnul
    constructor
    · rintro ⟨code, d', h, hcode⟩
      rwa [← fromBuffer_code hd.clean h]
    · exact fun hfinal => ⟨_, e, he, hfinal⟩
  have hnul : (0 : UInt8) ∈ [0] := by decide
  refine ⟨⟨fun h => ?_, fun h tail code d' hr => ?_⟩, hback⟩
  · obtain ⟨e, he⟩ := fromBuffer_returns hd.clean b hnul
    exact (hback [0] hnul).mp ⟨_, e, he, h [0] _ e he⟩
  · rw [fromBuffer_code hd.clean hr]
    exact (final_iff hend).mpr h

/-- A request line with a word too many is refused. -/
theorem finished_gets_verdict_iff_refused : ∃ code d',
    httpRequestFromBuffer (httpRequestInitialize freshBlock)
        (ascii "GET / H x\r\n\r\n" ++ [0]) (ascii "GET / H x\r\n\r\n").length = some (code, d') ∧
      Final code := by
  have hwords : ¬ ShortOfWords (ascii "GET / H x\r\n\r\n") := fun hshort => by
    cases more_of_shortOfWords hshort
  exact ((finished_gets_verdict_iff (.fresh freshBlock) (by decide)).2 [0] (by decide)).mpr hwords

/-- A request line without a version is waited for after its empty line. -/
theorem missing_version_waits :
    ascii "\r\n\r\n" <:+ ascii "GET /\r\n\r\n" ∧
      ∃ d', httpRequestFromBuffer (httpRequestInitialize freshBlock) (ascii "GET /\r\n\r\n" ++ [0])
        (ascii "GET /\r\n\r\n").length = some (.incompleteRequest, d') :=
  ⟨by decide, _, rfl⟩

end Hss.Finished
