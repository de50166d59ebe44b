import Hss.Http.Acceptance

namespace Hss.Lookup

open Hss.CString Hss.Headers Hss.Request Hss.StreamParser Hss.Meaning Hss.Refinement Hss.Grammar
  Hss.Acceptance

/-- A request line that is accepted, and well-formed lines that may repeat a key. -/
structure Legible (r : RequestForm) : Prop where
  requestLine : RequestForm.Loose { r with lines := [] }
  lines : ∀ l ∈ r.lines, l.WellFormed

variable {d d' : HttpRequest} {r : RequestForm}

theorem Legible.loose (h : Legible r) (hkeys : (r.lines.map (·.key)).Nodup) : r.Loose where
  method := h.requestLine.method
  methodSolid := h.requestLine.methodSolid
  gap := h.requestLine.gap
  url := h.requestLine.url
  gap' := h.requestLine.gap'
  version := h.requestLine.version
  lines := h.lines
  keys := hkeys

theorem Legible.reply_duplicate (h : Legible r) (hkeys : ¬ (r.lines.map (·.key)).Nodup) :
    requestReply r.bytes = .reject .duplicateHeaderKey := by
  obtain ⟨hmethod, hurl, hversion⟩ := requestLine_replies h.requestLine (linesBytes r.lines ++ [13, 10])
  have hdup : ¬ FreshKeys [] r.lines := fun hfresh => hkeys hfresh.1
  have hlines := headers_reject_of_lines [] List.Pairwise.nil h.lines hdup
  have hbytes : r.bytes = r.method ++ (r.gap ++ (r.url ++ (r.gap' ++ (r.version ++
      13 :: 10 :: (linesBytes r.lines ++ [13, 10]))))) := rfl
  rw [hbytes]
  dsimp only at hmethod hurl hversion
  simp only [requestReply, hmethod, hurl, hversion, Reply.andThen, hlines]

theorem Legible.fromBuffer_duplicate (h : Legible r) (hd : Clean d)
    (hkeys : ¬ (r.lines.map (·.key)).Nodup) (tail : List UInt8) :
    ∃ d', httpRequestFromBuffer d (r.bytes ++ tail) r.bytes.length =
      some (.duplicateHeaderKey, d') := by
  have hs := httpRequestFromBuffer_spec hd r.bytes tail
  rw [h.reply_duplicate hkeys] at hs
  obtain ⟨-, ⟨hnone, -⟩ | ⟨d', he, -⟩, hfound⟩ := hs
  · exact absurd hnone (hfound rfl)
  · exact ⟨d', he⟩

theorem loose_fromBuffer (hd : Clean d) (hr : r.Loose) (tail : List UInt8) : ∃ headers,
    httpRequestFromBuffer d (r.bytes ++ tail) r.bytes.length =
        some (.succeed, parsedRequest d ⟨r.url, r.version, headers⟩) ∧
      Ordered headers ∧ ∀ e, e ∈ headers ↔ ∃ l ∈ r.lines, e = l.header := by
  obtain ⟨headers, hreply, hord, hmem⟩ := accepted_of_loose hr
  have hs := httpRequestFromBuffer_spec hd r.bytes tail
  rw [hreply] at hs
  exact ⟨headers, hs, hord, hmem⟩

variable {text : RequestText}

theorem getHeader_of_mem (text : RequestText) (hord : Ordered text.headers) {e : Header}
    (he : e ∈ text.headers) {name : List UInt8} (hname : keyOf e = cstr name) :
    httpRequestGetHeader (parsedRequest d text) name none = (.succeed, [], strlen e.value + 1) ∧
      ∀ capacity, strlen e.value < capacity →
        httpRequestGetHeader (parsedRequest d text) name (some capacity) =
          (.succeed, cstr e.value, strlen e.value) := by
  have hfind : findHeader text.headers name = some e := (findHeader_eq_some hord).mpr ⟨he, hname⟩
  constructor
  · simp [httpRequestGetHeader, parsedRequest, hfind]
  · intro capacity hfits
    have hge : ¬ capacity < strlen e.value + 1 := by omega
    simp [httpRequestGetHeader, parsedRequest, hfind, hge]

theorem getHeader_missing {name : List UInt8} (hname : ∀ e ∈ text.headers, keyOf e ≠ cstr name)
    (hord : Ordered text.headers) (buffer : Option Nat) :
    (httpRequestGetHeader (parsedRequest d text) name buffer).1 = .noSuchHeader := by
  have hfind : findHeader text.headers name = none := by
    cases hf : findHeader text.headers name with
    | none => rfl
    | some e =>
      obtain ⟨he, hk⟩ := (findHeader_eq_some hord).mp hf
      exact absurd hk (hname e he)
  simp [httpRequestGetHeader, parsedRequest, hfind]

/-- A repeated key is found wherever it stands; without one every line can be asked
for by its key, and nothing else can. -/
theorem lookup_faithful (hd : Reachable d) (hr : Legible r) (tail : List UInt8) :
    ((∃ d', httpRequestFromBuffer d (r.bytes ++ tail) r.bytes.length =
        some (.duplicateHeaderKey, d')) ↔ ¬ (r.lines.map (·.key)).Nodup) ∧
      ((r.lines.map (·.key)).Nodup → ∃ d',
        httpRequestFromBuffer d (r.bytes ++ tail) r.bytes.length = some (.succeed, d') ∧
        (∀ name, (∃ buffer, (httpRequestGetHeader d' name buffer).1 = .succeed) ↔
          ∃ l ∈ r.lines, l.key = cstr name) ∧
        ∀ l ∈ r.lines, ∀ name, l.key = cstr name →
          httpRequestGetHeader d' name none = (.succeed, [], strlen l.value + 1) ∧
          ∀ capacity, strlen l.value < capacity →
            httpRequestGetHeader d' name (some capacity) =
              (.succeed, cstr l.value, strlen l.value)) := by
  constructor
  · constructor
    · rintro ⟨d', h⟩ hkeys
      obtain ⟨headers, hs, -⟩ := loose_fromBuffer hd.clean (hr.loose hkeys) tail
      cases h.symm.trans hs
    · intro hkeys
      exact hr.fromBuffer_duplicate hd.clean hkeys tail
  · intro hkeys
    obtain ⟨headers, hs, hord, hmem⟩ := loose_fromBuffer hd.clean (hr.loose hkeys) tail
    have hline : ∀ l ∈ r.lines, ∀ name, l.key = cstr name →
        l.header ∈ headers ∧ keyOf l.header = cstr name := fun l hl name hname =>
      ⟨(hmem _).mpr ⟨l, hl, rfl⟩, (keyOf_header (hr.lines l hl)).trans hname⟩
    refine ⟨_, hs, fun name => ⟨?_, ?_⟩, fun l hl name hname => ?_⟩
    · rintro ⟨buffer, hget⟩
      by_contra hno
      push Not at hno
      have hmissing : ∀ e ∈ headers, keyOf e ≠ cstr name := by
        intro e he hk
        obtain ⟨l, hl, rfl⟩ := (hmem e).mp he
        exact hno l hl ((keyOf_header (hr.lines l hl)).symm.trans hk)
      rw [getHeader_missing hmissing hord] at hget
      cases hget
    · rintro ⟨l, hl, hname⟩
      obtain ⟨he, hk⟩ := hline l hl name hname
      exact ⟨none, congrArg Prod.fst (getHeader_of_mem _ hord he hk).1⟩
    · obtain ⟨he, hk⟩ := hline l hl name hname
      exact getHeader_of_mem _ hord he hk

/-- A request without any liberty taken in its first line. -/
def getRequest (url : List UInt8) (lines : List HeaderLine) : RequestForm where
  method := ascii "GET"
  gap := [32]
  url := url
  gap' := [32]
  version := ascii "HTTP/1.1"
  lines := lines

theorem legible_getRequest {url : List UInt8} {lines : List HeaderLine} (hurl : Solid url)
    (hne : url ≠ []) (hlines : ∀ l ∈ lines, l.WellFormed) : Legible (getRequest url lines) := by
  have hsolid : ∀ s : List UInt8, (s.all fun c => !isspace c) = true → Solid s := by
    intro s hs c hc
    simpa using List.all_eq_true.mp hs c hc
  have hmethod : strncmp (ascii "GET") (ascii "GET") (ascii "GET").length = .eq := by decide
  have hget : Solid (ascii "GET") := hsolid _ (by decide)
  have hblank : Blank [32] ∧ ([32] : List UInt8) ≠ [] := by simp [Blank, isspace]
  have hversion : Solid (ascii "HTTP/1.1") ∧ ascii "HTTP/1.1" ≠ [] :=
    ⟨hsolid _ (by decide), by decide⟩
  exact ⟨⟨hmethod, hget, hblank, ⟨hurl, hne⟩, hblank, hversion, by simp, by simp⟩, hlines⟩

def twoLines : List HeaderLine := [⟨[98], [32], [49], []⟩, ⟨[97], [], [50], [32]⟩]

theorem wellFormed_twoLines : ∀ l ∈ twoLines, l.WellFormed := by decide +kernel

theorem lookup_faithful_two_lines : ∃ d',
    httpRequestFromBuffer (httpRequestInitialize freshBlock)
        ((getRequest [47] twoLines).bytes ++ []) (getRequest [47] twoLines).bytes.length =
          some (.succeed, d') ∧
      httpRequestGetHeader d' (ascii "a") (some 10) = (.succeed, [50], 1) := by
  have hlegible : Legible (getRequest [47] twoLines) :=
    legible_getRequest (by simp [Solid, isspace]) (by simp) wellFormed_twoLines
  have hkeys : ((getRequest [47] twoLines).lines.map (·.key)).Nodup := by decide
  obtain ⟨d', h, -, hget⟩ := (lookup_faithful (.fresh freshBlock) hlegible []).2 hkeys
  refine ⟨d', h, ?_⟩
  exact (hget ⟨[97], [], [50], [32]⟩ (by decide) (ascii "a") (by decide)).2 10 (by decide)

/-- What the getters hand out is the url and the values as they stand in the request. -/
structure HandsOut (request : HttpRequest) (r : RequestForm) : Prop where
  url : ∀ capacity, r.url.length < capacity →
    httpRequestGetUrl request (some capacity) = (.succeed, r.url, r.url.length)
  value : ∀ l ∈ r.lines, ∀ capacity, l.value.length < capacity →
    httpRequestGetHeader request l.key (some capacity) = (.succeed, l.value, l.value.length)
  trimmed : ∀ e ∈ request.headers, Trimmed (cstr e.value)

theorem not_mem_of_cstr {s : List UInt8} (h : cstr s = s) : 0 ∉ s := by
  rw [← h]
  exact not_mem_cstr s

theorem handsOut_iff (hr : r.Loose) {headers : List Header} (hord : Ordered headers)
    (hmem : ∀ e, e ∈ headers ↔ ∃ l ∈ r.lines, e = l.header) :
    HandsOut (parsedRequest d ⟨r.url, r.version, headers⟩) r ↔
      0 ∉ r.url ∧ ∀ l ∈ r.lines, 0 ∉ l.value := by
  have hurl : ∀ capacity, r.url.length < capacity →
      httpRequestGetUrl (parsedRequest d ⟨r.url, r.version, headers⟩) (some capacity) =
        (.succeed, cstr r.url, r.url.length) := by
    intro capacity hfits
    have hge : ¬ capacity < r.url.length + 1 := by omega
    simp [httpRequestGetUrl, parsedRequest, hge]
  have hvalue : ∀ l ∈ r.lines, ∀ capacity, strlen l.value < capacity →
      httpRequestGetHeader (parsedRequest d ⟨r.url, r.version, headers⟩) l.key (some capacity) =
        (.succeed, cstr l.value, strlen l.value) := by
    intro l hl
    have hkey : keyOf l.header = cstr l.key := rfl
    exact (getHeader_of_mem ⟨r.url, r.version, headers⟩ hord
      ((hmem _).mpr ⟨l, hl, rfl⟩) hkey).2
  have hcut : ∀ s : List UInt8, strlen s ≤ s.length := fun s => (List.takeWhile_sublist _).length_le
  constructor
  · intro h
    refine ⟨?_, fun l hl => ?_⟩
    · have hget := (hurl _ (Nat.lt_succ_self _)).symm.trans (h.url _ (Nat.lt_succ_self _))
      exact not_mem_of_cstr (congrArg (fun result => result.2.1) hget)
    · have hfits := Nat.lt_succ_of_le (hcut l.value)
      have hget := (hvalue l hl _ hfits).symm.trans (h.value l hl _ (Nat.lt_succ_self _))
      exact not_mem_of_cstr (congrArg (fun result => result.2.1) hget)
  · rintro ⟨hu, hv⟩
    refine ⟨fun capacity hfits => ?_, fun l hl capacity hfits => ?_, fun e he => ?_⟩
    · rw [hurl capacity hfits, cstr_of_not_mem hu]
    · have hwhole := cstr_of_not_mem (hv l hl)
      have hlength : strlen l.value = l.value.length := congrArg List.length hwhole
      rw [hvalue l hl capacity (hlength ▸ hfits), hwhole, hlength]
    · obtain ⟨l, hl, rfl⟩ := (hmem e).mp he
      have hwhole : cstr l.header.value = l.value := cstr_of_not_mem (hv l hl)
      rw [hwhole]
      exact (hr.lines l hl).trimmed

/-- Nothing of an accepted request is cut exactly if there is no NUL in its url and
in its values. -/
theorem handed_out_whole_iff {b tail : List UInt8} (hd : Reachable d)
    (h : httpRequestFromBuffer d (b ++ tail) b.length = some (.succeed, d')) :
    ∃ r : RequestForm, r.Loose ∧ r.bytes = b ∧
      (HandsOut d' r ↔ 0 ∉ r.url ∧ ∀ l ∈ r.lines, 0 ∉ l.value) := by
  obtain ⟨text, hreply⟩ := (accepts_iff_reply hd.clean b tail).mp ⟨d', h⟩
  obtain ⟨r, hr, rfl⟩ := loose_of_accepted hreply
  obtain ⟨headers, hs, hord, hmem⟩ := loose_fromBuffer hd.clean hr tail
  cases h.symm.trans hs
  exact ⟨r, hr, rfl, handsOut_iff hr hord hmem⟩

theorem handed_out_whole_iff_two_lines : ∃ d',
    httpRequestFromBuffer (httpRequestInitialize freshBlock)
        ((getRequest [47] twoLines).bytes ++ []) (getRequest [47] twoLines).bytes.length =
          some (.succeed, d') ∧
      HandsOut d' (getRequest [47] twoLines) := by
  have hloose : (getRequest [47] twoLines).Loose := by decide +kernel
  obtain ⟨headers, h, -⟩ := loose_fromBuffer (clean_fresh freshBlock) hloose []
  obtain ⟨r, hr, hbytes, hiff⟩ := handed_out_whole_iff (.fresh freshBlock) h
  obtain rfl := loose_unique hr hloose hbytes
  exact ⟨_, h, hiff.mpr (by decide)⟩

/-- Of `/a`, NUL and `b` two bytes are handed out, and the length is four. -/
theorem url_cut_at_nul : ∃ d',
    httpRequestFromBuffer (httpRequestInitialize freshBlock)
        ((getRequest [47, 97, 0, 98] []).bytes ++ []) (getRequest [47, 97, 0, 98] []).bytes.length =
          some (.succeed, d') ∧
      httpRequestGetUrl d' (some 5) = (.succeed, [47, 97], 4) ∧
      ¬ HandsOut d' (getRequest [47, 97, 0, 98] []) := by
  have hlegible : Legible (getRequest [47, 97, 0, 98] []) :=
    legible_getRequest (by simp [Solid, isspace]) (by simp) (by simp)
  have hloose := hlegible.loose List.nodup_nil
  obtain ⟨headers, h, hord, hmem⟩ := loose_fromBuffer (clean_fresh freshBlock) hloose []
  refine ⟨_, h, rfl, fun hwhole => ?_⟩
  obtain ⟨hurl, -⟩ := (handsOut_iff hloose hord hmem).mp hwhole
  exact absurd hurl (by decide)

end Hss.Lookup
