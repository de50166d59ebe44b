import Hss.Http.Encoding
import Hss.Http.Acceptance

namespace Hss.HeaderBlock

open Hss.CString Hss.Headers Hss.Request Hss.Response Hss.Lines Hss.Encoding Hss.Meaning
  Hss.Refinement Hss.Grammar Hss.Acceptance

structure Encodable (key value : List UInt8) : Prop where
  solid : Solid key
  noColon : 58 ∉ key
  noNul : 0 ∉ key
  trimmed : Trimmed value
  valueNoNul : 0 ∉ value
  oneLine : ¬ [13, 10] <:+: value

def lastSet (key : List UInt8) : List Call → Option (List UInt8)
  | [] => none
  | .setHeader k value :: calls => (lastSet key calls).or (if k = key then some value else none)
  | _ :: calls => lastSet key calls

def requestLine (r : RequestForm) : List UInt8 :=
  r.method ++ (r.gap ++ (r.url ++ (r.gap' ++ (r.version ++ [13, 10]))))

def lineOf (e : Header) : HeaderLine := ⟨e.key, [32], e.value, []⟩

variable {response response' : HttpResponse} {calls : List Call} {call : Call}
  {headers : List Header} {key value : List UInt8} {e : Header}

theorem infix_of_infix_append {c : UInt8} {l s t : List UInt8} (hs : c ∉ s)
    (h : c :: l <:+: s ++ t) : c :: l <:+: t := by
  induction s with
  | nil => exact h
  | cons a s ih =>
    obtain hprefix | h := List.infix_cons_iff.mp h
    · obtain rfl : c = a := (List.cons_prefix_cons.mp hprefix).1
      exact absurd List.mem_cons_self hs
    · exact ih (fun hc => hs (List.mem_cons_of_mem _ hc)) h

theorem wellFormed_lineOf (h : Encodable e.key e.value) : (lineOf e).WellFormed where
  solid := h.solid
  noColon := h.noColon
  noNul := h.noNul
  leading := by
    intro c hc
    obtain rfl := List.mem_singleton.mp hc
    decide
  trimmed := h.trimmed
  trailing c hc := absurd hc List.not_mem_nil
  oneLine hin := by
    have hkey : 13 ∉ e.key ++ [58, 32] := by
      have hblank : 13 ∉ e.key := fun hc => absurd (h.solid 13 hc) (by decide)
      simp [hblank]
    have htext : (lineOf e).text = (e.key ++ [58, 32]) ++ e.value := by
      simp [HeaderLine.text, lineOf]
    rw [htext] at hin
    exact h.oneLine (infix_of_infix_append hkey hin)

theorem headerText_eq (h : Stored e) : headerText e = (lineOf e).text := by
  have hcolon : ascii ": " = [58, 32] := by decide
  simp [headerText, h.key, h.value, hcolon, HeaderLine.text, lineOf]

theorem bytes_withLines (h : ∀ e ∈ headers, Stored e) (r : RequestForm) :
    requestLine r ++ headerBlock headers = { r with lines := headers.map lineOf }.bytes := by
  have hlines : linesBytes (headers.map lineOf) = joined 13 10 (headers.map headerText) := by
    rw [linesBytes, joined, List.flatMap_map, List.flatMap_map]
    apply List.flatMap_congr
    intro e he
    rw [headerText_eq (h e he)]
  simp only [requestLine, headerBlock, RequestForm.bytes, hlines, List.append_assoc,
    List.cons_append, List.nil_append]

theorem findHeader_setHeader (h : Listed headers) (key value name : List UInt8) :
    findHeader (setHeader headers key value) name =
      if cstr key = cstr name then some ⟨cstr key, cstr value⟩ else findHeader headers name := by
  apply Option.ext
  intro e
  have hmem : e ∈ setHeader headers key value ↔ _ := h.mem_setHeader
  rw [findHeader_eq_some (h.setHeader key value).ordered, hmem]
  by_cases hname : cstr key = cstr name
  · rw [if_pos hname, Option.some.injEq, ← hname]
    constructor
    · rintro ⟨rfl | ⟨-, hne⟩, hkey⟩
      · rfl
      · exact absurd hkey hne
    · rintro rfl
      exact ⟨.inl rfl, keyOf_cstr _ _⟩
  · rw [if_neg hname, findHeader_eq_some h.ordered]
    constructor
    · rintro ⟨rfl | ⟨he, -⟩, hkey⟩
      · exact absurd ((keyOf_cstr _ _).symm.trans hkey) hname
      · exact ⟨he, hkey⟩
    · rintro ⟨he, hkey⟩
      exact ⟨.inr ⟨he, fun hk => hname (hk.symm.trans hkey)⟩, hkey⟩

structure Legible (response : HttpResponse) : Prop where
  listed : Listed response.headers
  encodable : ∀ e ∈ response.headers, Encodable e.key e.value
  sound : Sound response

theorem legible_fresh (block : HttpResponse) : Legible (httpResponseInitialize block) where
  listed := listed_nil
  encodable := by simp [httpResponseInitialize]
  sound := ⟨rfl, rfl⟩

theorem trimmed_of_solid {s : List UInt8} (h : Solid s) (hne : s ≠ []) : Trimmed s where
  head := ⟨s.head hne, List.head?_eq_some_head hne, h _ (List.head_mem hne)⟩
  last := ⟨s.getLast hne, List.getLast?_eq_some_getLast hne, h _ (List.getLast_mem hne)⟩

theorem encodable_length (n : Nat) : Encodable lengthName (decimalText n) where
  solid := by
    have hall : lengthName.all (!isspace ·) = true := by decide
    simpa [Solid] using hall
  noColon := by decide
  noNul := by decide
  trimmed := by
    have hsolid : Solid (decimalText n) := by
      intro c hc
      have hdigit := decimalText_digit n c hc
      simp only [isdigit, Bool.and_eq_true, decide_eq_true_eq, UInt8.le_iff_toNat_le] at hdigit
      simp only [isspace, Bool.or_eq_false_iff, decide_eq_false_iff_not, Bool.and_eq_false_iff,
        UInt8.le_iff_toNat_le, ← UInt8.toNat_inj]
      simp only [UInt8.reduceToNat] at hdigit ⊢
      omega
    exact trimmed_of_solid hsolid (decimalText_ne_nil n)
  valueNoNul := not_mem_decimalText n
  oneLine hin := (oneLine_decimalText n).1 (hin.subset List.mem_cons_self)

theorem Legible.setHeader (h : Legible response) (he : Encodable key value) :
    Legible (httpResponseSetHeader response key value) := by
  refine ⟨h.listed.setHeader key value, ?_, ⟨h.sound.description, h.sound.body⟩⟩
  intro e hmem
  obtain rfl | ⟨hmem, -⟩ := h.listed.mem_setHeader.mp hmem
  · rw [cstr_of_not_mem he.noNul, cstr_of_not_mem he.valueNoNul]
    exact he
  · exact h.encodable e hmem

theorem Legible.setLength (h : Legible response) (body : Body)
    (hbody : body.length = (body.body.getD []).length) :
    Legible { response with
      headers := Response.setHeader response.headers lengthName (decimalText body.length), body } := by
  obtain ⟨hlisted, hencodable, hsound⟩ := h.setHeader (encodable_length body.length)
  exact ⟨hlisted, hencodable, ⟨h.sound.description, hbody⟩⟩

theorem Legible.settle (h : Legible response) : Legible (settleBody response) := by
  rw [settleBody_eq]
  by_cases hlen : response.body.length = 0
  · rw [if_pos hlen]
    exact h.setLength _ h.sound.body
  · rw [if_neg hlen]
    exact h

theorem Legible.step (h : Legible response)
    (hcall : ∀ key value, call = .setHeader key value → Encodable key value)
    (hrun : call.run response = some response') : Legible response' := by
  cases call with
  | setCode code description =>
    obtain ⟨stateLine, hsound, rfl⟩ := setCode_cases h.sound hrun
    exact ⟨h.listed, h.encodable, hsound⟩
  | setHeader key value =>
    cases hrun
    exact h.setHeader (hcall key value rfl)
  | setBody memory length =>
    obtain ⟨body, hbody, rfl⟩ := setBody_cases hrun
    exact h.setLength body hbody
  | render buffer =>
    cases hrun
    rw [render_response]
    exact h.settle

def found (response : HttpResponse) (name : List UInt8) : Option (List UInt8) :=
  (findHeader response.headers name).map (·.value)

variable {name : List UInt8}

theorem found_setLength (h : Listed response.headers) (hname : cstr name ≠ lengthName)
    (body : Body) (n : Nat) :
    found { response with headers := setHeader response.headers lengthName (decimalText n), body }
      name = found response name := by
  have hother : cstr lengthName ≠ cstr name := fun heq => hname heq.symm
  rw [found, findHeader_setHeader h, if_neg hother]
  rfl

theorem found_settle (h : Listed response.headers) (hname : cstr name ≠ lengthName) :
    found (settleBody response) name = found response name := by
  rw [settleBody_eq]
  by_cases hlen : response.body.length = 0
  · rw [if_pos hlen]
    exact found_setLength h hname _ _
  · rw [if_neg hlen]

theorem found_step (h : Legible response)
    (hcall : ∀ key value, call = .setHeader key value → Encodable key value)
    (hrun : call.run response = some response') (hname : cstr name ≠ lengthName) :
    found response' name = (lastSet (cstr name) [call]).or (found response name) := by
  cases call with
  | setCode code description =>
    obtain ⟨stateLine, -, rfl⟩ := setCode_cases h.sound hrun
    rfl
  | setHeader key value =>
    have he := hcall key value rfl
    cases hrun
    rw [found, httpResponseSetHeader, findHeader_setHeader h.listed, cstr_of_not_mem he.noNul,
      cstr_of_not_mem he.valueNoNul, lastSet, lastSet, Option.none_or]
    by_cases hk : key = cstr name
    · rw [if_pos hk, if_pos hk]
      rfl
    · rw [if_neg hk, if_neg hk]
      rfl
  | setBody memory length =>
    obtain ⟨body, -, rfl⟩ := setBody_cases hrun
    exact found_setLength h.listed hname _ _
  | render buffer =>
    cases hrun
    rw [render_response]
    exact found_settle h.listed hname

theorem lastSet_cons (key : List UInt8) (call : Call) (calls : List Call) :
    lastSet key (call :: calls) = (lastSet key calls).or (lastSet key [call]) := by
  cases call with
  | setHeader k value => rfl
  | _ => exact Option.or_none.symm

theorem Legible.run (h : Legible response)
    (hcalls : ∀ key value, .setHeader key value ∈ calls → Encodable key value)
    (hrun : runCalls response calls = some response') :
    Legible response' ∧ ∀ name, cstr name ≠ lengthName →
      found response' name = (lastSet (cstr name) calls).or (found response name) := by
  induction calls generalizing response with
  | nil =>
    cases hrun
    exact ⟨h, fun _ _ => rfl⟩
  | cons call calls ih =>
    obtain ⟨next, hnext, hrun⟩ := runCalls_cons_some hrun
    have hfirst : ∀ key value, call = .setHeader key value → Encodable key value := by
      rintro key value rfl
      exact hcalls key value List.mem_cons_self
    have hrest : ∀ key value, .setHeader key value ∈ calls → Encodable key value :=
      fun key value hmem => hcalls key value (List.mem_cons_of_mem _ hmem)
    obtain ⟨hlegible, hfound⟩ := ih (h.step hfirst hnext) hrest hrun
    refine ⟨hlegible, fun name hname => ?_⟩
    rw [hfound name hname, found_step h hfirst hnext hname, lastSet_cons _ call calls,
      Option.or_assoc]

theorem setHeader_of_lastSet {name : List UInt8} (h : lastSet name calls = some value) :
    .setHeader name value ∈ calls := by
  induction calls with
  | nil => cases h
  | cons call calls ih =>
    rw [lastSet_cons] at h
    obtain hlater | ⟨-, hnow⟩ := Option.or_eq_some_iff.mp h
    · exact List.mem_cons_of_mem _ (ih hlater)
    · cases call with
      | setHeader key value' =>
        rw [lastSet, lastSet, Option.none_or] at hnow
        split at hnow
        · rename_i hk
          cases hnow
          rw [hk]
          exact List.mem_cons_self
        · cases hnow
      | _ => cases hnow

theorem findHeader_congr {headers headers' : List Header} (h : Ordered headers)
    (h' : Ordered headers') (hmem : ∀ e, e ∈ headers ↔ e ∈ headers') (name : List UInt8) :
    findHeader headers name = findHeader headers' name := by
  apply Option.ext
  intro e
  rw [findHeader_eq_some h, findHeader_eq_some h', hmem]

theorem nodup_keys (h : Listed headers) : (headers.map (·.key)).Nodup := by
  apply List.pairwise_map.mpr
  refine h.ordered.imp_of_mem fun {e f} he hf hlt heq => ?_
  rw [keyOf, keyOf, heq] at hlt
  exact lt_irrefl _ hlt

theorem block_accepted (h : Legible response) {r : RequestForm} (hr : r.Loose)
    {d : HttpRequest} (hd : Clean d) (tail : List UInt8) :
    ∃ d', httpRequestFromBuffer d (requestLine r ++ headerBlock response.headers ++ tail)
        (requestLine r ++ headerBlock response.headers).length = some (.succeed, d') ∧
      d'.state = .parsed ∧ ∀ name, findHeader d'.headers name = findHeader response.headers name := by
  have hlines : ∀ l ∈ response.headers.map lineOf, l.WellFormed := by
    intro l hl
    obtain ⟨e, he, rfl⟩ := List.mem_map.mp hl
    exact wellFormed_lineOf (h.encodable e he)
  have hkeys : ((response.headers.map lineOf).map (·.key)).Nodup := by
    rw [List.map_map]
    exact nodup_keys h.listed
  have hloose : RequestForm.Loose { r with lines := response.headers.map lineOf } :=
    ⟨hr.method, hr.methodSolid, hr.gap, hr.url, hr.gap', hr.version, hlines, hkeys⟩
  obtain ⟨headers, hreply, hordered, hmem⟩ := accepted_of_loose hloose
  rw [← bytes_withLines h.listed.stored r] at hreply
  obtain ⟨text, htext, hparsed⟩ | ⟨hverdict, -⟩ := fromBuffer_cases hd
    (requestLine r ++ headerBlock response.headers) tail
  · cases hreply.symm.trans htext
    refine ⟨_, hparsed, rfl, fun name => findHeader_congr hordered h.listed.ordered ?_ name⟩
    intro e
    rw [hmem]
    constructor
    · rintro ⟨l, hl, rfl⟩
      obtain ⟨e, he, rfl⟩ := List.mem_map.mp hl
      exact he
    · exact fun he => ⟨lineOf e, List.mem_map_of_mem he, rfl⟩
  · rw [hreply] at hverdict
    exact absurd rfl hverdict

theorem getHeader_found {d : HttpRequest} (hstate : d.state = .parsed) {n : Nat}
    (hfound : (findHeader d.headers name).map (·.value) = some value) (hnul : 0 ∉ value)
    (hn : value.length < n) :
    httpRequestGetHeader d name (some n) = (.succeed, value, value.length) := by
  obtain ⟨e, he, rfl⟩ := Option.map_eq_some_iff.mp hfound
  have hfits : ¬ n < e.value.length + 1 := by omega
  simp only [httpRequestGetHeader, hstate, he, strlen, cstr_of_not_mem hnul, hfits, ne_eq,
    not_true_eq_false, if_false]

/-- Whatever else has been called, the headers set are what a request with the
rendered block has, and no other. -/
theorem header_block_read_back (block : HttpResponse)
    (hcalls : ∀ key value, .setHeader key value ∈ calls → Encodable key value ∧ key ≠ lengthName)
    (hrun : runCalls (httpResponseInitialize block) calls = some response) {capacity : Nat}
    (hfits : (httpResponseRender response none).length ≤ capacity) {r : RequestForm}
    (hr : r.Loose) {d : HttpRequest} (hd : Reachable d) (tail : List UInt8) :
    ∃ rendered d', (httpResponseRender response (some capacity)).response = rendered ∧
      (httpResponseRender response (some capacity)).bytes = statusLine rendered ++ 13 :: 10 ::
        (headerBlock rendered.headers ++ rendered.body.body.getD []) ∧
      httpRequestFromBuffer d (requestLine r ++ headerBlock rendered.headers ++ tail)
        (requestLine r ++ headerBlock rendered.headers).length = some (.succeed, d') ∧
      (∀ name value n, lastSet (cstr name) calls = some value → value.length < n →
        httpRequestGetHeader d' name (some n) = (.succeed, value, value.length)) ∧
      ∀ name buffer, lastSet (cstr name) calls = none → cstr name ≠ lengthName →
        (httpRequestGetHeader d' name buffer).1 = .noSuchHeader := by
  have hencodable : ∀ key value, .setHeader key value ∈ calls → Encodable key value :=
    fun key value hmem => (hcalls key value hmem).1
  obtain ⟨hlegible, hfound⟩ := (legible_fresh block).run hencodable hrun
  have hsettled := hlegible.settle
  obtain ⟨d', hparsed, hstate, hsame⟩ := block_accepted hsettled hr hd.clean tail
  have hsize : (renderedBytes (settleBody response)).length ≤ capacity := by
    rw [length_renderedBytes hsettled.sound]
    exact hfits
  have hget : ∀ name, cstr name ≠ lengthName →
      (findHeader d'.headers name).map (·.value) = lastSet (cstr name) calls := by
    intro name hname
    rw [hsame]
    exact (found_settle hlegible.listed hname).trans ((hfound name hname).trans Option.or_none)
  refine ⟨settleBody response, d', render_response _ _, ?_, hparsed, ?_, ?_⟩
  · rw [render_fits rfl hsettled.sound hsize, renderedBytes_eq, hsettled.sound.body, List.take_length]
  · intro name value n hset hn
    obtain ⟨hencodable, hname⟩ := hcalls _ _ (setHeader_of_lastSet hset)
    exact getHeader_found hstate ((hget name hname).trans hset) hencodable.valueNoNul hn
  · intro name buffer hset hname
    have hnone := Option.map_eq_none_iff.mp ((hget name hname).trans hset)
    simp only [httpRequestGetHeader, hstate, hnone, ne_eq, not_true_eq_false, if_false]

def threeCalls : List Call :=
  [.setCode .ok none, .setHeader (ascii "Via") (ascii "a"),
    .setHeader (ascii "Age") (ascii "1: \r2"), .setHeader (ascii "Via") (ascii "b c")]

def rootLine : RequestForm :=
  ⟨ascii "GET", ascii " ", ascii "/", ascii " ", ascii "HTTP/1.1", []⟩

theorem header_block_read_back_three :
    ∃ response rendered d', runCalls (httpResponseInitialize freshResponse)
        threeCalls = some response ∧
      (httpResponseRender response (some 100)).response = rendered ∧
      httpRequestFromBuffer (httpRequestInitialize freshBlock)
        (requestLine rootLine ++ headerBlock rendered.headers ++ [0])
        (requestLine rootLine ++ headerBlock rendered.headers).length = some (.succeed, d') ∧
      httpRequestGetHeader d' (ascii "Via") (some 4) = (.succeed, ascii "b c", 3) ∧
      httpRequestGetHeader d' (ascii "Age") (some 9) = (.succeed, ascii "1: \r2", 5) ∧
      (httpRequestGetHeader d' (ascii "Server") none).1 = .noSuchHeader := by
  have hsolid : ∀ {s : List UInt8}, s.all (!isspace ·) = true → Solid s := by
    intro s hs
    simpa [Solid] using hs
  have hblank : Blank (ascii " ") := by
    have hall : (ascii " ").all isspace = true := by decide
    simpa [Blank] using hall
  have hencodable : ∀ key value, .setHeader key value ∈ threeCalls →
      Encodable key value ∧ key ≠ lengthName := by
    simp only [threeCalls, List.mem_cons, reduceCtorEq, Call.setHeader.injEq, List.not_mem_nil,
      or_false, false_or]
    rintro key value (⟨rfl, rfl⟩ | ⟨rfl, rfl⟩ | ⟨rfl, rfl⟩)
    · exact ⟨⟨hsolid (by decide), by decide, by decide,
        ⟨⟨97, rfl, by decide⟩, ⟨97, rfl, by decide⟩⟩, by decide, by decide⟩, by decide⟩
    · exact ⟨⟨hsolid (by decide), by decide, by decide,
        ⟨⟨49, rfl, by decide⟩, ⟨50, rfl, by decide⟩⟩, by decide, by decide⟩, by decide⟩
    · exact ⟨⟨hsolid (by decide), by decide, by decide,
        ⟨⟨98, rfl, by decide⟩, ⟨99, rfl, by decide⟩⟩, by decide, by decide⟩, by decide⟩
  have hloose : rootLine.Loose :=
    ⟨by decide, hsolid (by decide), ⟨hblank, by decide⟩, ⟨hsolid (by decide), by decide⟩,
      ⟨hblank, by decide⟩, ⟨hsolid (by decide), by decide⟩, by simp [rootLine], by simp [rootLine]⟩
  have hrun : runCalls (httpResponseInitialize freshResponse) threeCalls =
      some ⟨⟨.ok, .live (ascii "OK"), 2⟩, [⟨ascii "Age", ascii "1: \r2"⟩, ⟨ascii "Via", ascii "b c"⟩],
        ⟨none, 0⟩⟩ := by
    rfl
  obtain ⟨rendered, d', hrendered, -, hparsed, hget, hnone⟩ :=
    header_block_read_back _ hencodable hrun (show _ ≤ 100 by decide) hloose (.fresh freshBlock) [0]
  exact ⟨_, rendered, d', hrun, hrendered, hparsed, hget _ _ _ (by decide) (by decide),
    hget _ _ _ (by decide) (by decide), hnone _ _ (by decide) (by decide)⟩

end Hss.HeaderBlock
