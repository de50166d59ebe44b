import Hss.Http.Encoding

namespace Hss.ContentLength

open Hss.CString Hss.Headers Hss.Response Hss.Lines Hss.Encoding

def toLower (c : UInt8) : UInt8 := if 65 ≤ c ∧ c ≤ 90 then c + 32 else c

def SameName (a b : List UInt8) : Prop := a.map toLower = b.map toLower

instance (a b : List UInt8) : Decidable (SameName a b) := inferInstanceAs (Decidable (_ = _))

/-- The arguments a caller may pass: a header of its own, texts of one line, and
no more of a body than there is. -/
def Allowed : Call → Prop
  | .setCode _ description => ∀ text, description = some text → OneLine (cstr text)
  | .setHeader key value =>
    ¬ SameName (cstr key) lengthName ∧ OneLine (cstr key) ∧ OneLine (cstr value)
  | .setBody memory length => ∀ n, length = some n → n ≤ memory.length
  | .render _ => True

/-- One entry states the length of what stands behind the first empty line, and it
is the only one with the name. -/
def StatesLength (rendering : Rendering) : Prop :=
  rendering.code = .succeed ∧ ∃ start body,
    CutAt (ascii "\r\n\r\n") rendering.bytes
      (List.intercalate (ascii "\r\n") (start :: rendering.response.headers.map headerText)) body ∧
    rendering.response.headers.filter (fun h => SameName h.key lengthName) =
      [lengthEntry body.length]

structure Kept (response : HttpResponse) : Prop where
  listed : Listed response.headers
  oneLine : ∀ e ∈ response.headers, OneLine (headerText e)
  sound : Sound response
  description : OneLine response.stateLine.description.text
  only : ∀ e ∈ response.headers, SameName e.key lengthName → e = lengthEntry response.body.length
  stated : response.body.length ≠ 0 → lengthEntry response.body.length ∈ response.headers

theorem kept_fresh (block : HttpResponse) : Kept (httpResponseInitialize block) where
  listed := listed_nil
  oneLine := by simp [httpResponseInitialize]
  sound := ⟨rfl, rfl⟩
  description := ⟨List.not_mem_nil, List.not_mem_nil⟩
  only := by simp [httpResponseInitialize]
  stated h := absurd rfl h

variable {response response' : HttpResponse} {calls : List Call} {call : Call}

theorem oneLine_setHeader {headers : List Header} (h : Listed headers)
    (hline : ∀ e ∈ headers, OneLine (headerText e)) {key value : List UInt8}
    (hkey : OneLine (cstr key)) (hvalue : OneLine (cstr value)) :
    ∀ e ∈ setHeader headers key value, OneLine (headerText e) := by
  intro e he
  obtain rfl | ⟨he, -⟩ := h.mem_setHeader.mp he
  · apply oneLine_headerText
    · rwa [cstr_cstr]
    · rwa [cstr_cstr]
  · exact hline e he

theorem Kept.setLength (h : Kept response) (body : Body)
    (hbody : body.length = (body.body.getD []).length) :
    Kept { response with
        headers := setHeader response.headers lengthName (decimalText body.length), body } ∧
      lengthEntry body.length ∈
        setHeader response.headers lengthName (decimalText body.length) := by
  have hname : OneLine (cstr lengthName) := by decide
  have hvalue : OneLine (cstr (decimalText body.length)) := by
    rw [cstr_decimalText]
    exact oneLine_decimalText _
  have hmem : lengthEntry body.length ∈
      setHeader response.headers lengthName (decimalText body.length) :=
    h.listed.mem_setHeader.mpr (.inl (lengthEntry_eq _))
  refine ⟨⟨h.listed.setHeader _ _, oneLine_setHeader h.listed h.oneLine hname hvalue,
    ⟨h.sound.description, hbody⟩, h.description, fun e he hsame => ?_, fun _ => hmem⟩, hmem⟩
  obtain rfl | ⟨he, hne⟩ := h.listed.mem_setHeader.mp he
  · exact (lengthEntry_eq _).symm
  · rw [h.only e he hsame] at hne
    exact absurd rfl hne

theorem Kept.setHeader (h : Kept response) {key value : List UInt8}
    (hname : ¬ SameName (cstr key) lengthName) (hkey : OneLine (cstr key))
    (hvalue : OneLine (cstr value)) : Kept (httpResponseSetHeader response key value) := by
  refine ⟨h.listed.setHeader _ _, oneLine_setHeader h.listed h.oneLine hkey hvalue,
    ⟨h.sound.description, h.sound.body⟩, h.description, fun e he hsame => ?_, fun hlen => ?_⟩
  · obtain rfl | ⟨he, -⟩ := h.listed.mem_setHeader.mp he
    · exact absurd hsame hname
    · exact h.only e he hsame
  · refine h.listed.mem_setHeader.mpr (.inr ⟨h.stated hlen, fun he => hname ?_⟩)
    rw [← he]
    rfl

theorem Kept.setCode (h : Kept response) {code : HttpResponseCode}
    {description : Option (List UInt8)}
    (hline : ∀ text, description = some text → OneLine (cstr text))
    (hset : httpResponseSetCode response code description = some response') : Kept response' := by
  by_cases hu : Usable response
  · cases hd : describes code description with
    | some text =>
      cases (setCode_described hd hu).symm.trans hset
      have htext : OneLine (cstr text) := by
        cases description with
        | some text' =>
          cases hd
          exact hline _ rfl
        | none =>
          rw [getDefaultDescription_noNul hd]
          exact oneLine_defaultDescription hd
      exact ⟨h.listed, h.oneLine, ⟨rfl, h.sound.body⟩, htext, h.only, h.stated⟩
    | none =>
      cases (setCode_undescribed hd hu).symm.trans hset
      refine ⟨h.listed, h.oneLine, ⟨?_, h.sound.body⟩, ?_, h.only, h.stated⟩
      · split
        · exact h.sound.description
        · rfl
      · split
        · exact h.description
        · exact ⟨List.not_mem_nil, List.not_mem_nil⟩
  · rw [setCode_freed hu] at hset
    cases hset

theorem Kept.settle (h : Kept response) :
    Kept (settleBody response) ∧ lengthEntry response.body.length ∈ (settleBody response).headers := by
  rw [settleBody_eq]
  by_cases hlen : response.body.length = 0
  · rw [if_pos hlen]
    exact h.setLength _ h.sound.body
  · rw [if_neg hlen]
    exact ⟨h, h.stated hlen⟩

theorem Kept.step (h : Kept response) (hallowed : Allowed call)
    (hrun : call.run response = some response') : Kept response' := by
  cases call with
  | setCode code description => exact h.setCode hallowed hrun
  | setHeader key value =>
    obtain ⟨hname, hkey, hvalue⟩ := hallowed
    cases hrun
    exact h.setHeader hname hkey hvalue
  | setBody memory length =>
    obtain ⟨body, hbody, rfl⟩ := setBody_cases hrun
    exact (h.setLength body hbody).1
  | render buffer =>
    cases hrun
    rw [render_response]
    exact h.settle.1

theorem Kept.run (h : Kept response) (hallowed : ∀ call ∈ calls, Allowed call)
    (hrun : runCalls response calls = some response') : Kept response' := by
  apply runCalls_keeps ?_ h hrun
  intro response response' call hc hkept hnext
  exact hkept.step (hallowed call hc) hnext

theorem Kept.filter_eq (h : Kept response) (hmem : lengthEntry response.body.length ∈ response.headers) :
    response.headers.filter (fun e => SameName e.key lengthName) =
      [lengthEntry response.body.length] := by
  have hnodup : response.headers.Nodup := h.listed.ordered.imp fun hlt he => absurd (he ▸ hlt) (lt_irrefl _)
  have hfilter : response.headers.filter (fun e => SameName e.key lengthName) =
      response.headers.filter (· = lengthEntry response.body.length) := by
    apply List.filter_congr
    intro e he
    apply decide_eq_decide.mpr
    refine ⟨h.only e he, fun heq => ?_⟩
    rw [heq]
    rfl
  rw [hfilter, List.filter_eq, List.count_eq_one_of_mem hnodup hmem]
  rfl

theorem Kept.statesLength (h : Kept response) {capacity : Nat}
    (hfits : (httpResponseRender response none).length ≤ capacity) :
    StatesLength (httpResponseRender response (some capacity)) := by
  obtain ⟨hsettled, hmem⟩ := h.settle
  have hsize : (renderedBytes (settleBody response)).length ≤ capacity := by
    rw [length_renderedBytes hsettled.sound]
    exact hfits
  rw [render_fits rfl hsettled.sound hsize]
  have hcut := cutAt_text ((oneLine_statusLine hsettled.description).plain (statusLine_ne_nil _))
    hsettled.oneLine (((settleBody response).body.body.getD []).take (settleBody response).body.length)
  have hlength : ((settleBody response).body.body.getD []).take (settleBody response).body.length =
      (settleBody response).body.body.getD [] := by
    rw [hsettled.sound.body, List.take_length]
  rw [← renderedBytes_eq, hlength] at hcut
  refine ⟨rfl, _, _, hcut, ?_⟩
  rw [← hsettled.sound.body]
  apply hsettled.filter_eq
  rwa [settleBody_body]

def SetsCode : Call → Prop
  | .setCode _ _ => True
  | _ => False

def Describes : Call → Prop
  | .setCode code description => describes code description ≠ none
  | _ => False

/-- A text is set, a code without one after it, and then another code. -/
def Dangles (calls : List Call) : Prop :=
  ∃ x y z : Call, [x, y, z].Sublist calls ∧ Describes x ∧ SetsCode y ∧ ¬ Describes y ∧ SetsCode z

/-- The calls that free what has been freed already, by what the pointer is. -/
def FreesTwice : Description → List Call → Prop
  | .null, calls => Dangles calls
  | .live _, calls =>
    ∃ y z : Call, [y, z].Sublist calls ∧ SetsCode y ∧ ¬ Describes y ∧ SetsCode z
  | .freed, calls => ∃ z ∈ calls, SetsCode z

theorem not_freesTwice_nil (description : Description) : ¬ FreesTwice description [] := by
  cases description with
  | null =>
    rintro ⟨x, y, z, hsub, -⟩
    cases hsub
  | live text =>
    rintro ⟨y, z, hsub, -⟩
    cases hsub
  | freed =>
    rintro ⟨z, hz, -⟩
    cases hz

theorem sublist_skip {P : Call → Prop} (hcall : ¬ P call) {x : Call} {l : List Call} (hx : P x) :
    (x :: l).Sublist (call :: calls) ↔ (x :: l).Sublist calls := by
  rw [List.sublist_cons_iff]
  refine or_iff_left ?_
  rintro ⟨r, heq, -⟩
  cases heq
  exact hcall hx

theorem freesTwice_skip (hcall : ¬ SetsCode call) (description : Description) :
    FreesTwice description (call :: calls) ↔ FreesTwice description calls := by
  have hd : ¬ Describes call := by
    cases call with
    | setCode code text => exact absurd trivial hcall
    | _ => exact not_false
  cases description with
  | null =>
    refine exists_congr fun x => exists_congr fun y => exists_congr fun z => and_congr_left ?_
    exact fun h => sublist_skip hd h.1
  | live text =>
    refine exists_congr fun y => exists_congr fun z => and_congr_left ?_
    exact fun h => sublist_skip hcall h.1
  | freed =>
    refine exists_congr fun z => and_congr_left fun hz => ?_
    rw [List.mem_cons]
    refine or_iff_right ?_
    rintro rfl
    exact hcall hz

theorem freesTwice_described (hd : Describes call) {description : Description}
    (hfreed : description ≠ .freed) (text : List UInt8) :
    FreesTwice description (call :: calls) ↔ FreesTwice (.live text) calls := by
  cases description with
  | null =>
    constructor
    · rintro ⟨x, y, z, hsub, -, hy⟩
      exact ⟨y, z, hsub.tail, hy⟩
    · rintro ⟨y, z, hsub, hy⟩
      exact ⟨call, y, z, hsub.cons_cons call, hd, hy⟩
  | live text' =>
    refine exists_congr fun y => exists_congr fun z => and_congr_left ?_
    exact fun h => sublist_skip (P := fun y => ¬ Describes y) (not_not.mpr hd) h.2.1
  | freed => exact absurd rfl hfreed

theorem freesTwice_undescribed (hd : ¬ Describes call) (hs : SetsCode call) {description : Description}
    (hfreed : description ≠ .freed) :
    FreesTwice description (call :: calls) ↔
      FreesTwice (if description = .null then .null else .freed) calls := by
  cases description with
  | null =>
    refine exists_congr fun x => exists_congr fun y => exists_congr fun z => and_congr_left ?_
    exact fun h => sublist_skip hd h.1
  | live text =>
    constructor
    · rintro ⟨y, z, hsub, -, -, hz⟩
      exact ⟨z, hsub.tail.subset List.mem_cons_self, hz⟩
    · rintro ⟨z, hmem, hz⟩
      exact ⟨call, z, (List.singleton_sublist.mpr hmem).cons_cons call, hs, hd, hz⟩
  | freed => exact absurd rfl hfreed

/-- A call goes wrong where it frees what has been freed; otherwise the calls behind
it see the pointer it leaves. -/
theorem step_freesTwice (response : HttpResponse) (calls : List Call) (hallowed : Allowed call) :
    (call.run response = none ∧ FreesTwice response.stateLine.description (call :: calls)) ∨
      ∃ next, call.run response = some next ∧
        (FreesTwice response.stateLine.description (call :: calls) ↔
          FreesTwice next.stateLine.description calls) := by
  cases call with
  | setCode code description =>
    by_cases hu : Usable response
    · right
      cases hd : describes code description with
      | some text =>
        have hcall : Describes (Call.setCode code description) := by
          rw [Describes, hd]
          exact Option.some_ne_none text
        exact ⟨_, setCode_described hd hu, freesTwice_described hcall hu _⟩
      | none =>
        refine ⟨_, setCode_undescribed hd hu, ?_⟩
        have hcall : ¬ Describes (Call.setCode code description) := not_not.mpr hd
        rw [freesTwice_undescribed hcall trivial hu]
        by_cases hnull : response.stateLine.description = .null
        · simp only [hnull, if_true]
        · simp only [hnull, if_false]
    · left
      refine ⟨setCode_freed hu code description, ?_⟩
      rw [not_not.mp hu]
      exact ⟨_, List.mem_cons_self, trivial⟩
  | setHeader key value =>
    have hcall : ¬ SetsCode (Call.setHeader key value) := not_false
    exact .inr ⟨_, rfl, freesTwice_skip hcall _⟩
  | setBody memory length =>
    right
    have hcall : ¬ SetsCode (Call.setBody memory length) := not_false
    refine ⟨_, setBody_eq response (length_le_of_allowed hallowed), ?_⟩
    exact freesTwice_skip hcall _
  | render buffer =>
    have hcall : ¬ SetsCode (Call.render buffer) := not_false
    refine .inr ⟨_, rfl, ?_⟩
    rw [render_response, settleBody_stateLine]
    exact freesTwice_skip hcall _

theorem runCalls_isSome (response : HttpResponse) (hallowed : ∀ call ∈ calls, Allowed call) :
    (runCalls response calls).isSome ↔ ¬ FreesTwice response.stateLine.description calls := by
  induction calls generalizing response with
  | nil => exact iff_of_true rfl (not_freesTwice_nil _)
  | cons call calls ih =>
    have hrest : ∀ call ∈ calls, Allowed call := fun call hc =>
      hallowed call (List.mem_cons_of_mem _ hc)
    rw [runCalls_cons]
    obtain ⟨hnone, hfrees⟩ | ⟨next, hnext, hfrees⟩ :=
      step_freesTwice response calls (hallowed call List.mem_cons_self)
    · rw [hnone]
      exact iff_of_false Bool.false_ne_true (not_not.mpr hfrees)
    · rw [hnext, hfrees]
      exact ih next hrest

/-- However a response has been put together, what is rendered states the length of
its body, as long as no code follows one that left a freed description behind. -/
theorem content_length_stated_iff (block : HttpResponse) {calls : List Call}
    (hallowed : ∀ call ∈ calls, Allowed call) :
    (∃ response, runCalls (httpResponseInitialize block) calls = some response ∧
      ∀ capacity, (httpResponseRender response none).length ≤ capacity →
        StatesLength (httpResponseRender response (some capacity))) ↔ ¬ Dangles calls := by
  have hsome := runCalls_isSome (httpResponseInitialize block) hallowed
  constructor
  · rintro ⟨response, hrun, -⟩
    apply hsome.mp
    rw [hrun]
    rfl
  · intro hdangles
    obtain ⟨response, hrun⟩ := Option.isSome_iff_exists.mp (hsome.mpr hdangles)
    have hkept := (kept_fresh block).run hallowed hrun
    exact ⟨response, hrun, fun capacity hfits => hkept.statesLength hfits⟩

def page : List Call :=
  [.setCode .ok none, .setHeader (ascii "A") (ascii "b"), .setBody (ascii "hello") none,
    .render none, .setBody (ascii "hello") (some 2)]

theorem content_length_stated_page :
    ∃ response, runCalls (httpResponseInitialize freshResponse) page = some response ∧
      ∀ capacity, (httpResponseRender response none).length ≤ capacity →
        StatesLength (httpResponseRender response (some capacity)) := by
  have hallowed : ∀ call ∈ page, Allowed call := by
    simp only [page, List.forall_mem_cons, Allowed, reduceCtorEq, false_implies, implies_true,
      true_and, Option.some.injEq, forall_eq']
    refine ⟨⟨by decide, by decide, by decide⟩, by decide, ?_⟩
    simp
  refine (content_length_stated_iff freshResponse hallowed).mpr fun h => ?_
  have hcode : Describes (Call.setCode .ok none) := Option.some_ne_none _
  have hnull : Description.null ≠ .freed := by decide
  have hlive : FreesTwice (.live []) page.tail :=
    (freesTwice_described hcode hnull []).mp h
  obtain ⟨y, z, hsub, hy, -, -⟩ := hlive
  have hmem : y ∈ page.tail := hsub.subset List.mem_cons_self
  simp only [page, List.tail_cons, List.mem_cons, List.not_mem_nil, or_false] at hmem
  obtain rfl | rfl | rfl | rfl := hmem <;> exact hy

def twoCodes : List Call := [.setCode .ok none, .setCode (.unmapped 10) none, .setCode .ok none]

/-- The third code frees the description of the first one again. -/
theorem third_code_not_set : (∀ call ∈ twoCodes, Allowed call) ∧
    ¬ ∃ response, runCalls (httpResponseInitialize freshResponse) twoCodes = some response ∧
      ∀ capacity, (httpResponseRender response none).length ≤ capacity →
        StatesLength (httpResponseRender response (some capacity)) := by
  constructor
  · simp [twoCodes, Allowed]
  · rintro ⟨response, hrun, -⟩
    have hnone : runCalls (httpResponseInitialize freshResponse) twoCodes = none := by rfl
    cases hrun.symm.trans hnone

end Hss.ContentLength
