import Hss.Http.Encoding

namespace Hss.Building

open Hss.CString Hss.Headers Hss.Response Hss.Lines Hss.Encoding

/-- Codes are of the enumeration, and there is as much of a body as its length says. -/
def Legal : Call → Prop
  | .setCode code _ => getDefaultDescription code ≠ none
  | .setHeader _ _ => True
  | .setBody memory length => ∀ n, length = some n → n ≤ memory.length
  | .render _ => True

structure Ready (response : HttpResponse) : Prop where
  usable : Usable response
  listed : Listed response.headers
  sound : Sound response

theorem ready_fresh (block : HttpResponse) : Ready (httpResponseInitialize block) :=
  ⟨usable_fresh block, listed_nil, ⟨rfl, rfl⟩⟩

variable {response response' : HttpResponse} {call : Call} {calls : List Call}

theorem Ready.settle (h : Ready response) : Ready (settleBody response) := by
  rw [settleBody_eq]
  split
  · exact ⟨h.usable, h.listed.setHeader _ _, ⟨h.sound.description, h.sound.body⟩⟩
  · exact h

theorem Ready.step (h : Ready response) (hlegal : Legal call) :
    ∃ next, call.run response = some next ∧ Ready next := by
  cases call with
  | setCode code description =>
    obtain ⟨text, htext⟩ : ∃ text, describes code description = some text := by
      cases description with
      | some text => exact ⟨text, rfl⟩
      | none => exact Option.ne_none_iff_exists'.mp hlegal
    refine ⟨_, setCode_described htext h.usable, ?_, h.listed, ⟨rfl, h.sound.body⟩⟩
    simp [Usable]
  | setHeader key value =>
    exact ⟨_, rfl, h.usable, h.listed.setHeader key value, ⟨h.sound.description, h.sound.body⟩⟩
  | setBody memory length =>
    have hnext := setBody_eq response (length_le_of_allowed hlegal)
    obtain ⟨body, hbody, hset⟩ := setBody_cases hnext
    refine ⟨_, hnext, ?_⟩
    rw [hset]
    exact ⟨h.usable, h.listed.setHeader _ _, ⟨h.sound.description, hbody⟩⟩
  | render buffer => exact ⟨_, congrArg some (render_response response buffer), h.settle⟩

theorem Ready.run (h : Ready response) (hlegal : ∀ call ∈ calls, Legal call) :
    ∃ response', runCalls response calls = some response' ∧ Ready response' := by
  induction calls generalizing response with
  | nil => exact ⟨response, rfl, h⟩
  | cons call calls ih =>
    obtain ⟨next, hnext, hready⟩ := h.step (hlegal call List.mem_cons_self)
    obtain ⟨response', hrun, hready'⟩ := ih hready fun call hc =>
      hlegal call (List.mem_cons_of_mem _ hc)
    refine ⟨response', ?_, hready'⟩
    rw [runCalls_cons, hnext]
    exact hrun

/-- Rendering reports this size whatever the buffer, and fills as much of a buffer
that is large enough. -/
structure Measures (response : HttpResponse) (n : Nat) : Prop where
  query : (httpResponseRender response none).code = .succeed ∧
    (httpResponseRender response none).bytes = [] ∧ (httpResponseRender response none).length = n
  short : ∀ capacity, capacity < n →
    (httpResponseRender response (some capacity)).code = .insufficientBufferSize ∧
      (httpResponseRender response (some capacity)).bytes = [] ∧
      (httpResponseRender response (some capacity)).length = n
  fits : ∀ capacity, n ≤ capacity →
    (httpResponseRender response (some capacity)).code = .succeed ∧
      (httpResponseRender response (some capacity)).bytes =
        statusLine response ++ 13 :: 10 ::
          (headerBlock (httpResponseRender response (some capacity)).response.headers ++
            response.body.body.getD []) ∧
      (httpResponseRender response (some capacity)).bytes.length = n ∧
      (httpResponseRender response (some capacity)).length = n

theorem statusLine_settle (response : HttpResponse) :
    statusLine (settleBody response) = statusLine response := by
  simp only [statusLine, settleBody_stateLine]

theorem Ready.measures (h : Ready response) :
    Measures response (measureResponseSize (settleBody response)) := by
  have hlength := length_renderedBytes h.settle.sound
  refine ⟨⟨rfl, rfl, rfl⟩, fun capacity hshort => ?_, fun capacity hfits => ?_⟩
  · rw [← hlength] at hshort ⊢
    rw [render_short rfl h.settle.sound hshort]
    exact ⟨rfl, rfl, rfl⟩
  · rw [← hlength] at hfits ⊢
    rw [render_fits rfl h.settle.sound hfits]
    refine ⟨rfl, ?_, rfl, rfl⟩
    dsimp only
    rw [renderedBytes_eq, statusLine_settle, settleBody_body, h.sound.body, List.take_length]

def page : List Call :=
  [.setCode .notFound none, .setHeader (ascii "B") (ascii "1"), .setHeader (ascii "A") (ascii "2"),
    .setHeader (ascii "B") (ascii "3"), .setBody (ascii "hello") (some 5)]

theorem legal_page : ∀ call ∈ page, Legal call := by
  simp only [page, List.forall_mem_cons, Legal, Option.some.injEq, forall_eq', true_and,
    List.not_mem_nil, false_implies, implies_true, and_true]
  exact ⟨by decide, by decide⟩

def assigned : Call → Option Header
  | .setHeader key value => some ⟨cstr key, cstr value⟩
  | .setBody memory length => some (lengthEntry (length.getD (strlen memory)))
  | _ => none

def lastSet : List Call → List UInt8 → Option Header
  | [], _ => none
  | call :: calls, key => (lastSet calls key).or ((assigned call).filter (·.key = key))

def Renders : Call → Prop
  | .render _ => True
  | _ => False

theorem mem_of_setHeader (h : Listed response.headers) (key value : List UInt8) (e : Header) :
    e ∈ setHeader response.headers key value ↔
      some (⟨cstr key, cstr value⟩ : Header) = some e ∨ e ∈ response.headers ∧
        ∀ a, some (⟨cstr key, cstr value⟩ : Header) = some a → e.key ≠ a.key := by
  rw [h.mem_setHeader, Option.some.injEq, eq_comm]
  refine or_congr_right (and_congr_right fun he => ?_)
  have hkey : keyOf e = e.key := (h.stored e he).key
  rw [hkey]
  simp only [Option.some.injEq, forall_eq']

theorem mem_headers_run (h : Listed response.headers) (hcall : ¬ Renders call)
    (hrun : call.run response = some response') (e : Header) :
    e ∈ response'.headers ↔ assigned call = some e ∨
      e ∈ response.headers ∧ ∀ a, assigned call = some a → e.key ≠ a.key := by
  cases call with
  | setCode code description =>
    obtain ⟨stateLine, rfl⟩ := setCode_keeps hrun
    simp [assigned]
  | setHeader key value =>
    cases hrun
    exact mem_of_setHeader h key value e
  | setBody memory length =>
    cases (setBody_eq response (length_le_of_setBody hrun)).symm.trans hrun
    rw [assigned, lengthEntry_eq]
    exact mem_of_setHeader h lengthName _ e
  | render buffer => exact absurd trivial hcall

theorem mem_headers_runCalls (h : Ready response)
    (hcalls : ∀ call ∈ calls, Legal call ∧ ¬ Renders call)
    (hrun : runCalls response calls = some response') (e : Header) :
    e ∈ response'.headers ↔ lastSet calls e.key = some e ∨
      lastSet calls e.key = none ∧ e ∈ response.headers := by
  induction calls generalizing response with
  | nil =>
    cases hrun
    simp [lastSet]
  | cons call calls ih =>
    obtain ⟨hlegal, hrenders⟩ := hcalls call List.mem_cons_self
    obtain ⟨next, hnext, hready⟩ := h.step hlegal
    rw [runCalls_cons, hnext] at hrun
    rw [ih hready (fun call hc => hcalls call (List.mem_cons_of_mem _ hc)) hrun,
      mem_headers_run h.listed hrenders hnext, lastSet]
    cases lastSet calls e.key with
    | some a => simp
    | none =>
      have hset : (assigned call).filter (·.key = e.key) = some e ↔ assigned call = some e := by
        simp [Option.filter_eq_some_iff]
      have hkept : (assigned call).filter (·.key = e.key) = none ↔
          ∀ a, assigned call = some a → e.key ≠ a.key := by
        rw [Option.filter_eq_none_iff]
        refine forall₂_congr fun a _ => ?_
        simp [eq_comm]
      simp only [reduceCtorEq, false_or, true_and, Option.none_or, hset, hkept]
      tauto

/-- The headers that rendering writes: an empty body states its length. -/
def writtenHeaders (response : HttpResponse) : List Header :=
  if response.body.length = 0 then OrderedList.put keyOf (lengthEntry 0) response.headers
  else response.headers

theorem settle_headers (h : Listed response.headers) :
    (settleBody response).headers = writtenHeaders response := by
  rw [settleBody_eq, writtenHeaders]
  by_cases hlen : response.body.length = 0
  · rw [if_pos hlen, if_pos hlen, h.setHeader_eq, ← lengthEntry_eq, hlen]
  · rw [if_neg hlen, if_neg hlen]

/-- The headers are a map in which the last value set wins, in the order of the keys,
and rendering writes them in this order. -/
theorem headers_last_write_wins (block : HttpResponse)
    (hcalls : ∀ call ∈ calls, Legal call ∧ ¬ Renders call) :
    ∃ response, runCalls (httpResponseInitialize block) calls = some response ∧
      response.headers.Pairwise (fun a b => strcmp a.key b.key = .lt) ∧
      (∀ e, e ∈ response.headers ↔ lastSet calls e.key = some e) ∧
      (∀ call next, ¬ Renders call → call.run response = some next →
        ∀ e, (∀ a, assigned call = some a → e.key ≠ a.key) →
          (e ∈ next.headers ↔ e ∈ response.headers)) ∧
      ∀ capacity, (httpResponseRender response none).length ≤ capacity →
        (httpResponseRender response (some capacity)).bytes =
          statusLine response ++ 13 :: 10 ::
            (joined 13 10 ((writtenHeaders response).map headerText) ++
              13 :: 10 :: response.body.body.getD []) := by
  have hlegal : ∀ call ∈ calls, Legal call := fun call hc => (hcalls call hc).1
  obtain ⟨response, hrun, hready⟩ := (ready_fresh block).run hlegal
  refine ⟨response, hrun, ?_, fun e => ?_, fun call next hcall hnext e he => ?_,
    fun capacity hfits => ?_⟩
  · exact hready.listed.ordered.imp strcmp_lt_iff.mpr
  · rw [mem_headers_runCalls (ready_fresh block) hcalls hrun]
    simp [httpResponseInitialize]
  · rw [mem_headers_run hready.listed hcall hnext]
    have hself : assigned call ≠ some e := fun ha => he e ha rfl
    tauto
  · obtain ⟨-, hbytes, -⟩ := hready.measures.fits capacity hfits
    rw [hbytes, render_response, settle_headers hready.listed, headerBlock, List.append_assoc]
    rfl

theorem headers_last_write_wins_page :
    ∃ response, runCalls (httpResponseInitialize freshResponse) page = some response ∧
      (⟨ascii "B", ascii "3"⟩ : Header) ∈ response.headers := by
  have hcalls : ∀ call ∈ page, Legal call ∧ ¬ Renders call := fun call hc =>
    ⟨legal_page call hc, by
      simp only [page, List.mem_cons, List.not_mem_nil, or_false] at hc
      obtain rfl | rfl | rfl | rfl | rfl := hc <;> exact not_false⟩
  obtain ⟨response, hrun, -, hmem, -⟩ := headers_last_write_wins freshResponse hcalls
  exact ⟨response, hrun, (hmem _).mpr (by decide)⟩

/-- A length that the caller has set is not the one written with an empty body. -/
theorem length_set_not_written :
    ∃ response, runCalls (httpResponseInitialize freshResponse) [.setHeader lengthName (ascii "5")] =
        some response ∧
      response.headers = [⟨lengthName, ascii "5"⟩] ∧
      (httpResponseRender response (some 100)).code = .succeed ∧
      ¬ headerText ⟨lengthName, ascii "5"⟩ <:+: (httpResponseRender response (some 100)).bytes :=
  ⟨_, rfl, by decide, by decide, by decide⟩

end Hss.Building
