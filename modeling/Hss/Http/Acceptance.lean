import Hss.Http.Grammar

namespace Hss.Acceptance

open Hss.CString Hss.Headers Hss.Request Hss.StreamParser Hss.Meaning Hss.Refinement Hss.Grammar

inductive Reachable : HttpRequest → Prop
  | fresh (block : HttpRequest) : Reachable (httpRequestInitialize block)
  | parse {d d' : HttpRequest} {code : HttpErrorCode} (input tail : List UInt8) :
      Reachable d → httpRequestFromBuffer d (input ++ tail) input.length = some (code, d') →
      Reachable d'
  | destroy {d : HttpRequest} : Reachable d → Reachable (httpRequestDestroy d)

def Accepts (d : HttpRequest) (input tail : List UInt8) : Prop :=
  ∃ d', httpRequestFromBuffer d (input ++ tail) input.length = some (.succeed, d')

def verdict : Answer RequestText → HttpErrorCode
  | .more => .incompleteRequest
  | .done _ [] => .succeed
  | .done _ (_ :: _) => .parseInvalidRequestSyntax
  | .reject e => e

theorem verdict_reject_ne_succeed {b : List UInt8} {e : HttpErrorCode}
    (h : requestReply b = .reject e) : e ≠ .succeed := by
  have hs := httpRequestFromBuffer_spec
    (clean_fresh ⟨.initialized, ⟨.get, none, 0, none, 0⟩, [], ⟨none, 0⟩⟩) b []
  rw [h] at hs
  exact hs.1

theorem fromBuffer_cases {d : HttpRequest} (hd : Clean d) (input tail : List UInt8) :
    (∃ text, requestReply input = .done text [] ∧
      httpRequestFromBuffer d (input ++ tail) input.length = some (.succeed, parsedRequest d text)) ∨
    (verdict (requestReply input) ≠ .succeed ∧ Answers tail (verdict (requestReply input))
      (httpRequestFromBuffer d (input ++ tail) input.length)) := by
  have hs := httpRequestFromBuffer_spec hd input tail
  cases hr : requestReply input with
  | more =>
    rw [hr] at hs
    exact .inr ⟨by simp [verdict], hs⟩
  | reject e =>
    rw [hr] at hs
    exact .inr ⟨hs.1, hs.2.1⟩
  | done text rest =>
    cases rest with
    | nil =>
      rw [hr] at hs
      exact .inl ⟨text, rfl, hs⟩
    | cons c rest =>
      rw [hr] at hs
      exact .inr ⟨by simp [verdict], hs⟩

theorem Reachable.clean {d : HttpRequest} (h : Reachable d) : Clean d := by
  induction h with
  | fresh block => exact clean_fresh block
  | parse input tail _ hr ih =>
    obtain ⟨text, -, he⟩ | ⟨-, hn | ⟨d', he, hidle⟩⟩ := fromBuffer_cases ih input tail
    · cases hr.symm.trans he
      exact clean_parsedRequest _ _
    · cases hr.symm.trans hn.1
    · cases hr.symm.trans he
      exact hidle.clean
  | @destroy d _ ih =>
    by_cases hs : d.state = .initialized
    · simpa [httpRequestDestroy, hs] using ih
    · intro _
      simp [httpRequestDestroy, hs, httpRequestInitialize]

theorem fromBuffer_code {d d' : HttpRequest} {input tail : List UInt8} {code : HttpErrorCode}
    (hd : Clean d) (h : httpRequestFromBuffer d (input ++ tail) input.length = some (code, d')) :
    code = verdict (requestReply input) := by
  obtain ⟨text, hr, he⟩ | ⟨-, hn | ⟨d', he, -⟩⟩ := fromBuffer_cases hd input tail
  · cases h.symm.trans he
    rw [hr]
    rfl
  · cases h.symm.trans hn.1
  · cases h.symm.trans he
    rfl

/-- With a NUL behind the buffer the parser always comes back. -/
theorem exists_fromBuffer {d : HttpRequest} {tail : List UInt8} (hd : Clean d) (input : List UInt8)
    (hnul : 0 ∈ tail) : ∃ e, httpRequestFromBuffer d (input ++ tail) input.length =
        some (verdict (requestReply input), e) ∧
      ∀ text, requestReply input = .done text [] → e = parsedRequest d text := by
  obtain ⟨text, hr, he⟩ | ⟨hv, hn | ⟨e, he, -⟩⟩ := fromBuffer_cases hd input tail
  · rw [hr]
    refine ⟨parsedRequest d text, he, fun text' hr' => ?_⟩
    cases hr'
    rfl
  · exact absurd hnul hn.2
  · refine ⟨e, he, fun text hr => ?_⟩
    rw [hr] at hv
    exact absurd rfl hv

theorem fromBuffer_returns {d : HttpRequest} {tail : List UInt8} (hd : Clean d) (input : List UInt8)
    (hnul : 0 ∈ tail) : ∃ d', httpRequestFromBuffer d (input ++ tail) input.length =
      some (verdict (requestReply input), d') := by
  obtain ⟨e, he, -⟩ := exists_fromBuffer hd input hnul
  exact ⟨e, he⟩

theorem accepts_iff_reply {d : HttpRequest} (hd : Clean d) (input tail : List UInt8) :
    Accepts d input tail ↔ ∃ text, requestReply input = .done text [] := by
  obtain ⟨text, hr, he⟩ | ⟨hv, ha⟩ := fromBuffer_cases hd input tail
  · exact ⟨fun _ => ⟨text, hr⟩, fun _ => ⟨_, he⟩⟩
  · constructor
    · rintro ⟨d', h⟩
      exact absurd (fromBuffer_code hd h).symm hv
    · rintro ⟨text, hr⟩
      rw [hr] at hv
      exact absurd rfl hv

theorem verdict_cut {b s : List UInt8} {text : RequestText}
    (h : requestReply (b ++ s) = .done text []) (hs : s ≠ []) :
    verdict (requestReply b) = .incompleteRequest := by
  rw [requestReply_streaming.prefix_more h hs]
  rfl

/-- A proper prefix of an accepted buffer is incomplete, whatever lies behind
it; and a buffer with any other verdict has no accepted extension. -/
theorem accepted_prefix_incomplete :
    (∀ (d d' : HttpRequest) (p s tail tail' : List UInt8), Reachable d → Reachable d' → s ≠ [] →
      0 ∈ tail' → Accepts d (p ++ s) tail →
      ∃ e, httpRequestFromBuffer d' (p ++ tail') p.length = some (.incompleteRequest, e)) ∧
    (∀ (d d' e : HttpRequest) (b s tail tail' : List UInt8) (code : HttpErrorCode),
      Reachable d → Reachable d' → s ≠ [] →
      httpRequestFromBuffer d (b ++ tail) b.length = some (code, e) →
      code = .succeed ∨ code = .parseInvalidRequestSyntax ∨ code = .unsupportedMethod ∨
        code = .duplicateHeaderKey →
      ¬ Accepts d' (b ++ s) tail') := by
  constructor
  · intro d d' p s tail tail' hd hd' hs hnul haccept
    obtain ⟨text, hr⟩ := (accepts_iff_reply hd.clean _ _).mp haccept
    have hback := fromBuffer_returns hd'.clean p hnul
    rwa [verdict_cut hr hs] at hback
  · intro d d' e b s tail tail' code hd hd' hs hb hcode haccept
    obtain ⟨text, hr⟩ := (accepts_iff_reply hd'.clean _ _).mp haccept
    have hc := fromBuffer_code hd.clean hb
    rw [verdict_cut hr hs] at hc
    subst hc
    simp at hcode

def freshBlock : HttpRequest := ⟨.invalid, ⟨.get, none, 0, none, 0⟩, [], ⟨none, 0⟩⟩

theorem accepted_prefix_incomplete_get :
    ∃ e, httpRequestFromBuffer (httpRequestInitialize freshBlock)
      (ascii "GET / H\r\na:" ++ [0]) (ascii "GET / H\r\na:").length = some (.incompleteRequest, e) :=
  accepted_prefix_incomplete.1 (httpRequestInitialize freshBlock) (httpRequestInitialize freshBlock)
    (ascii "GET / H\r\na:") (ascii "b\r\n\r\n") [] [0] (.fresh _) (.fresh _) (by decide)
    (by decide) ⟨_, rfl⟩

theorem accepts_iff_loose {d : HttpRequest} (hd : Clean d) (b tail : List UInt8) :
    Accepts d b tail ↔ ∃ r : RequestForm, r.Loose ∧ r.bytes = b := by
  rw [accepts_iff_reply hd]
  constructor
  · rintro ⟨text, h⟩
    exact loose_of_accepted h
  · rintro ⟨r, hr, rfl⟩
    obtain ⟨headers, h, -⟩ := accepted_of_loose hr
    exact ⟨_, h⟩

/-- The parser accepts exactly the strict grammar on the buffers that are no
request with a shortened method, a line end among the blanks of the request
line, or an empty header key. -/
theorem accepts_strict_iff (block : HttpRequest) (b tail : List UInt8) :
    (Accepts (httpRequestInitialize block) b tail ↔ ∃ r : RequestForm, r.Strict ∧ r.bytes = b) ↔
      ∀ r : RequestForm, r.Loose → r.bytes = b →
        r.method = ascii "GET" ∧ (13 ∉ r.gap ∧ 10 ∉ r.gap) ∧ (13 ∉ r.gap' ∧ 10 ∉ r.gap') ∧
          ∀ l ∈ r.lines, l.key ≠ [] := by
  rw [accepts_iff_loose (clean_fresh block)]
  constructor
  · rintro h r hr hb
    obtain ⟨r', hs, hb'⟩ := h.mp ⟨r, hr, hb⟩
    obtain rfl := loose_unique hr hs.toLoose (hb.trans hb'.symm)
    exact ⟨hs.get, hs.gapInLine, hs.gapInLine', hs.keysNonempty⟩
  · intro h
    constructor
    · rintro ⟨r, hr, hb⟩
      obtain ⟨hget, hgap, hgap', hkeys⟩ := h r hr hb
      exact ⟨r, ⟨hr, hget, hgap, hgap', hkeys⟩, hb⟩
    · rintro ⟨r, hr, hb⟩
      exact ⟨r, hr.toLoose, hb⟩

/-- `G / H` is served as a GET request. -/
theorem shortened_method_accepted :
    Accepts (httpRequestInitialize freshBlock) (ascii "G / H\r\n\r\n") [] ∧
      ¬ ∃ r : RequestForm, r.Strict ∧ r.bytes = ascii "G / H\r\n\r\n" := by
  refine ⟨⟨_, rfl⟩, ?_⟩
  rintro ⟨r, hr, hb⟩
  have hget : ascii "GET" <+: ascii "G / H\r\n\r\n" := by
    rw [← hb, ← hr.get]
    exact List.prefix_append _ _
  exact absurd hget (by decide)

end Hss.Acceptance
