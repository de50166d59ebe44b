import Hss.Http.Acceptance

namespace Hss.Independence

open Hss.CString Hss.Headers Hss.Request Hss.Meaning Hss.Refinement Hss.Acceptance

variable {d : HttpRequest}

/-- What stands behind the buffer has no influence on the verdict, nor on what an
accepted buffer leaves behind. -/
theorem bytes_behind_unused (hd : Reachable d) {memory memory' : List UInt8} {length : Nat}
    (hagree : memory.take length = memory'.take length)
    (hnul : 0 ∈ memory.drop length) (hnul' : 0 ∈ memory'.drop length) :
    ∃ code e e', httpRequestFromBuffer d memory length = some (code, e) ∧
      httpRequestFromBuffer d memory' length = some (code, e') ∧ (code = .succeed → e' = e) := by
  have hsplit : ∀ m : List UInt8, 0 ∈ m.drop length → (m.take length).length = length := by
    intro m hm
    have hpos := List.length_pos_of_mem hm
    rw [List.length_drop] at hpos
    rw [List.length_take]
    omega
  obtain ⟨e, he, hdone⟩ := exists_fromBuffer hd.clean (memory.take length) hnul
  obtain ⟨e', he', hdone'⟩ := exists_fromBuffer hd.clean (memory'.take length) hnul'
  rw [List.take_append_drop, hsplit _ hnul] at he
  rw [List.take_append_drop, hsplit _ hnul'] at he'
  rw [← hagree] at he' hdone'
  refine ⟨_, e, e', he, he', fun hcode => ?_⟩
  cases hr : requestReply (memory.take length) with
  | more =>
    rw [hr] at hcode
    cases hcode
  | reject code =>
    rw [hr] at hcode
    exact absurd hcode (verdict_reject_ne_succeed hr)
  | done text rest =>
    cases rest with
    | nil => rw [hdone text hr, hdone' text hr]
    | cons c rest =>
      rw [hr] at hcode
      cases hcode

theorem bytes_behind_unused_stale :
    ∃ code e e', httpRequestFromBuffer (httpRequestInitialize freshBlock)
        (ascii "GET / H\r\n\r\n" ++ [0]) 11 = some (code, e) ∧
      httpRequestFromBuffer (httpRequestInitialize freshBlock)
        (ascii "GET / H\r\n\r\n" ++ (ascii "HTTP/1.1 200 OK" ++ [0])) 11 = some (code, e') ∧
      (code = .succeed → e' = e) :=
  bytes_behind_unused (.fresh freshBlock) (by decide) (by decide) (by decide)

/-- There is one method, and the other fields are set. -/
theorem initialize_eq (d block : HttpRequest) :
    httpRequestInitialize d = httpRequestInitialize block := by
  have hmethod : d.startLine.method = block.startLine.method := by
    cases d.startLine.method
    cases block.startLine.method
    rfl
  simp only [httpRequestInitialize, hmethod]

theorem fromBuffer_restart (hd : Clean d) (memory : List UInt8) (length : Nat) :
    httpRequestFromBuffer d memory length =
      httpRequestFromBuffer (httpRequestInitialize d) memory length := by
  unfold httpRequestFromBuffer
  rw [entry_eq hd, entry_eq (clean_fresh d), initialize_eq (httpRequestInitialize d) d]

def Unanswered (request : HttpRequest) : Prop :=
  httpRequestGetMethod request = .error .requestNoValidData ∧
    (∀ buffer, (httpRequestGetUrl request buffer).1 = .requestNoValidData) ∧
    ∀ name buffer, (httpRequestGetHeader request name buffer).1 = .requestNoValidData

theorem unanswered_iff : Unanswered d ↔ d.state ≠ .parsed := by
  constructor
  · intro h hs
    simp [Unanswered, httpRequestGetMethod, hs] at h
  · intro hs
    simp [Unanswered, httpRequestGetMethod, httpRequestGetUrl, httpRequestGetHeader, hs]

/-- A request object has no memory of what it was used for. -/
theorem fromBuffer_forgets :
    (∀ (d block : HttpRequest) (memory : List UInt8) (length : Nat), Reachable d →
      httpRequestFromBuffer d memory length =
        httpRequestFromBuffer (httpRequestInitialize block) memory length) ∧
    (∀ d, Reachable d → d.state = .initialized →
      d.startLine.url = none ∧ d.startLine.httpVersion = none ∧ d.headers = []) ∧
    (∀ (d d' : HttpRequest) (input tail : List UInt8) (code : HttpErrorCode), Reachable d →
      httpRequestFromBuffer d (input ++ tail) input.length = some (code, d') → code ≠ .succeed →
      Unanswered d') := by
  refine ⟨fun d block memory length hd => ?_, fun d hd hs => ?_, ?_⟩
  · rw [fromBuffer_restart hd.clean, initialize_eq d block]
  · rw [hd.clean hs]
    exact ⟨rfl, rfl, rfl⟩
  · intro d d' input tail code hd h hcode
    apply unanswered_iff.mpr
    obtain ⟨text, -, he⟩ | ⟨-, hn | ⟨e, he, hidle⟩⟩ := fromBuffer_cases hd.clean input tail
    · cases h.symm.trans he
      exact absurd rfl hcode
    · cases h.symm.trans hn.1
    · cases h.symm.trans he
      exact hidle.1

/-- A request read with the object that a malformed one has been read with. -/
theorem fromBuffer_forgets_refused :
    ∃ d', httpRequestFromBuffer (httpRequestInitialize freshBlock)
        (ascii "GET / H\r\n:\r\n\r\n") 14 = some (.parseInvalidRequestSyntax, d') ∧
      Unanswered d' ∧ httpRequestFromBuffer d' (ascii "GET / H\r\n\r\n") 11 =
        httpRequestFromBuffer (httpRequestInitialize freshBlock) (ascii "GET / H\r\n\r\n") 11 := by
  have hrefused : ∃ d', httpRequestFromBuffer (httpRequestInitialize freshBlock)
      (ascii "GET / H\r\n:\r\n\r\n" ++ []) (ascii "GET / H\r\n:\r\n\r\n").length =
        some (.parseInvalidRequestSyntax, d') := ⟨_, rfl⟩
  obtain ⟨d', h⟩ := hrefused
  exact ⟨d', h, fromBuffer_forgets.2.2 _ d' _ [] _ (.fresh freshBlock) h (by decide),
    fromBuffer_forgets.1 d' freshBlock _ 11 (.parse _ [] (.fresh freshBlock) h)⟩

end Hss.Independence
