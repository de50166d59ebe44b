import Hss.Http.Acceptance
import Hss.Server.AuthorizationCode
import Hss.Server.Effects
import Hss.Server.PartialContent

namespace Hss.Authorization

open Hss.CString Hss.Headers Hss.Request Hss.Response Hss.DescriptorList Hss.Transaction
  Hss.Acceptance Hss.Effects Hss.AuthorizationCode Hss.PartialContent

/-- A magic call that brings an Authorization header is not forbidden. -/
def TreatedAsAuthorized (type : FileDescriptorType) (host : Host) (globals : Globals)
    (request : HttpRequest) (response : HttpResponse) : Prop :=
  ∃ outcome, handleHttpTransaction type host globals request response = some outcome ∧
    outcome.response.stateLine.code ≠ .forbidden

/-- The number of bytes that `memcmp` looks at in each block up to the first difference. -/
def examined : List UInt8 → List UInt8 → Nat → Nat
  | a :: s, b :: t, n + 1 => if a = b then examined s t n + 1 else 1
  | _, _, n => n

/-- The check of a value is exact: of the block that holds the value and its NUL, no more is
examined than there is, and the code and nothing else is let through. -/
structure Exact (examined : Nat) (type : FileDescriptorType) (host : Host) (globals : Globals)
    (request : HttpRequest) (response : HttpResponse) (value : List UInt8) : Prop where
  inside : examined ≤ (value ++ [0]).length
  authorized : TreatedAsAuthorized type host globals request response ↔
    value = host.authorizationCode

variable {type : FileDescriptorType} {host : Host} {globals : Globals} {request : HttpRequest}
  {response : HttpResponse} {buffer : List UInt64} {s t value : List UInt8} {n : Nat}

theorem examined_le (h : (memcmp s t n).isSome) : examined s t n ≤ s.length := by
  induction n generalizing s t with
  | zero => simp [examined]
  | succ n ih =>
    cases s with
    | nil => cases t <;> cases h
    | cons a s =>
      cases t with
      | nil => cases h
      | cons b t =>
        rw [examined]
        split
        · rename_i hab
          subst hab
          rw [memcmp_cons] at h
          exact Nat.succ_le_succ (ih h)
        · exact Nat.succ_le_succ (Nat.zero_le _)

/-- Compared with a NUL-free code, a string passes exactly if it begins with the code, and what is
examined of it ends with its NUL. -/
theorem memcmp_code (hnul : 0 ∉ s) (value : List UInt8) :
    (memcmp (value ++ [0]) s s.length = some .eq ↔ s <+: value) ∧
      examined (value ++ [0]) s s.length ≤ (value ++ [0]).length := by
  rw [memcmp_swap, Option.map_eq_some_iff]
  constructor
  · rw [← memcmp_eq_iff hnul]
    constructor
    · rintro ⟨order, horder, hswap⟩
      rwa [Ordering.swap_eq_eq.mp hswap] at horder
    · intro heq
      exact ⟨.eq, heq, rfl⟩
  · obtain ⟨order, horder⟩ := memcmp_isSome hnul value
    refine examined_le ?_
    rw [memcmp_swap, horder]
    rfl

theorem treated_iff (hr : Usable response) (htype : type ≠ .tcpSocket)
    (hmagic : strncmp (urlOf request) (ascii "/magic-call/") 12 = .eq)
    (hvalue : getRequestHeader request (ascii "Authorization") = some value) :
    TreatedAsAuthorized type host globals request response ↔
      memcmp (value ++ [0]) host.authorizationCode authorizationCodeLength = some .eq := by
  have heffect : (handleHttpTransaction type host globals request response).map (·.response) =
      (effect type host request).map (·.apply response) := transaction_effect hr
  rw [effect, if_neg htype, if_pos hmagic, magicEffect, hvalue] at heffect
  simp only [Option.map_map] at heffect
  constructor
  · rintro ⟨outcome, hdone, hcode⟩
    rw [hdone, Option.map_some] at heffect
    obtain ⟨order, horder, happly⟩ := Option.map_eq_some_iff.mp heffect.symm
    rw [horder]
    by_contra hne
    have hforbidden : order ≠ .eq := fun h => hne (congrArg some h)
    rw [Function.comp_apply, if_pos hforbidden] at happly
    exact hcode (congrArg (·.stateLine.code) happly).symm
  · intro heq
    rw [heq, Option.map_some] at heffect
    obtain ⟨outcome, hdone, hresponse⟩ := Option.map_eq_some_iff.mp heffect
    refine ⟨outcome, hdone, ?_⟩
    rw [hresponse, Function.comp_apply, if_neg (not_not.mpr rfl)]
    split
    · exact HttpResponseCode.noConfusion
    · split <;> exact HttpResponseCode.noConfusion

/-- The check is exact but for values that go on behind the code; if `memcmp` looks at all bytes of
its length, it looks behind values that are too short as well. -/
theorem check_exact_iff (hr : Usable response) (htype : type ≠ .tcpSocket) (globals : Globals)
    (hlength : buffer.length = bufferLength authorizationCodeLength)
    (hcode : getAuthorizationCode buffer = some host.authorizationCode)
    (hmagic : strncmp (urlOf request) (ascii "/magic-call/") 12 = .eq)
    (hvalue : getRequestHeader request (ascii "Authorization") = some value) :
    (Exact (examined (value ++ [0]) host.authorizationCode authorizationCodeLength) type host
        globals request response value ↔
      ¬ (host.authorizationCode <+: value ∧ value ≠ host.authorizationCode)) ∧
    (Exact authorizationCodeLength type host globals request response value ↔
      authorizationCodeLength ≤ value.length + 1 ∧
        ¬ (host.authorizationCode <+: value ∧ value ≠ host.authorizationCode)) := by
  have hthree : buffer.length = 3 * 1 := hlength
  obtain ⟨code, hcode', hlen, hmem⟩ := code_of_words hthree
  cases hcode.symm.trans hcode'
  have hlen' : host.authorizationCode.length = authorizationCodeLength := hlen
  have hnul : 0 ∉ host.authorizationCode := fun h => absurd (hmem 0 h) (by decide)
  obtain ⟨hpasses, hinside⟩ := memcmp_code hnul value
  rw [hlen'] at hpasses hinside
  have htreated : TreatedAsAuthorized type host globals request response ↔ _ :=
    treated_iff hr htype hmagic hvalue
  have hauthorized : (TreatedAsAuthorized type host globals request response ↔
      value = host.authorizationCode) ↔
        ¬ (host.authorizationCode <+: value ∧ value ≠ host.authorizationCode) := by
    rw [htreated.trans hpasses, not_and_not_right]
    refine ⟨Iff.mp, fun h => ⟨h, ?_⟩⟩
    rintro rfl
    exact List.prefix_rfl
  constructor
  · rw [← hauthorized]
    exact ⟨fun h => h.authorized, fun h => ⟨hinside, h⟩⟩
  · rw [← hauthorized, show value.length + 1 = (value ++ [0]).length by simp]
    exact ⟨fun h => ⟨h.inside, h.authorized⟩, fun h => ⟨h.1, h.2⟩⟩

def magicText (value : List UInt8) : List UInt8 :=
  ascii "GET /magic-call/shutdown H\r\nAuthorization: " ++ value ++ ascii "\r\n\r\n"

def magicRequest (value : List UInt8) : HttpRequest :=
  ⟨.parsed, ⟨.get, some (ascii "H"), 1, some (ascii "/magic-call/shutdown"), 20⟩,
    [⟨ascii "Authorization", value⟩], ⟨none, 0⟩⟩

theorem check_exact_iff_word :
    Exact (examined (ascii "word" ++ [0]) smallHost.authorizationCode authorizationCodeLength)
      .tlsSocket smallHost ⟨true, .information⟩ (magicRequest (ascii "word")) freshResponse
      (ascii "word") := by
  obtain ⟨buffer, ⟨hlength, hcode⟩, -⟩ : ∃! buffer, buffer.length = 3 * 1 ∧
      getAuthorizationCode buffer = some smallHost.authorizationCode :=
    words_unique ⟨by decide, by decide +kernel⟩
  have htype : FileDescriptorType.tlsSocket ≠ .tcpSocket := by decide
  have hmagic : strncmp (urlOf (magicRequest (ascii "word"))) (ascii "/magic-call/") 12 = .eq := by
    decide
  refine (check_exact_iff (by decide) htype ⟨true, .information⟩ hlength hcode hmagic rfl).1.mpr ?_
  decide

def longerValue : List UInt8 := smallHost.authorizationCode ++ [66]

/-- The code with one byte more behind it is let through. Of a short value, bytes behind its NUL
are within the length of the comparison. -/
theorem longer_value_authorized :
    (httpRequestFromBuffer (httpRequestInitialize freshBlock) (magicText longerValue)
        (magicText longerValue).length = some (.succeed, magicRequest longerValue) ∧
      ¬ Exact (examined (longerValue ++ [0]) smallHost.authorizationCode authorizationCodeLength)
        .tlsSocket smallHost ⟨true, .information⟩ (magicRequest longerValue) freshResponse
        longerValue) ∧
    ¬ Exact authorizationCodeLength .tlsSocket smallHost ⟨true, .information⟩
      (magicRequest (ascii "word")) freshResponse (ascii "word") := by
  refine ⟨⟨by decide +kernel, fun h => ?_⟩, fun h => absurd h.inside (by decide)⟩
  have htype : FileDescriptorType.tlsSocket ≠ .tcpSocket := by decide
  have hmagic : strncmp (urlOf (magicRequest longerValue)) (ascii "/magic-call/") 12 = .eq := by
    decide
  have htreated : TreatedAsAuthorized .tlsSocket smallHost ⟨true, .information⟩
      (magicRequest longerValue) freshResponse :=
    (treated_iff (by decide) htype hmagic rfl).mpr (by decide)
  exact absurd (h.authorized.mp htreated) (by decide)

end Hss.Authorization
