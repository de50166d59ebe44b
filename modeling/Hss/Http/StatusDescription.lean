import Hss.Http.Encoding
import Mathlib.Data.List.Chain

namespace Hss.StatusDescription

open Hss.CString Hss.Response Hss.Encoding

inductive DescriptionCall
  | setCode (code : HttpResponseCode) (description : Option (List UInt8))
  | destroy
  deriving DecidableEq, Repr

def DescriptionCall.run (response : HttpResponse) : DescriptionCall → Option HttpResponse
  | setCode code description => httpResponseSetCode response code description
  | destroy => httpResponseDestroy response

def DescriptionCall.text : DescriptionCall → Option (List UInt8)
  | setCode code description => describes code description
  | destroy => none

def DescriptionCall.SetsCode : DescriptionCall → Prop
  | setCode _ _ => True
  | destroy => False

def Consistent (text : Option (List UInt8)) (stateLine : StateLine) : Prop :=
  stateLine.description = .null ∧ stateLine.descriptionLength = 0 ∨
    ∃ t, text = some t ∧ stateLine.description = .live (cstr t) ∧
      stateLine.descriptionLength = strlen t

variable {response response' : HttpResponse} {calls made : List DescriptionCall}
  {call : DescriptionCall} {text : Option (List UInt8)}

/-- What the description is while every call finds what it is allowed to find: the text of the last
call, and NULL where that has none. -/
structure Kept (text : Option (List UInt8)) (stateLine : StateLine) : Prop where
  live : ∀ t, text = some t →
    stateLine.description = .live (cstr t) ∧ stateLine.descriptionLength = strlen t
  null : text = none → stateLine.description = .null ∧ stateLine.descriptionLength = 0

theorem Consistent.usable (h : Consistent text response.stateLine) : Usable response := by
  intro hfreed
  obtain ⟨hnull, -⟩ | ⟨t, -, hlive, -⟩ := h
  · cases hfreed.symm.trans hnull
  · cases hfreed.symm.trans hlive

theorem Kept.consistent {stateLine : StateLine} (h : Kept text stateLine) :
    Consistent text stateLine := by
  cases text with
  | none => exact .inl (h.null rfl)
  | some t => exact .inr ⟨t, rfl, h.live t rfl⟩

theorem Kept.step (h : Kept text response.stateLine)
    (hcall : text ≠ none → call.SetsCode → call.text ≠ none) :
    ∃ response', call.run response = some response' ∧ Kept call.text response'.stateLine := by
  cases call with
  | setCode code description =>
    cases hd : describes code description with
    | some t =>
      refine ⟨_, setCode_described hd h.consistent.usable, fun t' ht => ?_, fun ht => ?_⟩
      · cases hd.symm.trans ht
        exact ⟨rfl, rfl⟩
      · cases hd.symm.trans ht
    | none =>
      obtain ⟨hnull, hlength⟩ := h.null (by_contra fun hne => hcall hne trivial hd)
      refine ⟨_, setCode_undescribed hd h.consistent.usable, fun t ht => ?_, fun _ => ?_⟩
      · cases hd.symm.trans ht
      · rw [if_pos hnull]
        exact ⟨hnull, hlength⟩
  | destroy =>
    refine ⟨httpResponseInitialize response, ?_, fun t ht => ?_, fun _ => ⟨rfl, rfl⟩⟩
    · simp only [DescriptionCall.run, httpResponseDestroy, freeDescription_usable h.consistent.usable,
        Option.bind_eq_bind, Option.bind_some]
      rfl
    · cases ht

end Hss.StatusDescription
