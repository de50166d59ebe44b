import Hss.CString
import Hss.Lib.OrderedList

namespace Hss.Headers

open Hss.CString

inductive HttpErrorCode
  | requestNoValidData
  | parseInvalidRequestSyntax
  | insufficientBufferSize
  | incompleteRequest
  | unsupportedMethod
  | duplicateHeaderKey
  | noSuchHeader
  | succeed
  deriving DecidableEq, Repr

structure Header where
  key : List UInt8
  value : List UInt8
  deriving DecidableEq, Repr

/-- A `struct body`: NULL, or the contents of its block, and the length. -/
structure Body where
  body : Option (List UInt8)
  length : Nat
  deriving DecidableEq, Repr

def destroyBody (_ : Body) : Body := ⟨none, 0⟩

/-- What `lookup_header` hands back: the entry found, and the list cut at the
link `*prev`. -/
structure Lookup where
  target : Option Header
  passed : List Header
  rest : List Header

def lookupHeader (headers : List Header) (name : List UInt8) : Lookup :=
  let passed := headers.takeWhile fun h => strcmp h.key name = .lt
  let rest := headers.dropWhile fun h => strcmp h.key name = .lt
  ⟨rest.head?.filter fun h => strcmp h.key name = .eq, passed, rest⟩

def insertHeader (headers : List Header) (header : Header) : HttpErrorCode × List Header :=
  let found := lookupHeader headers header.key
  match found.target with
  | some _ => (.duplicateHeaderKey, headers)
  | none => (.succeed, found.passed ++ header :: found.rest)

def keyOf (h : Header) : List UInt8 := cstr h.key

@[simp] theorem keyOf_cstr (key value : List UInt8) : keyOf ⟨cstr key, value⟩ = cstr key :=
  cstr_cstr key

/-- The order `insert_header` keeps the list in. -/
def Ordered (headers : List Header) : Prop := OrderedList.Sorted keyOf headers

theorem lookupHeader_passed (headers : List Header) (name : List UInt8) :
    (lookupHeader headers name).passed = OrderedList.before keyOf (cstr name) headers :=
  congrArg (List.takeWhile · headers) (funext fun _ => decide_eq_decide.mpr strcmp_lt_iff)

theorem lookupHeader_rest (headers : List Header) (name : List UInt8) :
    (lookupHeader headers name).rest = OrderedList.since keyOf (cstr name) headers :=
  congrArg (List.dropWhile · headers) (funext fun _ => decide_eq_decide.mpr strcmp_lt_iff)

theorem lookupHeader_target_isSome {headers : List Header} (h : Ordered headers) (name : List UInt8) :
    (lookupHeader headers name).target.isSome ↔ ∃ e ∈ headers, keyOf e = cstr name := by
  rw [← OrderedList.head_since_iff h, ← lookupHeader_rest]
  simp only [lookupHeader, strcmp_eq_iff, keyOf]
  cases (headers.dropWhile fun h => strcmp h.key name = .lt).head? with
  | none => simp
  | some e => by_cases he : cstr e.key = cstr name <;> simp [Option.filter, he]

theorem lookupHeader_target_eq {headers : List Header} (h : Ordered headers) {name : List UInt8}
    {e : Header} :
    (lookupHeader headers name).target = some e ↔ e ∈ headers ∧ keyOf e = cstr name := by
  have hiff : ∀ e, (lookupHeader headers name).target = some e → e ∈ headers ∧ keyOf e = cstr name := by
    intro e he
    obtain ⟨hhead, hkey⟩ := Option.filter_eq_some_iff.mp he
    exact ⟨(List.dropWhile_sublist _).subset (List.mem_of_head? hhead),
      strcmp_eq_iff.mp (by simpa using hkey)⟩
  refine ⟨hiff e, fun ⟨he, hkey⟩ => ?_⟩
  obtain ⟨e', he'⟩ := Option.isSome_iff_exists.mp
    ((lookupHeader_target_isSome h name).mpr ⟨e, he, hkey⟩)
  obtain ⟨hmem', hkey'⟩ := hiff e' he'
  rw [he', OrderedList.Sorted.eq_of_key h hmem' he (hkey'.trans hkey.symm)]

theorem lookupHeader_append {passed rest : List Header} {e : Header} {name : List UInt8}
    (hpassed : ∀ h ∈ passed, strcmp h.key name = .lt) (he : strcmp e.key name = .eq) :
    (lookupHeader (passed ++ e :: rest) name).target = some e := by
  have hall : ∀ h ∈ passed, decide (strcmp h.key name = .lt) = true := by simpa using hpassed
  simp only [lookupHeader]
  rw [List.dropWhile_append_of_pos hall, List.dropWhile_cons_of_neg (by simp [he])]
  simp [he]

theorem insertHeader_duplicate {headers : List Header} {header : Header} (h : Ordered headers)
    (hdup : ∃ e ∈ headers, keyOf e = keyOf header) :
    insertHeader headers header = (.duplicateHeaderKey, headers) := by
  obtain ⟨e, he⟩ := Option.isSome_iff_exists.mp ((lookupHeader_target_isSome h header.key).mpr hdup)
  simp only [insertHeader, he]

theorem insertHeader_new {headers : List Header} {header : Header} (h : Ordered headers)
    (hnew : ∀ e ∈ headers, keyOf e ≠ keyOf header) :
    ∃ headers', insertHeader headers header = (.succeed, headers') ∧ Ordered headers' ∧
      ∀ e, e ∈ headers' ↔ e = header ∨ e ∈ headers := by
  have hnone : (lookupHeader headers header.key).target = none := by
    rw [← Option.not_isSome_iff_eq_none, lookupHeader_target_isSome h]
    rintro ⟨e, he, hk⟩
    exact hnew e he hk
  refine ⟨_, by simp only [insertHeader, hnone]; rfl, ?_, fun e => ?_⟩
  · rw [lookupHeader_passed, lookupHeader_rest]
    exact h.insert rfl hnew
  · rw [lookupHeader_passed, lookupHeader_rest]
    exact OrderedList.mem_insert

end Hss.Headers
