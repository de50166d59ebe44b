import Hss.Http.RangeSpec

namespace Hss.Saturation

open Hss.CString Hss.Range Hss.RangeSpec

/-- The signed values that `parse_single_range` computes with: the numbers it reads,
and the sum behind the last one. -/
def signedValues (representation : List UInt8) : List Int :=
  match representation with
  | [] => []
  | c :: rest =>
    if c = 45 then [(strtoll rest).1]
    else
      match strtoll representation with
      | (start, _ :: d :: after) =>
        if isdigit d then [start, (strtoll (d :: after)).1, (strtoll (d :: after)).1 + 1]
        else [start]
      | (start, _) => [start]

def valuesOf : ByteRange → List Int
  | .between first last => [(saturated first : Int), saturated last, saturated last + 1]
  | .since first => [(saturated first : Int)]
  | .suffix length => [(saturated length : Int)]

/-- The positions of a spec without any wrap-around, in a file of this size. -/
def exact (size : Nat) : ByteRange → Range
  | .between first last => ⟨saturated first, saturated last + 1⟩
  | .since first => ⟨saturated first, size⟩
  | .suffix length =>
    if saturated length ≤ size then ⟨size - saturated length, size⟩ else fullRange

/-- The arithmetic on this spec, which `text` begins with, is that of the integers. -/
structure Exact (size : Nat) (spec : ByteRange) (text : List UInt8) : Prop where
  signed : ∀ v ∈ signedValues text, llongMin ≤ v ∧ v ≤ llongMax
  converted : ∀ v ∈ signedValues text, (toSize v : Int) = v
  positions : parseSingleRange text size =
    some (if (exact size spec).Nonempty then exact size spec else fullRange)
  caught : ∀ length, spec = .suffix length → size < saturated length →
    parseSingleRange text size = some fullRange

variable {spec : ByteRange} {size : Nat} {c : UInt8}

theorem signedValues_text (h : spec.Grammatical) (hc : isdigit c = false) (rest : List UInt8) :
    signedValues (spec.text ++ c :: rest) = valuesOf spec := by
  have hdash : isdigit 45 = false := by decide
  cases spec with
  | suffix length =>
    have hn : Digits length := h
    simp only [ByteRange.text, List.cons_append, signedValues, if_true, strtoll_digits hn hc,
      valuesOf]
  | since first =>
    have hn : Digits first := h
    obtain ⟨d, s, rfl, hd, hs⟩ := hn.read hdash (c :: rest)
    have hminus := (isdigit_facts hd).2.1
    rw [ByteRange.text, valuesOf, List.append_assoc, List.singleton_append, List.cons_append]
    simp only [signedValues, if_neg hminus, hs, hc, Bool.false_eq_true, if_false]
  | between first last =>
    obtain ⟨hn, hl⟩ : Digits first ∧ Digits last := h
    obtain ⟨e, t, rfl, he, ht⟩ := hl.read hc rest
    obtain ⟨d, s, rfl, hd, hs⟩ := hn.read hdash (e :: (t ++ c :: rest))
    have hminus := (isdigit_facts hd).2.1
    rw [ByteRange.text, valuesOf, List.append_assoc, List.cons_append, List.cons_append,
      List.cons_append]
    simp only [signedValues, if_neg hminus, hs, he, if_true, ht]

theorem saturated_facts (ds : List UInt8) :
    (llongMin ≤ (saturated ds : Int) ∧ (saturated ds : Int) ≤ llongMax) ∧
      (toSize (saturated ds) : Int) = saturated ds := by
  have hle : saturated ds ≤ 2 ^ 63 - 1 := Nat.min_le_left _ _
  refine ⟨?_, congrArg _ (toSize_natCast (saturated_lt_sizeMax ds))⟩
  simp only [llongMin, llongMax]
  omega

theorem saturated_lt_iff (ds : List UInt8) : saturated ds < 2 ^ 63 - 1 ↔ decimal ds < 2 ^ 63 - 1 := by
  simp only [saturated]
  omega

/-- A suffix that is longer than the file begins, after the wrap-around, behind its end. -/
theorem reading_suffix (hsize : size < sizeMax) (length : List UInt8) :
    ∃ range, (ByteRange.suffix length).reading size = some range ∧
      (if range.Nonempty then range else fullRange) =
        if (exact size (.suffix length)).Nonempty then exact size (.suffix length) else fullRange := by
  refine ⟨_, rfl, ?_⟩
  rw [toSize_sub hsize (saturated_lt_sizeMax length), exact]
  have hlt := saturated_lt_sizeMax length
  by_cases hle : saturated length ≤ size
  · rw [if_pos hle, if_pos hle]
  · have hwrap : ¬ sizeMax + size - saturated length < size := by omega
    simp only [if_neg hle, Interval.Nonempty, if_neg hwrap, fullRange, Nat.lt_irrefl, if_false]

/-- The arithmetic is exact unless a last position has no successor among the signed
values. -/
theorem arithmetic_exact_iff (h : spec.Grammatical) (hsize : size < 2 ^ 63)
    (hc : isdigit c = false) (rest : List UInt8) :
    Exact size spec (spec.text ++ c :: rest) ↔
      ∀ first last, spec = .between first last → decimal last < 2 ^ 63 - 1 := by
  have hvalues := signedValues_text h hc rest
  have hread := readSingleRange_text h size hc rest
  have hsize' : size < sizeMax := Nat.lt_trans hsize (by decide)
  constructor
  · rintro hexact first last rfl
    have hsum := (hexact.signed ((saturated last : Int) + 1) (by simp [hvalues, valuesOf])).2
    rw [← saturated_lt_iff]
    simp only [llongMax] at hsum
    omega
  · intro hlast
    cases spec with
    | suffix length =>
      obtain ⟨hsigned, hconverted⟩ := saturated_facts length
      obtain ⟨range, hreading, hsame⟩ := reading_suffix hsize' length
      have hresult := parseSingleRange_of_read (hread.trans hreading)
      rw [hsame] at hresult
      refine ⟨by simpa [hvalues, valuesOf] using hsigned,
        by simpa [hvalues, valuesOf] using hconverted, hresult, ?_⟩
      rintro length' ⟨⟩ hlong
      have hempty : exact size (.suffix length) = fullRange := if_neg (Nat.not_le_of_lt hlong)
      rw [hresult, hempty, ite_self]
    | since first =>
      obtain ⟨hsigned, hconverted⟩ := saturated_facts first
      refine ⟨by simpa [hvalues, valuesOf] using hsigned,
        by simpa [hvalues, valuesOf] using hconverted, parseSingleRange_of_read hread, ?_⟩
      rintro length ⟨⟩
    | between first last =>
      have hlt := (saturated_lt_iff last).mpr (hlast first last rfl)
      obtain ⟨hfirst, hfirst'⟩ := saturated_facts first
      obtain ⟨hsigned, hconverted⟩ := saturated_facts last
      have hsum : (saturated last : Int) + 1 ≤ llongMax := by
        simp only [llongMax]
        omega
      have hsum' : (toSize ((saturated last : Int) + 1) : Int) = saturated last + 1 :=
        congrArg _ (toSize_natCast (n := saturated last + 1)
          (Nat.lt_trans (Nat.succ_lt_succ hlt) (by decide)))
      rw [ByteRange.reading, if_neg (Nat.ne_of_lt hlt)] at hread
      refine ⟨?_, ?_, parseSingleRange_of_read hread, ?_⟩
      · simp only [hvalues, valuesOf, List.forall_mem_cons, List.not_mem_nil, false_implies,
          implies_true, and_true]
        exact ⟨hfirst, hsigned, Int.le_trans hsigned.1 (by omega), hsum⟩
      · simp only [hvalues, valuesOf, List.forall_mem_cons, List.not_mem_nil, false_implies,
          implies_true, and_true]
        exact ⟨hfirst', hconverted, hsum'⟩
      · rintro length ⟨⟩

theorem arithmetic_exact_iff_long_suffix :
    Exact 10 (.suffix (ascii "99999999999999999999")) (ascii "-99999999999999999999" ++ [0]) := by
  have hspec : (ByteRange.suffix (ascii "99999999999999999999")).Grammatical :=
    ⟨by decide +kernel, by decide +kernel⟩
  have hend : isdigit 0 = false := by decide
  exact (arithmetic_exact_iff hspec (by decide) hend []).mpr nofun

/-- The sum behind the greatest last position is not a signed value. -/
theorem last_position_overflows :
    ¬ Exact 10 (.between (ascii "0") (ascii "9223372036854775807"))
      (ascii "0-9223372036854775807" ++ [0]) ∧
    parseSingleRange (ascii "0-9223372036854775807" ++ [0]) 10 = none := by
  refine ⟨fun h => ?_, by decide⟩
  exact absurd (h.signed (2 ^ 63) (by decide)).2 (by decide)

end Hss.Saturation
