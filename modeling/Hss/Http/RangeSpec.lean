import Hss.Http.Range
import Hss.Lib.StreamParser

namespace Hss.RangeSpec

open Hss.CString Hss.Range Hss.StreamParser Hss.Interval

structure Number (digits : List UInt8) : Prop where
  nonempty : digits ≠ []
  digit : ∀ d ∈ digits, isdigit d = true
  bound : decimal digits < 2 ^ 63 - 1

instance (digits : List UInt8) : Decidable (Number digits) :=
  decidable_of_iff (digits ≠ [] ∧ digits.all isdigit = true ∧ decimal digits < 2 ^ 63 - 1)
    ⟨fun h => ⟨h.1, List.all_eq_true.mp h.2.1, h.2.2⟩,
      fun h => ⟨h.nonempty, List.all_eq_true.mpr h.digit, h.bound⟩⟩

structure Digits (digits : List UInt8) : Prop where
  nonempty : digits ≠ []
  digit : ∀ d ∈ digits, isdigit d = true

theorem Number.digits {ds : List UInt8} (h : Number ds) : Digits ds := ⟨h.nonempty, h.digit⟩

def saturated (digits : List UInt8) : Nat := min (2 ^ 63 - 1) (decimal digits)

theorem Number.saturated {ds : List UInt8} (h : Number ds) : saturated ds = decimal ds :=
  min_eq_right (Nat.le_of_lt h.bound)

inductive ByteRange
  | between (first last : List UInt8)
  | since (first : List UInt8)
  | suffix (length : List UInt8)
  deriving DecidableEq

namespace ByteRange

def text : ByteRange → List UInt8
  | between first last => first ++ 45 :: last
  | since first => first ++ [45]
  | suffix length => 45 :: length

def WellFormed : ByteRange → Prop
  | between first last => Number first ∧ Number last
  | since first => Number first
  | suffix length => Number length

def Grammatical : ByteRange → Prop
  | between first last => Digits first ∧ Digits last
  | since first => Digits first
  | suffix length => Digits length

theorem WellFormed.grammatical {spec : ByteRange} (h : spec.WellFormed) : spec.Grammatical := by
  cases spec with
  | between first last => exact ⟨Number.digits h.1, Number.digits h.2⟩
  | since first => exact Number.digits h
  | suffix length => exact Number.digits h

/-- What the code reads of a spec; `none` is the sum that does not fit. -/
def reading (size : Nat) : ByteRange → Option Range
  | between first last =>
    if saturated last = 2 ^ 63 - 1 then none else some ⟨saturated first, saturated last + 1⟩
  | since first => some ⟨saturated first, size⟩
  | suffix length => some ⟨toSize (size - saturated length), size⟩

/-- The positions asked for in a file of this size. A suffix longer than the
file asks for nothing. -/
def interval (size : Nat) : ByteRange → Range
  | between first last => ⟨decimal first, decimal last + 1⟩
  | since first => ⟨decimal first, size⟩
  | suffix length => if decimal length ≤ size then ⟨size - decimal length, size⟩ else fullRange

def resolve (size : Nat) (spec : ByteRange) : Range :=
  if (spec.interval size).Nonempty then spec.interval size else fullRange

end ByteRange

structure Item where
  leading : List UInt8
  spec : ByteRange
  trailing : List UInt8

def Item.text (i : Item) : List UInt8 := i.leading ++ (i.spec.text ++ i.trailing)

structure Item.WellFormed (i : Item) : Prop where
  leading : Blank i.leading
  spec : i.spec.WellFormed
  trailing : Blank i.trailing

def itemsText : List Item → List UInt8
  | [] => []
  | [i] => i.text
  | i :: j :: items => i.text ++ 44 :: itemsText (j :: items)

structure RangeValue where
  leading : List UInt8
  items : List Item

def RangeValue.text (v : RangeValue) : List UInt8 :=
  v.leading ++ (ascii "bytes=" ++ itemsText v.items)

structure RangeValue.WellFormed (v : RangeValue) : Prop where
  leading : Blank v.leading
  items : ∀ i ∈ v.items, i.WellFormed
  nonempty : v.items ≠ []

def RangeValue.intervals (size : Nat) (v : RangeValue) : List Range :=
  v.items.map (·.spec.interval size)

theorem isdigit_facts {d : UInt8} (h : isdigit d = true) :
    isspace d = false ∧ d ≠ 45 ∧ d ≠ 43 ∧ d ≠ 44 ∧ d ≠ 0 := by
  simp only [isdigit, Bool.and_eq_true, decide_eq_true_eq, UInt8.le_iff_toNat_le] at h
  have hne : ∀ k : UInt8, k.toNat < 48 → d ≠ k := by
    rintro k hk rfl
    exact absurd h.1 (Nat.not_le_of_lt hk)
  refine ⟨?_, hne _ (by decide), hne _ (by decide), hne _ (by decide), hne _ (by decide)⟩
  have h32 := hne 32 (by decide)
  simp only [isspace, UInt8.le_iff_toNat_le, Bool.or_eq_false_iff, decide_eq_false_iff_not,
    Bool.and_eq_false_iff]
  refine ⟨h32, Or.inr fun h13 => ?_⟩
  have h48 : 48 ≤ d.toNat := h.1
  have h13' : d.toNat ≤ 13 := h13
  omega

theorem strtoll_digits {ds : List UInt8} {c : UInt8} (h : Digits ds) (hc : isdigit c = false)
    (rest : List UInt8) : strtoll (ds ++ c :: rest) = ((saturated ds : Int), c :: rest) := by
  obtain ⟨d, ds', hds⟩ := List.exists_cons_of_ne_nil h.nonempty
  obtain ⟨hspace, hminus, hplus, -, -⟩ := isdigit_facts (h.digit d (by simp [hds]))
  have hskip : (ds ++ c :: rest).dropWhile isspace = ds ++ c :: rest := by
    simp [hds, hspace]
  have hhead : (ds ++ c :: rest).head? = some d := by simp [hds]
  obtain ⟨htake, -⟩ := takeWhile_append_sep (w := c :: rest) h.digit (by simpa using hc)
  simp only [strtoll, hskip, hhead, htake, Option.some.injEq, hminus, hplus, or_self, if_false,
    if_neg h.nonempty, List.drop_left, llongMax, llongMin, saturated, Prod.mk.injEq, and_true]
  omega

theorem toSize_natCast {n : Nat} (h : n < sizeMax) : toSize n = n := by
  simp only [toSize, sizeMax] at *
  omega

/-- A suffix behind the start of the file wraps around to a start that is not
below its size. -/
theorem toSize_sub {size n : Nat} (hsize : size < sizeMax) (hn : n < sizeMax) :
    toSize (size - n) = if n ≤ size then size - n else sizeMax + size - n := by
  simp only [toSize, sizeMax] at *
  split <;> omega

theorem Number.lt_sizeMax {ds : List UInt8} (h : Number ds) : decimal ds < sizeMax := by
  have hbound := h.bound
  simp only [sizeMax]
  omega

theorem saturated_lt_sizeMax (ds : List UInt8) : saturated ds < sizeMax :=
  Nat.lt_of_le_of_lt (Nat.min_le_left _ _) (by decide)

theorem readSingleRange_digit {d : UInt8} {s after : List UInt8} {c : UInt8} {size start : Nat}
    (hd : isdigit d = true) (hs : strtoll (d :: s) = ((start : Int), 45 :: c :: after))
    (hstart : start < sizeMax) : readSingleRange (d :: s) size =
      if isdigit c then
        if (strtoll (c :: after)).1 = llongMax then none
        else some ⟨start, toSize ((strtoll (c :: after)).1 + 1)⟩
      else some ⟨start, size⟩ := by
  have hminus : d ≠ 45 := (isdigit_facts hd).2.1
  simp only [readSingleRange, if_neg hminus, hs, toSize_natCast hstart]

theorem Digits.read {ds : List UInt8} (h : Digits ds) {c : UInt8} (hc : isdigit c = false)
    (rest : List UInt8) : ∃ d s, ds = d :: s ∧ isdigit d = true ∧
      strtoll (d :: (s ++ c :: rest)) = ((saturated ds : Int), c :: rest) := by
  obtain ⟨d, s, rfl⟩ := List.exists_cons_of_ne_nil h.nonempty
  exact ⟨d, s, rfl, h.digit d List.mem_cons_self, strtoll_digits h hc rest⟩

theorem readSingleRange_text {spec : ByteRange} (h : spec.Grammatical) (size : Nat) {c : UInt8}
    (hc : isdigit c = false) (rest : List UInt8) :
    readSingleRange (spec.text ++ c :: rest) size = spec.reading size := by
  have hdash : isdigit 45 = false := by decide
  cases spec with
  | suffix length =>
    have hn : Digits length := h
    simp only [ByteRange.text, List.cons_append, readSingleRange, if_true, strtoll_digits hn hc,
      ByteRange.reading]
  | since first =>
    have hn : Digits first := h
    obtain ⟨d, s, rfl, hd, hs⟩ := hn.read hdash (c :: rest)
    rw [ByteRange.text, ByteRange.reading, List.append_assoc, List.singleton_append,
      List.cons_append, readSingleRange_digit hd hs (saturated_lt_sizeMax _), if_neg (by simp [hc])]
  | between first last =>
    obtain ⟨hn, hl⟩ : Digits first ∧ Digits last := h
    obtain ⟨e, t, rfl, he, ht⟩ := hl.read hc rest
    obtain ⟨d, s, rfl, hd, hs⟩ := hn.read hdash (e :: (t ++ c :: rest))
    have hmax : ((saturated (e :: t) : Int) = llongMax) ↔ saturated (e :: t) = 2 ^ 63 - 1 := by
      simp only [llongMax]
      omega
    have hsum : toSize ((saturated (e :: t) : Int) + 1) = saturated (e :: t) + 1 :=
      toSize_natCast (n := saturated (e :: t) + 1)
        (Nat.lt_of_le_of_lt (Nat.succ_le_succ (Nat.min_le_left _ _)) (by decide))
    rw [ByteRange.text, ByteRange.reading, List.append_assoc, List.cons_append, List.cons_append,
      List.cons_append, readSingleRange_digit hd hs (saturated_lt_sizeMax _), if_pos he, ht, hsum]
    simp only [hmax]

theorem parseSingleRange_of_read {m : List UInt8} {size : Nat} {r : Range}
    (h : readSingleRange m size = some r) :
    parseSingleRange m size = some (if r.Nonempty then r else fullRange) := by
  have hiff : r.start ≥ r.end_ ↔ ¬ r.Nonempty := Nat.not_lt.symm
  simp only [parseSingleRange, h, Option.bind_eq_bind, Option.bind_some, hiff, ite_not]

theorem parseSingleRange_text {spec : ByteRange} (h : spec.WellFormed) {size : Nat}
    (hsize : size < sizeMax) {c : UInt8} (hc : isdigit c = false) (rest : List UInt8) :
    parseSingleRange (spec.text ++ c :: rest) size = some (spec.resolve size) := by
  have hread := readSingleRange_text h.grammatical size hc rest
  cases spec with
  | suffix length =>
    have hn : Number length := h
    have hlt := hn.lt_sizeMax
    rw [ByteRange.reading, hn.saturated, toSize_sub hsize hlt] at hread
    rw [parseSingleRange_of_read hread, ByteRange.resolve]
    by_cases hle : decimal length ≤ size
    · simp only [ByteRange.interval, if_pos hle]
    · have hwrap : ¬ sizeMax + size - decimal length < size := by omega
      simp only [ByteRange.interval, if_neg hle, Interval.Nonempty, if_neg hwrap, fullRange,
        Nat.lt_irrefl, if_false]
  | since first =>
    have hn : Number first := h
    rw [ByteRange.reading, hn.saturated] at hread
    exact parseSingleRange_of_read hread
  | between first last =>
    obtain ⟨hn, hl⟩ : Number first ∧ Number last := h
    rw [ByteRange.reading, hn.saturated, hl.saturated, if_neg (Nat.ne_of_lt hl.bound)] at hread
    exact parseSingleRange_of_read hread

theorem isspace_facts {c : UInt8} (h : isspace c = true) : isdigit c = false ∧ c ≠ 44 ∧ c ≠ 0 := by
  have hne : ∀ k : UInt8, isspace k = false → c ≠ k := by
    rintro k hk rfl
    rw [h] at hk
    cases hk
  refine ⟨?_, hne 44 (by decide), hne 0 (by decide)⟩
  cases hd : isdigit c with
  | false => rfl
  | true => rw [(isdigit_facts hd).1] at h; cases h

def Inside (b : List UInt8) : Prop := ∀ c ∈ b, c ≠ 44 ∧ c ≠ 0

theorem Number.inside {ds : List UInt8} (h : Number ds) : Inside ds := fun d hd =>
  (isdigit_facts (h.digit d hd)).2.2.2

theorem Blank.inside {b : List UInt8} (h : Blank b) : Inside b := fun c hc =>
  (isspace_facts (h c hc)).2

theorem Inside.append {a b : List UInt8} (ha : Inside a) (hb : Inside b) : Inside (a ++ b) := by
  intro c hc
  obtain hc | hc := List.mem_append.mp hc
  · exact ha c hc
  · exact hb c hc

theorem inside_minus : Inside [45] := by
  intro c hc
  rw [List.mem_singleton.mp hc]
  decide

theorem ByteRange.WellFormed.inside {spec : ByteRange} (h : spec.WellFormed) : Inside spec.text := by
  cases spec with
  | suffix length => exact inside_minus.append (Number.inside h)
  | since first => exact (Number.inside h).append inside_minus
  | between first last => exact (Number.inside h.1).append (inside_minus.append (Number.inside h.2))

theorem Item.WellFormed.inside {i : Item} (h : i.WellFormed) : Inside i.text :=
  (Blank.inside h.leading).append (h.spec.inside.append (Blank.inside h.trailing))

theorem ByteRange.WellFormed.head {spec : ByteRange} (h : spec.WellFormed) (rest : List UInt8) :
    ∀ c, (spec.text ++ rest).head? = some c → isspace c = false := by
  have hnumber : ∀ {ds : List UInt8} (after : List UInt8), Number ds →
      ∀ c, (ds ++ after).head? = some c → isspace c = false := by
    intro ds after hn c hc
    obtain ⟨d, ds', rfl⟩ := List.exists_cons_of_ne_nil hn.nonempty
    cases hc
    exact (isdigit_facts (hn.digit _ List.mem_cons_self)).1
  cases spec with
  | suffix length =>
    intro c hc
    cases hc
    decide
  | since first =>
    rw [ByteRange.text, List.append_assoc]
    exact hnumber _ h
  | between first last =>
    rw [ByteRange.text, List.append_assoc]
    exact hnumber _ h.1

theorem parseRanges_item {i : Item} (h : i.WellFormed) {size n : Nat} (hsize : size < sizeMax)
    {c : UInt8} (hc : c = 44 ∨ c = 0) (rest : List UInt8) :
    parseRanges size (n + 1) (i.text ++ c :: rest) =
      (parseRanges size n rest).map (i.spec.resolve size :: ·) := by
  have hskip : (i.text ++ c :: rest).dropWhile isspace =
      i.spec.text ++ (i.trailing ++ c :: rest) := by
    rw [Item.text, List.append_assoc, List.append_assoc]
    exact (takeWhile_append_sep h.leading (h.spec.head _)).2
  have hread : parseSingleRange (i.spec.text ++ (i.trailing ++ c :: rest)) size =
      some (i.spec.resolve size) := by
    cases ht : i.trailing with
    | nil =>
      refine parseSingleRange_text h.spec hsize ?_ rest
      obtain rfl | rfl := hc <;> decide
    | cons b t =>
      exact parseSingleRange_text h.spec hsize
        (isspace_facts (h.trailing b (by simp [ht]))).1 (t ++ c :: rest)
  have hnext : nextSpec (i.spec.text ++ (i.trailing ++ c :: rest)) = rest := by
    have hinside := h.spec.inside.append (Blank.inside h.trailing)
    rw [nextSpec, ← List.append_assoc, (takeWhile_append_sep ?_ ?_).2]
    · rfl
    · intro d hd
      simpa using hinside d hd
    · rintro d ⟨⟩
      obtain rfl | rfl := hc <;> rfl
  simp only [parseRanges, hskip, hread, hnext, Option.bind_eq_bind, Option.bind_some]
  cases parseRanges size n rest <;> rfl

theorem parseRanges_items {items : List Item} (h : ∀ i ∈ items, i.WellFormed) {size : Nat}
    (hsize : size < sizeMax) (hne : items ≠ []) (rest : List UInt8) :
    parseRanges size items.length (itemsText items ++ 0 :: rest) =
      some (items.map (·.spec.resolve size)) := by
  induction items with
  | nil => exact absurd rfl hne
  | cons i items ih =>
    have hi := h i List.mem_cons_self
    cases items with
    | nil =>
      rw [itemsText, List.length_singleton, parseRanges_item hi hsize (.inr rfl)]
      rfl
    | cons j items =>
      rw [itemsText, List.append_assoc, List.cons_append, List.length_cons,
        parseRanges_item hi hsize (.inl rfl),
        ih (fun k hk => h k (List.mem_cons_of_mem i hk)) (List.cons_ne_nil _ _)]
      rfl

theorem count_itemsText {items : List Item} (h : ∀ i ∈ items, i.WellFormed) (hne : items ≠ []) :
    1 + (itemsText items).count 44 = items.length ∧ 0 ∉ itemsText items := by
  induction items with
  | nil => exact absurd rfl hne
  | cons i items ih =>
    have hi := (h i List.mem_cons_self).inside
    have hcomma : i.text.count 44 = 0 := List.count_eq_zero.mpr fun hmem => (hi 44 hmem).1 rfl
    have hnul : 0 ∉ i.text := fun hmem => (hi 0 hmem).2 rfl
    cases items with
    | nil => exact ⟨by rw [itemsText, hcomma]; rfl, hnul⟩
    | cons j items =>
      obtain ⟨hcount, hnuls⟩ :=
        ih (fun k hk => h k (List.mem_cons_of_mem i hk)) (List.cons_ne_nil _ _)
      constructor
      · rw [itemsText, List.count_append, hcomma, List.count_cons_self, List.length_cons, ← hcount]
        omega
      · simp only [itemsText, List.mem_append, List.mem_cons, not_or]
        exact ⟨hnul, by decide, hnuls⟩

theorem parseRange_text {v : RangeValue} (h : v.WellFormed) {size : Nat} (hsize : size < sizeMax)
    (rest : List UInt8) : ∃ first ranges,
      v.items.map (·.spec.resolve size) = first :: ranges ∧
      parseRange (some (v.text ++ 0 :: rest)) size =
        some (mergeRanges first none (sortRanges (first :: ranges))) := by
  obtain ⟨i, items, hitems⟩ := List.exists_cons_of_ne_nil h.nonempty
  refine ⟨i.spec.resolve size, items.map (·.spec.resolve size), by rw [hitems, List.map_cons], ?_⟩
  have hskip : (v.text ++ 0 :: rest).dropWhile isspace =
      ascii "bytes=" ++ (itemsText v.items ++ 0 :: rest) := by
    rw [RangeValue.text, List.append_assoc, List.append_assoc]
    refine (takeWhile_append_sep h.leading ?_).2
    rintro c ⟨⟩
    decide
  have hunit : strncmp (ascii "bytes=" ++ (itemsText v.items ++ 0 :: rest)) (ascii "bytes=") 6 =
      .eq := rfl
  have hdrop : (ascii "bytes=" ++ (itemsText v.items ++ 0 :: rest)).drop 6 =
      itemsText v.items ++ 0 :: rest := rfl
  obtain ⟨hcount, hnul⟩ := count_itemsText h.items h.nonempty
  have hcstr : cstr (itemsText v.items ++ 0 :: rest) = itemsText v.items :=
    cstr_append_nul hnul rest
  have hranges : parseRanges size (1 + (itemsText v.items).count 44)
      (itemsText v.items ++ 0 :: rest) =
        some (i.spec.resolve size :: items.map (·.spec.resolve size)) := by
    rw [hcount, parseRanges_items h.items hsize h.nonempty, hitems, List.map_cons]
  simp only [parseRange, hskip, hunit, hdrop, hcstr, hranges, ne_eq, not_true, if_false]

theorem compareRange_le_iff {r s : Range} : compareRange r s ≠ .gt ↔ r.Le s := by
  simp only [compareRange, Interval.Le]
  split
  · rename_i hne
    split
    · simp [*]
    · have hgt : ¬ r.start < s.start := by assumption
      simp [hne, hgt]
  · rename_i heq
    have hstart : r.start = s.start := not_not.mp heq
    split
    · split
      · have hlt : r.end_ < s.end_ := by assumption
        simp [hstart, Nat.le_of_lt hlt]
      · have hge : ¬ r.end_ < s.end_ := by assumption
        have hne : r.end_ ≠ s.end_ := by assumption
        have hnle : ¬ r.end_ ≤ s.end_ := by omega
        simp [hstart, hnle]
    · have hend : r.end_ = s.end_ := not_not.mp (by assumption)
      simp [hstart, hend]

theorem sortRanges_perm (ranges : List Range) : (sortRanges ranges).Perm ranges :=
  List.perm_insertionSort _ ranges

theorem sortRanges_sorted (ranges : List Range) : (sortRanges ranges).Pairwise Interval.Le := by
  have : Std.Total fun r s : Range => compareRange r s ≠ .gt := by
    constructor
    intro r s
    rw [compareRange_le_iff, compareRange_le_iff]
    simp only [Interval.Le]
    omega
  have : IsTrans Range fun r s : Range => compareRange r s ≠ .gt := by
    constructor
    intro r s t
    rw [compareRange_le_iff, compareRange_le_iff, compareRange_le_iff]
    simp only [Interval.Le]
    omega
  exact (List.pairwise_insertionSort _ ranges).imp compareRange_le_iff.mp

/-- What the code leaves of a spec: nothing but `fullRange` is empty. -/
def Checked (r : Range) : Prop := r = fullRange ∨ r.Nonempty

theorem checked_resolve (size : Nat) (spec : ByteRange) : Checked (spec.resolve size) := by
  rw [ByteRange.resolve]
  split
  · exact .inr (by assumption)
  · exact .inl rfl

theorem Checked.full_iff {r : Range} (h : Checked r) :
    (r.start = 0 ∧ r.end_ = 0) ↔ ¬ r.Nonempty := by
  simp only [Checked, Interval.Nonempty, fullRange] at *
  obtain rfl | h := h
  · simp
  · omega

theorem mergeRanges_cons {r p : Range} {ranges : List Range} {previous : Option Range}
    (hr : Checked r) : mergeRanges p previous (r :: ranges) =
      if r.Nonempty ∧ ∀ q ∈ previous, q.Precedes r then
        mergeRanges (p.absorb r) (some r) ranges
      else fullRange := by
  have hoverlap : previous.any (r.start < ·.end_) = true ↔ ¬ ∀ q ∈ previous, q.Precedes r := by
    cases previous with
    | none => simp
    | some q => simp [Interval.Precedes]
  simp only [mergeRanges, hr.full_iff, hoverlap]
  by_cases hne : r.Nonempty
  · rw [if_neg (not_not.mpr hne)]
    by_cases hprev : ∀ q ∈ previous, q.Precedes r
    · have hgo : r.Nonempty ∧ ∀ q ∈ previous, q.Precedes r := ⟨hne, hprev⟩
      rw [if_neg (not_not.mpr hprev), if_pos hgo, Interval.absorb]
      split
      · rfl
      · split <;> rfl
    · rw [if_pos hprev, if_neg fun h => hprev h.2]
  · rw [if_pos hne, if_neg fun h => hne h.1]

theorem pairwise_precedes_cons_cons {q r : Range} {ranges : List Range} (hr : r.Nonempty) :
    (q :: r :: ranges).Pairwise Interval.Precedes ↔
      q.Precedes r ∧ (r :: ranges).Pairwise Interval.Precedes := by
  rw [List.pairwise_cons]
  refine ⟨fun h => ⟨h.1 r List.mem_cons_self, h.2⟩, fun h => ⟨fun s hs => ?_, h.2⟩⟩
  obtain rfl | hs := List.mem_cons.mp hs
  · exact h.1
  · have hrs := List.rel_of_pairwise_cons h.2 hs
    exact Nat.le_trans h.1 (Nat.le_trans (Nat.le_of_lt hr) hrs)

/-- The loop joins touching ranges, unless one is empty or two neighbours
overlap. -/
theorem mergeRanges_eq {ranges : List Range} {p : Range} {previous : Option Range}
    (hchecked : ∀ r ∈ ranges, Checked r) : mergeRanges p previous ranges =
      if (∀ r ∈ ranges, r.Nonempty) ∧ (previous.toList ++ ranges).Pairwise Interval.Precedes then
        ranges.foldl Interval.absorb p
      else fullRange := by
  induction ranges generalizing p previous with
  | nil => cases previous <;> simp [mergeRanges]
  | cons r ranges ih =>
    have hrest : ∀ s ∈ ranges, Checked s := fun s hs => hchecked s (List.mem_cons_of_mem r hs)
    rw [mergeRanges_cons (hchecked r List.mem_cons_self), ih hrest, List.foldl_cons]
    by_cases hr : r.Nonempty
    · have hcond : ((∀ q ∈ previous, q.Precedes r) ∧ (r :: ranges).Pairwise Interval.Precedes) ↔
          (previous.toList ++ r :: ranges).Pairwise Interval.Precedes := by
        cases previous with
        | none => simp
        | some q => simpa using (pairwise_precedes_cons_cons hr).symm
      have hall : (∀ s ∈ r :: ranges, s.Nonempty) ↔ ∀ s ∈ ranges, s.Nonempty := by
        rw [List.forall_mem_cons, and_iff_right hr]
      by_cases hprev : ∀ q ∈ previous, q.Precedes r
      · have hgo : r.Nonempty ∧ ∀ q ∈ previous, q.Precedes r := ⟨hr, hprev⟩
        rw [if_pos hgo]
        refine if_congr (and_congr hall.symm ?_) rfl rfl
        rw [← hcond, Option.toList_some, List.singleton_append]
        exact (and_iff_right hprev).symm
      · rw [if_neg fun h => hprev h.2, if_neg fun h => hprev (hcond.mpr h.2).1]
    · rw [if_neg fun h => hr h.1, if_neg fun h => hr (h.1 r List.mem_cons_self)]

/-- An accepted list: no interval is empty and no two of them overlap. -/
def Clear (ranges : List Range) : Prop :=
  (∀ r ∈ ranges, r.Nonempty) ∧ ranges.Pairwise Interval.Apart

instance (ranges : List Range) : Decidable (Clear ranges) := inferInstanceAs (Decidable (_ ∧ _))

theorem mergeRanges_sorted {ranges : List Range} {p : Range}
    (hchecked : ∀ r ∈ ranges, Checked r) : mergeRanges p none (sortRanges ranges) =
      if Clear ranges then (sortRanges ranges).foldl Interval.absorb p else fullRange := by
  have hmem : ∀ r, r ∈ sortRanges ranges ↔ r ∈ ranges := fun r => (sortRanges_perm ranges).mem_iff
  rw [mergeRanges_eq fun r hr => hchecked r ((hmem r).mp hr)]
  refine if_congr ?_ rfl rfl
  simp only [Clear, Option.toList_none, List.nil_append, hmem]
  refine and_congr_right fun hne => ?_
  rw [← Interval.pairwise_apart_iff (sortRanges_sorted ranges) fun r hr => hne r ((hmem r).mp hr)]
  exact (sortRanges_perm ranges).pairwise_iff fun {_ _} => Interval.Apart.symm

theorem sortRanges_clear {ranges : List Range} (h : Clear ranges) :
    (∀ r, r ∈ sortRanges ranges ↔ r ∈ ranges) ∧ (∀ r ∈ sortRanges ranges, r.Nonempty) ∧
      (sortRanges ranges).Pairwise Interval.Precedes := by
  have hperm := sortRanges_perm ranges
  have hne : ∀ r ∈ sortRanges ranges, r.Nonempty := fun r hr => h.1 r (hperm.mem_iff.mp hr)
  refine ⟨fun r => hperm.mem_iff, hne, ?_⟩
  rw [← Interval.pairwise_apart_iff (sortRanges_sorted ranges) hne]
  exact (hperm.pairwise_iff fun {_ _} => Interval.Apart.symm).mpr h.2

theorem foldl_absorb_end_le_iff {ranges : List Range} {first : Range} (hclear : Clear ranges)
    (hfirst : first ∈ ranges) (n : Nat) :
    ((sortRanges ranges).foldl Interval.absorb first).end_ ≤ n ↔
      ∀ e, Interval.RightEnd ranges first e → e ≤ n := by
  obtain ⟨hmem, hne, hsorted⟩ := sortRanges_clear hclear
  constructor
  · intro hend e he
    have hle := Interval.rightEnd_le_foldl_absorb ((hmem first).mpr hfirst) hne hsorted
      (he.mono fun r hr => (hmem r).mpr hr)
    exact Nat.le_trans hle hend
  · exact fun h => h _ (Interval.foldl_absorb_rightEnd .first fun r hr => (hmem r).mp hr)

theorem mergeRanges_full_iff {ranges : List Range} {first : Range}
    (hchecked : ∀ r ∈ ranges, Checked r) (hfirst : first ∈ ranges) :
    mergeRanges first none (sortRanges ranges) = fullRange ↔ ¬ Clear ranges := by
  rw [mergeRanges_sorted hchecked]
  by_cases hclear : Clear ranges
  · have hresult := Interval.foldl_absorb_nonempty (hclear.1 first hfirst) (sortRanges_clear hclear).2.1
    have hempty : ¬ fullRange.Nonempty := Nat.lt_irrefl 0
    rw [if_pos hclear]
    exact iff_of_false (fun heq => hempty (heq ▸ hresult)) (not_not.mpr hclear)
  · rw [if_neg hclear]
    exact iff_of_true rfl hclear

theorem not_clear_iff {ranges : List Range} :
    ¬ Clear ranges ↔ (∃ r ∈ ranges, ¬ r.Nonempty) ∨ Interval.Overlapping ranges := by
  constructor
  · intro hclear
    by_cases hne : ∀ r ∈ ranges, r.Nonempty
    · exact .inr ((Interval.overlapping_iff hne).mpr fun hpairs => hclear ⟨hne, hpairs⟩)
    · push Not at hne
      exact .inl hne
  · rintro (⟨r, hr, hne⟩ | hover) hclear
    · exact hne (hclear.1 r hr)
    · exact (Interval.overlapping_iff hclear.1).mp hover hclear.2

theorem checked_parseSingleRange {m : List UInt8} {size : Nat} {r : Range}
    (h : parseSingleRange m size = some r) : Checked r := by
  obtain ⟨read, hread, -⟩ := Option.bind_eq_some_iff.mp h
  rw [parseSingleRange_of_read hread] at h
  cases h
  split
  · exact .inr (by assumption)
  · exact .inl rfl

theorem checked_parseRanges {size n : Nat} {m : List UInt8} {ranges : List Range}
    (h : parseRanges size n m = some ranges) : ∀ r ∈ ranges, Checked r := by
  induction n generalizing m ranges with
  | zero =>
    cases h
    simp
  | succ n ih =>
    obtain ⟨range, hrange, h⟩ := Option.bind_eq_some_iff.mp h
    obtain ⟨rest, hrest, h⟩ := Option.bind_eq_some_iff.mp h
    cases h
    exact List.forall_mem_cons.mpr ⟨checked_parseSingleRange hrange, ih hrest⟩

/-- Of whatever text, only the full range is empty. -/
theorem checked_parseRange {representation : Option (List UInt8)} {size : Nat} {r : Range}
    (h : parseRange representation size = some r) : Checked r := by
  cases representation with
  | none =>
    cases h
    exact .inl rfl
  | some m =>
    simp only [parseRange] at h
    split at h
    · cases h
      exact .inl rfl
    · split at h
      · rename_i first ranges hranges
        have hchecked := checked_parseRanges hranges
        rw [mergeRanges_sorted hchecked] at h
        cases h
        split
        · rename_i hclear
          have hfirst := hclear.1 first List.mem_cons_self
          exact .inr (Interval.foldl_absorb_nonempty hfirst (sortRanges_clear hclear).2.1)
        · exact .inl rfl
      · cases h

def Within (size : Nat) (range : Range) : Prop :=
  range = fullRange ∨ range.start < range.end_ ∧ range.end_ ≤ size

/-- Unless the value is ignored, the run of adjoining specs that begins with the
first one ends inside the file. -/
def RangeValue.Fits (size : Nat) (v : RangeValue) : Prop :=
  Clear (v.intervals size) → ∀ first, (v.intervals size).head? = some first →
    ∀ e, Interval.RightEnd (v.intervals size) first e → e ≤ size

theorem resolve_eq_interval {size : Nat} {spec : ByteRange} (h : (spec.interval size).Nonempty) :
    spec.resolve size = spec.interval size := if_pos h

theorem nonempty_resolve {size : Nat} {spec : ByteRange} (h : (spec.resolve size).Nonempty) :
    (spec.interval size).Nonempty := by
  by_contra hne
  rw [ByteRange.resolve, if_neg hne] at h
  exact absurd h (Nat.lt_irrefl 0)

theorem map_resolve_of_clear {size : Nat} {v : RangeValue} (h : Clear (v.intervals size)) :
    v.items.map (·.spec.resolve size) = v.intervals size :=
  List.map_congr_left fun _ hi => resolve_eq_interval (h.1 _ (List.mem_map_of_mem hi))

theorem clear_map_resolve_iff {size : Nat} {v : RangeValue} :
    Clear (v.items.map (·.spec.resolve size)) ↔ Clear (v.intervals size) := by
  constructor
  · intro h
    have heq : v.items.map (·.spec.resolve size) = v.intervals size :=
      List.map_congr_left fun i hi =>
        resolve_eq_interval (nonempty_resolve (h.1 _ (List.mem_map_of_mem hi)))
    exact heq ▸ h
  · intro h
    rw [map_resolve_of_clear h]
    exact h

theorem parseRange_resolved {v : RangeValue} (h : v.WellFormed) {size : Nat}
    (hsize : size < sizeMax) (rest : List UInt8) : ∃ first,
      (v.items.map (·.spec.resolve size)).head? = some first ∧
      parseRange (some (v.text ++ 0 :: rest)) size =
        some (if Clear (v.items.map (·.spec.resolve size)) then
          (sortRanges (v.items.map (·.spec.resolve size))).foldl Interval.absorb first
        else fullRange) := by
  obtain ⟨first, ranges, hmap, hparse⟩ := parseRange_text h hsize rest
  have hchecked : ∀ r ∈ first :: ranges, Checked r := by
    rw [← hmap]
    intro r hr
    obtain ⟨i, -, rfl⟩ := List.mem_map.mp hr
    exact checked_resolve size i.spec
  rw [mergeRanges_sorted hchecked, ← hmap] at hparse
  exact ⟨first, by rw [hmap, List.head?_cons], hparse⟩

theorem parseRange_clear {v : RangeValue} (h : v.WellFormed) {size : Nat} (hsize : size < sizeMax)
    (rest : List UInt8) (hclear : Clear (v.intervals size)) : ∃ first,
      (v.intervals size).head? = some first ∧
      parseRange (some (v.text ++ 0 :: rest)) size =
        some ((sortRanges (v.intervals size)).foldl Interval.absorb first) := by
  obtain ⟨first, hhead, hparse⟩ := parseRange_resolved h hsize rest
  rw [if_pos (clear_map_resolve_iff.mpr hclear)] at hparse
  rw [map_resolve_of_clear hclear] at hhead hparse
  exact ⟨first, hhead, hparse⟩

theorem parseRange_not_clear {v : RangeValue} (h : v.WellFormed) {size : Nat}
    (hsize : size < sizeMax) (rest : List UInt8) (hclear : ¬ Clear (v.intervals size)) :
    parseRange (some (v.text ++ 0 :: rest)) size = some fullRange := by
  obtain ⟨first, -, hparse⟩ := parseRange_resolved h hsize rest
  rw [hparse, if_neg fun hc => hclear (clear_map_resolve_iff.mp hc)]

/-- The range of a well-formed value lies in the file exactly if the run of
adjoining specs it selects does. -/
theorem parseRange_within_iff {v : RangeValue} (h : v.WellFormed) {size : Nat}
    (hsize : size < sizeMax) (rest : List UInt8) : ∃ range,
      parseRange (some (v.text ++ 0 :: rest)) size = some range ∧
      (range = fullRange ∨ range.Nonempty) ∧ (Within size range ↔ v.Fits size) := by
  by_cases hclear : Clear (v.intervals size)
  · obtain ⟨first, hhead, hparse⟩ := parseRange_clear h hsize rest hclear
    have hfirst := List.mem_of_head? hhead
    have hresult := Interval.foldl_absorb_nonempty (hclear.1 first hfirst) (sortRanges_clear hclear).2.1
    have hend := foldl_absorb_end_le_iff hclear hfirst size
    refine ⟨_, hparse, .inr hresult, ?_⟩
    constructor
    · rintro (hfull | ⟨-, hle⟩)
      · rw [hfull] at hresult
        exact absurd hresult (Nat.lt_irrefl 0)
      · intro _ first' hhead'
        obtain rfl : first = first' := Option.some.inj (hhead.symm.trans hhead')
        exact hend.mp hle
    · exact fun hfits => .inr ⟨hresult, hend.mpr (hfits hclear first hhead)⟩
  · have hfits : v.Fits size := fun h => absurd h hclear
    exact ⟨fullRange, parseRange_not_clear h hsize rest hclear, .inl rfl,
      fun _ => hfits, fun _ => .inl rfl⟩

end Hss.RangeSpec
