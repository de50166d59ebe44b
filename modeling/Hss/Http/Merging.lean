import Hss.Http.RangeSpec

namespace Hss.Merging

open Hss.CString Hss.Range Hss.RangeSpec Hss.Interval

def computed (size : Nat) (v : RangeValue) : List Range := v.items.map (·.spec.resolve size)

variable {v : RangeValue} {size : Nat}

theorem wholeBlock_congr {rs rs' : List Range} (h : ∀ r, r ∈ rs ↔ r ∈ rs') {first p : Range} :
    WholeBlock rs first p ↔ WholeBlock rs' first p := by
  constructor
  · intro hw
    exact ⟨hw.contains, hw.covered.mono fun r hr => (h r).mp hr,
      fun r hr => hw.alone r ((h r).mpr hr)⟩
  · intro hw
    exact ⟨hw.contains, hw.covered.mono fun r hr => (h r).mpr hr,
      fun r hr => hw.alone r ((h r).mp hr)⟩

/-- The whole run around the first spec is merged exactly if at most one spec of it
lies in front of the first one. -/
theorem merging_complete_iff (h : v.WellFormed) (hsize : size < sizeMax)
    (hclear : Clear (computed size v)) (rest : List UInt8) : ∃ first range,
      (computed size v).head? = some first ∧
      parseRange (some (v.text ++ 0 :: rest)) size = some range ∧
      (WholeBlock (computed size v) first range ↔
        ∀ q ∈ computed size v, q.end_ = first.start →
          ∀ q' ∈ computed size v, q'.end_ ≠ q.start) := by
  obtain ⟨first, hhead, hparse⟩ := parseRange_resolved h hsize rest
  have hclear' : Clear (v.items.map (·.spec.resolve size)) := hclear
  rw [if_pos hclear'] at hparse
  obtain ⟨hmem, hne, hsorted⟩ := sortRanges_clear hclear
  have hfirst : first ∈ sortRanges (computed size v) := (hmem first).mpr (List.mem_of_head? hhead)
  refine ⟨first, _, hhead, hparse, ?_⟩
  have hiff := wholeBlock_foldl_absorb_iff hfirst hne hsorted
  simp only [hmem] at hiff
  rw [← hiff]
  exact (wholeBlock_congr hmem).symm

/-- A range that is not the full one contains the first spec and nothing that no spec
asks for. -/
theorem merging_sound (h : v.WellFormed) (hsize : size < sizeMax) (rest : List UInt8) : ∃ range,
    parseRange (some (v.text ++ 0 :: rest)) size = some range ∧
      (range.start = range.end_ ↔ range = fullRange) ∧
      (range ≠ fullRange → range.start < range.end_ ∧ range.CoveredBy (computed size v) ∧
        ∃ first, (computed size v).head? = some first ∧ range.Contains first) := by
  obtain ⟨first, hhead, hparse⟩ := parseRange_resolved h hsize rest
  refine ⟨_, hparse, ?_⟩
  by_cases hclear : Clear (v.items.map (·.spec.resolve size))
  · rw [if_pos hclear]
    obtain ⟨hmem, hne, -⟩ := sortRanges_clear hclear
    have hfirst := List.mem_of_head? hhead
    have hresult := foldl_absorb_nonempty (hclear.1 first hfirst) hne
    have hlt : _ < _ := hresult
    refine ⟨⟨fun heq => absurd heq (Nat.ne_of_lt hlt), fun heq => ?_⟩, fun _ => ⟨hlt, ?_, first, hhead, ?_⟩⟩
    · rw [heq]
      rfl
    · exact foldl_absorb_coveredBy (coveredBy_of_mem hfirst) fun r hr => (hmem r).mp hr
    · exact foldl_absorb_contains ⟨Nat.le_refl _, Nat.le_refl _⟩ hne
  · rw [if_neg hclear]
    exact ⟨iff_of_true rfl rfl, fun hfull => absurd rfl hfull⟩

/-- The full range is returned exactly if a spec asks for nothing, or two specs ask
for a common position. -/
theorem overlap_detected_iff (h : v.WellFormed) (hsize : size < sizeMax) (rest : List UInt8) :
    ∃ range, parseRange (some (v.text ++ 0 :: rest)) size = some range ∧
      (range = fullRange ↔ fullRange ∈ computed size v ∨ Overlapping (computed size v)) := by
  obtain ⟨first, ranges, hmap, hparse⟩ := parseRange_text h hsize rest
  have hcomputed : computed size v = first :: ranges := hmap
  have hchecked : ∀ r ∈ first :: ranges, Checked r := by
    rw [← hcomputed]
    intro r hr
    obtain ⟨i, -, rfl⟩ := List.mem_map.mp hr
    exact checked_resolve size i.spec
  refine ⟨_, hparse, ?_⟩
  rw [mergeRanges_full_iff hchecked List.mem_cons_self, not_clear_iff, hcomputed]
  refine or_congr_left ⟨?_, fun hmem => ⟨_, hmem, Nat.lt_irrefl 0⟩⟩
  rintro ⟨r, hr, hne⟩
  exact (hchecked r hr).resolve_right hne ▸ hr

def spans (positions : List (String × String)) : RangeValue :=
  ⟨[], positions.map fun (first, last) => ⟨[], .between (ascii first) (ascii last), []⟩⟩

theorem wellFormed_spans {positions : List (String × String)} (hne : positions ≠ [])
    (h : ∀ p ∈ positions, Number (ascii p.1) ∧ Number (ascii p.2)) : (spans positions).WellFormed where
  leading := by rintro c ⟨⟩
  items := by
    intro i hi
    obtain ⟨p, hp, rfl⟩ := List.mem_map.mp hi
    exact ⟨by rintro c ⟨⟩, h p hp, by rintro c ⟨⟩⟩
  nonempty := by simpa [spans] using hne

theorem merging_complete_iff_three : ∃ first range,
    (computed 20 (spans [("5", "9"), ("10", "14"), ("0", "4")])).head? = some first ∧
      parseRange (some ((spans [("5", "9"), ("10", "14"), ("0", "4")]).text ++ [0])) 20 = some range ∧
      WholeBlock (computed 20 (spans [("5", "9"), ("10", "14"), ("0", "4")])) first range := by
  have hvalue : (spans [("5", "9"), ("10", "14"), ("0", "4")]).WellFormed :=
    wellFormed_spans (by decide) (by decide)
  have hsize : 20 < sizeMax := by decide
  obtain ⟨first, range, hhead, hparse, hiff⟩ := merging_complete_iff hvalue hsize (by decide) []
  refine ⟨first, range, hhead, hparse, hiff.mpr ?_⟩
  cases hhead
  decide

/-- Three specs of five bytes each that adjoin, the last one first: the first five
bytes are left out. -/
theorem chain_in_front_missed :
    (spans [("10", "14"), ("0", "4"), ("5", "9")]).WellFormed ∧
      Clear (computed 20 (spans [("10", "14"), ("0", "4"), ("5", "9")])) ∧
      (spans [("10", "14"), ("0", "4"), ("5", "9")]).text = ascii "bytes=10-14,0-4,5-9" ∧
      parseRange (some (ascii "bytes=10-14,0-4,5-9" ++ [0])) 20 = some ⟨5, 15⟩ ∧
      ¬ WholeBlock (computed 20 (spans [("10", "14"), ("0", "4"), ("5", "9")])) ⟨10, 15⟩ ⟨5, 15⟩ := by
  refine ⟨wellFormed_spans (by decide) (by decide), by decide, by decide, by decide, fun h => ?_⟩
  exact (h.alone ⟨0, 5⟩ (by decide)).2 rfl

/-- The result is the first spec with the one that ends where it starts. -/
theorem merging_sound_three :
    parseRange (some ((spans [("10", "14"), ("0", "4"), ("5", "9")]).text ++ [0])) 20 =
        some ⟨5, 15⟩ ∧
      Interval.CoveredBy ⟨5, 15⟩ (computed 20 (spans [("10", "14"), ("0", "4"), ("5", "9")])) ∧
      Interval.Contains (⟨5, 15⟩ : Range) ⟨10, 15⟩ := by
  have hvalue : (spans [("10", "14"), ("0", "4"), ("5", "9")]).WellFormed :=
    wellFormed_spans (by decide) (by decide)
  have hsize : 20 < sizeMax := by decide
  obtain ⟨range, hparse, -, hsound⟩ := merging_sound hvalue hsize []
  have hrange : parseRange (some ((spans [("10", "14"), ("0", "4"), ("5", "9")]).text ++ [0])) 20 =
      some ⟨5, 15⟩ := by
    decide
  cases hparse.symm.trans hrange
  obtain ⟨-, hcovered, first, hhead, hcontains⟩ := hsound (by decide)
  cases hhead
  exact ⟨hrange, hcovered, hcontains⟩

/-- Two short ranges inside a long one. -/
theorem overlap_detected_iff_nested :
    parseRange (some ((spans [("20", "29"), ("0", "99"), ("40", "49")]).text ++ [0])) 100 =
      some fullRange := by
  have hvalue : (spans [("20", "29"), ("0", "99"), ("40", "49")]).WellFormed :=
    wellFormed_spans (by decide) (by decide)
  have hsize : 100 < sizeMax := by decide
  obtain ⟨range, hparse, hiff⟩ := overlap_detected_iff hvalue hsize []
  have hover : Overlapping (computed 100 (spans [("20", "29"), ("0", "99"), ("40", "49")])) :=
    ⟨0, 1, ⟨20, 30⟩, ⟨0, 100⟩, by decide, by decide, by decide, 20, by decide, by decide⟩
  rw [hparse, hiff.mpr (.inr hover)]

end Hss.Merging
