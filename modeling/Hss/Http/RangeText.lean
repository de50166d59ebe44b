import Hss.Http.MalformedRange

namespace Hss.RangeText

open Hss.CString Hss.Range Hss.RangeSpec Hss.StreamParser Hss.Interval Hss.MalformedRange

def behindCommas : List UInt8 → List (List UInt8)
  | [] => []
  | c :: rest => if c = 44 then rest :: behindCommas rest else behindCommas rest

/-- Where the specs of a list begin. What is read there is not cut at the next comma: a
number that no dash follows is read together with what stands behind the comma. -/
def specs (list : List UInt8) : List (List UInt8) :=
  (list :: behindCommas list).map (·.dropWhile isspace)

/-- Reading the spec stays in front of the final NUL, and its last number can be
incremented. -/
structure Legible (spec : List UInt8) : Prop where
  inside : spec.head? = some 45 ∨ (strtoll spec).2 ≠ []
  bounded : lastNumber spec ≠ some llongMax

theorem legible_iff {spec : List UInt8} : Legible spec ↔
    (spec.head? = some 45 ∨ (strtoll spec).2 ≠ []) ∧ lastNumber spec ≠ some llongMax :=
  ⟨fun h => ⟨h.1, h.2⟩, fun h => ⟨h.1, h.2⟩⟩

instance (spec : List UInt8) : Decidable (Legible spec) := decidable_of_iff _ legible_iff.symm

def Lists (value : Option (List UInt8)) (list : List UInt8) : Prop :=
  ∃ s, value = some s ∧ s.dropWhile isspace = ascii "bytes=" ++ list

def positions (size : Nat) (list : List UInt8) : List Range := (specs list).map (asked size)

variable {size : Nat} {value : Option (List UInt8)} {s list p : List UInt8}

theorem readSingleRange_nul (size : Nat) (t : List UInt8) :
    readSingleRange (t ++ [0]) size = if Legible t then some (asked size t) else none := by
  have hdigit : isdigit 0 = false := by decide
  simp only [legible_iff]
  cases t with
  | nil => rfl
  | cons a t =>
    by_cases ha : a = 45
    · subst ha
      have htail := strtoll_append (.inr rfl) t []
      simp [readSingleRange, lastNumber, asked, htail]
    · have hwhole := strtoll_append (.inr rfl) (a :: t) []
      rw [List.cons_append] at hwhole
      cases hmid : (strtoll (a :: t)).2 with
      | nil => simp [readSingleRange, ha, hwhole, hmid]
      | cons m after =>
        cases after with
        | nil => simp [readSingleRange, lastNumber, asked, ha, hwhole, hmid, hdigit]
        | cons d after =>
          have hlast := strtoll_append (.inr rfl) (d :: after) []
          rw [List.cons_append] at hlast
          by_cases hd : isdigit d
          · simp [readSingleRange, lastNumber, asked, ha, hwhole, hmid, hd, hlast]
          · simp [readSingleRange, lastNumber, asked, ha, hwhole, hmid, hd]

theorem parseSingleRange_nul (size : Nat) (t : List UInt8) :
    parseSingleRange (t ++ [0]) size = if Legible t then some (settled size t) else none := by
  have hread := readSingleRange_nul size t
  by_cases ht : Legible t
  · rw [if_pos ht] at hread
    rw [if_pos ht, parseSingleRange_of_read hread]
    rfl
  · rw [if_neg ht] at hread
    simp only [if_neg ht, parseSingleRange, hread, Option.bind_eq_bind, Option.bind_none]

theorem behindCommas_cons (hp : 44 ∉ p) (rest : List UInt8) :
    behindCommas (p ++ 44 :: rest) = rest :: behindCommas rest := by
  induction p with
  | nil => rfl
  | cons c p ih =>
    rw [List.mem_cons, not_or] at hp
    rw [List.cons_append, behindCommas, if_neg (Ne.symm hp.1), ih hp.2]

theorem behindCommas_eq_nil (hp : 44 ∉ p) : behindCommas p = [] := by
  induction p with
  | nil => rfl
  | cons c p ih =>
    rw [List.mem_cons, not_or] at hp
    rw [behindCommas, if_neg (Ne.symm hp.1), ih hp.2]

theorem specs_cons (hp : 44 ∉ p) (rest : List UInt8) :
    specs (p ++ 44 :: rest) = (p ++ 44 :: rest).dropWhile isspace :: specs rest := by
  rw [specs, behindCommas_cons hp, List.map_cons, specs]

theorem specs_single (hp : 44 ∉ p) : specs p = [p.dropWhile isspace] := by
  rw [specs, behindCommas_eq_nil hp, List.map_singleton]

theorem parseRanges_succ (size n : Nat) (t : List UInt8) :
    parseRanges size (n + 1) (t ++ [0]) =
      if Legible (t.dropWhile isspace) then
        (parseRanges size n (nextSpec (t.dropWhile isspace ++ [0]))).map
          (settled size (t.dropWhile isspace) :: ·)
      else none := by
  simp only [parseRanges, dropWhile_nul, parseSingleRange_nul]
  by_cases ht : Legible (t.dropWhile isspace)
  · rw [if_pos ht, if_pos ht]
    cases parseRanges size n (nextSpec (t.dropWhile isspace ++ [0])) <;> rfl
  · rw [if_neg ht, if_neg ht]
    rfl

theorem parseRanges_specs (size : Nat) (hnul : 0 ∉ list) :
    parseRanges size (1 + list.count 44) (list ++ [0]) =
      if ∀ t ∈ specs list, Legible t then some ((specs list).map (settled size)) else none := by
  induction list using separated_induction (x := (44 : UInt8)) with
  | piece p hp =>
    rw [List.count_eq_zero_of_not_mem hp, Nat.add_zero, ← Nat.zero_add 1, parseRanges_succ,
      specs_single hp]
    simp only [List.forall_mem_singleton, parseRanges, Option.map_some, List.map_singleton]
  | more p s hp ih =>
    have hnul' := hnul
    simp only [List.mem_append, List.mem_cons, not_or] at hnul'
    obtain ⟨hskip, hnext⟩ := piece_step ⟨hp, hnul'.1⟩ (.inl rfl) (s ++ [0])
    have hspec : (p ++ 44 :: s).dropWhile isspace ++ [0] =
        p.dropWhile isspace ++ 44 :: (s ++ [0]) := by
      rw [← hskip, ← dropWhile_nul, List.append_assoc, List.cons_append]
    rw [List.count_append, List.count_eq_zero_of_not_mem hp, List.count_cons_self, Nat.zero_add,
      Nat.add_comm 1, parseRanges_succ, hspec, hnext, Nat.add_comm _ 1, ih hnul'.2.2, specs_cons hp]
    simp only [List.forall_mem_cons, List.map_cons]
    by_cases hfirst : Legible ((p ++ 44 :: s).dropWhile isspace)
    · simp only [hfirst, if_true, true_and]
      split <;> rfl
    · simp only [hfirst, if_false, false_and]

theorem mem_specs (list : List UInt8) : list.dropWhile isspace ∈ specs list := List.mem_cons_self

theorem clear_settled (size : Nat) (list : List UInt8) :
    Clear ((specs list).map (settled size)) ↔ Clear (positions size list) := by
  have hall : (∀ t ∈ specs list, (asked size t).Nonempty) ↔
      ∀ r ∈ positions size list, r.Nonempty := List.forall_mem_map.symm
  rw [clear_settled_iff, hall]
  refine and_congr_right fun hne => ?_
  rw [← positions, overlapping_iff hne, not_not]

/-- What `parse_range` makes of a list, in terms of its text. -/
theorem parseRange_specs (size : Nat) (hnul : 0 ∉ s)
    (hlist : s.dropWhile isspace = ascii "bytes=" ++ list) :
    parseRange (some (s ++ [0])) size =
      if ∀ t ∈ specs list, Legible t then
        some (if Clear (positions size list) then
          (sortRanges (positions size list)).foldl absorb (asked size (list.dropWhile isspace))
        else fullRange)
      else none := by
  have hnul' : 0 ∉ list := fun h =>
    hnul ((List.dropWhile_sublist _).subset (hlist ▸ List.mem_append_right _ h))
  obtain ⟨-, hnone, hsome⟩ := parseRange_list size hlist hnul'
  have hparse := parseRanges_specs size hnul'
  by_cases hlegible : ∀ t ∈ specs list, Legible t
  swap
  · rw [if_neg hlegible] at hparse
    rw [hnone hparse, if_neg hlegible]
  rw [if_pos hlegible] at hparse
  rw [if_pos hlegible, hsome _ _ hparse]
  have hchecked : ∀ r ∈ (specs list).map (settled size), Checked r := by
    intro r hr
    obtain ⟨t, -, rfl⟩ := List.mem_map.mp hr
    exact checked_settled size t
  have hmerge := mergeRanges_sorted (p := settled size (list.dropWhile isspace)) hchecked
  refine (congrArg some hmerge).trans ?_
  by_cases hclear : Clear (positions size list)
  · have hsettled : ∀ t ∈ specs list, settled size t = asked size t := fun t ht =>
      if_pos (hclear.1 _ (List.mem_map_of_mem ht))
    rw [if_pos ((clear_settled size list).mpr hclear), if_pos hclear, positions,
      hsettled _ (mem_specs list), List.map_congr_left hsettled]
  · rw [if_neg fun h => hclear ((clear_settled size list).mp h), if_neg hclear]

theorem parseRange_no_list (size : Nat) (h : ∀ list, ¬ Lists value list) :
    parseRange (value.map (· ++ [0])) size = some fullRange := by
  cases value with
  | none => rfl
  | some s =>
    have hcmp : strncmp (s.dropWhile isspace ++ [0]) (ascii "bytes=") 6 ≠ .eq := by
      intro hunit
      obtain ⟨list, hlist⟩ := (unit_iff _).mp hunit
      exact h list ⟨s, rfl, hlist.symm⟩
    simp only [Option.map_some, parseRange, dropWhile_nul, if_pos hcmp]

theorem Lists.unique {list' : List UInt8} (h : Lists value list) (h' : Lists value list') :
    list' = list := by
  obtain ⟨s, rfl, hs⟩ := h
  obtain ⟨s', hvalue, hs'⟩ := h'
  cases hvalue
  exact List.append_cancel_left (hs'.symm.trans hs)

end Hss.RangeText
