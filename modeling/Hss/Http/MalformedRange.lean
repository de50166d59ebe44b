import Hss.Http.Merging

namespace Hss.MalformedRange

open Hss.CString Hss.Range Hss.RangeSpec Hss.StreamParser Hss.Interval Hss.Merging

/-- The assertion of `parse_single_range`, that `*mid` is a dash. -/
def singleRangeAsserts (representation : List UInt8) : Bool :=
  representation.head? = some 45 || (strtoll representation).2.head? = some 45

def rangesAssert : Nat → List UInt8 → Bool
  | 0, _ => true
  | n + 1, representation =>
    let representation := representation.dropWhile isspace
    singleRangeAsserts representation && rangesAssert n (nextSpec representation)

/-- No assertion fails on the way through the value. -/
def parseRangeAsserts (representation : List UInt8) : Bool :=
  let representation := representation.dropWhile isspace
  if strncmp representation (ascii "bytes=") 6 ≠ .eq then true
  else
    let representation := representation.drop 6
    rangesAssert (1 + (cstr representation).count 44) representation

def Grammatical (s : List UInt8) : Prop :=
  ∃ v : RangeValue, v.text = s ∧ v.items ≠ [] ∧ Blank v.leading ∧
    ∀ i ∈ v.items, Blank i.leading ∧ i.spec.Grammatical ∧ Blank i.trailing

/-- The full range is returned, without a read behind the NUL and without a failed
assertion. -/
def Ignored (size : Nat) (s : List UInt8) : Prop :=
  parseRangeAsserts (s ++ [0]) = true ∧ parseRange (some (s ++ [0])) size = some fullRange

def pieces (list : List UInt8) : List (List UInt8) :=
  (list.splitOn 44).map (·.dropWhile isspace)

/-- A piece begins with a dash, or with a number and a dash. -/
def Dashed (piece : List UInt8) : Prop :=
  piece.head? = some 45 ∨ (strtoll piece).2.head? = some 45

instance (piece : List UInt8) : Decidable (Dashed piece) := inferInstanceAs (Decidable (_ ∨ _))

def lastNumber (piece : List UInt8) : Option Int :=
  if piece.head? = some 45 then none
  else
    match (strtoll piece).2 with
    | _ :: d :: after => if isdigit d then some (strtoll (d :: after)).1 else none
    | _ => none

/-- The positions that a piece is taken to ask for, whatever follows its numbers. -/
def asked (size : Nat) (piece : List UInt8) : Range :=
  if piece.head? = some 45 then ⟨toSize (size - (strtoll piece.tail).1), size⟩
  else
    match lastNumber piece with
    | some last => ⟨toSize (strtoll piece).1, toSize (last + 1)⟩
    | none => ⟨toSize (strtoll piece).1, size⟩

/-- Every piece has its dash and no last number is too great, but one piece asks for
nothing or two ask for a common position. -/
structure Hollow (size : Nat) (list : List UInt8) : Prop where
  dashed : ∀ p ∈ pieces list, Dashed p
  bounded : ∀ p ∈ pieces list, lastNumber p ≠ some llongMax
  hollow : (∃ p ∈ pieces list, ¬ (asked size p).Nonempty) ∨
    Overlapping ((pieces list).map (asked size))

variable {size : Nat} {s list p rest : List UInt8} {c : UInt8}

/-- A comma or the final NUL ends what `strtoll` looks at. -/
theorem strtoll_append (hc : c = 44 ∨ c = 0) (s rest : List UInt8) :
    strtoll (s ++ c :: rest) = ((strtoll s).1, (strtoll s).2 ++ c :: rest) := by
  have hspace : isspace c = false := by obtain rfl | rfl := hc <;> decide
  have hdigit : isdigit c = false := by obtain rfl | rfl := hc <;> decide
  have hsign : c ≠ 45 ∧ c ≠ 43 := by obtain rfl | rfl := hc <;> decide
  obtain ⟨-, hskip⟩ := takeWhile_append_stop hspace s rest
  rw [strtoll, strtoll, hskip]
  cases ht : s.dropWhile isspace with
  | nil => simp [hsign.1, hsign.2, hdigit]
  | cons a t =>
    have hcut : ∀ u : List UInt8, (u ++ c :: rest).takeWhile isdigit = u.takeWhile isdigit ∧
        (u ++ c :: rest).drop (u.takeWhile isdigit).length =
          u.drop (u.takeWhile isdigit).length ++ c :: rest := by
      intro u
      refine ⟨(takeWhile_append_stop hdigit u rest).1, ?_⟩
      exact List.drop_append_of_le_length (List.takeWhile_sublist _).length_le
    by_cases hsigned : a = 45 ∨ a = 43
    · obtain ⟨htake, hdrop⟩ := hcut t
      simp only [List.cons_append, List.head?_cons, Option.some.injEq, hsigned, if_true,
        List.tail_cons, htake, hdrop]
      split <;> rfl
    · obtain ⟨htake, hdrop⟩ := hcut (a :: t)
      simp only [List.cons_append] at htake hdrop
      simp only [List.cons_append, List.head?_cons, Option.some.injEq, hsigned, if_false, htake,
        hdrop]
      split <;> rfl

theorem singleRangeAsserts_piece (hc : c = 44 ∨ c = 0) (p rest : List UInt8) :
    singleRangeAsserts (p ++ c :: rest) = true ↔ Dashed p := by
  have hne : c ≠ 45 := by obtain rfl | rfl := hc <;> decide
  have hhead : ∀ t : List UInt8, (t ++ c :: rest).head? = some 45 ↔ t.head? = some 45 := by
    intro t
    cases t with
    | nil => simp [hne]
    | cons a t => simp
  rw [singleRangeAsserts, strtoll_append hc, Bool.or_eq_true, decide_eq_true_eq, decide_eq_true_eq,
    hhead, hhead, Dashed]

theorem readSingleRange_piece (size : Nat) (hd : Dashed p) (hc : c = 44 ∨ c = 0) (rest : List UInt8) :
    readSingleRange (p ++ c :: rest) size =
      if lastNumber p = some llongMax then none else some (asked size p) := by
  have hdigit : isdigit c = false := by obtain rfl | rfl := hc <;> decide
  cases p with
  | nil => simp [Dashed, strtoll] at hd
  | cons a t =>
    by_cases ha : a = 45
    · subst ha
      have htail := strtoll_append hc t rest
      simp [readSingleRange, lastNumber, asked, htail]
    · have hsome : ¬ (some a = some (45 : UInt8)) := by simpa using ha
      have hwhole := strtoll_append hc (a :: t) rest
      obtain ⟨after, hafter⟩ : ∃ after, (strtoll (a :: t)).2 = 45 :: after := by
        obtain hhead | hhead := hd
        · exact absurd hhead hsome
        · exact List.head?_eq_some_iff.mp hhead
      rw [hafter, List.cons_append] at hwhole
      cases after with
      | nil =>
        simp [readSingleRange, lastNumber, asked, ha, hwhole, hafter, hdigit]
      | cons d after =>
        have hlast := strtoll_append hc (d :: after) rest
        simp only [List.cons_append] at hlast hwhole
        by_cases hd' : isdigit d
        · simp [readSingleRange, lastNumber, asked, ha, hwhole, hafter, hd', hlast]
        · simp [readSingleRange, lastNumber, asked, ha, hwhole, hafter, hd']

def settled (size : Nat) (p : List UInt8) : Range :=
  if (asked size p).Nonempty then asked size p else fullRange

theorem piece_step (hp : 44 ∉ p ∧ 0 ∉ p) (hc : c = 44 ∨ c = 0) (rest : List UInt8) :
    (p ++ c :: rest).dropWhile isspace = p.dropWhile isspace ++ c :: rest ∧
      nextSpec (p.dropWhile isspace ++ c :: rest) = rest := by
  have hspace : isspace c = false := by obtain rfl | rfl := hc <;> decide
  have hstop : decide (c ≠ 44 ∧ c ≠ 0) = false := by obtain rfl | rfl := hc <;> decide
  have hall : ∀ d ∈ p.dropWhile isspace, decide (d ≠ 44 ∧ d ≠ 0) = true := by
    intro d hd
    have hmem := (List.dropWhile_sublist _).subset hd
    simp only [decide_eq_true_eq]
    exact ⟨fun h => hp.1 (h ▸ hmem), fun h => hp.2 (h ▸ hmem)⟩
  refine ⟨(takeWhile_append_stop hspace p rest).2, ?_⟩
  rw [nextSpec, (takeWhile_append_sep hall ?_).2, List.tail_cons]
  rintro d ⟨⟩
  exact hstop

theorem parseRanges_piece (hp : 44 ∉ p ∧ 0 ∉ p) (hd : Dashed (p.dropWhile isspace))
    (hc : c = 44 ∨ c = 0) (n : Nat) (rest : List UInt8) :
    parseRanges size (n + 1) (p ++ c :: rest) =
      if lastNumber (p.dropWhile isspace) = some llongMax then none
      else (parseRanges size n rest).map (settled size (p.dropWhile isspace) :: ·) := by
  obtain ⟨hskip, hnext⟩ := piece_step hp hc rest
  have hread := readSingleRange_piece size hd hc rest
  simp only [parseRanges, hskip, hnext]
  by_cases hlast : lastNumber (p.dropWhile isspace) = some llongMax
  · rw [if_pos hlast] at hread
    simp only [if_pos hlast, parseSingleRange, hread, Option.bind_eq_bind, Option.bind_none]
  · rw [if_neg hlast] at hread
    rw [if_neg hlast, parseSingleRange_of_read hread]
    cases parseRanges size n rest <;> rfl

theorem pieces_cons (hp : 44 ∉ p) (rest : List UInt8) :
    pieces (p ++ 44 :: rest) = p.dropWhile isspace :: pieces rest := by
  rw [pieces, List.splitOn_append_cons_self_of_not_mem hp, List.map_cons, pieces]

theorem pieces_single (hp : 44 ∉ p) : pieces p = [p.dropWhile isspace] := by
  rw [pieces, List.splitOn_eq_singleton hp, List.map_singleton]

theorem rangesAssert_pieces (hnul : 0 ∉ list) :
    rangesAssert (1 + list.count 44) (list ++ [0]) = true ↔ ∀ p ∈ pieces list, Dashed p := by
  induction list using separated_induction (x := (44 : UInt8)) with
  | piece p hp =>
    obtain ⟨hskip, -⟩ := piece_step ⟨hp, hnul⟩ (.inr rfl) []
    rw [List.count_eq_zero_of_not_mem hp, pieces_single hp, List.forall_mem_singleton]
    simp only [rangesAssert, hskip, Bool.and_true, singleRangeAsserts_piece (.inr rfl)]
  | more p s hp ih =>
    simp only [List.mem_append, List.mem_cons, not_or] at hnul
    obtain ⟨hskip, hnext⟩ := piece_step ⟨hp, hnul.1⟩ (.inl rfl) (s ++ [0])
    rw [List.count_append, List.count_eq_zero_of_not_mem hp, List.count_cons_self, Nat.zero_add,
      Nat.add_comm 1, pieces_cons hp, List.forall_mem_cons, ← ih hnul.2.2, List.append_assoc,
      List.cons_append, Nat.add_comm 1]
    simp only [rangesAssert, hskip, hnext, Bool.and_eq_true, singleRangeAsserts_piece (.inl rfl)]

theorem parseRanges_pieces (size : Nat) (hnul : 0 ∉ list) (hd : ∀ p ∈ pieces list, Dashed p) :
    parseRanges size (1 + list.count 44) (list ++ [0]) =
      if ∀ p ∈ pieces list, lastNumber p ≠ some llongMax then
        some ((pieces list).map (settled size))
      else none := by
  induction list using separated_induction (x := (44 : UInt8)) with
  | piece p hp =>
    rw [pieces_single hp, List.forall_mem_singleton] at hd
    rw [List.count_eq_zero_of_not_mem hp, pieces_single hp, Nat.add_comm,
      parseRanges_piece ⟨hp, hnul⟩ hd (.inr rfl)]
    simp only [List.forall_mem_singleton, ne_eq, ite_not]
    rfl
  | more p s hp ih =>
    simp only [List.mem_append, List.mem_cons, not_or] at hnul
    rw [pieces_cons hp, List.forall_mem_cons] at hd
    rw [List.count_append, List.count_eq_zero_of_not_mem hp, List.count_cons_self, Nat.zero_add,
      Nat.add_comm 1, List.append_assoc, List.cons_append,
      parseRanges_piece ⟨hp, hnul.1⟩ hd.1 (.inl rfl), Nat.add_comm _ 1, ih hnul.2.2 hd.2,
      pieces_cons hp]
    simp only [List.forall_mem_cons, ne_eq]
    by_cases hlast : lastNumber (p.dropWhile isspace) = some llongMax
    · simp only [hlast, if_true, not_true, false_and, if_false]
    · simp only [hlast, if_false, not_false_iff, true_and]
      split <;> rfl

theorem unit_iff (s : List UInt8) :
    strncmp (s ++ [0]) (ascii "bytes=") 6 = .eq ↔ ascii "bytes=" <+: s := by
  constructor
  · intro h
    have hprefix : ascii "bytes=" <+: s ++ [0] := strncmp_prefix (by decide) h
    obtain hp | hp := List.prefix_concat_iff.mp hprefix
    · exact absurd (congrArg (List.getLast?) hp) (by simp [ascii]; decide)
    · exact hp
  · rintro ⟨t, rfl⟩
    rfl

theorem dropWhile_nul (s : List UInt8) :
    (s ++ [0]).dropWhile isspace = s.dropWhile isspace ++ [0] :=
  (takeWhile_append_stop (by decide) s []).2

theorem parseRange_list (size : Nat) (hlist : s.dropWhile isspace = ascii "bytes=" ++ list)
    (hnul : 0 ∉ list) :
    parseRangeAsserts (s ++ [0]) = rangesAssert (1 + list.count 44) (list ++ [0]) ∧
      (parseRanges size (1 + list.count 44) (list ++ [0]) = none →
        parseRange (some (s ++ [0])) size = none) ∧
      ∀ first ranges, parseRanges size (1 + list.count 44) (list ++ [0]) = some (first :: ranges) →
        parseRange (some (s ++ [0])) size =
          some (mergeRanges first none (sortRanges (first :: ranges))) := by
  have hunit : strncmp (s.dropWhile isspace ++ [0]) (ascii "bytes=") 6 = .eq :=
    (unit_iff _).mpr ⟨list, hlist.symm⟩
  have hdrop : (s.dropWhile isspace ++ [0]).drop 6 = list ++ [0] := by
    rw [hlist]
    rfl
  have hcstr : cstr (list ++ [0]) = list := cstr_append_nul hnul []
  refine ⟨?_, fun h => ?_, fun first ranges h => ?_⟩
  · simp only [parseRangeAsserts, dropWhile_nul, hunit, hdrop, hcstr, ne_eq, not_true, if_false]
  · simp only [parseRange, dropWhile_nul, hunit, hdrop, hcstr, h, ne_eq, not_true, if_false]
  · simp only [parseRange, dropWhile_nul, hunit, hdrop, hcstr, h, ne_eq, not_true, if_false]

theorem checked_settled (size : Nat) (p : List UInt8) : Checked (settled size p) := by
  rw [settled]
  split
  · exact .inr (by assumption)
  · exact .inl rfl

theorem clear_settled_iff (size : Nat) (ps : List (List UInt8)) :
    Clear (ps.map (settled size)) ↔ (∀ p ∈ ps, (asked size p).Nonempty) ∧
      ¬ Overlapping (ps.map (asked size)) := by
  have hsame : (∀ p ∈ ps, (asked size p).Nonempty) →
      ps.map (settled size) = ps.map (asked size) := fun hne =>
    List.map_congr_left fun p hp => if_pos (hne p hp)
  have hall : (∀ p ∈ ps, (asked size p).Nonempty) → ∀ r ∈ ps.map (asked size), r.Nonempty := by
    intro hne r hr
    obtain ⟨p, hp, rfl⟩ := List.mem_map.mp hr
    exact hne p hp
  constructor
  · intro hclear
    have hne : ∀ p ∈ ps, (asked size p).Nonempty := by
      intro p hp
      by_contra hnot
      have hset : settled size p = fullRange := if_neg hnot
      have hfull := hclear.1 _ (List.mem_map_of_mem hp)
      rw [hset] at hfull
      exact Nat.lt_irrefl 0 hfull
    rw [hsame hne] at hclear
    exact ⟨hne, fun hover => (overlapping_iff (hall hne)).mp hover hclear.2⟩
  · rintro ⟨hne, hover⟩
    rw [hsame hne]
    refine ⟨hall hne, ?_⟩
    by_contra hpairs
    exact hover ((overlapping_iff (hall hne)).mpr hpairs)

/-- Of whatever value, the full range is returned and nothing goes wrong exactly if the
unit is missing or the list is hollow. -/
theorem ignored_iff (hnul : 0 ∉ s) :
    Ignored size s ↔ ∀ list, s.dropWhile isspace = ascii "bytes=" ++ list → Hollow size list := by
  by_cases hunit : ascii "bytes=" <+: s.dropWhile isspace
  · obtain ⟨list, hlist⟩ := hunit
    have hnul' : 0 ∉ list := fun h =>
      hnul ((List.dropWhile_sublist _).subset (hlist ▸ List.mem_append_right _ h))
    have hiff : (∀ list', s.dropWhile isspace = ascii "bytes=" ++ list' → Hollow size list') ↔
        Hollow size list := by
      refine ⟨fun h => h list hlist.symm, fun h list' hlist' => ?_⟩
      exact List.append_cancel_left (hlist.trans hlist') ▸ h
    obtain ⟨hassert, hnone, hsome⟩ := parseRange_list size hlist.symm hnul'
    rw [Ignored, hassert, rangesAssert_pieces hnul', hiff]
    by_cases hd : ∀ p ∈ pieces list, Dashed p
    swap
    · exact iff_of_false (fun h => hd h.1) fun h => hd h.dashed
    have hparse := parseRanges_pieces size hnul' hd
    by_cases hb : ∀ p ∈ pieces list, lastNumber p ≠ some llongMax
    swap
    · rw [if_neg hb] at hparse
      refine iff_of_false (fun h => ?_) fun h => hb h.bounded
      cases (hnone hparse).symm.trans h.2
    rw [if_pos hb] at hparse
    have hne : pieces list ≠ [] := by
      rw [pieces, Ne, List.map_eq_nil_iff]
      exact List.splitOn_ne_nil 44 list
    obtain ⟨p, ps, hps⟩ := List.exists_cons_of_ne_nil hne
    rw [hps, List.map_cons] at hparse
    have hchecked : ∀ r ∈ (p :: ps).map (settled size), Checked r := by
      intro r hr
      obtain ⟨q, -, rfl⟩ := List.mem_map.mp hr
      exact checked_settled size q
    have hmem : settled size p ∈ (p :: ps).map (settled size) := List.mem_cons_self
    have hfull := mergeRanges_full_iff hchecked hmem
    rw [clear_settled_iff, ← hps, not_and_or, not_not] at hfull
    rw [hsome _ _ hparse, Option.some.injEq, ← List.map_cons, ← hps, hfull]
    constructor
    · rintro ⟨-, hhollow⟩
      refine ⟨hd, hb, hhollow.imp_left fun h => ?_⟩
      push Not at h
      exact h
    · intro h
      refine ⟨hd, h.hollow.imp_left ?_⟩
      rintro ⟨q, hq, hempty⟩ hall
      exact hempty (hall q hq)
  · refine iff_of_true ?_ fun list hlist => absurd ⟨list, hlist.symm⟩ hunit
    have hcmp : strncmp (s.dropWhile isspace ++ [0]) (ascii "bytes=") 6 ≠ .eq := fun h =>
      hunit ((unit_iff _).mp h)
    constructor
    · simp only [parseRangeAsserts, dropWhile_nul, if_pos hcmp]
    · simp only [parseRange, dropWhile_nul, if_pos hcmp]

/-- A value that is no list of specs is ignored exactly if the unit is missing or the
list is hollow. -/
theorem malformed_ignored_iff (hnul : 0 ∉ s) : (¬ Grammatical s → Ignored size s) ↔
    Grammatical s ∨ ∀ list, s.dropWhile isspace = ascii "bytes=" ++ list → Hollow size list := by
  rw [ignored_iff hnul, or_iff_not_imp_left]

theorem exists_digit {spec : ByteRange} (h : spec.Grammatical) : ∃ d ∈ spec.text, isdigit d = true := by
  have hfirst : ∀ {ds : List UInt8}, Digits ds → ∃ d ∈ ds, isdigit d = true := by
    intro ds hds
    obtain ⟨d, ds', rfl⟩ := List.exists_cons_of_ne_nil hds.nonempty
    exact ⟨d, List.mem_cons_self, hds.digit d List.mem_cons_self⟩
  cases spec with
  | between first last =>
    obtain ⟨d, hd, hdigit⟩ := hfirst h.1
    exact ⟨d, List.mem_append_left _ hd, hdigit⟩
  | since first =>
    obtain ⟨d, hd, hdigit⟩ := hfirst h
    exact ⟨d, List.mem_append_left _ hd, hdigit⟩
  | suffix length =>
    obtain ⟨d, hd, hdigit⟩ := hfirst h
    exact ⟨d, List.mem_cons_of_mem _ hd, hdigit⟩

theorem Grammatical.exists_digit (h : Grammatical s) : ∃ d ∈ s, isdigit d = true := by
  obtain ⟨v, rfl, hne, -, hitems⟩ := h
  obtain ⟨i, items, hv⟩ := List.exists_cons_of_ne_nil hne
  obtain ⟨d, hd, hdigit⟩ :=
    MalformedRange.exists_digit (hitems i (hv ▸ List.mem_cons_self)).2.1
  have htext : d ∈ i.text := List.mem_append_right _ (List.mem_append_left _ hd)
  have hmem : d ∈ itemsText v.items := by
    rw [hv]
    cases items with
    | nil => exact htext
    | cons j items => exact List.mem_append_left _ htext
  exact ⟨d, List.mem_append_right _ (List.mem_append_right _ hmem), hdigit⟩

/-- A dash alone asks for the last zero bytes. -/
theorem malformed_ignored_iff_dash : Ignored 10 (ascii "bytes=-") := by
  have hnul : 0 ∉ ascii "bytes=-" := by decide
  refine (malformed_ignored_iff hnul).mpr (.inr ?_) ?_
  · intro list hlist
    have hsplit : ascii "bytes=" ++ [45] = ascii "bytes=" ++ list := hlist
    have hcut := (List.append_cancel_left hsplit).symm
    have hpieces : pieces [45] = [[45]] := pieces_single (by decide)
    rw [hcut]
    refine ⟨?_, ?_, .inl ⟨[45], ?_⟩⟩ <;> rw [hpieces]
    · decide
    · decide
    · decide
  · intro h
    exact absurd h.exists_digit (by decide)

/-- A word in place of a spec is taken for a range from the first byte on, and with
nothing behind the unit a byte behind the NUL is read. -/
theorem word_taken_for_range :
    ¬ (¬ Grammatical (ascii "bytes=abc") → Ignored 10 (ascii "bytes=abc")) ∧
      parseRangeAsserts (ascii "bytes=abc" ++ [0]) = false ∧
      parseRange (some (ascii "bytes=abc" ++ [0])) 10 = some ⟨0, 10⟩ ∧
      parseRange (some (ascii "bytes=" ++ [0])) 10 = none := by
  refine ⟨fun h => ?_, by decide, by decide, by decide⟩
  have hbad : ¬ Grammatical (ascii "bytes=abc") := fun hg => absurd hg.exists_digit (by decide)
  exact absurd (h hbad).1 (by decide)

end Hss.MalformedRange
