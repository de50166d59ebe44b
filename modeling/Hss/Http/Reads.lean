import Hss.Http.Acceptance

namespace Hss.Reads

open Hss.CString Hss.Headers Hss.Request Hss.StreamParser Hss.Meaning Hss.Refinement Hss.Grammar
  Hss.Acceptance

/-- The indices looked at by a loop that goes on while the byte is in `p` and has
all its bytes in front of it. -/
def whileReads (p : UInt8 → Bool) : List UInt8 → Nat → List Nat
  | [], _ => []
  | c :: rest, i => i :: if p c then whileReads p rest (i + 1) else []

/-- The memory from `end_` on is the first argument, as for the scan itself. -/
def skipWhitespacesReads (length : Nat) : List UInt8 → Nat → List Nat
  | [], end_ => [end_]
  | c :: rest, end_ =>
    end_ :: if isspace c ∧ end_ + 1 ≠ length then skipWhitespacesReads length rest (end_ + 1) else []

def rangeNonBlankReads (memory : List UInt8) (length end_ : Nat) : List Nat :=
  whileReads (!isspace ·) (slice memory end_ length) end_

/-- The second byte of a pair is looked at only behind a carriage return. -/
def rangeLineReads (length : Nat) : List UInt8 → Nat → List Nat
  | c :: d :: rest, end_ =>
    if end_ + 1 < length then
      (if c = 13 then [end_, end_ + 1] else [end_]) ++
        if c ≠ 13 ∨ d ≠ 10 then rangeLineReads length (d :: rest) (end_ + 1) else []
    else []
  | _, end_ => if end_ + 1 < length then [end_, end_ + 1] else []

def strncmpReads : List UInt8 → List UInt8 → Nat → Nat → List Nat
  | _, _, 0, _ => []
  | s, t, n + 1, i =>
    i :: if s.headD 0 = t.headD 0 ∧ s.headD 0 ≠ 0 then strncmpReads s.tail t.tail n (i + 1) else []

def strchrReads (c : UInt8) : List UInt8 → Nat → List Nat
  | [], i => [i]
  | b :: rest, i => i :: if b = c ∨ b = 0 then [] else strchrReads c rest (i + 1)

def parseMethodReads (memory : List UInt8) (length : Nat) : List Nat :=
  let end_ := rangeNonBlank memory length 0
  rangeNonBlankReads memory length 0 ++ (strncmpReads (ascii "GET") memory end_ 0 ++
    if strncmp (ascii "GET") memory end_ ≠ .eq then []
    else skipWhitespacesReads length (memory.drop end_) end_)

def parseUrlReads (memory : List UInt8) (length start : Nat) : List Nat :=
  let end_ := rangeNonBlank memory length start
  rangeNonBlankReads memory length start ++
    if start = end_ then [] else skipWhitespacesReads length (memory.drop end_) end_

def parseHttpVersionReads (memory : List UInt8) (length start : Nat) : List Nat :=
  let end_ := rangeNonBlank memory length start
  rangeNonBlankReads memory length start ++
    if start = end_ ∨ end_ + 1 ≥ length then []
    else if memory[end_]? ≠ some 13 then [end_] else [end_, end_ + 1]

def parseHeaderReads (memory : List UInt8) (start end_ : Nat) : List Nat :=
  strchrReads 58 (memory.drop start) start ++
    match strchr 58 (memory.drop start) start with
    | some (some colon) =>
      whileReads (!isspace ·) (slice memory start colon) start ++
        if (slice memory start colon).any isspace then []
        else
          let value := slice memory (colon + 1) end_
          let valueStart := colon + 1 + (value.takeWhile isspace).length
          whileReads isspace value (colon + 1) ++
            (whileReads isspace (slice memory valueStart end_).reverse 0).map (end_ - 1 - ·)
    | _ => []

def parseHeadersReads (memory : List UInt8) (length : Nat) : Nat → HttpRequest → Nat → List Nat
  | 0, _, _ => []
  | fuel + 1, destination, start =>
    rangeLineReads length (memory.drop start) start ++
      match rangeLine length (memory.drop start) start with
      | .index end_ =>
        if start = end_ then []
        else
          parseHeaderReads memory start end_ ++
            match parseHeader destination memory start end_ with
            | .ok destination => parseHeadersReads memory length fuel destination (end_ + 2)
            | .error _ => []
      | _ => []

def afterStage (stage : Scan (HttpRequest × Nat)) (next : HttpRequest → Nat → List Nat) :
    List Nat :=
  match stage with
  | .ok (destination, start) => next destination start
  | .error _ => []

/-- The indices that `http_request_from_buffer` looks at, in their order. -/
def httpRequestFromBufferReads (destination : HttpRequest) (memory : List UInt8) (length : Nat) :
    List Nat :=
  let destination :=
    if destination.state ≠ .initialized then httpRequestDestroy destination else destination
  parseMethodReads memory length ++
    afterStage (parseMethod destination memory length) fun destination start =>
      parseUrlReads memory length start ++
        afterStage (parseUrl destination memory length start) fun destination start =>
          parseHttpVersionReads memory length start ++
            afterStage (parseHttpVersion destination memory length start)
              fun destination start => parseHeadersReads memory length length destination start

/-- The header lines end in a line without a colon, and no colon or NUL follows in
the buffer. -/
structure NoColonLeft (rest : List UInt8) : Prop where
  line : ∃ l rest', splitPair 13 10 rest = some (l, rest') ∧ l ≠ []
  noColon : 58 ∉ rest
  noNul : 0 ∉ rest

/-- The buffers that end where a scan has no bound of its own: in the method or
the url, or in a header line without a colon. -/
inductive RunsOff : List UInt8 → Prop
  | method {method : List UInt8} : Solid method →
      strncmp (ascii "GET") method method.length = .eq → RunsOff method
  | url {method gap url : List UInt8} : Solid method →
      strncmp (ascii "GET") method method.length = .eq → Blank gap → gap ≠ [] → Solid url →
      url ≠ [] → RunsOff (method ++ (gap ++ url))
  | header {r : RequestForm} {rest : List UInt8} : r.Loose → NoColonLeft rest →
      RunsOff (r.method ++ (r.gap ++ (r.url ++ (r.gap' ++ (r.version ++
        13 :: 10 :: (linesBytes r.lines ++ rest))))))

variable {pre rest tail : List UInt8} {length : Nat}

def Inside (length : Nat) (reads : List Nat) : Prop := ∀ i ∈ reads, i < length

instance (length : Nat) (reads : List Nat) : Decidable (Inside length reads) :=
  inferInstanceAs (Decidable (∀ i ∈ reads, i < length))

theorem inside_nil (length : Nat) : Inside length [] := by
  intro i hi
  cases hi

theorem inside_append {reads reads' : List Nat} :
    Inside length (reads ++ reads') ↔ Inside length reads ∧ Inside length reads' :=
  List.forall_mem_append

theorem inside_cons {i : Nat} {reads : List Nat} :
    Inside length (i :: reads) ↔ i < length ∧ Inside length reads :=
  List.forall_mem_cons

theorem whileReads_inside (p : UInt8 → Bool) {l : List UInt8} {i : Nat}
    (h : i + l.length ≤ length) : Inside length (whileReads p l i) := by
  induction l generalizing i with
  | nil => exact inside_nil length
  | cons c l ih =>
    rw [List.length_cons] at h
    rw [whileReads, inside_cons]
    refine ⟨by omega, ?_⟩
    split
    · exact ih (by omega)
    · exact inside_nil length

theorem sliceReads_inside (p : UInt8 → Bool) (memory : List UInt8) (start : Nat) {stop : Nat}
    (h : stop ≤ length) : Inside length (whileReads p (slice memory start stop) start) := by
  by_cases hle : start ≤ stop
  · apply whileReads_inside
    simp only [slice, List.length_drop, List.length_take]
    omega
  · have hnil : slice memory start stop = [] := slice_eq_nil memory (by omega)
    rw [hnil]
    exact inside_nil length

theorem rangeNonBlankReads_inside (memory : List UInt8) (end_ : Nat) :
    Inside length (rangeNonBlankReads memory length end_) :=
  sliceReads_inside _ memory end_ (Nat.le_refl length)

theorem strncmpReads_inside (s t : List UInt8) {n i : Nat} (h : i + n ≤ length) :
    Inside length (strncmpReads s t n i) := by
  induction n generalizing s t i with
  | zero =>
    cases s <;> exact inside_nil length
  | succ n ih =>
    rw [strncmpReads, inside_cons]
    refine ⟨by omega, ?_⟩
    split
    · exact ih _ _ (by omega)
    · exact inside_nil length

theorem skipWhitespacesReads_iff (rest tail : List UInt8) (end_ : Nat) :
    Inside (end_ + rest.length) (skipWhitespacesReads (end_ + rest.length) (rest ++ tail) end_) ↔
      rest ≠ [] := by
  induction rest generalizing end_ with
  | nil =>
    refine ⟨fun h => ?_, fun h => absurd rfl h⟩
    have hfirst : end_ < end_ + ([] : List UInt8).length := by
      cases tail with
      | nil => exact (inside_cons.mp h).1
      | cons c tail => exact (inside_cons.mp h).1
    exact absurd hfirst (Nat.lt_irrefl _)
  | cons c rest ih =>
    refine ⟨fun _ => List.cons_ne_nil _ _, fun _ => ?_⟩
    rw [List.cons_append, skipWhitespacesReads, inside_cons]
    refine ⟨by rw [List.length_cons]; omega, ?_⟩
    split
    · rename_i hgo
      have hrest : rest ≠ [] := by
        rintro rfl
        exact hgo.2 rfl
      have hlen : end_ + (c :: rest).length = end_ + 1 + rest.length := by
        rw [List.length_cons]
        omega
      rw [hlen]
      exact (ih (end_ + 1)).mpr hrest
    · exact inside_nil _

theorem rangeLineReads_inside (memory : List UInt8) (end_ : Nat) :
    Inside length (rangeLineReads length memory end_) := by
  induction memory, end_ using rangeLineReads.induct length with
  | case1 c d rest end_ hlt ih =>
    rw [rangeLineReads, if_pos hlt]
    refine inside_append.mpr ⟨?_, ?_⟩
    · split
      · rw [inside_cons, inside_cons]
        exact ⟨by omega, hlt, inside_nil length⟩
      · rw [inside_cons]
        exact ⟨by omega, inside_nil length⟩
    · split
      · exact ih
      · exact inside_nil length
  | case2 c d rest end_ hend =>
    rw [rangeLineReads, if_neg hend]
    exact inside_nil length
  | case3 memory end_ hlt hshort =>
    rw [rangeLineReads, if_pos hlt, inside_cons, inside_cons]
    · exact ⟨by omega, hlt, inside_nil length⟩
    · exact hshort
  | case4 memory end_ hend hshort =>
    rw [rangeLineReads, if_neg hend]
    · exact inside_nil length
    · exact hshort

theorem strchrReads_iff (tail : List UInt8) (i : Nat) :
    Inside (i + rest.length) (strchrReads 58 (rest ++ tail) i) ↔ 58 ∈ rest ∨ 0 ∈ rest := by
  induction rest generalizing i with
  | nil =>
    refine ⟨fun h => ?_, fun h => by simp at h⟩
    have hfirst : i < i + ([] : List UInt8).length := by
      cases tail with
      | nil => exact (inside_cons.mp h).1
      | cons c tail => exact (inside_cons.mp h).1
    exact absurd hfirst (Nat.lt_irrefl _)
  | cons b rest ih =>
    have hlen : i + (b :: rest).length = i + 1 + rest.length := by
      rw [List.length_cons]
      omega
    rw [List.cons_append, strchrReads, inside_cons, hlen]
    by_cases hstop : b = 58 ∨ b = 0
    · rw [if_pos hstop]
      refine ⟨fun _ => ?_, fun _ => ⟨by omega, inside_nil _⟩⟩
      obtain rfl | rfl := hstop
      · exact .inl List.mem_cons_self
      · exact .inr List.mem_cons_self
    · rw [if_neg hstop, ih (i + 1)]
      push Not at hstop
      simp only [List.mem_cons, hstop.1.symm, hstop.2.symm, false_or, and_iff_right_iff_imp]
      intro _
      omega

theorem dropWhile_ne_nil_iff : rest.dropWhile (!isspace ·) ≠ [] ↔ token rest ≠ rest := by
  rw [not_iff_not, List.dropWhile_eq_nil_iff, token, List.takeWhile_eq_self_iff]

theorem parseMethodReads_iff (rest tail : List UInt8) :
    Inside rest.length (parseMethodReads (rest ++ tail) rest.length) ↔
      (strncmp (ascii "GET") rest (token rest).length = .eq → token rest ≠ rest) := by
  have hend := @rangeNonBlank_eq [] rest tail
  have hlength := length_token [] rest
  have hdrop := drop_token [] rest tail
  simp only [List.nil_append, List.length_nil, Nat.zero_add] at hend hlength hdrop
  have hle := token_length_le rest
  have hscan : Inside rest.length
      (strncmpReads (ascii "GET") (rest ++ tail) (token rest).length 0) :=
    strncmpReads_inside _ _ (by omega)
  simp only [parseMethodReads, hend, inside_append, rangeNonBlankReads_inside, hscan, true_and,
    strncmp_append _ _ _ hle, hdrop]
  by_cases heq : strncmp (ascii "GET") rest (token rest).length = .eq
  · rw [if_neg (not_not.mpr heq), ← dropWhile_ne_nil_iff]
    have hskip := skipWhitespacesReads_iff (rest.dropWhile (!isspace ·)) tail
      (token rest).length
    rw [← hlength] at hskip
    rw [hskip]
    exact ⟨fun h _ => h, fun h => h heq⟩
  · rw [if_pos heq]
    exact ⟨fun _ h => absurd h heq, fun _ => inside_nil _⟩

theorem parseUrlReads_iff (pre rest tail : List UInt8) :
    Inside (pre.length + rest.length)
        (parseUrlReads (pre ++ (rest ++ tail)) (pre.length + rest.length) pre.length) ↔
      (token rest ≠ [] → token rest ≠ rest) := by
  have hlength := length_token pre rest
  simp only [parseUrlReads, rangeNonBlank_eq, inside_append, rangeNonBlankReads_inside, true_and,
    drop_token]
  by_cases ht : token rest = []
  · rw [ht, List.length_nil, Nat.add_zero, if_pos rfl]
    exact ⟨fun _ h => absurd rfl h, fun _ => inside_nil _⟩
  · rw [if_neg (token_end_ne ht), ← dropWhile_ne_nil_iff]
    have hskip := skipWhitespacesReads_iff (rest.dropWhile (!isspace ·)) tail
      (pre.length + (token rest).length)
    rw [← hlength] at hskip
    rw [hskip]
    exact ⟨fun h _ => h, fun h => h ht⟩

theorem parseUrlReads_beyond (memory : List UInt8) {start : Nat} (h : length ≤ start) :
    Inside length (parseUrlReads memory length start) := by
  simp only [parseUrlReads, rangeNonBlank_beyond memory h, if_true, List.append_nil]
  exact rangeNonBlankReads_inside memory start

theorem parseHttpVersionReads_inside (memory : List UInt8) (start : Nat) :
    Inside length (parseHttpVersionReads memory length start) := by
  refine inside_append.mpr ⟨rangeNonBlankReads_inside memory start, ?_⟩
  split
  · exact inside_nil length
  · rename_i hroom
    push Not at hroom
    split
    · rw [inside_cons]
      exact ⟨by omega, inside_nil length⟩
    · rw [inside_cons, inside_cons]
      exact ⟨by omega, hroom.2, inside_nil length⟩

theorem mem_strchrReads {c : UInt8} {m : List UInt8} {i j : Nat}
    (h : strchr c m i = some (some j)) : j ∈ strchrReads c m i := by
  induction m generalizing i with
  | nil => cases h
  | cons b m ih =>
    rw [strchr] at h
    rw [strchrReads]
    by_cases hbc : b = c
    · rw [if_pos hbc] at h
      cases h
      exact List.mem_cons_self
    · rw [if_neg hbc] at h
      by_cases hb : b = 0
      · rw [if_pos hb] at h
        cases h
      · rw [if_neg hb] at h
        rw [if_neg (not_or.mpr ⟨hbc, hb⟩)]
        exact List.mem_cons_of_mem _ (ih h)

theorem parseHeaderReads_iff (pre rest tail : List UInt8) {end_ : Nat}
    (hend : end_ ≤ pre.length + rest.length) (hpos : 0 < pre.length + rest.length) :
    Inside (pre.length + rest.length)
        (parseHeaderReads (pre ++ (rest ++ tail)) pre.length end_) ↔ 58 ∈ rest ∨ 0 ∈ rest := by
  rw [parseHeaderReads, List.drop_left' rfl, inside_append, strchrReads_iff, and_iff_left_iff_imp]
  intro hstop
  have hsearch := (strchrReads_iff tail pre.length).mpr hstop
  split
  · rename_i colon hcolon
    have hlt := hsearch colon (mem_strchrReads hcolon)
    refine inside_append.mpr ⟨sliceReads_inside _ _ _ (Nat.le_of_lt hlt), ?_⟩
    split
    · exact inside_nil _
    · refine inside_append.mpr ⟨sliceReads_inside _ _ _ hend, ?_⟩
      intro i hi
      obtain ⟨j, -, rfl⟩ := List.mem_map.mp hi
      omega
  · exact inside_nil _

theorem splitPair_lines {l : HeaderLine} (hl : l.WellFormed) (lines : List HeaderLine)
    (rest : List UInt8) : splitPair 13 10 (linesBytes (l :: lines) ++ rest) =
      some (l.text, linesBytes lines ++ rest) := by
  have hbytes : linesBytes (l :: lines) ++ rest =
      l.text ++ 13 :: 10 :: (linesBytes lines ++ rest) := by
    simp [linesBytes]
  rw [hbytes]
  exact splitPair_of_not_infix (by decide) hl.oneLine _

def HeaderRunsOff (headers : List Header) (b : List UInt8) : Prop :=
  ∃ lines rest, b = linesBytes lines ++ rest ∧ (∀ l ∈ lines, l.WellFormed) ∧
    FreshKeys headers lines ∧ NoColonLeft rest

theorem freshKeys_nil (headers : List Header) : FreshKeys headers [] :=
  ⟨List.nodup_nil, fun _ hl => absurd hl List.not_mem_nil⟩

theorem headerRunsOff_none {headers : List Header} (h : splitPair 13 10 rest = none) :
    ¬ HeaderRunsOff headers rest := by
  rintro ⟨lines, rest', rfl, hwf, -, hleft⟩
  cases lines with
  | nil =>
    obtain ⟨l, rest'', hl, -⟩ := hleft.line
    cases h.symm.trans hl
  | cons l lines =>
    cases h.symm.trans (splitPair_lines (hwf l List.mem_cons_self) lines rest')

theorem headerRunsOff_some {headers : List Header} {l rest' : List UInt8}
    (h : splitPair 13 10 rest = some (l, rest')) : HeaderRunsOff headers rest ↔
      (l ≠ [] ∧ 58 ∉ rest ∧ 0 ∉ rest) ∨
      ∃ line : HeaderLine, line.WellFormed ∧ l = line.text ∧ ∃ lines rest'',
        rest' = linesBytes lines ++ rest'' ∧ (∀ l ∈ lines, l.WellFormed) ∧
          FreshKeys headers (line :: lines) ∧ NoColonLeft rest'' := by
  constructor
  · rintro ⟨lines, rest'', rfl, hwf, hfresh, hleft⟩
    cases lines with
    | nil =>
      obtain ⟨l', r, hl, hne⟩ := hleft.line
      cases h.symm.trans hl
      exact .inl ⟨hne, hleft.noColon, hleft.noNul⟩
    | cons line lines =>
      have hl := hwf line List.mem_cons_self
      cases h.symm.trans (splitPair_lines hl lines rest'')
      exact .inr ⟨line, hl, rfl, lines, rest'', rfl,
        fun l' hl' => hwf l' (List.mem_cons_of_mem _ hl'), hfresh, hleft⟩
  · rintro (⟨hne, hcolon, hnul⟩ | ⟨line, hl, rfl, lines, rest'', rfl, hwf, hfresh, hleft⟩)
    · exact ⟨[], rest, rfl, fun l' hl' => absurd hl' List.not_mem_nil, freshKeys_nil headers,
        ⟨⟨l, rest', h, hne⟩, hcolon, hnul⟩⟩
    · refine ⟨line :: lines, rest'', ?_, ?_, hfresh, hleft⟩
      · rw [splitPair_eq h]
        simp [linesBytes]
      · intro l' hl'
        obtain rfl | hl' := List.mem_cons.mp hl'
        · exact hl
        · exact hwf l' hl'

theorem header_of_text {line line' : HeaderLine} (hl : line.WellFormed) (hl' : line'.WellFormed)
    (h : line.text = line'.text) : line'.header = line.header := by
  have hh := headerOf_text hl
  rw [h, headerOf_text hl'] at hh
  exact Option.some.inj hh

/-- Behind a line that is stored, the later lines must have keys that are fresh to
the longer list. -/
theorem headerRunsOff_stored {headers headers' : List Header} {line : HeaderLine}
    {rest' : List UInt8} (hord : Ordered headers) (hl : line.WellFormed)
    (hins : insertHeader headers line.header = (.succeed, headers')) :
    HeaderRunsOff headers' rest' ↔
      ∃ line' : HeaderLine, line'.WellFormed ∧ line.text = line'.text ∧ ∃ lines rest'',
        rest' = linesBytes lines ++ rest'' ∧ (∀ l ∈ lines, l.WellFormed) ∧
          FreshKeys headers (line' :: lines) ∧ NoColonLeft rest'' := by
  constructor
  · rintro ⟨lines, rest'', rfl, hlines, hfresh, hleft⟩
    exact ⟨line, hl, rfl, lines, rest'', rfl, hlines,
      (freshKeys_insert hord hl hins lines).2.2.mpr hfresh, hleft⟩
  · rintro ⟨line', hl', htext, lines, rest'', rfl, hlines, hfresh, hleft⟩
    rw [← header_of_text hl hl' htext] at hins
    exact ⟨lines, rest'', rfl, hlines, (freshKeys_insert hord hl' hins lines).2.2.mp hfresh, hleft⟩

theorem not_freshKeys_of_refused {headers headers' : List Header} {line line' : HeaderLine}
    {lines : List HeaderLine} {code : HttpErrorCode} (hord : Ordered headers)
    (hl : line.WellFormed) (hins : insertHeader headers line.header = (code, headers'))
    (hcode : code ≠ .succeed) (hl' : line'.WellFormed) (htext : line.text = line'.text) :
    ¬ FreshKeys headers (line' :: lines) := by
  intro hfresh
  have hnew : ∀ e ∈ headers, keyOf e ≠ keyOf line.header := by
    intro e he
    rw [← header_of_text hl hl' htext, keyOf_header hl']
    exact hfresh.2 line' List.mem_cons_self e he
  obtain ⟨headers'', hins', -⟩ := insertHeader_new hord hnew
  cases hins.symm.trans hins'
  exact hcode rfl

/-- The header loop stays in the buffer exactly if every line it comes to has a
colon or a NUL behind its start. -/
theorem parseHeadersReads_iff (fuel : Nat) (d : HttpRequest) (pre rest tail : List UInt8)
    (hfuel : rest.length < fuel) (hord : Ordered d.headers) :
    Inside (pre.length + rest.length)
        (parseHeadersReads (pre ++ (rest ++ tail)) (pre.length + rest.length) fuel d pre.length) ↔
      ¬ HeaderRunsOff d.headers rest := by
  induction fuel generalizing d pre rest with
  | zero => omega
  | succ fuel ih =>
    rw [parseHeadersReads, List.drop_left' rfl, rangeLine_eq, inside_append]
    simp only [rangeLineReads_inside, true_and]
    cases hl : splitPair 13 10 rest with
    | none => exact ⟨fun _ => headerRunsOff_none hl, fun _ => inside_nil _⟩
    | some p =>
      obtain ⟨l, rest'⟩ := p
      have hrest := splitPair_eq hl
      have hlength : rest.length = l.length + 2 + rest'.length := by
        rw [hrest]
        simp only [List.length_append, List.length_cons]
        omega
      rw [headerRunsOff_some hl]
      by_cases hnil : l = []
      · subst hnil
        simp only [List.length_nil, Nat.add_zero, if_true]
        refine ⟨fun _ h => ?_, fun _ => inside_nil _⟩
        obtain ⟨hne, -⟩ | ⟨line, -, htext, -⟩ := h
        · exact hne rfl
        · exact text_ne_nil line htext.symm
      have hne : ¬ pre.length = pre.length + l.length := by
        have hpos := List.length_pos_iff.mpr hnil
        omega
      simp only [if_neg hne]
      rw [inside_append, parseHeaderReads_iff pre rest tail (by omega) (by omega)]
      by_cases hstop : 58 ∈ rest ∨ 0 ∈ rest
      swap
      · push Not at hstop
        exact ⟨fun h => absurd h.1 (not_or.mpr hstop), fun h => absurd (.inl ⟨hnil, hstop⟩) h⟩
      have hfirst : ¬ (l ≠ [] ∧ 58 ∉ rest ∧ 0 ∉ rest) := by
        rintro ⟨-, hcolon, hnul⟩
        exact hstop.elim hcolon hnul
      simp only [hstop, true_and, hfirst, false_or]
      cases hh : headerOf l with
      | none =>
        have hm : pre ++ (rest ++ tail) = pre ++ (l ++ 13 :: 10 :: (rest' ++ tail)) := by
          simp [hrest]
        obtain ⟨hr, -⟩ | ⟨d', hr, -⟩ := parseHeader_none d pre rest' tail hh
        all_goals
          rw [hm, hr]
          refine ⟨fun _ h => ?_, fun _ => inside_nil _⟩
          obtain ⟨line, hwf, rfl, -⟩ := h
          cases hh.symm.trans (headerOf_text hwf)
      | some header =>
        obtain ⟨line, hwf, rfl, rfl⟩ := text_of_headerOf hh (splitPair_avoids hl)
        have hm : pre ++ (rest ++ tail) = pre ++ (line.text ++ (13 :: 10 :: (rest' ++ tail))) := by
          simp [hrest]
        have hparse := parseHeader_some d pre (13 :: 10 :: (rest' ++ tail)) hh
        cases hins : insertHeader d.headers line.header with
        | mk code headers =>
          by_cases hcode : code = .succeed
          · subst hcode
            have hm' : pre ++ (line.text ++ (13 :: 10 :: (rest' ++ tail))) =
                (pre ++ (line.text ++ [13, 10])) ++ (rest' ++ tail) := by simp
            have hn : pre.length + rest.length =
                (pre ++ (line.text ++ [13, 10])).length + rest'.length := by
              simp only [List.length_append, List.length_cons, List.length_nil]
              omega
            have hstart : pre.length + line.text.length + 2 =
                (pre ++ (line.text ++ [13, 10])).length := by
              simp only [List.length_append, List.length_cons, List.length_nil]
              omega
            have hord' := (freshKeys_insert hord hwf hins []).1
            have hrec := ih { d with headers } (pre ++ (line.text ++ [13, 10])) rest' (by omega) hord'
            rw [hins] at hparse
            rw [hm, hparse]
            simp only [hm', hn, hstart]
            rw [hrec, headerRunsOff_stored hord hwf hins]
          · rw [hins] at hparse
            have herror : parseHeader d (pre ++ (line.text ++ 13 :: 10 :: (rest' ++ tail))) pre.length
                (pre.length + line.text.length) =
                  .error (some (code, { d with state := .invalid })) := by
              rw [hparse]
              cases code <;> first | rfl | exact absurd rfl hcode
            rw [hm, herror]
            refine ⟨fun _ h => ?_, fun _ => inside_nil _⟩
            obtain ⟨line', hwf', htext, lines, rest'', -, -, hfresh, -⟩ := h
            exact not_freshKeys_of_refused hord hwf hins hcode hwf' htext hfresh

theorem afterStage_error {stage : Scan (HttpRequest × Nat)} {result : Return}
    (h : stage = .error result) (next : HttpRequest → Nat → List Nat) :
    afterStage stage next = [] := by
  rw [h]
  rfl

theorem afterStage_returns {code : HttpErrorCode} {stage : Scan (HttpRequest × Nat)}
    (h : Returns tail code stage) (next : HttpRequest → Nat → List Nat) :
    afterStage stage next = [] := by
  obtain ⟨hs, -⟩ | ⟨d, hs, -⟩ := h
  · exact afterStage_error hs next
  · exact afterStage_error hs next

theorem cut_behind {pre rest tail w rest' m : List UInt8} {n : Nat}
    (hm : m = pre ++ (rest ++ tail)) (hn : n = pre.length + rest.length) (hw : rest = w ++ rest') :
    m = (pre ++ w) ++ (rest' ++ tail) ∧ n = (pre ++ w).length + rest'.length := by
  constructor
  · rw [hm, hw]
    simp only [List.append_assoc]
  · rw [hn, hw, List.length_append, List.length_append, Nat.add_assoc]

def VersionRunsOff (b : List UInt8) : Prop :=
  ∃ version rest, versionReply b = .done version rest ∧ HeaderRunsOff [] rest

theorem versionStage_iff (d : HttpRequest) (pre rest tail : List UInt8) (hpre : pre ≠ [])
    (hd : d.headers = []) {m : List UInt8} {n : Nat} (hm : m = pre ++ (rest ++ tail))
    (hn : n = pre.length + rest.length) :
    Inside n (parseHttpVersionReads m n pre.length ++
        afterStage (parseHttpVersion d m n pre.length)
          fun destination start => parseHeadersReads m n n destination start) ↔
      ¬ VersionRunsOff rest := by
  have hspec := parseHttpVersion_spec d pre rest tail
  rw [← hm, ← hn] at hspec
  simp only [inside_append, parseHttpVersionReads_inside, true_and]
  have hstops : ∀ reads : List Nat, reads = [] →
      (∀ version rest', versionReply rest ≠ .done version rest') →
      (Inside n reads ↔ ¬ VersionRunsOff rest) := by
    rintro reads rfl hno
    refine ⟨fun _ => ?_, fun _ => inside_nil n⟩
    rintro ⟨version, rest', hv, -⟩
    exact hno version rest' hv
  cases hv : versionReply rest with
  | more =>
    rw [hv] at hspec
    exact hstops _ (afterStage_returns hspec _) fun _ _ h => by cases hv.symm.trans h
  | reject e =>
    rw [hv] at hspec
    exact hstops _ (afterStage_returns hspec.2 _) fun _ _ h => by cases hv.symm.trans h
  | done version rest' =>
    rw [hv] at hspec
    obtain ⟨w, -, hw, hspec⟩ := hspec
    obtain ⟨hm', hn'⟩ := cut_behind hm hn hw
    have hpos := List.length_pos_iff.mpr hpre
    have hfuel : rest'.length < n := by
      rw [hn', List.length_append]
      omega
    have hheaders := parseHeadersReads_iff n (withHttpVersion d version) (pre ++ w) rest' tail hfuel
      (by rw [withHttpVersion, hd]; exact List.Pairwise.nil)
    rw [← hm', ← hn'] at hheaders
    rw [hspec, afterStage, hheaders, not_iff_not, withHttpVersion, hd]
    constructor
    · intro h
      exact ⟨version, rest', hv, h⟩
    · rintro ⟨version', rest'', hv', h⟩
      cases hv.symm.trans hv'
      exact h

def UrlRunsOff (b : List UInt8) : Prop :=
  (token b ≠ [] ∧ token b = b) ∨
    ∃ url rest, urlReply b = .done url rest ∧ VersionRunsOff rest

theorem urlStage_iff (d : HttpRequest) (pre rest tail : List UInt8) (hpre : pre ≠ [])
    (hd : d.headers = []) {m : List UInt8} {n : Nat} (hm : m = pre ++ (rest ++ tail))
    (hn : n = pre.length + rest.length) :
    Inside n (parseUrlReads m n pre.length ++
        afterStage (parseUrl d m n pre.length) fun destination start =>
          parseHttpVersionReads m n start ++
            afterStage (parseHttpVersion destination m n start)
              fun destination start => parseHeadersReads m n n destination start) ↔
      ¬ UrlRunsOff rest := by
  have hspec := parseUrl_spec d pre rest tail
  have hreads := parseUrlReads_iff pre rest tail
  rw [← hm, ← hn] at hspec hreads
  rw [inside_append, hreads, UrlRunsOff, not_or, not_and]
  apply and_congr Iff.rfl
  cases hu : urlReply rest with
  | reject e =>
    rw [hu] at hspec
    exact hspec.elim
  | more =>
    rw [hu] at hspec
    have hnone : ¬ ∃ url rest', urlReply rest = .done url rest' ∧ VersionRunsOff rest' := by
      rintro ⟨url, rest', hdone, -⟩
      cases hu.symm.trans hdone
    rw [hu] at hnone
    obtain hreturns | ⟨d', start, hok, hbeyond⟩ := hspec
    · rw [afterStage_returns hreturns]
      exact ⟨fun _ => hnone, fun _ => inside_nil n⟩
    · have hstop : Returns tail .incompleteRequest (parseHttpVersion d' m n start) :=
        parseHttpVersion_beyond d' m hbeyond
      rw [hok, afterStage, afterStage_returns hstop, List.append_nil]
      exact ⟨fun _ => hnone, fun _ => parseHttpVersionReads_inside m start⟩
  | done url rest' =>
    rw [hu] at hspec
    obtain ⟨w, hw, hspec⟩ := hspec
    obtain ⟨hm', hn'⟩ := cut_behind hm hn hw
    have hstage := versionStage_iff (withUrl d url) (pre ++ w) rest' tail
      (fun h => hpre (List.append_eq_nil_iff.mp h).1) hd hm' hn'
    rw [hspec, afterStage, hstage, not_iff_not]
    constructor
    · intro h
      exact ⟨url, rest', rfl, h⟩
    · rintro ⟨url', rest'', hdone, h⟩
      cases hdone
      exact h

def MethodRunsOff (b : List UInt8) : Prop :=
  (strncmp (ascii "GET") b (token b).length = .eq ∧ token b = b) ∨
    ∃ rest, methodReply b = .done () rest ∧ UrlRunsOff rest

theorem fromBufferReads_iff {d : HttpRequest} (hd : Clean d) (b tail : List UInt8) :
    Inside b.length (httpRequestFromBufferReads d (b ++ tail) b.length) ↔ ¬ MethodRunsOff b := by
  have hspec := parseMethod_spec (httpRequestInitialize d) b tail
  rw [httpRequestFromBufferReads, entry_eq hd, inside_append, parseMethodReads_iff, MethodRunsOff,
    not_or, not_and]
  apply and_congr Iff.rfl
  cases hmethod : methodReply b with
  | reject e =>
    rw [hmethod] at hspec
    rw [afterStage_error hspec.2]
    refine ⟨fun _ => ?_, fun _ => inside_nil _⟩
    rintro ⟨rest, hdone, -⟩
    cases hdone
  | more =>
    rw [hmethod] at hspec
    have hnone : ¬ ∃ rest, (.more : Answer Unit) = .done () rest ∧ UrlRunsOff rest := by
      rintro ⟨rest, hdone, -⟩
      cases hdone
    obtain hreturns | ⟨d', start, hok, hbeyond⟩ := hspec
    · rw [afterStage_returns hreturns]
      exact ⟨fun _ => hnone, fun _ => inside_nil _⟩
    · have hstop : Returns tail .incompleteRequest (parseUrl d' (b ++ tail) b.length start) :=
        parseUrl_beyond d' _ hbeyond
      rw [hok, afterStage, afterStage_returns hstop, List.append_nil]
      exact ⟨fun _ => hnone, fun _ => parseUrlReads_beyond _ hbeyond⟩
  | done _ rest =>
    rw [hmethod] at hspec
    obtain ⟨w, hw, hspec⟩ := hspec
    have hne : w ≠ [] := by
      rintro rfl
      obtain ⟨m, gap, hb, -, -, -, hgap, -⟩ := methodReply_done hmethod
      have hlength := congrArg List.length (hw.symm.trans hb)
      have hpos := List.length_pos_iff.mpr hgap
      simp only [List.nil_append, List.length_append] at hlength
      omega
    have hstage := urlStage_iff (httpRequestInitialize d) w rest tail hne rfl
      (by rw [← List.append_assoc, ← hw]) (by rw [← List.length_append, ← hw])
    rw [hspec, afterStage, hstage, not_iff_not]
    constructor
    · intro h
      exact ⟨rest, rfl, h⟩
    · rintro ⟨rest', hdone, h⟩
      cases hdone
      exact h

theorem solid_of_token {b : List UInt8} (h : token b = b) : Solid b := by
  intro c hc
  simpa using List.takeWhile_eq_self_iff.mp h c hc

theorem token_of_solid {b : List UInt8} (h : Solid b) : token b = b := by
  apply List.takeWhile_eq_self_iff.mpr
  intro c hc
  simp [h c hc]

theorem runsOff_iff (b : List UInt8) : RunsOff b ↔ MethodRunsOff b := by
  constructor
  · intro h
    cases h with
    | method hsolid hget =>
      refine .inl ⟨?_, token_of_solid hsolid⟩
      rw [token_of_solid hsolid]
      exact hget
    | @url method gap url hsolid hget hblank hgap hurl hne =>
      refine .inr ⟨url, ?_, .inl ⟨?_, token_of_solid hurl⟩⟩
      · unfold methodReply
        have hhead := solid_head hurl hne []
        rw [List.append_nil] at hhead
        rw [token_append_blank hsolid hblank hgap, strncmp_append _ _ _ (Nat.le_refl _), hget,
          if_neg (by simp), word_done hsolid hblank hgap hhead]
        rfl
      · rw [token_of_solid hurl]
        exact hne
    | @header r rest hloose hleft =>
      obtain ⟨hmethod, hurl, hversion⟩ := requestLine_replies hloose (linesBytes r.lines ++ rest)
      refine .inr ⟨_, hmethod, .inr ⟨_, _, hurl, _, _, hversion, r.lines, rest, rfl, hloose.lines,
        ⟨hloose.keys, ?_⟩, hleft⟩⟩
      intro l hl e he
      cases he
  · rintro (⟨hget, hwhole⟩ | ⟨rest, hmethod, ⟨hne, hwhole⟩ | ⟨url, rest', hurl, version, rest'', hversion,
      lines, left, rfl, hlines, hfresh, hleft⟩⟩)
    · rw [hwhole] at hget
      exact .method (solid_of_token hwhole) hget
    · obtain ⟨m, gap, rfl, hget, hsolid, hblank, hgap, -⟩ := methodReply_done hmethod
      rw [hwhole] at hne
      exact .url hsolid hget hblank hgap (solid_of_token hwhole) hne
    · obtain ⟨m, gap, rfl, hget, hsolid, hblank, hgap, -⟩ := methodReply_done hmethod
      obtain ⟨gap', rfl, hurlSolid, hurlNe, hblank', hgap', -⟩ := urlReply_done hurl
      obtain ⟨rfl, hversionSolid, hversionNe⟩ := versionReply_done hversion
      exact .header (r := ⟨m, gap, url, gap', version, lines⟩)
        ⟨hget, hsolid, ⟨hblank, hgap⟩, ⟨hurlSolid, hurlNe⟩, ⟨hblank', hgap'⟩,
          ⟨hversionSolid, hversionNe⟩, hlines, hfresh.1⟩ hleft

/-- Parsing looks at bytes of the buffer only, unless it ends in the method, in
the url, or behind a header line without a colon or a NUL. -/
theorem reads_inside_iff {d : HttpRequest} (hd : Reachable d) (buffer tail : List UInt8) :
    (∀ i ∈ httpRequestFromBufferReads d (buffer ++ tail) buffer.length, i < buffer.length) ↔
      ¬ RunsOff buffer := by
  rw [runsOff_iff]
  exact fromBufferReads_iff hd.clean buffer tail

theorem reads_inside_iff_first_half :
    (∀ i ∈ httpRequestFromBufferReads (httpRequestInitialize freshBlock)
      (ascii "GET / H\r\na:" ++ [0]) (ascii "GET / H\r\na:").length,
      i < (ascii "GET / H\r\na:").length) ∧ ¬ RunsOff (ascii "GET / H\r\na:") := by
  have hreads : ∀ i ∈ httpRequestFromBufferReads (httpRequestInitialize freshBlock)
      (ascii "GET / H\r\na:" ++ [0]) (ascii "GET / H\r\na:").length,
      i < (ascii "GET / H\r\na:").length := by
    decide +kernel
  exact ⟨hreads, (reads_inside_iff (.fresh freshBlock) _ [0]).mp hreads⟩

/-- A method alone, a url alone, and a header line without a colon are read past
the end of the buffer. -/
theorem truncated_request_read_beyond :
    (¬ ∀ i ∈ httpRequestFromBufferReads (httpRequestInitialize freshBlock) (ascii "GET" ++ [0]) 3,
      i < 3) ∧
    (¬ ∀ i ∈ httpRequestFromBufferReads (httpRequestInitialize freshBlock) (ascii "GET /" ++ [0]) 5,
      i < 5) ∧
    ¬ ∀ i ∈ httpRequestFromBufferReads (httpRequestInitialize freshBlock)
      (ascii "GET / H\r\nab\r\n" ++ [0]) 13, i < 13 := by
  decide +kernel

end Hss.Reads
