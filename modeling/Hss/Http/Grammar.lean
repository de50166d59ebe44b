import Hss.Http.Refinement

namespace Hss.Grammar

open Hss.CString Hss.Headers Hss.Request Hss.StreamParser Hss.Meaning Hss.Refinement

structure HeaderLine where
  key : List UInt8
  leading : List UInt8
  value : List UInt8
  trailing : List UInt8
  deriving DecidableEq

def HeaderLine.text (l : HeaderLine) : List UInt8 :=
  l.key ++ 58 :: (l.leading ++ (l.value ++ l.trailing))

def HeaderLine.header (l : HeaderLine) : Header := ⟨l.key, l.value⟩

def Solid (b : List UInt8) : Prop := ∀ c ∈ b, isspace c = false

@[mk_iff]
structure Trimmed (b : List UInt8) : Prop where
  head : ∃ c, b.head? = some c ∧ isspace c = false
  last : ∃ c, b.getLast? = some c ∧ isspace c = false

@[mk_iff]
structure HeaderLine.WellFormed (l : HeaderLine) : Prop where
  solid : Solid l.key
  noColon : 58 ∉ l.key
  noNul : 0 ∉ l.key
  leading : Blank l.leading
  trimmed : Trimmed l.value
  trailing : Blank l.trailing
  oneLine : ¬ [13, 10] <:+: l.text

structure RequestForm where
  method : List UInt8
  gap : List UInt8
  url : List UInt8
  gap' : List UInt8
  version : List UInt8
  lines : List HeaderLine
  deriving DecidableEq

def linesBytes (lines : List HeaderLine) : List UInt8 :=
  lines.flatMap fun l => l.text ++ [13, 10]

def RequestForm.bytes (r : RequestForm) : List UInt8 :=
  r.method ++ (r.gap ++ (r.url ++ (r.gap' ++ (r.version ++
    13 :: 10 :: (linesBytes r.lines ++ [13, 10])))))

/-- The requests the parser lets through. The method is compared over the
length of the token only, any blank separates, and a key may be empty. -/
@[mk_iff]
structure RequestForm.Loose (r : RequestForm) : Prop where
  method : strncmp (ascii "GET") r.method r.method.length = .eq
  methodSolid : Solid r.method
  gap : Blank r.gap ∧ r.gap ≠ []
  url : Solid r.url ∧ r.url ≠ []
  gap' : Blank r.gap' ∧ r.gap' ≠ []
  version : Solid r.version ∧ r.version ≠ []
  lines : ∀ l ∈ r.lines, l.WellFormed
  keys : (r.lines.map (·.key)).Nodup

structure RequestForm.Strict (r : RequestForm) : Prop extends r.Loose where
  get : r.method = ascii "GET"
  gapInLine : 13 ∉ r.gap ∧ 10 ∉ r.gap
  gapInLine' : 13 ∉ r.gap' ∧ 10 ∉ r.gap'
  keysNonempty : ∀ l ∈ r.lines, l.key ≠ []

instance (b : List UInt8) : Decidable (Blank b) :=
  inferInstanceAs (Decidable (∀ c ∈ b, isspace c = true))

instance (b : List UInt8) : Decidable (Solid b) :=
  inferInstanceAs (Decidable (∀ c ∈ b, isspace c = false))

instance (b : List UInt8) : Decidable (Trimmed b) :=
  decidable_of_iff ((∃ c ∈ b.head?, isspace c = false) ∧ ∃ c ∈ b.getLast?, isspace c = false)
    (trimmed_iff b).symm

theorem HeaderLine.wellFormed_iff_contains {l : HeaderLine} : l.WellFormed ↔ Solid l.key ∧
    l.key.contains 58 = false ∧ l.key.contains 0 = false ∧ Blank l.leading ∧ Trimmed l.value ∧
      Blank l.trailing ∧ ¬ [13, 10] <:+: l.text := by
  simp only [l.wellFormed_iff, ← Bool.not_eq_true, List.contains_iff_mem]

instance (l : HeaderLine) : Decidable l.WellFormed :=
  decidable_of_iff _ HeaderLine.wellFormed_iff_contains.symm

instance (r : RequestForm) : Decidable r.Loose := decidable_of_iff _ r.loose_iff.symm

theorem Trimmed.ne_nil {b : List UInt8} (h : Trimmed b) : b ≠ [] := by
  rintro rfl
  obtain ⟨c, hc, -⟩ := h.head
  cases hc

theorem rdropWhile_append_blank {v w : List UInt8} (hw : Blank w)
    (hv : ∃ c, v.getLast? = some c ∧ isspace c = false) : (v ++ w).rdropWhile isspace = v := by
  obtain ⟨c, hc, hcs⟩ := hv
  have hrev : (w.reverse ++ v.reverse).dropWhile isspace = v.reverse := by
    refine (takeWhile_append_sep (fun a ha => hw a (by simpa using ha)) fun a ha => ?_).2
    rw [List.head?_reverse, hc] at ha
    cases ha
    exact hcs
  rw [List.rdropWhile, List.reverse_append, hrev, List.reverse_reverse]

theorem trim_append {a v c : List UInt8} (ha : Blank a) (hv : Trimmed v) (hc : Blank c) :
    trim (a ++ (v ++ c)) = v := by
  obtain ⟨x, hx, hxs⟩ := hv.head
  have hd : (a ++ (v ++ c)).dropWhile isspace = v ++ c := by
    refine (takeWhile_append_sep ha fun y hy => ?_).2
    rw [List.head?_append, hx] at hy
    cases hy
    exact hxs
  rw [trim, hd, rdropWhile_append_blank hc hv.last]

theorem trim_trimmed {v : List UInt8} (h : trim v ≠ []) : Trimmed (trim v) := by
  constructor
  · obtain ⟨c, t, ht⟩ := List.exists_cons_of_ne_nil h
    obtain ⟨s, hs⟩ := List.rdropWhile_prefix (p := isspace) (l := v.dropWhile isspace)
    have hn := List.head?_dropWhile_not isspace v
    rw [← hs, ← trim, ht] at hn
    exact ⟨c, by rw [ht]; rfl, hn⟩
  · have hl : ¬ isspace ((trim v).getLast h) :=
      List.rdropWhile_last_not isspace (v.dropWhile isspace) h
    exact ⟨_, List.getLast?_eq_some_getLast h, by simpa using hl⟩

theorem trim_cases (v : List UInt8) : ∃ a c, v = a ++ (trim v ++ c) ∧ Blank a ∧ Blank c := by
  refine ⟨v.takeWhile isspace, (v.dropWhile isspace).rtakeWhile isspace, ?_, ?_, ?_⟩
  · rw [trim, List.rdropWhile_append_rtakeWhile, List.takeWhile_append_dropWhile]
  · exact fun c hc => List.mem_takeWhile_imp hc
  · exact fun c hc => List.mem_rtakeWhile_imp hc

theorem headerOf_text {l : HeaderLine} (h : l.WellFormed) : headerOf l.text = some l.header := by
  have hkey : ∀ c ∈ l.key, decide (c ≠ 58) := by
    intro c hc
    have hne : c ≠ 58 := fun he => h.noColon (he ▸ hc)
    simpa using hne
  obtain ⟨htake, hdrop⟩ := takeWhile_append_sep (w := 58 :: (l.leading ++ (l.value ++ l.trailing)))
    hkey (by simp)
  have hany : ¬ l.key.any isspace := by
    rw [List.any_eq_true]
    rintro ⟨c, hc, hs⟩
    simp [h.solid c hc] at hs
  unfold headerOf HeaderLine.text
  rw [htake, hdrop]
  simp only [trim_append h.leading h.trimmed h.trailing, h.trimmed.ne_nil, hany, h.noNul,
    or_self, Bool.false_eq_true, ↓reduceIte]
  rfl

theorem text_of_headerOf {b : List UInt8} {header : Header} (h : headerOf b = some header)
    (hline : ¬ [13, 10] <:+: b) : ∃ l : HeaderLine, l.WellFormed ∧ b = l.text ∧ header = l.header := by
  obtain ⟨-, hno⟩ | ⟨key, v, rfl, hkey, hh⟩ := headerOf_cases b
  · rw [h] at hno
    cases hno
  · rw [h] at hh
    split at hh
    · cases hh
    · rename_i hgood
      obtain rfl := Option.some.inj hh
      push Not at hgood
      obtain ⟨hsolid, hnul, hvalue⟩ := hgood
      obtain ⟨a, c, hv, ha, hc⟩ := trim_cases v
      have htext : key ++ 58 :: v = HeaderLine.text ⟨key, a, trim v, c⟩ := by
        rw [HeaderLine.text, ← hv]
      refine ⟨⟨key, a, trim v, c⟩, ⟨?_, hkey, hnul, ha, trim_trimmed hvalue, hc, htext ▸ hline⟩,
        htext, rfl⟩
      intro x hx
      by_contra hs
      exact hsolid (List.any_eq_true.mpr ⟨x, hx, by simpa using hs⟩)

theorem text_ne_nil (l : HeaderLine) : l.text ≠ [] := by
  simp [HeaderLine.text]

theorem keyOf_header {l : HeaderLine} (h : l.WellFormed) : keyOf l.header = l.key :=
  cstr_of_not_mem h.noNul

def FreshKeys (headers : List Header) (lines : List HeaderLine) : Prop :=
  (lines.map (·.key)).Nodup ∧ ∀ l ∈ lines, ∀ e ∈ headers, keyOf e ≠ l.key

theorem freshKeys_insert {headers headers' : List Header} {l : HeaderLine} (hord : Ordered headers)
    (hl : l.WellFormed) (hins : insertHeader headers l.header = (.succeed, headers'))
    (lines : List HeaderLine) :
    Ordered headers' ∧ (∀ e, e ∈ headers' ↔ e = l.header ∨ e ∈ headers) ∧
      (FreshKeys headers (l :: lines) ↔ FreshKeys headers' lines) := by
  have hnew : ∀ e ∈ headers, keyOf e ≠ keyOf l.header := by
    by_contra hdup
    push Not at hdup
    cases (insertHeader_duplicate hord hdup).symm.trans hins
  obtain ⟨headers₁, hins', hord', hmem⟩ := insertHeader_new hord hnew
  cases hins.symm.trans hins'
  rw [keyOf_header hl] at hnew
  refine ⟨hord', hmem, ?_, ?_⟩
  · rintro ⟨hnodup, hfresh⟩
    obtain ⟨hlkey, hnodup⟩ := List.nodup_cons.mp hnodup
    refine ⟨hnodup, fun l' hl' e he => ?_⟩
    obtain rfl | he := (hmem e).mp he
    · rw [keyOf_header hl]
      intro heq
      have hm : l'.key ∈ lines.map (·.key) := List.mem_map_of_mem hl'
      rw [← heq] at hm
      exact hlkey hm
    · exact hfresh l' (List.mem_cons_of_mem _ hl') e he
  · rintro ⟨hnodup, hfresh⟩
    refine ⟨List.nodup_cons.mpr ⟨fun hm => ?_, hnodup⟩, ?_⟩
    · obtain ⟨l', hl', hk⟩ := List.mem_map.mp hm
      exact hfresh l' hl' l.header ((hmem _).mpr (.inl rfl)) (by rw [keyOf_header hl, hk])
    · intro l' hl' e he
      obtain rfl | hl' := List.mem_cons.mp hl'
      · exact hnew e he
      · exact hfresh l' hl' e ((hmem e).mpr (.inr he))

theorem repeated_line {headers : List Header} {l : HeaderLine} (hl : l.WellFormed)
    (lines : List HeaderLine) (rest : List UInt8) :
    repeated headerReply headers (linesBytes (l :: lines) ++ (13 :: 10 :: rest)) =
      match insertHeader headers l.header with
      | (.succeed, headers') => repeated headerReply headers' (linesBytes lines ++ (13 :: 10 :: rest))
      | (code, _) => .reject code := by
  have hbytes : linesBytes (l :: lines) ++ 13 :: 10 :: rest =
      l.text ++ 13 :: 10 :: (linesBytes lines ++ 13 :: 10 :: rest) := by
    simp [linesBytes]
  have hsplit := splitPair_of_not_infix (by decide) hl.oneLine (linesBytes lines ++ 13 :: 10 :: rest)
  have hshort : (linesBytes lines ++ 13 :: 10 :: rest).length <
      (l.text ++ 13 :: 10 :: (linesBytes lines ++ 13 :: 10 :: rest)).length := by
    simp only [List.length_append, List.length_cons]
    omega
  rw [hbytes, repeated]
  simp only [headerReply, line, hsplit, Reply.andThen, text_ne_nil, ↓reduceIte, headerOf_text hl]
  cases insertHeader headers l.header with
  | mk code headers' => cases code <;> simp only [hshort, ↓reduceIte]

theorem headers_done_of_lines {lines : List HeaderLine} {headers : List Header} (rest : List UInt8)
    (hord : Ordered headers) (hwf : ∀ l ∈ lines, l.WellFormed) (hfresh : FreshKeys headers lines) :
    ∃ headers', repeated headerReply headers (linesBytes lines ++ (13 :: 10 :: rest)) =
        .done headers' rest ∧ Ordered headers' ∧
      ∀ e, e ∈ headers' ↔ e ∈ headers ∨ ∃ l ∈ lines, e = l.header := by
  induction lines generalizing headers with
  | nil =>
    refine ⟨headers, ?_, hord, by simp⟩
    rw [repeated]
    simp [linesBytes, headerReply, line, splitPair, Reply.andThen]
  | cons l lines ih =>
    have hl := hwf l (by simp)
    have hnewl : ∀ e ∈ headers, keyOf e ≠ keyOf l.header := by
      intro e he
      rw [keyOf_header hl]
      exact hfresh.2 l (by simp) e he
    obtain ⟨headers₁, hins, -, -⟩ := insertHeader_new hord hnewl
    obtain ⟨hord₁, hmem₁, hkeys⟩ := freshKeys_insert hord hl hins lines
    have hfresh₁ : FreshKeys headers₁ lines := hkeys.mp hfresh
    obtain ⟨headers', hrep, hord', hmem'⟩ := ih hord₁ (fun l' hl' => hwf l' (by simp [hl'])) hfresh₁
    refine ⟨headers', ?_, hord', fun e => ?_⟩
    · rw [repeated_line hl, hins]
      exact hrep
    · rw [hmem', hmem₁]
      simp only [List.mem_cons, exists_eq_or_imp]
      tauto

theorem headers_reject_of_lines {lines : List HeaderLine} {headers : List Header}
    (rest : List UInt8) (hord : Ordered headers) (hwf : ∀ l ∈ lines, l.WellFormed)
    (hdup : ¬ FreshKeys headers lines) :
    repeated headerReply headers (linesBytes lines ++ (13 :: 10 :: rest)) =
      .reject .duplicateHeaderKey := by
  induction lines generalizing headers with
  | nil => exact absurd ⟨List.nodup_nil, by simp⟩ hdup
  | cons l lines ih =>
    have hl := hwf l List.mem_cons_self
    rw [repeated_line hl]
    by_cases hstored : ∃ e ∈ headers, keyOf e = keyOf l.header
    · rw [insertHeader_duplicate hord hstored]
    · push Not at hstored
      obtain ⟨headers', hins, hord', -⟩ := insertHeader_new hord hstored
      rw [hins]
      apply ih hord' fun l' hl' => hwf l' (List.mem_cons_of_mem _ hl')
      intro hfresh
      exact hdup ((freshKeys_insert hord hl hins lines).2.2.mpr hfresh)

theorem lines_of_headers_done {b rest : List UInt8} {headers headers' : List Header}
    (hord : Ordered headers) (h : repeated headerReply headers b = .done headers' rest) :
    ∃ lines : List HeaderLine, b = linesBytes lines ++ (13 :: 10 :: rest) ∧
      (∀ l ∈ lines, l.WellFormed) ∧ FreshKeys headers lines := by
  induction hn : b.length using Nat.strongRecOn generalizing b headers with
  | _ n ih =>
    rw [repeated] at h
    simp only [headerReply, line] at h
    cases hs : splitPair 13 10 b with
    | none => simp [hs, Reply.andThen] at h
    | some p =>
      obtain ⟨l, rest'⟩ := p
      have hb := splitPair_eq hs
      simp only [hs, Reply.andThen] at h
      by_cases hl : l = []
      · subst hl
        simp only [↓reduceIte] at h
        injection h with _ hr
        exact ⟨[], by simp [linesBytes, hb, hr], by simp, by simp [FreshKeys]⟩
      · simp only [hl, ↓reduceIte] at h
        cases hh : headerOf l with
        | none => simp [hh] at h
        | some header =>
          simp only [hh] at h
          obtain ⟨l, hwf, rfl, rfl⟩ := text_of_headerOf hh (splitPair_avoids hs)
          by_cases hdup : ∃ e ∈ headers, keyOf e = keyOf l.header
          · simp [insertHeader_duplicate hord hdup] at h
          · push Not at hdup
            obtain ⟨headers₁, hins, -, -⟩ := insertHeader_new hord hdup
            have hshort : rest'.length < b.length := by
              rw [hb]
              simp only [List.length_append, List.length_cons]
              omega
            simp only [hins, hshort, ↓reduceIte] at h
            have hord₁ := (freshKeys_insert hord hwf hins []).1
            obtain ⟨lines, hbytes, hlines, hfresh⟩ := ih rest'.length (hn ▸ hshort) hord₁ h rfl
            refine ⟨l :: lines, ?_, ?_, (freshKeys_insert hord hwf hins lines).2.2.mpr hfresh⟩
            · rw [hb, hbytes]
              simp [linesBytes]
            · simpa [hwf] using hlines

theorem token_append_blank {t w : List UInt8} (ht : Solid t) (hw : Blank w) (hne : w ≠ [])
    (rest : List UInt8) : token (t ++ (w ++ rest)) = t := by
  obtain ⟨c, w, rfl⟩ := List.exists_cons_of_ne_nil hne
  exact (takeWhile_append_sep (by simpa [Solid] using ht) (by simp [hw c (by simp)])).1

theorem solid_head {t : List UInt8} (ht : Solid t) (hne : t ≠ []) (rest : List UInt8) :
    ∃ c, (t ++ rest).head? = some c ∧ isspace c = false := by
  obtain ⟨c, t, rfl⟩ := List.exists_cons_of_ne_nil hne
  exact ⟨c, rfl, ht c (by simp)⟩

theorem word_done {t w rest : List UInt8} (ht : Solid t) (hw : Blank w) (hne : w ≠ [])
    (hrest : ∃ c, rest.head? = some c ∧ isspace c = false) :
    (word isspace (t ++ (w ++ rest)) : Answer (List UInt8)) = .done t rest :=
  word_done_iff.mpr ⟨w, rfl, ht, hne, hw, hrest⟩

theorem requestLine_replies {r : RequestForm} (h : r.Loose) (b : List UInt8) :
    methodReply (r.method ++ (r.gap ++ (r.url ++ (r.gap' ++ (r.version ++ 13 :: 10 :: b))))) =
        .done () (r.url ++ (r.gap' ++ (r.version ++ 13 :: 10 :: b))) ∧
      urlReply (r.url ++ (r.gap' ++ (r.version ++ 13 :: 10 :: b))) =
        .done r.url (r.version ++ 13 :: 10 :: b) ∧
      versionReply (r.version ++ 13 :: 10 :: b) = .done r.version b := by
  refine ⟨?_, ?_, ?_⟩
  · unfold methodReply
    rw [token_append_blank h.methodSolid h.gap.1 h.gap.2, strncmp_append _ _ _ (Nat.le_refl _),
      h.method, if_neg (by simp),
      word_done h.methodSolid h.gap.1 h.gap.2 (solid_head h.url.1 h.url.2 _)]
    rfl
  · unfold urlReply
    rw [token_append_blank h.url.1 h.gap'.1 h.gap'.2, if_neg h.url.2,
      word_done h.url.1 h.gap'.1 h.gap'.2 (solid_head h.version.1 h.version.2 _)]
  · obtain ⟨htake, hdrop⟩ := takeWhile_append_sep (p := (!isspace ·)) (t := r.version)
      (w := 13 :: 10 :: b) (by simpa [Solid] using h.version.1) (by simp; decide)
    have htoken : token (r.version ++ 13 :: 10 :: b) = r.version := htake
    simp only [versionReply, htoken, h.version.2, ↓reduceIte, hdrop, and_self]

theorem accepted_of_loose {r : RequestForm} (h : r.Loose) :
    ∃ headers, requestReply r.bytes = .done ⟨r.url, r.version, headers⟩ [] ∧ Ordered headers ∧
      ∀ e, e ∈ headers ↔ ∃ l ∈ r.lines, e = l.header := by
  obtain ⟨headers, hrep, hord, hmem⟩ := headers_done_of_lines [] (List.Pairwise.nil) h.lines
    ⟨h.keys, by simp⟩
  obtain ⟨hmethod, hurl, hversion⟩ := requestLine_replies h (linesBytes r.lines ++ [13, 10])
  refine ⟨headers, ?_, hord, by simpa using hmem⟩
  simp only [requestReply, RequestForm.bytes, hmethod, hurl, hversion, Reply.andThen, hrep]

theorem methodReply_done {b rest : List UInt8} (h : methodReply b = .done () rest) :
    ∃ m w, b = m ++ (w ++ rest) ∧ strncmp (ascii "GET") m m.length = .eq ∧ Solid m ∧
      Blank w ∧ w ≠ [] ∧ ∃ c, rest.head? = some c ∧ isspace c = false := by
  unfold methodReply at h
  by_cases hm : strncmp (ascii "GET") b (token b).length = .eq
  · rw [if_neg (not_not.mpr hm)] at h
    cases hw : (word isspace b : Answer (List UInt8)) with
    | more => simp [hw, Reply.andThen] at h
    | reject e => simp [hw, Reply.andThen] at h
    | done t rest' =>
      simp only [hw, Reply.andThen] at h
      injection h with _ hr
      subst hr
      obtain ⟨w, rfl, ht, hne, hblank, hhead⟩ := word_done_iff.mp hw
      rw [token_append_blank ht hblank hne, strncmp_append _ _ _ (Nat.le_refl _)] at hm
      exact ⟨t, w, rfl, hm, ht, hblank, hne, hhead⟩
  · simp [hm] at h

theorem urlReply_done {b url rest : List UInt8} (h : urlReply b = .done url rest) :
    ∃ w, b = url ++ (w ++ rest) ∧ Solid url ∧ url ≠ [] ∧ Blank w ∧ w ≠ [] ∧
      ∃ c, rest.head? = some c ∧ isspace c = false := by
  unfold urlReply at h
  by_cases ht : token b = []
  · simp [ht] at h
  · rw [if_neg ht] at h
    obtain ⟨w, rfl, hsolid, hne, hblank, hhead⟩ := word_done_iff.mp h
    rw [token_append_blank hsolid hblank hne] at ht
    exact ⟨w, rfl, hsolid, ht, hblank, hne, hhead⟩

theorem versionReply_done {b version rest : List UInt8} (h : versionReply b = .done version rest) :
    b = version ++ 13 :: 10 :: rest ∧ Solid version ∧ version ≠ [] := by
  unfold versionReply at h
  by_cases ht : token b = []
  · simp [ht] at h
  · rw [if_neg ht] at h
    split at h
    · rename_i c d rest' hd
      split at h
      · rename_i hcd
        injection h with hv hr
        subst hv hr
        refine ⟨?_, fun c hc => ?_, ht⟩
        · rw [← hcd.1, ← hcd.2, ← hd]
          exact (token_append_dropWhile b).symm
        · have hp := List.mem_takeWhile_imp hc
          simpa using hp
      · cases h
    · cases h

theorem loose_of_accepted {b : List UInt8} {text : RequestText}
    (h : requestReply b = .done text []) : ∃ r : RequestForm, r.Loose ∧ r.bytes = b := by
  unfold requestReply at h
  cases hm : methodReply b with
  | more => simp [hm, Reply.andThen] at h
  | reject e => simp [hm, Reply.andThen] at h
  | done _ b₁ =>
    simp only [hm, Reply.andThen] at h
    cases hu : urlReply b₁ with
    | more => simp [hu] at h
    | reject e => simp [hu] at h
    | done url b₂ =>
      simp only [hu] at h
      cases hv : versionReply b₂ with
      | more => simp [hv] at h
      | reject e => simp [hv] at h
      | done version b₃ =>
        simp only [hv] at h
        cases hh : repeated headerReply [] b₃ with
        | more => simp [hh] at h
        | reject e => simp [hh] at h
        | done headers b₄ =>
          simp only [hh] at h
          injection h with _ hb₄
          subst hb₄
          obtain ⟨lines, hb₃, hlines, hkeys, -⟩ := lines_of_headers_done List.Pairwise.nil hh
          obtain ⟨m, w, hb, hget, hsolid, hw, hwne, -⟩ := methodReply_done hm
          obtain ⟨w', hb₁, hurl, hurlne, hw', hwne', -⟩ := urlReply_done hu
          obtain ⟨hb₂, hver, hverne⟩ := versionReply_done hv
          refine ⟨⟨m, w, url, w', version, lines⟩, ⟨hget, hsolid, ⟨hw, hwne⟩, ⟨hurl, hurlne⟩,
            ⟨hw', hwne'⟩, ⟨hver, hverne⟩, hlines, hkeys⟩, ?_⟩
          rw [hb, hb₁, hb₂, hb₃]
          rfl

theorem text_unique {l l' : HeaderLine} (h : l.WellFormed) (h' : l'.WellFormed)
    (ht : l.text = l'.text) : l = l' := by
  have hnot : ∀ {l : HeaderLine}, l.WellFormed → ∀ c ∈ l.key, decide (c ≠ 58) := by
    intro l hl c hc
    have hne : c ≠ 58 := fun he => hl.noColon (he ▸ hc)
    simpa using hne
  obtain ⟨hkey, hrest⟩ := cut_unique (hnot h) (by simp) (hnot h') (by simp) ht
  have hvalue : l.leading ++ (l.value ++ l.trailing) = l'.leading ++ (l'.value ++ l'.trailing) :=
    (List.cons.inj hrest).2
  have htrim : l.value = l'.value := by
    rw [← trim_append h.leading h.trimmed h.trailing, hvalue,
      trim_append h'.leading h'.trimmed h'.trailing]
  have hhead : ∀ {l : HeaderLine}, l.WellFormed →
      ∀ c, (l.value ++ l.trailing).head? = some c → isspace c = false := by
    intro l hl c hc
    obtain ⟨x, hx, hxs⟩ := hl.trimmed.head
    rw [List.head?_append, hx] at hc
    cases hc
    exact hxs
  obtain ⟨hlead, htail⟩ := cut_unique h.leading (hhead h) h'.leading (hhead h') hvalue
  rw [htrim] at htail
  have htrailing := List.append_cancel_left htail
  cases l
  cases l'
  simp only at hkey hlead htrim htrailing
  subst hkey hlead htrim htrailing
  rfl

theorem lines_unique {lines lines' : List HeaderLine} (h : ∀ l ∈ lines, l.WellFormed)
    (h' : ∀ l ∈ lines', l.WellFormed)
    (hb : linesBytes lines ++ [13, 10] = linesBytes lines' ++ [13, 10]) : lines = lines' := by
  have hcons : ∀ (l : HeaderLine) (ls : List HeaderLine), l.WellFormed →
      splitPair 13 10 (linesBytes (l :: ls) ++ [13, 10]) = some (l.text, linesBytes ls ++ [13, 10]) := by
    intro l ls hl
    have hs := splitPair_of_not_infix (by decide) hl.oneLine (linesBytes ls ++ [13, 10])
    simpa [linesBytes] using hs
  have hnil : splitPair 13 10 (linesBytes [] ++ [13, 10]) = some ([], []) := by
    simp [linesBytes, splitPair]
  induction lines generalizing lines' with
  | nil =>
    cases lines' with
    | nil => rfl
    | cons l' lines' =>
      rw [hb, hcons l' lines' (h' l' (by simp))] at hnil
      simp [text_ne_nil] at hnil
  | cons l lines ih =>
    have hl := hcons l lines (h l (by simp))
    cases lines' with
    | nil =>
      rw [hb, hnil] at hl
      exact absurd (Prod.mk.inj (Option.some.inj hl)).1.symm (text_ne_nil l)
    | cons l' lines' =>
      rw [hb, hcons l' lines' (h' l' (by simp))] at hl
      simp only [Option.some.injEq, Prod.mk.injEq] at hl
      rw [text_unique (h' l' (by simp)) (h l (by simp)) hl.1,
        ih (fun k hk => h k (by simp [hk])) (fun k hk => h' k (by simp [hk])) hl.2.symm]

theorem loose_unique {r r' : RequestForm} (h : r.Loose) (h' : r'.Loose) (hb : r.bytes = r'.bytes) :
    r = r' := by
  have hblank : ∀ {w rest : List UInt8}, Blank w → w ≠ [] →
      ∀ c, (w ++ rest).head? = some c → (!isspace c) = false := by
    intro w rest hw hne c hc
    obtain ⟨x, w, rfl⟩ := List.exists_cons_of_ne_nil hne
    cases hc
    simp [hw c (by simp)]
  have hsolid : ∀ {t rest : List UInt8}, Solid t → t ≠ [] →
      ∀ c, (t ++ rest).head? = some c → isspace c = false := by
    intro t rest ht hne c hc
    obtain ⟨x, hx, hxs⟩ := solid_head ht hne rest
    rw [hx] at hc
    cases hc
    exact hxs
  have hcrlf : ∀ {rest : List UInt8} c, (13 :: 10 :: rest).head? = some c → (!isspace c) = false := by
    intro rest c hc
    cases hc
    decide
  have hall : ∀ {t : List UInt8}, Solid t → ∀ c ∈ t, (!isspace c) = true := by
    intro t ht c hc
    simp [ht c hc]
  obtain ⟨hm, hb⟩ := cut_unique (hall h.methodSolid) (hblank h.gap.1 h.gap.2) (hall h'.methodSolid)
    (hblank h'.gap.1 h'.gap.2) hb
  obtain ⟨hg, hb⟩ := cut_unique h.gap.1 (hsolid h.url.1 h.url.2) h'.gap.1
    (hsolid h'.url.1 h'.url.2) hb
  obtain ⟨hu, hb⟩ := cut_unique (hall h.url.1) (hblank h.gap'.1 h.gap'.2) (hall h'.url.1)
    (hblank h'.gap'.1 h'.gap'.2) hb
  obtain ⟨hg', hb⟩ := cut_unique h.gap'.1 (hsolid h.version.1 h.version.2) h'.gap'.1
    (hsolid h'.version.1 h'.version.2) hb
  obtain ⟨hv, hb⟩ := cut_unique (hall h.version.1) hcrlf (hall h'.version.1) hcrlf hb
  have hl := lines_unique h.lines h'.lines (by simpa using hb)
  cases r
  cases r'
  simp only at hm hg hu hg' hv hl
  subst hm hg hu hg' hv hl
  rfl

end Hss.Grammar
