import Hss.Http.Meaning

namespace Hss.Refinement

open Hss.CString Hss.Headers Hss.Request Hss.StreamParser Hss.Meaning

variable {pre rest tail : List UInt8} {d : HttpRequest}

theorem slice_append (a b c : List UInt8) :
    slice (a ++ (b ++ c)) a.length (a.length + b.length) = b := by
  simp [slice, List.take_append, List.take_of_length_le]

theorem slice_sub (m : List UInt8) (start stop k : Nat) :
    slice m start (stop - k) = (slice m start stop).take (stop - k - start) := by
  simp only [slice, List.drop_take, List.take_take]
  congr 1
  omega

theorem slice_eq_nil (m : List UInt8) {start stop : Nat} (h : stop ≤ start) :
    slice m start stop = [] := by
  simp only [slice, List.drop_eq_nil_iff, List.length_take]
  omega

theorem rangeNonBlank_eq :
    rangeNonBlank (pre ++ (rest ++ tail)) (pre.length + rest.length) pre.length =
      pre.length + (token rest).length := by
  rw [rangeNonBlank, slice_append]
  rfl

theorem rangeNonBlank_beyond (m : List UInt8) {length end_ : Nat} (h : length ≤ end_) :
    rangeNonBlank m length end_ = end_ := by
  simp [rangeNonBlank, slice_eq_nil m h]

theorem skipWhitespaces_eq (tail : List UInt8) (end_ : Nat) (hrest : rest ≠ []) :
    skipWhitespaces (end_ + rest.length) (rest ++ tail) end_ =
      if rest.dropWhile isspace = [] then .incomplete
      else .index (end_ + (rest.takeWhile isspace).length) := by
  induction rest generalizing end_ with
  | nil => exact absurd rfl hrest
  | cons c rest ih =>
    cases hc : isspace c with
    | false => simp [skipWhitespaces, hc]
    | true =>
      cases rest with
      | nil => simp [skipWhitespaces, hc]
      | cons b rest =>
        have hne : ¬ end_ + 1 = end_ + (c :: b :: rest).length := by
          simp only [List.length_cons]
          omega
        have hlen : end_ + (c :: b :: rest).length = end_ + 1 + (b :: rest).length := by
          simp only [List.length_cons]
          omega
        rw [List.cons_append, skipWhitespaces, if_pos hc, if_neg hne, hlen, ih (end_ + 1) (by simp)]
        simp only [List.dropWhile_cons, List.takeWhile_cons, hc, ↓reduceIte, List.length_cons,
          Nat.add_assoc, Nat.add_comm 1]

theorem skipWhitespaces_beyond (tail : List UInt8) {length end_ : Nat} (h : length ≤ end_) :
    (skipWhitespaces length tail end_ = .fault ∧ 0 ∉ tail) ∨
      ∃ i, length ≤ i ∧ skipWhitespaces length tail end_ = .index i := by
  induction tail generalizing end_ with
  | nil => exact .inl ⟨rfl, by simp⟩
  | cons c tail ih =>
    cases hc : isspace c with
    | false => exact .inr ⟨end_, h, by simp [skipWhitespaces, hc]⟩
    | true =>
      have hne : ¬ end_ + 1 = length := by omega
      have hnul : (0 : UInt8) ≠ c := by
        rintro rfl
        exact absurd hc (by decide)
      simp only [skipWhitespaces, hc, ↓reduceIte, hne, List.mem_cons, hnul, false_or]
      exact ih (Nat.le_succ_of_le h)

theorem rangeLine_eq (tail : List UInt8) (end_ : Nat) :
    rangeLine (end_ + rest.length) (rest ++ tail) end_ =
      match splitPair 13 10 rest with
      | none => .incomplete
      | some (l, _) => .index (end_ + l.length) := by
  induction rest generalizing end_ with
  | nil =>
    match tail with
    | [] => simp [rangeLine, splitPair]
    | [_] => simp [rangeLine, splitPair]
    | _ :: _ :: _ => simp [rangeLine, splitPair]
  | cons c rest ih =>
    cases rest with
    | nil =>
      cases tail with
      | nil => simp [rangeLine, splitPair]
      | cons _ _ => simp [rangeLine, splitPair]
    | cons b rest =>
      have hlt : end_ + 1 < end_ + (c :: b :: rest).length := by
        simp only [List.length_cons]
        omega
      have hlen : end_ + (c :: b :: rest).length = end_ + 1 + (b :: rest).length := by
        simp only [List.length_cons]
        omega
      simp only [List.cons_append, rangeLine, hlt, ↓reduceIte, splitPair]
      by_cases hcb : c = 13 ∧ b = 10
      · simp [hcb.1, hcb.2]
      · have hor : c ≠ 13 ∨ b ≠ 10 := by
          by_contra hno
          push Not at hno
          exact hcb hno
        rw [if_pos hor, if_neg hcb, hlen, ← List.cons_append, ih (end_ + 1)]
        cases splitPair 13 10 (b :: rest) with
        | none => rfl
        | some p => simp [Nat.add_assoc, Nat.add_comm 1]

theorem strchr_found {c : UInt8} {k m : List UInt8} (hc : c ∉ k) (h0 : 0 ∉ k) (i : Nat) :
    strchr c (k ++ c :: m) i = some (some (i + k.length)) := by
  induction k generalizing i with
  | nil => simp [strchr]
  | cons b k ih =>
    simp only [List.mem_cons, not_or] at hc h0
    simp only [List.cons_append, strchr, Ne.symm hc.1, Ne.symm h0.1, ↓reduceIte,
      ih hc.2 h0.2, List.length_cons, Nat.add_assoc, Nat.add_comm 1]

theorem strchr_null {c : UInt8} {k m : List UInt8} (hc : c ∉ k) (h0 : 0 ∈ k) (i : Nat) :
    strchr c (k ++ m) i = some none := by
  induction k generalizing i with
  | nil => cases h0
  | cons b k ih =>
    simp only [List.mem_cons, not_or] at hc
    rw [List.cons_append, strchr, if_neg (Ne.symm hc.1)]
    by_cases hb : b = 0
    · rw [if_pos hb]
    · have h0' : 0 ∈ k := by simpa [Ne.symm hb] using h0
      rw [if_neg hb, ih hc.2 h0']

theorem strchr_none {c : UInt8} {m : List UInt8} {i : Nat} (h : strchr c m i = none) : 0 ∉ m := by
  induction m generalizing i with
  | nil => simp
  | cons b m ih =>
    unfold strchr at h
    by_cases hbc : b = c
    · simp [hbc] at h
    · rw [if_neg hbc] at h
      by_cases hb : b = 0
      · simp [hb] at h
      · rw [if_neg hb] at h
        simp [Ne.symm hb, ih h]

theorem strchr_some {c : UInt8} {m : List UInt8} {i j : Nat} (h : strchr c m i = some (some j)) :
    ∃ k m', m = k ++ c :: m' ∧ j = i + k.length ∧ c ∉ k := by
  induction m generalizing i with
  | nil => simp [strchr] at h
  | cons b m ih =>
    unfold strchr at h
    by_cases hbc : b = c
    · simp only [hbc, ↓reduceIte, Option.some.injEq] at h
      exact ⟨[], m, by simp [hbc], by simp [h], by simp⟩
    · rw [if_neg hbc] at h
      by_cases hb : b = 0
      · simp [hb] at h
      · rw [if_neg hb] at h
        obtain ⟨k, m', rfl, rfl, hk⟩ := ih h
        exact ⟨b :: k, m', rfl, by simp [Nat.add_assoc, Nat.add_comm 1], by simp [Ne.symm hbc, hk]⟩

/-- An object no request can be read from; in the initial state it is empty. -/
def Idle (d : HttpRequest) : Prop :=
  d.state ≠ .parsed ∧ (d.state = .initialized → d = httpRequestInitialize d)

theorem idle_invalid (d : HttpRequest) : Idle { d with state := .invalid } :=
  ⟨by simp, by simp⟩

/-- The parser returns with this code, unless it has run off a memory without
any NUL. -/
def Returns {α : Type} (tail : List UInt8) (code : HttpErrorCode) (s : Scan α) : Prop :=
  (s = .error none ∧ 0 ∉ tail) ∨ ∃ d, s = .error (some (code, d)) ∧ Idle d

theorem returns_incomplete {α : Type} (tail : List UInt8) (d : HttpRequest) :
    Returns tail .incompleteRequest (triggerIncomplete d : Scan α) :=
  .inr ⟨_, rfl, idle_invalid d⟩

theorem returns_invalid {α : Type} (tail : List UInt8) (d : HttpRequest) :
    Returns tail .parseInvalidRequestSyntax (triggerInvalid d : Scan α) :=
  .inr ⟨_, rfl, idle_invalid d⟩

theorem Returns.bind {α γ : Type} {code : HttpErrorCode} {s : Scan α} (h : Returns tail code s)
    (f : α → Scan γ) : Returns tail code (s >>= f) := by
  obtain ⟨rfl, h0⟩ | ⟨d, rfl, hd⟩ := h
  · exact .inl ⟨rfl, h0⟩
  · exact .inr ⟨d, rfl, hd⟩

def Waits (tail : List UInt8) (length : Nat) (s : Scan (HttpRequest × Nat)) : Prop :=
  Returns tail .incompleteRequest s ∨ ∃ d n, s = .ok (d, n) ∧ length ≤ n

theorem token_append_dropWhile (b : List UInt8) : token b ++ b.dropWhile (!isspace ·) = b :=
  List.takeWhile_append_dropWhile

theorem length_token (pre rest : List UInt8) : pre.length + rest.length =
    pre.length + (token rest).length + (rest.dropWhile (!isspace ·)).length := by
  conv_lhs => rw [← token_append_dropWhile rest]
  rw [List.length_append, Nat.add_assoc]

theorem drop_token (pre rest tail : List UInt8) :
    (pre ++ (rest ++ tail)).drop (pre.length + (token rest).length) =
      rest.dropWhile (!isspace ·) ++ tail := by
  have hsplit : pre ++ (rest ++ tail) =
      (pre ++ token rest) ++ (rest.dropWhile (!isspace ·) ++ tail) := by
    conv_lhs => rw [← token_append_dropWhile rest]
    simp only [List.append_assoc]
  rw [hsplit, List.drop_left' (List.length_append ..)]

theorem skip_token (pre rest tail : List UInt8) :
    let k := pre.length + (token rest).length
    let s := skipWhitespaces (pre.length + rest.length) ((pre ++ (rest ++ tail)).drop k) k
    match (word isspace rest : Answer (List UInt8)) with
    | .done _ rest' => ∃ w, rest = w ++ rest' ∧ s = .index (pre ++ w).length
    | .more =>
      s = .incomplete ∨ (s = .fault ∧ 0 ∉ tail) ∨ ∃ i, pre.length + rest.length ≤ i ∧ s = .index i
    | .reject _ => False := by
  intro k s
  have hrest := token_append_dropWhile rest
  have hlen : pre.length + rest.length = k + (rest.dropWhile (!isspace ·)).length :=
    length_token pre rest
  have hdrop : (pre ++ (rest ++ tail)).drop k = rest.dropWhile (!isspace ·) ++ tail :=
    drop_token pre rest tail
  simp only [s, hdrop, hlen]
  unfold word
  by_cases hr : rest.dropWhile (!isspace ·) = []
  · rw [hr]
    exact .inr (skipWhitespaces_beyond tail (by simp))
  · rw [skipWhitespaces_eq tail k hr]
    cases hd : (rest.dropWhile (!isspace ·)).dropWhile isspace with
    | nil => exact .inl (by simp)
    | cons c rest' =>
      refine ⟨token rest ++ (rest.dropWhile (!isspace ·)).takeWhile isspace, ?_, ?_⟩
      · rw [List.append_assoc, ← hd, List.takeWhile_append_dropWhile, hrest]
      · simp [k, Nat.add_assoc]

theorem parseMethod_reject (h : strncmp (ascii "GET") rest (token rest).length ≠ .eq) :
    parseMethod d (rest ++ tail) rest.length = .error (some (.unsupportedMethod, d)) := by
  have he := @rangeNonBlank_eq [] rest tail
  simp only [List.nil_append, List.length_nil, Nat.zero_add] at he
  simp only [parseMethod, he, Nat.sub_zero, strncmp_append _ _ _ (token_length_le rest), h,
    ne_eq, not_false_eq_true, ↓reduceIte]

theorem parseMethod_eq (h : strncmp (ascii "GET") rest (token rest).length = .eq) :
    parseMethod d (rest ++ tail) rest.length =
      (skipWhitespaces rest.length ((rest ++ tail).drop (token rest).length)
        (token rest).length).orReturn d >>= fun end_ => .ok (d, end_) := by
  have he := @rangeNonBlank_eq [] rest tail
  simp only [List.nil_append, List.length_nil, Nat.zero_add] at he
  simp only [parseMethod, he, Nat.sub_zero, strncmp_append _ _ _ (token_length_le rest), h,
    ne_eq, not_true_eq_false, ↓reduceIte]

theorem scanned_waits {s : Scanned} {n : Nat} (d : HttpRequest)
    (h : s = .incomplete ∨ (s = .fault ∧ 0 ∉ tail) ∨ ∃ i, n ≤ i ∧ s = .index i) :
    Waits tail n (s.orReturn d >>= fun end_ => .ok (d, end_)) := by
  obtain rfl | ⟨rfl, h0⟩ | ⟨i, hi, rfl⟩ := h
  · exact .inl ((returns_incomplete tail d).bind _)
  · exact .inl (.inl ⟨rfl, h0⟩)
  · exact .inr ⟨d, i, rfl, hi⟩

theorem parseMethod_spec (d : HttpRequest) (rest tail : List UInt8) :
    match methodReply rest with
    | .done _ rest' => ∃ w, rest = w ++ rest' ∧
        parseMethod d (rest ++ tail) rest.length = .ok (d, w.length)
    | .more => Waits tail rest.length (parseMethod d (rest ++ tail) rest.length)
    | .reject e => e = .unsupportedMethod ∧
        parseMethod d (rest ++ tail) rest.length = .error (some (e, d)) := by
  unfold methodReply
  by_cases h : strncmp (ascii "GET") rest (token rest).length = .eq
  · rw [if_neg (not_not.mpr h), parseMethod_eq h]
    have hs := skip_token [] rest tail
    simp only [List.nil_append, List.length_nil, Nat.zero_add] at hs
    cases hw : (word isspace rest : Answer (List UInt8)) with
    | done t rest' =>
      rw [hw] at hs
      obtain ⟨w, hr, hs⟩ := hs
      exact ⟨w, hr, by rw [hs]; rfl⟩
    | more =>
      rw [hw] at hs
      exact scanned_waits d hs
    | reject e =>
      rw [hw] at hs
      exact hs.elim
  · rw [if_pos h]
    exact ⟨rfl, parseMethod_reject h⟩

def withUrl (d : HttpRequest) (url : List UInt8) : HttpRequest :=
  { d with startLine := { d.startLine with urlLength := url.length, url := some url } }

def withHttpVersion (d : HttpRequest) (version : List UInt8) : HttpRequest :=
  { d with startLine :=
    { d.startLine with httpVersionLength := version.length, httpVersion := some version } }

theorem slice_token (pre rest tail : List UInt8) :
    slice (pre ++ (rest ++ tail)) pre.length (pre.length + (token rest).length) = token rest := by
  have hsplit : pre ++ (rest ++ tail) =
      pre ++ (token rest ++ (rest.dropWhile (!isspace ·) ++ tail)) := by
    conv_lhs => rw [← token_append_dropWhile rest]
    simp only [List.append_assoc]
  rw [hsplit, slice_append]

theorem rangeNonBlank_of_token_nil (h : token rest = []) (pre tail : List UInt8) :
    pre.length = rangeNonBlank (pre ++ (rest ++ tail)) (pre.length + rest.length) pre.length := by
  rw [rangeNonBlank_eq, h, List.length_nil, Nat.add_zero]

theorem token_end_ne {n : Nat} (h : token rest ≠ []) : ¬ n = n + (token rest).length := by
  have hpos := List.length_pos_iff.mpr h
  omega

theorem parseUrl_beyond (d : HttpRequest) (m : List UInt8) {length start : Nat}
    (h : length ≤ start) : Returns tail .incompleteRequest (parseUrl d m length start) := by
  simp only [parseUrl, rangeNonBlank_beyond m h, ↓reduceIte]
  exact returns_incomplete tail d

theorem parseUrl_spec (d : HttpRequest) (pre rest tail : List UInt8) :
    let s := parseUrl d (pre ++ (rest ++ tail)) (pre.length + rest.length) pre.length
    match urlReply rest with
    | .done url rest' => ∃ w, rest = w ++ rest' ∧ s = .ok (withUrl d url, (pre ++ w).length)
    | .more => Waits tail (pre.length + rest.length) s
    | .reject _ => False := by
  intro s
  have hs := skip_token pre rest tail
  unfold urlReply
  by_cases ht : token rest = []
  · rw [if_pos ht]
    simp only [s, parseUrl, ← rangeNonBlank_of_token_nil ht, ↓reduceIte]
    exact .inl (returns_incomplete tail d)
  · rw [if_neg ht]
    simp only [s, parseUrl, rangeNonBlank_eq, token_end_ne ht, ↓reduceIte, slice_token,
      Nat.add_sub_cancel_left]
    cases hw : (word isspace rest : Answer (List UInt8)) with
    | done t rest' =>
      rw [hw] at hs
      obtain ⟨w, hr, hs⟩ := hs
      obtain rfl : token rest = t := by
        unfold word at hw
        split at hw
        · cases hw
        · injection hw
      exact ⟨w, hr, by rw [hs]; rfl⟩
    | more =>
      rw [hw] at hs
      exact scanned_waits _ hs
    | reject e =>
      rw [hw] at hs
      exact hs.elim

theorem parseHttpVersion_beyond (d : HttpRequest) (m : List UInt8) {length start : Nat}
    (h : length ≤ start) : Returns tail .incompleteRequest (parseHttpVersion d m length start) := by
  simp only [parseHttpVersion, rangeNonBlank_beyond m h, ↓reduceIte]
  exact returns_incomplete tail d

theorem parseHttpVersion_spec (d : HttpRequest) (pre rest tail : List UInt8) :
    let s := parseHttpVersion d (pre ++ (rest ++ tail)) (pre.length + rest.length) pre.length
    match versionReply rest with
    | .done version rest' => ∃ w, w ≠ [] ∧ rest = w ++ rest' ∧
        s = .ok (withHttpVersion d version, (pre ++ w).length)
    | .more => Returns tail .incompleteRequest s
    | .reject e => e = .parseInvalidRequestSyntax ∧ Returns tail e s := by
  intro s
  unfold versionReply
  by_cases ht : token rest = []
  · rw [if_pos ht]
    simp only [s, parseHttpVersion, ← rangeNonBlank_of_token_nil ht, ↓reduceIte]
    exact returns_incomplete tail d
  · rw [if_neg ht]
    have hrest := token_append_dropWhile rest
    have hlen : rest.length = (token rest).length + (rest.dropWhile (!isspace ·)).length := by
      conv_lhs => rw [← hrest]
      simp
    have hmem : pre ++ (rest ++ tail) =
        (pre ++ token rest) ++ (rest.dropWhile (!isspace ·) ++ tail) := by
      conv_lhs => rw [← hrest]
      simp only [List.append_assoc]
    have hpos : pre.length + (token rest).length = (pre ++ token rest).length := by simp
    simp only [s, parseHttpVersion, rangeNonBlank_eq, token_end_ne ht, ↓reduceIte, slice_token,
      Nat.add_sub_cancel_left]
    match hd : rest.dropWhile (!isspace ·) with
    | [] =>
      rw [if_pos (by rw [hd] at hlen; simp only [List.length_nil] at hlen; omega)]
      exact returns_incomplete tail _
    | [c] =>
      rw [if_pos (by rw [hd] at hlen; simp only [List.length_singleton] at hlen; omega)]
      exact returns_incomplete tail _
    | c :: e :: rest' =>
      rw [if_neg (by rw [hd] at hlen; simp only [List.length_cons] at hlen; omega), hmem, hd, hpos]
      have hc : (pre ++ token rest ++ (c :: e :: rest' ++ tail))[(pre ++ token rest).length]? =
          some c := by
        rw [List.getElem?_append_right (Nat.le_refl _), Nat.sub_self]
        rfl
      have he : (pre ++ token rest ++ (c :: e :: rest' ++ tail))[(pre ++ token rest).length + 1]? =
          some e := by
        rw [List.getElem?_append_right (Nat.le_add_right _ _), Nat.add_sub_cancel_left]
        rfl
      simp only [hc, he, ne_eq, Option.some.injEq]
      by_cases hce : c = 13 ∧ e = 10
      · obtain ⟨rfl, rfl⟩ := hce
        refine ⟨token rest ++ [13, 10], by simp, ?_, ?_⟩
        · conv_lhs => rw [← hrest, hd]
          simp
        · simp [withHttpVersion, Nat.add_assoc]
      · rw [if_neg hce, if_pos (by tauto)]
        exact ⟨rfl, returns_invalid tail _⟩

theorem trim_eq_take (v : List UInt8) :
    trim v = (v.dropWhile isspace).take
      ((v.dropWhile isspace).length - ((v.dropWhile isspace).reverse.takeWhile isspace).length) := by
  generalize hw : v.dropWhile isspace = w
  have hsplit : w = (w.reverse.dropWhile isspace).reverse ++ (w.reverse.takeWhile isspace).reverse := by
    rw [← List.reverse_append, List.takeWhile_append_dropWhile, List.reverse_reverse]
  rw [trim, hw, List.rdropWhile]
  generalize w.reverse.dropWhile isspace = kept at *
  generalize w.reverse.takeWhile isspace = cut at *
  subst hsplit
  simp

theorem headerOf_cases (l : List UInt8) :
    (58 ∉ l ∧ headerOf l = none) ∨
      ∃ key v, l = key ++ 58 :: v ∧ 58 ∉ key ∧
        headerOf l = if key.any isspace ∨ 0 ∈ key ∨ trim v = [] then none else some ⟨key, trim v⟩ := by
  have hkey : 58 ∉ l.takeWhile (· ≠ 58) := by
    intro hm
    have hp := List.mem_takeWhile_imp hm
    simp at hp
  unfold headerOf
  cases hd : l.dropWhile (· ≠ 58) with
  | nil =>
    refine .inl ⟨fun hm => ?_, rfl⟩
    have hp := List.dropWhile_eq_nil_iff.mp hd 58 hm
    simp at hp
  | cons c v =>
    obtain rfl : c = 58 := by
      have hne := List.head?_dropWhile_not (· ≠ 58) l
      rw [hd] at hne
      exact not_not.mp (of_decide_eq_false hne)
    refine .inr ⟨l.takeWhile (· ≠ 58), v, ?_, hkey, rfl⟩
    rw [← hd, List.takeWhile_append_dropWhile]

/-- A colon found behind a line without one lies behind the line end. -/
theorem cr_mem_of_colon_beyond {l k m rest : List UInt8} (hl : 58 ∉ l)
    (h : l ++ 13 :: 10 :: rest = k ++ 58 :: m) : 13 ∈ k := by
  obtain ⟨a, hk, ha⟩ | ⟨a, hla, ha⟩ := List.append_eq_append_iff.mp h
  · cases a with
    | nil => simp at ha
    | cons b a =>
      simp only [List.cons_append, List.cons.injEq] at ha
      simp [hk, ha.1]
  · cases a with
    | nil => simp at ha
    | cons b a =>
      simp only [List.cons_append, List.cons.injEq] at ha
      simp [hla, ← ha.1] at hl

theorem parseHeader_colon {key v : List UInt8} (d : HttpRequest) (pre rest : List UInt8)
    (hcolon : 58 ∉ key) (hnul : 0 ∉ key) :
    parseHeader d (pre ++ (key ++ 58 :: v ++ rest)) pre.length (pre.length + (key ++ 58 :: v).length) =
      if key.any isspace ∨ trim v = [] then triggerInvalid d
      else
        match insertHeader d.headers ⟨key, trim v⟩ with
        | (.succeed, headers) => .ok { d with headers }
        | (result, _) => .error (some (result, { d with state := .invalid })) := by
  have hkeyS : slice (pre ++ (key ++ 58 :: v ++ rest)) pre.length (pre.length + key.length) = key := by
    have hm : pre ++ (key ++ 58 :: v ++ rest) = pre ++ (key ++ (58 :: v ++ rest)) := by simp
    rw [hm, slice_append]
  have hvalue : slice (pre ++ (key ++ 58 :: v ++ rest)) (pre.length + key.length + 1)
      (pre.length + (key ++ 58 :: v).length) = v := by
    have hm : pre ++ (key ++ 58 :: v ++ rest) = (pre ++ key ++ [58]) ++ (v ++ rest) := by simp
    have hs := slice_append (pre ++ key ++ [58]) v rest
    rw [← hm] at hs
    convert hs using 2 <;> simp <;> omega
  have htrim : slice (pre ++ (key ++ 58 :: v ++ rest))
      (pre.length + key.length + 1 + (v.takeWhile isspace).length)
      (pre.length + (key ++ 58 :: v).length) = v.dropWhile isspace := by
    have hm : pre ++ (key ++ 58 :: v ++ rest) =
        (pre ++ key ++ [58] ++ v.takeWhile isspace) ++ (v.dropWhile isspace ++ rest) := by
      conv_lhs => rw [← List.takeWhile_append_dropWhile (p := isspace) (l := v)]
      simp only [List.append_assoc, List.cons_append, List.nil_append]
    have hs := slice_append (pre ++ key ++ [58] ++ v.takeWhile isspace) (v.dropWhile isspace) rest
    rw [← hm] at hs
    have hlen := congrArg List.length (List.takeWhile_append_dropWhile (p := isspace) (l := v))
    simp only [List.length_append] at hlen
    convert hs using 2 <;> simp <;> omega
  have hv := congrArg List.length (List.takeWhile_append_dropWhile (p := isspace) (l := v))
  have hcut := congrArg List.length (trim_eq_take v)
  have hle := (List.takeWhile_sublist (p := isspace) (l := (v.dropWhile isspace).reverse)).length_le
  simp only [List.length_append, List.length_take, List.length_reverse] at hv hcut hle
  unfold parseHeader
  rw [List.drop_left' rfl, List.append_assoc, List.cons_append, strchr_found hcolon hnul,
    ← List.cons_append, ← List.append_assoc key]
  have hstop : pre.length + (key ++ 58 :: v).length = pre.length + key.length + 1 + v.length := by
    simp only [List.length_append, List.length_cons]
    omega
  simp only [hkeyS, hvalue, slice_sub, htrim]
  by_cases hb : key.any isspace
  · simp [hb]
  · by_cases ht : trim v = []
    · simp only [ht, List.length_nil] at hcut
      rw [if_neg hb, if_pos (by omega), if_pos (.inr ht)]
    · have hpos := List.length_pos_iff.mpr ht
      rw [if_neg hb, if_neg (by omega), if_neg (by tauto), trim_eq_take v]
      congr 4
      omega

theorem parseHeader_none {l : List UInt8} (d : HttpRequest) (pre rest tail : List UInt8)
    (h : headerOf l = none) :
    Returns tail .parseInvalidRequestSyntax
      (parseHeader d (pre ++ (l ++ 13 :: 10 :: (rest ++ tail))) pre.length
        (pre.length + l.length)) := by
  obtain ⟨hl, -⟩ | ⟨key, v, rfl, hkey, hh⟩ := headerOf_cases l
  · unfold parseHeader
    rw [List.drop_left' rfl]
    cases hs : strchr 58 (l ++ 13 :: 10 :: (rest ++ tail)) pre.length with
    | none =>
      have h0 := strchr_none hs
      simp only [List.mem_append, List.mem_cons, not_or] at h0
      exact .inl ⟨rfl, h0.2.2.2.2⟩
    | some found =>
      cases found with
      | none => exact returns_invalid tail d
      | some j =>
        obtain ⟨k, m, hm, rfl, hk⟩ := strchr_some hs
        have hblank : k.any isspace := by
          rw [List.any_eq_true]
          exact ⟨13, cr_mem_of_colon_beyond hl hm, by decide⟩
        simp only [hm, slice_append, hblank, ↓reduceIte]
        exact returns_invalid tail d
  · by_cases h0 : 0 ∈ key
    · unfold parseHeader
      rw [List.drop_left' rfl, List.append_assoc, strchr_null hkey h0]
      exact returns_invalid tail d
    · have hbad : key.any isspace ∨ trim v = [] := by
        rw [h] at hh
        by_contra hno
        rw [if_neg (by tauto)] at hh
        cases hh
      rw [parseHeader_colon d pre _ hkey h0, if_pos hbad]
      exact returns_invalid tail d

theorem parseHeader_some {l : List UInt8} {header : Header} (d : HttpRequest)
    (pre rest : List UInt8) (h : headerOf l = some header) :
    parseHeader d (pre ++ (l ++ rest)) pre.length (pre.length + l.length) =
      match insertHeader d.headers header with
      | (.succeed, headers) => .ok { d with headers }
      | (result, _) => .error (some (result, { d with state := .invalid })) := by
  obtain ⟨-, hno⟩ | ⟨key, v, rfl, hkey, hh⟩ := headerOf_cases l
  · rw [h] at hno
    cases hno
  · rw [h] at hh
    split at hh
    · cases hh
    · obtain rfl := Option.some.inj hh
      rename_i hgood
      push Not at hgood
      rw [parseHeader_colon d pre rest hkey hgood.2.1, if_neg (by simp [hgood])]

theorem parseHeaders_spec (fuel : Nat) (d : HttpRequest) (pre rest tail : List UInt8)
    (hfuel : rest.length < fuel) :
    let s := parseHeaders (pre ++ (rest ++ tail)) (pre.length + rest.length) fuel d pre.length
    match repeated headerReply d.headers rest with
    | .done headers rest' => ∃ w, rest = w ++ rest' ∧ s = .ok ({ d with headers }, (pre ++ w).length)
    | .more => Returns tail .incompleteRequest s
    | .reject e => e ≠ .succeed ∧ Returns tail e s ∧
        (e = .duplicateHeaderKey → s ≠ .error none) := by
  induction fuel generalizing d pre rest with
  | zero => omega
  | succ fuel ih =>
    dsimp only
    rw [parseHeaders, List.drop_left' rfl, rangeLine_eq, repeated]
    simp only [headerReply, line]
    cases hl : splitPair 13 10 rest with
    | none => exact (returns_incomplete tail d).bind _
    | some p =>
      obtain ⟨l, rest'⟩ := p
      have hrest := splitPair_eq hl
      have hshort : rest'.length < rest.length := by
        rw [hrest]
        simp only [List.length_append, List.length_cons]
        omega
      by_cases hnil : l = []
      · subst hnil
        simp only [Reply.andThen, ↓reduceIte]
        exact ⟨[13, 10], hrest, by simp [Scanned.orReturn, bind, Except.bind]⟩
      · have hne : ¬ pre.length = pre.length + l.length := by
          have hpos := List.length_pos_iff.mpr hnil
          omega
        simp only [Reply.andThen, hnil, ↓reduceIte, Scanned.orReturn, bind, Except.bind, hne]
        cases hh : headerOf l with
        | none =>
          have hr := parseHeader_none d pre rest' tail hh
          have hm : pre ++ (rest ++ tail) = pre ++ (l ++ 13 :: 10 :: (rest' ++ tail)) := by
            simp [hrest]
          rw [hm]
          exact ⟨by simp, hr.bind _, by simp⟩
        | some header =>
          have hm : pre ++ (rest ++ tail) = pre ++ (l ++ (13 :: 10 :: (rest' ++ tail))) := by
            simp [hrest]
          rw [hm, parseHeader_some d pre _ hh]
          cases hins : insertHeader d.headers header with
          | mk code headers =>
            cases code
            case succeed =>
              have hr := ih { d with headers } (pre ++ (l ++ [13, 10])) rest' (by omega)
              have hm' : pre ++ (l ++ (13 :: 10 :: (rest' ++ tail))) =
                  (pre ++ (l ++ [13, 10])) ++ (rest' ++ tail) := by simp
              have hlen : pre.length + rest.length =
                  (pre ++ (l ++ [13, 10])).length + rest'.length := by
                rw [hrest]
                simp only [List.length_append, List.length_cons, List.length_nil]
                omega
              have hstart : pre.length + l.length + 2 = (pre ++ (l ++ [13, 10])).length := by
                simp [Nat.add_assoc]
              simp only [hins, hshort, ↓reduceIte, hm', hlen, hstart]
              cases hrep : repeated headerReply headers rest' with
              | more =>
                rw [hrep] at hr
                exact hr
              | reject e =>
                rw [hrep] at hr
                exact hr
              | done hs rest'' =>
                rw [hrep] at hr
                obtain ⟨w, hw, hr⟩ := hr
                refine ⟨l ++ 13 :: 10 :: w, by rw [hrest, hw]; simp, ?_⟩
                rw [hr]
                simp
            all_goals
              simp only [hins]
              exact ⟨by simp, .inr ⟨_, rfl, idle_invalid d⟩, by simp⟩

def parsedRequest (d : HttpRequest) (text : RequestText) : HttpRequest where
  state := .parsed
  startLine := ⟨d.startLine.method, some text.httpVersion, text.httpVersion.length,
    some text.url, text.url.length⟩
  headers := text.headers
  body := ⟨none, 0⟩

/-- The code the caller sees, unless the parser has run off the memory. -/
def Answers (tail : List UInt8) (code : HttpErrorCode) (r : Return) : Prop :=
  (r = none ∧ 0 ∉ tail) ∨ ∃ d, r = some (code, d) ∧ Idle d

def Clean (d : HttpRequest) : Prop := d.state = .initialized → d = httpRequestInitialize d

theorem Idle.clean (h : Idle d) : Clean d := h.2

theorem clean_parsedRequest (d : HttpRequest) (text : RequestText) : Clean (parsedRequest d text) := by
  simp [Clean, parsedRequest]

theorem clean_fresh (d : HttpRequest) : Clean (httpRequestInitialize d) := fun _ => rfl

theorem entry_eq (hd : Clean d) :
    (if d.state ≠ .initialized then httpRequestDestroy d else d) = httpRequestInitialize d := by
  by_cases hs : d.state = .initialized
  · rw [if_neg (not_not.mpr hs)]
    exact hd hs
  · rw [if_pos hs, httpRequestDestroy, if_neg hs]
    rfl

def outcome : Scan HttpRequest → Return
  | .error result => result
  | .ok destination => some (.succeed, destination)

theorem answers_of_returns {code : HttpErrorCode} {s : Scan HttpRequest}
    (h : Returns tail code s) : Answers tail code (outcome s) := by
  obtain ⟨rfl, h0⟩ | ⟨d, rfl, hd⟩ := h
  · exact .inl ⟨rfl, h0⟩
  · exact .inr ⟨d, rfl, hd⟩

theorem headers_answer (d : HttpRequest) (url version : List UInt8) {m : List UInt8} {n : Nat}
    (hm : m = pre ++ (rest ++ tail)) (hn : n = pre.length + rest.length) (hpre : pre ≠ [])
    (hd : d.headers = []) (hbody : d.body = ⟨none, 0⟩)
    (hline : d.startLine = ⟨d.startLine.method, some version, version.length, some url, url.length⟩) :
    let r := outcome (parseHeaders m n n d pre.length >>= fun p =>
      if p.2 ≠ n then triggerInvalid p.1 else .ok { p.1 with state := .parsed })
    match (repeated headerReply [] rest).andThen
        fun headers rest => (.done ⟨url, version, headers⟩ rest : Answer RequestText) with
    | .done text [] => r = some (.succeed, parsedRequest d text)
    | .done _ (_ :: _) => Answers tail .parseInvalidRequestSyntax r
    | .more => Answers tail .incompleteRequest r
    | .reject e => e ≠ .succeed ∧ Answers tail e r ∧ (e = .duplicateHeaderKey → r ≠ none) := by
  have hpos := List.length_pos_iff.mpr hpre
  have hs := parseHeaders_spec n d pre rest tail (by omega)
  rw [← hm, ← hn, hd] at hs
  cases hrep : repeated headerReply [] rest with
  | more =>
    rw [hrep] at hs
    exact answers_of_returns (hs.bind _)
  | reject e =>
    rw [hrep] at hs
    obtain ⟨hne, hreturns, hfound⟩ := hs
    refine ⟨hne, answers_of_returns (hreturns.bind _), fun hdup => ?_⟩
    obtain ⟨hnone, -⟩ | ⟨d', hs, -⟩ := hreturns
    · exact absurd hnone (hfound hdup)
    · simp [hs, bind, Except.bind, outcome]
  | done headers rest' =>
    rw [hrep] at hs
    obtain ⟨w, hw, hs⟩ := hs
    rw [hs]
    have hlen : n = (pre ++ w).length + rest'.length := by
      rw [hn, hw]
      simp [Nat.add_assoc]
    cases rest' with
    | nil =>
      have hend : (pre ++ w).length = n := by simpa using hlen.symm
      simp only [Reply.andThen, bind, Except.bind, hend, ne_eq, not_true_eq_false, ↓reduceIte,
        outcome, parsedRequest]
      rw [hbody, hline]
    | cons c rest' =>
      have hend : (pre ++ w).length ≠ n := by
        simp only [List.length_cons] at hlen
        omega
      simp only [Reply.andThen, bind, Except.bind, hend, ne_eq, not_false_eq_true, ↓reduceIte]
      exact answers_of_returns (returns_invalid tail _)

/-- The parser over memory computes the reply to the buffer's bytes alone. The search
for a key that turns out to be a duplicate has not run off. -/
theorem httpRequestFromBuffer_spec (hd : Clean d) (input tail : List UInt8) :
    let r := httpRequestFromBuffer d (input ++ tail) input.length
    match requestReply input with
    | .done text [] => r = some (.succeed, parsedRequest d text)
    | .done _ (_ :: _) => Answers tail .parseInvalidRequestSyntax r
    | .more => Answers tail .incompleteRequest r
    | .reject e => e ≠ .succeed ∧ Answers tail e r ∧ (e = .duplicateHeaderKey → r ≠ none) := by
  have hr : httpRequestFromBuffer d (input ++ tail) input.length =
      outcome (parseRequest (httpRequestInitialize d) (input ++ tail) input.length) := by
    unfold httpRequestFromBuffer
    rw [entry_eq hd]
    rfl
  dsimp only
  rw [hr]
  have h₁ := parseMethod_spec (httpRequestInitialize d) input tail
  generalize hm : input ++ tail = m at *
  generalize hn : input.length = n at *
  unfold parseRequest requestReply
  cases hmr : methodReply input with
  | reject e =>
    rw [hmr] at h₁
    obtain ⟨rfl, h₁⟩ := h₁
    rw [h₁]
    exact ⟨by simp, .inr ⟨_, rfl, by simp [Idle, httpRequestInitialize]⟩, by simp⟩
  | more =>
    rw [hmr] at h₁
    obtain h₁ | ⟨d₁, n₁, h₁, hbeyond⟩ := h₁
    · exact answers_of_returns (h₁.bind _)
    · rw [h₁]
      exact answers_of_returns ((parseUrl_beyond d₁ m hbeyond).bind _)
  | done _ rest₁ =>
    rw [hmr] at h₁
    obtain ⟨w₁, hw₁, h₁⟩ := h₁
    rw [h₁]
    have h₂ := parseUrl_spec (httpRequestInitialize d) w₁ rest₁ tail
    have hm₁ : w₁ ++ (rest₁ ++ tail) = m := by rw [← hm, hw₁, List.append_assoc]
    have hn₁ : w₁.length + rest₁.length = n := by rw [← hn, hw₁, List.length_append]
    rw [hm₁, hn₁] at h₂
    simp only [Reply.andThen, bind, Except.bind] at h₂ ⊢
    cases hur : urlReply rest₁ with
    | reject e =>
      rw [hur] at h₂
      exact h₂.elim
    | more =>
      rw [hur] at h₂
      obtain h₂ | ⟨d₂, n₂, h₂, hbeyond⟩ := h₂
      · exact answers_of_returns (h₂.bind _)
      · rw [h₂]
        exact answers_of_returns ((parseHttpVersion_beyond d₂ m hbeyond).bind _)
    | done url rest₂ =>
      rw [hur] at h₂
      obtain ⟨w₂, hw₂, h₂⟩ := h₂
      rw [h₂]
      have h₃ := parseHttpVersion_spec (withUrl (httpRequestInitialize d) url) (w₁ ++ w₂) rest₂ tail
      have hm₂ : (w₁ ++ w₂) ++ (rest₂ ++ tail) = m := by
        rw [← hm₁, hw₂]
        simp only [List.append_assoc]
      have hn₂ : (w₁ ++ w₂).length + rest₂.length = n := by
        rw [← hn₁, hw₂]
        simp only [List.length_append, Nat.add_assoc]
      rw [hm₂, hn₂] at h₃
      dsimp only at h₃ ⊢
      cases hvr : versionReply rest₂ with
      | reject e =>
        rw [hvr] at h₃
        obtain ⟨rfl, h₃⟩ := h₃
        exact ⟨by simp, answers_of_returns (h₃.bind _), by simp⟩
      | more =>
        rw [hvr] at h₃
        exact answers_of_returns (h₃.bind _)
      | done version rest₃ =>
        rw [hvr] at h₃
        obtain ⟨w₃, hne, hw₃, h₃⟩ := h₃
        rw [h₃]
        have hm₃ : m = (w₁ ++ w₂ ++ w₃) ++ (rest₃ ++ tail) := by
          rw [← hm₂, hw₃]
          simp only [List.append_assoc]
        have hn₃ : n = (w₁ ++ w₂ ++ w₃).length + rest₃.length := by
          rw [← hn₂, hw₃]
          simp only [List.length_append, Nat.add_assoc]
        exact headers_answer
          (withHttpVersion (withUrl (httpRequestInitialize d) url) version) url version hm₃ hn₃
          (by simp [hne]) rfl rfl rfl

end Hss.Refinement
