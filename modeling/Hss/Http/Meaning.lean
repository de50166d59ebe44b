import Hss.Http.Request
import Hss.Lib.StreamParser
import Mathlib.Data.List.DropRight

namespace Hss.Meaning

open Hss.CString Hss.Headers Hss.Request Hss.StreamParser

structure RequestText where
  url : List UInt8
  httpVersion : List UInt8
  headers : List Header
  deriving DecidableEq, Repr

abbrev Answer (α : Type) := Reply UInt8 HttpErrorCode α

def token (b : List UInt8) : List UInt8 := b.takeWhile (!isspace ·)

def methodReply (b : List UInt8) : Answer Unit :=
  if strncmp (ascii "GET") b (token b).length ≠ .eq then .reject .unsupportedMethod
  else (word isspace b).andThen fun _ rest => .done () rest

def urlReply (b : List UInt8) : Answer (List UInt8) :=
  if token b = [] then .more else word isspace b

def versionReply (b : List UInt8) : Answer (List UInt8) :=
  if token b = [] then .more
  else
    match b.dropWhile (!isspace ·) with
    | c :: d :: rest =>
      if c = 13 ∧ d = 10 then .done (token b) rest else .reject .parseInvalidRequestSyntax
    | _ => .more

def trim (l : List UInt8) : List UInt8 := (l.dropWhile isspace).rdropWhile isspace

/-- The header of a line that has one: a colon behind a key without blanks and
NUL, and a value that is not blank. -/
def headerOf (line : List UInt8) : Option Header :=
  let key := line.takeWhile (· ≠ 58)
  match line.dropWhile (· ≠ 58) with
  | [] => none
  | _ :: value =>
    if key.any isspace ∨ 0 ∈ key ∨ trim value = [] then none else some ⟨key, trim value⟩

def headerReply (headers : List Header) (b : List UInt8) : Answer (List Header ⊕ List Header) :=
  (line 13 10 b).andThen fun l rest =>
    if l = [] then .done (.inr headers) rest
    else
      match headerOf l with
      | none => .reject .parseInvalidRequestSyntax
      | some header =>
        match insertHeader headers header with
        | (.succeed, headers') => .done (.inl headers') rest
        | (result, _) => .reject result

/-- The request parser without memory, indices and request object. -/
def requestReply (b : List UInt8) : Answer RequestText :=
  (methodReply b).andThen fun _ b =>
    (urlReply b).andThen fun url b =>
      (versionReply b).andThen fun version b =>
        (repeated headerReply [] b).andThen fun headers rest => .done ⟨url, version, headers⟩ rest

theorem strncmp_append (s b t : List UInt8) {n : Nat} (h : n ≤ b.length) :
    strncmp s (b ++ t) n = strncmp s b n := by
  induction n generalizing s b with
  | zero => cases s <;> rfl
  | succ n ih =>
    cases b with
    | nil => simp at h
    | cons c b =>
      simp only [strncmp, List.cons_append, List.headD_cons, List.tail_cons]
      rw [ih s.tail b (by simpa using h)]
      rfl

theorem strncmp_le {s b : List UInt8} {n m : Nat} (h : strncmp s b m = .eq) (hnm : n ≤ m) :
    strncmp s b n = .eq := by
  induction n generalizing s b m with
  | zero => cases s <;> rfl
  | succ n ih =>
    obtain ⟨m, rfl⟩ : ∃ k, m = k + 1 := ⟨m - 1, by omega⟩
    unfold strncmp at h ⊢
    by_cases hlt : s.headD 0 < b.headD 0
    · rw [if_pos hlt] at h
      cases h
    · by_cases hgt : b.headD 0 < s.headD 0
      · rw [if_neg hlt, if_pos hgt] at h
        cases h
      · rw [if_neg hlt, if_neg hgt] at h ⊢
        by_cases hnul : s.headD 0 = 0
        · rw [if_pos hnul]
        · rw [if_neg hnul] at h ⊢
          exact ih h (by omega)

theorem token_length_le (b : List UInt8) : (token b).length ≤ b.length :=
  (List.takeWhile_sublist _).length_le

theorem token_isPrefix_append (b t : List UInt8) : token b <+: token (b ++ t) := by
  induction b with
  | nil => simp [token]
  | cons c b ih =>
    cases hc : isspace c with
    | true => simp [token, hc]
    | false => simpa [token, hc] using ih

theorem methodReply_streaming : Streaming methodReply := by
  intro b t h
  have hle := (token_isPrefix_append b t).length_le
  unfold methodReply at h ⊢
  by_cases hb : strncmp (ascii "GET") b (token b).length = .eq
  · simp only [hb, ne_eq, not_true_eq_false, ↓reduceIte] at h ⊢
    have hw : word isspace b ≠ (.more : Answer (List UInt8)) := by
      intro hw
      simp [hw, Reply.andThen] at h
    have htoken : token (b ++ t) = token b := by
      have hd : b.dropWhile (!isspace ·) ≠ [] := by
        intro hd
        simp [word, hd] at hw
      exact (takeWhile_append_of_dropWhile hd t).1
    rw [htoken, strncmp_append _ _ _ (token_length_le b), hb]
    simp only [not_true_eq_false, ↓reduceIte]
    exact word_streaming.andThen (fun _ _ _ _ => rfl) b t h
  · have hbt : strncmp (ascii "GET") (b ++ t) (token (b ++ t)).length ≠ .eq := by
      intro heq
      have hlt := strncmp_le heq hle
      rw [strncmp_append _ _ _ (token_length_le b)] at hlt
      exact hb hlt
    simp [hb, hbt, Reply.extend]

theorem urlReply_streaming : Streaming urlReply := by
  intro b t h
  unfold urlReply at h ⊢
  by_cases hb : token b = []
  · simp [hb] at h
  · have hbt : token (b ++ t) ≠ [] := by
      intro he
      have hp := token_isPrefix_append b t
      rw [he] at hp
      exact hb (List.prefix_nil.mp hp)
    simp only [hb, hbt, ↓reduceIte] at h ⊢
    exact word_streaming b t h

theorem versionReply_streaming : Streaming versionReply := by
  intro b t h
  unfold versionReply at h ⊢
  by_cases hb : token b = []
  · simp [hb] at h
  · simp only [hb, ↓reduceIte] at h
    match hd : b.dropWhile (!isspace ·) with
    | [] => simp [hd] at h
    | [_] => simp [hd] at h
    | c :: d :: rest =>
      obtain ⟨htake, hdrop⟩ :=
        takeWhile_append_of_dropWhile (by simp [hd] : b.dropWhile (!isspace ·) ≠ []) t
      have htoken : token (b ++ t) = token b := htake
      rw [hdrop, htoken]
      by_cases hcd : c = 13 ∧ d = 10 <;> simp [hb, hd, hcd, Reply.extend]

theorem headerReply_streaming (headers : List Header) : Streaming (headerReply headers) := by
  refine line_streaming.andThen fun l rest t _ => ?_
  by_cases hl : l = []
  · simp [hl, Reply.extend]
  · simp only [hl, ↓reduceIte]
    cases headerOf l with
    | none => rfl
    | some header =>
      cases hins : insertHeader headers header with
      | mk code headers' => cases code <;> simp [hins, Reply.extend]

/-- Once the parser has refused a buffer, or has found its end, more bytes
change nothing but what is left over. -/
theorem requestReply_streaming : Streaming requestReply := by
  refine methodReply_streaming.andThen fun _ => urlReply_streaming.andThen fun _ =>
    versionReply_streaming.andThen fun _ => ?_
  exact (Streaming.repeated headerReply_streaming []).andThen fun _ _ _ _ => rfl

end Hss.Meaning
