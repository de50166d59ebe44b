import Mathlib.Data.List.TakeWhile
import Mathlib.Data.List.Infix
import Mathlib.Tactic.Common

namespace Hss.StreamParser

variable {β ε α γ σ : Type}

inductive Reply (β ε α : Type)
  | more
  | done (value : α) (rest : List β)
  | reject (error : ε)

def Reply.extend (t : List β) : Reply β ε α → Reply β ε α
  | .more => .more
  | .done a rest => .done a (rest ++ t)
  | .reject e => .reject e

def Reply.andThen (q : α → List β → Reply β ε γ) : Reply β ε α → Reply β ε γ
  | .more => .more
  | .done a rest => q a rest
  | .reject e => .reject e

/-- Every reply but `more` is final: further input only lengthens the rest. -/
def Streaming (p : List β → Reply β ε α) : Prop :=
  ∀ b t, p b ≠ .more → p (b ++ t) = (p b).extend t

theorem Streaming.andThen {p : List β → Reply β ε α} {q : α → List β → Reply β ε γ}
    (hp : Streaming p) (hq : ∀ a, Streaming (q a)) : Streaming fun b => (p b).andThen q := by
  intro b t h
  have hb := hp b t
  dsimp only at h ⊢
  cases hpb : p b with
  | more => simp [hpb, Reply.andThen] at h
  | done a rest =>
    rw [hpb] at hb h
    rw [hb (by simp)]
    exact hq a rest t h
  | reject e =>
    rw [hpb] at hb
    rw [hb (by simp)]
    rfl

/-- Repeat a parser until it yields its result; a round that consumes nothing
would go on for ever and waits instead. -/
def repeated (p : σ → List β → Reply β ε (σ ⊕ α)) (s : σ) (b : List β) : Reply β ε α :=
  match p s b with
  | .more => .more
  | .reject e => .reject e
  | .done (.inr a) rest => .done a rest
  | .done (.inl s') rest => if rest.length < b.length then repeated p s' rest else .more
termination_by b.length

theorem Streaming.repeated {p : σ → List β → Reply β ε (σ ⊕ α)} (hp : ∀ s, Streaming (p s))
    (s : σ) : Streaming (Hss.StreamParser.repeated p s) := by
  intro b t h
  induction hn : b.length using Nat.strongRecOn generalizing b s with
  | _ n ih =>
    have hb := hp s b t
    unfold Hss.StreamParser.repeated at h ⊢
    cases hpb : p s b with
    | more => simp [hpb] at h
    | reject e =>
      rw [hpb] at hb
      rw [hb (by simp)]
      rfl
    | done v rest =>
      rw [hpb] at hb h
      rw [hb (by simp)]
      cases v with
      | inr a => rfl
      | inl s' =>
        simp only [Reply.extend, List.length_append, Nat.add_lt_add_iff_right] at h ⊢
        by_cases hlt : rest.length < b.length
        · simp only [hlt, ↓reduceIte] at h ⊢
          exact ih rest.length (hn ▸ hlt) s' rest h rfl
        · simp [hlt] at h

/-- An input that is parsed to its very end has no proper prefix that is
parsed, or refused, already. -/
theorem Streaming.prefix_more {p : List β → Reply β ε α} (hp : Streaming p) {b t : List β} {a : α}
    (h : p (b ++ t) = .done a []) (ht : t ≠ []) : p b = .more := by
  by_contra hb
  have hext := hp b t hb
  rw [h] at hext
  cases hpb : p b with
  | more => exact hb hpb
  | done a' rest =>
    rw [hpb] at hext
    injection hext with _ hrest
    exact ht (List.append_eq_nil_iff.mp hrest.symm).2
  | reject e =>
    rw [hpb] at hext
    cases hext

def Reply.Refuses (p : ε → Prop) (r : Reply β ε α) : Prop := ∀ e, r = .reject e → p e

theorem Reply.Refuses.andThen {p : ε → Prop} {r : Reply β ε α} {q : α → List β → Reply β ε γ}
    (hr : r.Refuses p) (hq : ∀ a rest, (q a rest).Refuses p) : (r.andThen q).Refuses p := by
  intro e h
  cases r with
  | more => cases h
  | reject e' =>
    cases h
    exact hr e rfl
  | done a rest => exact hq a rest e h

theorem refuses_repeated {p : ε → Prop} {f : σ → List β → Reply β ε (σ ⊕ α)}
    (hf : ∀ s b, (f s b).Refuses p) (s : σ) (b : List β) : (repeated f s b).Refuses p := by
  induction hn : b.length using Nat.strongRecOn generalizing s b with
  | _ n ih =>
    intro e h
    rw [repeated] at h
    cases hfb : f s b with
    | more => simp [hfb] at h
    | reject e' =>
      simp only [hfb, Reply.reject.injEq] at h
      exact h ▸ hf s b e' hfb
    | done v rest =>
      cases v with
      | inr a => simp [hfb] at h
      | inl s' =>
        simp only [hfb] at h
        by_cases hlt : rest.length < b.length
        · rw [if_pos hlt] at h
          exact ih rest.length (hn ▸ hlt) s' rest rfl e h
        · simp [hlt] at h

section Words

variable {sep : β → Bool}

theorem suffix_of_suffix_word {s t q : List β} (hs : ∀ c ∈ s, sep c) (ht : ∀ c ∈ t, sep c = false)
    (h : s <:+ t ++ q) : s <:+ q := by
  obtain hsq | hqs := List.suffix_or_suffix_of_suffix h (List.suffix_append t q)
  · exact hsq
  · obtain ⟨a, rfl⟩ := hqs
    obtain ⟨b, hb⟩ := h
    rw [← List.append_assoc] at hb
    have hmem : ∀ c ∈ a, c ∈ t := fun c hc =>
      List.append_cancel_right hb ▸ List.mem_append_right b hc
    have hnil : a = [] := by
      apply List.eq_nil_iff_forall_not_mem.mpr
      intro c hc
      have hsep := hs c (List.mem_append_left q hc)
      rw [ht c (hmem c hc)] at hsep
      cases hsep
    rw [hnil, List.nil_append]

theorem suffix_of_suffix_head {s w q : List β} (hs : ∀ c ∈ s, sep c)
    (hq : ∃ c, q.head? = some c ∧ sep c = false) (h : s <:+ w ++ q) : s <:+ q := by
  obtain ⟨c, hc, hsep⟩ := hq
  obtain hsq | hqs := List.suffix_or_suffix_of_suffix h (List.suffix_append w q)
  · exact hsq
  · have hcs := hs c (hqs.subset (List.mem_of_head? hc))
    rw [hsep] at hcs
    cases hcs

/-- A word and the separators behind it; both are only known to be complete
once something follows them. -/
def word (sep : β → Bool) (b : List β) : Reply β ε (List β) :=
  match (b.dropWhile (!sep ·)).dropWhile sep with
  | [] => .more
  | c :: rest => .done (b.takeWhile (!sep ·)) (c :: rest)

theorem takeWhile_append_of_dropWhile {p : β → Bool} {b : List β} (h : b.dropWhile p ≠ []) (t : List β) :
    (b ++ t).takeWhile p = b.takeWhile p ∧ (b ++ t).dropWhile p = b.dropWhile p ++ t := by
  induction b with
  | nil => simp at h
  | cons c b ih =>
    cases hc : p c with
    | false => simp [hc]
    | true =>
      simp only [List.dropWhile_cons, hc, ↓reduceIte] at h
      simpa [hc] using ih h

theorem word_streaming : Streaming (word sep : List β → Reply β ε (List β)) := by
  intro b t h
  unfold word at h ⊢
  have hd : (b.dropWhile (!sep ·)).dropWhile sep ≠ [] := by
    intro hd
    simp [hd] at h
  have hd' : b.dropWhile (!sep ·) ≠ [] := by
    intro hd'
    simp [hd'] at hd
  obtain ⟨htake, hdrop⟩ := takeWhile_append_of_dropWhile hd' t
  rw [htake, hdrop, (takeWhile_append_of_dropWhile hd t).2]
  obtain ⟨c, rest, hr⟩ := List.exists_cons_of_ne_nil hd
  simp [hr, Reply.extend]

theorem takeWhile_append_sep {p : β → Bool} {t w : List β} (ht : ∀ c ∈ t, p c)
    (hw : ∀ c, w.head? = some c → p c = false) :
    (t ++ w).takeWhile p = t ∧ (t ++ w).dropWhile p = w := by
  induction t with
  | nil =>
    cases w with
    | nil => simp
    | cons c w => simp [hw c rfl]
  | cons a t ih =>
    have ha := ht a (by simp)
    have hrest := ih fun c hc => ht c (by simp [hc])
    simpa [ha] using hrest

/-- What lies at and behind an element that stops a scan has no part in it. -/
theorem takeWhile_append_stop {p : β → Bool} {c : β} (hc : p c = false) (s w : List β) :
    (s ++ c :: w).takeWhile p = s.takeWhile p ∧
      (s ++ c :: w).dropWhile p = s.dropWhile p ++ c :: w := by
  induction s with
  | nil => simp [hc]
  | cons a s ih =>
    by_cases ha : p a
    · simpa [ha] using ih
    · simp [ha]

/-- A list without a separator, or what stands before its first one and the rest. -/
theorem separated_induction {motive : List β → Prop} {x : β} (piece : ∀ p, x ∉ p → motive p)
    (more : ∀ p s, x ∉ p → motive s → motive (p ++ x :: s)) (s : List β) : motive s := by
  induction hn : s.length using Nat.strong_induction_on generalizing s with
  | _ n ih =>
    by_cases hx : x ∈ s
    · obtain ⟨p, t, rfl, hp⟩ := List.eq_append_cons_of_mem hx
      refine more p t hp (ih t.length ?_ t rfl)
      rw [← hn, List.length_append, List.length_cons]
      omega
    · exact piece s hx

theorem cut_unique {p : β → Bool} {t t' w w' : List β} (ht : ∀ c ∈ t, p c)
    (hw : ∀ c, w.head? = some c → p c = false) (ht' : ∀ c ∈ t', p c)
    (hw' : ∀ c, w'.head? = some c → p c = false) (h : t ++ w = t' ++ w') : t = t' ∧ w = w' := by
  obtain ⟨h₁, h₂⟩ := takeWhile_append_sep ht hw
  obtain ⟨h₁', h₂'⟩ := takeWhile_append_sep ht' hw'
  rw [h] at h₁ h₂
  exact ⟨h₁.symm.trans h₁', h₂.symm.trans h₂'⟩

/-- A word is delimited exactly when separators and something else follow it. -/
theorem word_done_iff {b t rest : List β} :
    (word sep b : Reply β ε (List β)) = .done t rest ↔
      ∃ w, b = t ++ (w ++ rest) ∧ (∀ c ∈ t, sep c = false) ∧ w ≠ [] ∧ (∀ c ∈ w, sep c) ∧
        ∃ c, rest.head? = some c ∧ sep c = false := by
  constructor
  · intro h
    unfold word at h
    split at h
    · cases h
    · rename_i c rest' hd
      injection h with ht hr
      subst hr
      refine ⟨(b.dropWhile (!sep ·)).takeWhile sep, ?_, ?_, ?_, ?_, c, rfl, ?_⟩
      · rw [← ht, ← hd, List.takeWhile_append_dropWhile, List.takeWhile_append_dropWhile]
      · intro a ha
        have hp := List.mem_takeWhile_imp (ht ▸ ha)
        simpa using hp
      · intro hw
        have hsplit := List.takeWhile_append_dropWhile (p := sep) (l := b.dropWhile (!sep ·))
        rw [hw, hd, List.nil_append] at hsplit
        have hs := List.head?_dropWhile_not (!sep ·) b
        have hn := List.head?_dropWhile_not sep (b.dropWhile (!sep ·))
        rw [hd] at hn
        rw [← hsplit] at hs
        simp only [List.head?_cons] at hs hn
        simp [hn] at hs
      · intro a ha
        exact List.mem_takeWhile_imp ha
      · have hn := List.head?_dropWhile_not sep (b.dropWhile (!sep ·))
        rw [hd] at hn
        simpa using hn
  · rintro ⟨w, rfl, ht, hw, hsep, c, hc, hcs⟩
    obtain ⟨a, w', rfl⟩ := List.exists_cons_of_ne_nil hw
    have ha := hsep a (by simp)
    obtain ⟨htake, hdrop⟩ := takeWhile_append_sep (p := (!sep ·)) (t := t) (w := a :: w' ++ rest)
      (by simpa using ht) (by simp [ha])
    obtain ⟨-, hrest⟩ := takeWhile_append_sep (p := sep) (t := a :: w') (w := rest) hsep
      (by simp [hc, hcs])
    obtain ⟨rest', rfl⟩ : ∃ r, rest = c :: r := by
      cases rest with
      | nil => cases hc
      | cons e rest =>
        cases hc
        exact ⟨rest, rfl⟩
    simp only [word, htake, hdrop, hrest]

theorem word_more_iff {b : List β} : (word sep b : Reply β ε (List β)) = .more ↔
    ∃ t w, b = t ++ w ∧ (∀ c ∈ t, sep c = false) ∧ ∀ c ∈ w, sep c := by
  constructor
  · intro h
    refine ⟨b.takeWhile (!sep ·), b.dropWhile (!sep ·), ?_, ?_, ?_⟩
    · rw [List.takeWhile_append_dropWhile]
    · intro c hc
      simpa using List.mem_takeWhile_imp hc
    · unfold word at h
      split at h
      · rename_i hd
        exact List.dropWhile_eq_nil_iff.mp hd
      · cases h
  · rintro ⟨t, w, rfl, ht, hw⟩
    have hhead : ∀ c, w.head? = some c → (!sep c) = false := by
      intro c hc
      simp [hw c (List.mem_of_head? hc)]
    obtain ⟨-, hdrop⟩ := takeWhile_append_sep (p := (!sep ·)) (by simpa using ht) hhead
    have hnil : w.dropWhile sep = [] := List.dropWhile_eq_nil_iff.mpr hw
    simp only [word, hdrop, hnil]

end Words

/-- Nothing but the pair, or the pair twice at the end: an empty line is the last. -/
def Closed (x y : β) (b : List β) : Prop := b = [x, y] ∨ [x, y, x, y] <:+ b

theorem closed_tail {x y : β} (hxy : x ≠ y) {rest : List β} (h : [x, y, x, y] <:+ x :: y :: rest) :
    Closed x y rest := by
  obtain ⟨s, hs⟩ := h
  match s with
  | [] =>
    left
    simpa using hs.symm
  | [a] =>
    simp only [List.cons_append, List.nil_append, List.cons.injEq] at hs
    exact absurd hs.2.1 hxy
  | a :: b :: s =>
    simp only [List.cons_append, List.cons.injEq] at hs
    exact .inr ⟨s, hs.2.2⟩

section Lines

variable [DecidableEq β] {x y : β}

def splitPair (x y : β) : List β → Option (List β × List β)
  | a :: b :: t =>
    if a = x ∧ b = y then some ([], t)
    else (splitPair x y (b :: t)).map fun (l, rest) => (a :: l, rest)
  | _ => none

def line (x y : β) (b : List β) : Reply β ε (List β) :=
  match splitPair x y b with
  | none => .more
  | some (l, rest) => .done l rest

theorem splitPair_append {b l rest : List β} (h : splitPair x y b = some (l, rest)) (t : List β) :
    splitPair x y (b ++ t) = some (l, rest ++ t) := by
  induction b generalizing l with
  | nil => simp [splitPair] at h
  | cons a b ih =>
    cases b with
    | nil => simp [splitPair] at h
    | cons c b =>
      simp only [splitPair, List.cons_append] at h ⊢
      by_cases hxy : a = x ∧ c = y
      · simp only [hxy, and_self, ↓reduceIte, Option.some.injEq, Prod.mk.injEq] at h ⊢
        obtain ⟨rfl, rfl⟩ := h
        exact ⟨rfl, rfl⟩
      · simp only [hxy, ↓reduceIte, Option.map_eq_some_iff, Prod.exists, Prod.mk.injEq] at h ⊢
        obtain ⟨l', r', hs, rfl, rfl⟩ := h
        exact ⟨l', r' ++ t, ih hs, rfl, rfl⟩

theorem line_streaming : Streaming (line x y : List β → Reply β ε (List β)) := by
  intro b t h
  unfold line at h ⊢
  cases hs : splitPair x y b with
  | none => simp [hs] at h
  | some p =>
    obtain ⟨l, rest⟩ := p
    rw [splitPair_append hs t]
    rfl

theorem splitPair_eq {b l rest : List β} (h : splitPair x y b = some (l, rest)) :
    b = l ++ x :: y :: rest := by
  induction b generalizing l with
  | nil => simp [splitPair] at h
  | cons a b ih =>
    cases b with
    | nil => simp [splitPair] at h
    | cons c b =>
      simp only [splitPair] at h
      by_cases hxy : a = x ∧ c = y
      · simp only [hxy, and_self, ↓reduceIte, Option.some.injEq, Prod.mk.injEq] at h
        obtain ⟨rfl, rfl⟩ := h
        simp [hxy]
      · simp only [hxy, ↓reduceIte, Option.map_eq_some_iff, Prod.exists, Prod.mk.injEq] at h
        obtain ⟨l', r', hs, rfl, rfl⟩ := h
        simp [ih hs]

theorem splitPair_of_not_infix {l : List β} (hxy : x ≠ y) (h : ¬ [x, y] <:+: l) (rest : List β) :
    splitPair x y (l ++ x :: y :: rest) = some (l, rest) := by
  induction l with
  | nil => simp [splitPair]
  | cons a l ih =>
    have hl := ih fun hi => h (hi.trans (List.suffix_cons a l).isInfix)
    cases l with
    | nil =>
      have hne : ¬ (a = x ∧ x = y) := fun hc => hxy hc.2
      simp only [List.cons_append, List.nil_append] at hl ⊢
      simp [splitPair, hne]
    | cons c l =>
      have hne : ¬ (a = x ∧ c = y) := by
        rintro ⟨rfl, rfl⟩
        exact h ⟨[], l, rfl⟩
      simp only [List.cons_append] at hl ⊢
      simp [splitPair, hne, hl]

theorem splitPair_avoids {b l rest : List β}
    (h : splitPair x y b = some (l, rest)) : ¬ [x, y] <:+: l := by
  induction b generalizing l with
  | nil => simp [splitPair] at h
  | cons a b ih =>
    cases b with
    | nil => simp [splitPair] at h
    | cons c b =>
      simp only [splitPair] at h
      by_cases hac : a = x ∧ c = y
      · simp only [hac, and_self, ↓reduceIte, Option.some.injEq, Prod.mk.injEq] at h
        obtain ⟨rfl, rfl⟩ := h
        simp
      · simp only [hac, ↓reduceIte, Option.map_eq_some_iff, Prod.exists, Prod.mk.injEq] at h
        obtain ⟨l', r', hs, rfl, rfl⟩ := h
        rw [List.infix_cons_iff]
        rintro (hp | hi)
        · have heq := splitPair_eq hs
          cases l' with
          | nil => simp at hp
          | cons d l' =>
            simp only [List.cons_append, List.cons.injEq] at heq
            obtain ⟨rfl, -⟩ := heq
            simp only [List.cons_prefix_cons, List.nil_prefix, and_true] at hp
            exact hac ⟨hp.1.symm, hp.2.symm⟩
        · exact ih hs hi

theorem exists_splitPair {b : List β} (h : [x, y] <:+: b) : ∃ p, splitPair x y b = some p := by
  induction b with
  | nil => simp at h
  | cons a b ih =>
    cases b with
    | nil =>
      have hlen := h.length_le
      simp at hlen
    | cons c b =>
      unfold splitPair
      by_cases hac : a = x ∧ c = y
      · rw [if_pos hac]
        exact ⟨_, rfl⟩
      · rw [if_neg hac]
        obtain hp | hi := List.infix_cons_iff.mp h
        · simp only [List.cons_prefix_cons, List.nil_prefix, and_true] at hp
          exact absurd ⟨hp.1.symm, hp.2.symm⟩ hac
        · obtain ⟨p, hp⟩ := ih hi
          rw [hp]
          exact ⟨_, rfl⟩

theorem Closed.splitPair (hxy : x ≠ y) {b : List β} (h : Closed x y b) : ∃ l rest,
    Hss.StreamParser.splitPair x y b = some (l, rest) ∧ (l ≠ [] → Closed x y rest) := by
  have hinfix : [x, y] <:+: b := by
    obtain rfl | h := h
    · exact List.infix_refl _
    · exact (List.suffix_append [x, y] [x, y]).isInfix.trans h.isInfix
  obtain ⟨⟨l, rest⟩, hs⟩ := exists_splitPair hinfix
  refine ⟨l, rest, hs, fun hl => ?_⟩
  have hb := splitPair_eq hs
  obtain hpair | h := h
  · have hlen := congrArg List.length (hpair.symm.trans hb)
    have hpos := List.length_pos_iff.mpr hl
    simp only [List.length_append, List.length_cons, List.length_nil] at hlen
    omega
  · rw [hb] at h
    obtain hlong | hshort := List.suffix_or_suffix_of_suffix h (List.suffix_append l (x :: y :: rest))
    · exact closed_tail hxy hlong
    · obtain ⟨a, ha⟩ := hshort
      match a with
      | [] =>
        left
        simpa using ha
      | [_] =>
        simp only [List.cons_append, List.nil_append, List.cons.injEq] at ha
        exact absurd ha.2.1 hxy
      | [_, _] =>
        simp only [List.cons_append, List.nil_append, List.cons.injEq, true_and] at ha
        obtain ⟨s, hs'⟩ := h
        have hsplit : s ++ [x, y] ++ [x, y] = l ++ [x, y] := by
          simpa [ha.2.2] using hs'
        have hl' : l = s ++ [x, y] := (List.append_cancel_right hsplit).symm
        have hmem : [x, y] <:+: l := hl' ▸ (List.suffix_append s [x, y]).isInfix
        exact absurd hmem (splitPair_avoids hs)
      | _ :: _ :: _ :: _ =>
        have hlen := congrArg List.length ha
        simp only [List.length_append, List.length_cons, List.length_nil] at hlen
        omega

end Lines

end Hss.StreamParser
