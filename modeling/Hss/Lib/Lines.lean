import Mathlib.Data.List.Infix
import Mathlib.Tactic.Common

namespace Hss.Lines

variable {α : Type} {c d : α} {lines : List (List α)} {line head rest : List α}

/-- The text is cut at the first place where the pattern stands. -/
structure CutAt (pattern text head rest : List α) : Prop where
  cut : text = head ++ (pattern ++ rest)
  first : ∀ head' rest', text = head' ++ (pattern ++ rest') → head <+: head'

theorem CutAt.unique {pattern text head' rest' : List α} (h : CutAt pattern text head rest)
    (h' : CutAt pattern text head' rest') : head = head' ∧ rest = rest' := by
  have hhead : head = head' :=
    (h.first _ _ h'.cut).eq_of_length_le (h'.first _ _ h.cut).length_le
  refine ⟨hhead, ?_⟩
  have hcut := h.cut.symm.trans h'.cut
  rw [hhead] at hcut
  exact List.append_cancel_left (List.append_cancel_left hcut)

def joined (c d : α) (lines : List (List α)) : List α := lines.flatMap (· ++ [c, d])

@[simp] theorem joined_nil : joined c d [] = [] := rfl

@[simp] theorem joined_cons : joined c d (line :: lines) = line ++ c :: d :: joined c d lines := by
  simp [joined]

theorem joined_eq_intercalate (line : List α) (lines : List (List α)) :
    joined c d (line :: lines) = [c, d].intercalate (line :: lines) ++ [c, d] := by
  induction lines generalizing line with
  | nil => simp
  | cons next lines ih =>
    rw [joined_cons, ih, List.intercalate_cons_cons]
    simp only [List.append_assoc, List.cons_append, List.nil_append]

structure Plain (c : α) (line : List α) : Prop where
  ne_nil : line ≠ []
  not_mem : c ∉ line

theorem eq_nil_of_line_end (h : ∀ line ∈ lines, Plain c line) {rest' : List α}
    (heq : joined c d lines ++ c :: d :: rest = c :: d :: rest') : lines = [] := by
  cases lines with
  | nil => rfl
  | cons line lines =>
    have hline := h line List.mem_cons_self
    obtain ⟨x, line, rfl⟩ := List.exists_cons_of_ne_nil hline.ne_nil
    rw [joined_cons] at heq
    obtain rfl : x = c := (List.cons.inj heq).1
    exact absurd List.mem_cons_self hline.not_mem

theorem length_joined_le (hcd : c ≠ d) (h : ∀ line ∈ lines, Plain c line) {rest' : List α}
    (heq : joined c d lines ++ c :: d :: rest = head ++ c :: d :: c :: d :: rest') :
    (joined c d lines).length ≤ head.length + 2 := by
  induction lines generalizing head with
  | nil => simp
  | cons line lines ih =>
    have hline := h line List.mem_cons_self
    have hlines : ∀ next ∈ lines, Plain c next := fun next hn => h next (List.mem_cons_of_mem _ hn)
    rw [joined_cons, List.append_assoc] at heq
    simp only [List.cons_append] at heq
    obtain ⟨behind, rfl, hbehind⟩ | ⟨before, rfl, hbefore⟩ := List.append_eq_append_iff.mp heq
    · match behind, hbehind with
      | [], hbehind =>
        simp only [List.nil_append, List.cons.injEq, true_and] at hbehind
        obtain rfl := eq_nil_of_line_end hlines hbehind
        simp
      | [x], hbehind =>
        simp only [List.cons_append, List.nil_append, List.cons.injEq] at hbehind
        exact absurd hbehind.2.1.symm hcd
      | x :: y :: behind, hbehind =>
        simp only [List.cons_append, List.cons.injEq] at hbehind
        have hle := ih hlines hbehind.2.2
        simp only [joined_cons, List.length_append, List.length_cons]
        omega
    · cases before with
      | nil =>
        simp only [List.nil_append, List.cons.injEq, true_and] at hbefore
        obtain rfl := eq_nil_of_line_end hlines hbefore.symm
        simp
      | cons x before =>
        obtain rfl : c = x := (List.cons.inj hbefore).1
        exact absurd (List.mem_append_right _ List.mem_cons_self) hline.not_mem

theorem cutAt_joined (hcd : c ≠ d) (h : ∀ l ∈ line :: lines, Plain c l) (rest : List α) :
    CutAt [c, d, c, d] (joined c d (line :: lines) ++ c :: d :: rest)
      ([c, d].intercalate (line :: lines)) rest := by
  have hcut : joined c d (line :: lines) ++ c :: d :: rest =
      [c, d].intercalate (line :: lines) ++ ([c, d, c, d] ++ rest) := by
    rw [joined_eq_intercalate, List.append_assoc]
    rfl
  refine ⟨hcut, fun head' rest' heq => ?_⟩
  have hle := length_joined_le hcd h heq
  rw [joined_eq_intercalate, List.length_append] at hle
  exact List.prefix_of_prefix_length_le ⟨_, hcut.symm⟩ ⟨_, heq.symm⟩ (Nat.le_of_add_le_add_right hle)

end Hss.Lines
