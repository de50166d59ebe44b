import Mathlib.Data.List.Infix
import Mathlib.Tactic.Common

namespace Hss.Path

variable {α : Type} {sep : α} {a b rest rest' path directory : List α} {d p : List (List α)}

structure Component (sep : α) (name : List α) : Prop where
  ne_nil : name ≠ []
  not_mem : sep ∉ name

def text (sep : α) (names : List (List α)) : List α := names.flatMap (sep :: ·)

def absolute (sep : α) : List (List α) → List α
  | [] => [sep]
  | name :: names => text sep (name :: names)

@[simp] theorem text_nil : text sep [] = [] := rfl

@[simp] theorem text_cons : text sep (a :: p) = sep :: (a ++ text sep p) := rfl

theorem text_append : text sep (d ++ p) = text sep d ++ text sep p := List.flatMap_append

theorem eq_of_append_sep (ha : sep ∉ a) (hb : sep ∉ b)
    (h : a ++ sep :: rest = b ++ sep :: rest') : a = b ∧ rest = rest' := by
  induction a generalizing b with
  | nil =>
    cases b with
    | nil => exact ⟨rfl, (List.cons.inj h).2⟩
    | cons x b =>
      obtain rfl : sep = x := (List.cons.inj h).1
      exact absurd List.mem_cons_self hb
  | cons x a ih =>
    cases b with
    | nil =>
      obtain rfl : x = sep := (List.cons.inj h).1
      exact absurd List.mem_cons_self ha
    | cons y b =>
      rw [List.cons_append, List.cons_append, List.cons.injEq] at h
      obtain ⟨rfl, h⟩ := h
      have hrest := ih (fun hm => ha (List.mem_cons_of_mem x hm))
        (fun hm => hb (List.mem_cons_of_mem x hm)) h
      exact ⟨congrArg (x :: ·) hrest.1, hrest.2⟩

/-- A text is the start of another one, with a separator behind it, if its names
are the first names and not all. -/
theorem text_sep_prefix_iff (hd : ∀ name ∈ d, Component sep name)
    (hp : ∀ name ∈ p, Component sep name) :
    text sep d ++ [sep] <+: text sep p ↔ d <+: p ∧ d ≠ p := by
  induction d generalizing p with
  | nil =>
    cases p with
    | nil => simp
    | cons b p => simp
  | cons a d ih =>
    cases p with
    | nil => simp
    | cons b p =>
      have ha := hd a List.mem_cons_self
      have hb := hp b List.mem_cons_self
      have hiff := ih (fun name hn => hd name (List.mem_cons_of_mem a hn))
        (fun name hn => hp name (List.mem_cons_of_mem b hn))
      have hcons : a :: d <+: b :: p ∧ a :: d ≠ b :: p ↔ a = b ∧ d <+: p ∧ d ≠ p := by
        rw [List.cons_prefix_cons, Ne, List.cons.injEq]
        tauto
      rw [hcons, ← hiff, text_cons, text_cons, List.cons_append, List.append_assoc,
        List.prefix_cons_inj]
      constructor
      · rintro ⟨rest, hrest⟩
        obtain ⟨after, hafter⟩ : ∃ after, text sep d ++ [sep] = sep :: after := by
          cases d with
          | nil => exact ⟨[], rfl⟩
          | cons c d => exact ⟨_, rfl⟩
        rw [hafter, List.append_assoc, List.cons_append] at hrest
        cases p with
        | nil =>
          rw [text_nil, List.append_nil] at hrest
          rw [← hrest] at hb
          exact absurd (List.mem_append_right a List.mem_cons_self) hb.not_mem
        | cons c p =>
          rw [text_cons] at hrest
          obtain ⟨rfl, hbehind⟩ := eq_of_append_sep ha.not_mem hb.not_mem hrest
          refine ⟨rfl, rest, ?_⟩
          rw [hafter, List.cons_append, hbehind, text_cons]
      · rintro ⟨rfl, rest, hrest⟩
        exact ⟨rest, by rw [List.append_assoc, hrest]⟩

def slashed [DecidableEq α] (sep : α) (path : List α) : List α :=
  if path.getLast? = some sep then path else path ++ [sep]

theorem absolute_append_singleton :
    absolute sep (d ++ [a]) = text sep d ++ sep :: a := by
  rw [show absolute sep (d ++ [a]) = text sep (d ++ [a]) by cases d <;> rfl, text_append]
  simp

theorem getLast_absolute (hd : ∀ name ∈ d, Component sep name) (hroot : d ≠ []) :
    (absolute sep d).getLast? ≠ some sep := by
  cases d using List.reverseRecOn with
  | nil => exact absurd rfl hroot
  | append_singleton d a =>
    have ha := hd a (by simp)
    rw [absolute_append_singleton, List.getLast?_append_of_ne_nil _ (List.cons_ne_nil _ _),
      List.getLast?_cons_of_ne_nil ha.ne_nil]
    exact fun h => ha.not_mem (List.mem_of_getLast? h)

theorem slashed_absolute [DecidableEq α] (hd : ∀ name ∈ d, Component sep name) :
    slashed sep (absolute sep d) = text sep d ++ [sep] := by
  cases d using List.reverseRecOn with
  | nil => simp [absolute, slashed]
  | append_singleton d a =>
    rw [slashed, if_neg (getLast_absolute hd (by simp)), absolute_append_singleton, text_append]
    simp

/-- A path begins with the slashed path of a directory if it is below it, or the
directory is the root. -/
theorem slashed_prefix_iff [DecidableEq α] (hd : ∀ name ∈ d, Component sep name)
    (hp : ∀ name ∈ p, Component sep name) :
    slashed sep (absolute sep d) <+: absolute sep p ↔ d <+: p ∧ (d = [] ∨ d ≠ p) := by
  rw [slashed_absolute hd]
  cases p with
  | nil =>
    cases d with
    | nil => simp [absolute]
    | cons a d =>
      simp [absolute]
  | cons b p =>
    rw [absolute, text_sep_prefix_iff hd hp]
    cases d with
    | nil => simp
    | cons a d => simp

/-- Neither the directory itself nor one whose name only begins like its name is
taken for a path below it. -/
theorem ne_append_of_slashed_prefix [DecidableEq α] (hlast : directory.getLast? ≠ some sep)
    (h : slashed sep directory <+: path) {extension : List α} (hext : extension.head? ≠ some sep) :
    path ≠ directory ++ extension := by
  rintro rfl
  rw [slashed, if_neg hlast, List.prefix_append_right_inj] at h
  obtain ⟨rest, rfl⟩ := h
  exact hext rfl

end Hss.Path
