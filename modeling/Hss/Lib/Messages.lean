import Hss.Lib.StreamParser
import Mathlib.Data.List.Forall2

namespace Hss.Messages

open Hss.StreamParser

variable {β ε α : Type}

def exactly (n : Nat) (b : List β) : Reply β ε (List β) :=
  if n ≤ b.length then .done (b.take n) (b.drop n) else .more

theorem exactly_streaming (n : Nat) : Streaming (exactly n : List β → Reply β ε (List β)) := by
  intro b t h
  have hle : n ≤ b.length := by
    by_contra hlt
    exact h (if_neg hlt)
  have hle' : n ≤ (b ++ t).length := by
    rw [List.length_append]
    exact Nat.le_add_right_of_le hle
  rw [exactly, if_pos hle', exactly, if_pos hle, List.take_append_of_le_length hle,
    List.drop_append_of_le_length hle]
  rfl

theorem exactly_append (b rest : List β) :
    exactly b.length (b ++ rest) = (.done b rest : Reply β ε (List β)) := by
  rw [exactly, if_pos (by rw [List.length_append]; exact Nat.le_add_right _ _), List.take_left,
    List.drop_left]

/-- The messages at the front of an input, and what is left behind the last complete one. -/
def messages (p : List β → Reply β ε α) (b : List β) : List α × List β :=
  match p b with
  | .done a rest =>
    if rest.length < b.length then
      let (as, left) := messages p rest
      (a :: as, left)
    else ([], b)
  | _ => ([], b)
termination_by b.length

structure Says (p : List β → Reply β ε α) (text : List β) (a : α) : Prop where
  ne_nil : text ≠ []
  done : p text = .done a []

variable {p : List β → Reply β ε α} {text : List β} {a : α}

theorem messages_more {b : List β} (h : p b = .more) : messages p b = ([], b) := by
  rw [messages, h]

theorem Says.append (hp : Streaming p) (h : Says p text a) (rest : List β) :
    p (text ++ rest) = .done a rest := by
  rw [hp text rest (by rw [h.done]; exact fun he => by cases he), h.done]
  rfl

theorem messages_cons (hp : Streaming p) (h : Says p text a) (rest : List β) :
    messages p (text ++ rest) = (a :: (messages p rest).1, (messages p rest).2) := by
  have hlt : rest.length < (text ++ rest).length := by
    rw [List.length_append]
    exact Nat.lt_add_of_pos_left (List.length_pos_iff.mpr h.ne_nil)
  rw [messages, h.append hp rest]
  simp only [if_pos hlt]

theorem messages_part (hp : Streaming p) {part : List β} (h : Says p text a)
    (hpart : part <+: text) (hne : part ≠ text) : messages p part = ([], part) := by
  obtain ⟨t, rfl⟩ := hpart
  have ht : t ≠ [] := by
    rintro rfl
    exact hne (List.append_nil part).symm
  exact messages_more (hp.prefix_more h.done ht)

theorem messages_nil (p : List β → Reply β ε α) : messages p [] = ([], []) := by
  rw [messages]
  split
  · rw [List.length_nil, if_neg (Nat.not_lt_zero _)]
  · rfl

/-- Messages one behind the other are read as they were written. -/
theorem messages_flatten (hp : Streaming p) {texts : List (List β)} {as : List α}
    (h : List.Forall₂ (Says p) texts as) (rest : List β) :
    messages p (texts.flatten ++ rest) = (as ++ (messages p rest).1, (messages p rest).2) := by
  induction h with
  | nil => rfl
  | cons hsays _ ih =>
    rw [List.flatten_cons, List.append_assoc, messages_cons hp hsays, ih]
    rfl

/-- Where the last of several messages has come in part, the others are read. -/
theorem messages_unfinished (hp : Streaming p) {before : List (List β)} {as : List α}
    {part left : List β} (h : List.Forall₂ (Says p) (before ++ [part ++ left]) as)
    (hleft : left ≠ []) : ∃ last, messages p (before.flatten ++ part) = (as.dropLast, part) ∧
      as.getLast? = some last ∧ Says p (part ++ left) last := by
  have hlength := h.length_eq
  obtain rfl | ⟨init, last, rfl⟩ := List.eq_nil_or_concat' as
  · simp at hlength
  have hinit : before.length = init.length := by simpa using hlength
  have hbefore := List.forall₂_take before.length h
  have hlast := List.forall₂_drop before.length h
  rw [List.take_left, List.take_left' hinit.symm] at hbefore
  rw [List.drop_left, List.drop_left' hinit.symm] at hlast
  have hread : Says p (part ++ left) last := by
    cases hlast with
    | cons hread _ => exact hread
  have hpart := messages_part hp hread (List.prefix_append part left) fun heq =>
    hleft (List.self_eq_append_right.mp heq)
  refine ⟨last, ?_, List.getLast?_concat .., hread⟩
  rw [messages_flatten hp hbefore, hpart, List.append_nil, List.dropLast_concat]

end Hss.Messages
