import Mathlib.Data.Nat.Notation
import Mathlib.Logic.Relation
import Mathlib.Tactic.Common

namespace Hss.Loop

variable {α β : Type}

/-- A `while (true)` loop given by its body: going round again yields the next
state, leaving yields the value behind the loop. Fuel bounds the rounds. -/
def iterate (step : α → α ⊕ β) : Nat → α → Option β
  | 0, _ => none
  | n + 1, a =>
    match step a with
    | .inl a' => iterate step n a'
    | .inr b => some b

def Ends (step : α → α ⊕ β) (a : α) (b : β) : Prop := ∃ n, iterate step n a = some b

variable {step : α → α ⊕ β} {a a' : α} {b b' : β} {n m : Nat}

theorem iterate_inl (h : step a = .inl a') : iterate step (n + 1) a = iterate step n a' := by
  simp only [iterate, h]

theorem iterate_inr (h : step a = .inr b) : iterate step (n + 1) a = some b := by
  simp only [iterate, h]

theorem iterate_mono (h : iterate step n a = some b) (hnm : n ≤ m) :
    iterate step m a = some b := by
  induction n generalizing a m with
  | zero => cases h
  | succ n ih =>
    obtain ⟨m, rfl⟩ : ∃ k, m = k + 1 := ⟨m - 1, by omega⟩
    cases hs : step a with
    | inl a' =>
      rw [iterate_inl hs] at h ⊢
      exact ih h (by omega)
    | inr c =>
      rw [iterate_inr hs] at h ⊢
      exact h

theorem Ends.unique (h : Ends step a b) (h' : Ends step a b') : b = b' := by
  obtain ⟨n, hn⟩ := h
  obtain ⟨m, hm⟩ := h'
  have hl := iterate_mono hn (Nat.le_max_left n m)
  have hr := iterate_mono hm (Nat.le_max_right n m)
  exact Option.some.inj (hl.symm.trans hr)

theorem Ends.leave (h : step a = .inr b) : Ends step a b := ⟨1, iterate_inr h⟩

theorem Ends.again (h : step a = .inl a') (hb : Ends step a' b) : Ends step a b := by
  obtain ⟨n, hn⟩ := hb
  exact ⟨n + 1, (iterate_inl h).trans hn⟩

theorem ends_inl (h : step a = .inl a') : Ends step a b ↔ Ends step a' b := by
  refine ⟨?_, Ends.again h⟩
  rintro ⟨n, hn⟩
  cases n with
  | zero => cases hn
  | succ n => exact ⟨n, (iterate_inl h).symm.trans hn⟩

def Reaches (step : α → α ⊕ β) : α → α → Prop :=
  Relation.ReflTransGen fun a a' => step a = .inl a'

theorem Reaches.ends_iff (h : Reaches step a a') : Ends step a b ↔ Ends step a' b := by
  induction h with
  | refl => rfl
  | tail _ hs ih => rw [ih, ends_inl hs]

theorem Reaches.invariant (I : α → Prop) (keep : ∀ a a', I a → step a = .inl a' → I a')
    (h : Reaches step a a') (ha : I a) : I a' := by
  induction h with
  | refl => exact ha
  | tail _ hs ih => exact keep _ _ ih hs

/-- The loop rule: what every further round keeps still holds in the round
that leaves. -/
theorem Ends.rule (I : α → Prop) (keep : ∀ a a', I a → step a = .inl a' → I a')
    (h : Ends step a b) (ha : I a) : ∃ a', I a' ∧ step a' = .inr b := by
  obtain ⟨n, hn⟩ := h
  induction n generalizing a with
  | zero => cases hn
  | succ n ih =>
    cases hs : step a with
    | inl a' =>
      rw [iterate_inl hs] at hn
      exact ih (keep a a' ha hs) hn
    | inr c =>
      rw [iterate_inr hs] at hn
      cases hn
      exact ⟨a, ha, hs⟩

theorem not_ends (I : α → Prop) (keep : ∀ a, I a → ∃ a', step a = .inl a' ∧ I a') (ha : I a) :
    ¬ Ends step a b := by
  rintro ⟨n, hn⟩
  induction n generalizing a with
  | zero => cases hn
  | succ n ih =>
    obtain ⟨a', hs, ha'⟩ := keep a ha
    rw [iterate_inl hs] at hn
    exact ih ha' hn

/-- The variant rule: a measure that every further round lowers makes the
loop end. -/
theorem ends_of_variant (I : α → Prop) (v : α → Nat)
    (keep : ∀ a a', I a → step a = .inl a' → I a' ∧ v a' < v a) (ha : I a) :
    ∃ b, Ends step a b := by
  induction hk : v a using Nat.strongRecOn generalizing a with
  | _ k ih =>
    cases hs : step a with
    | inl a' =>
      obtain ⟨ha', hlt⟩ := keep a a' ha hs
      obtain ⟨b, hb⟩ := ih (v a') (hk ▸ hlt) ha' rfl
      exact ⟨b, .again hs hb⟩
    | inr b => exact ⟨b, .leave hs⟩

end Hss.Loop
