import Mathlib.Tactic.Common

namespace Hss.Runs

variable {S : Type} {R : S → S → Prop}

inductive Steps (R : S → S → Prop) : Nat → S → S → Prop
  | refl (s : S) : Steps R 0 s s
  | step {n : Nat} {s t u : S} : Steps R n s t → R t u → Steps R (n + 1) s u

theorem Steps.invariant {n : Nat} {s t : S} (h : Steps R n s t) {I : S → Prop}
    (keep : ∀ s t, I s → R s t → I t) (hs : I s) : I t := by
  induction h with
  | refl => exact hs
  | step _ hstep ih => exact keep _ _ (ih hs) hstep

theorem Steps.bounded {n : Nat} {s t : S} (h : Steps R n s t) {I : S → Prop} {measure : S → Nat}
    (keep : ∀ s t, I s → R s t → I t) (lower : ∀ s t, I s → R s t → measure t < measure s)
    (hs : I s) : n + measure t ≤ measure s := by
  induction h with
  | refl => exact Nat.le_of_eq (Nat.zero_add _)
  | @step n s t u hrun hstep ih =>
    have ht := hrun.invariant keep hs
    have hlt := lower t u ht hstep
    have hle := ih hs
    omega

theorem Steps.antitone {n : Nat} {s t : S} (h : Steps R n s t) {I : S → Prop} {amount : S → Nat}
    (keep : ∀ s t, I s → R s t → I t) (le : ∀ s t, I s → R s t → amount t ≤ amount s)
    (hs : I s) : amount t ≤ amount s := by
  induction h with
  | refl => exact Nat.le_refl _
  | @step n s t u hrun hstep ih =>
    exact Nat.le_trans (le t u (hrun.invariant keep hs) hstep) (ih hs)

end Hss.Runs
