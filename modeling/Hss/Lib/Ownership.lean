import Mathlib.Algebra.GroupWithZero.Nat
import Mathlib.Data.List.Perm.Basic
import Mathlib.Tactic.Common

namespace Hss.Ownership

variable {A B C : Type}

/-- The members of two lists stand for each other in pairs, and the cells are those that the
pairs own, one behind the other. -/
inductive Shared (Owns : A → B → List C → Prop) : List A → List B → List C → Prop
  | nil : Shared Owns [] [] []
  | cons {x : A} {y : B} {xs : List A} {ys : List B} {own cells : List C} :
      Owns x y own → Shared Owns xs ys cells → Shared Owns (x :: xs) (y :: ys) (own ++ cells)

variable {Owns : A → B → List C → Prop} {xs : List A} {ys : List B} {cells own : List C} {x : A}
  {y : B}

theorem Shared.concat (h : Shared Owns xs ys cells) (hown : Owns x y own) :
    Shared Owns (xs ++ [x]) (ys ++ [y]) (cells ++ own) := by
  induction h with
  | nil =>
    have hone := Shared.cons hown Shared.nil
    rwa [List.append_nil] at hone
  | cons hfirst _ ih =>
    rw [List.append_assoc]
    exact .cons hfirst ih

/-- One pair can be looked at beside what the others own, and another one put in its place. -/
theorem Shared.focus (h : Shared Owns xs ys cells) {i : Nat} (hx : xs[i]? = some x) :
    ∃ y own others, ys[i]? = some y ∧ Owns x y own ∧ cells.Perm (own ++ others) ∧
      ∀ {x' : A} {y' : B} {own' : List C}, Owns x' y' own' →
        ∃ cells', Shared Owns (xs.set i x') (ys.set i y') cells' ∧
          cells'.Perm (own' ++ others) := by
  induction h generalizing i with
  | nil => cases hx
  | @cons x₀ y₀ xs ys own₀ cells hown hrest ih =>
    cases i with
    | zero =>
      cases hx
      exact ⟨y₀, own₀, cells, rfl, hown, .refl _, fun hown' => ⟨_, .cons hown' hrest, .refl _⟩⟩
    | succ i =>
      obtain ⟨y, own, others, hy, hown', hperm, hput⟩ := ih hx
      refine ⟨y, own, own₀ ++ others, hy, hown', ?_, fun hnew => ?_⟩
      · exact (hperm.append_left own₀).trans (List.perm_append_comm_assoc _ _ _)
      · obtain ⟨cells', hshared, hperm'⟩ := hput hnew
        exact ⟨_, .cons hown hshared, (hperm'.append_left own₀).trans (List.perm_append_comm_assoc _ _ _)⟩

theorem Shared.le_length (h : Shared Owns xs ys cells) {f : A → Nat}
    (hle : ∀ x y own, Owns x y own → f x ≤ own.length) : (xs.map f).sum ≤ cells.length := by
  induction h with
  | nil => exact Nat.le_refl 0
  | cons hown _ ih =>
    rw [List.map_cons, List.sum_cons, List.length_append]
    exact Nat.add_le_add (hle _ _ _ hown) ih

theorem Shared.length_le (h : Shared Owns xs ys cells) {f : A → Nat}
    (hle : ∀ x y own, Owns x y own → own.length ≤ f x) : cells.length ≤ (xs.map f).sum := by
  induction h with
  | nil => exact Nat.le_refl 0
  | cons hown _ ih =>
    rw [List.map_cons, List.sum_cons, List.length_append]
    exact Nat.add_le_add (hle _ _ _ hown) ih

end Hss.Ownership
