import Mathlib.Data.List.Basic
import Mathlib.Tactic.Common

namespace Hss.LinkedList

variable {α : Type}

/-- The nodes met by following `next` from a link until it is null. A node
without a `next` field (freed memory) stops no chain: it makes it ill-formed. -/
inductive Chain (next : α → Option (Option α)) : Option α → List α → Prop
  | null : Chain next none []
  | node {a link l} : next a = some link → Chain next link l → Chain next (some a) (a :: l)

variable {next next' : α → Option (Option α)} {link : Option α} {a : α} {l l' : List α}

theorem Chain.unique (h : Chain next link l) (h' : Chain next link l') : l = l' := by
  induction h generalizing l' with
  | null =>
    cases h'
    rfl
  | node hn _ ih =>
    cases h' with
    | node hn' ht =>
      obtain rfl := Option.some.inj (hn.symm.trans hn')
      rw [ih ht]

theorem chain_nil (h : Chain next link []) : link = none := by
  cases h
  rfl

theorem chain_cons (h : Chain next link (a :: l)) :
    link = some a ∧ ∃ rest, next a = some rest ∧ Chain next rest l := by
  cases h with
  | node hn ht => exact ⟨rfl, _, hn, ht⟩

theorem Chain.head_mem (h : Chain next (some a) l) : a ∈ l := by
  cases h with
  | node => simp

theorem Chain.next_mem {b : α} (h : Chain next link l) (ha : a ∈ l) (hb : next a = some (some b)) :
    b ∈ l := by
  induction h with
  | null => cases ha
  | node hn ht ih =>
    rcases List.mem_cons.mp ha with rfl | ha
    · cases hn.symm.trans hb
      exact List.mem_cons_of_mem _ ht.head_mem
    · exact List.mem_cons_of_mem _ (ih ha)

theorem Chain.congr (h : Chain next link l) (hn : ∀ a ∈ l, next' a = next a) :
    Chain next' link l := by
  induction h with
  | null => exact .null
  | node ha _ ih =>
    refine .node ((hn _ (by simp)).trans ha) (ih fun b hb => hn b (by simp [hb]))

theorem Chain.split {l₁ l₂ : List α} (h : Chain next link (l₁ ++ a :: l₂)) :
    ∃ rest, next a = some rest ∧ Chain next rest l₂ := by
  induction l₁ generalizing link with
  | nil =>
    cases h with
    | node hn ht => exact ⟨_, hn, ht⟩
  | cons b l₁ ih =>
    cases h with
    | node _ ht => exact ih ht

end Hss.LinkedList
