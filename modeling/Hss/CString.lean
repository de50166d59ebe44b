import Mathlib.Algebra.BigOperators.Group.List.Basic
import Mathlib.Algebra.Order.Ring.Int
import Mathlib.Algebra.Order.Ring.Nat
import Mathlib.Data.List.TakeWhile
import Mathlib.Data.List.Lex
import Mathlib.Order.Defs.LinearOrder
import Mathlib.Tactic.Common

namespace Hss.CString

def ascii (s : String) : List UInt8 := s.toList.map Char.toUInt8

/-- The string in a block of memory: the bytes before the first NUL. The end
of the list is the terminating NUL where the block is given without it. -/
def cstr (block : List UInt8) : List UInt8 := block.takeWhile (· ≠ 0)

def isspace (c : UInt8) : Bool := c = 32 || (9 ≤ c && c ≤ 13)

def Blank (b : List UInt8) : Prop := ∀ c ∈ b, isspace c = true

def isdigit (c : UInt8) : Bool := 48 ≤ c && c ≤ 57

def strlen (block : List UInt8) : Nat := (cstr block).length

def compareBytes : List UInt8 → List UInt8 → Ordering
  | [], [] => .eq
  | [], _ :: _ => .lt
  | _ :: _, [] => .gt
  | a :: s, b :: t => if a < b then .lt else if b < a then .gt else compareBytes s t

def strcmp (s t : List UInt8) : Ordering := compareBytes (cstr s) (cstr t)

def strncmp : List UInt8 → List UInt8 → Nat → Ordering
  | _, _, 0 => .eq
  | s, t, n + 1 =>
    if s.headD 0 < t.headD 0 then .lt
    else if t.headD 0 < s.headD 0 then .gt
    else if s.headD 0 = 0 then .eq
    else strncmp s.tail t.tail n

/-- `strchr` from a position on: its result is a position too, `some none` is
NULL, and `none` says that the search ran past the memory. -/
def strchr (c : UInt8) : List UInt8 → Nat → Option (Option Nat)
  | [], _ => none
  | b :: rest, i =>
    if b = c then some (some i) else if b = 0 then some none else strchr c rest (i + 1)

def slice (memory : List UInt8) (start stop : Nat) : List UInt8 := (memory.take stop).drop start

def decimal (digits : List UInt8) : Nat := digits.foldl (fun n d => 10 * n + (d.toNat - 48)) 0

def decimalText (n : Nat) : List UInt8 := (Nat.toDigits 10 n).map Char.toUInt8

/-- `memcmp` looks at the bytes up to the first difference; `none` says that a
block ends before it and before the length. -/
def memcmp : List UInt8 → List UInt8 → Nat → Option Ordering
  | _, _, 0 => some .eq
  | a :: s, b :: t, n + 1 => if a < b then some .lt else if b < a then some .gt else memcmp s t n
  | _, _, _ => none

theorem cstr_of_not_mem {s : List UInt8} (h : 0 ∉ s) : cstr s = s := by
  refine List.takeWhile_eq_self_iff.mpr fun c hc => ?_
  have hne : c ≠ 0 := fun he => h (he ▸ hc)
  simpa using hne

theorem cstr_append_nul {s : List UInt8} (h : 0 ∉ s) (rest : List UInt8) :
    cstr (s ++ 0 :: rest) = s := by
  have hall : ∀ c ∈ s, decide (c ≠ 0) = true := by
    intro c hc
    exact decide_eq_true fun he => h (he ▸ hc)
  rw [cstr, List.takeWhile_append_of_pos hall, List.takeWhile_cons_of_neg (by simp),
    List.append_nil]

theorem not_mem_cstr (s : List UInt8) : 0 ∉ cstr s := by
  intro h
  have hp := List.mem_takeWhile_imp h
  simp at hp

@[simp] theorem cstr_cstr (s : List UInt8) : cstr (cstr s) = cstr s :=
  cstr_of_not_mem (not_mem_cstr s)

instance linearOrderUInt8 : LinearOrder UInt8 where
  le_refl := UInt8.le_refl
  le_trans _ _ _ := UInt8.le_trans
  le_antisymm _ _ := UInt8.le_antisymm
  le_total := UInt8.le_total
  lt_iff_le_not_ge a b := by
    rw [UInt8.not_le]
    exact ⟨fun h => ⟨UInt8.le_of_lt h, h⟩, fun h => h.2⟩
  toDecidableLE := inferInstance
  toDecidableEq := inferInstance
  toDecidableLT := inferInstance

theorem memcmp_cons (a : UInt8) (s t : List UInt8) (n : Nat) :
    memcmp (a :: s) (a :: t) (n + 1) = memcmp s t n := by
  simp [memcmp]

theorem memcmp_swap (s t : List UInt8) (n : Nat) :
    memcmp s t n = (memcmp t s n).map Ordering.swap := by
  induction n generalizing s t with
  | zero => simp [memcmp]
  | succ n ih =>
    cases s with
    | nil => cases t <;> rfl
    | cons a s =>
      cases t with
      | nil => rfl
      | cons b t =>
        obtain hab | rfl | hba := lt_trichotomy a b
        · simp [memcmp, hab, hab.not_gt]
        · rw [memcmp_cons, memcmp_cons, ih]
        · simp [memcmp, hba, hba.not_gt]

/-- What stands behind a block is not looked at. -/
theorem memcmp_append (s rest t : List UInt8) :
    memcmp (s ++ rest) t s.length = memcmp s t s.length := by
  induction s generalizing t with
  | nil => rw [List.length_nil, memcmp, memcmp]
  | cons a s ih =>
    cases t with
    | nil => rfl
    | cons b t => rw [List.cons_append, List.length_cons, memcmp, memcmp, ih]

theorem memcmp_eq_iff {s t : List UInt8} (hnul : 0 ∉ s) :
    memcmp s (t ++ [0]) s.length = some .eq ↔ s <+: t := by
  induction s generalizing t with
  | nil => simp [memcmp]
  | cons a s ih =>
    have ha : 0 < a := UInt8.pos_iff_ne_zero.mpr fun h => hnul (h ▸ List.mem_cons_self)
    have hs : 0 ∉ s := fun h => hnul (List.mem_cons_of_mem a h)
    cases t with
    | nil => simp [memcmp, ha]
    | cons b t =>
      rw [List.cons_append, List.length_cons, List.cons_prefix_cons]
      obtain hab | rfl | hba := lt_trichotomy a b
      · simp [memcmp, hab, hab.ne]
      · rw [memcmp_cons, ih hs, and_iff_right rfl]
      · simp [memcmp, hba, hba.not_gt, hba.ne']

theorem memcmp_isSome {s : List UInt8} (hnul : 0 ∉ s) (t : List UInt8) :
    ∃ order, memcmp s (t ++ [0]) s.length = some order := by
  induction s generalizing t with
  | nil => exact ⟨.eq, rfl⟩
  | cons a s ih =>
    have ha : 0 < a := UInt8.pos_iff_ne_zero.mpr fun h => hnul (h ▸ List.mem_cons_self)
    have hs : 0 ∉ s := fun h => hnul (List.mem_cons_of_mem a h)
    cases t with
    | nil => exact ⟨.gt, by simp [memcmp, ha]⟩
    | cons b t =>
      rw [List.cons_append, List.length_cons]
      obtain hab | rfl | hba := lt_trichotomy a b
      · exact ⟨.lt, by simp [memcmp, hab]⟩
      · rw [memcmp_cons]
        exact ih hs t
      · exact ⟨.gt, by simp [memcmp, hba, hba.not_gt]⟩

theorem strncmp_prefix {s t : List UInt8} (hnul : 0 ∉ s) (h : strncmp t s s.length = .eq) :
    s <+: t := by
  induction s generalizing t with
  | nil => exact List.nil_prefix
  | cons c s ih =>
    have hc : c ≠ 0 := fun he => hnul (he ▸ List.mem_cons_self)
    rw [List.length_cons, strncmp] at h
    split at h
    · cases h
    split at h
    · cases h
    rename_i hlt hgt
    have heq : t.headD 0 = c := UInt8.le_antisymm (UInt8.not_lt.mp hgt) (UInt8.not_lt.mp hlt)
    rw [if_neg (heq ▸ hc)] at h
    cases t with
    | nil => exact absurd heq.symm hc
    | cons d t =>
      obtain rfl : d = c := heq
      exact List.cons_prefix_cons.mpr ⟨rfl, ih (fun hm => hnul (List.mem_cons_of_mem _ hm)) h⟩

theorem toNat_digitChar {n : Nat} {d : Char} (hd : d ∈ Nat.toDigits 10 n) :
    d.toUInt8.toNat = d.toNat ∧ 48 ≤ d.toNat ∧ d.toNat ≤ 57 := by
  have hdigit := Nat.isDigit_of_mem_toDigits (by decide) (by decide) hd
  simp only [Char.isDigit, Bool.and_eq_true, decide_eq_true_eq, UInt32.le_iff_toNat_le,
    ge_iff_le] at hdigit
  obtain ⟨hl, hu⟩ := hdigit
  refine ⟨?_, hl, hu⟩
  simp only [Char.toUInt8, UInt32.toNat_toUInt8]
  exact Nat.mod_eq_of_lt (Nat.lt_of_le_of_lt hu (by decide))

theorem decimalText_digit (n : Nat) : ∀ c ∈ decimalText n, isdigit c = true := by
  intro c hc
  obtain ⟨d, hd, rfl⟩ := List.mem_map.mp hc
  obtain ⟨hval, hl, hu⟩ := toNat_digitChar hd
  simp only [isdigit, Bool.and_eq_true, decide_eq_true_eq, UInt8.le_iff_toNat_le, hval]
  exact ⟨hl, hu⟩

theorem decimal_decimalText (n : Nat) : decimal (decimalText n) = n := by
  have hfold : ∀ (l : List Char), (∀ d ∈ l, d.toUInt8.toNat = d.toNat) → ∀ i,
      (l.map Char.toUInt8).foldl (fun n d => 10 * n + (d.toNat - 48)) i = Nat.ofDigitChars 10 l i := by
    intro l hl
    induction l with
    | nil => simp
    | cons d l ih =>
      intro i
      rw [List.map_cons, List.foldl_cons, Nat.ofDigitChars_cons, hl d List.mem_cons_self]
      exact ih (fun e he => hl e (List.mem_cons_of_mem _ he)) _
  rw [decimal, decimalText, hfold _ fun d hd => (toNat_digitChar hd).1]
  exact Nat.ofDigitChars_ten_toDigits

theorem decimalText_injective : Function.Injective decimalText :=
  Function.LeftInverse.injective decimal_decimalText

theorem not_mem_decimalText (n : Nat) : 0 ∉ decimalText n := fun h =>
  absurd (decimalText_digit n 0 h) (by decide)

theorem cstr_decimalText (n : Nat) : cstr (decimalText n) = decimalText n :=
  cstr_of_not_mem (not_mem_decimalText n)

theorem decimalText_ne_nil (n : Nat) : decimalText n ≠ [] := by
  rw [decimalText, Ne, List.map_eq_nil_iff]
  exact Nat.toDigits_ne_nil

theorem compareBytes_cons (a : UInt8) (s t : List UInt8) :
    compareBytes (a :: s) (a :: t) = compareBytes s t := by
  simp [compareBytes]

theorem compareBytes_eq_iff {s t : List UInt8} : compareBytes s t = .eq ↔ s = t := by
  induction s generalizing t with
  | nil => cases t <;> simp [compareBytes]
  | cons a s ih =>
    cases t with
    | nil => simp [compareBytes]
    | cons b t =>
      obtain hab | rfl | hba := lt_trichotomy a b
      · simp [compareBytes, hab, hab.ne]
      · rw [compareBytes_cons, ih]
        simp
      · simp [compareBytes, hba, hba.not_gt, hba.ne']

theorem compareBytes_lt_iff {s t : List UInt8} : compareBytes s t = .lt ↔ s < t := by
  induction s generalizing t with
  | nil => cases t <;> simp [compareBytes]
  | cons a s ih =>
    cases t with
    | nil => simp [compareBytes]
    | cons b t =>
      rw [List.cons_lt_cons_iff]
      obtain hab | rfl | hba := lt_trichotomy a b
      · simp [compareBytes, hab]
      · rw [compareBytes_cons, ih]
        simp
      · simp [compareBytes, hba, hba.not_gt, hba.ne']

theorem strcmp_eq_iff {s t : List UInt8} : strcmp s t = .eq ↔ cstr s = cstr t :=
  compareBytes_eq_iff

theorem strcmp_lt_iff {s t : List UInt8} : strcmp s t = .lt ↔ cstr s < cstr t :=
  compareBytes_lt_iff

end Hss.CString
