import Hss.CString
import Hss.Lib.StreamParser

namespace Hss.Address

open Hss.CString Hss.StreamParser

structure In6Addr where
  words : List UInt16
  length_words : words.length = 8
  deriving DecidableEq

/-- What `getsockname` writes, without the port. -/
inductive SocketAddress
  | inet (a b c d : UInt8)
  | inet6 (address : In6Addr)
  deriving DecidableEq

def inet6AddrStrLen : Nat := 46

def dotted (a b c d : UInt8) : List UInt8 :=
  decimalText a.toNat ++ 46 :: (decimalText b.toNat ++ 46 ::
    (decimalText c.toNat ++ 46 :: decimalText d.toNat))

def hexText (n : Nat) : List UInt8 := (Nat.toDigits 16 n).map Char.toUInt8

structure Run where
  base : Nat
  length : Nat
  deriving DecidableEq

def Run.covers (run : Run) (i : Nat) : Bool := run.base ≤ i && i < run.base + run.length

def longerRun (best current : Option Run) : Option Run :=
  match best, current with
  | best, none => best
  | none, current => current
  | some best, some current => some (if best.length < current.length then current else best)

def scanRuns : List UInt16 → Nat → Option Run → Option Run → Option Run
  | [], _, current, best => longerRun best current
  | word :: words, i, current, best =>
    if word = 0 then
      let run := current.getD ⟨i, 0⟩
      scanRuns words (i + 1) (some ⟨run.base, run.length + 1⟩) best
    else scanRuns words (i + 1) none (longerRun best current)

def bestRun (words : List UInt16) : Option Run :=
  (scanRuns words 0 none none).filter (2 ≤ ·.length)

/-- The last two words are an IPv4 address. -/
def encapsulates (best : Option Run) (words : List UInt16) : Bool :=
  best.any fun run =>
    run.base = 0 && (run.length = 6 || (run.length = 5 && words[5]? = some 0xffff))

def colonIf (condition : Bool) : List UInt8 := if condition then [58] else []

def printWords (best : Option Run) (encapsulated : Bool) : Nat → List UInt16 → List UInt8
  | _, [] => []
  | i, word :: words =>
    if best.any (·.covers i) then
      colonIf (best.any (·.base = i)) ++ printWords best encapsulated (i + 1) words
    else
      colonIf (i ≠ 0) ++
        if i = 6 ∧ encapsulated then
          dotted (word >>> 8).toUInt8 word.toUInt8 (words.headD 0 >>> 8).toUInt8
            (words.headD 0).toUInt8
        else hexText word.toNat ++ printWords best encapsulated (i + 1) words

def inetNtop6 (address : In6Addr) : List UInt8 :=
  let best := bestRun address.words
  printWords best (encapsulates best address.words) 0 address.words ++
    colonIf (best.any fun run => run.base + run.length = 8)

def inetNtop : SocketAddress → List UInt8
  | .inet a b c d => dotted a b c d
  | .inet6 address => inetNtop6 address

example : inetNtop (.inet6 ⟨[0x2001, 0xdb8, 0, 0, 1, 0, 0, 0], rfl⟩) =
    ascii "2001:db8:0:0:1::" := by decide +kernel

example : inetNtop (.inet6 ⟨[0, 0, 0, 0, 0, 0xffff, 0x7f00, 1], rfl⟩) =
    ascii "::ffff:127.0.0.1" := by decide +kernel

def Printed (c : UInt8) : Prop := isdigit c = true ∨ (97 ≤ c ∧ c ≤ 102) ∨ c = 58 ∨ c = 46

instance (c : UInt8) : Decidable (Printed c) := inferInstanceAs (Decidable (_ ∨ _))

variable {a b c d : UInt8} {i n : Nat} {s t : List UInt8}

theorem mem_colonIf {condition : Bool} {e : UInt8} (he : e ∈ colonIf condition) : e = 58 := by
  cases condition with
  | false => cases he
  | true => exact List.mem_singleton.mp he

theorem length_colonIf (condition : Bool) : (colonIf condition).length = condition.toNat := by
  cases condition <;> rfl

theorem length_decimalText_byte (a : UInt8) : (decimalText a.toNat).length ≤ 3 := by
  rw [decimalText, List.length_map, Nat.length_toDigits_le_iff (by decide) (by decide)]
  have hlt := a.toNat_lt
  omega

theorem length_dotted (a b c d : UInt8) : (dotted a b c d).length ≤ 15 := by
  have ha := length_decimalText_byte a
  have hb := length_decimalText_byte b
  have hc := length_decimalText_byte c
  have hd := length_decimalText_byte d
  simp only [dotted, List.length_append, List.length_cons]
  omega

theorem length_hexText (word : UInt16) : (hexText word.toNat).length ≤ 4 := by
  rw [hexText, List.length_map, Nat.length_toDigits_le_iff (by decide) (by decide)]
  exact word.toNat_lt

theorem printed_dotted (a b c d : UInt8) : ∀ e ∈ dotted a b c d, Printed e := by
  intro e he
  simp only [dotted, List.mem_append, List.mem_cons] at he
  obtain he | rfl | he | rfl | he | rfl | he := he
  all_goals first | exact .inl (decimalText_digit _ e he) | decide

theorem printed_hexText (n : Nat) : ∀ e ∈ hexText n, Printed e := by
  have hdigit : ∀ k < 16, Printed (Nat.digitChar k).toUInt8 := by decide
  induction n using Nat.strongRecOn with
  | ind n ih =>
    intro e he
    rw [hexText, Nat.toDigits_eq_if (by decide)] at he
    split at he
    · rename_i hlt
      rw [List.map_singleton, List.mem_singleton] at he
      rw [he]
      exact hdigit n hlt
    · rename_i hge
      rw [List.map_append, List.map_singleton, List.mem_append, List.mem_singleton] at he
      obtain he | rfl := he
      · exact ih (n / 16) (by omega) e he
      · exact hdigit (n % 16) (by omega)

theorem printed_printWords (best : Option Run) (encapsulated : Bool) (words : List UInt16) :
    ∀ e ∈ printWords best encapsulated i words, Printed e := by
  have hcolon : Printed 58 := by decide
  induction words generalizing i with
  | nil => simp [printWords]
  | cons word words ih =>
    intro e he
    rw [printWords] at he
    split at he
    · obtain he | he := List.mem_append.mp he
      · exact mem_colonIf he ▸ hcolon
      · exact ih e he
    · obtain he | he := List.mem_append.mp he
      · exact mem_colonIf he ▸ hcolon
      · split at he
        · exact printed_dotted _ _ _ _ e he
        · obtain he | he := List.mem_append.mp he
          · exact printed_hexText _ e he
          · exact ih e he

theorem printed_inetNtop (address : SocketAddress) : ∀ e ∈ inetNtop address, Printed e := by
  intro e he
  cases address with
  | inet a b c d => exact printed_dotted a b c d e he
  | inet6 address =>
    rw [inetNtop, inetNtop6] at he
    obtain he | he := List.mem_append.mp he
    · exact printed_printWords _ _ _ e he
    · rw [mem_colonIf he]
      decide

/-- A word and its colon are five bytes at most, and an IPv4 address takes six bytes more than the
two words in its place. -/
theorem length_printWords (best : Option Run) (encapsulated : Bool) (words : List UInt16)
    (h : i + words.length = 8) : (printWords best encapsulated i words).length ≤
      5 * words.length + 6 * encapsulated.toNat := by
  induction words generalizing i with
  | nil => simp [printWords]
  | cons word words ih =>
    rw [List.length_cons] at h
    have hrest := ih (i := i + 1) (by omega)
    have hcolon := fun condition : Bool => length_colonIf condition ▸ Bool.toNat_le condition
    have hword := length_hexText word
    rw [printWords, List.length_cons]
    split
    · rw [List.length_append]
      have hone := hcolon (best.any (·.base = i))
      omega
    · have hone := hcolon (i ≠ 0)
      rw [List.length_append]
      split
      · rename_i hlast
        have hfour := length_dotted (word >>> 8).toUInt8 word.toUInt8 (words.headD 0 >>> 8).toUInt8
          (words.headD 0).toUInt8
        rw [hlast.2, Bool.toNat_true]
        omega
      · rw [List.length_append]
        omega

theorem length_inetNtop6 (address : In6Addr) : (inetNtop6 address).length < inet6AddrStrLen := by
  obtain ⟨words, hlength⟩ := address
  obtain ⟨word, words, rfl⟩ : ∃ word rest, words = word :: rest :=
    List.exists_cons_of_length_pos (by omega)
  rw [List.length_cons] at hlength
  rw [inetNtop6]
  dsimp only
  have hword := length_hexText word
  generalize bestRun (word :: words) = best
  generalize hin : encapsulates best (word :: words) = encapsulated
  have hrest : (printWords best encapsulated (0 + 1) words).length ≤
      5 * words.length + 6 * encapsulated.toNat := length_printWords _ _ _ (by omega)
  have hfirst : (printWords best encapsulated 0 (word :: words)).length ≤
      4 + (5 * words.length + 6 * encapsulated.toNat) := by
    rw [printWords]
    split
    · rw [List.length_append, length_colonIf]
      have hone := Bool.toNat_le (best.any (·.base = 0))
      omega
    · rw [List.length_append, if_neg (fun h => absurd h.1 (by decide)), List.length_append]
      simp only [ne_eq, not_true, decide_false, length_colonIf, Bool.toNat_false]
      omega
  -- An embedded IPv4 address ends the text: no run reaches the end.
  have htrailing : encapsulated.toNat +
      (best.any fun run => run.base + run.length = 8).toNat ≤ 1 := by
    cases best with
    | none =>
      rw [← hin]
      exact Nat.zero_le 1
    | some run =>
      simp only [encapsulates, Option.any_some] at hin ⊢
      subst hin
      by_cases hbase : run.base = 0
      · by_cases hend : run.length = 8
        · simp [hbase, hend]
        · simp only [hbase, Nat.zero_add, hend, decide_false, Bool.toNat_false, Nat.add_zero]
          exact Bool.toNat_le _
      · simp only [hbase, decide_false, Bool.false_and, Bool.toNat_false, Nat.zero_add]
        exact Bool.toNat_le _
  have hlimit : inet6AddrStrLen = 46 := rfl
  rw [List.length_append, length_colonIf]
  omega

/-- An address in text form fits the buffer that is meant for it. -/
theorem length_inetNtop (address : SocketAddress) :
    (inetNtop address).length < inet6AddrStrLen := by
  cases address with
  | inet a b c d => exact Nat.lt_of_le_of_lt (length_dotted a b c d) (by decide)
  | inet6 address => exact length_inetNtop6 address

theorem decimalText_separated {m n : Nat}
    (h : decimalText m ++ 46 :: s = decimalText n ++ 46 :: t) : m = n ∧ s = t := by
  have hstop : ∀ u : List UInt8, ∀ c, (46 :: u).head? = some c → isdigit c = false := by
    rintro u c ⟨⟩
    rfl
  obtain ⟨htake, hdrop⟩ := takeWhile_append_sep (decimalText_digit m) (hstop s)
  obtain ⟨htake', hdrop'⟩ := takeWhile_append_sep (decimalText_digit n) (hstop t)
  rw [h] at htake hdrop
  refine ⟨decimalText_injective (htake.symm.trans htake'), ?_⟩
  exact (List.cons.inj (hdrop.symm.trans hdrop')).2

theorem dotted_injective {a' b' c' d' : UInt8} (h : dotted a b c d = dotted a' b' c' d') :
    a = a' ∧ b = b' ∧ c = c' ∧ d = d' := by
  obtain ⟨ha, h⟩ := decimalText_separated h
  obtain ⟨hb, h⟩ := decimalText_separated h
  obtain ⟨hc, h⟩ := decimalText_separated h
  exact ⟨UInt8.toNat_inj.mp ha, UInt8.toNat_inj.mp hb, UInt8.toNat_inj.mp hc,
    UInt8.toNat_inj.mp (decimalText_injective h)⟩

end Hss.Address
