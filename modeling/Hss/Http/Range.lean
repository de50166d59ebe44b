import Hss.CString
import Hss.Lib.Interval
import Mathlib.Data.List.Sort

namespace Hss.Range

open Hss.CString

/-- A `struct range`; that both fields are 0 stands for the whole file. -/
abbrev Range := Interval Nat

def fullRange : Range := ⟨0, 0⟩

def sizeMax : Nat := 2 ^ 64

def llongMax : Int := 2 ^ 63 - 1

def llongMin : Int := -2 ^ 63

def toSize (v : Int) : Nat := (v % sizeMax).toNat

/-- The value in base 10, and what `endptr` is left at. -/
def strtoll (s : List UInt8) : Int × List UInt8 :=
  let t := s.dropWhile isspace
  let signed := t.head? = some 45 ∨ t.head? = some 43
  let u := if signed then t.tail else t
  let digits := u.takeWhile isdigit
  if digits = [] then (0, s)
  else
    let value : Int := if t.head? = some 45 then -decimal digits else decimal digits
    (max llongMin (min llongMax value), u.drop digits.length)

/-- The positions of one spec as written; `none` is a read behind the string or
an overflow of `long long`. -/
def readSingleRange (representation : List UInt8) (size : Nat) : Option Range :=
  match representation with
  | [] => none
  | c :: rest =>
    if c = 45 then some ⟨toSize (size - (strtoll rest).1), size⟩
    else
      match strtoll representation with
      | (start, _ :: d :: after) =>
        if isdigit d then
          let last := (strtoll (d :: after)).1
          if last = llongMax then none else some ⟨toSize start, toSize (last + 1)⟩
        else some ⟨toSize start, size⟩
      | _ => none

def parseSingleRange (representation : List UInt8) (size : Nat) : Option Range := do
  let range ← readSingleRange representation size
  some (if range.start ≥ range.end_ then fullRange else range)

def compareRange (lhs rhs : Range) : Ordering :=
  if lhs.start ≠ rhs.start then if lhs.start < rhs.start then .lt else .gt
  else if lhs.end_ ≠ rhs.end_ then if lhs.end_ < rhs.end_ then .lt else .gt
  else .eq

/-- From `representation` to behind the next comma, or behind the final NUL. -/
def nextSpec (representation : List UInt8) : List UInt8 :=
  (representation.dropWhile fun c => c ≠ 44 ∧ c ≠ 0).tail

def parseRanges (size : Nat) : Nat → List UInt8 → Option (List Range)
  | 0, _ => some []
  | n + 1, representation => do
    let representation := representation.dropWhile isspace
    let range ← parseSingleRange representation size
    let ranges ← parseRanges size n (nextSpec representation)
    some (range :: ranges)

/-- The loop over the sorted ranges; `previous` is `ranges[i - 1]`. -/
def mergeRanges (partialResult : Range) (previous : Option Range) : List Range → Range
  | [] => partialResult
  | range :: ranges =>
    if range.start = 0 ∧ range.end_ = 0 then fullRange
    else if previous.any (range.start < ·.end_) then fullRange
    else if range.end_ = partialResult.start then
      mergeRanges ⟨range.start, partialResult.end_⟩ (some range) ranges
    else if range.start = partialResult.end_ then
      mergeRanges ⟨partialResult.start, range.end_⟩ (some range) ranges
    else mergeRanges partialResult (some range) ranges

def sortRanges (ranges : List Range) : List Range :=
  ranges.insertionSort fun lhs rhs => compareRange lhs rhs ≠ .gt

/-- The argument is NULL or a string with its NUL. -/
def parseRange (representation : Option (List UInt8)) (size : Nat) : Option Range :=
  match representation with
  | none => some fullRange
  | some representation =>
    let representation := representation.dropWhile isspace
    if strncmp representation (ascii "bytes=") 6 ≠ .eq then some fullRange
    else
      let representation := representation.drop 6
      let nRanges := 1 + (cstr representation).count 44
      match parseRanges size nRanges representation with
      | some (first :: ranges) =>
        some (mergeRanges first none (sortRanges (first :: ranges)))
      | _ => none

example : parseRange (some (ascii "bytes=5-9,0-4, -1" ++ [0])) 20 = some ⟨0, 10⟩ := by decide

example : parseRange (some (ascii "bytes=5-" ++ [0])) 20 = some ⟨5, 20⟩ := by decide

end Hss.Range
