import Hss.Server.ReceiveBuffer
import Hss.Server.Transaction
import Mathlib.Data.Nat.Digits.Defs

namespace Hss.WorkingDirectory

open Hss.CString Hss.ReceiveBuffer

def wordBytes (n : UInt32) : List UInt8 := (List.range 4).map fun i => .ofNat (n.toNat / 256 ^ i)

def wordOf (bytes : List UInt8) : UInt32 := .ofNat (Nat.ofDigits 256 (bytes.map UInt8.toNat))

structure Statics where
  toInitialize : Bool
  currentDirectory : List UInt8
  deriving DecidableEq, Repr

def started : Statics := ⟨true, List.replicate 1028 0⟩

/-- The path with its NUL is stored behind an offset if both fit the size; `some none` is NULL, and
`none` a write outside the array. -/
def getcwd (directory array : List UInt8) (offset size : Nat) : Option (Option (List UInt8)) :=
  if directory.length < size then (writeAt array offset (directory ++ [0])).map some else some none

def storeLength (array : List UInt8) (length : UInt32) : Option (List UInt8) :=
  writeAt array 0 (wordBytes length)

def loadLength (array : List UInt8) : Option UInt32 := (readAt array 0 4).map wordOf

def appendSlash (array : List UInt8) : Option (List UInt8) := do
  if (← array[4 + (← loadLength array).toNat - 1]?) ≠ 47 then
    let array ← writeAt array (4 + (← loadLength array).toNat) [47]
    let array ← writeAt array (4 + (← loadLength array).toNat + 1) [0]
    storeLength array ((← loadLength array) + 1)
  else some array

/-- A call while `directory` is the current one. `none` is an access outside the array, and
`some none` the exit of the program. -/
def currentWorkingDirectory (directory : List UInt8) (s : Statics) : Option (Option Statics) :=
  if s.toInitialize then do
    match ← getcwd directory s.currentDirectory 4 1024 with
    | none => some none
    | some array =>
      let array ← storeLength array (.ofNat (strlen (array.drop 4)))
      let array ← appendSlash array
      some (some ⟨false, array⟩)
  else some (some s)

/-- The comparison that confines a path to the directory in the array. -/
def confine (array path : List UInt8) : Option Ordering := do
  memcmp (array.drop 4) (path ++ [0]) (← loadLength array).toNat

def calls : List (List UInt8) → Statics → Option (Option Statics)
  | [], s => some (some s)
  | directory :: directories, s => do
    match ← currentWorkingDirectory directory s with
    | none => some none
    | some s => calls directories s

/-- The array holds a length and a path with its NUL: the length is that of the path, and the path
that of the directory. -/
structure Holds (directory array : List UInt8) : Prop where
  terminated : 0 ∈ array.drop 4
  path : cstr (array.drop 4) = Transaction.currentWorkingDirectory directory
  length : (loadLength array).map UInt32.toNat = some (strlen (array.drop 4))

variable {directory array four rest : List UInt8} {n : UInt32} {s s' : Statics}

@[simp] theorem length_wordBytes (n : UInt32) : (wordBytes n).length = 4 := rfl

theorem wordOf_wordBytes (n : UInt32) : wordOf (wordBytes n) = n := by
  have hlt := n.toNat_lt
  have hvalue : Nat.ofDigits 256 ((wordBytes n).map UInt8.toNat) = n.toNat := by
    simp only [wordBytes, List.range_succ, List.range_zero, List.nil_append, List.cons_append,
      List.map_cons, List.map_nil, UInt8.toNat_ofNat', Nat.ofDigits_cons, Nat.ofDigits_nil]
    omega
  rw [wordOf, hvalue, UInt32.ofNat_toNat]

theorem storeLength_front (hfour : four.length = 4) (rest : List UInt8) (n : UInt32) :
    storeLength (four ++ rest) n = some (wordBytes n ++ rest) := by
  rw [storeLength, writeAt_zero (by rw [List.length_append, length_wordBytes]; omega),
    length_wordBytes, List.drop_left' hfour]

theorem loadLength_front (n : UInt32) (rest : List UInt8) :
    loadLength (wordBytes n ++ rest) = some n := by
  have hread : readAt (wordBytes n ++ rest) 0 4 = some (wordBytes n) := by
    rw [readAt, if_pos (by simp), slice, List.drop_zero, List.take_left' (length_wordBytes n)]
  rw [loadLength, hread, Option.map_some, wordOf_wordBytes]

theorem write_behind (path old bytes : List UInt8) (n : UInt32) (h : bytes.length ≤ old.length) :
    writeAt (wordBytes n ++ (path ++ old)) (4 + path.length) bytes =
      some (wordBytes n ++ (path ++ (bytes ++ old.drop bytes.length))) := by
  have hwrite : writeAt (wordBytes n ++ path ++ old) (wordBytes n ++ path).length bytes = _ :=
    writeAt_append h
  rw [List.length_append, length_wordBytes] at hwrite
  simpa only [List.append_assoc] using hwrite

theorem getElem?_last (path : List UInt8) (last : UInt8) (rest : List UInt8) (n : UInt32) :
    (wordBytes n ++ (path ++ [last] ++ rest))[4 + (path ++ [last]).length - 1]? = some last := by
  have hindex : 4 + (path ++ [last]).length - 1 = (wordBytes n ++ path).length := by
    rw [List.length_append, List.length_append, length_wordBytes, List.length_singleton]
    omega
  rw [hindex, List.append_assoc path, ← List.append_assoc,
    List.getElem?_append_right (le_refl _), Nat.sub_self]
  rfl

/-- The slash and a NUL behind it are stored if there is a byte left for the NUL. -/
theorem appendSlash_eq (hne : directory ≠ []) (hn : n.toNat = directory.length)
    (rest : List UInt8) : appendSlash (wordBytes n ++ (directory ++ 0 :: rest)) =
      if directory.getLast? = some 47 then some (wordBytes n ++ (directory ++ 0 :: rest))
      else if rest = [] then none
      else some (wordBytes (n + 1) ++ (directory ++ [47] ++ 0 :: rest.tail)) := by
  have hlast : (wordBytes n ++ (directory ++ 0 :: rest))[4 + directory.length - 1]? =
      directory.getLast? := by
    obtain ⟨path, last, rfl⟩ := List.eq_nil_or_concat' directory |>.resolve_left hne
    rw [getElem?_last, List.getLast?_concat]
  obtain ⟨last, hgetLast⟩ : ∃ last, directory.getLast? = some last :=
    ⟨_, List.getLast?_eq_some_getLast hne⟩
  rw [appendSlash, loadLength_front]
  simp only [Option.bind_eq_bind, Option.bind_some, hn, hlast, hgetLast, Option.some.injEq, ne_eq,
    ite_not]
  by_cases hslash : last = 47
  · rw [if_pos hslash, if_pos hslash]
  rw [if_neg hslash, if_neg hslash, write_behind directory (0 :: rest) [47] n (by simp),
    Option.bind_some, loadLength_front, Option.bind_some, hn, List.length_singleton,
    List.drop_succ_cons, List.drop_zero, ← List.append_assoc directory]
  cases rest with
  | nil =>
    rw [if_pos rfl, writeAt, if_neg, Option.bind_none]
    simp only [List.length_append, length_wordBytes, List.length_cons, List.length_nil]
    omega
  | cons byte rest =>
    have hnul := write_behind (directory ++ [47]) (byte :: rest) [0] n (by simp)
    rw [List.length_append, List.length_singleton, ← Nat.add_assoc] at hnul
    rw [if_neg (List.cons_ne_nil _ _), hnul, Option.bind_some, loadLength_front, Option.bind_some,
      storeLength_front (length_wordBytes n)]
    rfl

theorem holds_front {path : List UInt8} (hnul : 0 ∉ directory)
    (hpath : Transaction.currentWorkingDirectory directory = path) (hn : n.toNat = path.length)
    (rest : List UInt8) : Holds directory (wordBytes n ++ (path ++ 0 :: rest)) := by
  have hnone : 0 ∉ path := by
    rw [← hpath, Transaction.currentWorkingDirectory]
    split
    · exact hnul
    · simpa using hnul
  have hdrop : (wordBytes n ++ (path ++ 0 :: rest)).drop 4 = path ++ 0 :: rest :=
    List.drop_left' (length_wordBytes n)
  refine ⟨?_, ?_, ?_⟩
  · rw [hdrop]
    exact List.mem_append_right _ List.mem_cons_self
  · rw [hdrop, cstr_append_nul hnone, hpath]
  · rw [hdrop, strlen, cstr_append_nul hnone, loadLength_front, Option.map_some, hn]

theorem getcwd_eq {front old : List UInt8} (h : directory.length < old.length) :
    getcwd directory (front ++ old) front.length old.length =
      some (some (front ++ (directory ++ 0 :: old.drop (directory.length + 1)))) := by
  have hwrite : writeAt (front ++ old) front.length (directory ++ [0]) = _ :=
    writeAt_append (by rw [List.length_append]; exact h)
  rw [getcwd, if_pos h, hwrite, Option.map_some, List.append_assoc, List.length_append]
  rfl

theorem currentWorkingDirectory_started (hnul : 0 ∉ directory) (hlt : directory.length < 1024) :
    currentWorkingDirectory directory started =
      (appendSlash (wordBytes (.ofNat directory.length) ++
        (directory ++ 0 :: List.replicate (1023 - directory.length) 0))).map
          fun array => some ⟨false, array⟩ := by
  have hgetcwd : getcwd directory started.currentDirectory 4 1024 =
      some (some (List.replicate 4 0 ++
        (directory ++ 0 :: List.replicate (1023 - directory.length) 0))) := by
    have hstored : getcwd directory (List.replicate 4 0 ++ List.replicate 1024 0) _ _ = _ :=
      getcwd_eq (by rw [List.length_replicate]; exact hlt)
    rw [← List.replicate_add, List.length_replicate, List.length_replicate,
      List.drop_replicate] at hstored
    rw [started, hstored, show 1024 - (directory.length + 1) = 1023 - directory.length by omega]
  rw [currentWorkingDirectory, if_pos (show started.toInitialize = true from rfl), hgetcwd]
  simp only [Option.bind_eq_bind, Option.bind_some]
  rw [List.drop_left' List.length_replicate, strlen, cstr_append_nul hnul,
    storeLength_front List.length_replicate, Option.bind_some, Option.map_eq_bind]
  rfl

theorem toInitialize_of_call (h : currentWorkingDirectory directory s = some (some s')) :
    s'.toInitialize = false := by
  rw [currentWorkingDirectory] at h
  split at h
  · obtain ⟨result, -, h⟩ := Option.bind_eq_some_iff.mp h
    cases result with
    | none => cases h
    | some array =>
      obtain ⟨_, -, h⟩ := Option.bind_eq_some_iff.mp h
      obtain ⟨_, -, h⟩ := Option.bind_eq_some_iff.mp h
      cases h
      rfl
  · rename_i hstored
    cases h
    exact Bool.eq_false_iff.mpr hstored

theorem calls_stored (h : s.toInitialize = false) (directories : List (List UInt8)) :
    calls directories s = some (some s) := by
  induction directories with
  | nil => rfl
  | cons directory directories ih =>
    rw [calls, currentWorkingDirectory, if_neg (by rw [h]; exact Bool.false_ne_true)]
    exact ih

theorem calls_cons (later : List (List UInt8)) :
    calls (directory :: later) s = currentWorkingDirectory directory s := by
  rw [calls]
  cases hcall : currentWorkingDirectory directory s with
  | none => rfl
  | some result =>
    cases result with
    | none => rfl
    | some s' => exact calls_stored (toInitialize_of_call hcall) later

theorem toNat_length (h : directory.length < 1024) :
    (UInt32.ofNat directory.length).toNat = directory.length :=
  UInt32.toNat_ofNat_of_lt' (by rw [UInt32.size]; omega)

theorem call_fits (hne : directory ≠ []) (hnul : 0 ∉ directory) (hlt : directory.length < 1024)
    (h : directory.length < 1023 ∨ directory.getLast? = some 47) :
    ∃ s, currentWorkingDirectory directory started = some (some s) ∧
      Holds directory s.currentDirectory := by
  have hn := toNat_length hlt
  rw [currentWorkingDirectory_started hnul hlt, appendSlash_eq hne hn]
  by_cases hslash : directory.getLast? = some 47
  · have hcwd : Transaction.currentWorkingDirectory directory = directory := if_pos hslash
    exact ⟨_, by rw [if_pos hslash, Option.map_some], holds_front hnul hcwd hn _⟩
  · have hroom : List.replicate (1023 - directory.length) (0 : UInt8) ≠ [] := by
      have hlong := h.resolve_right hslash
      rw [ne_eq, List.replicate_eq_nil_iff]
      omega
    have hcwd : Transaction.currentWorkingDirectory directory = directory ++ [47] := if_neg hslash
    have hsucc : (UInt32.ofNat directory.length + 1).toNat = (directory ++ [47]).length := by
      rw [UInt32.toNat_add, hn, List.length_append]
      exact Nat.mod_eq_of_lt (Nat.lt_of_lt_of_le (Nat.succ_lt_succ hlt) (by decide))
    exact ⟨_, by rw [if_neg hslash, if_neg hroom, Option.map_some], holds_front hnul hcwd hsucc _⟩

/-- The NUL behind the slash is the byte behind the array. -/
theorem call_overflows (hnul : 0 ∉ directory) (hlength : directory.length = 1023)
    (hslash : directory.getLast? ≠ some 47) : currentWorkingDirectory directory started = none := by
  have hne : directory ≠ [] := List.ne_nil_of_length_pos (by omega)
  have hlt : directory.length < 1024 := by omega
  rw [currentWorkingDirectory_started hnul hlt, appendSlash_eq hne (toNat_length hlt),
    if_neg hslash, hlength, Nat.sub_self, List.replicate_zero, if_pos rfl, Option.map_none]

theorem fits_of_calls (hnul : 0 ∉ directory) (hlt : directory.length < 1024)
    {later : List (List UInt8)} (h : calls (directory :: later) started = some (some s)) :
    directory.length < 1023 ∨ directory.getLast? = some 47 := by
  by_contra! hlong
  rw [calls_cons, call_overflows hnul (by omega) hlong.2] at h
  cases h

/-- The calls return with the path of the first directory in the array exactly if it leaves a byte
for the slash, or needs none. -/
theorem always_fits_iff (hne : directory ≠ []) (hnul : 0 ∉ directory)
    (hlt : directory.length < 1024) (later : List (List UInt8)) :
    (∃ s, calls (directory :: later) started = some (some s) ∧
        Holds directory s.currentDirectory) ↔
      directory.length < 1023 ∨ directory.getLast? = some 47 := by
  refine ⟨fun ⟨_, hcalls, _⟩ => fits_of_calls hnul hlt hcalls, fun h => ?_⟩
  rw [calls_cons]
  exact call_fits hne hnul hlt h

theorem always_fits_srv : ∃ s, calls [ascii "/srv", ascii "/"] started = some (some s) ∧
    Holds (ascii "/srv") s.currentDirectory :=
  (always_fits_iff (by decide) (by decide) (by decide) [ascii "/"]).mpr (.inl (by decide))

theorem path_of_1023_bytes_overflows :
    (47 :: List.replicate 1022 (97 : UInt8)).length = 1023 ∧
      (0 : UInt8) ∉ 47 :: List.replicate 1022 97 ∧
      calls [47 :: List.replicate 1022 97] started = none := by
  have hlength : (47 :: List.replicate 1022 (97 : UInt8)).length = 1023 := by
    rw [List.length_cons, List.length_replicate]
  have hnul : (0 : UInt8) ∉ 47 :: List.replicate 1022 97 := by
    simp only [List.mem_cons, List.mem_replicate]
    decide
  have hslash : (47 :: List.replicate 1022 (97 : UInt8)).getLast? ≠ some 47 := by
    rw [List.getLast?_cons, List.getLast?_replicate]
    decide
  refine ⟨hlength, hnul, ?_⟩
  rw [calls_cons, call_overflows hnul hlength hslash]

theorem confine_of_holds (h : Holds directory array) (path : List UInt8) :
    confine array path = memcmp (Transaction.currentWorkingDirectory directory) (path ++ [0])
      (Transaction.currentWorkingDirectory directory).length := by
  obtain ⟨n, hload, hn⟩ := Option.map_eq_some_iff.mp h.length
  obtain ⟨behind, hsplit⟩ : cstr (array.drop 4) <+: array.drop 4 := List.takeWhile_prefix _
  have hfront := memcmp_append (cstr (array.drop 4)) behind (path ++ [0])
  rw [hsplit] at hfront
  rw [confine, hload, Option.bind_eq_bind, Option.bind_some, hn, strlen, hfront, h.path]

/-- Where the calls return, the array confines a path as the path of the directory does, which is
what the transactions compare with. -/
theorem confine_of_calls (hne : directory ≠ []) (hnul : 0 ∉ directory)
    (hlt : directory.length < 1024) {later : List (List UInt8)}
    (h : calls (directory :: later) started = some (some s)) (path : List UInt8) :
    confine s.currentDirectory path =
      memcmp (Transaction.currentWorkingDirectory directory) (path ++ [0])
        (Transaction.currentWorkingDirectory directory).length := by
  obtain ⟨s', hcall, hholds⟩ := call_fits hne hnul hlt (fits_of_calls hnul hlt h)
  rw [calls_cons, hcall] at h
  cases h
  exact confine_of_holds hholds path

end Hss.WorkingDirectory
