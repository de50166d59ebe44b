import Hss.Http.Range
import Hss.Server.ReadLoop

namespace Hss.ReceiveBuffer

open Hss.CString Hss.Range Hss.ReadLoop

/-- A `struct buffer` with the contents of its block; NULL is the empty block. -/
structure Buffer where
  buffer : List UInt8
  capability : Nat
  start : Nat
  end_ : Nat
  deriving DecidableEq, Repr

/-- The allocator: which sizes it grants, what fresh memory holds, and the bytes
in memory behind a block, of which some is NUL. -/
structure Memory where
  grants : Nat → Bool
  limit : ∀ n, grants n = true → n < 2 ^ 63
  garbage : Nat → UInt8
  behind : List UInt8
  nul : 0 ∈ behind

def sizeAdd (a b : Nat) : Nat := (a + b) % sizeMax

def sizeSub (a b : Nat) : Nat := (a + sizeMax - b) % sizeMax

/-- `none` is a read outside the block. -/
def readAt (block : List UInt8) (start stop : Nat) : Option (List UInt8) :=
  if start ≤ stop ∧ stop ≤ block.length then some (slice block start stop) else none

/-- `none` is a write outside the block. -/
def writeAt (block : List UInt8) (offset : Nat) (bytes : List UInt8) : Option (List UInt8) :=
  if offset + bytes.length ≤ block.length then
    some (block.take offset ++ (bytes ++ block.drop (offset + bytes.length)))
  else none

def fresh (memory : Memory) (size : Nat) : List UInt8 := (List.range size).map memory.garbage

def realloc (memory : Memory) (block : List UInt8) (size : Nat) : Option (List UInt8) :=
  if memory.grants size then some (block.take size ++ fresh memory (size - block.length)) else none

def shiftToBeginning (b : Buffer) : Option Buffer :=
  if b.start ≠ 0 then do
    let effective ← readAt b.buffer b.start b.end_
    let buffer ← writeAt b.buffer 0 effective
    some { b with buffer, end_ := sizeSub b.end_ b.start, start := 0 }
  else some b

def copyPages (buffer : List UInt8) (end_ : Nat) : List (List UInt8) → Option (List UInt8 × Nat)
  | [] => some (buffer, end_)
  | page :: pages => do
    let buffer ← writeAt buffer end_ page
    copyPages buffer (sizeAdd end_ page.length) pages

/-- The whole pages, then the last one if it is partially filled. -/
def receivedPages {σ : Type} (s : ReadState σ) : List (List UInt8) :=
  s.bufferList.take s.bufferPage ++
    if s.offset > 0 then [(s.bufferList.getD s.bufferPage []).take s.offset] else []

/-- Move what was received behind the effective part: `none` is an access
outside a block, `some none` a failed `realloc`. -/
def storeReceived {σ : Type} (memory : Memory) (b : Buffer) (s : ReadState σ) :
    Option (Option Buffer) := do
  let b ← shiftToBeginning b
  let available := sizeSub b.capability b.end_
  let extra := sizeSub s.totalSize available
  let capability := sizeAdd b.capability extra
  match realloc memory b.buffer capability with
  | none => some none
  | some buffer =>
    let (buffer, end_) ← copyPages buffer b.end_ (receivedPages s)
    some (some { b with buffer, capability, end_ })

structure Buffer.WellFormed (b : Buffer) : Prop where
  start : b.start ≤ b.end_
  end_ : b.end_ ≤ b.capability
  block : b.buffer.length = b.capability
  bound : b.capability < 2 ^ 63

def Buffer.window (b : Buffer) : List UInt8 := slice b.buffer b.start b.end_

variable {b : Buffer} {memory : Memory} {σ : Type} {s : ReadState σ} {received : List UInt8}

theorem length_window (h : b.WellFormed) : b.window.length = b.end_ - b.start := by
  have hend := h.end_
  have hblock := h.block
  rw [Buffer.window, slice, List.length_drop, List.length_take]
  omega

theorem length_window_lt {b : Buffer} (hb : b.WellFormed) : b.window.length < 2 ^ 63 := by
  have hend := hb.end_
  have hbound := hb.bound
  rw [length_window hb]
  omega

theorem readAt_window (h : b.WellFormed) : readAt b.buffer b.start b.end_ = some b.window :=
  if_pos ⟨h.start, h.block ▸ h.end_⟩

theorem sizeSub_of_le {m n : Nat} (hle : n ≤ m) (hm : m < sizeMax) : sizeSub m n = m - n := by
  simp only [sizeSub, sizeMax] at *
  omega

theorem sizeAdd_of_lt {m n : Nat} (h : m + n < sizeMax) : sizeAdd m n = m + n :=
  Nat.mod_eq_of_lt h

/-- The new capability is the exact size needed, though `extra` wraps around when
the block has more room than that. -/
theorem sizeAdd_extra {capability end_ total : Nat} (hle : end_ ≤ capability)
    (hfits : end_ + total < sizeMax) :
    sizeAdd capability (sizeSub total (sizeSub capability end_)) = end_ + total := by
  simp only [sizeAdd, sizeSub, sizeMax] at *
  omega

theorem shiftToBeginning_eq (h : b.WellFormed) :
    ∃ buffer, shiftToBeginning b = some ⟨buffer, b.capability, 0, b.window.length⟩ ∧
      buffer.length = b.capability ∧ buffer.take b.window.length = b.window := by
  have hlength := length_window h
  have hend := h.end_
  by_cases hstart : b.start = 0
  · refine ⟨b.buffer, ?_, h.block, ?_⟩
    · rw [shiftToBeginning, if_neg (not_not.mpr hstart), hlength, hstart, Nat.sub_zero, ← hstart]
    · rw [hlength, hstart, Nat.sub_zero, Buffer.window, slice, hstart, List.drop_zero]
  · refine ⟨b.window ++ b.buffer.drop b.window.length, ?_, ?_, List.take_left⟩
    · have hwrite : writeAt b.buffer 0 b.window =
          some (b.window ++ b.buffer.drop b.window.length) := by
        rw [writeAt, if_pos (by rw [h.block]; omega), List.take_zero, List.nil_append,
          Nat.zero_add]
      have hsub : sizeSub b.end_ b.start = b.window.length := by
        rw [hlength]
        have hbound := h.bound
        exact sizeSub_of_le h.start (by simp only [sizeMax]; omega)
      simp only [shiftToBeginning, if_pos hstart, readAt_window h, hwrite, hsub,
        Option.bind_eq_bind, Option.bind_some]
    · rw [List.length_append, List.length_drop, h.block]
      omega

theorem writeAt_append {pre old bytes : List UInt8} (h : bytes.length ≤ old.length) :
    writeAt (pre ++ old) pre.length bytes = some (pre ++ (bytes ++ old.drop bytes.length)) := by
  rw [writeAt, if_pos (by rw [List.length_append]; omega), List.take_left, List.drop_append,
    List.drop_of_length_le (Nat.le_add_right _ _), List.nil_append, Nat.add_sub_cancel_left]

theorem writeAt_zero {block bytes : List UInt8} (h : bytes.length ≤ block.length) :
    writeAt block 0 bytes = some (bytes ++ block.drop bytes.length) := by
  have hwrite : writeAt ([] ++ block) ([] : List UInt8).length bytes = _ := writeAt_append h
  exact hwrite

theorem copyPages_append {pre old : List UInt8} {pages : List (List UInt8)}
    (h : pages.flatten.length ≤ old.length) (hsize : pre.length + old.length < sizeMax) :
    copyPages (pre ++ old) pre.length pages =
      some (pre ++ (pages.flatten ++ old.drop pages.flatten.length),
        pre.length + pages.flatten.length) := by
  induction pages generalizing pre old with
  | nil => simp [copyPages]
  | cons page pages ih =>
    rw [List.flatten_cons, List.length_append] at h
    have hnext : sizeAdd pre.length page.length = (pre ++ page).length := by
      rw [sizeAdd_of_lt (by omega), List.length_append]
    rw [copyPages, writeAt_append (by omega), Option.bind_eq_bind, Option.bind_some, hnext,
      ← List.append_assoc, ih (by rw [List.length_drop]; omega)
        (by rw [List.length_append, List.length_drop]; omega)]
    simp only [List.flatten_cons, List.length_append, List.append_assoc, List.drop_drop,
      Nat.add_assoc]

theorem flatten_receivedPages (hpacked : Packed s received) :
    (receivedPages s).flatten = received := by
  obtain ⟨full, last, hlist, hlen, -, hlast, rfl⟩ := hpacked.table
  rw [receivedPages, hlist, ← hlen, ← hlast]
  split
  · simp
  · have hnil : last = [] := List.length_eq_zero_iff.mp (by omega)
    simp [hnil]

theorem storeReceived_eq (h : b.WellFormed)
    (hpacked : Packed s received) (hfits : b.window.length + received.length < sizeMax) :
    storeReceived memory b s =
      some (if memory.grants (b.window.length + received.length) then
        some ⟨b.window ++ received, b.window.length + received.length, 0,
          b.window.length + received.length⟩
      else none) := by
  obtain ⟨buffer, hshift, hlen, htake⟩ := shiftToBeginning_eq h
  have hlength := length_window h
  have hend := h.end_
  have hcap : sizeAdd b.capability (sizeSub s.totalSize (sizeSub b.capability b.window.length)) =
      b.window.length + received.length := by
    rw [hpacked.total]
    exact sizeAdd_extra (by omega) hfits
  simp only [storeReceived, hshift, Option.bind_eq_bind, Option.bind_some, hcap, realloc]
  by_cases hgrant : memory.grants (b.window.length + received.length) = true
  · simp only [hgrant, if_true]
    have hblock : buffer.take (b.window.length + received.length) ++
        fresh memory (b.window.length + received.length - buffer.length) =
          b.window ++ ((buffer.drop b.window.length).take received.length ++
            fresh memory (b.window.length + received.length - buffer.length)) := by
      rw [List.take_add, htake, List.append_assoc]
    have hold : received.length = ((buffer.drop b.window.length).take received.length ++
        fresh memory (b.window.length + received.length - buffer.length)).length := by
      simp only [fresh, List.length_append, List.length_take, List.length_drop, List.length_map,
        List.length_range]
      omega
    have hflatten := flatten_receivedPages hpacked
    rw [hblock, copyPages_append (by rw [hflatten]; exact Nat.le_of_eq hold)
      (by rw [← hold]; exact hfits), hflatten, List.drop_of_length_le (Nat.le_of_eq hold.symm),
      List.append_nil]
    rfl
  · simp only [hgrant, if_false, Bool.false_eq_true]

end Hss.ReceiveBuffer
