import Hss.Lib.Loop
import Hss.Server.Transport
import Mathlib.Algebra.BigOperators.Group.List.Basic

namespace Hss.ReadLoop

open Hss.Loop Hss.Transport

def bufferPageSize : Nat := 4096

def bufferListLength : Nat := 128

variable {σ : Type}

/-- The variables of the receive loop. An entry of `bufferList` holds the bytes
received into its page. -/
structure ReadState (σ : Type) where
  world : σ
  bufferList : List (List UInt8)
  totalSize : Nat
  bufferPage : Nat
  offset : Nat

def readStart (world : σ) : ReadState σ := ⟨world, [[]], 0, 0, 0⟩

/-- Why the loop is left: nothing more to receive for now, an error, an
end-of-file before any data, or an index outside the page table. -/
inductive ReadExit
  | drained
  | failed
  | closed
  | overrun
  deriving DecidableEq, Repr

def storePage (s : ReadState σ) (bytes : List UInt8) : List (List UInt8) :=
  s.bufferList.set s.bufferPage ((s.bufferList.getD s.bufferPage []).take s.offset ++ bytes)

def readStep (sock : Socket σ) (s : ReadState σ) : ReadState σ ⊕ ReadExit × ReadState σ :=
  let requested := bufferPageSize - s.offset
  match sock.recv s.world requested with
  | (.failed errno, world) =>
    if errno ≠ EAGAIN ∧ errno ≠ EWOULDBLOCK then .inr (.failed, { s with world })
    else .inr (.drained, { s with world })
  | (.received bytes, world) =>
    if bytes.length = 0 ∧ s.totalSize = 0 then .inr (.closed, { s with world })
    else
      let s' := { s with
        world
        bufferList := storePage s bytes
        totalSize := s.totalSize + bytes.length }
      if bytes.length < requested then .inl { s' with offset := s.offset + bytes.length }
      else if s.bufferPage + 1 < bufferListLength then
        .inl { s' with
          bufferList := s'.bufferList ++ [[]]
          bufferPage := s.bufferPage + 1
          offset := 0 }
      else .inr (.overrun, s')

/-- The entries of `buffer_list` that one round uses: the target of `recv`, and
the next one when the page is filled. -/
def roundIndices (sock : Socket σ) (s : ReadState σ) : List Nat :=
  match (sock.recv s.world (bufferPageSize - s.offset)).1 with
  | .failed _ => [s.bufferPage]
  | .received bytes =>
    if bytes.length < bufferPageSize - s.offset then [s.bufferPage]
    else [s.bufferPage, s.bufferPage + 1]

/-- The entries used behind the loop: those copied, then those freed. -/
def finalIndices (s : ReadState σ) : List Nat :=
  List.range s.bufferPage ++ (if s.offset > 0 then [s.bufferPage] else []) ++
    List.range (s.bufferPage + 1)

/-- The page table holds what was received, all pages but the last one full. -/
structure Packed (s : ReadState σ) (received : List UInt8) : Prop where
  table : ∃ full last, s.bufferList = full ++ [last] ∧ full.length = s.bufferPage ∧
    (∀ p ∈ full, p.length = bufferPageSize) ∧ last.length = s.offset ∧
    received = full.flatten ++ last
  room : s.offset < bufferPageSize
  total : s.totalSize = received.length
  inTable : s.bufferPage < bufferListLength

def pageTableSize : Nat := bufferPageSize * bufferListLength

theorem packed_start (world : σ) : Packed (readStart world) [] :=
  ⟨⟨[], [], rfl, rfl, by simp, rfl, rfl⟩, Nat.zero_lt_succ _, rfl, Nat.zero_lt_succ _⟩

theorem length_flatten_pages {full : List (List UInt8)}
    (h : ∀ p ∈ full, p.length = bufferPageSize) :
    full.flatten.length = bufferPageSize * full.length := by
  induction full with
  | nil => rfl
  | cons p full ih =>
    rw [List.flatten_cons, List.length_append, ih fun q hq => h q (List.mem_cons_of_mem p hq),
      h p List.mem_cons_self, List.length_cons, Nat.mul_succ, Nat.add_comm]

variable {sock : Socket σ} {s s' : ReadState σ} {received bytes : List UInt8} {world : σ}

theorem Packed.length (h : Packed s received) :
    received.length = bufferPageSize * s.bufferPage + s.offset := by
  obtain ⟨full, last, -, hlen, hfull, hlast, rfl⟩ := h.table
  rw [List.length_append, length_flatten_pages hfull, hlen, hlast]

theorem Packed.offset (h : Packed s received) : s.offset = received.length % bufferPageSize := by
  rw [h.length, Nat.mul_add_mod, Nat.mod_eq_of_lt h.room]

theorem Packed.length_lt (h : Packed s received) : received.length < pageTableSize := by
  have hroom := h.room
  have hin := h.inTable
  rw [h.length, pageTableSize]
  calc bufferPageSize * s.bufferPage + s.offset
      < bufferPageSize * s.bufferPage + bufferPageSize := by omega
    _ = bufferPageSize * (s.bufferPage + 1) := (Nat.mul_succ _ _).symm
    _ ≤ bufferPageSize * bufferListLength := Nat.mul_le_mul_left _ hin

theorem storePage_eq {full : List (List UInt8)} {last : List UInt8}
    (hlist : s.bufferList = full ++ [last]) (hlen : full.length = s.bufferPage)
    (hlast : last.length = s.offset) : storePage s bytes = full ++ [last ++ bytes] := by
  rw [storePage, hlist, ← hlen, ← hlast]
  simp

theorem readStep_failed {errno : Nat}
    (hrecv : sock.recv s.world (bufferPageSize - s.offset) = (.failed errno, world)) :
    readStep sock s = .inr (if errno = EAGAIN then .drained else .failed, { s with world }) := by
  simp only [readStep, hrecv, EWOULDBLOCK, EAGAIN, and_self]
  split <;> simp_all

theorem readStep_closed
    (hrecv : sock.recv s.world (bufferPageSize - s.offset) = (.received [], world))
    (htotal : s.totalSize = 0) : readStep sock s = .inr (.closed, { s with world }) := by
  simp only [readStep, hrecv, htotal, List.length_nil, and_self, if_true]

theorem readStep_received
    (hrecv : sock.recv s.world (bufferPageSize - s.offset) = (.received bytes, world))
    (hdata : bytes = [] → s.totalSize ≠ 0) : readStep sock s =
      if bytes.length < bufferPageSize - s.offset then
        .inl ⟨world, storePage s bytes, s.totalSize + bytes.length, s.bufferPage,
          s.offset + bytes.length⟩
      else if s.bufferPage + 1 < bufferListLength then
        .inl ⟨world, storePage s bytes ++ [[]], s.totalSize + bytes.length, s.bufferPage + 1, 0⟩
      else
        .inr (.overrun, ⟨world, storePage s bytes, s.totalSize + bytes.length, s.bufferPage,
          s.offset⟩) := by
  have hgo : ¬ (bytes.length = 0 ∧ s.totalSize = 0) := fun h =>
    hdata (List.length_eq_zero_iff.mp h.1) h.2
  simp only [readStep, hrecv, if_neg hgo]

theorem Packed.store (h : Packed s received) (world : σ)
    (hle : s.offset + bytes.length < bufferPageSize) :
    Packed (σ := σ) ⟨world, storePage s bytes, s.totalSize + bytes.length, s.bufferPage,
      s.offset + bytes.length⟩ (received ++ bytes) := by
  obtain ⟨full, last, hlist, hlen, hfull, hlast, rfl⟩ := h.table
  refine ⟨⟨full, last ++ bytes, storePage_eq hlist hlen hlast, hlen, hfull, ?_, ?_⟩, hle, ?_,
    h.inTable⟩
  · rw [List.length_append, hlast]
  · rw [List.append_assoc]
  · simp only [h.total, List.length_append]

theorem Packed.turn (h : Packed s received) (world : σ)
    (hfill : s.offset + bytes.length = bufferPageSize)
    (hin : s.bufferPage + 1 < bufferListLength) :
    Packed (σ := σ) ⟨world, storePage s bytes ++ [[]], s.totalSize + bytes.length,
      s.bufferPage + 1, 0⟩ (received ++ bytes) := by
  obtain ⟨full, last, hlist, hlen, hfull, hlast, rfl⟩ := h.table
  refine ⟨⟨full ++ [last ++ bytes], [], ?_, ?_, ?_, rfl, ?_⟩, Nat.zero_lt_succ _, ?_, hin⟩
  · rw [storePage_eq hlist hlen hlast]
  · simp [hlen]
  · intro p hp
    obtain hp | hp := List.mem_append.mp hp
    · exact hfull p hp
    · rw [List.mem_singleton.mp hp, List.length_append, hlast, hfill]
  · simp
  · simp only [h.total, List.length_append]

/-- What a round that receives does: while the table has room the bytes join
what was received before, else an entry behind the table is used. -/
theorem Packed.step (h : Packed s received)
    (hrecv : sock.recv s.world (bufferPageSize - s.offset) = (.received bytes, world))
    (hle : bytes.length ≤ bufferPageSize - s.offset) (hdata : bytes = [] → received ≠ []) :
    if (received ++ bytes).length < pageTableSize then
      ∃ s', readStep sock s = .inl s' ∧ s'.world = world ∧ Packed s' (received ++ bytes)
    else s.bufferPage + 1 = bufferListLength ∧ bytes.length = bufferPageSize - s.offset ∧
      ∃ s', readStep sock s = .inr (.overrun, s') := by
  have hstep := readStep_received hrecv fun hb => by
    rw [h.total]
    exact fun h0 => hdata hb (List.length_eq_zero_iff.mp h0)
  have hroom := h.room
  have hlen := h.length
  have hin := h.inTable
  rw [hstep]
  by_cases hpart : bytes.length < bufferPageSize - s.offset
  · have hle' : s.offset + bytes.length < bufferPageSize := by omega
    have hstored := h.store world hle'
    rw [if_pos hpart, if_pos hstored.length_lt]
    exact ⟨_, rfl, rfl, hstored⟩
  · have hfill : s.offset + bytes.length = bufferPageSize := by omega
    by_cases hnext : s.bufferPage + 1 < bufferListLength
    · have hturned := h.turn world hfill hnext
      rw [if_neg hpart, if_pos hnext, if_pos hturned.length_lt]
      exact ⟨_, rfl, rfl, hturned⟩
    · have hlast : s.bufferPage + 1 = bufferListLength := by omega
      have hover : ¬ (received ++ bytes).length < pageTableSize := by
        rw [List.length_append, hlen, pageTableSize, ← hlast, Nat.mul_succ]
        omega
      rw [if_neg hpart, if_neg hnext, if_neg hover]
      exact ⟨hlast, by omega, _, rfl⟩

theorem Packed.again (h : Packed s received) (hs : readStep sock s = .inl s')
    (hle : ∀ bytes, (sock.recv s.world (bufferPageSize - s.offset)).1 = .received bytes →
      bytes.length ≤ bufferPageSize - s.offset) :
    ∃ bytes, sock.recv s.world (bufferPageSize - s.offset) = (.received bytes, s'.world) ∧
      (bytes = [] → received ≠ []) ∧ Packed s' (received ++ bytes) := by
  rcases hrecv : sock.recv s.world (bufferPageSize - s.offset) with ⟨outcome, world⟩
  cases outcome with
  | failed errno =>
    rw [readStep_failed hrecv] at hs
    cases hs
  | received bytes =>
    by_cases hclosed : bytes = [] ∧ received = []
    · obtain ⟨rfl, rfl⟩ := hclosed
      rw [readStep_closed hrecv h.total] at hs
      cases hs
    · have hdata : bytes = [] → received ≠ [] := fun hb hr => hclosed ⟨hb, hr⟩
      have hstep := h.step hrecv (hle bytes (by rw [hrecv])) hdata
      split at hstep
      · obtain ⟨t, ht, hw, hpacked⟩ := hstep
        rw [ht] at hs
        cases hs
        exact ⟨bytes, by rw [hw], hdata, hpacked⟩
      · obtain ⟨-, -, t, ht⟩ := hstep
        rw [ht] at hs
        cases hs

section Scripted

variable {outcomes : Nat → RecvOutcome} {final : RecvOutcome} {n k : Nat}

def bytesOf : RecvOutcome → List UInt8
  | .received bytes => bytes
  | .failed _ => []

def receivedBefore (outcomes : Nat → RecvOutcome) : Nat → List UInt8
  | 0 => []
  | n + 1 => receivedBefore outcomes n ++ bytesOf (outcomes n)

/-- The first `n` calls all deliver data, or an end-of-file behind data. -/
def Delivering (outcomes : Nat → RecvOutcome) (n : Nat) : Prop :=
  ∀ i < n, ∃ bytes, outcomes i = .received bytes ∧ (bytes = [] → receivedBefore outcomes i ≠ [])

def Bounded (outcomes : Nat → RecvOutcome) : Prop :=
  ∀ n bytes, outcomes n = .received bytes →
    bytes.length ≤ bufferPageSize - (receivedBefore outcomes n).length % bufferPageSize

theorem recv_scripted {outcome : RecvOutcome} {requested : Nat} (h : outcomes n = outcome) :
    (scripted outcomes).recv n requested = (outcome, n + 1) := by
  simp only [scripted, h]

theorem receivedBefore_succ (h : outcomes n = .received bytes) :
    receivedBefore outcomes (n + 1) = receivedBefore outcomes n ++ bytes := by
  rw [receivedBefore, h, bytesOf]

theorem receivedBefore_mono (h : k ≤ n) :
    (receivedBefore outcomes k).length ≤ (receivedBefore outcomes n).length := by
  induction h with
  | refl => exact Nat.le_refl _
  | step _ ih =>
    rw [receivedBefore, List.length_append]
    omega

def Tracked (outcomes : Nat → RecvOutcome) (s : ReadState Nat) : Prop :=
  Packed s (receivedBefore outcomes s.world) ∧ Delivering outcomes s.world

theorem tracked_start : Tracked outcomes (readStart 0) :=
  ⟨packed_start 0, fun i hi => absurd hi (Nat.not_lt_zero i)⟩

theorem Delivering.succ (h : Delivering outcomes n) (houtcome : outcomes n = .received bytes)
    (hdata : bytes = [] → receivedBefore outcomes n ≠ []) : Delivering outcomes (n + 1) := by
  intro i hi
  obtain hi | rfl := Nat.lt_succ_iff_lt_or_eq.mp hi
  · exact h i hi
  · exact ⟨bytes, houtcome, hdata⟩

theorem Tracked.again (hb : Bounded outcomes) {s s' : ReadState Nat} (h : Tracked outcomes s)
    (hs : readStep (scripted outcomes) s = .inl s') : Tracked outcomes s' := by
  obtain ⟨hpacked, hd⟩ := h
  obtain ⟨bytes, hrecv, hdata, hpacked'⟩ := hpacked.again hs fun bytes hrecv => by
    rw [hpacked.offset]
    exact hb s.world bytes hrecv
  obtain ⟨houtcome, hworld⟩ := Prod.mk.inj hrecv
  rw [Tracked, ← hworld, receivedBefore_succ houtcome]
  exact ⟨hpacked', hd.succ houtcome hdata⟩

theorem reaches_scripted {s : ReadState Nat} (hb : Bounded outcomes)
    (h : Reaches (readStep (scripted outcomes)) (readStart 0) s) : Tracked outcomes s :=
  h.invariant (Tracked outcomes) (fun _ _ => Tracked.again hb) tracked_start

theorem step_scripted {s : ReadState Nat} (hb : Bounded outcomes)
    (hreach : Reaches (readStep (scripted outcomes)) (readStart 0) s)
    (hd : Delivering outcomes (s.world + 1)) : ∃ bytes, outcomes s.world = .received bytes ∧
      if (receivedBefore outcomes (s.world + 1)).length < pageTableSize then
        ∃ s', readStep (scripted outcomes) s = .inl s' ∧ s'.world = s.world + 1 ∧
          Packed s' (receivedBefore outcomes (s.world + 1))
      else s.bufferPage + 1 = bufferListLength ∧ bytes.length = bufferPageSize - s.offset ∧
        ∃ s', readStep (scripted outcomes) s = .inr (.overrun, s') := by
  obtain ⟨hpacked, -⟩ := reaches_scripted hb hreach
  obtain ⟨bytes, houtcome, hdata⟩ := hd s.world (Nat.lt_succ_self _)
  have hstep := hpacked.step (recv_scripted houtcome)
    (by rw [hpacked.offset]; exact hb _ _ houtcome) hdata
  rw [← receivedBefore_succ houtcome] at hstep
  exact ⟨bytes, houtcome, hstep⟩

theorem reach_call (hb : Bounded outcomes) (hd : Delivering outcomes n)
    (hlt : (receivedBefore outcomes n).length < pageTableSize) :
    ∃ s, Reaches (readStep (scripted outcomes)) (readStart 0) s ∧ s.world = n := by
  induction n with
  | zero => exact ⟨readStart 0, .refl, rfl⟩
  | succ n ih =>
    have hmono : (receivedBefore outcomes n).length ≤ (receivedBefore outcomes (n + 1)).length :=
      receivedBefore_mono (Nat.le_succ n)
    obtain ⟨s, hreach, rfl⟩ := ih (fun i hi => hd i (Nat.lt_succ_of_lt hi)) (by omega)
    obtain ⟨_, -, hstep⟩ := step_scripted hb hreach hd
    rw [if_pos hlt] at hstep
    obtain ⟨s', hs', hworld, -⟩ := hstep
    exact ⟨s', hreach.tail hs', hworld⟩

/-- The call that delivers the last byte the table has room for turns to the
entry behind the table. -/
theorem overrun_round (hb : Bounded outcomes) (hd : Delivering outcomes n)
    (hfull : pageTableSize ≤ (receivedBefore outcomes n).length) :
    ∃ s, Reaches (readStep (scripted outcomes)) (readStart 0) s ∧
      bufferListLength ∈ roundIndices (scripted outcomes) s ∧
      ∃ s', readStep (scripted outcomes) s = .inr (.overrun, s') := by
  induction n with
  | zero => exact absurd hfull (Nat.not_le_of_lt (Nat.zero_lt_succ _))
  | succ n ih =>
    have hd' : Delivering outcomes n := fun i hi => hd i (Nat.lt_succ_of_lt hi)
    by_cases hbefore : pageTableSize ≤ (receivedBefore outcomes n).length
    · exact ih hd' hbefore
    · obtain ⟨s, hreach, rfl⟩ := reach_call hb hd' (Nat.lt_of_not_le hbefore)
      obtain ⟨bytes, houtcome, hstep⟩ := step_scripted hb hreach hd
      rw [if_neg (Nat.not_lt_of_le hfull)] at hstep
      obtain ⟨hlast, hlen, hexit⟩ := hstep
      refine ⟨s, hreach, ?_, hexit⟩
      simp only [roundIndices, scripted, houtcome, hlen, Nat.lt_irrefl, if_false, hlast]
      exact List.mem_cons_of_mem _ List.mem_cons_self

/-- The traces of a socket: positive sizes in the first `k` calls, then
end-of-file or an error in all further ones. -/
structure Trace (outcomes : Nat → RecvOutcome) (k : Nat) (final : RecvOutcome) : Prop where
  bounded : Bounded outcomes
  data : ∀ i < k, ∃ bytes, outcomes i = .received bytes ∧ bytes ≠ []
  rest : ∀ i, k ≤ i → outcomes i = final
  quiet : bytesOf final = []

theorem Trace.delivering (h : Trace outcomes k final) (hn : n ≤ k) : Delivering outcomes n := by
  intro i hi
  obtain ⟨bytes, houtcome, hne⟩ := h.data i (by omega)
  exact ⟨bytes, houtcome, fun hb => absurd hb hne⟩

/-- An end-of-file behind data of the same round is received again and again. -/
theorem Trace.not_ends (h : Trace outcomes k (.received []))
    (hlt : (receivedBefore outcomes k).length < pageTableSize)
    (hne : receivedBefore outcomes k ≠ []) {exit : ReadExit × ReadState Nat} :
    ¬ Ends (readStep (scripted outcomes)) (readStart 0) exit := by
  obtain ⟨s, hreach, hworld⟩ := reach_call h.bounded (h.delivering (Nat.le_refl k)) hlt
  rw [hreach.ends_iff]
  refine Loop.not_ends (fun s => k ≤ s.world ∧ Packed s (receivedBefore outcomes k)) ?_
    ⟨by omega, hworld ▸ (reaches_scripted h.bounded hreach).1⟩
  rintro s ⟨hk, hpacked⟩
  have hrest : outcomes s.world = .received [] := h.rest s.world hk
  have hstep := hpacked.step (recv_scripted hrest) (Nat.zero_le _) fun _ => hne
  rw [List.append_nil, if_pos hlt] at hstep
  obtain ⟨s', hs', hworld', hpacked'⟩ := hstep
  exact ⟨s', hs', by omega, hpacked'⟩

theorem Trace.overrun (h : Trace outcomes k final)
    (hfull : pageTableSize ≤ (receivedBefore outcomes k).length) :
    ∃ s, Ends (readStep (scripted outcomes)) (readStart 0) (.overrun, s) := by
  obtain ⟨s, hreach, -, s', hs'⟩ :=
    overrun_round h.bounded (h.delivering (Nat.le_refl k)) hfull
  exact ⟨s', hreach.ends_iff.mpr (.leave hs')⟩

/-- The receive loop ends inside its page table exactly if less than the table
holds arrives in the round and no end-of-file follows data of the round. -/
theorem read_loop_ends_iff (h : Trace outcomes k final) :
    (∃ why s, Ends (readStep (scripted outcomes)) (readStart 0) (why, s) ∧ why ≠ .overrun) ↔
      (receivedBefore outcomes k).length < pageTableSize ∧
        (final = .received [] → receivedBefore outcomes k = []) := by
  constructor
  · rintro ⟨why, s, hends, hwhy⟩
    have hlt : (receivedBefore outcomes k).length < pageTableSize := by
      by_contra hfull
      obtain ⟨t, ht⟩ := h.overrun (Nat.le_of_not_lt hfull)
      cases hends.unique ht
      exact hwhy rfl
    refine ⟨hlt, ?_⟩
    rintro rfl
    by_contra hne
    exact h.not_ends hlt hne hends
  · rintro ⟨hlt, heof⟩
    obtain ⟨s, hreach, rfl⟩ := reach_call h.bounded (h.delivering (Nat.le_refl _)) hlt
    have hpacked := (reaches_scripted h.bounded hreach).1
    have hrest := h.rest s.world (Nat.le_refl _)
    cases final with
    | failed errno =>
      have hs := readStep_failed (s := s) (recv_scripted hrest)
      refine ⟨_, _, hreach.ends_iff.mpr (.leave hs), ?_⟩
      split <;> decide
    | received bytes =>
      obtain rfl : bytes = [] := h.quiet
      have hs := readStep_closed (s := s) (recv_scripted hrest)
        (by rw [hpacked.total, heof rfl]; rfl)
      exact ⟨_, _, hreach.ends_iff.mpr (.leave hs), by decide⟩

def oneByteThen (final : RecvOutcome) : Nat → RecvOutcome
  | 0 => .received [71]
  | _ + 1 => final

theorem trace_oneByteThen (h : bytesOf final = []) : Trace (oneByteThen final) 1 final where
  bounded := by
    intro n bytes houtcome
    cases n with
    | zero =>
      cases houtcome
      exact Nat.le_of_ble_eq_true rfl
    | succ n =>
      obtain rfl : final = .received bytes := houtcome
      obtain rfl : bytes = [] := h
      exact Nat.zero_le _
  data := by
    intro i hi
    obtain rfl : i = 0 := by omega
    exact ⟨[71], rfl, List.cons_ne_nil _ _⟩
  rest := by
    rintro (_ | i) hi
    · exact absurd hi (by decide)
    · rfl
  quiet := h

theorem read_loop_ends_one_byte :
    ∃ why s, Ends (readStep (scripted (oneByteThen (.failed EAGAIN)))) (readStart 0) (why, s) ∧
      why ≠ .overrun :=
  (read_loop_ends_iff (trace_oneByteThen rfl)).mpr
    ⟨Nat.lt_of_lt_of_le Nat.one_lt_two (by decide), fun h => by cases h⟩

theorem data_then_end_loops :
    Trace (oneByteThen (.received [])) 1 (.received []) ∧
      ¬ ∃ exit, Ends (readStep (scripted (oneByteThen (.received [])))) (readStart 0) exit := by
  refine ⟨trace_oneByteThen rfl, ?_⟩
  rintro ⟨exit, hends⟩
  exact (trace_oneByteThen rfl).not_ends (Nat.lt_of_lt_of_le Nat.one_lt_two (by decide))
    (by decide) hends

/-- Every entry of `buffer_list` that the loop and the code behind it use lies in
the table. -/
def IndicesInTable (sock : Socket σ) (world : σ) : Prop :=
  (∀ s, Reaches (readStep sock) (readStart world) s →
    ∀ i ∈ roundIndices sock s, i < bufferListLength) ∧
  ∀ why s, Ends (readStep sock) (readStart world) (why, s) →
    ∀ i ∈ finalIndices s, i < bufferListLength

theorem finalIndices_le {s : ReadState σ} {i : Nat} (h : i ∈ finalIndices s) : i ≤ s.bufferPage := by
  simp only [finalIndices, List.mem_append, List.mem_range] at h
  obtain (h | h) | h := h
  · omega
  · split at h
    · exact Nat.le_of_eq (List.mem_singleton.mp h)
    · cases h
  · omega

theorem readStep_bufferPage {why : ReadExit} (h : readStep sock s = .inr (why, s')) :
    s'.bufferPage = s.bufferPage := by
  simp only [readStep] at h
  split at h
  · split at h <;> cases h <;> rfl
  · split at h
    · cases h
      rfl
    · split at h
      · cases h
      · split at h <;> cases h
        rfl

theorem Tracked.roundIndices_lt (hb : Bounded outcomes) {s : ReadState Nat}
    (h : Tracked outcomes s)
    (hsmall : ∀ n, Delivering outcomes n → (receivedBefore outcomes n).length < pageTableSize)
    {i : Nat} (hi : i ∈ roundIndices (scripted outcomes) s) : i < bufferListLength := by
  obtain ⟨hpacked, hd⟩ := h
  have hin := hpacked.inTable
  cases houtcome : outcomes s.world with
  | failed errno =>
    simp only [roundIndices, scripted, houtcome, List.mem_singleton] at hi
    omega
  | received bytes =>
    simp only [roundIndices, scripted, houtcome] at hi
    split at hi
    · rw [List.mem_singleton.mp hi]
      exact hin
    · rename_i hpart
      have hle := hb _ _ houtcome
      rw [← hpacked.offset] at hle
      have hroom := hpacked.room
      have hdata : bytes = [] → receivedBefore outcomes s.world ≠ [] := by
        rintro rfl
        simp only [List.length_nil] at hpart
        omega
      have hlt := hsmall _ (hd.succ houtcome hdata)
      rw [receivedBefore_succ houtcome, List.length_append, hpacked.length] at hlt
      have hnext : s.bufferPage + 1 < bufferListLength := by
        simp only [pageTableSize, bufferPageSize, bufferListLength] at *
        omega
      simp only [List.mem_cons, List.not_mem_nil, or_false] at hi
      omega

/-- Every index of the page table in use is below its length exactly if less
than the table holds arrives in one round. -/
theorem indices_in_table_iff (hb : Bounded outcomes) :
    IndicesInTable (scripted outcomes) 0 ↔
      ∀ n, Delivering outcomes n → (receivedBefore outcomes n).length < pageTableSize := by
  constructor
  · rintro ⟨hrounds, -⟩ n hd
    by_contra hfull
    obtain ⟨s, hreach, hmem, -⟩ := overrun_round hb hd (Nat.le_of_not_lt hfull)
    exact absurd (hrounds s hreach _ hmem) (Nat.lt_irrefl _)
  · intro hsmall
    constructor
    · intro s hreach i hi
      exact (reaches_scripted hb hreach).roundIndices_lt hb hsmall hi
    · intro why s hends i hi
      obtain ⟨t, ⟨hpacked, -⟩, ht⟩ :=
        hends.rule (Tracked outcomes) (fun _ _ => Tracked.again hb) tracked_start
      have hin := hpacked.inTable
      have hle := finalIndices_le hi
      rw [readStep_bufferPage ht] at hle
      omega

theorem indices_in_table_one_byte :
    IndicesInTable (scripted (oneByteThen (.failed EAGAIN))) 0 := by
  refine (indices_in_table_iff (trace_oneByteThen rfl).bounded).mpr fun n hd => ?_
  have hn : n ≤ 1 := by
    by_contra hn
    obtain ⟨bytes, houtcome, -⟩ := hd 1 (by omega)
    cases houtcome
  exact Nat.lt_of_le_of_lt (receivedBefore_mono hn) (Nat.lt_of_lt_of_le Nat.one_lt_two (by decide))

def burst (n : Nat) : RecvOutcome :=
  if n < bufferListLength then .received (List.replicate bufferPageSize 71) else .failed EAGAIN

theorem receivedBefore_burst (h : n ≤ bufferListLength) :
    (receivedBefore burst n).length = bufferPageSize * n := by
  induction n with
  | zero => rfl
  | succ n ih =>
    have hpage : burst n = .received (List.replicate bufferPageSize 71) := if_pos h
    rw [receivedBefore_succ hpage, List.length_append, ih (Nat.le_of_lt h), List.length_replicate, Nat.mul_succ]

theorem bounded_burst : Bounded burst := by
  intro n bytes houtcome
  by_cases hn : n < bufferListLength
  · rw [burst, if_pos hn] at houtcome
    cases houtcome
    apply Nat.le_of_eq
    rw [receivedBefore_burst (Nat.le_of_lt hn), Nat.mul_mod_right, List.length_replicate,
      Nat.sub_zero]
  · rw [burst, if_neg hn] at houtcome
    cases houtcome

theorem burst_overruns : Bounded burst ∧ ¬ IndicesInTable (scripted burst) 0 := by
  refine ⟨bounded_burst, ?_⟩
  rintro ⟨hrounds, -⟩
  have hd : Delivering burst bufferListLength := by
    intro i hi
    refine ⟨List.replicate bufferPageSize 71, if_pos hi, fun h => ?_⟩
    cases h
  obtain ⟨s, hreach, hmem, -⟩ :=
    overrun_round bounded_burst hd (Nat.le_of_eq (receivedBefore_burst (Nat.le_refl _)).symm)
  exact absurd (hrounds s hreach _ hmem) (Nat.lt_irrefl _)

end Scripted

end Hss.ReadLoop
