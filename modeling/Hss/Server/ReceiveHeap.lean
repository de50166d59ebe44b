import Hss.Http.ResponseHeap
import Hss.Server.ReceiveBuffer

namespace Hss.ReceiveHeap

open Hss.CString Hss.Range Hss.Loop Hss.Transport Hss.ReceiveBuffer Hss.Heap Hss.Simulation

open Hss.HeaderHeap hiding Memory

open Hss.ResponseHeap (copied copied_text)

open Hss.ReadLoop (bufferPageSize bufferListLength ReadExit)

def contentsAt (heap : Blocks Block) (p : Option Address) : Option (List UInt8) :=
  match p with
  | none => some []
  | some a => textAt heap (some a)

def readBlock (heap : Blocks Block) (p : Option Address) (start stop : Nat) :
    Option (List UInt8) :=
  (contentsAt heap p).bind fun contents => readAt contents start stop

def writeBlock (heap : Blocks Block) (p : Option Address) (offset : Nat) (bytes : List UInt8) :
    Option (Blocks Block) := do
  let contents ← contentsAt heap p
  let contents ← writeAt contents offset bytes
  match p with
  | none => some heap
  | some a => store a (.text contents) heap

variable {σ : Type}

structure ReadState (σ : Type) where
  world : σ
  heap : Blocks Block
  bufferList : List Address
  totalSize : Nat
  bufferPage : Nat
  offset : Nat

structure Buffer where
  buffer : Option Address
  capability : Nat
  start : Nat
  end_ : Nat

section Functions

variable (alloc : Allocator Block) (memory : Memory)

def newPage (heap : Blocks Block) : Address × Blocks Block :=
  malloc alloc (.text (fresh memory bufferPageSize)) heap

def readStart (world : σ) (heap : Blocks Block) : ReadState σ :=
  let (page, heap) := newPage alloc memory heap
  ⟨world, heap, [page], 0, 0, 0⟩

/-- `recv` writes what it returns behind the offset of the page. -/
def readStep (sock : Socket σ) (s : ReadState σ) :
    ReadState σ ⊕ Option (ReadExit × ReadState σ) :=
  let requested := bufferPageSize - s.offset
  match sock.recv s.world requested with
  | (.failed errno, world) =>
    if errno ≠ EAGAIN ∧ errno ≠ EWOULDBLOCK then .inr (some (.failed, { s with world }))
    else .inr (some (.drained, { s with world }))
  | (.received bytes, world) =>
    match s.bufferList[s.bufferPage]?.bind fun page =>
        writeBlock s.heap (some page) s.offset bytes with
    | none => .inr none
    | some heap =>
      let s := { s with world, heap }
      if bytes.length = 0 ∧ s.totalSize = 0 then .inr (some (.closed, s))
      else
        let s := { s with totalSize := s.totalSize + bytes.length }
        if bytes.length < requested then .inl { s with offset := s.offset + bytes.length }
        else if s.bufferPage + 1 < bufferListLength then
          let (page, heap) := newPage alloc memory s.heap
          .inl { s with
            heap
            bufferList := s.bufferList ++ [page]
            bufferPage := s.bufferPage + 1
            offset := 0 }
        else .inr (some (.overrun, s))

def freePages (s : ReadState σ) (heap : Blocks Block) : Option (Blocks Block) :=
  (s.bufferList.take (s.bufferPage + 1)).foldlM (fun heap page => free (some page) heap) heap

def shiftToBeginning (b : Buffer) (heap : Blocks Block) : Option (Buffer × Blocks Block) :=
  if b.start ≠ 0 then do
    let effective ← readBlock heap b.buffer b.start b.end_
    let heap ← writeBlock heap b.buffer 0 effective
    some ({ b with end_ := sizeSub b.end_ b.start, start := 0 }, heap)
  else some (b, heap)

/-- The block may move; where no memory is granted it stays. -/
def realloc (p : Option Address) (size : Nat) (heap : Blocks Block) :
    Option (Option (Address × Blocks Block)) := do
  let old ← contentsAt heap p
  if memory.grants size then
    let heap ← free p heap
    some (some (malloc alloc
      (.text (old.take size ++ fresh memory (size - old.length))) heap))
  else some none

/-- Each page with the number of bytes that are copied from it. -/
def copyPages (buffer : Address) (end_ : Nat) :
    List (Address × Nat) → Blocks Block → Option (Nat × Blocks Block)
  | [], heap => some (end_, heap)
  | (page, size) :: pages, heap => do
    let bytes ← copied heap (some page) size
    let heap ← writeBlock heap (some buffer) end_ bytes
    copyPages buffer (sizeAdd end_ size) pages heap

def receivedPages (s : ReadState σ) : List (Address × Nat) :=
  (s.bufferList.take s.bufferPage).map (·, bufferPageSize) ++
    if s.offset > 0 then s.bufferList[s.bufferPage]?.toList.map (·, s.offset) else []

/-- No buffer is a failed `realloc`. -/
def storeReceived (b : Buffer) (s : ReadState σ) : Option (Option Buffer × Blocks Block) := do
  let (b, heap) ← shiftToBeginning b s.heap
  let available := sizeSub b.capability b.end_
  let extra := sizeSub s.totalSize available
  let capability := sizeAdd b.capability extra
  match ← realloc alloc memory b.buffer capability heap with
  | none => some (none, heap)
  | some (buffer, heap) =>
    let (end_, heap) ← copyPages buffer b.end_ (receivedPages s) heap
    some (some { b with buffer := some buffer, capability, end_ }, heap)

end Functions

inductive Stored : Option Address → List UInt8 → List Cell → Prop
  | null : Stored none [] []
  | block (a : Address) (contents : List UInt8) :
      Stored (some a) contents [(a, .text contents)]

variable {alloc : Allocator Block} {memory : Memory} {p : Option Address}
  {contents bytes received : List UInt8} {cells rest : List Cell} {heap : Blocks Block}
  {offset start stop : Nat} {sock : Socket σ} {s s' : ReadLoop.ReadState σ} {t : ReadState σ}

theorem Stored.contentsAt (h : Stored p contents cells) (hread : Reads heap cells) :
    contentsAt heap p = some contents := by
  cases h with
  | null => rfl
  | block a contents => exact textAt_text (hread a _ (List.mem_singleton.mpr rfl))

theorem Stored.readBlock (h : Stored p contents cells) (hread : Reads heap cells) :
    readBlock heap p start stop = readAt contents start stop := by
  rw [ReceiveHeap.readBlock, h.contentsAt hread, Option.bind_some]

theorem writeAt_nil (h : writeAt [] offset bytes = some contents) : contents = [] := by
  rw [writeAt] at h
  split at h
  · rename_i hle
    have hnil : bytes = [] := List.length_eq_zero_iff.mp (by simp only [List.length_nil] at hle; omega)
    cases h
    simp [hnil]
  · cases h

theorem Stored.writeBlock (h : Stored p contents cells) (hholds : Holds heap (cells ++ rest))
    {contents' : List UInt8} (hwrite : writeAt contents offset bytes = some contents') :
    ∃ heap' cells', writeBlock heap p offset bytes = some heap' ∧ Stored p contents' cells' ∧
      Holds heap' (cells' ++ rest) := by
  have hcontents := h.contentsAt (reads_of_holds hholds)
  simp only [ReceiveHeap.writeBlock, hcontents, hwrite, Option.bind_eq_bind, Option.bind_some]
  cases h with
  | null =>
    obtain rfl := writeAt_nil hwrite
    exact ⟨heap, [], rfl, .null, hholds⟩
  | block a contents =>
    obtain ⟨heap', hstore, hheld⟩ := hholds.store (.text contents')
    exact ⟨heap', _, hstore, .block a contents', hheld⟩

theorem Stored.free (h : Stored p contents cells) (hholds : Holds heap (cells ++ rest)) :
    ∃ heap', Heap.free p heap = some heap' ∧ Holds heap' rest := by
  cases h with
  | null => exact ⟨heap, rfl, hholds⟩
  | block a contents => exact hholds.free

theorem length_fresh (memory : Memory) (size : Nat) : (fresh memory size).length = size := by
  rw [fresh, List.length_map, List.length_range]

def pageCell (page : Address × List UInt8) : Cell := (page.1, .text page.2)

/-- The table: whole pages, and a last one that is filled up to the offset. -/
structure Table (rest : List Cell) (bufferList : List (List UInt8)) (bufferPage offset : Nat)
    (addresses : List Address) (heap : Blocks Block) (pages : List (Address × List UInt8))
    (page : Address) (last stale : List UInt8) : Prop where
  bufferList : bufferList = pages.map (·.2) ++ [last]
  addresses : addresses = pages.map (·.1) ++ [page]
  bufferPage : pages.length = bufferPage
  offset : last.length = offset
  whole : ∀ p ∈ pages, p.2.length = bufferPageSize
  room : (last ++ stale).length = bufferPageSize
  holds : Holds heap (pages.map pageCell ++ (page, .text (last ++ stale)) :: rest)

structure InStep (rest : List Cell) (s : ReadLoop.ReadState σ) (t : ReadState σ) : Prop where
  world : t.world = s.world
  totalSize : t.totalSize = s.totalSize
  bufferPage : t.bufferPage = s.bufferPage
  offset : t.offset = s.offset
  table : ∃ pages page last stale, Table rest s.bufferList s.bufferPage s.offset t.bufferList
    t.heap pages page last stale

theorem inStep_start (alloc : Allocator Block) (memory : Memory) (hholds : Holds heap rest)
    (world : σ) : InStep rest (ReadLoop.readStart world) (readStart alloc memory world heap) := by
  rw [readStart, newPage]
  have hlength := length_fresh memory bufferPageSize
  generalize fresh memory bufferPageSize = stale at hlength ⊢
  obtain ⟨page, heap', hmalloc, hheld⟩ := hholds.malloc alloc (.text stale)
  rw [hmalloc]
  exact ⟨rfl, rfl, rfl, rfl, [], page, [], stale, rfl, rfl, rfl, rfl, by simp, hlength, hheld⟩

section Rounds

variable {bufferList : List (List UInt8)} {bufferPage : Nat} {addresses : List Address}
  {pages : List (Address × List UInt8)} {page : Address} {last stale : List UInt8}

theorem Table.length (h : Table rest bufferList bufferPage offset addresses heap pages page last
    stale) : stale.length = bufferPageSize - offset := by
  have hroom := h.room
  rw [List.length_append, h.offset] at hroom
  omega

theorem Table.write (h : Table rest bufferList bufferPage offset addresses heap pages page last
    stale) (hle : bytes.length ≤ stale.length) :
    ∃ heap', (addresses[bufferPage]?.bind fun page => writeBlock heap (some page) offset bytes) =
        some heap' ∧
      Holds heap' (pages.map pageCell ++
        (page, .text (last ++ bytes ++ stale.drop bytes.length)) :: rest) := by
  have hpage : addresses[bufferPage]? = some page := by
    rw [h.addresses, ← h.bufferPage]
    simp
  have hfront : Holds heap ([(page, .text (last ++ stale))] ++ (pages.map pageCell ++ rest)) :=
    h.holds.perm List.perm_middle
  have hwrite : writeAt (last ++ stale) last.length bytes = _ := writeAt_append hle
  rw [h.offset, ← List.append_assoc] at hwrite
  obtain ⟨heap', cells', hheap, hstored, hheld⟩ := (Stored.block page _).writeBlock hfront hwrite
  cases hstored
  rw [List.singleton_append] at hheld
  refine ⟨heap', ?_, hheld.perm List.perm_middle.symm⟩
  rw [hpage, Option.bind_some, hheap]

theorem Table.fill (h : Table rest bufferList bufferPage offset addresses heap pages page last
    stale) {heap' : Blocks Block} (hholds : Holds heap' (pages.map pageCell ++
      (page, .text (last ++ bytes ++ stale.drop bytes.length)) :: rest))
    (hle : bytes.length ≤ stale.length) :
    Table rest (pages.map (·.2) ++ [last ++ bytes]) bufferPage (offset + bytes.length) addresses
      heap' pages page (last ++ bytes) (stale.drop bytes.length) where
  bufferList := rfl
  addresses := h.addresses
  bufferPage := h.bufferPage
  offset := by rw [List.length_append, h.offset]
  whole := h.whole
  room := by
    have hroom := h.room
    simp only [List.length_append, List.length_drop] at hroom ⊢
    omega
  holds := hholds

theorem Table.turn (h : Table rest bufferList bufferPage offset addresses heap pages page last
    stale) {heap' : Blocks Block} (hholds : Holds heap' (pages.map pageCell ++
      (page, .text (last ++ bytes ++ stale.drop bytes.length)) :: rest))
    (hfull : bytes.length = stale.length) (alloc : Allocator Block) (memory : Memory) :
    ∃ new heap'', newPage alloc memory heap' = (new, heap'') ∧
      Table rest (pages.map (·.2) ++ [last ++ bytes] ++ [[]]) (bufferPage + 1) 0
        (addresses ++ [new]) heap'' (pages ++ [(page, last ++ bytes)]) new []
        (fresh memory bufferPageSize) := by
  obtain ⟨new, heap'', hmalloc, hheld⟩ :=
    hholds.malloc alloc (.text (fresh memory bufferPageSize))
  have hwhole : (last ++ bytes).length = bufferPageSize := by
    have hroom := h.room
    rw [List.length_append] at hroom ⊢
    omega
  refine ⟨new, heap'', hmalloc, ?_, ?_, ?_, rfl, ?_, ?_, ?_⟩
  · rw [List.map_append]
    rfl
  · rw [h.addresses, List.map_append]
    rfl
  · rw [List.length_append, h.bufferPage]
    rfl
  · intro p hp
    obtain hp | hp := List.mem_append.mp hp
    · exact h.whole p hp
    · rw [List.mem_singleton.mp hp]
      exact hwhole
  · rw [List.nil_append, length_fresh]
  · rw [hfull, List.drop_length, List.append_nil] at hheld
    refine hheld.perm (List.perm_iff_count.mpr fun c => ?_)
    simp only [List.map_append, List.map_cons, List.map_nil, List.count_append, List.count_cons,
      List.count_nil, List.nil_append, pageCell]
    omega

end Rounds

def LeftAt (rest : List Cell) (v : ReadExit × ReadLoop.ReadState σ)
    (w : Option (ReadExit × ReadState σ)) : Prop :=
  ∃ t, w = some (v.1, t) ∧ (v.1 ≠ .overrun → InStep rest v.2 t)

theorem inStep_round (hsock : Honest sock) (h : InStep rest s t) :
    Sum.LiftRel (InStep rest) (LeftAt rest) (ReadLoop.readStep sock s)
      (readStep alloc memory sock t) := by
  obtain ⟨pages, page, last, stale, htable⟩ := h.table
  have hstore : ∀ bytes, ReadLoop.storePage s bytes = pages.map (·.2) ++ [last ++ bytes] :=
    fun bytes => ReadLoop.storePage_eq htable.bufferList
      (by rw [List.length_map, htable.bufferPage]) htable.offset
  rw [ReadLoop.readStep, readStep, h.world, h.offset, h.bufferPage]
  rcases hrecv : sock.recv s.world (bufferPageSize - s.offset) with ⟨bytes | errno, world⟩
  · have hle : bytes.length ≤ stale.length := by
      rw [htable.length]
      exact hsock.recv _ _ _ (by rw [hrecv])
    obtain ⟨heap', hwrite, hheld⟩ := htable.write hle
    simp only [hwrite, h.totalSize, hstore]
    split
    · rename_i hclosed
      have hnil : bytes = [] := List.length_eq_zero_iff.mp hclosed.1
      subst hnil
      rw [List.append_nil, List.length_nil, List.drop_zero] at hheld
      refine .inr ⟨_, rfl, fun _ => ⟨rfl, rfl, rfl, rfl, pages, page, last,
        stale, ⟨htable.bufferList, htable.addresses, htable.bufferPage, htable.offset, htable.whole,
          htable.room, hheld⟩⟩⟩
    · split
      · exact .inl ⟨rfl, rfl, rfl, rfl, pages, page, last ++ bytes, _,
          htable.fill hheld hle⟩
      · rename_i hfull
        split
        · obtain ⟨new, heap'', hnew, hturned⟩ :=
            htable.turn hheld (by rw [htable.length] at *; omega) alloc memory
          simp only [hnew]
          exact .inl ⟨rfl, rfl, rfl, rfl, _, new, _, _, hturned⟩
        · exact .inr ⟨_, rfl, fun hne => absurd rfl hne⟩
  · dsimp only
    split
    · exact .inr ⟨_, rfl, fun _ => ⟨rfl, h.totalSize, rfl, rfl, _, _, _, _, htable⟩⟩
    · exact .inr ⟨_, rfl, fun _ => ⟨rfl, h.totalSize, rfl, rfl, _, _, _, _, htable⟩⟩

def Holding (cells : List Cell) (source : Address × Nat) (bytes : List UInt8) : Prop :=
  ∃ contents, (source.1, Block.text contents) ∈ cells ∧ source.2 ≤ contents.length ∧
    bytes = contents.take source.2

theorem pageCell_mem {all : List (Address × List UInt8)} {q : Address × List UInt8} (h : q ∈ all) :
    (q.1, Block.text q.2) ∈ all.map pageCell :=
  List.mem_map_of_mem (f := pageCell) h

theorem forall₂_pages {pages all : List (Address × List UInt8)} (hsub : ∀ q ∈ pages, q ∈ all)
    (hwhole : ∀ q ∈ pages, q.2.length = bufferPageSize) :
    List.Forall₂ (Holding (all.map pageCell)) ((pages.map (·.1)).map (·, bufferPageSize))
      (pages.map (·.2)) := by
  induction pages with
  | nil => exact .nil
  | cons q pages ih =>
    obtain ⟨hq, hwhole⟩ := List.forall_mem_cons.mp hwhole
    obtain ⟨hmem, hsub⟩ := List.forall_mem_cons.mp hsub
    refine .cons ⟨q.2, pageCell_mem hmem, Nat.le_of_eq hq.symm, ?_⟩ (ih hsub hwhole)
    exact (List.take_of_length_le (Nat.le_of_eq hq)).symm

theorem InStep.pages (h : InStep rest s t) :
    ∃ all : List (Address × List UInt8), Holds t.heap (all.map pageCell ++ rest) ∧
      t.bufferList.take (t.bufferPage + 1) = all.map (·.1) ∧
      List.Forall₂ (Holding (all.map pageCell)) (receivedPages t)
        (ReceiveBuffer.receivedPages s) := by
  obtain ⟨pages, page, last, stale, htable⟩ := h.table
  have hlast : last.length = s.offset := htable.offset
  refine ⟨pages ++ [(page, last ++ stale)], ?_, ?_, ?_⟩
  · have hholds := htable.holds
    rwa [List.map_append, List.append_assoc]
  · rw [h.bufferPage, htable.addresses, ← htable.bufferPage, List.map_append]
    exact List.take_of_length_le (by simp)
  · have hfront := forall₂_pages (fun q hq => List.mem_append_left [(page, last ++ stale)] hq)
      htable.whole
    have htake : t.bufferList.take t.bufferPage = pages.map (·.1) := by
      rw [h.bufferPage, htable.addresses, ← htable.bufferPage]
      exact List.take_left' (List.length_map _)
    have htake' : s.bufferList.take s.bufferPage = pages.map (·.2) := by
      rw [htable.bufferList, ← htable.bufferPage]
      exact List.take_left' (List.length_map _)
    rw [receivedPages, ReceiveBuffer.receivedPages, htake, htake', h.offset]
    refine List.rel_append hfront ?_
    split
    · have hpage : t.bufferList[t.bufferPage]? = some page := by
        rw [h.bufferPage, htable.addresses, ← htable.bufferPage]
        simp
      have hpage' : (s.bufferList.getD s.bufferPage []).take s.offset = last := by
        rw [htable.bufferList, ← htable.bufferPage, ← hlast]
        simp
      rw [hpage, hpage']
      refine .cons ⟨last ++ stale, ?_, ?_, ?_⟩ .nil
      · exact pageCell_mem (q := (page, last ++ stale)) (by simp)
      · rw [List.length_append, hlast]
        exact Nat.le_add_right _ _
      · rw [← hlast, List.take_left]
    · exact .nil

theorem free_all {all : List (Address × List UInt8)}
    (h : Holds heap (all.map pageCell ++ rest)) :
    ∃ heap', (all.map (·.1)).foldlM (fun heap page => free (some page) heap) heap = some heap' ∧
      Holds heap' rest := by
  induction all generalizing heap with
  | nil => exact ⟨heap, rfl, h⟩
  | cons q all ih =>
    obtain ⟨heap₁, hfree, h₁⟩ := h.free
    obtain ⟨heap', hall, h'⟩ := ih h₁
    refine ⟨heap', ?_, h'⟩
    rw [List.map_cons, List.foldlM_cons, hfree]
    exact hall

theorem copied_take {a : Address} {size : Nat} (h : heap.lookup a = some (.text contents))
    (hle : size ≤ contents.length) : copied heap (some a) size = some (contents.take size) := by
  rw [copied]
  split
  · rename_i hzero
    rw [hzero, List.take_zero]
  · rw [textAt_text h, Option.bind_some, if_neg (Nat.not_lt_of_le hle)]

theorem copyPages_spec {sources : List (Address × Nat)} {pieces : List (List UInt8)}
    (hsources : List.Forall₂ (Holding rest) sources pieces) {buffer : Address}
    {contents' : List UInt8} {end_ end' : Nat}
    (h : Holds heap ((buffer, .text contents) :: rest))
    (hcopy : ReceiveBuffer.copyPages contents end_ pieces = some (contents', end')) :
    ∃ heap', copyPages buffer end_ sources heap = some (end', heap') ∧
      Holds heap' ((buffer, .text contents') :: rest) := by
  induction hsources generalizing heap contents end_ with
  | nil =>
    cases hcopy
    exact ⟨heap, rfl, h⟩
  | @cons source bytes sources pieces hsource _ ih =>
    obtain ⟨page, hmem, hle, rfl⟩ := hsource
    obtain ⟨contents₁, hwrite, hcopy⟩ := Option.bind_eq_some_iff.mp hcopy
    rw [List.length_take, Nat.min_eq_left hle] at hcopy
    have hread := copied_take (h.load (List.mem_cons_of_mem _ hmem)) hle
    rw [← List.singleton_append] at h
    obtain ⟨heap₁, cells', hheap, hstored, h₁⟩ := (Stored.block buffer contents).writeBlock h hwrite
    cases hstored
    obtain ⟨heap', hpages, h'⟩ := ih h₁ hcopy
    refine ⟨heap', ?_, h'⟩
    obtain ⟨a, size⟩ := source
    dsimp only at hread hpages
    simp only [copyPages, hread, hheap, hpages, Option.bind_eq_bind, Option.bind_some]

structure Matches (k : Buffer) (b : ReceiveBuffer.Buffer) (cells : List Cell) : Prop where
  capability : k.capability = b.capability
  start : k.start = b.start
  end_ : k.end_ = b.end_
  block : Stored k.buffer b.buffer cells

variable {k : Buffer} {b b' : ReceiveBuffer.Buffer}

theorem shiftToBeginning_spec (h : Matches k b cells) (hholds : Holds heap (cells ++ rest))
    (hshift : ReceiveBuffer.shiftToBeginning b = some b') :
    ∃ k' heap' cells', shiftToBeginning k heap = some (k', heap') ∧ Matches k' b' cells' ∧
      k'.buffer = k.buffer ∧ Holds heap' (cells' ++ rest) := by
  rw [ReceiveBuffer.shiftToBeginning] at hshift
  rw [shiftToBeginning, h.start]
  split at hshift
  · rename_i hstart
    obtain ⟨effective, hread, hshift⟩ := Option.bind_eq_some_iff.mp hshift
    obtain ⟨contents, hwrite, hshift⟩ := Option.bind_eq_some_iff.mp hshift
    cases hshift
    have hread' := (h.block.readBlock (reads_of_holds hholds)).trans hread
    obtain ⟨heap', cells', hheap, hstored, hheld⟩ := h.block.writeBlock hholds hwrite
    refine ⟨{ k with end_ := sizeSub b.end_ b.start, start := 0 }, heap', cells', ?_,
      ⟨h.capability, rfl, rfl, hstored⟩, rfl, hheld⟩
    simp only [if_pos hstart, h.end_, hread', hheap, Option.bind_eq_bind, Option.bind_some]
  · rename_i hstart
    cases hshift
    rw [if_neg hstart]
    exact ⟨k, heap, cells, rfl, h, rfl, hholds⟩

theorem realloc_spec (h : Stored p contents cells) (hholds : Holds heap (cells ++ rest))
    (alloc : Allocator Block) (memory : Memory) (size : Nat) :
    (ReceiveBuffer.realloc memory contents size = none ∧
      realloc alloc memory p size heap = some none) ∨
    ∃ contents' a heap', ReceiveBuffer.realloc memory contents size = some contents' ∧
      realloc alloc memory p size heap = some (some (a, heap')) ∧
      Holds heap' ((a, .text contents') :: rest) := by
  simp only [ReceiveBuffer.realloc, realloc, h.contentsAt (reads_of_holds hholds),
    Option.bind_eq_bind, Option.bind_some]
  split
  · obtain ⟨heap₁, hfree, h₁⟩ := h.free hholds
    obtain ⟨a, heap', hmalloc, h'⟩ := h₁.malloc alloc
      (.text (contents.take size ++ fresh memory (size - contents.length)))
    refine .inr ⟨_, a, heap', rfl, ?_, h'⟩
    rw [hfree, Option.bind_some, hmalloc]
  · exact .inl ⟨rfl, rfl⟩

/-- The block behind the buffer once the bytes are stored, or could not be. -/
inductive Kept (k : Buffer) (cells : List Cell) :
    Option ReceiveBuffer.Buffer → Option Buffer → Prop
  | refused {contents : List UInt8} : Stored k.buffer contents cells → Kept k cells none none
  | stored {b' : ReceiveBuffer.Buffer} {k' : Buffer} : Matches k' b' cells →
      Kept k cells (some b') (some k')

theorem swap_front {a b c : List Cell} (h : Holds heap (a ++ (b ++ c))) :
    Holds heap (b ++ (a ++ c)) := by
  refine h.perm (List.perm_iff_count.mpr fun c => ?_)
  simp only [List.count_append]
  omega

/-- What was received is stored behind the effective part, beside the pages. -/
theorem storeReceived_spec (h : Matches k b cells) {pages : List Cell}
    (hholds : Holds t.heap (pages ++ (cells ++ rest)))
    (hsources : List.Forall₂ (Holding pages) (receivedPages t) (ReceiveBuffer.receivedPages s))
    (htotal : t.totalSize = s.totalSize) (alloc : Allocator Block) (memory : Memory)
    {result : Option ReceiveBuffer.Buffer}
    (hstore : ReceiveBuffer.storeReceived memory b s = some result) :
    ∃ result' heap' cells', storeReceived alloc memory k t = some (result', heap') ∧
      Kept k cells' result result' ∧ Holds heap' (pages ++ (cells' ++ rest)) := by
  obtain ⟨b₁, hshift, hstore⟩ := Option.bind_eq_some_iff.mp hstore
  obtain ⟨k₁, heap₁, cells₁, hshift', h₁, hbuffer, hheld₁⟩ :=
    shiftToBeginning_spec h (swap_front hholds) hshift
  simp only [storeReceived, hshift', htotal, h₁.capability, h₁.end_, Option.bind_eq_bind,
    Option.bind_some]
  obtain ⟨hnone, hnone'⟩ | ⟨contents, a, heap₂, hsome, hsome', hheld₂⟩ :=
    realloc_spec h₁.block hheld₁ alloc memory
      (sizeAdd b₁.capability (sizeSub s.totalSize (sizeSub b₁.capability b₁.end_)))
  · simp only [hnone] at hstore
    cases hstore
    simp only [hnone', Option.bind_some]
    exact ⟨_, _, cells₁, rfl, .refused (hbuffer ▸ h₁.block), swap_front hheld₁⟩
  · simp only [hsome] at hstore
    obtain ⟨⟨contents', end_⟩, hcopy, hstore⟩ := Option.bind_eq_some_iff.mp hstore
    cases hstore
    have hwide : List.Forall₂ (Holding (pages ++ rest)) (receivedPages t)
        (ReceiveBuffer.receivedPages s) :=
      hsources.imp fun _ _ ⟨contents, hmem, hle, heq⟩ =>
        ⟨contents, List.mem_append_left _ hmem, hle, heq⟩
    obtain ⟨heap₃, hpages, hheld₃⟩ := copyPages_spec hwide hheld₂ hcopy
    simp only [hsome', hpages, Option.bind_some]
    refine ⟨_, _, [(a, .text contents')], rfl, .stored ⟨rfl, h₁.start, rfl, .block a contents'⟩, ?_⟩
    exact swap_front (a := [(a, .text contents')]) hheld₃

end Hss.ReceiveHeap
