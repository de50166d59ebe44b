import Hss.Server.Session
import Hss.Server.ReceiveHeap
import Hss.Server.TransactionHeap
import Hss.Server.Url

namespace Hss.ConnectionHeap

open Hss.CString Hss.Headers Hss.Request Hss.Response Hss.Loop Hss.Transport Hss.Transaction
  Hss.Simulation Hss.ReceiveHeap

open Hss.Heap hiding free store

open Hss.HeaderHeap (Cell Block Owned Reads reads_of_holds)

open Hss.TransactionHeap hiding setCode setHeader

open Hss.Connection (ConnectionInformation ConnectionStatus Environment Event)

open Hss.DescriptorList (FileDescriptorType)

open Hss.ReceiveBuffer (sizeAdd sizeSub)

open Hss.Transfer (Log)

open Hss.Acceptance (verdict)

open Hss.Meaning (requestReply)

open Hss.ReadLoop (ReadExit)

/-- A `struct connection_information` with the type of its descriptor; its two objects
stand in the memory. -/
structure Connection where
  type : FileDescriptorType
  state : ConnectionStatus
  buffer : ReceiveHeap.Buffer
  memory : State

def Connection.withHeap (k : Connection) (heap : Blocks Block) : Connection :=
  { k with memory := { k.memory with heap } }

def initializeConnectionInformation (type : FileDescriptorType) (memory : State) : Connection where
  type := type
  state := .waitingRequest
  buffer := ⟨none, 0, 0, 0⟩
  memory := { memory with
    request := RequestHeap.httpRequestInitialize memory.request
    response := ResponseHeap.httpResponseInitialize memory.response }

def destroyConnectionInformation (k : Connection) : Option State := do
  let memory ← k.memory.free k.buffer.buffer
  let memory ← destroyRequest memory
  onResponse memory ResponseHeap.httpResponseDestroy

variable {σ : Type}

inductive Received
  | idle (connection : Connection)
  | destroyed (memory : State)
  | stored (connection : Connection)

inductive Fate
  | alive (connection : Connection)
  | destroyed (memory : State)

def Fate.memory : Fate → State
  | .alive k => k.memory
  | .destroyed memory => memory

structure Call (σ : Type) where
  fate : Fate
  world : σ
  globals : Globals
  parsed : Option (List UInt8)
  rendered : Option (List UInt8)
  opened : Option (List UInt8)

def destroyBeforePages (s : ReceiveHeap.ReadState σ) (k : Connection) : Option State := do
  let memory ← destroyConnectionInformation k
  let heap ← freePages s memory.heap
  some { memory with heap }

def writeStep (sock : Socket σ) (heap : Blocks Block) (b : ReceiveHeap.Buffer)
    (s : Connection.WriteState σ) :
    Connection.WriteState σ ⊕ Connection.WriteExit × Connection.WriteState σ :=
  match readBlock heap b.buffer s.start b.end_ with
  | none => .inr (.outside, s)
  | some bytes =>
    let toBeWrite := sizeSub b.end_ s.start
    match sock.send s.world bytes with
    | (.failed errno, world) =>
      if errno ≠ EAGAIN ∧ errno ≠ EWOULDBLOCK then .inr (.failed, { s with world })
      else .inr (.blocked, { s with world })
    | (.sent size, world) =>
      let s : Connection.WriteState σ := ⟨world, sizeAdd s.start size⟩
      if size = toBeWrite then .inr (.finished, s) else .inl s

def writeResponse (fuel : Nat) (sock : Socket σ) (k : Connection) (world : σ) :
    Option (Fate × σ) := do
  let (why, s) ← iterate (writeStep sock k.memory.heap k.buffer) fuel ⟨world, k.buffer.start⟩
  let k := { k with buffer := { k.buffer with start := s.start } }
  match why with
  | .finished => some (.alive { k with state := .waitingRequest }, s.world)
  | .blocked => some (.alive k, s.world)
  | .failed => (destroyConnectionInformation k).map fun memory => (.destroyed memory, s.world)
  | .outside => none

section Functions

variable (system : System)

def receive (fuel : Nat) (sock : Socket σ) (memory : ReceiveBuffer.Memory) (k : Connection)
    (world : σ) : Option (Received × σ) := do
  let (why, s) ← (iterate (ReceiveHeap.readStep system.block memory sock) fuel
    (ReceiveHeap.readStart system.block memory world k.memory.heap)).join
  match why with
  | .failed => (destroyBeforePages s (k.withHeap s.heap)).map fun m => (.destroyed m, s.world)
  | .closed => (destroyBeforePages s (k.withHeap s.heap)).map fun m => (.destroyed m, s.world)
  | .overrun => none
  | .drained =>
    if s.totalSize = 0 then (freePages s s.heap).map fun heap => (.idle (k.withHeap heap), s.world)
    else
      match ← ReceiveHeap.storeReceived system.block memory k.buffer s with
      | (none, heap) => (destroyBeforePages s (k.withHeap heap)).map fun m => (.destroyed m, s.world)
      | (some buffer, heap) =>
        (freePages s heap).map fun heap => (.stored { k.withHeap heap with buffer }, s.world)

def renderResponse (memory : ReceiveBuffer.Memory) (k : Connection) :
    Option (List UInt8 × Connection) := do
  let ((code, bytes, size), m) ← render system k.memory (some k.buffer.capability)
  if code = .insufficientBufferSize then
    let m ← m.free k.buffer.buffer
    if memory.grants size then
      let (block, heap) := malloc system.block (.text (ReceiveBuffer.fresh memory size)) m.heap
      let ((_, bytes, length), m) ← render system { m with heap } (some size)
      let heap ← writeBlock m.heap (some block) 0 bytes
      some (bytes, { k with buffer := ⟨some block, size, 0, length⟩, memory := { m with heap } })
    else none
  else
    let heap ← writeBlock m.heap k.buffer.buffer 0 bytes
    some (bytes, { k with
      buffer := ⟨k.buffer.buffer, k.buffer.capability, 0, size⟩
      memory := { m with heap } })

def answerRequest (host : Host) (globals : Globals) (k : Connection) (code : HttpErrorCode) :
    Option (Globals × Option (List UInt8) × State) :=
  if code ≠ .succeed then
    (TransactionHeap.setCode system k.memory .badRequest).map (globals, none, ·)
  else TransactionHeap.handleHttpTransaction system k.type host globals k.memory

def respond (env : Environment) (globals : Globals) (k : Connection) (code : HttpErrorCode) :
    Option (Connection × List UInt8 × Globals × Option (List UInt8)) := do
  let (globals, opened, memory) ← answerRequest system env.host globals k code
  let memory ← destroyRequest memory
  let memory ← TransactionHeap.setHeader system memory (ascii "Server") (ascii "hSS/0.0.1-alpha")
  let (rendered, k) ← renderResponse system env.memory { k with memory }
  some ({ k with state := .writingResponse }, rendered, globals, opened)

/-- What follows the receive phase once bytes are stored; what stands behind their block is
not there to be parsed. -/
def serve (fuel : Nat) (sock : Socket σ) (env : Environment) (globals : Globals)
    (k : Connection) (world : σ) : Option (Call σ) := do
  let contents ← contentsAt k.memory.heap k.buffer.buffer
  let parsed := some (slice contents k.buffer.start k.buffer.end_)
  let (code, memory) ← parse system k.memory (contents.drop k.buffer.start)
    (k.buffer.end_ - k.buffer.start)
  let k := { k with memory }
  if code = .incompleteRequest then some ⟨.alive k, world, globals, parsed, none, none⟩
  else
    let (k, rendered, globals, opened) ← respond system env globals k code
    let (fate, world) ← writeResponse fuel sock k world
    some ⟨fate, world, globals, parsed, some rendered, opened⟩

def handleConnection (fuel : Nat) (sock : Socket σ) (env : Environment) (globals : Globals)
    (event : Event) (k : Connection) (world : σ) : Option (Call σ) :=
  let unchanged : Call σ := ⟨.alive k, world, globals, none, none, none⟩
  if event.epollin = false ∧ k.state = .waitingRequest then some unchanged
  else if event.epollout = false ∧ k.state = .writingResponse then some unchanged
  else
    match k.state with
    | .waitingRequest => do
      let (received, world) ← receive system fuel sock env.memory k world
      match received with
      | .idle k => some { unchanged with fate := .alive k, world }
      | .destroyed memory => some { unchanged with fate := .destroyed memory, world }
      | .stored k => serve system fuel sock env globals k world
    | .writingResponse => do
      let (fate, world) ← writeResponse fuel sock k world
      some { unchanged with fate, world }

end Functions

structure Tracks (rest : List Cell) (files : List FileCell) (mappings : List MappingCell)
    (c : ConnectionInformation) (k : Connection) : Prop where
  type : k.type = c.type
  state : k.state = c.state
  blocks : ∃ cells, Matches k.buffer c.buffer cells ∧
    Both (cells ++ rest) files mappings c.request c.response k.memory

structure Gone (rest : List Cell) (files : List FileCell) (mappings : List MappingCell)
    (memory : State) : Prop where
  blocks : Holds memory.heap rest
  files : Holds memory.files files
  mappings : Holds memory.mappings mappings

/-- Bytes that can be parsed in a block that ends with them, and asked for with what the
parser left: it does not run off them, and if they are a request, its url is not empty as a
string. -/
structure Sheltered (window : List UInt8) : Prop where
  inside : ¬ Reads.RunsOff window
  named : Url.Named window

theorem sheltered_of_reads {window : List UInt8} (hnul : 0 ∉ window)
    (h : Reads.Inside window.length (Reads.httpRequestFromBufferReads
      (httpRequestInitialize Acceptance.freshBlock) (window ++ [0]) window.length)) :
    Sheltered window where
  inside := by
    rw [Reads.runsOff_iff, ← Reads.fromBufferReads_iff (Refinement.clean_fresh _)]
    exact h
  named := Url.named_of_not_mem hnul

variable {system : System} {rest cells : List Cell} {files : List FileCell}
  {mappings : List MappingCell} {request : HttpRequest} {response response' : HttpResponse}
  {memory : State} {c c' : ConnectionInformation} {k : Connection} {host : Host}
  {globals : Globals} {sock : Socket σ} {w w' : σ} {fuel : Nat} {env : Environment}

theorem Both.gone (h : Both rest files mappings request response memory)
    (hrequest : RequestHeap.blockCount request = 0)
    (hresponse : ResponseHeap.blockCount response = 0) : Gone rest files mappings memory := by
  obtain ⟨cells, cells', hrep, hrep', hholds⟩ := h.blocks
  obtain rfl := List.length_eq_zero_iff.mp (hrep.length_eq.trans hrequest)
  obtain rfl := List.length_eq_zero_iff.mp (hrep'.length_eq.trans hresponse)
  exact ⟨hholds, h.files, h.mappings⟩

theorem Stored.owned {p : Option Address} {contents : List UInt8}
    (h : Stored p contents cells) : ∃ owned, Owned p owned cells := by
  cases h with
  | null => exact ⟨none, .null⟩
  | block a contents => exact ⟨some contents, .block a contents⟩

theorem Stored.length_le {p : Option Address} {contents : List UInt8}
    (h : Stored p contents cells) : cells.length ≤ 1 := by
  cases h with
  | null => exact Nat.zero_le 1
  | block => exact Nat.le_refl 1

theorem blockCount_destroy (hclean : Refinement.Clean request) :
    RequestHeap.blockCount (httpRequestDestroy request) = 0 := by
  rw [httpRequestDestroy]
  split
  · rename_i hstate
    rw [hclean hstate]
    rfl
  · rfl

/-- Destroying a connection frees its blocks, each once, and nothing else. -/
theorem Tracks.destroy (h : Tracks rest files mappings c k) (hclean : Refinement.Clean c.request)
    (husable : Usable c.response) :
    ∃ memory, destroyConnectionInformation k = some memory ∧ Gone rest files mappings memory := by
  obtain ⟨cells, hmatches, hboth⟩ := h.blocks
  obtain ⟨owned, howned⟩ := Stored.owned hmatches.block
  obtain ⟨m₁, hm₁, h₁⟩ := hboth.free howned
  obtain ⟨m₂, hm₂, h₂⟩ := h₁.destroyRequest
  have hdestroy : httpResponseDestroy c.response = some (httpResponseInitialize c.response) := by
    rw [httpResponseDestroy, freeDescription_usable husable]
    rfl
  obtain ⟨m₃, hm₃, h₃⟩ := h₂.onResponse fun _ htracks => htracks.destroy hdestroy
  refine ⟨m₃, ?_, Both.gone h₃ (blockCount_destroy hclean) rfl⟩
  simp only [destroyConnectionInformation, hm₁, hm₂, hm₃, Option.bind_eq_bind, Option.bind_some]

theorem freePages_spec {t : ReceiveHeap.ReadState σ} {all : List (Address × List UInt8)}
    {heap : Blocks Block} (haddresses : t.bufferList.take (t.bufferPage + 1) = all.map (·.1))
    (h : Holds heap (all.map pageCell ++ rest)) :
    ∃ heap', freePages t heap = some heap' ∧ Holds heap' rest := by
  rw [freePages, haddresses]
  exact free_all h

/-- The two levels of the receive phase end alike; nothing is said of undefined behaviour. -/
inductive Receives (rest : List Cell) (files : List FileCell) (mappings : List MappingCell)
    (c : ConnectionInformation) (w : σ) :
    Connection.Received → Option (Received × σ) → Prop
  | idle {k : Connection} : Tracks rest files mappings c k →
      Receives rest files mappings c w .idle (some (.idle k, w))
  | destroyed {memory : State} : Gone rest files mappings memory →
      Receives rest files mappings c w .destroyed (some (.destroyed memory, w))
  | crashed {x : Option (Received × σ)} : Receives rest files mappings c w .crashed x
  | stored {b : ReceiveBuffer.Buffer} {k : Connection} :
      Tracks rest files mappings { c with buffer := b } k →
      Receives rest files mappings c w (.stored b) (some (.stored k, w))

theorem Tracks.destroyBeforePages {t : ReceiveHeap.ReadState σ}
    {all : List (Address × List UInt8)}
    (h : Tracks (all.map pageCell ++ rest) files mappings c k)
    (haddresses : t.bufferList.take (t.bufferPage + 1) = all.map (·.1))
    (hclean : Refinement.Clean c.request) (husable : Usable c.response) :
    ∃ memory, destroyBeforePages t k = some memory ∧ Gone rest files mappings memory := by
  obtain ⟨m, hdestroy, hgone⟩ := h.destroy hclean husable
  obtain ⟨heap, hfree, hheld⟩ := freePages_spec haddresses hgone.blocks
  refine ⟨{ m with heap }, ?_, hheld, hgone.files, hgone.mappings⟩
  simp only [ConnectionHeap.destroyBeforePages, hdestroy, hfree, Option.bind_eq_bind,
    Option.bind_some]

/-- Whatever else there is, `base` and the block of a buffer are what the connection has. -/
def Framed (base : List Cell) (files : List FileCell) (mappings : List MappingCell)
    (c : ConnectionInformation) (k : Connection) : Prop :=
  ∀ {heap : Blocks Block} {cells rest : List Cell} {b : ReceiveBuffer.Buffer}
    {buffer : ReceiveHeap.Buffer}, Matches buffer b cells → Holds heap (base ++ (cells ++ rest)) →
    Tracks rest files mappings { c with buffer := b } { k.withHeap heap with buffer }

theorem Tracks.framed (h : Tracks rest files mappings c k) :
    ∃ base cells, Matches k.buffer c.buffer cells ∧
      Holds k.memory.heap (base ++ (cells ++ rest)) ∧ Framed base files mappings c k := by
  obtain ⟨cells, hmatches, hboth⟩ := h.blocks
  obtain ⟨base, hbase, hframe⟩ := hboth.frame
  exact ⟨base, cells, hmatches, hbase, fun hmatches hheld =>
    ⟨h.type, h.state, _, hmatches, hframe hheld⟩⟩

section Pages

variable {base : List Cell} {s : ReadLoop.ReadState σ} {t : ReceiveHeap.ReadState σ}
  {all : List (Address × List UInt8)}

theorem Framed.destroyed (h : Framed base files mappings c k)
    (haddresses : t.bufferList.take (t.bufferPage + 1) = all.map (·.1))
    (hclean : Refinement.Clean c.request) (husable : Usable c.response) {heap : Blocks Block}
    {b : ReceiveBuffer.Buffer} (hmatches : Matches k.buffer b cells)
    (hholds : Holds heap (all.map pageCell ++ (cells ++ (base ++ rest)))) :
    Receives rest files mappings c t.world .destroyed
      ((destroyBeforePages t (k.withHeap heap)).map fun m => (.destroyed m, t.world)) := by
  have hfront : Holds heap (base ++ (cells ++ (all.map pageCell ++ rest))) := by
    refine hholds.perm (List.perm_iff_count.mpr fun c => ?_)
    simp only [List.count_append]
    omega
  obtain ⟨m, hdestroy, hgone⟩ := (h hmatches hfront).destroyBeforePages haddresses hclean husable
  have hdestroy : destroyBeforePages t (k.withHeap heap) = some m := hdestroy
  rw [hdestroy, Option.map_some]
  exact .destroyed hgone

theorem Framed.stored (h : Framed base files mappings c k)
    (haddresses : t.bufferList.take (t.bufferPage + 1) = all.map (·.1))
    (hclean : Refinement.Clean c.request) (husable : Usable c.response)
    {heap : Blocks Block} {result : Option ReceiveBuffer.Buffer}
    {result' : Option ReceiveHeap.Buffer} (hkept : Kept k.buffer cells result result')
    (hholds : Holds heap (all.map pageCell ++ (cells ++ (base ++ rest)))) :
    Receives rest files mappings c t.world (result.elim .destroyed .stored)
      (match result' with
      | none => (destroyBeforePages t (k.withHeap heap)).map fun m => (.destroyed m, t.world)
      | some buffer =>
        (freePages t heap).map fun heap => (.stored { k.withHeap heap with buffer }, t.world)) := by
  cases hkept with
  | refused hstored =>
    exact h.destroyed (b := ⟨_, _, _, _⟩) haddresses hclean husable ⟨rfl, rfl, rfl, hstored⟩ hholds
  | stored hmatches =>
    obtain ⟨heap', hfree, hheld⟩ := freePages_spec haddresses hholds
    simp only [hfree, Option.map_some]
    exact .stored (h hmatches (swap_front hheld))

end Pages

theorem receive_spec (hsock : Honest sock) (h : Tracks rest files mappings c k)
    (hclean : Refinement.Clean c.request) (husable : Usable c.response) (system : System)
    {memory : ReceiveBuffer.Memory} {received : Connection.Received}
    (hreceive : Connection.receive fuel sock memory c.buffer w = some (received, w')) :
    Receives rest files mappings c w' received (receive system fuel sock memory k w) := by
  obtain ⟨base, cells, hmatches, hbase, hframed⟩ := h.framed
  obtain ⟨⟨why, s⟩, hloop, hreceive⟩ := Option.bind_eq_some_iff.mp hreceive
  have hrel : Option.Rel (LeftAt (base ++ (cells ++ rest)))
      (iterate (ReadLoop.readStep sock) fuel (ReadLoop.readStart w))
      (iterate (ReceiveHeap.readStep system.block memory sock) fuel
        (ReceiveHeap.readStart system.block memory w k.memory.heap)) :=
    iterate_rel (fun _ _ => inStep_round hsock) (inStep_start system.block memory hbase w) fuel
  rw [hloop] at hrel
  rw [receive]
  generalize iterate (ReceiveHeap.readStep system.block memory sock) fuel
    (ReceiveHeap.readStart system.block memory w k.memory.heap) = loop at hrel ⊢
  cases hrel with
  | @some _ left hleft =>
    obtain ⟨t, rfl, hstep⟩ := hleft
    rw [Option.join_some, Option.bind_eq_bind, Option.bind_some]
    by_cases hwhy : why = .overrun
    · subst hwhy
      cases hreceive
      exact .crashed
    have hstep := hstep hwhy
    obtain ⟨all, hheld, haddresses, hsources⟩ := hstep.pages
    have hfront : Holds t.heap (all.map pageCell ++ (cells ++ (base ++ rest))) := by
      refine hheld.perm (List.perm_iff_count.mpr fun c => ?_)
      simp only [List.count_append]
      omega
    have hlost := hframed.destroyed haddresses hclean husable hmatches hfront
    have hworld := hstep.world
    cases why with
    | overrun => exact absurd rfl hwhy
    | failed =>
      cases hreceive
      rw [← hworld]
      exact hlost
    | closed =>
      cases hreceive
      rw [← hworld]
      exact hlost
    | drained =>
      simp only [hstep.totalSize]
      by_cases hnothing : s.totalSize = 0
      · simp only [if_pos hnothing] at hreceive ⊢
        cases hreceive
        obtain ⟨heap, hfree, hheld⟩ := freePages_spec haddresses hheld
        rw [hfree, Option.map_some, hworld]
        exact .idle (hframed hmatches hheld)
      · simp only [if_neg hnothing] at hreceive ⊢
        cases hstore : ReceiveBuffer.storeReceived memory c.buffer s with
        | none =>
          simp only [hstore] at hreceive
          cases hreceive
          exact .crashed
        | some result =>
          obtain ⟨result', heap, cells', hstore', hkept, hheld'⟩ :=
            storeReceived_spec hmatches hfront hsources hstep.totalSize system.block memory hstore
          have hstored := hframed.stored haddresses hclean husable hkept hheld'
          simp only [hstore', Option.bind_eq_bind, Option.bind_some]
          simp only [hstore] at hreceive
          cases hkept with
          | refused =>
            cases hreceive
            rw [← hworld]
            exact hstored
          | stored =>
            cases hreceive
            rw [← hworld]
            exact hstored

theorem Both.writeBlock {p : Option Address} {contents contents' bytes : List UInt8}
    {offset : Nat} (h : Both (cells ++ rest) files mappings request response memory)
    (hstored : Stored p contents cells)
    (hwrite : ReceiveBuffer.writeAt contents offset bytes = some contents') :
    ∃ heap cells', writeBlock memory.heap p offset bytes = some heap ∧
      Stored p contents' cells' ∧
      Both (cells' ++ rest) files mappings request response { memory with heap } := by
  obtain ⟨base, hbase, hframe⟩ := h.frame
  obtain ⟨heap, cells', hheap, hstored', hheld⟩ := hstored.writeBlock (swap_front hbase) hwrite
  exact ⟨heap, cells', hheap, hstored', hframe (swap_front hheld)⟩

theorem renderResponse_spec {b b' : ReceiveBuffer.Buffer} (hmatches : Matches k.buffer b cells)
    (h : Both (cells ++ rest) files mappings request response k.memory) (hsound : Sound response)
    (system : System) {memory : ReceiveBuffer.Memory} {rendered : List UInt8}
    (hrender : Connection.renderResponse memory response b = some (rendered, response', b')) :
    ∃ k' cells', renderResponse system memory k = some (rendered, k') ∧ k'.type = k.type ∧
      Matches k'.buffer b' cells' ∧
      Both (cells' ++ rest) files mappings request response' k'.memory := by
  obtain ⟨m₁, hm₁, h₁⟩ := h.render hsound system (some b.capability)
  rw [Connection.renderResponse] at hrender
  simp only [renderResponse, hmatches.capability, hm₁, Option.bind_eq_bind, Option.bind_some]
  split at hrender
  · rename_i hshort
    dsimp only at hrender
    split at hrender
    · rename_i hgranted
      rw [Option.bind_eq_bind, Option.bind_some] at hrender
      obtain ⟨contents, hwrite, hrender⟩ := Option.bind_eq_some_iff.mp hrender
      cases hrender
      obtain ⟨owned, howned⟩ := Stored.owned hmatches.block
      obtain ⟨m₂, hm₂, h₂⟩ := h₁.free howned
      obtain ⟨a, heap, hmalloc, h₃⟩ := h₂.malloc system.block
        (.text (ReceiveBuffer.fresh memory (httpResponseRender response (some b.capability)).length))
      have hsound' : Sound (httpResponseRender response (some b.capability)).response := by
        rw [Encoding.render_response]
        exact ResponseHeap.sound_settle hsound
      obtain ⟨m₃, hm₃, h₄⟩ := h₃.render hsound' system
        (some (httpResponseRender response (some b.capability)).length)
      rw [← List.singleton_append] at h₄
      obtain ⟨heap', cells', hheap, hstored, h₅⟩ := Both.writeBlock h₄ (.block a _) hwrite
      refine ⟨⟨k.type, k.state, ⟨some a, (httpResponseRender response (some b.capability)).length,
        0, _⟩, { m₃ with heap := heap' }⟩, cells', ?_, rfl, ⟨rfl, rfl, rfl, hstored⟩, h₅⟩
      simp only [if_pos hshort, hm₂, if_pos hgranted, hmalloc, hm₃, hheap, Option.bind_some]
    · cases hrender
  · rename_i hfits
    obtain ⟨contents, hwrite, hrender⟩ := Option.bind_eq_some_iff.mp hrender
    cases hrender
    obtain ⟨heap', cells', hheap, hstored, h₂⟩ := Both.writeBlock h₁ hmatches.block hwrite
    refine ⟨⟨k.type, k.state, ⟨k.buffer.buffer, b.capability, 0,
      (httpResponseRender response (some b.capability)).length⟩, { m₁ with heap := heap' }⟩,
      cells', ?_, rfl, ⟨rfl, rfl, rfl, hstored⟩, h₂⟩
    simp only [if_neg hfits, hheap, Option.bind_some]

theorem answerRequest_spec (h : Both rest files mappings request c.response memory)
    (hurl : request.state = .parsed → request.startLine.url ≠ none) (system : System)
    (htype : k.type = c.type) {code : HttpErrorCode} {outcome : Outcome}
    (hne : code = .succeed → urlOf request ≠ [])
    (hanswer : Connection.answerRequest host globals c code request = some outcome) :
    ∃ memory', answerRequest system host globals { k with memory } code =
        some (outcome.globals, outcome.opened, memory') ∧
      Both rest files mappings request outcome.response memory' := by
  rw [Connection.answerRequest] at hanswer
  rw [answerRequest]
  split at hanswer
  · rename_i hcode
    obtain ⟨response, hset, rfl⟩ := Option.map_eq_some_iff.mp hanswer
    obtain ⟨m, hm, h'⟩ := h.setCode system hset
    exact ⟨m, by rw [if_pos hcode, hm, Option.map_some], h'⟩
  · rename_i hcode
    rw [if_neg hcode, htype]
    exact h.transaction hurl (fun _ => hne (not_not.mp hcode)) system hanswer

theorem sound_answer {held : Rendering.Held} (hheld : Rendering.Holds c.response held)
    {code : HttpErrorCode} {outcome : Outcome}
    (hanswer : Connection.answerRequest host globals c code request = some outcome)
    (key value : List UInt8) : Sound (httpResponseSetHeader outcome.response key value) := by
  have hreply := Rendering.answerRequest_reply host globals code request hheld.usable
  rw [hanswer, Option.map_some] at hreply
  obtain ⟨a, ha, hresponse⟩ := Option.map_eq_some_iff.mp hreply.symm
  obtain ⟨-, hsound⟩ := Rendering.renderedBytes_named hheld (Rendering.clean_reply ha)
  rw [hresponse] at hsound
  have hdescription := hsound.description
  have hbody := hsound.body
  rw [Rendering.named, settleBody_stateLine] at hdescription
  rw [Rendering.named, settleBody_body] at hbody
  exact ⟨hdescription, hbody⟩

/-- From the verdict to the rendered response: the request is destroyed, and the response
object stays. -/
theorem respond_spec (h : Tracks rest files mappings { c with request } k)
    (hreach : Acceptance.Reachable request) {held : Rendering.Held}
    (hheld : Rendering.Holds c.response held) (system : System) {code : HttpErrorCode}
    {rendered : List UInt8} {outcome : Outcome} (hne : code = .succeed → urlOf request ≠ [])
    (hrespond : Connection.respond env globals c code request = some (c', rendered, outcome)) :
    ∃ k', respond system env globals k code =
        some (k', rendered, outcome.globals, outcome.opened) ∧
      Tracks rest files mappings c' k' := by
  obtain ⟨cells, hmatches, hboth⟩ := h.blocks
  obtain ⟨outcome', hanswer, hrespond⟩ := Option.bind_eq_some_iff.mp hrespond
  obtain ⟨⟨text, response', buffer⟩, hrender, hrespond⟩ := Option.bind_eq_some_iff.mp hrespond
  cases hrespond
  obtain ⟨m₁, hm₁, h₁⟩ := answerRequest_spec hboth (RequestHeap.parsed_url hreach) system h.type
    hne hanswer
  obtain ⟨m₂, hm₂, h₂⟩ := h₁.destroyRequest
  obtain ⟨m₃, hm₃, h₃⟩ := h₂.setHeader system (ascii "Server") (ascii "hSS/0.0.1-alpha")
  obtain ⟨k', cells', hk', htype, hmatches', h₄⟩ :=
    renderResponse_spec (k := { k with memory := m₃ }) hmatches h₃
      (sound_answer hheld hanswer _ _) system hrender
  have hm₁ : answerRequest system env.host globals k code = _ := hm₁
  refine ⟨{ k' with state := .writingResponse }, ?_, htype.trans h.type, rfl, cells', hmatches', h₄⟩
  simp only [respond, hm₁, hm₂, hm₃, hk', Option.bind_eq_bind, Option.bind_some]

inductive Fates (rest : List Cell) (files : List FileCell) (mappings : List MappingCell) :
    Connection.Fate → Fate → Prop
  | alive {c : ConnectionInformation} {k : Connection} : Tracks rest files mappings c k →
      Fates rest files mappings (.alive c) (.alive k)
  | destroyed {memory : State} : Gone rest files mappings memory →
      Fates rest files mappings .destroyed (.destroyed memory)

theorem writeStep_eq (hmatches : Matches k.buffer c.buffer cells) {heap : Blocks Block}
    (hread : Reads heap cells) (sock : Socket σ) :
    writeStep sock heap k.buffer = Connection.writeStep sock c.buffer := by
  funext s
  rewrite [writeStep, Connection.writeStep, hmatches.block.readBlock hread, hmatches.end_]
  rfl

theorem writeResponse_spec (h : Tracks rest files mappings c k)
    (hclean : Refinement.Clean c.request) (husable : Usable c.response) {fate : Connection.Fate}
    (hwrite : Connection.writeResponse fuel sock c w = some (fate, w')) :
    fate = .crashed ∨ ∃ fate', Fates rest files mappings fate fate' ∧
      writeResponse fuel sock k w = some (fate', w') := by
  obtain ⟨cells, hmatches, hboth⟩ := h.blocks
  obtain ⟨base, hbase, -⟩ := hboth.frame
  obtain ⟨⟨why, s⟩, hloop, hwrite⟩ := Option.bind_eq_some_iff.mp hwrite
  have hsame := writeStep_eq hmatches (reads_of_holds (swap_front hbase)) sock
  have hmoved : Tracks rest files mappings { c with buffer := { c.buffer with start := s.start } }
      { k with buffer := { k.buffer with start := s.start } } :=
    ⟨h.type, h.state, cells, ⟨hmatches.capability, rfl, hmatches.end_, hmatches.block⟩, hboth⟩
  simp only [writeResponse, hsame, hmatches.start, hloop, Option.bind_eq_bind, Option.bind_some]
  cases why with
  | finished =>
    cases hwrite
    refine .inr ⟨.alive { k with
      buffer := { k.buffer with start := s.start }
      state := .waitingRequest }, .alive ⟨hmoved.type, rfl, hmoved.blocks⟩, rfl⟩
  | blocked =>
    cases hwrite
    exact .inr ⟨_, .alive hmoved, rfl⟩
  | failed =>
    cases hwrite
    obtain ⟨m, hm, hgone⟩ := hmoved.destroy hclean husable
    refine .inr ⟨.destroyed m, .destroyed hgone, ?_⟩
    rw [hm, Option.map_some]
  | outside =>
    cases hwrite
    exact .inl rfl

def leaked (parsed : Option (List UInt8)) : Nat :=
  match parsed with
  | none => 0
  | some window => RequestHeap.abandoned (verdict (requestReply window))

/-- What fills its block is parsed there as with anything behind it. -/
theorem parse_window (hb : c.buffer.WellFormed) (hreach : Acceptance.Reachable c.request)
    (hwhole : c.buffer.buffer.drop c.buffer.start = c.buffer.window)
    (hinside : ¬ Reads.RunsOff c.buffer.window) (env : Environment) : ∃ request,
      Connection.parseWindow env c = some (verdict (requestReply c.buffer.window), request) ∧
      httpRequestFromBuffer c.request (c.buffer.buffer.drop c.buffer.start)
        (c.buffer.end_ - c.buffer.start) =
          some (verdict (requestReply c.buffer.window), request) ∧
      Acceptance.Reachable request := by
  obtain ⟨request, hparse, hreach', -⟩ :=
    Exchange.fromBuffer_answer hreach env.memory.nul c.buffer.window
  refine ⟨request, ?_, ?_, hreach'⟩
  · rw [Connection.parseWindow, hwhole, ← ReceiveBuffer.length_window hb]
    exact hparse
  · rw [hwhole, ← ReceiveBuffer.length_window hb,
      ← BlockParse.fromBuffer_block hreach.clean hinside env.memory.behind]
    exact hparse

/-- The call over the heap does the same, and what it leaks has no owner; nothing is said
of undefined behaviour. -/
def Refines (rest : List Cell) (files : List FileCell) (mappings : List MappingCell)
    (call : Connection.Call σ) (x : Option (Call σ)) : Prop :=
  call.fate = .crashed ∨ ∃ lost fate, lost.length = leaked call.parsed ∧
    Fates (lost ++ rest) files mappings call.fate fate ∧
    x = some ⟨fate, call.world, call.globals, call.parsed, call.rendered, call.opened⟩

theorem Refines.quiet {fate : Connection.Fate} {fate' : Fate}
    (hfate : Fates rest files mappings fate fate')
    {x : Option (Call σ)} (hx : x = some ⟨fate', w, globals, none, none, none⟩) :
    Refines rest files mappings ⟨fate, w, globals, none, none, none⟩ x :=
  .inr ⟨[], fate', rfl, hfate, hx⟩

theorem serve_parsed {call : Connection.Call σ}
    (h : Connection.serve fuel sock env globals c w = some call) :
    call.parsed = some c.buffer.window := by
  cases Connection.serving_of_serve h <;> rfl

theorem serve_spec (h : Tracks rest files mappings c k) (hb : c.buffer.WellFormed)
    (hwhole : c.buffer.buffer.drop c.buffer.start = c.buffer.window)
    (hsheltered : Sheltered c.buffer.window) (hreach : Acceptance.Reachable c.request)
    {held : Rendering.Held}
    (hheld : Rendering.Holds c.response held) (system : System) {call : Connection.Call σ}
    (hserve : Connection.serve fuel sock env globals c w = some call) :
    Refines rest files mappings call (serve system fuel sock env globals k w) := by
  obtain ⟨cells, hmatches, hboth⟩ := h.blocks
  obtain ⟨base, hbase, -⟩ := hboth.frame
  have hcontents := hmatches.block.contentsAt (reads_of_holds (swap_front hbase))
  obtain ⟨request, hparse, hblock, hreach'⟩ :=
    parse_window hb hreach hwhole hsheltered.inside env
  obtain ⟨m, lost, hm, hlost, hboth'⟩ := hboth.parse hreach.clean system hblock
  have hne : verdict (requestReply c.buffer.window) = .succeed → urlOf request ≠ [] := by
    intro hcode
    rw [hcode, hwhole, ← ReceiveBuffer.length_window hb,
      ← BlockParse.fromBuffer_block hreach.clean hsheltered.inside []] at hblock
    exact hsheltered.named.urlOf_ne_nil hreach hblock
  have hparsed : Tracks (lost ++ rest) files mappings { c with request } { k with memory := m } := by
    refine ⟨h.type, h.state, cells, hmatches, hboth'.perm (List.perm_iff_count.mpr fun c => ?_)⟩
    simp only [List.count_append]
    omega
  simp only [serve, hcontents, hmatches.start, hmatches.end_, hm, Option.bind_eq_bind,
    Option.bind_some]
  have hwindow : slice c.buffer.buffer c.buffer.start c.buffer.end_ = c.buffer.window := rfl
  generalize hcode : verdict (requestReply c.buffer.window) = code at hparse hlost hne ⊢
  cases Connection.serving_of_serve hserve with
  | unparsed hnone => cases hparse.symm.trans hnone
  | incomplete hsome =>
    cases hparse.symm.trans hsome
    rw [if_pos rfl]
    refine .inr ⟨lost, _, ?_, .alive hparsed, rfl⟩
    rw [leaked, hcode]
    exact hlost
  | unanswered => exact .inl rfl
  | @answered code' request' c₁ rendered outcome fate w' hsome hcomplete hrespond hwrite =>
    cases hparse.symm.trans hsome
    obtain ⟨k₁, hk₁, h₁⟩ := respond_spec hparsed hreach' hheld system hne hrespond
    obtain ⟨a, -, -, hready, hrequest⟩ := Rendering.respond_some hheld hb hrespond
    have hclean : Refinement.Clean c₁.request := hrequest ▸ hreach'.destroy.clean
    obtain hcrashed | ⟨fate', hfate, hwrite'⟩ :=
      writeResponse_spec h₁ hclean hready.holds.usable hwrite
    · exact .inl hcrashed
    · refine .inr ⟨lost, fate', ?_, hfate, ?_⟩
      · rw [leaked, hcode]
        exact hlost
      · rw [if_neg hcomplete, hk₁, Option.bind_some, hwrite', Option.bind_some, hwindow]

theorem honest_recorded (h : Honest sock) : Honest (recorded sock) where
  recv w n bytes hrecv := by
    refine h.recv w.1 n bytes ?_
    rw [recorded] at hrecv
    rcases hr : sock.recv w.1 n with ⟨bytes' | errno, world⟩
    · simp only [hr] at hrecv
      exact hrecv
    · simp only [hr] at hrecv
      cases hrecv
  send w bytes size hsend := by
    refine h.send w.1 bytes size ?_
    rw [recorded] at hsend
    rcases hs : sock.send w.1 bytes with ⟨size' | errno, world⟩
    · simp only [hs] at hsend
      exact hsend
    · simp only [hs] at hsend
      cases hsend

/-- A call on a connection does over the heap what it does in the model. -/
theorem handleConnection_spec (hsock : Honest sock) (h : Tracks rest files mappings c k)
    {v : Exchange.View} (hrep : Exchange.Represents c v) (system : System) {event : Event}
    {call : Connection.Call (Log σ)}
    (hcall : Connection.handleConnection fuel (recorded sock) env globals event c (w, [], []) =
      some call) (hsheltered : ∀ window, call.parsed = some window → Sheltered window) :
    Refines rest files mappings call
      (handleConnection system fuel (recorded sock) env globals event k (w, [], [])) := by
  rw [Connection.handleConnection] at hcall
  rw [handleConnection, h.state]
  have hclean := hrep.request.clean
  have husable := hrep.holds.usable
  split at hcall
  · rename_i hskip
    cases hcall
    rw [if_pos hskip]
    exact .quiet (.alive h) rfl
  rename_i hskip
  split at hcall
  · rename_i hskip'
    cases hcall
    rw [if_neg hskip, if_pos hskip']
    exact .quiet (.alive h) rfl
  rename_i hskip'
  rw [if_neg hskip, if_neg hskip']
  cases hstate : c.state with
  | waitingRequest =>
    rw [hstate] at hcall
    obtain ⟨⟨received, world⟩, hreceive, hcall⟩ := Option.bind_eq_some_iff.mp hcall
    have hspec := receive_spec (honest_recorded hsock) h hclean husable system hreceive
    dsimp only
    generalize receive system fuel (recorded sock) env.memory k (w, [], []) = x at hspec ⊢
    cases hspec with
    | idle hidle =>
      cases hcall
      exact .quiet (.alive hidle) rfl
    | destroyed hgone =>
      cases hcall
      exact .quiet (.destroyed hgone) rfl
    | crashed =>
      cases hcall
      exact .inl rfl
    | stored hstored =>
      obtain ⟨data, -, -, hb, rfl⟩ := Transfer.receive_spec hsock hrep.buffer hreceive
      rw [← hstate] at hcall
      exact serve_spec hstored hb (Rendering.window_whole _ _).symm (hsheltered _ (serve_parsed hcall))
        hrep.request hrep.holds system hcall
  | writingResponse =>
    rw [hstate] at hcall
    obtain ⟨⟨fate, world⟩, hwrite, hcall⟩ := Option.bind_eq_some_iff.mp hcall
    cases hcall
    obtain hcrashed | ⟨fate', hfate, hwrite'⟩ := writeResponse_spec h hclean husable hwrite
    · exact .inl hcrashed
    · refine .quiet hfate ?_
      simp only [hwrite', Option.bind_eq_bind, Option.bind_some]

inductive Operation (σ : Type)
  | call (fuel : Nat) (env : Environment) (globals : Globals) (event : Event) (w : σ)
  | destroy

structure Report (σ : Type) where
  world : Log σ
  globals : Globals
  parsed : Option (List UInt8)
  rendered : Option (List UInt8)
  opened : Option (List UInt8)

/-- The connection of the model; `none` behind its end, and as a result undefined behaviour. -/
def perform (sock : Socket σ) : Option ConnectionInformation → Operation σ →
    Option (Option (Report σ) × Option ConnectionInformation)
  | none, _ => none
  | some _, .destroy => some (none, none)
  | some c, .call fuel env globals event w => do
    let call ← Connection.handleConnection fuel (recorded sock) env globals event c (w, [], [])
    let report : Report σ := ⟨call.world, call.globals, call.parsed, call.rendered, call.opened⟩
    match call.fate with
    | .alive c => some (some report, some c)
    | .destroyed => some (some report, none)
    | .crashed => none

def performAt (system : System) (sock : Socket σ) : Fate → Operation σ →
    Option (Option (Report σ) × Fate)
  | .destroyed _, _ => none
  | .alive k, .destroy =>
    (destroyConnectionInformation k).map fun memory => (none, .destroyed memory)
  | .alive k, .call fuel env globals event w =>
    (handleConnection system fuel (recorded sock) env globals event k (w, [], [])).map fun call =>
      (some ⟨call.world, call.globals, call.parsed, call.rendered, call.opened⟩, call.fate)

def leakedIn (replies : List (Option (Report σ))) : Nat :=
  (replies.map fun reply => leaked (reply.bind (·.parsed))).sum

def objectBlocks : Option ConnectionInformation → Nat
  | none => 0
  | some c => RequestHeap.blockCount c.request + ResponseHeap.blockCount c.response

inductive Lives (others : List Cell) (files : List FileCell) (mappings : List MappingCell)
    (replies : List (Option (Report σ))) : Option ConnectionInformation → Fate → Prop
  | alive {c : ConnectionInformation} {k : Connection} {lost : List Cell} {v : Exchange.View} :
      lost.length = leakedIn replies → Exchange.Represents c v →
      Tracks (lost ++ others) files mappings c k →
      Lives others files mappings replies (some c) (.alive k)
  | destroyed {memory : State} {lost : List Cell} : lost.length = leakedIn replies →
      Gone (lost ++ others) files mappings memory →
      Lives others files mappings replies none (.destroyed memory)

variable {others : List Cell} {replies : List (Option (Report σ))}

theorem leakedIn_append (replies : List (Option (Report σ))) (reply : Option (Report σ)) :
    leakedIn (replies ++ [reply]) = leaked (reply.bind (·.parsed)) + leakedIn replies := by
  rw [leakedIn, List.map_append, List.sum_append, List.map_singleton, List.sum_singleton,
    Nat.add_comm]
  rfl

def Safe (reply : Option (Report σ)) : Prop :=
  ∀ window, reply.bind (·.parsed) = some window → Sheltered window

theorem safe_of_parsed (h : ∀ window ∈ replies.filterMap (·.bind (·.parsed)), Sheltered window) :
    ∀ reply ∈ replies, Safe reply := fun _ hreply _ hwindow =>
  h _ (List.mem_filterMap.mpr ⟨_, hreply, hwindow⟩)

theorem performAt_follows (hsock : Honest sock) (system : System)
    {x x' : Option ConnectionInformation} {fate : Fate}
    (h : Lives others files mappings replies x fate) {operation : Operation σ}
    {reply : Option (Report σ)} (hrun : perform sock x operation = some (reply, x'))
    (hsafe : Safe reply) :
    ∃ fate', performAt system sock fate operation = some (reply, fate') ∧
      Lives others files mappings (replies ++ [reply]) x' fate' := by
  cases h with
  | destroyed => cases hrun
  | @alive c k lost v hlost hrep htracks =>
    cases operation with
    | destroy =>
      cases hrun
      obtain ⟨m, hm, hgone⟩ := htracks.destroy hrep.request.clean hrep.holds.usable
      refine ⟨.destroyed m, ?_, .destroyed ?_ hgone⟩
      · rw [performAt, hm, Option.map_some]
      · rw [leakedIn_append, hlost]
        exact (Nat.zero_add _).symm
    | call fuel env globals event w =>
      obtain ⟨call, hcall, hfate⟩ := Option.bind_eq_some_iff.mp hrun
      obtain ⟨_, _, _, -, -, -, hnext⟩ := Exchange.call_turn hsock hrep hcall
      obtain ⟨fate, world, globals', parsed, rendered, opened⟩ := call
      have hreply : fate ≠ .crashed ∧
          reply = some ⟨world, globals', parsed, rendered, opened⟩ := by
        cases fate <;> cases hfate <;> exact ⟨Connection.Fate.noConfusion, rfl⟩
      obtain ⟨hcrashed, rfl⟩ := hreply
      obtain hbad | ⟨lost', fate', hlost', hfates, hrunAt⟩ :=
        handleConnection_spec hsock htracks hrep system hcall hsafe
      · exact absurd hbad hcrashed
      have hsum : (lost' ++ lost).length =
          leakedIn (replies ++ [some ⟨world, globals', parsed, rendered, opened⟩]) := by
        rw [leakedIn_append, List.length_append, hlost', hlost]
        rfl
      refine ⟨fate', by rw [performAt, hrunAt, Option.map_some], ?_⟩
      dsimp only at hfates hnext
      rw [← List.append_assoc] at hfates
      cases hfates with
      | alive htracks' =>
        cases hfate
        obtain ⟨-, v', -, -, hrep'⟩ := hnext _ rfl
        exact .alive hsum hrep' htracks'
      | destroyed hgone =>
        cases hfate
        exact .destroyed hsum hgone

theorem tracks_initialize (type : FileDescriptorType) (hblocks : Holds memory.heap others)
    (hfiles : Holds memory.files files) (hmappings : Holds memory.mappings mappings) :
    Tracks others files mappings (Connection.initializeConnectionInformation type
        Acceptance.freshBlock (ResponseHeap.fresh memory.response.code))
      (initializeConnectionInformation type memory) := by
  have hmethod : memory.request.method = Acceptance.freshBlock.startLine.method := by
    cases memory.request.method
    rfl
  refine ⟨rfl, rfl, [], ⟨rfl, rfl, rfl, .null⟩, ⟨[], [], ?_, ?_, hblocks⟩, hfiles, hmappings⟩
  · exact ⟨rfl, hmethod, rfl, rfl, rfl, [], [], [], [], rfl, .null, .null,
      ⟨.headerList, .nil _ none⟩, .null⟩
  · exact ⟨rfl, rfl, rfl, [], [], [], rfl, .null, ⟨.headerList, .nil _ none⟩, .null⟩

theorem Lives.holds {x : Option ConnectionInformation} {fate : Fate}
    (h : Lives others files mappings replies x fate) :
    ∃ own lost, Holds fate.memory.heap (own ++ (lost ++ others)) ∧
      lost.length = leakedIn replies ∧ Holds fate.memory.files files ∧
      Holds fate.memory.mappings mappings ∧
      ∃ buffer ≤ 1, (x = none → buffer = 0) ∧ own.length = buffer + objectBlocks x := by
  cases h with
  | destroyed hlost hgone =>
    exact ⟨[], _, hgone.blocks, hlost, hgone.files, hgone.mappings, 0, Nat.zero_le 1, fun _ => rfl,
      rfl⟩
  | @alive c k lost v hlost hrep htracks =>
    obtain ⟨cells, hmatches, hboth⟩ := htracks.blocks
    obtain ⟨cells₁, cells₂, hrequest, hresponse, hholds⟩ := hboth.blocks
    have hbuffer : cells.length ≤ 1 := Stored.length_le hmatches.block
    refine ⟨cells₁ ++ (cells₂ ++ cells), lost, ?_, hlost, hboth.files, hboth.mappings,
      cells.length, hbuffer, nofun, ?_⟩
    · simp only [List.append_assoc] at hholds ⊢
      exact hholds
    · simp only [List.length_append, hrequest.length_eq, hresponse.length_eq, objectBlocks]
      omega

/-- From the initialization of a connection to its end, whatever the allocator and the
kernel do: in a run of the model in which all that is parsed is sheltered, the server gives
the same replies over the heap, where it reads, writes and frees no block that is not
allocated, and parses what it received in the block that ends with it. The other blocks, the
open files and the mappings stay as they are. Beside a connection that lives there are its
buffer and the blocks of its objects, beside one that has been destroyed there is nothing,
and the three blocks of each header with a key that came before are never freed. -/
theorem connection_memory (hsock : Honest sock) (system : System) (type : FileDescriptorType)
    (memory : State) (operations : List (Operation σ)) {x : Option ConnectionInformation}
    (h : performAll (perform sock) (some (Connection.initializeConnectionInformation type
      Acceptance.freshBlock (ResponseHeap.fresh memory.response.code))) operations =
        some (replies, x)) (hsafe : ∀ reply ∈ replies, Safe reply) :
    ∃ fate, performAll (performAt system sock)
        (.alive (initializeConnectionInformation type memory)) operations = some (replies, fate) ∧
      (∀ a b, memory.heap.lookup a = some b → fate.memory.heap.lookup a = some b) ∧
      fate.memory.files = memory.files ∧ fate.memory.mappings = memory.mappings ∧
      ∃ buffer ≤ 1, (x = none → buffer = 0) ∧ fate.memory.heap.keys.card =
        memory.heap.keys.card + (buffer + objectBlocks x) + leakedIn replies := by
  obtain ⟨others, hblocks⟩ := Heap.exists_holds memory.heap
  obtain ⟨files, hfiles⟩ := Heap.exists_holds memory.files
  obtain ⟨mappings, hmappings⟩ := Heap.exists_holds memory.mappings
  have htracks : Tracks ([] ++ others) files mappings _ (initializeConnectionInformation type memory) :=
    tracks_initialize type hblocks hfiles hmappings
  have hstart : Lives others files mappings ([] : List (Option (Report σ))) _ _ :=
    .alive rfl (Exchange.represents_fresh type _ _) htracks
  obtain ⟨fate, hrun, hlives⟩ := performAll_follows (R := Lives others files mappings) Safe hstart h
    hsafe fun _ _ _ _ _ _ h hop hsafe => performAt_follows hsock system h hop hsafe
  obtain ⟨own, lost, hholds, hlost, hfiles', hmappings', buffer, hbuffer, hnone, hown⟩ :=
    hlives.holds
  refine ⟨fate, hrun, fun a b hmem => hholds.load ?_, hfiles'.unique hfiles,
    hmappings'.unique hmappings, buffer, hbuffer, hnone, ?_⟩
  · exact List.mem_append_right _ (List.mem_append_right _ ((hblocks.lookup a b).mp hmem))
  · rw [hholds.card, hblocks.card, List.length_append, List.length_append, hown, hlost,
      List.nil_append]
    omega

def twice : List (Operation (List UInt8 × List Nat)) :=
  [.call 9 ⟨Session.roomy, Transaction.smallHost⟩ Session.firstGlobals Session.readable
    (ascii "GET / H\r\nA: b\r\nA: c\r\n\r\n", []), .destroy]

def emptyMemory : State := ⟨RequestHeap.freshObject, ResponseHeap.freshObject, ∅, ∅, ∅⟩

/-- The header is still there when the connection has been destroyed. -/
theorem connection_memory_twice : ∃ replies fate,
    performAll (performAt ⟨Heap.above, Heap.above, Heap.above⟩ chunked)
      (.alive (initializeConnectionInformation .tcpSocket emptyMemory)) twice =
        some (replies, fate) ∧ fate.memory.heap.keys.card = 3 := by
  have hrun : (performAll (perform chunked) (some (Connection.initializeConnectionInformation
      .tcpSocket Acceptance.freshBlock (ResponseHeap.fresh .ok))) twice).map
        (fun v => (v.1.filterMap (·.bind (·.parsed)), leakedIn v.1, v.2)) =
          some ([ascii "GET / H\r\nA: b\r\nA: c\r\n\r\n"], 3, none) := by decide +kernel
  obtain ⟨⟨replies, x⟩, hperform, hv⟩ := Option.map_eq_some_iff.mp hrun
  obtain ⟨hparsed, hv⟩ := Prod.mk.inj hv
  obtain ⟨hleaked, rfl⟩ := Prod.mk.inj hv
  have hsafe : ∀ reply ∈ replies, Safe reply := by
    refine safe_of_parsed ?_
    rw [hparsed, List.forall_mem_singleton]
    exact sheltered_of_reads (by decide) (by decide +kernel)
  obtain ⟨fate, hperformAt, -, -, -, buffer, -, hnone, hcard⟩ := connection_memory honest_chunked
    ⟨Heap.above, Heap.above, Heap.above⟩ .tcpSocket emptyMemory twice hperform hsafe
  refine ⟨replies, fate, hperformAt, ?_⟩
  rw [hcard, hnone rfl, hleaked]
  rfl

end Hss.ConnectionHeap
