import Hss.Lib.Ownership
import Hss.Server.ConnectionHeap

namespace Hss.SharedHeap

open Hss.CString Hss.Transaction Hss.Transport Hss.Simulation Hss.ReceiveHeap Hss.Ownership

open Hss.Heap hiding free store

open Hss.HeaderHeap (Cell Block)

open Hss.Connection (ConnectionInformation ConnectionStatus)

open Hss.ConnectionHeap (Connection Fate Report leakedIn objectBlocks Tracks Lives Safe)

open Hss.DescriptorList (FileDescriptorType)

open Hss.TransactionHeap (System State FileCell MappingCell)

structure Memory where
  heap : Blocks Block
  files : Blocks File
  mappings : Blocks (List UInt8)

/-- A `struct connection_information` without the memory its pointers lead to. -/
structure Slot where
  type : FileDescriptorType
  state : ConnectionStatus
  buffer : ReceiveHeap.Buffer
  request : RequestHeap.Object
  response : ResponseHeap.Object

def Slot.over (k : Slot) (m : Memory) : Connection :=
  ⟨k.type, k.state, k.buffer, ⟨k.request, k.response, m.heap, m.files, m.mappings⟩⟩

def slotOf (k : Connection) : Slot :=
  ⟨k.type, k.state, k.buffer, k.memory.request, k.memory.response⟩

def memoryOf (s : State) : Memory := ⟨s.heap, s.files, s.mappings⟩

structure Server where
  memory : Memory
  slots : List (Option Slot)

variable {σ : Type}

/-- A connection is accepted, with whatever its two objects held before, or something
happens to one that was. -/
inductive Operation (σ : Type)
  | accept (type : FileDescriptorType) (request : RequestHeap.Object)
      (response : ResponseHeap.Object)
  | on (i : Nat) (operation : ConnectionHeap.Operation σ)

/-- The connections of the model, which have nothing in common. -/
def perform (sock : Nat → Socket σ) : List (Option ConnectionInformation) → Operation σ →
    Option (Option (Report σ) × List (Option ConnectionInformation))
  | xs, .accept type _ response =>
    some (none, xs ++ [some (Connection.initializeConnectionInformation type
      Acceptance.freshBlock (ResponseHeap.fresh response.code))])
  | xs, .on i operation => do
    let x ← xs[i]?
    let (reply, x) ← ConnectionHeap.perform (sock i) x operation
    some (reply, xs.set i x)

def slotAfter : Fate → Option Slot
  | .alive k => some (slotOf k)
  | .destroyed _ => none

def performAt (system : System) (sock : Nat → Socket σ) (s : Server) :
    Operation σ → Option (Option (Report σ) × Server)
  | .accept type request response =>
    let k := ConnectionHeap.initializeConnectionInformation type
      ⟨request, response, s.memory.heap, s.memory.files, s.memory.mappings⟩
    some (none, ⟨memoryOf k.memory, s.slots ++ [some (slotOf k)]⟩)
  | .on i operation => do
    let slot ← (s.slots[i]?).join
    let (reply, fate) ←
      ConnectionHeap.performAt system (sock i) (.alive (slot.over s.memory)) operation
    some (reply, ⟨memoryOf fate.memory, s.slots.set i (slotAfter fate)⟩)

structure Holding (c : ConnectionInformation) (k : Slot) (own : List Cell) : Prop where
  type : k.type = c.type
  state : k.state = c.state
  blocks : ∃ cells cells₁ cells₂, own = cells₁ ++ (cells₂ ++ cells) ∧
    Matches k.buffer c.buffer cells ∧ RequestHeap.Represents k.request c.request cells₁ ∧
    ResponseHeap.Represents k.response c.response cells₂

inductive Owns : Option ConnectionInformation → Option Slot → List Cell → Prop
  | gone : Owns none none []
  | living {c : ConnectionInformation} {k : Slot} {own : List Cell} {v : Exchange.View} :
      Exchange.Represents c v → Holding c k own → Owns (some c) (some k) own

variable {c : ConnectionInformation} {k : Slot} {own rest : List Cell} {files : List FileCell}
  {mappings : List MappingCell} {m : Memory}

theorem Holding.tracks (h : Holding c k own) (hblocks : Holds m.heap (own ++ rest))
    (hfiles : Holds m.files files) (hmappings : Holds m.mappings mappings) :
    Tracks rest files mappings c (k.over m) := by
  obtain ⟨cells, cells₁, cells₂, rfl, hmatches, hrequest, hresponse⟩ := h.blocks
  refine ⟨h.type, h.state, cells, hmatches, ⟨cells₁, cells₂, hrequest, hresponse, ?_⟩, hfiles,
    hmappings⟩
  simp only [List.append_assoc] at hblocks
  exact hblocks

theorem holding_of_tracks {k : Connection} (h : Tracks rest files mappings c k) :
    ∃ own, Holding c (slotOf k) own ∧ Holds k.memory.heap (own ++ rest) := by
  obtain ⟨cells, hmatches, hboth⟩ := h.blocks
  obtain ⟨cells₁, cells₂, hrequest, hresponse, hblocks⟩ := hboth.blocks
  refine ⟨cells₁ ++ (cells₂ ++ cells),
    ⟨h.type, h.state, cells, cells₁, cells₂, rfl, hmatches, hrequest, hresponse⟩, ?_⟩
  simp only [List.append_assoc]
  exact hblocks

def ownBlocks : Option ConnectionInformation → Nat
  | none => 0
  | some c => objectBlocks (some c) + 1

theorem Holding.length (h : Holding c k own) :
    objectBlocks (some c) ≤ own.length ∧ own.length ≤ ownBlocks (some c) := by
  obtain ⟨cells, cells₁, cells₂, rfl, hmatches, hrequest, hresponse⟩ := h.blocks
  have hbuffer := ConnectionHeap.Stored.length_le hmatches.block
  simp only [List.length_append, hrequest.length_eq, hresponse.length_eq, objectBlocks, ownBlocks]
  omega

theorem Owns.length {x : Option ConnectionInformation} {k : Option Slot} (h : Owns x k own) :
    objectBlocks x ≤ own.length ∧ own.length ≤ ownBlocks x := by
  cases h with
  | gone => exact ⟨Nat.le_refl 0, Nat.le_refl 0⟩
  | living _ hholding => exact hholding.length

/-- Every block of the memory is one of the others, belongs to exactly one connection, or
has been left without an owner. -/
structure Divided (others : List Cell) (files : List FileCell) (mappings : List MappingCell)
    (replies : List (Option (Report σ))) (xs : List (Option ConnectionInformation))
    (s : Server) : Prop where
  blocks : ∃ own lost, Shared Owns xs s.slots own ∧ lost.length = leakedIn replies ∧
    Holds s.memory.heap (own ++ (lost ++ others))
  files : Holds s.memory.files files
  mappings : Holds s.memory.mappings mappings

variable {sock : Nat → Socket σ} {others : List Cell} {replies : List (Option (Report σ))}
  {xs : List (Option ConnectionInformation)} {x : Option ConnectionInformation} {s : Server}
  {fate : Fate}

theorem owns_of_lives (h : Lives rest files mappings replies x fate) :
    ∃ own lost, Owns x (slotAfter fate) own ∧ lost.length = leakedIn replies ∧
      Holds fate.memory.heap (own ++ (lost ++ rest)) ∧ Holds fate.memory.files files ∧
      Holds fate.memory.mappings mappings := by
  cases h with
  | alive hlost hrep htracks =>
    obtain ⟨own, hholding, hblocks⟩ := holding_of_tracks htracks
    obtain ⟨_, -, hboth⟩ := htracks.blocks
    exact ⟨own, _, .living hrep hholding, hlost, hblocks, hboth.files, hboth.mappings⟩
  | destroyed hlost hgone =>
    exact ⟨[], _, .gone, hlost, hgone.blocks, hgone.files, hgone.mappings⟩

theorem Divided.accept (h : Divided others files mappings replies xs s) (sock : Nat → Socket σ)
    (system : System) {type : FileDescriptorType} {request : RequestHeap.Object}
    {response : ResponseHeap.Object} {reply : Option (Report σ)}
    {xs' : List (Option ConnectionInformation)}
    (hrun : perform sock xs (.accept type request response) = some (reply, xs')) :
    ∃ s', performAt system sock s (.accept type request response) = some (reply, s') ∧
      Divided others files mappings (replies ++ [reply]) xs' s' := by
  cases hrun
  obtain ⟨own, lost, hshared, hlost, hblocks⟩ := h.blocks
  have htracks : Tracks (own ++ (lost ++ others)) files mappings _
      (ConnectionHeap.initializeConnectionInformation type
        ⟨request, response, s.memory.heap, s.memory.files, s.memory.mappings⟩) :=
    ConnectionHeap.tracks_initialize type hblocks h.files h.mappings
  obtain ⟨own', hholding, hblocks'⟩ := holding_of_tracks htracks
  refine ⟨_, rfl, ⟨own ++ own', lost, ?_, ?_, ?_⟩, h.files, h.mappings⟩
  · exact hshared.concat (.living (Exchange.represents_fresh type _ _) hholding)
  · rw [ConnectionHeap.leakedIn_append, hlost]
    exact (Nat.zero_add _).symm
  · refine hblocks'.perm (List.perm_iff_count.mpr fun c => ?_)
    simp only [List.count_append]
    omega

theorem Divided.on (h : Divided others files mappings replies xs s)
    (hsock : ∀ i, Honest (sock i)) (system : System) {i : Nat}
    {operation : ConnectionHeap.Operation σ} {reply : Option (Report σ)}
    {xs' : List (Option ConnectionInformation)}
    (hrun : perform sock xs (.on i operation) = some (reply, xs')) (hsafe : Safe reply) :
    ∃ s', performAt system sock s (.on i operation) = some (reply, s') ∧
      Divided others files mappings (replies ++ [reply]) xs' s' := by
  obtain ⟨x, hx, hrun⟩ := Option.bind_eq_some_iff.mp hrun
  obtain ⟨⟨reply', x'⟩, hperform, heq⟩ := Option.bind_eq_some_iff.mp hrun
  cases heq
  obtain ⟨own, lost, hshared, hlost, hblocks⟩ := h.blocks
  obtain ⟨slot, mine, theirs, hslot, howns, hperm, hput⟩ := hshared.focus hx
  cases howns with
  | gone => cases hperform
  | @living c k _ v hrep hholding =>
    have hfront : Holds s.memory.heap (mine ++ (lost ++ (theirs ++ others))) := by
      refine hblocks.perm (List.perm_iff_count.mpr fun c => ?_)
      simp only [List.count_append, hperm.count_eq]
      omega
    have hlives : Lives (theirs ++ others) files mappings replies (some c)
        (.alive (k.over s.memory)) :=
      .alive hlost hrep (hholding.tracks hfront h.files h.mappings)
    obtain ⟨fate, hperformAt, hlives'⟩ :=
      ConnectionHeap.performAt_follows (hsock i) system hlives hperform hsafe
    obtain ⟨own', lost', howns', hlost', hblocks', hfiles', hmappings'⟩ := owns_of_lives hlives'
    obtain ⟨cells, hshared', hperm'⟩ := hput howns'
    refine ⟨⟨memoryOf fate.memory, s.slots.set i (slotAfter fate)⟩, ?_,
      ⟨cells, lost', hshared', hlost', ?_⟩, hfiles', hmappings'⟩
    · simp only [performAt, hslot, hperformAt, Option.join_some, Option.bind_eq_bind,
        Option.bind_some]
    · refine hblocks'.perm (List.perm_iff_count.mpr fun c => ?_)
      simp only [List.count_append, hperm'.count_eq]
      omega

theorem performAt_follows (hsock : ∀ i, Honest (sock i)) (system : System)
    (h : Divided others files mappings replies xs s) {operation : Operation σ}
    {reply : Option (Report σ)} {xs' : List (Option ConnectionInformation)}
    (hrun : perform sock xs operation = some (reply, xs')) (hsafe : Safe reply) :
    ∃ s', performAt system sock s operation = some (reply, s') ∧
      Divided others files mappings (replies ++ [reply]) xs' s' := by
  cases operation with
  | accept type request response => exact h.accept sock system hrun
  | on i operation => exact h.on hsock system hrun hsafe

/-- Any number of connections over one heap, whatever the allocator and the kernel do and
however the calls interleave: in a run of the model in which all that is parsed is sheltered,
the server gives each connection over the heap the replies of the model, where connections
have nothing in common, and reads, writes and frees no block that is not allocated. At any
time the blocks are those there were before, those that belong to exactly one connection
each, and the three blocks of each header with a key that came before; no file is left open
and no mapping behind. -/
theorem shared_memory (hsock : ∀ i, Honest (sock i)) (system : System) (memory : Memory)
    (operations : List (Operation σ)) (h : performAll (perform sock) [] operations =
      some (replies, xs)) (hsafe : ∀ reply ∈ replies, Safe reply) :
    ∃ s, performAll (performAt system sock) ⟨memory, []⟩ operations = some (replies, s) ∧
      s.memory.files = memory.files ∧ s.memory.mappings = memory.mappings ∧
      ∃ own lost others, Holds memory.heap others ∧
        Holds s.memory.heap (own ++ (lost ++ others)) ∧ Shared Owns xs s.slots own ∧
        lost.length = leakedIn replies ∧ (xs.map objectBlocks).sum ≤ own.length ∧
        own.length ≤ (xs.map ownBlocks).sum := by
  obtain ⟨others, hblocks⟩ := Heap.exists_holds memory.heap
  obtain ⟨files, hfiles⟩ := Heap.exists_holds memory.files
  obtain ⟨mappings, hmappings⟩ := Heap.exists_holds memory.mappings
  have hstart : Divided others files mappings ([] : List (Option (Report σ))) [] ⟨memory, []⟩ :=
    ⟨⟨[], [], .nil, rfl, hblocks⟩, hfiles, hmappings⟩
  obtain ⟨s, hrun, hdivided⟩ := performAll_follows (R := Divided others files mappings) Safe hstart
    h hsafe fun _ _ _ _ _ _ h hop hsafe => performAt_follows hsock system h hop hsafe
  obtain ⟨own, lost, hshared, hlost, hheld⟩ := hdivided.blocks
  refine ⟨s, hrun, hdivided.files.unique hfiles, hdivided.mappings.unique hmappings, own, lost,
    others, hblocks, hheld, hshared, hlost, ?_, ?_⟩
  · exact hshared.le_length fun _ _ _ howns => howns.length.1
  · exact hshared.length_le fun _ _ _ howns => howns.length.2

def interleaved : List (Operation (List UInt8 × List Nat)) :=
  [.accept .tcpSocket RequestHeap.freshObject ResponseHeap.freshObject,
   .accept .tcpSocket RequestHeap.freshObject ResponseHeap.freshObject,
   .on 1 (.call 9 ⟨Session.roomy, Transaction.smallHost⟩ Session.firstGlobals Session.readable
    (ascii "GET / H\r\n", [])),
   .on 0 (.call 9 ⟨Session.roomy, Transaction.smallHost⟩ Session.firstGlobals Session.readable
    (ascii "GET / H\r\nA: b\r\nA: c\r\n\r\n", [])),
   .on 1 .destroy,
   .on 0 .destroy]

/-- The header is all that is left of the two. -/
theorem shared_memory_interleaved : ∃ replies s,
    performAll (performAt ⟨Heap.above, Heap.above, Heap.above⟩ fun _ => chunked)
      ⟨⟨∅, ∅, ∅⟩, []⟩ interleaved = some (replies, s) ∧ s.memory.heap.keys.card = 3 := by
  have hrun : (performAll (perform fun _ => chunked) [] interleaved).map
      (fun v => (v.1.filterMap (·.bind (·.parsed)), leakedIn v.1, v.2)) =
        some ([ascii "GET / H\r\n", ascii "GET / H\r\nA: b\r\nA: c\r\n\r\n"], 3, [none, none]) := by
    decide +kernel
  obtain ⟨⟨replies, xs⟩, hperform, hv⟩ := Option.map_eq_some_iff.mp hrun
  obtain ⟨hparsed, hv⟩ := Prod.mk.inj hv
  obtain ⟨hleaked, rfl⟩ := Prod.mk.inj hv
  have hsafe : ∀ reply ∈ replies, Safe reply := by
    refine ConnectionHeap.safe_of_parsed ?_
    rw [hparsed, List.forall_mem_cons, List.forall_mem_singleton]
    exact ⟨ConnectionHeap.sheltered_of_reads (by decide) (by decide +kernel),
      ConnectionHeap.sheltered_of_reads (by decide) (by decide +kernel)⟩
  obtain ⟨s, hperformAt, -, -, own, lost, others, hbefore, hheld, -, hlost, -, hown⟩ :=
    shared_memory (fun _ => honest_chunked) ⟨Heap.above, Heap.above, Heap.above⟩ ⟨∅, ∅, ∅⟩
      interleaved hperform hsafe
  refine ⟨replies, s, hperformAt, ?_⟩
  have hempty : others.length = 0 := hbefore.card.symm
  have hgone : own.length ≤ 0 := hown
  rw [hheld.card, List.length_append, List.length_append, hlost, hleaked]
  omega

end Hss.SharedHeap
