import Hss.Server.ReceiveBuffer
import Hss.Server.Transaction

namespace Hss.Connection

open Hss.CString Hss.Headers Hss.Request Hss.Response Hss.DescriptorList Hss.Transaction Hss.Loop
  Hss.Transport Hss.ReadLoop Hss.ReceiveBuffer

inductive ConnectionStatus
  | waitingRequest
  | writingResponse
  deriving DecidableEq, Repr

/-- A `struct connection_information` with the type of its descriptor. -/
structure ConnectionInformation where
  type : FileDescriptorType
  state : ConnectionStatus
  buffer : Buffer
  request : HttpRequest
  response : HttpResponse
  deriving DecidableEq, Repr

/-- The request and the response are what their fresh blocks hold. -/
def initializeConnectionInformation (type : FileDescriptorType) (request : HttpRequest)
    (response : HttpResponse) : ConnectionInformation where
  type := type
  state := .waitingRequest
  buffer := ⟨[], 0, 0, 0⟩
  request := httpRequestInitialize request
  response := httpResponseInitialize response

structure Event where
  epollin : Bool
  epollout : Bool
  deriving DecidableEq, Repr

structure Environment where
  memory : Memory
  host : Host

inductive Fate
  | alive (connection : ConnectionInformation)
  | destroyed
  | crashed
  deriving DecidableEq, Repr

/-- What a call of `handle_connection` leaves behind, with the bytes it handed to
the parser, the response it rendered and the path it opened. -/
structure Call (σ : Type) where
  fate : Fate
  world : σ
  globals : Globals
  parsed : Option (List UInt8)
  rendered : Option (List UInt8)
  opened : Option (List UInt8)
  deriving DecidableEq, Repr

variable {σ : Type}

inductive Received
  | idle
  | destroyed
  | crashed
  | stored (buffer : Buffer)
  deriving DecidableEq, Repr

def receive (fuel : Nat) (sock : Socket σ) (memory : Memory) (buffer : Buffer) (world : σ) :
    Option (Received × σ) := do
  let (why, s) ← iterate (readStep sock) fuel (readStart world)
  match why with
  | .failed => some (.destroyed, s.world)
  | .closed => some (.destroyed, s.world)
  | .overrun => some (.crashed, s.world)
  | .drained =>
    if s.totalSize = 0 then some (.idle, s.world)
    else
      match storeReceived memory buffer s with
      | none => some (.crashed, s.world)
      | some none => some (.destroyed, s.world)
      | some (some buffer) => some (.stored buffer, s.world)

/-- Render into the buffer, or into a new block if that is too small; `none` is a
block that is not granted. -/
def renderResponse (memory : Memory) (response : HttpResponse) (b : Buffer) :
    Option (List UInt8 × HttpResponse × Buffer) :=
  let first := httpResponseRender response (some b.capability)
  if first.code = .insufficientBufferSize then do
    let size := first.length
    let block ← if memory.grants size then some (fresh memory size) else none
    let second := httpResponseRender first.response (some size)
    let buffer ← writeAt block 0 second.bytes
    some (second.bytes, second.response, ⟨buffer, size, 0, second.length⟩)
  else do
    let buffer ← writeAt b.buffer 0 first.bytes
    some (first.bytes, first.response, ⟨buffer, b.capability, 0, first.length⟩)

def answerRequest (host : Host) (globals : Globals) (c : ConnectionInformation)
    (code : HttpErrorCode) (request : HttpRequest) : Option Outcome :=
  if code ≠ .succeed then
    (httpResponseSetCode c.response .badRequest none).map fun response => ⟨response, globals, none⟩
  else handleHttpTransaction c.type host globals request c.response

def respond (env : Environment) (globals : Globals) (c : ConnectionInformation)
    (code : HttpErrorCode) (request : HttpRequest) :
    Option (ConnectionInformation × List UInt8 × Outcome) := do
  let outcome ← answerRequest env.host globals c code request
  let response := httpResponseSetHeader outcome.response (ascii "Server") (ascii "hSS/0.0.1-alpha")
  let (rendered, response, buffer) ← renderResponse env.memory response c.buffer
  some ({ c with
    state := .writingResponse
    buffer
    request := httpRequestDestroy request
    response }, rendered, outcome)

structure WriteState (σ : Type) where
  world : σ
  start : Nat

inductive WriteExit
  | finished
  | blocked
  | failed
  | outside
  deriving DecidableEq, Repr

def writeStep (sock : Socket σ) (b : Buffer) (s : WriteState σ) :
    WriteState σ ⊕ WriteExit × WriteState σ :=
  match readAt b.buffer s.start b.end_ with
  | none => .inr (.outside, s)
  | some bytes =>
    let toBeWrite := sizeSub b.end_ s.start
    match sock.send s.world bytes with
    | (.failed errno, world) =>
      if errno ≠ EAGAIN ∧ errno ≠ EWOULDBLOCK then .inr (.failed, { s with world })
      else .inr (.blocked, { s with world })
    | (.sent size, world) =>
      let s : WriteState σ := ⟨world, sizeAdd s.start size⟩
      if size = toBeWrite then .inr (.finished, s) else .inl s

def writeResponse (fuel : Nat) (sock : Socket σ) (c : ConnectionInformation) (world : σ) :
    Option (Fate × σ) := do
  let (why, s) ← iterate (writeStep sock c.buffer) fuel ⟨world, c.buffer.start⟩
  let c := { c with buffer := { c.buffer with start := s.start } }
  match why with
  | .finished => some (.alive { c with state := .waitingRequest }, s.world)
  | .blocked => some (.alive c, s.world)
  | .failed => some (.destroyed, s.world)
  | .outside => some (.crashed, s.world)

def serve (fuel : Nat) (sock : Socket σ) (env : Environment) (globals : Globals)
    (c : ConnectionInformation) (world : σ) : Option (Call σ) :=
  let parsed := some c.buffer.window
  match httpRequestFromBuffer c.request (c.buffer.buffer.drop c.buffer.start ++ env.memory.behind)
      (c.buffer.end_ - c.buffer.start) with
  | none => some ⟨.crashed, world, globals, parsed, none, none⟩
  | some (code, request) =>
    if code = .incompleteRequest then
      some ⟨.alive { c with request }, world, globals, parsed, none, none⟩
    else
      match respond env globals c code request with
      | none => some ⟨.crashed, world, globals, parsed, none, none⟩
      | some (c, rendered, outcome) => do
        let (fate, world) ← writeResponse fuel sock c world
        some ⟨fate, world, outcome.globals, parsed, some rendered, outcome.opened⟩

/-- The fuel bounds the rounds of the receive loop and those of the send loop. -/
def handleConnection (fuel : Nat) (sock : Socket σ) (env : Environment) (globals : Globals)
    (event : Event) (c : ConnectionInformation) (world : σ) : Option (Call σ) :=
  let unchanged : Call σ := ⟨.alive c, world, globals, none, none, none⟩
  if event.epollin = false ∧ c.state = .waitingRequest then some unchanged
  else if event.epollout = false ∧ c.state = .writingResponse then some unchanged
  else
    match c.state with
    | .waitingRequest => do
      let (received, world) ← receive fuel sock env.memory c.buffer world
      match received with
      | .idle => some { unchanged with world }
      | .destroyed => some { unchanged with fate := .destroyed, world }
      | .crashed => some { unchanged with fate := .crashed, world }
      | .stored buffer => serve fuel sock env globals { c with buffer } world
    | .writingResponse => do
      let (fate, world) ← writeResponse fuel sock c world
      some { unchanged with fate, world }

section Calls

variable (fuel : Nat) (sock : Socket σ) (env : Environment) (globals : Globals)
  (c : ConnectionInformation) (world : σ)

def parseWindow : Option (HttpErrorCode × HttpRequest) :=
  httpRequestFromBuffer c.request (c.buffer.buffer.drop c.buffer.start ++ env.memory.behind)
    (c.buffer.end_ - c.buffer.start)

inductive Serving : Call σ → Prop
  | unparsed : parseWindow env c = none →
      Serving ⟨.crashed, world, globals, some c.buffer.window, none, none⟩
  | incomplete {request : HttpRequest} : parseWindow env c = some (.incompleteRequest, request) →
      Serving ⟨.alive { c with request }, world, globals, some c.buffer.window, none, none⟩
  | unanswered {code : HttpErrorCode} {request : HttpRequest} :
      parseWindow env c = some (code, request) → code ≠ .incompleteRequest →
      respond env globals c code request = none →
      Serving ⟨.crashed, world, globals, some c.buffer.window, none, none⟩
  | answered {code : HttpErrorCode} {request : HttpRequest} {c₁ : ConnectionInformation}
      {rendered : List UInt8} {outcome : Outcome} {fate : Fate} {world' : σ} :
      parseWindow env c = some (code, request) → code ≠ .incompleteRequest →
      respond env globals c code request = some (c₁, rendered, outcome) →
      writeResponse fuel sock c₁ world = some (fate, world') →
      Serving ⟨fate, world', outcome.globals, some c.buffer.window, some rendered,
        outcome.opened⟩

inductive Calling : Call σ → Prop
  | skipped : Calling ⟨.alive c, world, globals, none, none, none⟩
  | idle {world' : σ} : c.state = .waitingRequest →
      receive fuel sock env.memory c.buffer world = some (.idle, world') →
      Calling ⟨.alive c, world', globals, none, none, none⟩
  | destroyed {world' : σ} : c.state = .waitingRequest →
      receive fuel sock env.memory c.buffer world = some (.destroyed, world') →
      Calling ⟨.destroyed, world', globals, none, none, none⟩
  | crashed {world' : σ} : c.state = .waitingRequest →
      receive fuel sock env.memory c.buffer world = some (.crashed, world') →
      Calling ⟨.crashed, world', globals, none, none, none⟩
  | served {buffer : Buffer} {world' : σ} {call : Call σ} : c.state = .waitingRequest →
      receive fuel sock env.memory c.buffer world = some (.stored buffer, world') →
      Serving fuel sock env globals { c with buffer } world' call → Calling call
  | written {fate : Fate} {world' : σ} : c.state = .writingResponse →
      writeResponse fuel sock c world = some (fate, world') →
      Calling ⟨fate, world', globals, none, none, none⟩

variable {fuel sock env globals c world} {call : Call σ}

theorem serving_of_serve (h : serve fuel sock env globals c world = some call) :
    Serving fuel sock env globals c world call := by
  rw [serve] at h
  split at h
  · rename_i hparse
    cases h
    exact .unparsed hparse
  · rename_i code request hparse
    split at h
    · rename_i hcode
      cases h
      exact .incomplete (hcode ▸ hparse)
    · rename_i hcode
      split at h
      · rename_i hrespond
        cases h
        exact .unanswered hparse hcode hrespond
      · rename_i hrespond
        obtain ⟨⟨fate, world'⟩, hwrite, h⟩ := Option.bind_eq_some_iff.mp h
        cases h
        exact .answered hparse hcode hrespond hwrite

theorem calling_of_handleConnection {event : Event}
    (h : handleConnection fuel sock env globals event c world = some call) :
    Calling fuel sock env globals c world call := by
  rw [handleConnection] at h
  split at h
  · cases h
    exact .skipped
  split at h
  · cases h
    exact .skipped
  split at h
  · rename_i hstate
    obtain ⟨⟨received, world'⟩, hreceive, h⟩ := Option.bind_eq_some_iff.mp h
    cases received with
    | idle =>
      cases h
      exact .idle hstate hreceive
    | destroyed =>
      cases h
      exact .destroyed hstate hreceive
    | crashed =>
      cases h
      exact .crashed hstate hreceive
    | stored buffer => exact .served hstate hreceive (serving_of_serve h)
  · rename_i hstate
    obtain ⟨⟨fate, world'⟩, hwrite, h⟩ := Option.bind_eq_some_iff.mp h
    cases h
    exact .written hstate hwrite

theorem respond_cases {code : HttpErrorCode} {request : HttpRequest} {c' : ConnectionInformation}
    {rendered : List UInt8} {outcome : Outcome}
    (h : respond env globals c code request = some (c', rendered, outcome)) :
    answerRequest env.host globals c code request = some outcome ∧ c'.type = c.type ∧
      c'.state = .writingResponse := by
  obtain ⟨outcome', hanswer, h⟩ := Option.bind_eq_some_iff.mp h
  obtain ⟨parts, -, h⟩ := Option.bind_eq_some_iff.mp h
  cases h
  exact ⟨hanswer, rfl, rfl⟩

end Calls

end Hss.Connection
