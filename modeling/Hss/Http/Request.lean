import Hss.Http.Headers

namespace Hss.Request

open Hss.CString Hss.Headers

inductive HttpRequestMethod
  | get
  deriving DecidableEq, Repr

inductive HttpRequestState
  | initialized
  | parsed
  | invalid
  deriving DecidableEq, Repr

structure RequestStartLine where
  method : HttpRequestMethod
  httpVersion : Option (List UInt8)
  httpVersionLength : Nat
  url : Option (List UInt8)
  urlLength : Nat
  deriving DecidableEq, Repr

structure HttpRequest where
  state : HttpRequestState
  startLine : RequestStartLine
  headers : List Header
  body : Body
  deriving DecidableEq, Repr

/-- The method is the one field that initialization leaves alone. -/
def httpRequestInitialize (request : HttpRequest) : HttpRequest where
  state := .initialized
  startLine := ⟨request.startLine.method, none, 0, none, 0⟩
  headers := []
  body := ⟨none, 0⟩

def httpRequestDestroy (request : HttpRequest) : HttpRequest :=
  if request.state = .initialized then request
  else httpRequestInitialize { request with headers := [], body := destroyBody request.body }

/-- The return value with the object left behind; `none` is a read outside the
memory. -/
abbrev Return := Option (HttpErrorCode × HttpRequest)

abbrev Scan := Except Return

def triggerIncomplete {α : Type} (destination : HttpRequest) : Scan α :=
  .error (some (.incompleteRequest, { destination with state := .invalid }))

def triggerInvalid {α : Type} (destination : HttpRequest) : Scan α :=
  .error (some (.parseInvalidRequestSyntax, { destination with state := .invalid }))

inductive Scanned
  | fault
  | incomplete
  | index (i : Nat)
  deriving DecidableEq, Repr

def Scanned.orReturn (destination : HttpRequest) : Scanned → Scan Nat
  | .fault => .error none
  | .incomplete => triggerIncomplete destination
  | .index i => .ok i

/-- The memory from `end_` on is the first argument: whether the byte is blank
is tested before the index is compared with the length. -/
def skipWhitespaces (length : Nat) : List UInt8 → Nat → Scanned
  | [], _ => .fault
  | c :: rest, end_ =>
    if isspace c then
      if end_ + 1 = length then .incomplete else skipWhitespaces length rest (end_ + 1)
    else .index end_

def rangeNonBlank (memory : List UInt8) (length end_ : Nat) : Nat :=
  end_ + ((slice memory end_ length).takeWhile (!isspace ·)).length

def rangeLine (length : Nat) : List UInt8 → Nat → Scanned
  | c :: d :: rest, end_ =>
    if end_ + 1 < length then
      if c ≠ 13 ∨ d ≠ 10 then rangeLine length (d :: rest) (end_ + 1) else .index end_
    else .incomplete
  | _, end_ => if end_ + 1 < length then .fault else .incomplete

def parseMethod (destination : HttpRequest) (memory : List UInt8) (length : Nat) :
    Scan (HttpRequest × Nat) := do
  let start := 0
  let end_ := rangeNonBlank memory length 0
  if strncmp (ascii "GET") memory (end_ - start) ≠ .eq then
    .error (some (.unsupportedMethod, destination))
  else
    let destination := { destination with startLine := { destination.startLine with method := .get } }
    let end_ ← (skipWhitespaces length (memory.drop end_) end_).orReturn destination
    .ok (destination, end_)

def parseUrl (destination : HttpRequest) (memory : List UInt8) (length start : Nat) :
    Scan (HttpRequest × Nat) := do
  let end_ := rangeNonBlank memory length start
  if start = end_ then triggerIncomplete destination
  else
    let destination := { destination with
      startLine := { destination.startLine with
        urlLength := end_ - start
        url := some (slice memory start end_) } }
    let end_ ← (skipWhitespaces length (memory.drop end_) end_).orReturn destination
    .ok (destination, end_)

def parseHttpVersion (destination : HttpRequest) (memory : List UInt8) (length start : Nat) :
    Scan (HttpRequest × Nat) :=
  let end_ := rangeNonBlank memory length start
  if start = end_ then triggerIncomplete destination
  else
    let destination := { destination with
      startLine := { destination.startLine with
        httpVersionLength := end_ - start
        httpVersion := some (slice memory start end_) } }
    if end_ + 1 ≥ length then triggerIncomplete destination
    else if memory[end_]? ≠ some 13 ∨ memory[end_ + 1]? ≠ some 10 then triggerInvalid destination
    else .ok (destination, end_ + 2)

/-- One header line; the search for the colon is not bounded by its end. -/
def parseHeader (destination : HttpRequest) (memory : List UInt8) (start end_ : Nat) :
    Scan HttpRequest :=
  match strchr 58 (memory.drop start) start with
  | none => .error none
  | some none => triggerInvalid destination
  | some (some colon) =>
    if (slice memory start colon).any isspace then triggerInvalid destination
    else
      let keyEnd := colon
      let valueStart := keyEnd + 1 + ((slice memory (keyEnd + 1) end_).takeWhile isspace).length
      let valueEnd := end_ - ((slice memory valueStart end_).reverse.takeWhile isspace).length
      if valueStart = valueEnd then triggerInvalid destination
      else
        let header : Header :=
          { key := slice memory start keyEnd, value := slice memory valueStart valueEnd }
        match insertHeader destination.headers header with
        | (.succeed, headers) => .ok { destination with headers }
        | (result, _) => .error (some (result, { destination with state := .invalid }))

/-- Every round passes at least a line end, so that as much fuel as there are
bytes is enough. -/
def parseHeaders (memory : List UInt8) (length : Nat) :
    Nat → HttpRequest → Nat → Scan (HttpRequest × Nat)
  | 0, _, _ => .error none
  | fuel + 1, destination, start => do
    let end_ ← (rangeLine length (memory.drop start) start).orReturn destination
    if start = end_ then .ok (destination, end_ + 2)
    else
      let destination ← parseHeader destination memory start end_
      parseHeaders memory length fuel destination (end_ + 2)

def parseRequest (destination : HttpRequest) (memory : List UInt8) (length : Nat) :
    Scan HttpRequest := do
  let (destination, start) ← parseMethod destination memory length
  let (destination, start) ← parseUrl destination memory length start
  let (destination, start) ← parseHttpVersion destination memory length start
  let (destination, end_) ← parseHeaders memory length length destination start
  if end_ ≠ length then triggerInvalid destination
  else .ok { destination with state := .parsed }

/-- `memory` is what lies at and behind `buffer`; its first `length` bytes are
the buffer. -/
def httpRequestFromBuffer (destination : HttpRequest) (memory : List UInt8) (length : Nat) :
    Return :=
  let destination :=
    if destination.state ≠ .initialized then httpRequestDestroy destination else destination
  match parseRequest destination memory length with
  | .error result => result
  | .ok destination => some (.succeed, destination)

def httpRequestGetMethod (request : HttpRequest) : Except HttpErrorCode HttpRequestMethod :=
  if request.state ≠ .parsed then .error .requestNoValidData else .ok request.startLine.method

def httpRequestGetUrl (request : HttpRequest) (buffer : Option Nat) :
    HttpErrorCode × List UInt8 × Nat :=
  if request.state ≠ .parsed then (.requestNoValidData, [], buffer.getD 0)
  else
    match buffer with
    | none => (.succeed, [], request.startLine.urlLength + 1)
    | some length =>
      if length < request.startLine.urlLength + 1 then
        (.insufficientBufferSize, [], request.startLine.urlLength + 1)
      else (.succeed, cstr (request.startLine.url.getD []), request.startLine.urlLength)

def findHeader (headers : List Header) (name : List UInt8) : Option Header :=
  (headers.dropWhile fun h => strcmp h.key name = .lt).head?.filter
    fun h => strcmp h.key name = .eq

def httpRequestGetHeader (request : HttpRequest) (name : List UInt8) (buffer : Option Nat) :
    HttpErrorCode × List UInt8 × Nat :=
  if request.state ≠ .parsed then (.requestNoValidData, [], buffer.getD 0)
  else
    match findHeader request.headers name with
    | none => (.noSuchHeader, [], buffer.getD 0)
    | some header =>
      let valueLength := strlen header.value
      match buffer with
      | none => (.succeed, [], valueLength + 1)
      | some length =>
        if length < valueLength + 1 then (.insufficientBufferSize, [], valueLength + 1)
        else (.succeed, cstr header.value, valueLength)

theorem findHeader_eq_some {headers : List Header} (h : Ordered headers) {name : List UInt8}
    {e : Header} : findHeader headers name = some e ↔ e ∈ headers ∧ keyOf e = cstr name :=
  lookupHeader_target_eq h

end Hss.Request
