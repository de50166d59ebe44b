import Hss.Http.Acceptance
import Hss.Http.BlockParse
import Hss.Http.HeaderHeap
import Hss.Lib.Simulation

namespace Hss.RequestHeap

open Hss.CString Hss.Headers Hss.Request Hss.Heap Hss.HeaderHeap Hss.Simulation

structure Object where
  state : HttpRequestState
  method : HttpRequestMethod
  httpVersion : Option Address
  httpVersionLength : Nat
  url : Option Address
  urlLength : Nat
  headerList : Option Address
  body : Option Address
  bodyLength : Nat

structure State where
  object : Object
  heap : Blocks Block

def httpRequestInitialize (object : Object) : Object where
  state := .initialized
  method := object.method
  httpVersion := none
  httpVersionLength := 0
  url := none
  urlLength := 0
  headerList := none
  body := none
  bodyLength := 0

def httpRequestDestroy (s : State) : Option State :=
  if s.object.state = .initialized then some s
  else do
    let heap ← free s.object.httpVersion s.heap
    let heap ← free s.object.url heap
    let headers ← destroyHeaders ⟨s.object.headerList, heap⟩
    let heap ← free s.object.body headers.heap
    some ⟨httpRequestInitialize s.object, heap⟩

abbrev Return := Option (HttpErrorCode × State)

abbrev Scan := Except Return

def triggerIncomplete {α : Type} (s : State) : Scan α :=
  .error (some (.incompleteRequest, { s with object := { s.object with state := .invalid } }))

def triggerInvalid {α : Type} (s : State) : Scan α :=
  .error (some (.parseInvalidRequestSyntax, { s with object := { s.object with state := .invalid } }))

def orReturn (s : State) : Scanned → Scan Nat
  | .fault => .error none
  | .incomplete => triggerIncomplete s
  | .index i => .ok i

def parseMethod (s : State) (memory : List UInt8) (length : Nat) : Scan (State × Nat) := do
  let start := 0
  let end_ := rangeNonBlank memory length 0
  if strncmp (ascii "GET") memory (end_ - start) ≠ .eq then
    .error (some (.unsupportedMethod, s))
  else
    let s := { s with object := { s.object with method := .get } }
    let end_ ← orReturn s (skipWhitespaces length (memory.drop end_) end_)
    .ok (s, end_)

def parseUrl (alloc : Allocator Block) (s : State) (memory : List UInt8) (length start : Nat) :
    Scan (State × Nat) := do
  let end_ := rangeNonBlank memory length start
  if start = end_ then triggerIncomplete s
  else
    let (url, heap) := malloc alloc (.text (slice memory start end_)) s.heap
    let s : State := ⟨{ s.object with urlLength := end_ - start, url := some url }, heap⟩
    let end_ ← orReturn s (skipWhitespaces length (memory.drop end_) end_)
    .ok (s, end_)

def parseHttpVersion (alloc : Allocator Block) (s : State) (memory : List UInt8)
    (length start : Nat) : Scan (State × Nat) :=
  let end_ := rangeNonBlank memory length start
  if start = end_ then triggerIncomplete s
  else
    let (httpVersion, heap) := malloc alloc (.text (slice memory start end_)) s.heap
    let s : State := ⟨{ s.object with
      httpVersionLength := end_ - start
      httpVersion := some httpVersion }, heap⟩
    if end_ + 1 ≥ length then triggerIncomplete s
    else if memory[end_]? ≠ some 13 ∨ memory[end_ + 1]? ≠ some 10 then triggerInvalid s
    else .ok (s, end_ + 2)

def takeHeader (alloc : Allocator Block) (s : State) (header : Header) : Scan State :=
  match (newHeader alloc header s.heap).bind fun new =>
    insertHeader ⟨s.object.headerList, new.2⟩ new.1 with
  | none => .error none
  | some (result, headers) =>
    let s : State := ⟨{ s.object with headerList := headers.headerList }, headers.heap⟩
    if result ≠ .succeed then
      .error (some (result, { s with object := { s.object with state := .invalid } }))
    else .ok s

def parseHeader (alloc : Allocator Block) (s : State) (memory : List UInt8) (start end_ : Nat) :
    Scan State :=
  match strchr 58 (memory.drop start) start with
  | none => .error none
  | some none => triggerInvalid s
  | some (some colon) =>
    if (slice memory start colon).any isspace then triggerInvalid s
    else
      let keyEnd := colon
      let valueStart := keyEnd + 1 + ((slice memory (keyEnd + 1) end_).takeWhile isspace).length
      let valueEnd := end_ - ((slice memory valueStart end_).reverse.takeWhile isspace).length
      if valueStart = valueEnd then triggerInvalid s
      else takeHeader alloc s ⟨slice memory start keyEnd, slice memory valueStart valueEnd⟩

def parseHeaders (alloc : Allocator Block) (memory : List UInt8) (length : Nat) :
    Nat → State → Nat → Scan (State × Nat)
  | 0, _, _ => .error none
  | fuel + 1, s, start => do
    let end_ ← orReturn s (rangeLine length (memory.drop start) start)
    if start = end_ then .ok (s, end_ + 2)
    else
      let s ← parseHeader alloc s memory start end_
      parseHeaders alloc memory length fuel s (end_ + 2)

def parseRequest (alloc : Allocator Block) (s : State) (memory : List UInt8) (length : Nat) :
    Scan State := do
  let (s, start) ← parseMethod s memory length
  let (s, start) ← parseUrl alloc s memory length start
  let (s, start) ← parseHttpVersion alloc s memory length start
  let (s, end_) ← parseHeaders alloc memory length length s start
  if end_ ≠ length then triggerInvalid s
  else .ok { s with object := { s.object with state := .parsed } }

def httpRequestFromBuffer (alloc : Allocator Block) (s : State) (memory : List UInt8)
    (length : Nat) : Return :=
  (if s.object.state ≠ .initialized then httpRequestDestroy s else some s).bind fun s =>
    match parseRequest alloc s memory length with
    | .error result => result
    | .ok s => some (.succeed, s)

abbrev Handed := Option (HttpErrorCode × List UInt8 × Nat)

def httpRequestGetUrl (s : State) (buffer : Option Nat) : Handed :=
  if s.object.state ≠ .parsed then some (.requestNoValidData, [], buffer.getD 0)
  else
    match buffer with
    | none => some (.succeed, [], s.object.urlLength + 1)
    | some length =>
      if length < s.object.urlLength + 1 then
        some (.insufficientBufferSize, [], s.object.urlLength + 1)
      else (textAt s.heap s.object.url).map fun url => (.succeed, cstr url, s.object.urlLength)

def httpRequestGetHeader (s : State) (name : List UInt8) (buffer : Option Nat) : Handed :=
  if s.object.state ≠ .parsed then some (.requestNoValidData, [], buffer.getD 0)
  else do
    match ← HeaderHeap.findHeader ⟨s.object.headerList, s.heap⟩ name with
    | none => some (.noSuchHeader, [], buffer.getD 0)
    | some header =>
      let value ← valueAt s.heap header
      let valueLength := strlen value
      match buffer with
      | none => some (.succeed, [], valueLength + 1)
      | some length =>
        if length < valueLength + 1 then some (.insufficientBufferSize, [], valueLength + 1)
        else some (.succeed, cstr value, valueLength)

/-- The object stands for a request; its blocks are the given ones. -/
structure Represents (o : Object) (r : HttpRequest) (cells : List Cell) : Prop where
  state : o.state = r.state
  method : o.method = r.startLine.method
  httpVersionLength : o.httpVersionLength = r.startLine.httpVersionLength
  urlLength : o.urlLength = r.startLine.urlLength
  bodyLength : o.bodyLength = r.body.length
  blocks : ∃ version url headers body, cells = version ++ (url ++ (headers ++ body)) ∧
    Owned o.httpVersion r.startLine.httpVersion version ∧ Owned o.url r.startLine.url url ∧
    Linked o.headerList r.headers headers ∧ Owned o.body r.body.body body

/-- The memory consists of the blocks of the object, which stands for the request, and
of the rest. -/
def Tracks (rest : List Cell) (r : HttpRequest) (s : State) : Prop :=
  ∃ cells, Represents s.object r cells ∧ Holds s.heap (cells ++ rest)

def abandoned (code : HttpErrorCode) : Nat := if code = .duplicateHeaderKey then 3 else 0

/-- The same code, and objects that agree, beside the blocks that nobody owns any more. -/
def Returns (rest : List Cell) (v : HttpErrorCode × HttpRequest) (s : HttpErrorCode × State) :
    Prop :=
  s.1 = v.1 ∧ ∃ lost, lost.length = abandoned v.1 ∧ Tracks (lost ++ rest) v.2 s.2

variable {alloc : Allocator Block} {rest : List Cell} {r : HttpRequest} {s : State}
  {memory : List UInt8} {length start end_ : Nat}

theorem Tracks.withState (h : Tracks rest r s) (state : HttpRequestState) :
    Tracks rest { r with state } { s with object := { s.object with state } } := by
  obtain ⟨cells, hrep, hholds⟩ := h
  exact ⟨cells, ⟨rfl, hrep.method, hrep.httpVersionLength, hrep.urlLength, hrep.bodyLength,
    hrep.blocks⟩, hholds⟩

theorem Tracks.returns (h : Tracks rest r s) {code : HttpErrorCode}
    (hcode : code ≠ .duplicateHeaderKey) : Returns rest (code, r) (code, s) :=
  ⟨rfl, [], (if_neg hcode).symm, h⟩

abbrev Same {α β : Type} (rest : List Cell) (Result : α → β → Prop) :
    Request.Scan α → Scan β → Prop :=
  Simulates (Option.Rel (Returns rest)) Result

section Returning

variable {α β : Type} {Result : α → β → Prop}

theorem same_incomplete (h : Tracks rest r s) :
    Same rest Result (Request.triggerIncomplete r) (triggerIncomplete s) :=
  .error (.some ((h.withState .invalid).returns HttpErrorCode.noConfusion))

theorem same_invalid (h : Tracks rest r s) :
    Same rest Result (Request.triggerInvalid r) (triggerInvalid s) :=
  .error (.some ((h.withState .invalid).returns HttpErrorCode.noConfusion))

theorem same_orReturn (h : Tracks rest r s) (scanned : Scanned) :
    Same rest (fun i j => j = i) (scanned.orReturn r) (orReturn s scanned) := by
  cases scanned with
  | fault => exact .error .none
  | incomplete => exact same_incomplete h
  | index i => exact .ok rfl

end Returning

def At (rest : List Cell) (v : HttpRequest × Nat) (s : State × Nat) : Prop :=
  s.2 = v.2 ∧ Tracks rest v.1 s.1

theorem same_parseMethod (h : Tracks rest r s) :
    Same rest (fun v s => At rest v s ∧ v.1.startLine.url = r.startLine.url ∧
        v.1.startLine.httpVersion = r.startLine.httpVersion)
      (Request.parseMethod r memory length) (parseMethod s memory length) := by
  rw [Request.parseMethod, parseMethod]
  by_cases hget : strncmp (ascii "GET") memory (rangeNonBlank memory length 0 - 0) = .eq
  · have hmethod : Tracks rest { r with startLine := { r.startLine with method := .get } }
        { s with object := { s.object with method := .get } } := by
      obtain ⟨cells, hrep, hholds⟩ := h
      exact ⟨cells, ⟨hrep.state, rfl, hrep.httpVersionLength, hrep.urlLength, hrep.bodyLength,
        hrep.blocks⟩, hholds⟩
    simp only [hget, ne_eq, not_true_eq_false, if_false]
    refine (same_orReturn hmethod _).bind fun i j heq => ?_
    exact .ok ⟨⟨heq, hmethod⟩, rfl, rfl⟩
  · simp only [hget, ne_eq, not_false_eq_true, if_true]
    exact .error (.some (h.returns HttpErrorCode.noConfusion))

theorem Tracks.setUrl (h : Tracks rest r s) (alloc : Allocator Block)
    (hurl : r.startLine.url = none) (contents : List UInt8) (urlLength : Nat) :
    ∃ a heap, malloc alloc (.text contents) s.heap = (a, heap) ∧
      Tracks rest { r with startLine := { r.startLine with urlLength, url := some contents } }
        ⟨{ s.object with urlLength, url := some a }, heap⟩ := by
  obtain ⟨cells, hrep, hholds⟩ := h
  obtain ⟨version, url, headers, body, rfl, hversion, howned, hheaders, hbody⟩ := hrep.blocks
  rw [hurl] at howned
  obtain ⟨-, rfl⟩ := howned.of_none
  obtain ⟨a, heap, hmalloc, hheld⟩ := hholds.malloc alloc (.text contents)
  refine ⟨a, heap, hmalloc, _, ⟨hrep.state, hrep.method, hrep.httpVersionLength, rfl,
    hrep.bodyLength, version, [(a, .text contents)], headers, body, rfl, hversion,
    .block a contents, hheaders, hbody⟩, hheld.perm ?_⟩
  simp only [List.append_assoc, List.nil_append, List.cons_append]
  exact List.perm_middle.symm

theorem Tracks.setHttpVersion (h : Tracks rest r s) (alloc : Allocator Block)
    (hversion : r.startLine.httpVersion = none) (contents : List UInt8) (httpVersionLength : Nat) :
    ∃ a heap, malloc alloc (.text contents) s.heap = (a, heap) ∧
      Tracks rest
        { r with startLine := { r.startLine with
          httpVersionLength, httpVersion := some contents } }
        ⟨{ s.object with httpVersionLength, httpVersion := some a }, heap⟩ := by
  obtain ⟨cells, hrep, hholds⟩ := h
  obtain ⟨version, url, headers, body, rfl, howned, hurl, hheaders, hbody⟩ := hrep.blocks
  rw [hversion] at howned
  obtain ⟨-, rfl⟩ := howned.of_none
  obtain ⟨a, heap, hmalloc, hheld⟩ := hholds.malloc alloc (.text contents)
  exact ⟨a, heap, hmalloc, _, ⟨hrep.state, hrep.method, rfl, hrep.urlLength, hrep.bodyLength,
    [(a, .text contents)], url, headers, body, rfl, .block a contents, hurl, hheaders, hbody⟩, hheld⟩

theorem same_parseUrl (h : Tracks rest r s) (hurl : r.startLine.url = none) :
    Same rest (fun v s => At rest v s ∧ v.1.startLine.httpVersion = r.startLine.httpVersion)
      (Request.parseUrl r memory length start) (parseUrl alloc s memory length start) := by
  rw [Request.parseUrl, parseUrl]
  by_cases hempty : start = rangeNonBlank memory length start
  · rw [if_pos hempty, if_pos hempty]
    exact same_incomplete h
  · rw [if_neg hempty, if_neg hempty]
    obtain ⟨a, heap, hmalloc, htracks⟩ := h.setUrl alloc hurl
      (slice memory start (rangeNonBlank memory length start))
      (rangeNonBlank memory length start - start)
    simp only [hmalloc]
    refine (same_orReturn htracks _).bind fun i j heq => ?_
    exact .ok ⟨⟨heq, htracks⟩, rfl⟩

theorem same_parseHttpVersion (h : Tracks rest r s) (hversion : r.startLine.httpVersion = none) :
    Same rest (At rest) (Request.parseHttpVersion r memory length start)
      (parseHttpVersion alloc s memory length start) := by
  rw [Request.parseHttpVersion, parseHttpVersion]
  by_cases hempty : start = rangeNonBlank memory length start
  · simp only [if_pos hempty]
    exact same_incomplete h
  · obtain ⟨a, heap, hmalloc, htracks⟩ := h.setHttpVersion alloc hversion
      (slice memory start (rangeNonBlank memory length start))
      (rangeNonBlank memory length start - start)
    simp only [if_neg hempty, hmalloc]
    by_cases hshort : rangeNonBlank memory length start + 1 ≥ length
    · simp only [if_pos hshort]
      exact same_incomplete htracks
    · simp only [if_neg hshort]
      split
      · exact same_invalid htracks
      · exact .ok ⟨rfl, htracks⟩

/-- A header is taken into the list, or its three blocks are left without an owner. -/
theorem same_takeHeader (h : Tracks rest r s) (header : Header) :
    Same rest (Tracks rest)
      (match Headers.insertHeader r.headers header with
        | (.succeed, headers) => .ok { r with headers }
        | (result, _) => .error (some (result, { r with state := .invalid })))
      (takeHeader alloc s header) := by
  obtain ⟨cells, hrep, hholds⟩ := h
  obtain ⟨version, url, headers, body, rfl, hversion, hurl, hheaders, hbody⟩ := hrep.blocks
  obtain ⟨a, key, value, heap, hnew, hheld⟩ := newHeader_spec hholds alloc header
  have hbeside : Holds heap
      (headers ++ (node a key value none header ++ (version ++ url ++ body ++ rest))) := by
    refine hheld.perm (List.perm_iff_count.mpr fun c => ?_)
    simp only [List.count_append]
    omega
  obtain ⟨m, hinsert, hcases⟩ :=
    insertHeader_spec (m := ⟨s.object.headerList, heap⟩) hheaders hbeside
  have hrep' : ∀ {object : Object} {headerList headers' cells'}, object = { s.object with headerList } →
      Linked headerList headers' cells' →
      Represents object { r with headers := headers' } (version ++ (url ++ (cells' ++ body))) := by
    rintro _ headerList headers' cells' rfl hlinked
    exact ⟨hrep.state, hrep.method, hrep.httpVersionLength, hrep.urlLength, hrep.bodyLength,
      version, url, cells', body, rfl, hversion, hurl, hlinked, hbody⟩
  simp only [takeHeader, hnew, Option.bind_some, hinsert]
  cases htarget : (Headers.lookupHeader r.headers header.key).target with
  | some e =>
    rw [insertHeader_of_target htarget] at hcases ⊢
    obtain ⟨-, rfl⟩ | ⟨hsucceed, -⟩ := hcases
    · have hkept : Tracks (node a key value none header ++ rest) r ⟨s.object, heap⟩ := by
        refine ⟨_, hrep, hheld.perm (List.perm_iff_count.mpr fun c => ?_)⟩
        simp only [List.count_append]
        omega
      exact .error (.some ⟨rfl, node a key value none header, rfl, hkept.withState .invalid⟩)
    · cases hsucceed
  | none =>
    rw [insertHeader_of_not_target htarget] at hcases ⊢
    obtain ⟨hne, -⟩ | ⟨-, cells', hlinked, hheld'⟩ := hcases
    · exact absurd rfl hne
    · refine .ok ⟨_, hrep' rfl hlinked, hheld'.perm (List.perm_iff_count.mpr fun c => ?_)⟩
      simp only [List.count_append]
      omega

theorem same_parseHeader (h : Tracks rest r s) :
    Same rest (Tracks rest) (Request.parseHeader r memory start end_)
      (parseHeader alloc s memory start end_) := by
  rw [Request.parseHeader, parseHeader]
  rcases strchr 58 (memory.drop start) start with _ | _ | colon
  · exact .error .none
  · exact same_invalid h
  · dsimp only
    split
    · exact same_invalid h
    · split
      · exact same_invalid h
      · exact same_takeHeader h _

theorem same_parseHeaders (fuel : Nat) (h : Tracks rest r s) :
    Same rest (At rest) (Request.parseHeaders memory length fuel r start)
      (parseHeaders alloc memory length fuel s start) := by
  induction fuel generalizing r s start with
  | zero => exact .error .none
  | succ fuel ih =>
    rw [Request.parseHeaders, parseHeaders]
    refine (same_orReturn h _).bind fun i j heq => ?_
    subst heq
    split
    · exact .ok ⟨rfl, h⟩
    · exact (same_parseHeader h).bind fun r' s' h' => ih h'

theorem same_parseRequest (h : Tracks rest r s) (hurl : r.startLine.url = none)
    (hversion : r.startLine.httpVersion = none) :
    Same rest (Tracks rest) (Request.parseRequest r memory length)
      (parseRequest alloc s memory length) := by
  rw [Request.parseRequest, parseRequest]
  refine (same_parseMethod h).bind ?_
  rintro ⟨r₁, i₁⟩ ⟨s₁, j₁⟩ ⟨⟨rfl, h₁⟩, hurl₁, hversion₁⟩
  refine (same_parseUrl h₁ (hurl₁.trans hurl)).bind ?_
  rintro ⟨r₂, i₂⟩ ⟨s₂, j₂⟩ ⟨⟨rfl, h₂⟩, hversion₂⟩
  refine (same_parseHttpVersion h₂ (hversion₂.trans (hversion₁.trans hversion))).bind ?_
  rintro ⟨r₃, i₃⟩ ⟨s₃, j₃⟩ ⟨rfl, h₃⟩
  refine (same_parseHeaders length h₃).bind ?_
  rintro ⟨r₄, i₄⟩ ⟨s₄, j₄⟩ ⟨rfl, h₄⟩
  dsimp only
  split
  · exact same_invalid h₄
  · exact .ok (h₄.withState .parsed)

theorem Tracks.destroy (h : Tracks rest r s) :
    ∃ s', httpRequestDestroy s = some s' ∧ Tracks rest (Request.httpRequestDestroy r) s' := by
  obtain ⟨cells, hrep, hholds⟩ := h
  rw [httpRequestDestroy, Request.httpRequestDestroy, hrep.state]
  by_cases hstate : r.state = .initialized
  · rw [if_pos hstate, if_pos hstate]
    exact ⟨s, rfl, cells, hrep, hholds⟩
  · rw [if_neg hstate, if_neg hstate]
    obtain ⟨version, url, headers, body, rfl, hversion, hurl, hheaders, hbody⟩ := hrep.blocks
    simp only [List.append_assoc] at hholds
    obtain ⟨heap₁, hfree₁, h₁⟩ := hversion.free hholds
    obtain ⟨heap₂, hfree₂, h₂⟩ := hurl.free h₁
    obtain ⟨heap₃, hdestroy, h₃⟩ :=
      destroyHeaders_spec (m := ⟨s.object.headerList, heap₂⟩) hheaders h₂
    obtain ⟨heap₄, hfree₄, h₄⟩ := hbody.free h₃
    refine ⟨⟨httpRequestInitialize s.object, heap₄⟩, ?_, [], ?_, h₄⟩
    · simp only [hfree₁, hfree₂, hdestroy, hfree₄, Option.bind_eq_bind, Option.bind_some]
    · exact ⟨rfl, hrep.method, rfl, rfl, rfl, [], [], [], [], rfl, .null, .null,
        ⟨.headerList, .nil _ none⟩, .null⟩

theorem fromBuffer_refines (h : Tracks rest r s) (hclean : Refinement.Clean r) :
    Option.Rel (Returns rest) (Request.httpRequestFromBuffer r memory length)
      (httpRequestFromBuffer alloc s memory length) := by
  obtain ⟨s', hentry, htracks⟩ : ∃ s',
      (if s.object.state ≠ .initialized then httpRequestDestroy s else some s) = some s' ∧
        Tracks rest (Request.httpRequestInitialize r) s' := by
    rw [← Refinement.entry_eq hclean]
    have hstate : s.object.state = r.state := by
      obtain ⟨cells, hrep, -⟩ := h
      exact hrep.state
    by_cases hinitialized : r.state = .initialized
    · rw [hstate, if_neg (not_not.mpr hinitialized), if_neg (not_not.mpr hinitialized)]
      exact ⟨s, rfl, h⟩
    · rw [hstate, if_pos hinitialized, if_pos hinitialized]
      exact h.destroy
  have hparse : Same rest (Tracks rest) (Request.parseRequest (Request.httpRequestInitialize r)
      memory length) (parseRequest alloc s' memory length) := same_parseRequest htracks rfl rfl
  rw [Request.httpRequestFromBuffer, httpRequestFromBuffer, hentry, Refinement.entry_eq hclean]
  rw [Option.bind_some]
  generalize Request.parseRequest (Request.httpRequestInitialize r) memory length = parsed at hparse ⊢
  generalize parseRequest alloc s' memory length = parsed' at hparse ⊢
  cases hparse with
  | error he => exact he
  | ok hdone => exact .some (hdone.returns HttpErrorCode.noConfusion)

theorem getUrl_refines (h : Tracks rest r s)
    (hurl : r.state = .parsed → r.startLine.url ≠ none) (buffer : Option Nat) :
    httpRequestGetUrl s buffer = some (Request.httpRequestGetUrl r buffer) := by
  obtain ⟨cells, hrep, hholds⟩ := h
  obtain ⟨version, url, headers, body, rfl, -, howned, -, -⟩ := hrep.blocks
  unfold httpRequestGetUrl Request.httpRequestGetUrl
  rw [hrep.state, hrep.urlLength]
  by_cases hstate : r.state = .parsed
  · obtain ⟨contents, hcontents⟩ := Option.ne_none_iff_exists'.mp (hurl hstate)
    have hread : textAt s.heap s.object.url = some contents := by
      rw [hcontents] at howned
      generalize s.object.url = p at howned ⊢
      cases howned with
      | block a =>
        refine textAt_text (hholds.load ?_)
        simp
    simp only [hstate, ne_eq, not_true_eq_false, if_false, hread, Option.map_some, hcontents,
      Option.getD_some]
    cases buffer with
    | none => rfl
    | some length =>
      dsimp only
      split <;> rfl
  · simp only [hstate, ne_eq, not_false_eq_true, if_true]

theorem getHeader_refines (h : Tracks rest r s) (name : List UInt8) (buffer : Option Nat) :
    httpRequestGetHeader s name buffer = some (Request.httpRequestGetHeader r name buffer) := by
  obtain ⟨cells, hrep, hholds⟩ := h
  obtain ⟨version, url, headers, body, rfl, -, -, hlinked, -⟩ := hrep.blocks
  unfold httpRequestGetHeader Request.httpRequestGetHeader
  rw [hrep.state]
  by_cases hstate : r.state = .parsed
  · have hfront : Holds s.heap (headers ++ (version ++ url ++ body ++ rest)) := by
      refine hholds.perm (List.perm_iff_count.mpr fun c => ?_)
      simp only [List.count_append]
      omega
    obtain ⟨found, hfind, hfound⟩ :=
      findHeader_spec (m := ⟨s.object.headerList, s.heap⟩) hlinked hfront name
    have htarget : Request.findHeader r.headers name =
        (Headers.lookupHeader r.headers name).target := rfl
    simp only [hstate, ne_eq, not_true_eq_false, if_false, hfind, htarget, Option.bind_eq_bind,
      Option.bind_some]
    generalize (Headers.lookupHeader r.headers name).target = target at hfound
    cases hfound with
    | none => rfl
    | some hvalue =>
      simp only [hvalue, Option.bind_some]
      cases buffer with
      | none => rfl
      | some length =>
        dsimp only
        split <;> rfl
  · simp only [hstate, ne_eq, not_false_eq_true, if_true]

inductive Operation
  | fromBuffer (input : List UInt8)
  | getUrl (buffer : Option Nat)
  | getHeader (name : List UInt8) (buffer : Option Nat)
  | destroy

abbrev Reply := HttpErrorCode × List UInt8 × Nat

def perform (r : HttpRequest) : Operation → Option (Reply × HttpRequest)
  | .fromBuffer input =>
    (Request.httpRequestFromBuffer r input input.length).map fun v => ((v.1, [], 0), v.2)
  | .getUrl buffer => some (Request.httpRequestGetUrl r buffer, r)
  | .getHeader name buffer => some (Request.httpRequestGetHeader r name buffer, r)
  | .destroy => some ((.succeed, [], 0), Request.httpRequestDestroy r)

def performAt (alloc : Allocator Block) (s : State) : Operation → Option (Reply × State)
  | .fromBuffer input =>
    (httpRequestFromBuffer alloc s input input.length).map fun v => ((v.1, [], 0), v.2)
  | .getUrl buffer => (httpRequestGetUrl s buffer).map (·, s)
  | .getHeader name buffer => (httpRequestGetHeader s name buffer).map (·, s)
  | .destroy => (httpRequestDestroy s).map ((.succeed, [], 0), ·)

def blockCount (r : HttpRequest) : Nat :=
  r.startLine.httpVersion.toList.length + r.startLine.url.toList.length + 3 * r.headers.length +
    r.body.body.toList.length

theorem Represents.length_eq {o : Object} {cells : List Cell} (h : Represents o r cells) :
    cells.length = blockCount r := by
  obtain ⟨version, url, headers, body, rfl, hversion, hurl, ⟨link, hheaders⟩, hbody⟩ := h.blocks
  simp only [blockCount, List.length_append, hversion.length_eq, hurl.length_eq,
    hheaders.length, hbody.length_eq]
  omega

theorem parsed_url (h : Acceptance.Reachable r) (hstate : r.state = .parsed) :
    r.startLine.url ≠ none := by
  cases h with
  | fresh block => cases hstate
  | @parse d _ code input tail hd hparse =>
    obtain ⟨text, -, he⟩ | ⟨-, hn | ⟨e, he, hidle⟩⟩ := Acceptance.fromBuffer_cases hd.clean input tail
    · cases hparse.symm.trans he
      exact Option.some_ne_none _
    · cases hparse.symm.trans hn.1
    · cases hparse.symm.trans he
      exact absurd hstate hidle.1
  | @destroy d hd =>
    rw [Request.httpRequestDestroy] at hstate
    split at hstate
    · rename_i hinitialized
      cases hinitialized.symm.trans hstate
    · cases hstate

theorem getUrl_code (r : HttpRequest) (buffer : Option Nat) :
    (Request.httpRequestGetUrl r buffer).1 ≠ .duplicateHeaderKey := by
  unfold Request.httpRequestGetUrl
  split
  · exact HttpErrorCode.noConfusion
  · split
    · exact HttpErrorCode.noConfusion
    · split <;> exact HttpErrorCode.noConfusion

theorem getHeader_code (r : HttpRequest) (name : List UInt8) (buffer : Option Nat) :
    (Request.httpRequestGetHeader r name buffer).1 ≠ .duplicateHeaderKey := by
  unfold Request.httpRequestGetHeader
  split
  · exact HttpErrorCode.noConfusion
  · split
    · exact HttpErrorCode.noConfusion
    · split
      · exact HttpErrorCode.noConfusion
      · dsimp only
        split <;> exact HttpErrorCode.noConfusion

def duplicates (replies : List Reply) : Nat :=
  replies.countP fun reply => reply.1 = .duplicateHeaderKey

/-- The object has been used with these replies, beside the other blocks of the program:
what nobody owns any more are three blocks for each refusal. -/
def Used (others : List Cell) (replies : List Reply) (r : HttpRequest) (s : State) : Prop :=
  Acceptance.Reachable r ∧ ∃ lost, lost.length = 3 * duplicates replies ∧
    Tracks (lost ++ others) r s

theorem Used.next {others : List Cell} {replies : List Reply} {reply : Reply}
    {lost lost' : List Cell} (hreach : Acceptance.Reachable r)
    (hlost : lost.length = 3 * duplicates replies) (hlost' : lost'.length = abandoned reply.1)
    (h : Tracks (lost' ++ (lost ++ others)) r s) : Used others (replies ++ [reply]) r s := by
  refine ⟨hreach, lost' ++ lost, ?_, by rwa [List.append_assoc]⟩
  have hcount : duplicates (replies ++ [reply]) = duplicates replies +
      if reply.1 = .duplicateHeaderKey then 1 else 0 := by
    rw [duplicates, List.countP_append, List.countP_singleton]
    simp only [decide_eq_true_eq, duplicates]
  rw [List.length_append, hlost, hlost', hcount, abandoned]
  split <;> omega

theorem Used.kept {others : List Cell} {replies : List Reply} {reply : Reply} {lost : List Cell}
    (hreach : Acceptance.Reachable r) (hlost : lost.length = 3 * duplicates replies)
    (hcode : reply.1 ≠ .duplicateHeaderKey) (h : Tracks (lost ++ others) r s) :
    Used others (replies ++ [reply]) r s := by
  have hnone : ([] : List Cell).length = abandoned reply.1 := (if_neg hcode).symm
  exact .next hreach hlost hnone h

theorem performAt_follows (alloc : Allocator Block) {others : List Cell} {replies : List Reply}
    (h : Used others replies r s) {operation : Operation} {reply : Reply} {r' : HttpRequest}
    (hrun : perform r operation = some (reply, r')) :
    ∃ s', performAt alloc s operation = some (reply, s') ∧
      Used others (replies ++ [reply]) r' s' := by
  obtain ⟨hreach, lost, hlost, htracks⟩ := h
  cases operation with
  | fromBuffer input =>
    obtain ⟨⟨code, r₁⟩, hparse, heq⟩ := Option.map_eq_some_iff.mp hrun
    cases heq
    have hrel := @fromBuffer_refines alloc _ r s input input.length htracks hreach.clean
    rw [hparse] at hrel
    rw [performAt]
    generalize httpRequestFromBuffer alloc s input input.length = w at hrel ⊢
    cases hrel with
    | @some _ w hreturns =>
      obtain ⟨hcode, lost', hlost', htracks'⟩ := hreturns
      have hparse' : Request.httpRequestFromBuffer r (input ++ []) input.length =
          some (code, r₁) := by
        rwa [List.append_nil]
      refine ⟨w.2, ?_, .next (.parse input [] hreach hparse') hlost hlost' htracks'⟩
      rw [Option.map_some, hcode]
  | getUrl buffer =>
    cases hrun
    refine ⟨s, ?_, .kept hreach hlost (getUrl_code r buffer) htracks⟩
    rw [performAt, getUrl_refines htracks (parsed_url hreach), Option.map_some]
  | getHeader name buffer =>
    cases hrun
    refine ⟨s, ?_, .kept hreach hlost (getHeader_code r name buffer) htracks⟩
    rw [performAt, getHeader_refines htracks, Option.map_some]
  | destroy =>
    cases hrun
    obtain ⟨s', hdestroy, htracks'⟩ := htracks.destroy
    refine ⟨s', ?_, .kept (.destroy hreach) hlost HttpErrorCode.noConfusion htracks'⟩
    rw [performAt, hdestroy, Option.map_some]

/-- What is parsed does not end where the parser runs off it. -/
def Operation.Inside : Operation → Prop
  | .fromBuffer input => ¬ Reads.RunsOff input
  | _ => True

theorem perform_defined {operation : Operation} (h : Acceptance.Reachable r)
    (hinside : operation.Inside) :
    ∃ v, perform r operation = some v ∧ Acceptance.Reachable v.2 := by
  cases operation with
  | fromBuffer input =>
    obtain ⟨code, e, hparse⟩ := BlockParse.exists_fromBuffer_block h.clean hinside
    have hparse' : Request.httpRequestFromBuffer r (input ++ []) input.length = some (code, e) := by
      rwa [List.append_nil]
    refine ⟨((code, [], 0), e), ?_, .parse input [] h hparse'⟩
    rw [perform, hparse, Option.map_some]
  | getUrl buffer => exact ⟨_, rfl, h⟩
  | getHeader name buffer => exact ⟨_, rfl, h⟩
  | destroy => exact ⟨_, rfl, .destroy h⟩

/-- As long as the parser does not run off what it is given, every sequence of uses is
performed over the heap, whatever the allocator does, and gives the replies of the request
the object stands for: no byte behind what is parsed is read, and no block is read, written
or freed that is not allocated. The other blocks stay as they are, and beside the blocks of
the object there remain three for every key refused as a duplicate. -/
theorem request_memory (alloc : Allocator Block) (block : Object) (d : HttpRequest)
    (heap : Blocks Block) {operations : List Operation}
    (hinside : ∀ operation ∈ operations, operation.Inside) :
    ∃ replies r s, performAll perform (Request.httpRequestInitialize d) operations =
        some (replies, r) ∧
      performAll (performAt alloc) ⟨httpRequestInitialize block, heap⟩ operations =
        some (replies, s) ∧
      (∀ a b, heap.lookup a = some b → s.heap.lookup a = some b) ∧
      s.heap.keys.card = heap.keys.card + blockCount r + 3 * duplicates replies ∧
      (r.state = .initialized → blockCount r = 0) := by
  obtain ⟨others, hothers⟩ := exists_holds heap
  have hmethod : block.method = d.startLine.method := by
    cases block.method
    cases d.startLine.method
    rfl
  have hstart : Used others [] (Request.httpRequestInitialize d)
      ⟨httpRequestInitialize block, heap⟩ :=
    ⟨.fresh d, [], rfl, [], ⟨rfl, hmethod, rfl, rfl, rfl, [], [], [], [], rfl, .null, .null,
      ⟨.headerList, .nil _ none⟩, .null⟩, hothers⟩
  obtain ⟨⟨replies, r⟩, hrun⟩ : ∃ v,
      performAll perform (Request.httpRequestInitialize d) operations = some v :=
    performAll_defined (fun _ _ => perform_defined) (Acceptance.Reachable.fresh d) hinside
  obtain ⟨s, hrunAt, hreach, lost, hlost, cells, hrep, hholds⟩ :=
    performAll_follows (R := Used others) (fun _ => True) hstart hrun (fun _ _ => trivial)
      fun _ _ _ _ _ _ h hop _ => performAt_follows alloc h hop
  refine ⟨replies, r, s, hrun, hrunAt, fun a b hmem => hholds.load ?_, ?_, fun hstate => ?_⟩
  · exact List.mem_append_right _ (List.mem_append_right _ ((hothers.lookup a b).mp hmem))
  · rw [hholds.card, hothers.card, List.length_append, List.length_append, hrep.length_eq, hlost,
      List.nil_append]
    omega
  · rw [hreach.clean hstate]
    rfl

def freshObject : Object := ⟨.initialized, .get, none, 0, none, 0, none, none, 0⟩

def refusedThenParsed : List Operation :=
  [.fromBuffer (ascii "GET / H\r\nA: b\r\nA: c\r\n\r\n"),
   .fromBuffer (ascii "GET / H\r\nA: b\r\n\r\n"), .getHeader (ascii "A") (some 9), .destroy]

/-- The refused header is still there at the end. -/
theorem request_memory_duplicate : ∃ replies s,
    performAll (performAt above) ⟨httpRequestInitialize freshObject, ∅⟩ refusedThenParsed =
        some (replies, s) ∧
      replies = [(.duplicateHeaderKey, [], 0), (.succeed, [], 0), (.succeed, ascii "b", 1),
        (.succeed, [], 0)] ∧ s.heap.keys.card = 3 := by
  have hinside : ∀ operation ∈ refusedThenParsed, operation.Inside := by
    simp only [refusedThenParsed, List.forall_mem_cons, Operation.Inside, Reads.runsOff_iff,
      ← Reads.fromBufferReads_iff (Refinement.clean_fresh Acceptance.freshBlock) _ [0],
      List.not_mem_nil, false_implies, implies_true, and_true]
    decide +kernel
  have hlist : (performAll perform (Request.httpRequestInitialize Acceptance.freshBlock)
      refusedThenParsed).map (fun v => (v.1, blockCount v.2)) =
        some ([(.duplicateHeaderKey, [], 0), (.succeed, [], 0), (.succeed, ascii "b", 1),
          (.succeed, [], 0)], 0) := by decide +kernel
  obtain ⟨replies, r, s, hrun, hrunAt, -, hcard, -⟩ :=
    request_memory above freshObject Acceptance.freshBlock ∅ hinside
  rw [hrun, Option.map_some, Option.some.injEq, Prod.mk.injEq] at hlist
  obtain ⟨rfl, hblocks⟩ := hlist
  refine ⟨_, s, hrunAt, rfl, ?_⟩
  rw [hcard, hblocks]
  rfl

end Hss.RequestHeap
