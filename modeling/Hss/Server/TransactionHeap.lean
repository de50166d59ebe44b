import Hss.Http.RequestHeap
import Hss.Http.ResponseHeap
import Hss.Server.Transaction

namespace Hss.TransactionHeap

open Hss.CString Hss.Headers Hss.Request Hss.Response Hss.Range Hss.Transaction Hss.Heap
  Hss.HeaderHeap

open Hss.DescriptorList (FileDescriptorType)

/-- The two objects of a connection, the heap, the open files and the mapped ones. -/
structure State where
  request : RequestHeap.Object
  response : ResponseHeap.Object
  heap : Blocks Block
  files : Blocks File
  mappings : Blocks (List UInt8)

structure System where
  block : Allocator Block
  file : Allocator File
  mapping : Allocator (List UInt8)

def State.free (s : State) (p : Option Address) : Option State :=
  (Heap.free p s.heap).map fun heap => { s with heap }

def onResponse (s : State) (f : ResponseHeap.State → Option ResponseHeap.State) : Option State :=
  (f ⟨s.response, s.heap⟩).map fun r => { s with response := r.object, heap := r.heap }

section Functions

variable (system : System)

def setCode (s : State) (code : HttpResponseCode) : Option State :=
  onResponse s fun r => ResponseHeap.httpResponseSetCode system.block r code none

def setHeader (s : State) (key value : List UInt8) : Option State :=
  onResponse s fun r => ResponseHeap.httpResponseSetHeader system.block r key value

def setBody (s : State) (memory : List UInt8) (length : Nat) : Option State :=
  onResponse s fun r => ResponseHeap.httpResponseSetBody system.block r memory (some length)

def generateForbidden (s : State) : Option State := setCode system s .forbidden

def generateNotFound (s : State) : Option State := setCode system s .notFound

/-- The block returned must be freed by the caller. -/
def getRequestHeader (s : State) (name : List UInt8) : Option (Option Address × State) := do
  let (result, _, length) ← RequestHeap.httpRequestGetHeader ⟨s.request, s.heap⟩ name none
  if result ≠ .succeed then some (none, s)
  else
    let (buffer, heap) := malloc system.block (.text []) s.heap
    let (_, value, _) ← RequestHeap.httpRequestGetHeader ⟨s.request, heap⟩ name (some length)
    let heap ← store buffer (.text value) heap
    some (some buffer, { s with heap })

def fetchUrl (s : State) : Option (Address × State) := do
  let (_, _, urlLength) ← RequestHeap.httpRequestGetUrl ⟨s.request, s.heap⟩ none
  let (url, heap) := malloc system.block (.text []) s.heap
  let (_, text, _) ← RequestHeap.httpRequestGetUrl ⟨s.request, heap⟩ (some urlLength)
  let heap ← store url (.text text) heap
  some (url, { s with heap })

def redirect (host : Host) (s : State) (url : Address) : Option State := do
  let s ← setCode system s .moveMovedPermanently
  let url ← textAt s.heap (some url)
  let location := ascii "https://" ++ host.address ++ ascii ":" ++ decimalText httpsPort ++ url
  setHeader system s (ascii "Location") location

def authorize (host : Host) (s : State) (code : Option Address) : Option (Bool × State) :=
  match code with
  | none => (generateNotFound system s).map (true, ·)
  | some code => do
    let code ← textAt s.heap (some code)
    let order ← memcmp (code ++ [0]) host.authorizationCode authorizationCodeLength
    if order ≠ .eq then (generateForbidden system s).map (true, ·) else some (false, s)

def magicCall (host : Host) (globals : Globals) (s : State) (url : Address) :
    Option (Globals × State) := do
  let (code, s) ← getRequestHeader system s (ascii "Authorization")
  let (forbidden, s) ← authorize system host s code
  let s ← s.free code
  if forbidden then some (globals, s)
  else
    let url ← textAt s.heap (some url)
    if strcmp (url.drop 12) (ascii "shutdown") = .eq then
      (setCode system s .noContent).map ({ globals with running := false }, ·)
    else if strncmp (url.drop 12) (ascii "set-log-level?level=") 20 = .eq then
      (setCode system s .noContent).map (loggingSetLevel globals (strtoll (url.drop 32)).1, ·)
    else (setCode system s .notImplemented).map (globals, ·)

/-- `none` stands for `MAP_FAILED`. -/
def mmap (s : State) (file : File) : Option Address × State :=
  match file.mapping with
  | none => (none, s)
  | some contents =>
    let (content, mappings) := malloc system.mapping contents s.mappings
    (some content, { s with mappings })

def munmap (s : State) (content : Option Address) : Option State :=
  (Heap.free content s.mappings).map fun mappings => { s with mappings }

def close (s : State) (file : Address) : Option State :=
  (Heap.free (some file) s.files).map fun files => { s with files }

def rangeText (s : State) : Option Address → Option (Option (List UInt8))
  | none => some none
  | some value => (textAt s.heap (some value)).map fun text => some (text ++ [0])

/-- From `fstat` to the end of the common requests; the block of the range is left to
the cleanup. -/
def serveFile (s : State) (file : Address) : Option (Option Address × State) := do
  let status ← s.files.lookup file
  let (rangeValue, s) ← getRequestHeader system s (ascii "Range")
  let range ← parseRange (← rangeText s rangeValue) status.size
  let (content, s) := mmap system s status
  let s ← close s file
  let readable := (content.bind fun a => s.mappings.lookup a).getD []
  let s ← setBody system s (readable.drop range.start) (realLength range status.size)
  let s ← munmap s content
  if range.start ≠ range.end_ then
    let s ← setCode system s .partialContent
    let s ← setHeader system s (ascii "Content-Range") (contentRange range status.size)
    some (rangeValue, s)
  else (setCode system s .ok).map (rangeValue, ·)

def parse (s : State) (memory : List UInt8) (length : Nat) : Option (HttpErrorCode × State) :=
  (RequestHeap.httpRequestFromBuffer system.block ⟨s.request, s.heap⟩ memory length).map fun v =>
    (v.1, { s with request := v.2.object, heap := v.2.heap })

def destroyRequest (s : State) : Option State :=
  (RequestHeap.httpRequestDestroy ⟨s.request, s.heap⟩).map fun r =>
    { s with request := r.object, heap := r.heap }

def render (s : State) (buffer : Option Nat) : Option (ResponseHeap.Reply × State) :=
  (ResponseHeap.httpResponseRender system.block ⟨s.response, s.heap⟩ buffer).map fun v =>
    (v.1, { s with response := v.2.object, heap := v.2.heap })

/-- What is to be freed behind `cleanup`, the path opened, and the globals. -/
structure Locals where
  canonicalizedUrl : Option Address
  rangeValue : Option Address
  opened : Option (List UInt8)
  globals : Globals

/-- Of an empty url the byte behind its NUL would be read, which nobody has written. -/
def commonRequest (host : Host) (globals : Globals) (s : State) (url : Address) :
    Option (Locals × State) := do
  let url ← textAt s.heap (some url)
  if url = [] then none
  else match host.realpath (cstr (url.drop 1)) with
  | none => (generateNotFound system s).map (⟨none, none, none, globals⟩, ·)
  | some path =>
    let (canonicalizedUrl, heap) := malloc system.block (.text path) s.heap
    let s := { s with heap }
    let path ← textAt s.heap (some canonicalizedUrl)
    let cwd := currentWorkingDirectory host.getcwd
    let order ← memcmp cwd (path ++ [0]) cwd.length
    if order ≠ .eq then
      (generateNotFound system s).map (⟨some canonicalizedUrl, none, none, globals⟩, ·)
    else
      match host.openFile path with
      | none =>
        (generateNotFound system s).map (⟨some canonicalizedUrl, none, some path, globals⟩, ·)
      | some file =>
        let (file, files) := malloc system.file file s.files
        let (rangeValue, s) ← serveFile system { s with files } file
        some (⟨some canonicalizedUrl, rangeValue, some path, globals⟩, s)

def handleHttpTransaction (type : FileDescriptorType) (host : Host) (globals : Globals)
    (s : State) : Option (Globals × Option (List UInt8) × State) := do
  let (url, s) ← fetchUrl system s
  let text ← textAt s.heap (some url)
  let (locals, s) ← (if type = .tcpSocket then
      (redirect system host s url).map (⟨none, none, none, globals⟩, ·)
    else if strncmp text (ascii "/magic-call/") 12 = .eq then
      (magicCall system host globals s url).map fun v => (⟨none, none, none, v.1⟩, v.2)
    else commonRequest system host globals s url)
  let s ← s.free (some url)
  let s ← s.free locals.canonicalizedUrl
  let s ← s.free locals.rangeValue
  some (locals.globals, locals.opened, s)

end Functions

abbrev FileCell := Address × File

abbrev MappingCell := Address × List UInt8

/-- The memory consists of the blocks of the two objects and of the rest; these files are
open, and these are mapped. -/
structure Both (rest : List Cell) (files : List FileCell) (mappings : List MappingCell)
    (request : HttpRequest) (response : HttpResponse) (s : State) : Prop where
  blocks : ∃ cells cells', RequestHeap.Represents s.request request cells ∧
    ResponseHeap.Represents s.response response cells' ∧ Holds s.heap (cells ++ (cells' ++ rest))
  files : Holds s.files files
  mappings : Holds s.mappings mappings

variable {system : System} {rest cells : List Cell} {files : List FileCell}
  {mappings : List MappingCell} {request : HttpRequest} {response response' : HttpResponse}
  {s : State} {host : Host} {globals : Globals}

theorem Both.tracks (h : Both rest files mappings request response s) :
    ∃ others, RequestHeap.Tracks others request ⟨s.request, s.heap⟩ := by
  obtain ⟨cells, cells', hrequest, -, hholds⟩ := h.blocks
  exact ⟨cells' ++ rest, cells, hrequest, hholds⟩

theorem Both.onResponse (h : Both rest files mappings request response s)
    {f : ResponseHeap.State → Option ResponseHeap.State}
    (hf : ∀ rest, ResponseHeap.Tracks rest response ⟨s.response, s.heap⟩ →
      ∃ t, f ⟨s.response, s.heap⟩ = some t ∧ ResponseHeap.Tracks rest response' t) :
    ∃ s', onResponse s f = some s' ∧ Both rest files mappings request response' s' := by
  obtain ⟨cells, cells', hrequest, hresponse, hholds⟩ := h.blocks
  have hfront : Holds s.heap (cells' ++ (cells ++ rest)) := by
    refine hholds.perm (List.perm_iff_count.mpr fun c => ?_)
    simp only [List.count_append]
    omega
  obtain ⟨t, ht, cells'', hresponse', hholds'⟩ := hf _ ⟨cells', hresponse, hfront⟩
  refine ⟨{ s with response := t.object, heap := t.heap }, ?_,
    ⟨cells, cells'', hrequest, hresponse', hholds'.perm (List.perm_iff_count.mpr fun c => ?_)⟩,
    h.files, h.mappings⟩
  · rw [TransactionHeap.onResponse, ht, Option.map_some]
  · simp only [List.count_append]
    omega

theorem Both.setCode (h : Both rest files mappings request response s) (system : System)
    {code : HttpResponseCode} (hset : httpResponseSetCode response code none = some response') :
    ∃ s', setCode system s code = some s' ∧ Both rest files mappings request response' s' :=
  h.onResponse fun _ htracks => htracks.setCode system.block hset

theorem Both.setHeader (h : Both rest files mappings request response s) (system : System)
    (key value : List UInt8) : ∃ s', setHeader system s key value = some s' ∧
      Both rest files mappings request (httpResponseSetHeader response key value) s' :=
  h.onResponse fun _ htracks => htracks.setHeader system.block key value

theorem Both.setBody (h : Both rest files mappings request response s) (system : System)
    {memory : List UInt8} {length : Nat}
    (hset : httpResponseSetBody response memory (some length) = some response') :
    ∃ s', setBody system s memory length = some s' ∧
      Both rest files mappings request response' s' :=
  h.onResponse fun _ htracks => htracks.setBody system.block hset

theorem Both.malloc (h : Both rest files mappings request response s) (alloc : Allocator Block)
    (b : Block) : ∃ a heap, malloc alloc b s.heap = (a, heap) ∧
      Both ((a, b) :: rest) files mappings request response { s with heap } := by
  obtain ⟨cells, cells', hrequest, hresponse, hholds⟩ := h.blocks
  obtain ⟨a, heap, hmalloc, hheld⟩ := hholds.malloc alloc b
  refine ⟨a, heap, hmalloc, ⟨cells, cells', hrequest, hresponse,
    hheld.perm (List.perm_iff_count.mpr fun c => ?_)⟩, h.files, h.mappings⟩
  simp only [List.count_append, List.count_cons]
  omega

theorem Both.store {a : Address} {b : Block}
    (h : Both ((a, b) :: rest) files mappings request response s) (b' : Block) :
    ∃ heap, store a b' s.heap = some heap ∧
      Both ((a, b') :: rest) files mappings request response { s with heap } := by
  obtain ⟨cells, cells', hrequest, hresponse, hholds⟩ := h.blocks
  have hfront : Holds s.heap ((a, b) :: (cells ++ (cells' ++ rest))) := by
    refine hholds.perm (List.perm_iff_count.mpr fun c => ?_)
    simp only [List.count_append, List.count_cons]
    omega
  obtain ⟨heap, hstore, hheld⟩ := hfront.store b'
  refine ⟨heap, hstore, ⟨cells, cells', hrequest, hresponse,
    hheld.perm (List.perm_iff_count.mpr fun c => ?_)⟩, h.files, h.mappings⟩
  simp only [List.count_append, List.count_cons]
  omega

theorem Both.free {p : Option Address} {contents : Option (List UInt8)}
    (h : Both (cells ++ rest) files mappings request response s) (howned : Owned p contents cells) :
    ∃ s', s.free p = some s' ∧ Both rest files mappings request response s' := by
  obtain ⟨cells₁, cells₂, hrequest, hresponse, hholds⟩ := h.blocks
  have hfront : Holds s.heap (cells ++ (cells₁ ++ (cells₂ ++ rest))) := by
    refine hholds.perm (List.perm_iff_count.mpr fun c => ?_)
    simp only [List.count_append]
    omega
  obtain ⟨heap, hfree, hheld⟩ := howned.free hfront
  refine ⟨{ s with heap }, ?_, ⟨cells₁, cells₂, hrequest, hresponse, hheld⟩, h.files, h.mappings⟩
  rw [State.free, hfree, Option.map_some]

theorem Both.perm {rest' : List Cell} (h : Both rest files mappings request response s)
    (hperm : rest.Perm rest') : Both rest' files mappings request response s := by
  obtain ⟨cells, cells', hrequest, hresponse, hholds⟩ := h.blocks
  exact ⟨⟨cells, cells', hrequest, hresponse,
    hholds.perm ((hperm.append_left _).append_left _)⟩, h.files, h.mappings⟩

theorem Both.textAt {a : Address} {text : List UInt8}
    (h : Both rest files mappings request response s) (hmem : (a, .text text) ∈ rest) :
    textAt s.heap (some a) = some text := by
  obtain ⟨cells, cells', -, -, hholds⟩ := h.blocks
  refine textAt_text (hholds.load ?_)
  exact List.mem_append_right _ (List.mem_append_right _ hmem)

theorem Both.getRequestHeader (h : Both rest files mappings request response s) (system : System)
    (name : List UInt8) : ∃ p cells s', getRequestHeader system s name = some (p, s') ∧
      Owned p (Transaction.getRequestHeader request name) cells ∧
      Both (cells ++ rest) files mappings request response s' := by
  obtain ⟨others, htracks⟩ := h.tracks
  have hfirst := RequestHeap.getHeader_refines htracks name none
  simp only [TransactionHeap.getRequestHeader, hfirst, Option.bind_eq_bind, Option.bind_some,
    Transaction.getRequestHeader]
  by_cases hresult : (httpRequestGetHeader request name none).1 = .succeed
  · simp only [hresult, ne_eq, not_true_eq_false, if_false]
    obtain ⟨a, heap, hmalloc, hboth⟩ := h.malloc system.block (.text [])
    obtain ⟨others', htracks'⟩ := hboth.tracks
    have hsecond := RequestHeap.getHeader_refines htracks' name
      (some (httpRequestGetHeader request name none).2.2)
    obtain ⟨heap', hstore, hboth'⟩ := hboth.store (.text (httpRequestGetHeader request name
      (some (httpRequestGetHeader request name none).2.2)).2.1)
    dsimp only at hsecond hstore hboth'
    simp only [hmalloc, hsecond, hstore, Option.bind_some]
    exact ⟨_, _, _, rfl, .block a _, hboth'⟩
  · simp only [hresult, ne_eq, not_false_eq_true, if_true]
    exact ⟨none, [], s, rfl, .null, h⟩

theorem Both.fetchUrl (h : Both rest files mappings request response s) (system : System)
    (hurl : request.state = .parsed → request.startLine.url ≠ none) :
    ∃ a s', fetchUrl system s = some (a, s') ∧
      Both ((a, .text (urlOf request)) :: rest) files mappings request response s' := by
  obtain ⟨others, htracks⟩ := h.tracks
  have hfirst := RequestHeap.getUrl_refines htracks hurl none
  obtain ⟨a, heap, hmalloc, hboth⟩ := h.malloc system.block (.text [])
  obtain ⟨others', htracks'⟩ := hboth.tracks
  have hsecond := RequestHeap.getUrl_refines htracks' hurl
    (some (httpRequestGetUrl request none).2.2)
  obtain ⟨heap', hstore, hboth'⟩ := hboth.store (.text (urlOf request))
  dsimp only [urlOf] at hsecond hstore hboth'
  simp only [TransactionHeap.fetchUrl, hfirst, hmalloc, hsecond, hstore, Option.bind_eq_bind,
    Option.bind_some]
  exact ⟨_, _, rfl, hboth'⟩

theorem Both.redirect {a : Address} {url : List UInt8}
    (h : Both rest files mappings request response s) (hmem : (a, .text url) ∈ rest)
    (system : System) (hvalue : Transaction.redirect host response url = some response') :
    ∃ s', redirect system host s a = some s' ∧
      Both rest files mappings request response' s' := by
  obtain ⟨response₁, hset, hvalue⟩ := Option.bind_eq_some_iff.mp hvalue
  cases hvalue
  obtain ⟨s₁, hs₁, h₁⟩ := h.setCode system hset
  obtain ⟨s₂, hs₂, h₂⟩ := h₁.setHeader system (ascii "Location")
    (ascii "https://" ++ host.address ++ ascii ":" ++ decimalText httpsPort ++ url)
  refine ⟨s₂, ?_, h₂⟩
  simp only [TransactionHeap.redirect, hs₁, h₁.textAt hmem, hs₂, Option.bind_eq_bind,
    Option.bind_some]

theorem Both.setCode_map {α : Type} (h : Both rest files mappings request response s)
    (system : System) {code : HttpResponseCode}
    (hset : httpResponseSetCode response code none = some response') (v : α) :
    ∃ s', (TransactionHeap.setCode system s code).map (v, ·) = some (v, s') ∧
      Both rest files mappings request response' s' := by
  obtain ⟨s', hs', h'⟩ := h.setCode system hset
  exact ⟨s', by rw [hs', Option.map_some], h'⟩

/-- The block of the authorization code is freed before the branches, whether it is
refused or not. -/
theorem Both.magicCall {a : Address} {url : List UInt8} {globals' : Globals}
    (h : Both rest files mappings request response s) (hmem : (a, .text url) ∈ rest)
    (system : System)
    (hvalue : Transaction.magicCall host globals request response url =
      some (response', globals')) :
    ∃ s', magicCall system host globals s a = some (globals', s') ∧
      Both rest files mappings request response' s' := by
  obtain ⟨p, cells, s₁, hget, howned, h₁⟩ := h.getRequestHeader system (ascii "Authorization")
  simp only [Transaction.magicCall] at hvalue
  simp only [TransactionHeap.magicCall, hget, Option.bind_eq_bind, Option.bind_some]
  cases hcode : Transaction.getRequestHeader request (ascii "Authorization") with
  | none =>
    rw [hcode] at hvalue howned
    obtain ⟨rfl, rfl⟩ := howned.of_none
    obtain ⟨response₁, hset, hvalue⟩ := Option.bind_eq_some_iff.mp hvalue
    cases hvalue
    obtain ⟨s₂, hs₂, h₂⟩ := h₁.setCode_map system hset true
    refine ⟨s₂, ?_, h₂⟩
    simp only [authorize, generateNotFound, hs₂, State.free, Heap.free, Option.bind_some,
      Option.map_some, if_true]
  | some code =>
    rw [hcode] at hvalue howned
    obtain ⟨order, horder, hvalue⟩ := Option.bind_eq_some_iff.mp hvalue
    generalize hcontents : some code = contents at howned
    cases howned with
    | null => cases hcontents
    | block b code' =>
      cases hcontents
      have htext := h₁.textAt (List.mem_append_left _ (List.mem_singleton_self (b, Block.text code)))
      by_cases hdenied : order ≠ .eq
      · rw [if_pos hdenied] at hvalue
        obtain ⟨response₁, hset, hvalue⟩ := Option.bind_eq_some_iff.mp hvalue
        cases hvalue
        obtain ⟨s₂, hs₂, h₂⟩ := h₁.setCode_map system hset true
        obtain ⟨s₃, hs₃, h₃⟩ := h₂.free (.block b code)
        refine ⟨s₃, ?_, h₃⟩
        simp only [authorize, htext, horder, if_pos hdenied, generateForbidden, hs₂, hs₃,
          Option.bind_eq_bind, Option.bind_some, if_true]
      · rw [if_neg hdenied] at hvalue
        obtain ⟨s₂, hs₂, h₂⟩ := h₁.free (.block b code)
        simp only [authorize, htext, horder, if_neg hdenied, hs₂, Option.bind_eq_bind,
          Option.bind_some, Bool.false_eq_true, if_false, h₂.textAt hmem]
        split at hvalue
        · rename_i hshutdown
          obtain ⟨response₁, hset, hvalue⟩ := Option.bind_eq_some_iff.mp hvalue
          cases hvalue
          rw [if_pos hshutdown]
          exact h₂.setCode_map system hset _
        rename_i hshutdown
        rw [if_neg hshutdown]
        split at hvalue
        · rename_i hlevel
          obtain ⟨response₁, hset, hvalue⟩ := Option.bind_eq_some_iff.mp hvalue
          cases hvalue
          rw [if_pos hlevel]
          exact h₂.setCode_map system hset _
        · rename_i hlevel
          obtain ⟨response₁, hset, hvalue⟩ := Option.bind_eq_some_iff.mp hvalue
          cases hvalue
          rw [if_neg hlevel]
          exact h₂.setCode_map system hset _

/-- What `mmap` returns for a file with these contents, with the mapping it makes. -/
inductive Mapped : Option Address → Option (List UInt8) → List MappingCell → Prop
  | failed : Mapped none none []
  | block (a : Address) (contents : List UInt8) :
      Mapped (some a) (some contents) [(a, contents)]

theorem Both.open (h : Both rest files mappings request response s) (system : System)
    (file : File) : ∃ a files', Heap.malloc system.file file s.files = (a, files') ∧
      Both rest ((a, file) :: files) mappings request response { s with files := files' } := by
  obtain ⟨a, files', hopen, hheld⟩ := h.files.malloc system.file file
  exact ⟨a, files', hopen, h.blocks, hheld, h.mappings⟩

theorem Both.close {a : Address} {file : File}
    (h : Both rest ((a, file) :: files) mappings request response s) :
    ∃ s', close s a = some s' ∧ Both rest files mappings request response s' := by
  obtain ⟨files', hclose, hheld⟩ := h.files.free
  exact ⟨{ s with files := files' }, by rw [TransactionHeap.close, hclose, Option.map_some],
    h.blocks, hheld, h.mappings⟩

theorem Both.mmap (h : Both rest files mappings request response s) (system : System)
    (file : File) : ∃ content cells s', mmap system s file = (content, s') ∧
      Mapped content file.mapping cells ∧
      Both rest files (cells ++ mappings) request response s' := by
  rw [TransactionHeap.mmap]
  cases file.mapping with
  | none => exact ⟨none, [], s, rfl, .failed, h⟩
  | some contents =>
    obtain ⟨a, mappings', hmmap, hheld⟩ := h.mappings.malloc system.mapping contents
    simp only [hmmap]
    exact ⟨_, _, _, rfl, .block a contents, h.blocks, h.files, hheld⟩

theorem Both.readable {content : Option Address} {contents : Option (List UInt8)}
    {cells : List MappingCell} (h : Both rest files (cells ++ mappings) request response s)
    (hmapped : Mapped content contents cells) :
    (content.bind fun a => s.mappings.lookup a).getD [] = contents.getD [] := by
  cases hmapped with
  | failed => rfl
  | block a contents =>
    rw [Option.bind_some, h.mappings.load (List.mem_append_left _ (List.mem_singleton_self _))]

theorem Both.munmap {content : Option Address} {contents : Option (List UInt8)}
    {cells : List MappingCell} (h : Both rest files (cells ++ mappings) request response s)
    (hmapped : Mapped content contents cells) :
    ∃ s', munmap s content = some s' ∧ Both rest files mappings request response s' := by
  cases hmapped with
  | failed => exact ⟨s, rfl, h⟩
  | block a contents =>
    obtain ⟨mappings', hfree, hheld⟩ := h.mappings.free
    exact ⟨{ s with mappings := mappings' }, by rw [TransactionHeap.munmap, hfree, Option.map_some],
      h.blocks, h.files, hheld⟩

theorem Both.rangeText {p : Option Address} {value : Option (List UInt8)}
    (h : Both (cells ++ rest) files mappings request response s) (howned : Owned p value cells) :
    rangeText s p = some (value.map (· ++ [0])) := by
  cases howned with
  | null => rfl
  | block a value =>
    have hmem : (a, Block.text value) ∈ [(a, Block.text value)] ++ rest :=
      List.mem_append_left _ (List.mem_singleton_self _)
    rw [TransactionHeap.rangeText, h.textAt hmem]
    rfl

/-- The descriptor is closed and the mapping undone behind the copy of the body. -/
theorem Both.serveFile {a : Address} {file : File}
    (h : Both rest ((a, file) :: files) mappings request response s) (system : System)
    (hvalue : Transaction.serveFile request response file = some response') :
    ∃ p contents cells s', serveFile system s a = some (p, s') ∧ Owned p contents cells ∧
      Both (cells ++ rest) files mappings request response' s' := by
  obtain ⟨range, hparse, hvalue⟩ := Option.bind_eq_some_iff.mp hvalue
  obtain ⟨response₁, hbody, hvalue⟩ := Option.bind_eq_some_iff.mp hvalue
  have hfstat : s.files.lookup a = some file := h.files.load List.mem_cons_self
  obtain ⟨p, cells, s₁, hget, howned, h₁⟩ := h.getRequestHeader system (ascii "Range")
  obtain ⟨content, cells', s₂, hmmap, hmapped, h₂⟩ := h₁.mmap system file
  obtain ⟨s₃, hclose, h₃⟩ := h₂.close
  have hreadable := h₃.readable hmapped
  rw [← hreadable] at hbody
  obtain ⟨s₄, hs₄, h₄⟩ := h₃.setBody system hbody
  obtain ⟨s₅, hmunmap, h₅⟩ := h₄.munmap hmapped
  simp only [TransactionHeap.serveFile, hfstat, hget, h₁.rangeText howned, hparse, hmmap, hclose,
    hs₄, hmunmap, Option.bind_eq_bind, Option.bind_some]
  refine ⟨p, Transaction.getRequestHeader request (ascii "Range"), cells, ?_⟩
  split at hvalue
  · rename_i hpart
    obtain ⟨response₂, hset, hvalue⟩ := Option.bind_eq_some_iff.mp hvalue
    cases hvalue
    obtain ⟨s₆, hs₆, h₆⟩ := h₅.setCode system hset
    obtain ⟨s₇, hs₇, h₇⟩ := h₆.setHeader system (ascii "Content-Range")
      (contentRange range file.size)
    refine ⟨s₇, ?_, howned, h₇⟩
    rw [if_pos hpart, hs₆, Option.bind_some, hs₇, Option.bind_some]
  · rename_i hfull
    obtain ⟨s₆, hs₆, h₆⟩ := h₅.setCode_map system hvalue p
    exact ⟨s₆, by rw [if_neg hfull, hs₆], howned, h₆⟩

inductive Left (locals : Locals) : List Cell → Prop
  | mk {contents contents' : Option (List UInt8)} {cells cells' : List Cell} :
      Owned locals.canonicalizedUrl contents cells → Owned locals.rangeValue contents' cells' →
      Left locals (cells' ++ cells)

theorem left_nothing (globals : Globals) : Left ⟨none, none, none, globals⟩ ([] ++ []) :=
  .mk .null .null

theorem Both.commonRequest {a : Address} {url : List UInt8} {opened : Option (List UInt8)}
    (h : Both rest files mappings request response s) (hmem : (a, .text url) ∈ rest)
    (hne : url ≠ []) (hnul : 0 ∉ url) (system : System) (globals : Globals)
    (hvalue : Transaction.commonRequest host request response url = some (response', opened)) :
    ∃ locals cells s', commonRequest system host globals s a = some (locals, s') ∧
      locals.opened = opened ∧ locals.globals = globals ∧ Left locals cells ∧
      Both (cells ++ rest) files mappings request response' s' := by
  have hpath : cstr (url.drop 1) = url.drop 1 :=
    cstr_of_not_mem fun hmem => hnul ((List.drop_sublist 1 url).subset hmem)
  simp only [Transaction.commonRequest, cstr_behind hne hnul] at hvalue
  simp only [TransactionHeap.commonRequest, h.textAt hmem, if_neg hne, hpath, Option.bind_eq_bind,
    Option.bind_some]
  cases hreal : host.realpath (url.drop 1) with
  | none =>
    rw [hreal] at hvalue
    obtain ⟨response₁, hset, hvalue⟩ := Option.bind_eq_some_iff.mp hvalue
    cases hvalue
    obtain ⟨s₁, hs₁, h₁⟩ := h.setCode_map system hset (⟨none, none, none, globals⟩ : Locals)
    exact ⟨_, [], s₁, hs₁, rfl, rfl, left_nothing globals, h₁⟩
  | some path =>
    rw [hreal] at hvalue
    obtain ⟨order, horder, hvalue⟩ := Option.bind_eq_some_iff.mp hvalue
    obtain ⟨b, heap, hmalloc, h₁⟩ := h.malloc system.block (.text path)
    have hpath := h₁.textAt List.mem_cons_self
    dsimp only at hpath
    simp only [hmalloc, hpath, horder, Option.bind_some]
    by_cases hwithin : order ≠ .eq
    · rw [if_pos hwithin] at hvalue
      obtain ⟨response₁, hset, hvalue⟩ := Option.bind_eq_some_iff.mp hvalue
      cases hvalue
      obtain ⟨s₂, hs₂, h₂⟩ := h₁.setCode_map system hset (⟨some b, none, none, globals⟩ : Locals)
      rw [if_pos hwithin]
      exact ⟨_, _, s₂, hs₂, rfl, rfl, .mk (.block b path) .null, h₂⟩
    rw [if_neg hwithin] at hvalue ⊢
    cases hopen : host.openFile path with
    | none =>
      rw [hopen] at hvalue
      obtain ⟨response₁, hset, hvalue⟩ := Option.bind_eq_some_iff.mp hvalue
      cases hvalue
      obtain ⟨s₂, hs₂, h₂⟩ :=
        h₁.setCode_map system hset (⟨some b, none, some path, globals⟩ : Locals)
      exact ⟨_, _, s₂, hs₂, rfl, rfl, .mk (.block b path) .null, h₂⟩
    | some file =>
      rw [hopen] at hvalue
      obtain ⟨response₁, hserve, hvalue⟩ := Option.bind_eq_some_iff.mp hvalue
      cases hvalue
      obtain ⟨descriptor, files', hmalloc', h₂⟩ := h₁.open system file
      obtain ⟨p, contents, cells, s₃, hs₃, howned, h₃⟩ := h₂.serveFile system hserve
      dsimp only at hmalloc' hs₃
      simp only [hmalloc', hs₃, Option.bind_some]
      refine ⟨_, _, s₃, rfl, rfl, rfl, .mk (.block b path) howned, ?_⟩
      rwa [List.append_assoc]

theorem Both.cleanup {locals : Locals} {a : Address} {url : List UInt8}
    (h : Both (cells ++ (a, .text url) :: rest) files mappings request response s)
    (hleft : Left locals cells) :
    ∃ s', ((s.free (some a)).bind fun s => (s.free locals.canonicalizedUrl).bind fun s =>
        (s.free locals.rangeValue).bind fun s => some (locals.globals, locals.opened, s)) =
          some (locals.globals, locals.opened, s') ∧
      Both rest files mappings request response s' := by
  cases hleft with
  | @mk contents contents' cells cells' hcanonicalized hrange =>
    have hfront : Both ([(a, .text url)] ++ (cells ++ (cells' ++ rest))) files mappings request
        response s := by
      refine h.perm (List.perm_iff_count.mpr fun c => ?_)
      simp only [List.count_append, List.count_cons, List.count_nil]
      omega
    obtain ⟨s₁, hs₁, h₁⟩ := hfront.free (.block a url)
    obtain ⟨s₂, hs₂, h₂⟩ := h₁.free hcanonicalized
    obtain ⟨s₃, hs₃, h₃⟩ := h₂.free hrange
    exact ⟨s₃, by simp only [hs₁, hs₂, hs₃, Option.bind_some], h₃⟩

/-- A transaction gives the response of the model. Whatever way it takes, it reads, writes
and frees allocated blocks only, and all that it allocates, opens and maps is freed, closed
and unmapped at its end, each once. -/
theorem Both.transaction {type : FileDescriptorType} {outcome : Outcome}
    (h : Both rest files mappings request response s)
    (hurl : request.state = .parsed → request.startLine.url ≠ none)
    (hne : type ≠ .tcpSocket → urlOf request ≠ []) (system : System)
    (hvalue : Transaction.handleHttpTransaction type host globals request response =
      some outcome) :
    ∃ s', handleHttpTransaction system type host globals s =
        some (outcome.globals, outcome.opened, s') ∧
      Both rest files mappings request outcome.response s' := by
  obtain ⟨a, s₁, hfetch, h₁⟩ := h.fetchUrl system hurl
  have hmem : (a, Block.text (urlOf request)) ∈ (a, Block.text (urlOf request)) :: rest :=
    List.mem_cons_self
  simp only [Transaction.handleHttpTransaction] at hvalue
  simp only [handleHttpTransaction, hfetch, h₁.textAt hmem, Option.bind_eq_bind, Option.bind_some]
  split at hvalue
  · rename_i htcp
    obtain ⟨response₁, hredirect, hvalue⟩ := Option.bind_eq_some_iff.mp hvalue
    cases hvalue
    obtain ⟨s₂, hs₂, h₂⟩ := h₁.redirect hmem system hredirect
    obtain ⟨s₃, hs₃, h₃⟩ := Both.cleanup h₂ (left_nothing globals)
    refine ⟨s₃, ?_, h₃⟩
    rw [if_pos htcp, hs₂, Option.map_some, Option.bind_some]
    exact hs₃
  rename_i htcp
  rw [if_neg htcp]
  split at hvalue
  · rename_i hmagic
    obtain ⟨⟨response₁, globals'⟩, hcall, hvalue⟩ := Option.bind_eq_some_iff.mp hvalue
    cases hvalue
    obtain ⟨s₂, hs₂, h₂⟩ := h₁.magicCall hmem system hcall
    obtain ⟨s₃, hs₃, h₃⟩ := Both.cleanup h₂ (left_nothing globals')
    refine ⟨s₃, ?_, h₃⟩
    rw [if_pos hmagic, hs₂, Option.map_some, Option.bind_some]
    exact hs₃
  · rename_i hmagic
    obtain ⟨⟨response₁, opened⟩, hcommon, hvalue⟩ := Option.bind_eq_some_iff.mp hvalue
    cases hvalue
    obtain ⟨locals, cells, s₂, hs₂, rfl, rfl, hleft, h₂⟩ :=
      h₁.commonRequest hmem (hne htcp) (not_mem_urlOf request) system globals hcommon
    obtain ⟨s₃, hs₃, h₃⟩ := h₂.cleanup hleft
    refine ⟨s₃, ?_, h₃⟩
    rw [if_neg hmagic, hs₂, Option.bind_some]
    exact hs₃

theorem Both.frame (h : Both rest files mappings request response s) :
    ∃ base, Holds s.heap (base ++ rest) ∧ ∀ {heap : Blocks Block} {rest' : List Cell},
      Holds heap (base ++ rest') → Both rest' files mappings request response { s with heap } := by
  obtain ⟨cells, cells', hrequest, hresponse, hholds⟩ := h.blocks
  refine ⟨cells ++ cells', by rwa [List.append_assoc], fun hheld => ?_⟩
  rw [List.append_assoc] at hheld
  exact ⟨⟨cells, cells', hrequest, hresponse, hheld⟩, h.files, h.mappings⟩

theorem Both.parse (h : Both rest files mappings request response s)
    (hclean : Refinement.Clean request) (system : System) {memory : List UInt8} {length : Nat}
    {code : HttpErrorCode} {request' : HttpRequest}
    (hparse : httpRequestFromBuffer request memory length = some (code, request')) :
    ∃ s' lost, parse system s memory length = some (code, s') ∧
      lost.length = RequestHeap.abandoned code ∧
      Both (lost ++ rest) files mappings request' response s' := by
  obtain ⟨cells, cells', hrequest, hresponse, hholds⟩ := h.blocks
  have htracks : RequestHeap.Tracks (cells' ++ rest) request ⟨s.request, s.heap⟩ :=
    ⟨cells, hrequest, hholds⟩
  have hrefines : Option.Rel (RequestHeap.Returns (cells' ++ rest))
      (httpRequestFromBuffer request memory length)
      (RequestHeap.httpRequestFromBuffer system.block ⟨s.request, s.heap⟩ memory length) :=
    RequestHeap.fromBuffer_refines htracks hclean
  rw [hparse] at hrefines
  rw [TransactionHeap.parse]
  generalize RequestHeap.httpRequestFromBuffer system.block ⟨s.request, s.heap⟩ memory length = w
    at hrefines ⊢
  cases hrefines with
  | @some _ v hreturns =>
    obtain ⟨code', r⟩ := v
    obtain ⟨rfl, lost, hlost, cells'', hrequest', hholds'⟩ := hreturns
    refine ⟨_, lost, rfl, hlost, ⟨cells'', cells', hrequest', hresponse,
      hholds'.perm (List.perm_iff_count.mpr fun c => ?_)⟩, h.files, h.mappings⟩
    simp only [List.count_append]
    omega

theorem Both.destroyRequest (h : Both rest files mappings request response s) :
    ∃ s', destroyRequest s = some s' ∧
      Both rest files mappings (httpRequestDestroy request) response s' := by
  obtain ⟨cells, cells', hrequest, hresponse, hholds⟩ := h.blocks
  have htracks : RequestHeap.Tracks (cells' ++ rest) request ⟨s.request, s.heap⟩ :=
    ⟨cells, hrequest, hholds⟩
  obtain ⟨r, hdestroy, cells'', hrequest', hholds'⟩ := htracks.destroy
  refine ⟨{ s with request := r.object, heap := r.heap }, ?_, ⟨cells'', cells', hrequest',
    hresponse, hholds'⟩, h.files, h.mappings⟩
  rw [TransactionHeap.destroyRequest, hdestroy, Option.map_some]

theorem Both.render (h : Both rest files mappings request response s) (hsound : Sound response)
    (system : System) (buffer : Option Nat) :
    ∃ s', render system s buffer = some (((httpResponseRender response buffer).code,
          (httpResponseRender response buffer).bytes,
          (httpResponseRender response buffer).length), s') ∧
      Both rest files mappings request (httpResponseRender response buffer).response s' := by
  obtain ⟨cells, cells', hrequest, hresponse, hholds⟩ := h.blocks
  have hfront : Holds s.heap (cells' ++ (cells ++ rest)) := by
    refine hholds.perm (List.perm_iff_count.mpr fun c => ?_)
    simp only [List.count_append]
    omega
  have htracks : ResponseHeap.Tracks (cells ++ rest) response ⟨s.response, s.heap⟩ :=
    ⟨cells', hresponse, hfront⟩
  obtain ⟨r, hrender, cells'', hresponse', hholds'⟩ := htracks.render hsound system.block buffer
  refine ⟨{ s with response := r.object, heap := r.heap }, ?_, ⟨cells, cells'', hrequest,
    hresponse', hholds'.perm (List.perm_iff_count.mpr fun c => ?_)⟩, h.files, h.mappings⟩
  · rw [TransactionHeap.render, hrender, Option.map_some]
  · simp only [List.count_append]
    omega

end Hss.TransactionHeap
