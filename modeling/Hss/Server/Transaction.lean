import Hss.Http.Range
import Hss.Http.Request
import Hss.Http.Response
import Hss.Server.Registry

namespace Hss.Transaction

open Hss.CString Hss.Headers Hss.Request Hss.Response Hss.Range Hss.DescriptorList

def authorizationCodeLength : Nat := 32

def httpsPort : Nat := 443

/-- An opened file: its length, and what can be read from its mapping; `none`
stands for `MAP_FAILED`. -/
structure File where
  size : Nat
  mapping : Option (List UInt8)

/-- What one transaction asks of the world outside: the authorization code, the
text of the local address, the file system, and the bytes left in the block of
the url behind its NUL. -/
structure Host where
  authorizationCode : List UInt8
  address : List UInt8
  getcwd : List UInt8
  realpath : List UInt8 → Option (List UInt8)
  openFile : List UInt8 → Option File
  stale : List UInt8

inductive LoggingLogLevel
  | full
  | trace
  | debug
  | information
  | warning
  | error
  | fatal
  | off
  deriving DecidableEq, Repr

structure Globals where
  running : Bool
  logLevel : LoggingLogLevel
  deriving DecidableEq, Repr

def logLevelOf : Nat → Option LoggingLogLevel
  | 0 => some .full
  | 1 => some .trace
  | 2 => some .debug
  | 3 => some .information
  | 4 => some .warning
  | 5 => some .error
  | 6 => some .fatal
  | 7 => some .off
  | _ => none

/-- The argument is converted to the enumeration, an `unsigned int`. -/
def loggingSetLevel (globals : Globals) (level : Int) : Globals :=
  match logLevelOf (level % 2 ^ 32).toNat with
  | some logLevel => { globals with logLevel }
  | none => globals

def getRequestHeader (request : HttpRequest) (name : List UInt8) : Option (List UInt8) :=
  let (result, _, length) := httpRequestGetHeader request name none
  if result ≠ .succeed then none
  else
    let (_, value, _) := httpRequestGetHeader request name (some length)
    some value

def generateForbidden (response : HttpResponse) : Option HttpResponse :=
  httpResponseSetCode response .forbidden none

def generateNotFound (response : HttpResponse) : Option HttpResponse :=
  httpResponseSetCode response .notFound none

def currentWorkingDirectory (getcwd : List UInt8) : List UInt8 :=
  if getcwd.getLast? = some 47 then getcwd else getcwd ++ [47]

structure Outcome where
  response : HttpResponse
  globals : Globals
  opened : Option (List UInt8)

def redirect (host : Host) (response : HttpResponse) (url : List UInt8) : Option HttpResponse := do
  let response ← httpResponseSetCode response .moveMovedPermanently none
  let location := ascii "https://" ++ host.address ++ ascii ":" ++ decimalText httpsPort ++ url
  some (httpResponseSetHeader response (ascii "Location") location)

def magicCall (host : Host) (globals : Globals) (request : HttpRequest) (response : HttpResponse)
    (url : List UInt8) : Option (HttpResponse × Globals) := do
  match getRequestHeader request (ascii "Authorization") with
  | none => some (← generateNotFound response, globals)
  | some code =>
    if (← memcmp (code ++ [0]) host.authorizationCode authorizationCodeLength) ≠ .eq then
      some (← generateForbidden response, globals)
    else if strcmp (url.drop 12) (ascii "shutdown") = .eq then
      some (← httpResponseSetCode response .noContent none, { globals with running := false })
    else if strncmp (url.drop 12) (ascii "set-log-level?level=") 20 = .eq then
      some (← httpResponseSetCode response .noContent none,
        loggingSetLevel globals (strtoll (url.drop 32)).1)
    else some (← httpResponseSetCode response .notImplemented none, globals)

def realLength (range : Range) (size : Nat) : Nat :=
  if range.start = range.end_ then size else range.end_ - range.start

def contentRange (range : Range) (size : Nat) : List UInt8 :=
  ascii "bytes " ++ decimalText range.start ++ ascii "-" ++ decimalText (range.end_ - 1) ++
    ascii "/" ++ decimalText size

def serveFile (request : HttpRequest) (response : HttpResponse) (file : File) :
    Option HttpResponse := do
  let rangeValue := getRequestHeader request (ascii "Range")
  let range ← parseRange (rangeValue.map (· ++ [0])) file.size
  let response ← httpResponseSetBody response ((file.mapping.getD []).drop range.start)
    (some (realLength range file.size))
  if range.start ≠ range.end_ then
    let response ← httpResponseSetCode response .partialContent none
    some (httpResponseSetHeader response (ascii "Content-Range") (contentRange range file.size))
  else httpResponseSetCode response .ok none

def commonRequest (host : Host) (request : HttpRequest) (response : HttpResponse)
    (url : List UInt8) : Option (HttpResponse × Option (List UInt8)) := do
  let path := cstr ((url ++ 0 :: host.stale).drop 1)
  match host.realpath path with
  | none => some (← generateNotFound response, none)
  | some canonicalizedUrl =>
    let cwd := currentWorkingDirectory host.getcwd
    if (← memcmp cwd (canonicalizedUrl ++ [0]) cwd.length) ≠ .eq then
      some (← generateNotFound response, none)
    else
      match host.openFile canonicalizedUrl with
      | none => some (← generateNotFound response, some canonicalizedUrl)
      | some file => some (← serveFile request response file, some canonicalizedUrl)

/-- The url of the request, which is asked for its length first. -/
def urlOf (request : HttpRequest) : List UInt8 :=
  let (_, _, urlLength) := httpRequestGetUrl request none
  let (_, url, _) := httpRequestGetUrl request (some urlLength)
  url

/-- `none` is undefined behaviour: a read outside a block. -/
def handleHttpTransaction (type : FileDescriptorType) (host : Host) (globals : Globals)
    (request : HttpRequest) (response : HttpResponse) : Option Outcome := do
  let url := urlOf request
  if type = .tcpSocket then
    some ⟨← redirect host response url, globals, none⟩
  else if strncmp url (ascii "/magic-call/") 12 = .eq then
    let (response, globals) ← magicCall host globals request response url
    some ⟨response, globals, none⟩
  else
    let (response, opened) ← commonRequest host request response url
    some ⟨response, globals, opened⟩

variable {host : Host} {globals : Globals} {request : HttpRequest} {response : HttpResponse}
  {file : File} {range : Range}

theorem cstr_contentRange (range : Range) (size : Nat) :
    cstr (contentRange range size) = contentRange range size := by
  refine cstr_of_not_mem ?_
  simp only [contentRange, List.mem_append, not_or]
  exact ⟨⟨⟨⟨⟨by decide, not_mem_decimalText _⟩, by decide⟩, not_mem_decimalText _⟩, by decide⟩,
    not_mem_decimalText _⟩

def fileResponse (response : HttpResponse) (file : File) (range : Range) : HttpResponse :=
  let length := realLength range file.size
  let headers := setHeader response.headers (ascii "Content-Length") (decimalText length)
  let body : Body := ⟨some (((file.mapping.getD []).drop range.start).take length), length⟩
  if range.start = range.end_ then ⟨⟨.ok, .live (ascii "OK"), 2⟩, headers, body⟩
  else ⟨⟨.partialContent, .live (ascii "Partial Content"), 15⟩,
    setHeader headers (ascii "Content-Range") (contentRange range file.size), body⟩

theorem setBody_usable {memory : List UInt8} {length : Nat} {response' : HttpResponse}
    (hr : Usable response)
    (h : httpResponseSetBody response memory (some length) = some response') : Usable response' := by
  by_cases hle : length ≤ memory.length
  · rw [setBody_some response hle] at h
    cases h
    exact hr
  · rw [setBody_none (Nat.lt_of_not_le hle)] at h
    cases h

/-- A file is copied if its range lies in what can be read, and nothing is
copied of an empty one. -/
theorem serveFile_eq (request : HttpRequest) (file : File) (hr : Usable response)
    (hparse : parseRange ((getRequestHeader request (ascii "Range")).map (· ++ [0])) file.size =
      some range) : serveFile request response file =
      if realLength range file.size ≤ ((file.mapping.getD []).drop range.start).length then
        some (fileResponse response file range)
      else none := by
  simp only [serveFile, hparse, Option.bind_eq_bind, Option.bind_some]
  by_cases hle : realLength range file.size ≤ ((file.mapping.getD []).drop range.start).length
  · have hbody := setBody_some response hle
    have husable := setBody_usable hr hbody
    rw [hbody, Option.bind_some, if_pos hle, fileResponse]
    by_cases hfull : range.start = range.end_
    · have htext : getDefaultDescription .ok = some (ascii "OK") := rfl
      rw [if_neg (not_not.mpr hfull), if_pos hfull, setCode_default husable htext]
      rfl
    · have htext : getDefaultDescription .partialContent = some (ascii "Partial Content") := rfl
      rw [if_pos hfull, if_neg hfull, setCode_default husable htext]
      rfl
  · rw [setBody_none (Nat.lt_of_not_le hle), Option.bind_none, if_neg hle]

theorem transaction_file {type : FileDescriptorType} {path : List UInt8}
    (htype : type ≠ .tcpSocket) (hmagic : strncmp (urlOf request) (ascii "/magic-call/") 12 ≠ .eq)
    (hreal : host.realpath (cstr ((urlOf request ++ 0 :: host.stale).drop 1)) = some path)
    (horder : memcmp (currentWorkingDirectory host.getcwd) (path ++ [0])
      (currentWorkingDirectory host.getcwd).length = some .eq)
    (hfile : host.openFile path = some file) :
    handleHttpTransaction type host globals request response =
      (serveFile request response file).map (⟨·, globals, some path⟩) := by
  simp only [handleHttpTransaction, if_neg htype, if_neg hmagic, commonRequest, hreal, horder, hfile,
    Option.bind_eq_bind, Option.bind_some, ne_eq, not_true, if_false]
  cases serveFile request response file <;> rfl

def pageSize : Nat := 4096

theorem not_mem_urlOf (request : HttpRequest) : 0 ∉ urlOf request := by
  simp only [urlOf, httpRequestGetUrl]
  split
  · exact List.not_mem_nil
  · split
    · exact List.not_mem_nil
    · exact not_mem_cstr _

theorem cstr_behind {url : List UInt8} (hne : url ≠ []) (hnul : 0 ∉ url) (stale : List UInt8) :
    cstr ((url ++ 0 :: stale).drop 1) = url.drop 1 := by
  obtain ⟨c, rest, rfl⟩ := List.exists_cons_of_ne_nil hne
  exact cstr_append_nul (fun h => hnul (List.mem_cons_of_mem c h)) stale

/-- The bytes left behind the url are read for an empty url only. -/
theorem transaction_stale {type : FileDescriptorType}
    (hne : type ≠ .tcpSocket → urlOf request ≠ []) (stale : List UInt8) :
    handleHttpTransaction type { host with stale } globals request response =
      handleHttpTransaction type host globals request response := by
  by_cases htype : type = .tcpSocket
  · simp only [handleHttpTransaction, if_pos htype, redirect]
  · have hpath := cstr_behind (hne htype) (not_mem_urlOf request)
    simp only [handleHttpTransaction, commonRequest, magicCall, redirect, hpath]

/-- A mapping of a regular file: its bytes, and zeros up to the end of the page. -/
def mappedPages (content : List UInt8) : List UInt8 :=
  content ++ List.replicate ((pageSize - content.length % pageSize) % pageSize) 0

def regularFile (content : List UInt8) : File := ⟨content.length, some (mappedPages content)⟩

def smallHost : Host where
  authorizationCode := List.replicate authorizationCodeLength 65
  address := ascii "127.0.0.1"
  getcwd := ascii "/srv"
  realpath path := some (ascii "/srv/" ++ path)
  openFile path := if path = ascii "/srv/f" then some (regularFile (ascii "0123456789")) else none
  stale := []

def shutdownRequest : List UInt8 :=
  ascii "GET /magic-call/shutdown H\r\nAuthorization: " ++ smallHost.authorizationCode ++
    ascii "\r\n\r\n"

def plainRequest (url : List UInt8) : HttpRequest :=
  ⟨.parsed, ⟨.get, some (ascii "H"), 1, some url, url.length⟩, [], ⟨none, 0⟩⟩

end Hss.Transaction
