import Hss.Server.Connection

namespace Hss.Effects

open Hss.CString Hss.Headers Hss.Request Hss.Response Hss.Range Hss.DescriptorList Hss.Transaction
  Hss.ReceiveBuffer Hss.Connection

/-- What a request sets on the response, whatever that held before. -/
structure Effect where
  code : HttpResponseCode
  contentRange : Option (List UInt8)
  location : Option (List UInt8)
  body : Option (List UInt8)
  deriving DecidableEq, Repr

def bare (code : HttpResponseCode) : Effect := ⟨code, none, none, none⟩

def redirectEffect (host : Host) (url : List UInt8) : Effect :=
  ⟨.moveMovedPermanently, none,
    some (cstr (ascii "https://" ++ host.address ++ ascii ":" ++ decimalText httpsPort ++ url)), none⟩

def magicEffect (host : Host) (request : HttpRequest) (url : List UInt8) : Option Effect :=
  match getRequestHeader request (ascii "Authorization") with
  | none => some (bare .notFound)
  | some code =>
    (memcmp (code ++ [0]) host.authorizationCode authorizationCodeLength).map fun order =>
      if order ≠ .eq then bare .forbidden
      else if strcmp (url.drop 12) (ascii "shutdown") = .eq then bare .noContent
      else if strncmp (url.drop 12) (ascii "set-log-level?level=") 20 = .eq then bare .noContent
      else bare .notImplemented

def rangeEffect (file : File) (range : Range) : Option Effect :=
  let bytes := (file.mapping.getD []).drop range.start
  let length := realLength range file.size
  if length ≤ bytes.length then
    if range.start = range.end_ then some ⟨.ok, none, none, some (bytes.take length)⟩
    else
      some ⟨.partialContent, some (contentRange range file.size), none, some (bytes.take length)⟩
  else none

def fileEffect (request : HttpRequest) (file : File) : Option Effect :=
  (parseRange ((getRequestHeader request (ascii "Range")).map (· ++ [0])) file.size).bind
    (rangeEffect file)

def pathEffect (host : Host) (request : HttpRequest) (url : List UInt8) : Option Effect :=
  match host.realpath (cstr ((url ++ 0 :: host.stale).drop 1)) with
  | none => some (bare .notFound)
  | some path =>
    let cwd := currentWorkingDirectory host.getcwd
    (memcmp cwd (path ++ [0]) cwd.length).bind fun order =>
      if order ≠ .eq then some (bare .notFound)
      else
        match host.openFile path with
        | none => some (bare .notFound)
        | some file => fileEffect request file

/-- What an accepted request does; `none` is undefined behaviour. -/
def effect (type : FileDescriptorType) (host : Host) (request : HttpRequest) : Option Effect :=
  if type = .tcpSocket then some (redirectEffect host (urlOf request))
  else if strncmp (urlOf request) (ascii "/magic-call/") 12 = .eq then
    magicEffect host request (urlOf request)
  else pathEffect host request (urlOf request)

def reply (type : FileDescriptorType) (host : Host) (code : HttpErrorCode) (request : HttpRequest) :
    Option Effect :=
  if code ≠ .succeed then some (bare .badRequest) else effect type host request

def setOptional (headers : List Header) (key : List UInt8) : Option (List UInt8) → List Header
  | none => headers
  | some value => setHeader headers key value

def descriptionOf (code : HttpResponseCode) : List UInt8 := (getDefaultDescription code).getD []

def Effect.apply (a : Effect) (response : HttpResponse) : HttpResponse where
  stateLine := ⟨a.code, .live (descriptionOf a.code), (descriptionOf a.code).length⟩
  headers :=
    let headers := setOptional response.headers (ascii "Content-Length")
      (a.body.map fun b => decimalText b.length)
    setOptional (setOptional headers (ascii "Content-Range") a.contentRange) (ascii "Location")
      a.location
  body :=
    match a.body with
    | none => response.body
    | some b => ⟨some b, b.length⟩

variable {type : FileDescriptorType} {host : Host} {globals : Globals} {request : HttpRequest}
  {response : HttpResponse}

theorem setCode_bare (hr : Usable response) {code : HttpResponseCode}
    (hd : getDefaultDescription code ≠ none) :
    httpResponseSetCode response code none = some ((bare code).apply response) := by
  obtain ⟨text, htext⟩ := Option.ne_none_iff_exists'.mp hd
  rw [setCode_default hr htext]
  simp only [Effect.apply, bare, descriptionOf, htext, Option.getD_some, Option.map_none,
    setOptional]

theorem redirect_eq (hr : Usable response) (url : List UInt8) :
    redirect host response url = some ((redirectEffect host url).apply response) := by
  have htext : getDefaultDescription .moveMovedPermanently = some (ascii "Moved Permanently") := rfl
  simp only [redirect, setCode_default hr htext, Option.bind_eq_bind, Option.bind_some, httpResponseSetHeader,
    Effect.apply, redirectEffect, setOptional, Option.map_none, setHeader_cstr]
  rfl

theorem magicCall_eq (globals : Globals) (hr : Usable response) (url : List UInt8) :
    (magicCall host globals request response url).map (·.1) =
      (magicEffect host request url).map (·.apply response) := by
  have hcode : ∀ code, getDefaultDescription code ≠ none →
      httpResponseSetCode response code none = some ((bare code).apply response) :=
    fun _ => setCode_bare hr
  cases hheader : getRequestHeader request (ascii "Authorization") with
  | none =>
    simp only [magicCall, magicEffect, hheader, generateNotFound, hcode .notFound (by decide),
      Option.bind_eq_bind, Option.bind_some, Option.map_some]
  | some code =>
    cases horder : memcmp (code ++ [0]) host.authorizationCode authorizationCodeLength with
    | none =>
      simp only [magicCall, magicEffect, hheader, horder, Option.bind_eq_bind, Option.bind_none,
        Option.map_none]
    | some order =>
      simp only [magicCall, magicEffect, hheader, horder, generateForbidden,
        hcode .forbidden (by decide), hcode .noContent (by decide),
        hcode .notImplemented (by decide), Option.bind_eq_bind, Option.bind_some, Option.map_some]
      split
      · rfl
      · split
        · rfl
        · split <;> rfl

theorem apply_rangeEffect (file : File) (range : Range) :
    (rangeEffect file range).map (·.apply response) =
      if realLength range file.size ≤ ((file.mapping.getD []).drop range.start).length then
        some (fileResponse response file range)
      else none := by
  rw [rangeEffect]
  split
  · rename_i hle
    have hlen : ((((file.mapping.getD []).drop range.start).take
        (realLength range file.size))).length = realLength range file.size := by
      rw [List.length_take, min_eq_left hle]
    rw [fileResponse]
    split <;> simp only [Option.map_some, Effect.apply, setOptional, hlen] <;> rfl
  · rfl

theorem serveFile_effect (hr : Usable response) (file : File) :
    serveFile request response file = (fileEffect request file).map (·.apply response) := by
  rw [fileEffect]
  cases hparse : parseRange ((getRequestHeader request (ascii "Range")).map (· ++ [0])) file.size with
  | none =>
    simp only [serveFile, hparse, Option.bind_eq_bind, Option.bind_none, Option.map_none]
  | some range => rw [serveFile_eq request file hr hparse, Option.bind_some, apply_rangeEffect]

theorem commonRequest_eq (hr : Usable response) (url : List UInt8) :
    (commonRequest host request response url).map (·.1) =
      (pathEffect host request url).map (·.apply response) := by
  have hcode : httpResponseSetCode response .notFound none = some ((bare .notFound).apply response) :=
    setCode_bare hr (by decide)
  cases hreal : host.realpath (cstr ((url ++ 0 :: host.stale).drop 1)) with
  | none =>
    simp only [commonRequest, pathEffect, hreal, generateNotFound, hcode, Option.bind_eq_bind,
      Option.bind_some, Option.map_some]
  | some path =>
    cases horder : memcmp (currentWorkingDirectory host.getcwd) (path ++ [0])
        (currentWorkingDirectory host.getcwd).length with
    | none =>
      simp only [commonRequest, pathEffect, hreal, horder, Option.bind_eq_bind, Option.bind_none,
        Option.map_none]
    | some order =>
      simp only [commonRequest, pathEffect, hreal, horder, generateNotFound, hcode,
        Option.bind_eq_bind, Option.bind_some]
      split
      · rfl
      · cases hopen : host.openFile path with
        | none => rfl
        | some file =>
          simp only [serveFile_effect hr]
          cases fileEffect request file <;> rfl

variable {a : Effect}

theorem magicEffect_cases {url : List UInt8} (h : magicEffect host request url = some a) :
    ∃ code, a = bare code ∧ getDefaultDescription code ≠ none := by
  rw [magicEffect] at h
  split at h
  · cases h
    exact ⟨_, rfl, by decide⟩
  · obtain ⟨order, -, rfl⟩ := Option.map_eq_some_iff.mp h
    split
    · exact ⟨_, rfl, by decide⟩
    · split
      · exact ⟨_, rfl, by decide⟩
      · split <;> exact ⟨_, rfl, by decide⟩

theorem pathEffect_cases {url : List UInt8} (h : pathEffect host request url = some a) :
    a = bare .notFound ∨ ∃ file range, rangeEffect file range = some a := by
  rw [pathEffect] at h
  split at h
  · cases h
    exact .inl rfl
  · obtain ⟨order, -, h⟩ := Option.bind_eq_some_iff.mp h
    split at h
    · cases h
      exact .inl rfl
    · split at h
      · cases h
        exact .inl rfl
      · obtain ⟨range, -, h⟩ := Option.bind_eq_some_iff.mp h
        exact .inr ⟨_, range, h⟩

theorem reply_cases {code : HttpErrorCode} (h : reply type host code request = some a) :
    (∃ c, a = bare c ∧ getDefaultDescription c ≠ none) ∨
      (code = .succeed ∧ a = redirectEffect host (urlOf request)) ∨
      ∃ file range, rangeEffect file range = some a := by
  rw [reply] at h
  split at h
  · cases h
    exact .inl ⟨_, rfl, by decide⟩
  · rename_i hcode
    rw [effect] at h
    split at h
    · cases h
      exact .inr (.inl ⟨not_not.mp hcode, rfl⟩)
    · split at h
      · exact .inl (magicEffect_cases h)
      · obtain rfl | hfile := pathEffect_cases h
        · exact .inl ⟨_, rfl, by decide⟩
        · exact .inr (.inr hfile)

theorem transaction_effect (hr : Usable response) :
    (handleHttpTransaction type host globals request response).map (·.response) =
      (effect type host request).map (·.apply response) := by
  simp only [handleHttpTransaction, effect]
  split
  · rw [redirect_eq hr]
    rfl
  · split
    · rw [← magicCall_eq globals hr]
      cases magicCall host globals request response (urlOf request) <;> rfl
    · rw [← commonRequest_eq hr]
      cases commonRequest host request response (urlOf request) <;> rfl

end Hss.Effects
