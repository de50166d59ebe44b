import Hss.Server.Confinement
import Hss.Server.PartialContent

namespace Hss.PrivateKey

open Hss.CString Hss.Headers Hss.Request Hss.Response Hss.Range Hss.DescriptorList Hss.Transaction
  Hss.PartialContent Hss.Confinement

structure FileSystem where
  getcwd : List UInt8
  realpath : List UInt8 → Option (List UInt8)
  inode : List UInt8 → Option Nat
  file : Nat → File

def FileSystem.host (fs : FileSystem) (host : Host) : Host :=
  { host with
    getcwd := fs.getcwd
    realpath := fs.realpath
    openFile := fun path => (fs.inode path).map fs.file }

def FileSystem.write (fs : FileSystem) (inode : Nat) (content : List UInt8) : FileSystem :=
  { fs with file := Function.update fs.file inode (regularFile content) }

/-- The file that `get_credential` loads the key from. -/
def FileSystem.keyFile (fs : FileSystem) : Option Nat :=
  (fs.realpath (ascii "keys/cnlab.prikey")).bind fs.inode

/-- The lengths below which an `off_t` can tell the length of a file. -/
def offMax : Nat := 2 ^ 63

def answerOf (response : HttpResponse) : HttpResponseCode × List Header × Body :=
  (response.stateLine.code, response.headers, response.body)

/-- With any two contents of the key file, the request is answered in the same way. -/
def KeyUnused (type : FileDescriptorType) (fs : FileSystem) (host : Host) (globals : Globals)
    (request : HttpRequest) (response : HttpResponse) : Prop :=
  ∀ key A B, fs.keyFile = some key → A.length < offMax → B.length < offMax →
    (handleHttpTransaction type ((fs.write key A).host host) globals request response).map
        (answerOf ·.response) =
      (handleHttpTransaction type ((fs.write key B).host host) globals request response).map
        (answerOf ·.response)

/-- The url leads to the key file, and the comparison with the current directory
lets it pass. -/
structure AsksForKey (type : FileDescriptorType) (fs : FileSystem) (host : Host)
    (request : HttpRequest) (path : List UInt8) (key : Nat) : Prop where
  type : type ≠ .tcpSocket
  common : strncmp (urlOf request) (ascii "/magic-call/") 12 ≠ .eq
  resolved : fs.realpath (cstr ((urlOf request ++ 0 :: host.stale).drop 1)) = some path
  confined : memcmp (currentWorkingDirectory fs.getcwd) (path ++ [0])
    (currentWorkingDirectory fs.getcwd).length = some .eq
  keyFile : fs.keyFile = some key
  inode : fs.inode path = some key

/-- The range that the request asks for lies in what can be read of a file with this
content. -/
def Sendable (request : HttpRequest) (content : List UInt8) : Prop :=
  ∃ range, parseRange ((getRequestHeader request (ascii "Range")).map (· ++ [0])) content.length =
      some range ∧
    realLength range content.length ≤ ((mappedPages content).drop range.start).length

variable {type : FileDescriptorType} {fs : FileSystem} {host : Host} {globals : Globals}
  {request : HttpRequest} {response : HttpResponse} {path A B : List UInt8} {key : Nat}

theorem contentRange_size {range range' : Range} {n n' : Nat}
    (h : contentRange range n = contentRange range' n') : n = n' := by
  have hsplit : ∀ (r : Range) n, contentRange r n =
      (ascii "bytes " ++ decimalText r.start ++ ascii "-" ++ decimalText (r.end_ - 1)) ++
        47 :: decimalText n := by
    intro r n
    rw [contentRange, List.append_assoc _ (ascii "/")]
    rfl
  have hdigits : ∀ m, 47 ∉ decimalText m := fun m hm => by
    have hdigit := decimalText_digit m 47 hm
    exact absurd hdigit (by decide)
  have hbefore : ∀ r : Range, 47 ∉
      ascii "bytes " ++ decimalText r.start ++ ascii "-" ++ decimalText (r.end_ - 1) := by
    intro r
    simp only [List.mem_append, not_or]
    exact ⟨⟨⟨by decide, hdigits _⟩, by decide⟩, hdigits _⟩
  rw [hsplit, hsplit] at h
  exact decimalText_injective (Path.eq_of_append_sep (hbefore _) (hbefore _) h).2

theorem length_of_answer {file file' : File} {range range' : Range}
    (h : answerOf (fileResponse response file range) =
      answerOf (fileResponse response file' range')) : file.size = file'.size := by
  simp only [answerOf, fileResponse] at h
  split at h
  · rename_i hfull
    split at h
    · rename_i hfull'
      have hlength := congrArg (·.2.2.length) h
      simpa only [realLength, if_pos hfull, if_pos hfull'] using hlength
    · cases congrArg (·.1) h
  · split at h
    · cases congrArg (·.1) h
    · have hheaders := congrArg (·.2.1) h
      have hvalue := congrArg (fun headers =>
        (lookupHeader headers (ascii "Content-Range")).target.map (·.value)) hheaders
      simp only [lookupHeader_setHeader, cstr_contentRange, Option.some.injEq] at hvalue
      exact contentRange_size hvalue

theorem serveFile_regular (request : HttpRequest) (hr : Usable response) (content : List UInt8) :
    (Sendable request content ∧ ∃ range, serveFile request response (regularFile content) =
      some (fileResponse response (regularFile content) range)) ∨
    ¬ Sendable request content ∧ serveFile request response (regularFile content) = none := by
  cases hparse : parseRange ((getRequestHeader request (ascii "Range")).map (· ++ [0]))
      content.length with
  | none =>
    refine .inr ⟨?_, ?_⟩
    · rintro ⟨range, hrange, -⟩
      cases hparse.symm.trans hrange
    · simp only [serveFile, regularFile, hparse, Option.bind_eq_bind, Option.bind_none]
  | some range =>
    have hserve := serveFile_eq request (regularFile content) hr hparse
    split at hserve
    · rename_i hle
      exact .inl ⟨⟨range, hparse, hle⟩, range, hserve⟩
    · rename_i hle
      refine .inr ⟨?_, hserve⟩
      rintro ⟨range', hrange', hle'⟩
      cases hparse.symm.trans hrange'
      exact hle hle'

theorem AsksForKey.opens (h : AsksForKey type fs host request path key) (content : List UInt8) :
    Opens ((fs.write key content).host host) request path content where
  common := h.common
  resolved := h.resolved
  confined := h.confined
  opened := by
    simp only [FileSystem.host, FileSystem.write, h.inode, Option.map_some, Function.update_self]

theorem transaction_congr (host : Host) {files : List UInt8 → Option File}
    (h : ∀ path, openCall type host request = some path → files path = host.openFile path) :
    handleHttpTransaction type { host with openFile := files } globals request response =
      handleHttpTransaction type host globals request response := by
  simp only [handleHttpTransaction]
  split
  · rfl
  · rename_i htype
    split
    · rfl
    · rename_i hmagic
      simp only [commonRequest]
      split
      · rfl
      · rename_i path hreal
        cases horder : memcmp (currentWorkingDirectory host.getcwd) (path ++ [0])
            (currentWorkingDirectory host.getcwd).length with
        | none => rfl
        | some order =>
          by_cases heq : order = .eq
          · rw [heq] at horder
            rw [h path (openCall_eq_some.mpr ⟨htype, hmagic, hreal, horder⟩)]
          · simp only [Option.bind_eq_bind, Option.bind_some, ne_eq, heq, not_false_eq_true,
              if_true]

theorem write_unused (h : ∀ path, openCall type (fs.host host) request = some path →
    fs.inode path ≠ some key) (content : List UInt8) :
    handleHttpTransaction type ((fs.write key content).host host) globals request response =
      handleHttpTransaction type (fs.host host) globals request response := by
  apply transaction_congr (fs.host host)
  intro path hopen
  have hne := h path hopen
  simp only [FileSystem.host, FileSystem.write]
  cases hinode : fs.inode path with
  | none => rfl
  | some inode =>
    rw [hinode] at hne
    rw [Option.map_some, Option.map_some,
      Function.update_of_ne fun he => hne (congrArg some he)]

/-- The content of the key file has an effect on the answer exactly if the request
leads to it and some content can be sent for its range. -/
theorem key_unused_iff (hr : Usable response) :
    KeyUnused type fs host globals request response ↔
      ¬ ∃ path key content, AsksForKey type fs host request path key ∧ content.length < offMax ∧
        Sendable request content := by
  constructor
  · rintro hunused ⟨path, key, A, hasks, hlength, hsend⟩
    obtain ⟨B, hB, hne⟩ : ∃ B : List UInt8, B.length < offMax ∧ B.length ≠ A.length := by
      cases A with
      | nil => exact ⟨[0], by decide, by decide⟩
      | cons a A => exact ⟨[], by decide, by simp⟩
    have hsame := hunused key A B hasks.keyFile hlength hB
    rw [transaction_opens hasks.type (hasks.opens A), transaction_opens hasks.type (hasks.opens B)]
      at hsame
    obtain ⟨-, range, hserve⟩ | ⟨hno, -⟩ := serveFile_regular request hr A
    · rw [hserve] at hsame
      obtain ⟨-, range', hserve'⟩ | ⟨-, hserve'⟩ := serveFile_regular request hr B
      · rw [hserve'] at hsame
        exact hne (length_of_answer (Option.some.inj hsame)).symm
      · rw [hserve'] at hsame
        cases hsame
    · exact hno hsend
  · intro hnot key A B hkey hA hB
    by_cases hasks : ∃ path, AsksForKey type fs host request path key
    · obtain ⟨path, hasks⟩ := hasks
      have hnone : ∀ content : List UInt8, content.length < offMax →
          serveFile request response (regularFile content) = none := by
        intro content hlength
        obtain ⟨hsend, -⟩ | ⟨-, hserve⟩ := serveFile_regular request hr content
        · exact absurd ⟨path, key, content, hasks, hlength, hsend⟩ hnot
        · exact hserve
      rw [transaction_opens hasks.type (hasks.opens A), hnone A hA,
        transaction_opens hasks.type (hasks.opens B), hnone B hB]
    · have hother : ∀ path, openCall type (fs.host host) request = some path →
          fs.inode path ≠ some key := by
        intro path hopen hinode
        obtain ⟨htype, hcommon, hresolved, hconfined⟩ := openCall_eq_some.mp hopen
        exact hasks ⟨path, htype, hcommon, hresolved, hconfined, hkey, hinode⟩
      rw [write_unused hother A, write_unused hother B]

def keyStore : FileSystem where
  getcwd := ascii "/srv"
  realpath name := some (ascii "/srv/" ++ name)
  inode path :=
    if path = ascii "/srv/keys/cnlab.prikey" then some 0
    else if path = ascii "/srv/f" then some 1
    else none
  file _ := regularFile (ascii "0123456789")

theorem key_unused_iff_f :
    KeyUnused .tlsSocket keyStore smallHost ⟨true, .information⟩ (plainRequest (ascii "/f"))
      freshResponse := by
  refine (key_unused_iff (by decide)).mpr ?_
  rintro ⟨path, key, content, hasks, -⟩
  have hpath : some (ascii "/srv/f") = some path := hasks.resolved
  have hkey : some 0 = some key := hasks.keyFile
  have hinode := hasks.inode
  rw [← Option.some.inj hpath, ← Option.some.inj hkey] at hinode
  cases hinode

/-- The key file is served like any other file below the current directory. -/
theorem key_in_body : ¬ KeyUnused .tlsSocket keyStore smallHost ⟨true, .information⟩
    (plainRequest (ascii "/keys/cnlab.prikey")) freshResponse := by
  intro h
  have hsame := h 0 (ascii "A") (ascii "B") (by decide) (by decide) (by decide)
  exact absurd hsame (by decide +kernel)

end Hss.PrivateKey
