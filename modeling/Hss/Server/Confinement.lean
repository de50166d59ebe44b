import Hss.Lib.Path
import Hss.Server.MainLoop
import Hss.Server.Leak

namespace Hss.Confinement

open Hss.CString Hss.Request Hss.Response Hss.DescriptorList Hss.Transaction Hss.StreamParser
  Hss.Meaning Hss.Acceptance Hss.Transport Hss.Connection Hss.Tls Hss.Transfer Hss.Exchange
  Hss.Session Hss.Leak Hss.MainLoop

structure Name (name : List UInt8) : Prop where
  component : Path.Component 47 name
  noNul : 0 ∉ name
  ne_dot : name ≠ ascii "."
  ne_dotdot : name ≠ ascii ".."

/-- What `realpath` and `getcwd` return. -/
def Canonical (path : List UInt8) : Prop :=
  ∃ names, (∀ name ∈ names, Name name) ∧ path = Path.absolute 47 names

/-- The path that `open` is called with, whatever the answer is then. -/
def openCall (type : FileDescriptorType) (host : Host) (request : HttpRequest) :
    Option (List UInt8) :=
  let url := urlOf request
  let cwd := currentWorkingDirectory host.getcwd
  if type = .tcpSocket ∨ strncmp url (ascii "/magic-call/") 12 = .eq then none
  else (host.realpath (cstr ((url ++ 0 :: host.stale).drop 1))).filter fun path =>
    memcmp cwd (path ++ [0]) cwd.length = some .eq

/-- The path is in the directory, or it is the directory and that is the root. -/
def Inside (directory path : List UInt8) : Prop :=
  ∃ d p, (∀ name ∈ d, Name name) ∧ (∀ name ∈ p, Name name) ∧ directory = Path.absolute 47 d ∧
    path = Path.absolute 47 p ∧ d <+: p ∧ (d = [] ∨ d ≠ p)

structure Confined (directory path : List UInt8) : Prop where
  below : currentWorkingDirectory directory <+: path
  inside : Inside directory path
  notBeside : directory ≠ ascii "/" → ∀ extension, extension.head? ≠ some 47 →
    path ≠ directory ++ extension
  notShorter : (currentWorkingDirectory directory).length ≤ path.length

variable {type : FileDescriptorType} {host : Host} {globals : Globals} {request : HttpRequest}
  {response : HttpResponse} {outcome : Outcome} {directory path : List UInt8}

theorem text_noNul {names : List (List UInt8)} (h : ∀ name ∈ names, Name name) :
    0 ∉ Path.text 47 names := by
  intro hmem
  obtain ⟨name, hname, hzero⟩ := List.mem_flatMap.mp hmem
  obtain hzero | hzero := List.mem_cons.mp hzero
  · cases hzero
  · exact (h name hname).noNul hzero

theorem Canonical.noNul (h : Canonical directory) : 0 ∉ currentWorkingDirectory directory := by
  obtain ⟨names, hnames, rfl⟩ := h
  have hslashed := Path.slashed_absolute fun name hn => (hnames name hn).component
  intro hmem
  rw [show currentWorkingDirectory = Path.slashed 47 from rfl, hslashed] at hmem
  obtain hmem | hmem := List.mem_append.mp hmem
  · exact text_noNul hnames hmem
  · cases List.mem_singleton.mp hmem

theorem Canonical.getLast (h : Canonical directory) (hroot : directory ≠ ascii "/") :
    directory.getLast? ≠ some 47 := by
  obtain ⟨names, hnames, rfl⟩ := h
  apply Path.getLast_absolute fun name hn => (hnames name hn).component
  rintro rfl
  exact hroot rfl

theorem confined_of_prefix (hdirectory : Canonical directory) (hpath : Canonical path)
    (h : currentWorkingDirectory directory <+: path) : Confined directory path where
  below := h
  inside := by
    obtain ⟨d, hd, rfl⟩ := hdirectory
    obtain ⟨p, hp, rfl⟩ := hpath
    have hiff := Path.slashed_prefix_iff (fun name hn => (hd name hn).component)
      fun name hn => (hp name hn).component
    exact ⟨d, p, hd, hp, rfl, rfl, hiff.mp h⟩
  notBeside hroot _ hext := Path.ne_append_of_slashed_prefix (hdirectory.getLast hroot) h hext
  notShorter := h.length_le

theorem openCall_eq_some : openCall type host request = some path ↔
    type ≠ .tcpSocket ∧ strncmp (urlOf request) (ascii "/magic-call/") 12 ≠ .eq ∧
      host.realpath (cstr ((urlOf request ++ 0 :: host.stale).drop 1)) = some path ∧
      memcmp (currentWorkingDirectory host.getcwd) (path ++ [0])
        (currentWorkingDirectory host.getcwd).length = some .eq := by
  rw [openCall]
  split
  · rename_i h
    simp only [reduceCtorEq, false_iff]
    rintro ⟨htype, hmagic, -⟩
    exact h.elim htype hmagic
  · rename_i h
    rw [not_or] at h
    simp only [Option.filter_eq_some_iff, decide_eq_true_eq, h, ne_eq, not_false_eq_true, true_and]

theorem transaction_opened
    (h : handleHttpTransaction type host globals request response = some outcome) :
    outcome.opened = openCall type host request := by
  rw [handleHttpTransaction] at h
  rw [openCall]
  split at h
  · rename_i htype
    obtain ⟨response', -, h⟩ := Option.bind_eq_some_iff.mp h
    cases h
    rw [if_pos (.inl htype)]
  · rename_i htype
    split at h
    · rename_i hmagic
      obtain ⟨⟨response', globals'⟩, -, h⟩ := Option.bind_eq_some_iff.mp h
      cases h
      rw [if_pos (.inr hmagic)]
    · rename_i hmagic
      obtain ⟨⟨response', opened⟩, hcommon, h⟩ := Option.bind_eq_some_iff.mp h
      cases h
      rw [if_neg (not_or.mpr ⟨htype, hmagic⟩)]
      simp only [commonRequest] at hcommon
      split at hcommon
      · rename_i hreal
        obtain ⟨found, -, hcommon⟩ := Option.bind_eq_some_iff.mp hcommon
        cases hcommon
        rw [hreal, Option.filter_none]
      · rename_i canonicalizedUrl hreal
        obtain ⟨order, horder, hcommon⟩ := Option.bind_eq_some_iff.mp hcommon
        rw [hreal]
        split at hcommon
        · rename_i hne
          obtain ⟨found, -, hcommon⟩ := Option.bind_eq_some_iff.mp hcommon
          cases hcommon
          rw [Option.filter_some, horder, if_neg (by simpa using hne)]
        · rename_i heq
          rw [Option.filter_some, horder, not_not.mp heq, if_pos (by simp)]
          split at hcommon <;>
          · obtain ⟨found, -, hcommon⟩ := Option.bind_eq_some_iff.mp hcommon
            cases hcommon
            rfl

theorem openCall_confined (hdirectory : Canonical host.getcwd)
    (hreal : ∀ name path, host.realpath name = some path → Canonical path)
    (h : openCall type host request = some path) :
    type ≠ .tcpSocket ∧ Confined host.getcwd path := by
  obtain ⟨htype, -, hresolved, horder⟩ := openCall_eq_some.mp h
  have hbelow := (memcmp_eq_iff hdirectory.noNul).mp horder
  exact ⟨htype, confined_of_prefix hdirectory (hreal _ _ hresolved) hbelow⟩

/-- In every state of a run, what handling a connection opens is the path its accepted
request resolves to; a path is opened over TLS only, and only below the current
directory. -/
theorem served_files_confined {σ : Type} {outside : Outside σ} (htcp : Honest outside.tcp)
    (hgnutls : Bounded outside.gnutls) {s : Server σ} (hreach : Reachable outside s) {a : Address}
    {rest : List (Address × EpollEvents)} {e : FileDescriptorInformation (Peer σ)} {p : Peer σ}
    {env : Environment} {r : Handled σ} (h : Handles outside s a rest e p env r)
    (hdirectory : Canonical env.host.getcwd)
    (hreal : ∀ name path, env.host.realpath name = some path → Canonical path) :
    (∀ path, r.opened = some path → ∃ window, r.parsed = some window ∧ Accepted window ∧
      openCall p.information.type env.host (requestOf window) = some path) ∧
    ∀ window path, r.parsed = some window → Accepted window →
      openCall p.information.type env.host (requestOf window) = some path →
      p.information.type = .tlsSocket ∧ Confined env.host.getcwd path := by
  have hsane := hreach.sane
  have htype := (hsane.owned a p h.connectionAt).type_ne_listen
  constructor
  · intro path hopened
    cases h.makes hsane htcp hgnutls with
    | nothing _ _ hnone => cases hnone.symm.trans hopened
    | call hsock hrun hcall _ hparsed _ hcalled =>
      obtain ⟨v, hrep, -⟩ := hrun.represented hsock
      rw [hcalled] at hopened
      obtain ⟨-, hnone⟩ | ⟨window, outcome, hwindow, haccepted, hdone, -, hsame⟩ :=
        call_transaction hsock hrep hcall
      · cases hnone.symm.trans hopened
      · refine ⟨window, hparsed.trans hwindow, haccepted, ?_⟩
        rw [← transaction_opened hdone, ← hsame, hopened]
  · intro window path _ _ hopen
    obtain ⟨htls, hconfined⟩ := openCall_confined hdirectory hreal hopen
    exact ⟨htype.resolve_left htls, hconfined⟩

def canonicalHost : Host :=
  { smallHost with realpath := fun name => if name = ascii "f" then some (ascii "/srv/f") else none }

theorem canonical_one {name : List UInt8} (h : Name name) : Canonical (47 :: name) :=
  ⟨[name], by simpa using h, by simp [Path.absolute]⟩

/-- The file is opened for the first connection. -/
theorem served_files_confined_f :
    ∃ (s : Server (List UInt8 × List Nat)) (e : FileDescriptorInformation _) (p : Peer _)
      (r : Handled _), Reachable secured s ∧
      Handles secured s 1 [] e p ⟨roomy, canonicalHost⟩ r ∧
      r.opened = some (ascii "/srv/f") ∧ p.information.type = .tlsSocket ∧
      Confined (ascii "/srv") (ascii "/srv/f") := by
  have hopens : firstCall canonicalHost 0 firstGlobals (ascii "GET /f H\r\n\r\n")
      (fun r => r.opened = some (ascii "/srv/f")) = true := by
    decide +kernel
  obtain ⟨p, r, c, ⟨hp, -, hr, -⟩, hopened⟩ := called_of_firstCall hopens
  have hopened := of_decide_eq_true hopened
  obtain ⟨s, e, hreach, hhandles, -⟩ :=
    served_handles secured (by decide) ([], []) (ascii "GET /f H\r\n\r\n", []) hp hr
  have hsrv : Name (ascii "srv") := ⟨⟨by decide, by decide⟩, by decide, by decide, by decide⟩
  have hf : Name (ascii "f") := ⟨⟨by decide, by decide⟩, by decide, by decide, by decide⟩
  have hreal : ∀ name path, canonicalHost.realpath name = some path → Canonical path := by
    intro name path h
    obtain ⟨-, h⟩ := Option.ite_none_right_eq_some.mp h
    cases h
    exact ⟨[ascii "srv", ascii "f"], by simpa using ⟨hsrv, hf⟩, by decide⟩
  obtain ⟨hopens, hconfined⟩ := served_files_confined honest_chunked
    (bounded_unprotected honest_chunked) hreach hhandles (canonical_one hsrv) hreal
  obtain ⟨window, hparsed, haccepted, hcall⟩ := hopens _ hopened
  obtain ⟨htls, hinside⟩ := hconfined window _ hparsed haccepted hcall
  exact ⟨s, e, p, r, hreach, hhandles, hopened, htls, hinside⟩

end Hss.Confinement
