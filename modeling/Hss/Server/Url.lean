import Hss.Http.Lookup
import Hss.Server.PartialContent

namespace Hss.Url

open Hss.CString Hss.Headers Hss.Request Hss.DescriptorList Hss.Transaction Hss.Meaning
  Hss.Refinement Hss.Grammar Hss.Acceptance Hss.Lookup Hss.PartialContent

def ReachesLookup (type : FileDescriptorType) (request : HttpRequest) : Prop :=
  type ≠ .tcpSocket ∧ strncmp (urlOf request) (ascii "/magic-call/") 12 ≠ .eq

instance (type : FileDescriptorType) (request : HttpRequest) :
    Decidable (ReachesLookup type request) := inferInstanceAs (Decidable (_ ∧ _))

/-- Where the file lookup is reached the url begins with a slash, as is asserted there,
and what `realpath` is asked for is the url without it. -/
def SlashHolds (type : FileDescriptorType) (host : Host) (request : HttpRequest) : Prop :=
  ReachesLookup type request → ∃ path, urlOf request = 47 :: path ∧
    cstr ((urlOf request ++ 0 :: host.stale).drop 1) = path

variable {d d' : HttpRequest} {b tail s : List UInt8}

theorem urlOf_parsed (d : HttpRequest) (text : RequestText) :
    urlOf (parsedRequest d text) = cstr text.url := by
  simp [urlOf, httpRequestGetUrl, parsedRequest]

theorem urlOf_accepted (hd : Reachable d)
    (h : httpRequestFromBuffer d (b ++ tail) b.length = some (.succeed, d')) :
    ∃ r : RequestForm, r.Loose ∧ r.bytes = b ∧ urlOf d' = cstr r.url := by
  obtain ⟨text, hreply⟩ := (accepts_iff_reply hd.clean b tail).mp ⟨d', h⟩
  obtain ⟨r, hr, rfl⟩ := loose_of_accepted hreply
  obtain ⟨headers, hs, -⟩ := loose_fromBuffer hd.clean hr tail
  cases h.symm.trans hs
  exact ⟨r, hr, rfl, urlOf_parsed d _⟩

/-- If the text is a request, its url does not begin with a NUL. -/
def Named (b : List UInt8) : Prop := ∀ r : RequestForm, r.Loose → r.bytes = b → r.url.head? ≠ some 0

theorem named_of_not_mem (h : 0 ∉ b) : Named b := by
  rintro r - rfl hhead
  have hmem : 0 ∈ r.url := List.mem_of_head? hhead
  refine h ?_
  simp [RequestForm.bytes, hmem]

theorem Named.urlOf_ne_nil (hnamed : Named b) (hd : Reachable d)
    (h : httpRequestFromBuffer d (b ++ tail) b.length = some (.succeed, d')) : urlOf d' ≠ [] := by
  obtain ⟨r, hr, hb, hurl⟩ := urlOf_accepted hd h
  rw [hurl]
  cases hcontents : r.url with
  | nil => exact absurd hcontents hr.url.2
  | cons c rest =>
    have hc : c ≠ 0 := by
      rintro rfl
      exact hnamed r hr hb (by rw [hcontents, List.head?_cons])
    simp [cstr, hc]

theorem head_cstr {c : UInt8} (hc : c ≠ 0) : (cstr s).head? = some c ↔ s.head? = some c := by
  cases s with
  | nil => rfl
  | cons a s =>
    by_cases ha : a = 0
    · simp [cstr, ha, hc.symm]
    · simp [cstr, ha]

/-- The url of an accepted request begins with a slash exactly if the token does that
stands behind the method. -/
theorem slash_holds_iff {type : FileDescriptorType} (htype : type ≠ .tcpSocket) (hd : Reachable d)
    (h : httpRequestFromBuffer d (b ++ tail) b.length = some (.succeed, d')) (host : Host) :
    ∃ r : RequestForm, r.Loose ∧ r.bytes = b ∧
      (SlashHolds type host d' ↔ r.url.head? = some 47) := by
  obtain ⟨r, hr, hb, hurl⟩ := urlOf_accepted hd h
  refine ⟨r, hr, hb, ?_⟩
  have hslash : (urlOf d').head? = some 47 ↔ r.url.head? = some 47 := by
    rw [hurl]
    exact head_cstr (by decide)
  rw [← hslash]
  constructor
  · intro hholds
    by_cases hmagic : strncmp (urlOf d') (ascii "/magic-call/") 12 = .eq
    · have hlength : (ascii "/magic-call/").length = 12 := by decide
      rw [← hlength] at hmagic
      obtain ⟨rest, hrest⟩ := strncmp_prefix (by decide) hmagic
      rw [← hrest]
      rfl
    · obtain ⟨path, hpath, -⟩ := hholds ⟨htype, hmagic⟩
      rw [hpath, List.head?_cons]
  · intro hhead _
    obtain ⟨path, hpath⟩ := List.head?_eq_some_iff.mp hhead
    refine ⟨path, hpath, ?_⟩
    have hnul : 0 ∉ path := by
      have hall := not_mem_cstr r.url
      rw [← hurl, hpath] at hall
      exact fun hm => hall (List.mem_cons_of_mem 47 hm)
    rw [hpath]
    exact cstr_append_nul hnul host.stale

theorem slash_holds_iff_root : ∃ d',
    httpRequestFromBuffer (httpRequestInitialize freshBlock) ((getRequest [47] []).bytes ++ [])
        (getRequest [47] []).bytes.length = some (.succeed, d') ∧
      SlashHolds .tlsSocket smallHost d' := by
  have hform : (getRequest [47] []).Loose :=
    (legible_getRequest (by simp [Solid, isspace]) (by simp) (by simp)).loose List.nodup_nil
  obtain ⟨headers, h, -⟩ := loose_fromBuffer (clean_fresh freshBlock) hform []
  have htls : FileDescriptorType.tlsSocket ≠ .tcpSocket := by decide
  obtain ⟨r, hr, hbytes, hiff⟩ := slash_holds_iff htls (.fresh freshBlock) h smallHost
  obtain rfl := loose_unique hr hform hbytes
  exact ⟨_, h, hiff.mpr rfl⟩

/-- A url without a slash is accepted, and looked up without its first byte. -/
theorem slash_missing : ∃ d',
    httpRequestFromBuffer (httpRequestInitialize freshBlock) (ascii "GET xf H\r\n\r\n" ++ [])
        (ascii "GET xf H\r\n\r\n").length = some (.succeed, d') ∧
      ReachesLookup .tlsSocket d' ∧ ¬ SlashHolds .tlsSocket smallHost d' := by
  refine ⟨_, rfl, by decide, fun h => ?_⟩
  obtain ⟨path, hpath, -⟩ := h (by decide)
  cases hpath

end Hss.Url
