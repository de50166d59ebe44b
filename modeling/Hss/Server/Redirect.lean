import Hss.Server.Address
import Hss.Server.Effects
import Hss.Server.Url

namespace Hss.Redirect

open Hss.CString Hss.Headers Hss.Request Hss.Response Hss.DescriptorList Hss.Transaction
  Hss.StreamParser Hss.Meaning Hss.Refinement Hss.Grammar Hss.Acceptance Hss.Lookup Hss.Effects
  Hss.PartialContent Hss.Url Hss.Address

structure Parts where
  host : List UInt8
  port : Nat
  path : List UInt8
  deriving DecidableEq

/-- A host in brackets ends with the closing one, and any other before the first colon. -/
def hostPart (text : List UInt8) : List UInt8 :=
  if text.head? = some 91 then text.takeWhile (· ≠ 93) ++ [93] else text.takeWhile (· ≠ 58)

def splitLocation (location : List UInt8) : Option Parts :=
  if ascii "https://" <+: location then
    let text := location.drop 8
    let host := hostPart text
    let port := text.drop (host.length + 1)
    let path := port.dropWhile isdigit
    if text[host.length]? = some 58 ∧ path.head? = some 47 then
      some ⟨host, decimal (port.takeWhile isdigit), path⟩
    else none
  else none

def hostOf : SocketAddress → List UInt8
  | .inet a b c d => dotted a b c d
  | .inet6 address => 91 :: (inetNtop6 address ++ [93])

example : splitLocation (ascii "https://[::1]:443/x") = some ⟨ascii "[::1]", 443, ascii "/x"⟩ := by
  decide +kernel

def locationOf (response : HttpResponse) : Option (List UInt8) :=
  (lookupHeader response.headers (ascii "Location")).target.map (·.value)

/-- The location fits the buffer it is printed to, and its parts tell the address, the port and
the url. -/
structure Correct (address : SocketAddress) (url location : List UInt8) : Prop where
  fits : location.length < inet6AddrStrLen + url.length + 15
  split : splitLocation location = some ⟨hostOf address, httpsPort, url⟩
  address : ∀ other, hostOf other = hostOf address → other = address

def locationText (address : SocketAddress) (url : List UInt8) : List UInt8 :=
  ascii "https://" ++ (inetNtop address ++ 58 :: (decimalText httpsPort ++ url))

variable {address : SocketAddress} {host : Host} {globals : Globals} {request d d' : HttpRequest}
  {response : HttpResponse} {url b tail : List UInt8}

theorem not_mem_dotted (a b c d : UInt8) : 58 ∉ dotted a b c d := by
  have hdigits : ∀ n, 58 ∉ decimalText n := fun n h => absurd (decimalText_digit n 58 h) (by decide)
  simp only [dotted, List.mem_append, List.mem_cons, not_or]
  refine ⟨hdigits _, by decide, hdigits _, by decide, hdigits _, by decide, hdigits _⟩

theorem cstr_locationText (address : SocketAddress) (url : List UInt8) :
    cstr (locationText address (cstr url)) = locationText address (cstr url) := by
  refine cstr_of_not_mem ?_
  simp only [locationText, List.mem_append, List.mem_cons, not_or]
  refine ⟨by decide, fun h => absurd (printed_inetNtop address 0 h) (by decide), by decide,
    not_mem_decimalText _, not_mem_cstr url⟩

theorem location_tcp (hhost : host.address = inetNtop address) (hr : Usable response)
    (hurl : urlOf request = cstr url) (globals : Globals) :
    ∃ outcome, handleHttpTransaction .tcpSocket host globals request response = some outcome ∧
      locationOf outcome.response = some (locationText address (cstr url)) := by
  have htext : ascii "https://" ++ host.address ++ ascii ":" ++ decimalText httpsPort ++ cstr url =
      locationText address (cstr url) := by
    rw [hhost, locationText]
    simp only [List.append_assoc]
    rfl
  refine ⟨⟨(redirectEffect host (cstr url)).apply response, globals, none⟩, ?_, ?_⟩
  · simp only [handleHttpTransaction, if_true, hurl, redirect_eq hr, Option.bind_eq_bind,
      Option.bind_some]
  · simp only [locationOf, Effect.apply, redirectEffect, setOptional, htext, Option.map_none,
      lookupHeader_setHeader, cstr_locationText]

theorem head_inetNtop (address : SocketAddress) (rest : List UInt8) :
    (inetNtop address ++ 58 :: rest).head? ≠ some 91 := by
  have hprinted := printed_inetNtop address
  cases htext : inetNtop address with
  | nil => simp
  | cons c text =>
    intro h
    have hc : Printed c := hprinted c (htext ▸ List.mem_cons_self)
    rw [Option.some.inj h] at hc
    exact absurd hc (by decide)

theorem split_locationText (address : SocketAddress) (url : List UInt8) :
    let rest := inetNtop address ++ 58 :: (decimalText httpsPort ++ url)
    let host := rest.takeWhile (· ≠ 58)
    let port := rest.drop (host.length + 1)
    splitLocation (locationText address url) =
      if rest[host.length]? = some 58 ∧ (port.dropWhile isdigit).head? = some 47 then
        some ⟨host, decimal (port.takeWhile isdigit), port.dropWhile isdigit⟩
      else none := by
  intro rest host port
  have hprefix : ascii "https://" <+: locationText address url := List.prefix_append _ _
  have hdrop : (locationText address url).drop 8 = rest := List.drop_left' (by decide)
  have hhost : hostPart rest = host := if_neg (head_inetNtop address _)
  rw [splitLocation, if_pos hprefix]
  simp only [hdrop, hhost]
  rfl

theorem not_split_inet6 (address : In6Addr) (url : List UInt8) {parts : Parts}
    (h : splitLocation (locationText (.inet6 address) url) = some parts) :
    parts.host ≠ hostOf (.inet6 address) := by
  rw [split_locationText] at h
  split at h
  · cases h
    intro hhost
    have hhead := congrArg List.head? hhost
    rw [List.head?_takeWhile, hostOf, List.head?_cons, Option.filter_eq_some_iff] at hhead
    exact head_inetNtop _ _ hhead.1
  · cases h

theorem split_inet (a b c d : UInt8) (url : List UInt8) :
    splitLocation (locationText (.inet a b c d) url) =
      if (url.dropWhile isdigit).head? = some 47 then
        some ⟨dotted a b c d, decimal (decimalText httpsPort ++ url.takeWhile isdigit),
          url.dropWhile isdigit⟩
      else none := by
  have hnot : ∀ e ∈ dotted a b c d, decide (e ≠ 58) = true := by
    intro e he
    exact decide_eq_true fun h => not_mem_dotted a b c d (h ▸ he)
  have hhost : (dotted a b c d ++ 58 :: (decimalText httpsPort ++ url)).takeWhile (· ≠ 58) =
      dotted a b c d := (takeWhile_append_sep hnot (by rintro e ⟨⟩; rfl)).1
  have hdigits := decimalText_digit httpsPort
  rw [split_locationText, inetNtop, hhost]
  have hcolon : (dotted a b c d ++ 58 :: (decimalText httpsPort ++ url))[(dotted a b c d).length]? =
      some 58 := by simp
  have hport : (dotted a b c d ++ 58 :: (decimalText httpsPort ++ url)).drop
      ((dotted a b c d).length + 1) = decimalText httpsPort ++ url := by simp
  rw [hcolon, hport, List.takeWhile_append_of_pos hdigits, List.dropWhile_append_of_pos hdigits]
  simp only [true_and]

theorem hostOf_inet_injective {a b c d : UInt8} {other : SocketAddress}
    (h : hostOf other = hostOf (.inet a b c d)) : other = .inet a b c d := by
  cases other with
  | inet a' b' c' d' =>
    obtain ⟨rfl, rfl, rfl, rfl⟩ := dotted_injective h
    rfl
  | inet6 address =>
    have hmem : (91 : UInt8) ∈ hostOf (.inet a b c d) := by
      rw [← h]
      exact List.mem_cons_self
    exact absurd (printed_dotted a b c d 91 hmem) (by decide)

theorem fits_locationText (address : SocketAddress) (url : List UInt8) :
    (locationText address (cstr url)).length < inet6AddrStrLen + url.length + 15 := by
  have hscheme : (ascii "https://").length = 8 := by decide
  have hport : (decimalText httpsPort).length = 3 := by decide
  have htext := length_inetNtop address
  have hurl : (cstr url).length ≤ url.length := (List.takeWhile_sublist _).length_le
  simp only [locationText, List.length_append, List.length_cons, hscheme, hport]
  omega

theorem correct_locationText (address : SocketAddress) (url : List UInt8) :
    Correct address url (locationText address (cstr url)) ↔
      (∃ a b c d, address = .inet a b c d) ∧ url.head? = some 47 ∧ 0 ∉ url := by
  constructor
  · intro h
    cases address with
    | inet6 address => exact absurd rfl (not_split_inet6 address _ h.split)
    | inet a b c d =>
      have hsplit := h.split
      rw [split_inet] at hsplit
      split at hsplit
      · rename_i hhead
        have hurl : (cstr url).dropWhile isdigit = url :=
          congrArg Parts.path (Option.some.inj hsplit)
        rw [hurl] at hhead
        have hsub : url.Sublist (cstr url) := by
          have hdrop := List.dropWhile_sublist (l := cstr url) isdigit
          rwa [hurl] at hdrop
        exact ⟨⟨a, b, c, d, rfl⟩, hhead, fun hnul => not_mem_cstr url (hsub.subset hnul)⟩
      · cases hsplit
  · rintro ⟨⟨a, b, c, d, rfl⟩, hhead, hnul⟩
    refine ⟨fits_locationText _ _, ?_, fun other => hostOf_inet_injective⟩
    obtain ⟨path, rfl⟩ := List.head?_eq_some_iff.mp hhead
    have hslash : isdigit 47 = false := rfl
    rw [cstr_of_not_mem hnul, split_inet, List.takeWhile_cons_of_neg (by simp [hslash]),
      List.dropWhile_cons_of_neg (by simp [hslash]), if_pos hhead, List.append_nil,
      decimal_decimalText]
    rfl

/-- The Location value is right exactly for an IPv4 address and an accepted url that begins with a
slash and has no NUL. -/
theorem redirect_correct_iff (hd : Reachable d)
    (h : httpRequestFromBuffer d (b ++ tail) b.length = some (.succeed, d'))
    (hhost : host.address = inetNtop address) (hr : Usable response) (globals : Globals) :
    ∃ r : RequestForm, r.Loose ∧ r.bytes = b ∧ ∃ outcome location,
      handleHttpTransaction .tcpSocket host globals d' response = some outcome ∧
      locationOf outcome.response = some location ∧
      (Correct address r.url location ↔
        (∃ a b c d, address = .inet a b c d) ∧ r.url.head? = some 47 ∧ 0 ∉ r.url) := by
  obtain ⟨r, hform, hbytes, hurl⟩ := urlOf_accepted hd h
  obtain ⟨outcome, hdone, hlocation⟩ := location_tcp hhost hr hurl globals
  exact ⟨r, hform, hbytes, outcome, _, hdone, hlocation, correct_locationText address r.url⟩

theorem redirect_correct_iff_root : ∃ d' outcome location,
    httpRequestFromBuffer (httpRequestInitialize freshBlock) ((getRequest [47] []).bytes ++ [])
        (getRequest [47] []).bytes.length = some (.succeed, d') ∧
      handleHttpTransaction .tcpSocket smallHost ⟨true, .information⟩ d' freshResponse =
        some outcome ∧
      locationOf outcome.response = some location ∧ Correct (.inet 127 0 0 1) [47] location := by
  have hform : (getRequest [47] []).Loose :=
    (legible_getRequest (by simp [Solid, isspace]) (by simp) (by simp)).loose List.nodup_nil
  obtain ⟨headers, h, -⟩ := loose_fromBuffer (clean_fresh freshBlock) hform []
  have haddress : smallHost.address = inetNtop (.inet 127 0 0 1) := by decide +kernel
  have hr : Usable freshResponse := by decide
  obtain ⟨r, hr, hbytes, outcome, location, hdone, hlocation, hiff⟩ :=
    redirect_correct_iff (.fresh freshBlock) h haddress hr ⟨true, .information⟩
  obtain rfl := loose_unique hr hform hbytes
  exact ⟨_, outcome, location, h, hdone, hlocation,
    hiff.mpr ⟨⟨127, 0, 0, 1, rfl⟩, rfl, by decide⟩⟩

def loopback : SocketAddress := .inet6 ⟨[0, 0, 0, 0, 0, 0, 0, 1], rfl⟩

/-- An IPv6 address is not put in brackets, and a url without a slash runs into the port. -/
theorem location_not_split :
    httpRequestFromBuffer (httpRequestInitialize freshBlock) (ascii "GET / H\r\n\r\n") 11 =
        some (.succeed, plainRequest (ascii "/")) ∧
      (handleHttpTransaction .tcpSocket { smallHost with address := inetNtop loopback }
          ⟨true, .information⟩ (plainRequest (ascii "/")) freshResponse).bind
        (locationOf ·.response) = some (ascii "https://::1:443/") ∧
      ¬ Correct loopback [47] (ascii "https://::1:443/") ∧
      ¬ Correct (.inet 127 0 0 1) (ascii "0/f") (ascii "https://127.0.0.1:4430/f") := by
  refine ⟨rfl, by decide +kernel, fun h => absurd h.split (by decide +kernel), fun h => ?_⟩
  exact absurd h.split (by decide +kernel)

end Hss.Redirect
