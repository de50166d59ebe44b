import Hss.Server.Sockets

namespace Hss.Polling

open Hss.DescriptorList Hss.Transaction Hss.Connection Hss.Tls Hss.MainLoop Hss.Sockets

variable {σ : Type}

structure World (σ : Type) where
  server : Server σ
  descriptors : List Int
  interest : List (Int × Address)

def World.sockets (w : World σ) : Sockets.State (Peer σ) :=
  ⟨w.server.registry, w.descriptors, w.interest⟩

def withSockets (server : Server σ) (s : Sockets.State (Peer σ)) : World σ where
  server := { server with registry := s.registry }
  descriptors := s.descriptors
  interest := s.interest

/-- The type under which `accept_connection` keeps a connection, if it keeps it. -/
def keptType (ports : Ports) (answers : AcceptAnswers) : Option FileDescriptorType :=
  let port := ntohs answers.port
  if answers.accept = -1 then none
  else if answers.family ≠ .inet ∧ answers.family ≠ .inet6 then none
  else if port ≠ ports.httpPort ∧ port ≠ ports.httpsPort then none
  else some (if port = ports.httpPort then .tcpSocket else .tlsSocket)

/-- The step opens and closes nothing, and is not the wait. -/
structure Internal (s s' : Server σ) : Prop where
  entries : ∀ a, (s'.registry.entries a).map (fun e => (e.fileDescriptor, e.prev)) =
    (s.registry.entries a).map fun e => (e.fileDescriptor, e.prev)
  phase : s.phase = .waiting → s'.phase = .leaving

/-- The steps of `main` with the sockets they open and close; `epoll_wait` reports entries of
the interest list. -/
inductive Turn (outside : Outside σ) (ports : Ports) : World σ → World σ → Prop
  | listen {w : World σ} {s : Sockets.State (Peer σ)} (a : Address) (answers : ListenAnswers)
      (peer : Int → FileDescriptorType → Peer σ) : w.server.phase = .listening →
      answers.family ≠ .other → Fresh w.sockets a answers.socket →
      listenAddress peer w.sockets a answers = some s →
      Turn outside ports w (withSockets w.server s)
  | wait {w : World σ} (events : List (Address × EpollEvents)) : w.server.phase = .waiting →
      w.server.globals.running = true → events.length ≤ 128 →
      (events.map (·.1)).Subperm (w.interest.map (·.2)) →
      Turn outside ports w (withSockets { w.server with phase := .handling events } w.sockets)
  | refuse {w : World σ} {a : Address} {ev : EpollEvents} {rest : List (Address × EpollEvents)}
      {e : FileDescriptorInformation (Peer σ)} (new : Address) (answers : AcceptAnswers)
      (peer : Int → FileDescriptorType → Peer σ) : Next w.server a ev rest e →
      ev.hangup = false → e.type = .listenSocket → Fresh w.sockets new answers.accept →
      keptType ports answers = none →
      Turn outside ports w (withSockets { w.server with phase := .handling rest }
        (acceptConnection peer ports w.sockets new answers))
  | accept {w : World σ} {a : Address} {ev : EpollEvents} {rest : List (Address × EpollEvents)}
      {e : FileDescriptorInformation (Peer σ)} {p : Peer σ} {type : FileDescriptorType}
      (new : Address) (answers : AcceptAnswers) (setup : Setup) (world : σ)
      (request : Request.HttpRequest) (response : Response.HttpResponse) :
      Next w.server a ev rest e → ev.hangup = false → e.type = .listenSocket →
      Fresh w.sockets new answers.accept → keptType ports answers = some type →
      initializePeer outside type setup world w.server.accepted request response = some p →
      Turn outside ports w (withSockets
        { w.server with accepted := w.server.accepted + 1, phase := .handling rest }
        (acceptConnection (fun _ _ => p) ports w.sockets new answers))
  | destroy {w : World σ} {s : Sockets.State (Peer σ)} {a : Address} {after : After}
      {e : FileDescriptorInformation (Peer σ)} {globals : Globals} {phase : Phase}
      {observed : List (Nat × Observation)} : w.server.phase = .destroying a after →
      w.server.registry.entries a = some e → Sockets.destroyFileInformation w.sockets a = some s →
      after.resume s.registry.head w.server.globals = (globals, phase) → Observed e observed →
      Turn outside ports w (withSockets
        { w.server with globals, log := w.server.log ++ observed, phase } s)
  | internal {w : World σ} {server : Server σ} : Step outside w.server server →
      Internal w.server server → Turn outside ports w { w with server }

inductive Runs (outside : Outside σ) (ports : Ports) : World σ → Prop
  | start (logLevel : LoggingLogLevel) : Runs outside ports ⟨start logLevel, [], []⟩
  | turn {w w' : World σ} : Runs outside ports w → Turn outside ports w w' → Runs outside ports w'

variable {outside : Outside σ} {ports : Ports} {w w' : World σ} {lost : List Int} {C : Type}
  {s s' : Sockets.State C} {a : Address}

theorem listenAddress_registry {init : Int → FileDescriptorType → C} {answers : ListenAnswers}
    (h : listenAddress init s a answers = some s') : s'.registry = s.registry ∨
      s'.registry = registerFileDescriptor init a answers.socket .listenSocket s.registry := by
  rw [listenAddress] at h
  dsimp only at h
  split at h
  · cases h
  split at h
  · cases h
    exact .inl rfl
  split at h
  · cases h
    exact .inl rfl
  split at h
  · cases h
    exact .inl rfl
  · cases h
    exact .inr rfl

theorem acceptConnection_refused {init : Int → FileDescriptorType → C} {answers : AcceptAnswers}
    (h : Sockets.Sound lost s) (hfd : answers.accept ∉ s.descriptors)
    (hkept : keptType ports answers = none) : acceptConnection init ports s a answers = s := by
  rw [keptType] at hkept
  rw [acceptConnection]
  dsimp only
  split
  · rfl
  rename_i haccept
  rw [if_neg haccept] at hkept
  split
  · exact h.closed_opened hfd
  rename_i hfamily
  rw [if_neg hfamily] at hkept
  split
  · exact h.closed_opened hfd
  rename_i hport
  rw [if_neg hport] at hkept
  cases hkept

theorem acceptConnection_kept {init : Int → FileDescriptorType → C} {answers : AcceptAnswers}
    {type : FileDescriptorType} (hkept : keptType ports answers = some type) :
    type ≠ .listenSocket ∧ (acceptConnection init ports s a answers).registry =
      registerFileDescriptor init a answers.accept type s.registry := by
  rw [keptType] at hkept
  rw [acceptConnection]
  dsimp only
  split at hkept
  · cases hkept
  rename_i haccept
  split at hkept
  · cases hkept
  rename_i hfamily
  split at hkept
  · cases hkept
  rename_i hport
  rw [if_neg haccept, if_neg hfamily, if_neg hport]
  obtain rfl := Option.some.inj hkept
  refine ⟨?_, rfl⟩
  split <;> simp

theorem sound_congr (h : Sockets.Sound lost s) {r : Registry C}
    (hentries : ∀ a, (r.entries a).map (fun e => (e.fileDescriptor, e.prev)) =
      (s.registry.entries a).map fun e => (e.fileDescriptor, e.prev)) :
    Sockets.Sound lost { s with registry := r } := by
  have hold : ∀ a e, r.entries a = some e → ∃ e', s.registry.entries a = some e' ∧
      e'.fileDescriptor = e.fileDescriptor ∧ e'.prev = e.prev := by
    intro a e he
    have heq := hentries a
    rw [he, Option.map_some] at heq
    obtain ⟨e', he', hpair⟩ := Option.map_eq_some_iff.mp heq.symm
    exact ⟨e', he', (Prod.mk.inj hpair).1, (Prod.mk.inj hpair).2⟩
  have hnew : ∀ a e', s.registry.entries a = some e' → ∃ e, r.entries a = some e ∧
      e.fileDescriptor = e'.fileDescriptor := by
    intro a e' he'
    have heq := hentries a
    rw [he', Option.map_some] at heq
    obtain ⟨e, he, hpair⟩ := Option.map_eq_some_iff.mp heq
    exact ⟨e, he, (Prod.mk.inj hpair).1⟩
  refine ⟨fun a e he => ?_, h.nodup, fun fd => (h.isOpen fd).trans ?_,
    fun a b e e' he he' heq => ?_, fun a e he => ?_, fun fd a hmem => ?_, h.once⟩
  · obtain ⟨e', he', -, hprev⟩ := hold a e he
    exact hprev ▸ h.prev a e' he'
  · refine or_congr_left ⟨?_, ?_⟩
    · rintro ⟨a, e', he', rfl⟩
      obtain ⟨e, he, hfd⟩ := hnew a e' he'
      exact ⟨a, e, he, hfd⟩
    · rintro ⟨a, e, he, rfl⟩
      obtain ⟨e', he', hfd, -⟩ := hold a e he
      exact ⟨a, e', he', hfd⟩
  · obtain ⟨e₁, he₁, hfd₁, -⟩ := hold a e he
    obtain ⟨e₂, he₂, hfd₂, -⟩ := hold b e' he'
    exact h.distinct a b e₁ e₂ he₁ he₂ (hfd₁.trans (heq.trans hfd₂.symm))
  · obtain ⟨e', he', hfd, -⟩ := hold a e he
    exact hfd ▸ h.apart a e' he'
  · obtain ⟨e', he', hfd'⟩ := h.pointer fd a hmem
    obtain ⟨e, he, hfd⟩ := hnew a e' he'
    exact ⟨e, he, hfd.trans hfd'⟩

/-- What `epoll_wait` reports is what the loop assumes of it. -/
theorem step_wait (h : Sockets.Sound lost w.sockets) {events : List (Address × EpollEvents)}
    (hphase : w.server.phase = .waiting) (hrunning : w.server.globals.running = true)
    (hlength : events.length ≤ 128)
    (hreported : (events.map (·.1)).Subperm (w.interest.map (·.2))) :
    Step outside w.server { w.server with phase := .handling events } := by
  obtain ⟨l, hperm, hsub⟩ := hreported
  refine .wait events hphase hrunning hlength ?_ fun ev hev => ?_
  · exact hperm.nodup_iff.mp (hsub.nodup h.pointers_nodup)
  · have hmem : ev.1 ∈ l := hperm.mem_iff.mpr (List.mem_map_of_mem hev)
    obtain ⟨⟨fd, a⟩, hin, heq⟩ := List.mem_map.mp (hsub.subset hmem)
    obtain ⟨e, he, -⟩ := h.pointer fd a hin
    rw [← heq]
    exact Option.ne_none_iff_exists'.mpr ⟨e, he⟩

theorem turn_kept (hreach : Reachable outside w.server) (h : Sockets.Sound lost w.sockets)
    (hturn : Turn outside ports w w') :
    Reachable outside w'.server ∧ ∃ lost, Sockets.Sound lost w'.sockets := by
  cases hturn with
  | listen a answers peer hphase hfamily hfresh hlisten =>
    obtain ⟨s, hs, hsound⟩ : ∃ s, listenAddress peer w.sockets a answers = some s ∧
      Sockets.Sound (lost ++ abandonedSocket answers) s := h.listenAddress hfamily hfresh
    cases hs.symm.trans hlisten
    refine ⟨?_, _, hsound⟩
    obtain hsame | hnew := listenAddress_registry hlisten
    · rw [withSockets, hsame]
      exact hreach
    · rw [withSockets, hnew]
      exact hreach.step (.listen a answers.socket peer hphase hfresh.1)
  | wait events hphase hrunning hlength hreported =>
    exact ⟨hreach.step (step_wait h hphase hrunning hlength hreported), lost, h⟩
  | refuse new answers peer hnext hhangup htype hfresh hkept =>
    rw [acceptConnection_refused h hfresh.2 hkept]
    exact ⟨hreach.step (.refuse hnext hhangup htype), lost, h⟩
  | accept new answers setup world request response hnext hhangup htype hfresh hkept hpeer =>
    refine ⟨?_, lost, h.acceptConnection hfresh⟩
    obtain ⟨hne, hregistry⟩ := acceptConnection_kept hkept
    rw [withSockets, hregistry]
    exact hreach.step (.accept new answers.accept _ setup world request response hnext hhangup
      htype hne hfresh.1 hpeer)
  | @destroy s a after e globals phase observed hphase he hdestroy hresume hobserved =>
    have hprev := h.prev a e he
    cases (Sockets.destroyFileInformation_eq he hprev).symm.trans hdestroy
    exact ⟨hreach.step (.destroy hphase he (Batch.destroy_eq he hprev) hresume hobserved), lost,
      h.destroyed he⟩
  | internal hstep hinternal =>
    exact ⟨hreach.step hstep, lost, sound_congr h hinternal.entries⟩

theorem Runs.kept (h : Runs outside ports w) :
    Reachable outside w.server ∧ ∃ lost, Sockets.Sound lost w.sockets := by
  induction h with
  | start logLevel => exact ⟨.start logLevel, [], Sockets.sound_initial⟩
  | turn _ hturn ih =>
    obtain ⟨hreach, lost, hsound⟩ := ih
    exact turn_kept hreach hsound hturn

/-- The program runs as its main loop does, whatever the kernel reports: a batch of pointers
from the interest list can always be handled, and each pointer that the loop still holds leads
to a live entry whose socket is open. -/
theorem polled_pointers_live (h : Runs outside ports w) :
    Reachable outside w.server ∧
      (∀ events : List (Address × EpollEvents), w.server.phase = .waiting →
        w.server.globals.running = true → events.length ≤ 128 →
        (events.map (·.1)).Subperm (w.interest.map (·.2)) →
        Step outside w.server { w.server with phase := .handling events }) ∧
      ∀ a ∈ Batch.held w.server.phase, ∃ e, w.server.registry.entries a = some e ∧
        e.fileDescriptor ∈ w.descriptors := by
  obtain ⟨hreach, lost, hsound⟩ := h.kept
  refine ⟨hreach, fun events hphase hrunning hlength hreported =>
    step_wait hsound hphase hrunning hlength hreported, fun a ha => ?_⟩
  have hlive := (Batch.sound_of_reachable hreach).live a ha
  obtain ⟨e, he⟩ := Option.ne_none_iff_exists'.mp hlive
  exact ⟨e, he, (hsound.isOpen _).mpr (.inl ⟨a, e, he, rfl⟩)⟩

/-- Clients connect to both sockets. -/
theorem polled_pointers_live_pair : ∃ w : World Unit, Runs Teardown.silent ⟨80, 443⟩ w ∧
    w.interest = [(4, 11), (3, 10)] ∧
    w.server.phase = .handling [(10, ⟨false, true, true⟩), (11, ⟨false, true, true⟩)] ∧
    ∀ a ∈ [10, 11], ∃ e, w.server.registry.entries a = some e ∧ e.fileDescriptor ∈ w.descriptors := by
  let peer : Int → FileDescriptorType → Peer Unit := fun _ _ => ⟨0,
    initializeConnectionInformation .tcpSocket Acceptance.freshBlock Response.freshResponse, .tcp⟩
  have hstart : Runs Teardown.silent ⟨80, 443⟩ ⟨start .information, [], []⟩ :=
    .start .information
  have hfirst := hstart.turn (.listen 10 ⟨.inet, 3, 0, 0, 0⟩ peer rfl (by decide)
    ⟨rfl, by decide⟩ rfl)
  have hsecond := hfirst.turn (.listen 11 ⟨.inet, 4, 0, 0, 0⟩ peer rfl (by decide)
    ⟨rfl, by decide⟩ rfl)
  have hwaiting := hsecond.turn (.internal (.listened rfl)
    ⟨fun _ => rfl, fun hphase => by cases hphase⟩)
  have hready := hwaiting.turn (.wait [(10, ⟨false, true, true⟩), (11, ⟨false, true, true⟩)] rfl rfl
    (by decide) (List.Perm.swap 11 10 []).subperm)
  exact ⟨_, hready, rfl, rfl, (polled_pointers_live hready).2.2⟩

end Hss.Polling
