import Hss.Lib.Runs
import Hss.Server.Teardown
import Mathlib.Data.Set.Card

namespace Hss.Batch

open Hss.Runs Hss.DescriptorList Hss.Transaction Hss.Transport Hss.Connection Hss.Tls Hss.MainLoop
  Hss.Acceptance Hss.Session Hss.Teardown

variable {σ : Type} {outside : Outside σ} {s s' : Server σ}

def held : Phase → List Address
  | .handling events => events.map (·.1)
  | .destroying information (.hangup rest) => information :: rest.map (·.1)
  | .destroying information (.handled rest) => information :: rest.map (·.1)
  | _ => []

def pending : Phase → Nat
  | .handling events => events.length
  | .destroying _ (.hangup rest) => rest.length
  | .destroying _ (.handled rest) => rest.length
  | _ => 0

section Blocks

variable {C : Type} {r r' : Registry C} {a b : Address}

def Live (r : Registry C) : Set Address := { a | r.entries a ≠ none }

theorem mem_live {e : FileDescriptorInformation C} (h : r.entries a = some e) : a ∈ Live r := by
  rw [Live, Set.mem_ofPred_eq, h]
  exact Option.some_ne_none e

theorem live_register (init : Int → FileDescriptorType → C) (fd : Int) (type : FileDescriptorType) :
    Live (registerFileDescriptor init a fd type r) = insert a (Live r) := by
  ext b
  by_cases hb : b = a
  · subst hb
    simp [Live, registerFileDescriptor]
  · simp [Live, registerFileDescriptor, hb]

/-- While every back pointer is the list head, destroying a live entry is defined. -/
theorem destroy_eq {e : FileDescriptorInformation C} (h : r.entries a = some e)
    (hprev : e.prev = .head) : destroyFileInformation a r = some
      { head := e.next
        entries := Function.update r.entries a none
        closed := r.closed ++ [e.fileDescriptor] } := by
  simp [destroyFileInformation, h, hprev, Registry.store]

end Blocks

/-- What the loop knows of its pointers: every event, and the entry it is about to
destroy, is a live entry of its own, and every entry's back pointer is the list
head. -/
structure Sound (s : Server σ) : Prop where
  nodup : (held s.phase).Nodup
  live : ∀ a ∈ held s.phase, a ∈ Live s.registry
  prev : ∀ a e, s.registry.entries a = some e → e.prev = .head
  finite : (Live s.registry).Finite

theorem sound_start (logLevel : LoggingLogLevel) : Sound (start (σ := σ) logLevel) where
  nodup := List.nodup_nil
  live a ha := absurd ha List.not_mem_nil
  prev a e h := by cases h
  finite := by
    have hempty : Live (start (σ := σ) logLevel).registry = ∅ :=
      Set.eq_empty_of_forall_notMem fun a ha => ha rfl
    rw [hempty]
    exact Set.finite_empty

theorem Sound.quiet (h : Sound s) (hregistry : s'.registry = s.registry)
    (hheld : List.Sublist (held s'.phase) (held s.phase)) : Sound s' where
  nodup := hheld.nodup h.nodup
  live a ha := hregistry ▸ h.live a (hheld.subset ha)
  prev := hregistry ▸ h.prev
  finite := hregistry ▸ h.finite

theorem Sound.register (h : Sound s) {a : Address} (init : Int → FileDescriptorType → Peer σ)
    (fd : Int) (type : FileDescriptorType)
    (hregistry : s'.registry = registerFileDescriptor init a fd type s.registry)
    (hheld : List.Sublist (held s'.phase) (held s.phase)) : Sound s' where
  nodup := hheld.nodup h.nodup
  live b hb := by
    rw [hregistry, live_register]
    exact Set.mem_insert_of_mem a (h.live b (hheld.subset hb))
  prev b e he := by
    rw [hregistry] at he
    by_cases hb : b = a
    · subst hb
      simp only [registerFileDescriptor, Function.update_self] at he
      cases he
      rfl
    · simp only [registerFileDescriptor, Function.update_of_ne hb] at he
      exact h.prev b e he
  finite := by
    rw [hregistry, live_register]
    exact h.finite.insert a

@[simp] theorem Server.handled_phase {a : Address} {e : FileDescriptorInformation (Peer σ)}
    {p : Peer σ} {r : Handled σ} {c : ConnectionInformation} {phase : Phase} :
    (s.handled a e p r c phase).phase = phase := rfl

@[simp] theorem Server.handled_accepted {a : Address} {e : FileDescriptorInformation (Peer σ)}
    {p : Peer σ} {r : Handled σ} {c : ConnectionInformation} {phase : Phase} :
    (s.handled a e p r c phase).accepted = s.accepted := rfl

theorem live_handled {a : Address} {e : FileDescriptorInformation (Peer σ)} {p : Peer σ}
    {r : Handled σ} {c : ConnectionInformation} {phase : Phase}
    (he : s.registry.entries a = some e) :
    Live (s.handled a e p r c phase).registry = Live s.registry := by
  ext b
  by_cases hb : b = a
  · subst hb
    simp [Live, Server.handled, he]
  · simp [Live, Server.handled, hb]

theorem Sound.handled (h : Sound s) {a : Address} {e : FileDescriptorInformation (Peer σ)}
    {p : Peer σ} {r : Handled σ} {c : ConnectionInformation} {phase : Phase}
    (he : s.registry.entries a = some e) (hheld : List.Sublist (held phase) (held s.phase)) :
    Sound (s.handled a e p r c phase) where
  nodup := hheld.nodup h.nodup
  live b hb := by
    rw [live_handled he]
    exact h.live b (hheld.subset hb)
  prev b e' he' := by
    by_cases hb : b = a
    · subst hb
      simp only [Server.handled, Function.update_self] at he'
      cases he'
      exact h.prev b e he
    · simp only [Server.handled, Function.update_of_ne hb] at he'
      exact h.prev b e' he'
  finite := by
    rw [live_handled he]
    exact h.finite

theorem held_resume {head : Option Address} {globals globals' : Globals} {after : After}
    {phase : Phase} (h : after.resume head globals = (globals', phase)) (a : Address) :
    held phase = [] ∨ held (.destroying a after) = a :: held phase := by
  cases after with
  | hangup rest =>
    rw [After.resume] at h
    split at h
    · cases h
      exact .inl rfl
    · cases h
      exact .inr rfl
  | handled rest =>
    cases h
    exact .inr rfl
  | leaving =>
    cases h
    exact .inl rfl

theorem live_destroy {r : Registry (Peer σ)} {a : Address} {next : Option Address}
    {closed : List Int} :
    Live (⟨next, Function.update r.entries a none, closed⟩ : Registry (Peer σ)) =
      Live r \ {a} := by
  ext b
  by_cases hb : b = a
  · subst hb
    simp [Live]
  · simp [Live, hb]

theorem Sound.destroy (h : Sound s) {a : Address} {after : After} {registry : Registry (Peer σ)}
    {globals : Globals} {phase : Phase} {log : List (Nat × Observation)}
    {e : FileDescriptorInformation (Peer σ)} (hphase : s.phase = .destroying a after)
    (he : s.registry.entries a = some e)
    (hdestroy : destroyFileInformation a s.registry = some registry)
    (hresume : after.resume registry.head s.globals = (globals, phase)) :
    Sound { s with registry, globals, log, phase } := by
  cases (destroy_eq he (h.prev a e he)).symm.trans hdestroy
  have hheld := held_resume hresume a
  rw [← hphase] at hheld
  have hnodup := h.nodup
  refine ⟨?_, ?_, ?_, ?_⟩
  · obtain hnil | hcons := hheld
    · rw [hnil]
      exact List.nodup_nil
    · rw [hcons] at hnodup
      exact (List.nodup_cons.mp hnodup).2
  · intro b hb
    rw [live_destroy]
    obtain hnil | hcons := hheld
    · rw [hnil] at hb
      cases hb
    · rw [hcons] at hnodup
      have hne : b ≠ a := fun heq => (List.nodup_cons.mp hnodup).1 (heq ▸ hb)
      exact ⟨h.live b (hcons ▸ List.mem_cons_of_mem a hb), hne⟩
  · intro b e' he'
    by_cases hb : b = a
    · subst hb
      simp only [Function.update_self] at he'
      cases he'
    · simp only [Function.update_of_ne hb] at he'
      exact h.prev b e' he'
  · rw [live_destroy]
    exact h.finite.subset Set.sdiff_subset

theorem Sound.step (h : Sound s) (hstep : Step outside s s') : Sound s' := by
  have drop : ∀ {a ev rest}, s.phase = .handling ((a, ev) :: rest) →
      List.Sublist (rest.map (·.1)) (held s.phase) := by
    intro a ev rest hphase
    rw [hphase]
    exact List.sublist_cons_self _ _
  cases hstep with
  | listen a fd peer hphase ha =>
    exact h.register peer fd .listenSocket rfl (List.Sublist.refl _)
  | listened => exact h.quiet rfl (List.nil_sublist _)
  | wait events _ _ _ hnodup hlive =>
    refine ⟨hnodup, fun a ha => ?_, h.prev, h.finite⟩
    obtain ⟨ev, hev, rfl⟩ := List.mem_map.mp ha
    exact hlive ev hev
  | stop => exact h.quiet rfl (List.nil_sublist _)
  | next => exact h.quiet rfl (List.nil_sublist _)
  | hangup hnext =>
    refine h.quiet rfl ?_
    rw [hnext.phase]
    exact List.Sublist.refl _
  | refuse hnext => exact h.quiet rfl (drop hnext.phase)
  | accept new fd type setup w request response hnext =>
    exact h.register (fun _ _ => _) fd type rfl (drop hnext.phase)
  | exit => exact h.quiet rfl (List.nil_sublist _)
  | handle hhandles =>
    obtain ⟨ev, fuel, w, hnext, -⟩ := hhandles.next
    exact h.handled hnext.entry (drop hnext.phase)
  | fail hhandles =>
    obtain ⟨ev, fuel, w, hnext, -⟩ := hhandles.next
    refine h.handled hnext.entry ?_
    rw [hnext.phase]
    exact List.Sublist.refl _
  | destroy hphase he hdestroy hresume => exact h.destroy hphase he hdestroy hresume
  | leave => exact h.quiet rfl (List.nil_sublist _)
  | left => exact h.quiet rfl (List.nil_sublist _)

theorem sound_of_reachable (h : Reachable outside s) : Sound s := by
  induction h with
  | start logLevel => exact sound_start logLevel
  | step _ hstep ih => exact ih.step hstep

/-- In the event loop every pointer taken from the batch leads to a live entry of its
own, and destroying that entry is defined: it is closed, and the head of the list
becomes its successor. -/
theorem event_pointers_live (h : Reachable outside s) :
    (held s.phase).Nodup ∧ ∀ a ∈ held s.phase, ∃ e, s.registry.entries a = some e ∧
      destroyFileInformation a s.registry = some
        { head := e.next
          entries := Function.update s.registry.entries a none
          closed := s.registry.closed ++ [e.fileDescriptor] } := by
  have hsound := sound_of_reachable h
  refine ⟨hsound.nodup, fun a ha => ?_⟩
  obtain ⟨e, he⟩ := Option.ne_none_iff_exists'.mp (hsound.live a ha)
  exact ⟨e, he, destroy_eq he (hsound.prev a e he)⟩

/-- Two connections hang up in one batch. -/
theorem event_pointers_live_pair : ∃ s : Server Unit, Reachable silent s ∧
    s.phase = .handling [(1, ⟨true, readable⟩), (2, ⟨true, readable⟩)] ∧ ∀ a ∈ [1, 2],
      ∃ e, s.registry.entries a = some e ∧ destroyFileInformation a s.registry = some
        { head := e.next
          entries := Function.update s.registry.entries a none
          closed := s.registry.closed ++ [e.fileDescriptor] } := by
  have htype : FileDescriptorType.tcpSocket ≠ .listenSocket := by decide
  have hreach : Reachable silent _ :=
    reachable_paired htype (w := ()) rfl rfl ⟨true, readable⟩ ⟨true, readable⟩
  exact ⟨_, hreach, rfl, (event_pointers_live hreach).2⟩

theorem magicCall_running {host : Host} {globals globals' : Globals}
    {request : Request.HttpRequest} {response response' : Response.HttpResponse} {url : List UInt8}
    (h : magicCall host globals request response url = some (response', globals'))
    (hrunning : globals.running = false) : globals'.running = false := by
  rw [magicCall] at h
  split at h
  · obtain ⟨found, -, h⟩ := Option.bind_eq_some_iff.mp h
    cases h
    exact hrunning
  · obtain ⟨order, -, h⟩ := Option.bind_eq_some_iff.mp h
    split at h
    · obtain ⟨forbidden, -, h⟩ := Option.bind_eq_some_iff.mp h
      cases h
      exact hrunning
    · split at h
      · obtain ⟨done, -, h⟩ := Option.bind_eq_some_iff.mp h
        cases h
        rfl
      · split at h
        · obtain ⟨done, -, h⟩ := Option.bind_eq_some_iff.mp h
          cases h
          rw [loggingSetLevel]
          split <;> exact hrunning
        · obtain ⟨done, -, h⟩ := Option.bind_eq_some_iff.mp h
          cases h
          exact hrunning

theorem transaction_running {type : FileDescriptorType} {host : Host} {globals : Globals}
    {request : Request.HttpRequest} {response : Response.HttpResponse} {outcome : Outcome}
    (h : handleHttpTransaction type host globals request response = some outcome)
    (hrunning : globals.running = false) : outcome.globals.running = false := by
  rw [handleHttpTransaction] at h
  split at h
  · obtain ⟨response', -, h⟩ := Option.bind_eq_some_iff.mp h
    cases h
    exact hrunning
  · split at h
    · obtain ⟨⟨response', globals'⟩, hcall, h⟩ := Option.bind_eq_some_iff.mp h
      cases h
      exact magicCall_running hcall hrunning
    · obtain ⟨⟨response', opened⟩, -, h⟩ := Option.bind_eq_some_iff.mp h
      cases h
      exact hrunning

theorem handleConnection_running {τ : Type} {fuel : Nat} {sock : Socket τ} {env : Environment}
    {globals : Globals} {event : Event} {c : ConnectionInformation} {w : τ}
    {call : Connection.Call τ}
    (h : handleConnection fuel sock env globals event c w = some call)
    (hrunning : globals.running = false) : call.globals.running = false := by
  cases calling_of_handleConnection h with
  | skipped | idle | destroyed | crashed | written => exact hrunning
  | served _ _ hserving =>
    cases hserving with
    | unparsed | incomplete | unanswered => exact hrunning
    | answered _ _ hrespond =>
      obtain ⟨hanswer, -⟩ := respond_cases hrespond
      rw [answerRequest] at hanswer
      split at hanswer
      · obtain ⟨response', -, rfl⟩ := Option.map_eq_some_iff.mp hanswer
        exact hrunning
      · exact transaction_running hanswer hrunning

theorem handlePeer_running {fuel : Nat} {env : Environment} {globals : Globals} {event : Event}
    {w : σ} {p : Peer σ} {r : Handled σ}
    (h : handlePeer outside fuel env globals event w p = some r)
    (hrunning : globals.running = false) : r.globals.running = false := by
  rw [handlePeer] at h
  split at h
  · obtain ⟨call, hcall, rfl⟩ := Option.map_eq_some_iff.mp h
    exact handleConnection_running hcall hrunning
  · rw [handleTls] at h
    split at h
    · obtain ⟨call, hcall, rfl⟩ := Option.map_eq_some_iff.mp h
      exact handleConnection_running hcall hrunning
    · split at h
      · cases h
        exact hrunning
      · cases h
        exact hrunning

noncomputable def remaining (s : Server σ) : Nat :=
  match s.phase with
  | .handling events => 4 * events.length + 2 * (Live s.registry).ncard + 4
  | .destroying _ (.hangup rest) => 4 * rest.length + 2 * (Live s.registry).ncard + 5
  | .destroying _ (.handled rest) => 4 * rest.length + 2 * (Live s.registry).ncard + 5
  | .waiting => 2 * (Live s.registry).ncard + 3
  | .leaving => 2 * (Live s.registry).ncard + 2
  | .destroying _ .leaving => 2 * (Live s.registry).ncard + 1
  | .listening | .left => 0

theorem remaining_le (s : Server σ) :
    remaining s ≤ 4 * pending s.phase + 2 * (Live s.registry).ncard + 5 := by
  cases hphase : s.phase with
  | destroying a after =>
    cases after <;> simp only [remaining, pending, hphase] <;> omega
  | _ =>
    simp only [remaining, pending, hphase]
    omega

structure Stopping (s : Server σ) : Prop where
  sound : Sound s
  running : s.globals.running = false
  started : s.phase ≠ .listening

theorem resume_running {head : Option Address} {globals globals' : Globals} {after : After}
    {phase : Phase} (h : after.resume head globals = (globals', phase))
    (hrunning : globals.running = false) : globals'.running = false := by
  cases after with
  | hangup rest =>
    rw [After.resume] at h
    split at h
    · cases h
      rfl
    · cases h
      exact hrunning
  | handled rest | leaving =>
    cases h
    exact hrunning

theorem resume_ne_listening {head : Option Address} {globals globals' : Globals} {after : After}
    {phase : Phase} (h : after.resume head globals = (globals', phase)) : phase ≠ .listening := by
  cases after with
  | hangup rest =>
    rw [After.resume] at h
    split at h
    · cases h
      exact Phase.noConfusion
    · cases h
      exact Phase.noConfusion
  | handled rest | leaving =>
    cases h
    exact Phase.noConfusion

theorem Stopping.step (h : Stopping s) (hstep : Step outside s s') : Stopping s' := by
  refine ⟨h.sound.step hstep, ?_, ?_⟩
  · cases hstep with
    | handle hhandles | fail hhandles =>
      obtain ⟨ev, fuel, w, -, -, hr⟩ := hhandles.next
      exact handlePeer_running hr h.running
    | destroy _ _ _ hresume => exact resume_running hresume h.running
    | _ => exact h.running
  · cases hstep with
    | listen a fd peer hphase => exact absurd hphase h.started
    | destroy _ _ _ hresume => exact resume_ne_listening hresume
    | _ => exact Phase.noConfusion

theorem running_of_listening (h : Reachable outside s) (hphase : s.phase = .listening) :
    s.globals.running = true := by
  induction h with
  | start => rfl
  | step hreach hstep ih =>
    cases hstep with
    | listen a fd peer hlistening => exact ih hlistening
    | destroy _ _ _ hresume => exact absurd hphase (resume_ne_listening hresume)
    | _ => cases hphase

theorem stopping_of_reachable (h : Reachable outside s) (hrunning : s.globals.running = false) :
    Stopping s := by
  refine ⟨sound_of_reachable h, hrunning, fun hphase => ?_⟩
  rw [running_of_listening h hphase] at hrunning
  cases hrunning

theorem ncard_destroy (h : Sound s) {a : Address} {e : FileDescriptorInformation (Peer σ)}
    {registry : Registry (Peer σ)} (he : s.registry.entries a = some e)
    (hdestroy : destroyFileInformation a s.registry = some registry) :
    (Live registry).ncard + 1 = (Live s.registry).ncard := by
  cases (destroy_eq he (h.prev a e he)).symm.trans hdestroy
  rw [live_destroy]
  exact Set.ncard_sdiff_singleton_add_one (mem_live he) h.finite

theorem remaining_destroy {after : After} {a : Address} {registry : Registry (Peer σ)}
    {globals : Globals} {phase : Phase} {log : List (Nat × Observation)}
    (hphase : s.phase = .destroying a after)
    (hcard : (Live registry).ncard + 1 = (Live s.registry).ncard)
    (hresume : after.resume registry.head s.globals = (globals, phase)) :
    remaining { s with registry, globals, log, phase } < remaining s := by
  cases after with
  | hangup rest =>
    rw [After.resume] at hresume
    split at hresume
    · cases hresume
      simp only [remaining, hphase]
      omega
    · cases hresume
      simp only [remaining, hphase]
      omega
  | handled rest | leaving =>
    cases hresume
    simp only [remaining, hphase]
    omega

/-- Every step brings a server that has been told to stop nearer to its end. -/
theorem remaining_lt (h : Stopping s) (hstep : Step outside s s') : remaining s' < remaining s := by
  cases hstep with
  | listen a fd peer hphase | listened hphase => exact absurd hphase h.started
  | wait events _ hrunning =>
    rw [h.running] at hrunning
    cases hrunning
  | stop hphase | next hphase | leave hphase | left hphase =>
    simp [remaining, hphase]
  | hangup hnext =>
    simp only [remaining, hnext.phase, List.length_cons]
    omega
  | refuse hnext =>
    simp only [remaining, hnext.phase, List.length_cons]
    omega
  | exit _ _ _ _ hnext =>
    simp only [remaining, hnext.phase, List.length_cons]
    omega
  | accept new fd type setup w request response hnext _ _ _ hnew =>
    have hfresh : new ∉ Live s.registry := fun hmem => hmem hnew
    have hcard := Set.ncard_insert_of_notMem hfresh h.sound.finite
    simp only [remaining, hnext.phase, List.length_cons, live_register, hcard]
    omega
  | handle hhandles =>
    obtain ⟨ev, fuel, w, hnext, -⟩ := hhandles.next
    simp only [remaining, live_handled hnext.entry, Server.handled_phase, hnext.phase,
      List.length_cons]
    omega
  | fail hhandles =>
    obtain ⟨ev, fuel, w, hnext, -⟩ := hhandles.next
    simp only [remaining, live_handled hnext.entry, Server.handled_phase, hnext.phase,
      List.length_cons]
    omega
  | destroy hphase he hdestroy hresume =>
    exact remaining_destroy hphase (ncard_destroy h.sound he hdestroy) hresume

theorem pending_resume {head : Option Address} {globals globals' : Globals} {after : After}
    {phase : Phase} (h : after.resume head globals = (globals', phase)) (a : Address) :
    pending phase ≤ pending (.destroying a after) := by
  cases after with
  | hangup rest =>
    rw [After.resume] at h
    split at h
    · cases h
      exact Nat.zero_le _
    · cases h
      exact Nat.le_refl _
  | handled rest | leaving =>
    cases h
    exact Nat.le_refl _

/-- A batch is worked off, and connections are accepted only for its events. -/
theorem accepted_le (h : Stopping s) (hstep : Step outside s s') :
    s'.accepted + pending s'.phase ≤ s.accepted + pending s.phase := by
  cases hstep with
  | wait events _ hrunning =>
    rw [h.running] at hrunning
    cases hrunning
  | listen => exact Nat.le_refl _
  | listened hphase | stop hphase | next hphase | leave hphase | left hphase =>
    simp [pending, hphase]
  | hangup hnext | refuse hnext | exit _ _ _ _ hnext | accept _ _ _ _ _ _ _ hnext =>
    simp only [pending, hnext.phase, List.length_cons]
    omega
  | handle hhandles | fail hhandles =>
    obtain ⟨ev, fuel, w, hnext, -⟩ := hhandles.next
    simp only [Server.handled_phase, Server.handled_accepted, pending, hnext.phase,
      List.length_cons]
    omega
  | @destroy a after _ _ _ _ _ hphase _ _ hresume =>
    have hle := pending_resume hresume a
    rw [← hphase] at hle
    exact Nat.add_le_add_left hle _

/-- Once the running flag is cleared it stays cleared, no further batch is waited for,
and the server is through after a number of steps given by what is left of the batch
and by the entries that are live. -/
theorem shutdown_bounded (hreach : Reachable outside s) (hrunning : s.globals.running = false)
    {n : Nat} (h : Steps (Step outside) n s s') :
    s'.globals.running = false ∧ s'.accepted + pending s'.phase ≤ s.accepted + pending s.phase ∧
      n ≤ 4 * pending s.phase + 2 * (Live s.registry).ncard + 5 := by
  have hs := stopping_of_reachable hreach hrunning
  have keep : ∀ s t, Stopping s → Step outside s t → Stopping t := fun s t hs => hs.step
  have hbound := h.bounded keep (fun s t => remaining_lt) hs
  refine ⟨(h.invariant keep hs).running, ?_, ?_⟩
  · exact h.antitone keep (fun s t => accepted_le) hs
  · have hle := remaining_le s
    omega

theorem stops_pair :
    firstCall smallHost 0 ⟨true, .information⟩ shutdownRequest (fun r =>
      r.globals = ⟨false, .information⟩ ∧ (teardown 1 ([], []) r.transport).isSome) = true ∧
    firstCall smallHost 1 ⟨false, .information⟩ Session.rootRequest (fun r =>
      r.globals = ⟨false, .information⟩ ∧ (teardown 1 ([], []) r.transport).isSome) = true := by
  decide +kernel

/-- The first of two connections asks for the shutdown. The event of the second one is still
handled, and then both are destroyed. -/
theorem shutdown_bounded_pair : ∃ s s' : Server (List UInt8 × List Nat), Reachable secured s ∧
    s.globals.running = false ∧ pending s.phase = 1 ∧ 1 ∈ Live s.registry ∧ 2 ∈ Live s.registry ∧
    s'.phase = .left ∧ s'.globals.running = false ∧
    s'.accepted + pending s'.phase ≤ s.accepted + pending s.phase ∧
    10 ≤ 4 * pending s.phase + 2 * (Live s.registry).ncard + 5 := by
  obtain ⟨p, r, c, ⟨hp, -, hr, halive⟩, hchecks⟩ := called_of_firstCall stops_pair.1
  obtain ⟨q, r', c', ⟨hq, -, hr', halive'⟩, hchecks'⟩ := called_of_firstCall stops_pair.2
  obtain ⟨hstopped, hdown⟩ := of_decide_eq_true hchecks
  obtain ⟨hglobals, hdown'⟩ := of_decide_eq_true hchecks'
  obtain ⟨operations, hteardown⟩ := Option.isSome_iff_exists.mp hdown
  obtain ⟨operations', hteardown'⟩ := Option.isSome_iff_exists.mp hdown'
  have htls : FileDescriptorType.tlsSocket ≠ .listenSocket := by decide
  have hreach := reachable_paired htls hp hq ⟨false, readable⟩ ⟨false, readable⟩
  have hfirst := hreach.step (.handle ⟨⟨_, 9, _, ⟨rfl, rfl⟩, rfl, hr⟩, htls, rfl⟩ halive)
  have hrunning : r.globals.running = false := by rw [hstopped]
  have hrunning' : r'.globals.running = false := by rw [hglobals]
  have hstart : ∀ {s}, Reachable secured s → Steps (Step secured) 0 s s := fun _ => .refl _
  have hhandled := (hstart hfirst).step
    (.handle ⟨⟨_, 9, _, ⟨rfl, rfl⟩, rfl, hstopped ▸ hr'⟩, htls, rfl⟩ halive')
  have hleaving := (hhandled.step (.next rfl)).step (.stop rfl hrunning')
  have hsecond := (hleaving.step (.leave rfl rfl)).step (.destroy rfl rfl rfl rfl
    (.inr ⟨_, 1, _, operations', rfl, hteardown', rfl⟩))
  have hboth := (hsecond.step (.leave rfl rfl)).step (.destroy rfl rfl rfl rfl
    (.inr ⟨_, 1, _, operations, rfl, hteardown, rfl⟩))
  have hall := (hboth.step (.leave rfl rfl)).step (.destroy rfl rfl rfl rfl (.inl ⟨rfl, rfl⟩))
  exact ⟨_, _, hfirst, hrunning, rfl, mem_live rfl, mem_live rfl, rfl,
    shutdown_bounded hfirst hrunning (hall.step (.left rfl rfl))⟩

end Hss.Batch
