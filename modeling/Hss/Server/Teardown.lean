import Hss.Server.MainLoop

namespace Hss.Teardown

open Hss.Loop Hss.Request Hss.DescriptorList Hss.Transaction Hss.Transport Hss.Connection Hss.Tls
  Hss.Acceptance Hss.Session Hss.MainLoop

variable {σ : Type} {outside : Outside σ} {s s' t : Server σ} {p : Peer σ}

/-- The second observation is an operation on the connection that the first one
has closed. -/
def Touches (o o' : Nat × Observation) : Prop :=
  ∃ type operation, o.2 = .closed type ∧ o' = (o.1, .io operation)

/-- Nothing is done on a connection behind the `close` of its descriptor. -/
def QuietAfterClose (log : List (Nat × Observation)) : Prop :=
  log.Pairwise fun o o' => ¬ Touches o o'

/-- A run of the server, with the states that steps were taken from. -/
inductive Course (outside : Outside σ) : List (Server σ) → Server σ → Prop
  | start (logLevel : LoggingLogLevel) : Course outside [] (start logLevel)
  | step {passed : List (Server σ)} {s s' : Server σ} : Course outside passed s →
      Step outside s s' → Course outside (passed ++ [s]) s'

/-- The entry that is about to be destroyed is not a TLS connection. -/
def Spares (s : Server σ) : Prop :=
  ∀ a after e p, s.phase = .destroying a after → s.registry.entries a = some e →
    e.connection = some p → p.information.type ≠ .tlsSocket

theorem Course.reachable {passed : List (Server σ)} (h : Course outside passed s) :
    Reachable outside s := by
  induction h with
  | start logLevel => exact .start logLevel
  | step _ hstep ih => exact ih.step hstep

theorem course_of_reachable (h : Reachable outside s) : ∃ passed, Course outside passed s := by
  induction h with
  | start logLevel => exact ⟨[], .start logLevel⟩
  | step _ hstep ih =>
    obtain ⟨passed, hcourse⟩ := ih
    exact ⟨_, hcourse.step hstep⟩

/-- What a step adds to the log: the operations of a call, or what is observed of
the entry that is destroyed. -/
inductive Adds (outside : Outside σ) (s : Server σ) : List (Nat × Observation) → Prop
  | none : (∀ a after, s.phase ≠ .destroying a after) → Adds outside s []
  | call {a : Address} {rest : List (Address × EpollEvents)}
      {e : FileDescriptorInformation (Peer σ)} {p : Peer σ} {env : Environment} {r : Handled σ} :
      Handles outside s a rest e p env r → Adds outside s (observe p.serial r.operations)
  | destroy {a : Address} {after : After} {e : FileDescriptorInformation (Peer σ)}
      {observed : List (Nat × Observation)} : s.phase = .destroying a after →
      s.registry.entries a = some e → Observed e observed → Adds outside s observed

theorem adds_of_step (h : Step outside s s') :
    ∃ added, Adds outside s added ∧ s'.log = s.log ++ added := by
  have hquiet : ∀ {phase : Phase}, s.phase = phase → (∀ a after, phase ≠ .destroying a after) →
      ∃ added, Adds outside s added ∧ s.log = s.log ++ added := by
    intro phase hphase hne
    refine ⟨[], .none ?_, (List.append_nil _).symm⟩
    rw [hphase]
    exact hne
  cases h with
  | listen _ _ _ hphase => exact hquiet hphase (by simp)
  | listened hphase => exact hquiet hphase (by simp)
  | wait _ hphase => exact hquiet hphase (by simp)
  | stop hphase => exact hquiet hphase (by simp)
  | next hphase => exact hquiet hphase (by simp)
  | hangup hnext => exact hquiet hnext.phase (by simp)
  | refuse hnext => exact hquiet hnext.phase (by simp)
  | accept _ _ _ _ _ _ _ hnext => exact hquiet hnext.phase (by simp)
  | exit _ _ _ _ hnext => exact hquiet hnext.phase (by simp)
  | handle hhandles => exact ⟨_, .call hhandles, rfl⟩
  | fail hhandles => exact ⟨_, .call hhandles, rfl⟩
  | destroy hphase he _ _ hobserved => exact ⟨_, .destroy hphase he hobserved, rfl⟩
  | leave hphase => exact hquiet hphase (by simp)
  | left hphase => exact hquiet hphase (by simp)

theorem quiet_observe (serial : Nat) (operations : List Io) :
    QuietAfterClose (observe serial operations) := by
  apply List.pairwise_map.mpr
  apply List.pairwise_of_forall
  rintro op op' ⟨type, operation, hclosed, -⟩
  cases hclosed

theorem teardown_operations (h : Owned outside p) {fuel : Nat} {w : σ} {operations : List Io}
    (ht : teardown fuel w p.transport = some operations) :
    operations = [] ↔ p.information.type ≠ .tlsSocket := by
  rw [Owned] at h
  split at h
  · rename_i htransport
    rw [htransport] at ht
    cases ht
    rw [h.1]
    exact iff_of_true rfl (by decide)
  · rename_i connection htransport
    rw [htransport] at ht
    obtain ⟨htype, hpointers⟩ := h
    obtain ⟨destroy, hdestroy, ht⟩ := Option.bind_eq_some_iff.mp ht
    obtain ⟨underlying, hunderlying, ht⟩ := Option.bind_eq_some_iff.mp ht
    refine iff_of_false ?_ (not_not.mpr htype)
    obtain ⟨hwired, -⟩ | ⟨-, -, hnone⟩ := hpointers
    · cases hwired.destroyUnderlying.symm.trans hdestroy
      obtain ⟨before, -, hdeinit⟩ := Option.bind_eq_some_iff.mp hunderlying
      cases hdeinit
      cases ht
      simp [ConnectionUnderlying.note]
    · cases hnone.symm.trans hdestroy

theorem quiet_append_observe (h : Sane outside s) {a : Address}
    (hp : connectionAt s.registry a = some p) (hquiet : QuietAfterClose s.log)
    (operations : List Io) : QuietAfterClose (s.log ++ observe p.serial operations) := by
  refine List.pairwise_append.mpr ⟨hquiet, quiet_observe _ _, ?_⟩
  rintro ⟨n, o⟩ ho o' ho' ⟨type, operation, rfl, rfl⟩
  obtain ⟨op, -, heq⟩ := List.mem_map.mp ho'
  obtain rfl : p.serial = n := congrArg Prod.fst heq
  exact h.isOpen a p type hp ho

theorem step_quiet (h : Sane outside s) (hspares : Spares s) (hstep : Step outside s s')
    (hquiet : QuietAfterClose s.log) : QuietAfterClose s'.log := by
  obtain ⟨added, hadds, hlog⟩ := adds_of_step hstep
  rw [hlog]
  cases hadds with
  | none =>
    rw [List.append_nil]
    exact hquiet
  | call hhandles => exact quiet_append_observe h hhandles.connectionAt hquiet _
  | @destroy a after e _ hphase he hobserved =>
    obtain ⟨-, rfl⟩ | ⟨p, fuel, w, operations, hp, hteardown, rfl⟩ := hobserved
    · rw [List.append_nil]
      exact hquiet
    · have hat : connectionAt s.registry a = some p := by
        rw [connectionAt, he, Option.bind_some, hp]
      obtain rfl := (teardown_operations (h.owned a p hat) hteardown).mpr
        (hspares a after e p hphase he hp)
      refine List.pairwise_append.mpr ⟨hquiet, List.pairwise_singleton _ _, ?_⟩
      rintro o - o' ho' ⟨type, operation, -, rfl⟩
      cases congrArg Prod.snd (List.mem_singleton.mp ho')

/-- A TLS session is ended behind the close of its descriptor. -/
theorem step_loud (h : Sane outside s) (hspares : ¬ Spares s) (hstep : Step outside s s') :
    ¬ QuietAfterClose s'.log := by
  obtain ⟨added, hadds, hlog⟩ := adds_of_step hstep
  simp only [Spares, not_forall, not_not] at hspares
  obtain ⟨a, after, e, p, hphase, he, hp, htls⟩ := hspares
  rw [hlog]
  intro hquiet
  cases hadds with
  | none hne => exact hne a after hphase
  | call hhandles =>
    obtain ⟨ev, fuel, w, hnext, -⟩ := hhandles.next
    cases hphase.symm.trans hnext.phase
  | destroy hphase' he' hobserved =>
    cases hphase.symm.trans hphase'
    cases he.symm.trans he'
    obtain ⟨hnone, -⟩ | ⟨p', fuel, w, operations, hp', hteardown, rfl⟩ := hobserved
    · cases hp.symm.trans hnone
    · cases hp.symm.trans hp'
      have hat := connectionAt_entry he hp
      have hsome : operations ≠ [] := fun hnil =>
        (teardown_operations (h.owned a p hat) hteardown).mp hnil htls
      obtain ⟨operation, operations, rfl⟩ := List.exists_cons_of_ne_nil hsome
      obtain ⟨-, hlater, -⟩ := List.pairwise_append.mp hquiet
      obtain ⟨hfirst, -⟩ := List.pairwise_cons.mp hlater
      exact hfirst _ List.mem_cons_self ⟨_, operation, rfl, rfl⟩

/-- In a run nothing is done on a connection behind the close of its descriptor,
exactly as long as no TLS connection is torn down. -/
theorem quiet_after_close_iff {passed : List (Server σ)} (h : Course outside passed s) :
    QuietAfterClose s.log ↔ ∀ t ∈ passed, Spares t := by
  induction h with
  | start logLevel => exact iff_of_true List.Pairwise.nil (fun t ht => absurd ht List.not_mem_nil)
  | @step passed s s' hcourse hstep ih =>
    have hsane := hcourse.reachable.sane
    have hmem : ∀ t, t ∈ passed ++ [s] ↔ t ∈ passed ∨ t = s := fun t => by
      rw [List.mem_append, List.mem_singleton]
    constructor
    · intro hquiet t ht
      obtain ht | rfl := (hmem t).mp ht
      · obtain ⟨added, -, hlog⟩ := adds_of_step hstep
        rw [hlog] at hquiet
        exact ih.mp (List.pairwise_append.mp hquiet).1 t ht
      · by_contra hspares
        exact step_loud hsane hspares hstep hquiet
    · intro hspares
      have hearlier := ih.mpr fun t ht => hspares t ((hmem t).mpr (.inl ht))
      exact step_quiet hsane (hspares s ((hmem s).mpr (.inr rfl))) hstep hearlier

def silent : Outside Unit := ⟨⟨fun w _ => (.failed EAGAIN, w), fun w _ => (.failed EAGAIN, w)⟩,
  answering 0 0⟩

theorem visit (type : FileDescriptorType) (htype : type ≠ .listenSocket) {p : Peer Unit}
    (hp : initializePeer silent type smoothSetup () 0 freshBlock Response.freshResponse =
      some p) {operations : List Io} (hteardown : teardown 1 () p.transport = some operations) :
    ∃ passed s, Course silent passed s ∧
      s.log = (p.serial, .closed p.information.type) :: observe p.serial operations := by
  obtain ⟨s, e, hreach, hnext, -, hconnection, -, hlog, registry, hdestroy⟩ :=
    served silent htype () hp ⟨true, readable⟩
  obtain ⟨passed, hcourse⟩ := course_of_reachable hreach
  have hhangup := hcourse.step (.hangup hnext rfl)
  have hend := hhangup.step (.destroy rfl hnext.entry hdestroy rfl
    (.inr ⟨p, 1, (), operations, hconnection, hteardown, rfl⟩))
  refine ⟨_, _, hend, ?_⟩
  rw [hlog, List.nil_append]

theorem quiet_after_close_iff_plain : ∃ passed s, Course silent passed s ∧
    s.log = [(0, .closed .tcpSocket)] ∧ ∀ t ∈ passed, Spares t := by
  obtain ⟨passed, s, hcourse, hlog⟩ := visit .tcpSocket (by decide) rfl rfl
  refine ⟨passed, s, hcourse, hlog, (quiet_after_close_iff hcourse).mp ?_⟩
  rw [hlog]
  exact List.pairwise_singleton _ _

/-- A TLS connection that hangs up is closed before its session is ended. -/
theorem bye_after_close : ∃ passed s, Course silent passed s ∧
    s.log = [(0, .closed .tlsSocket), (0, .io (.gnutls (.bye 0))), (0, .io (.gnutls .deinit))] ∧
    ¬ QuietAfterClose s.log := by
  obtain ⟨passed, s, hcourse, hlog⟩ := visit .tlsSocket (by decide) rfl rfl
  refine ⟨passed, s, hcourse, hlog, ?_⟩
  rw [hlog]
  intro hquiet
  obtain ⟨hfirst, -⟩ := List.pairwise_cons.mp hquiet
  exact hfirst _ List.mem_cons_self ⟨.tlsSocket, .gnutls (.bye 0), rfl, rfl⟩

end Hss.Teardown
