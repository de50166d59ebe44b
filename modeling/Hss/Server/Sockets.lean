import Hss.Server.Batch

namespace Hss.Sockets

open Hss.DescriptorList

/-- 80 and 443 in a build with `NDEBUG`, 8080 and 8843 in one without. -/
structure Ports where
  httpPort : Nat
  httpsPort : Nat

inductive Family
  | inet
  | inet6
  | other
  deriving DecidableEq, Repr

/-- What the kernel answers while an address of this family is listened on; -1 is a failure. -/
structure ListenAnswers where
  family : Family
  socket : Int
  bind : Int
  listen : Int
  epollCtl : Int

/-- What it answers while a connection is accepted. The port has the bytes it has in memory. -/
structure AcceptAnswers where
  accept : Int
  family : Family
  port : UInt8 × UInt8
  epollCtl : Int

def ntohs (port : UInt8 × UInt8) : Nat := 256 * port.1.toNat + port.2.toNat

/-- The list of the program, and what the kernel has: the open sockets, and the interest list
of epoll with the pointer of each entry. -/
structure State (C : Type) where
  registry : Registry C
  descriptors : List Int
  interest : List (Int × Address)

variable {C : Type}

def initial : State C := ⟨DescriptorList.initial, [], []⟩

def State.closed (s : State C) (fd : Int) : State C where
  registry := s.registry
  descriptors := s.descriptors.erase fd
  interest := s.interest.filter (·.1 ≠ fd)

section Functions

variable (initializeConnectionInformation : Int → FileDescriptorType → C)

/-- `information` is the block that `malloc` returns. -/
def register (s : State C) (information : Address) (fd : Int) (type : FileDescriptorType)
    (epollCtl : Int) : State C where
  registry := registerFileDescriptor initializeConnectionInformation information fd type s.registry
  descriptors := s.descriptors
  interest := if epollCtl = -1 then s.interest else (fd, information) :: s.interest

/-- `none` is the assertion about the family failing. -/
def listenAddress (s : State C) (information : Address) (answers : ListenAnswers) :
    Option (State C) :=
  if answers.family ≠ .inet ∧ answers.family ≠ .inet6 then none
  else
    let fd := answers.socket
    if fd = -1 then some s
    else
      let s := { s with descriptors := fd :: s.descriptors }
      if answers.bind = -1 then some s
      else if answers.listen = -1 then some s
      else
        some <|
          register initializeConnectionInformation s information fd .listenSocket answers.epollCtl

def listenAddresses (s : State C) : List (Address × ListenAnswers) → Option (State C)
  | [] => some s
  | (information, answers) :: rest =>
    (listenAddress initializeConnectionInformation s information answers).bind
      (listenAddresses · rest)

def acceptConnection (ports : Ports) (s : State C) (information : Address)
    (answers : AcceptAnswers) : State C :=
  let fd := answers.accept
  if fd = -1 then s
  else
    let s := { s with descriptors := fd :: s.descriptors }
    let port := ntohs answers.port
    if answers.family ≠ .inet ∧ answers.family ≠ .inet6 then s.closed fd
    else if port ≠ ports.httpPort ∧ port ≠ ports.httpsPort then s.closed fd
    else
      let type := if port = ports.httpPort then .tcpSocket else .tlsSocket
      register initializeConnectionInformation s information fd type answers.epollCtl

end Functions

def destroyFileInformation (s : State C) (information : Address) : Option (State C) := do
  let e ← s.registry.entries information
  let registry ← DescriptorList.destroyFileInformation information s.registry
  some { s.closed e.fileDescriptor with registry }

inductive Operation
  | listen (addresses : List (Address × ListenAnswers))
  | accept (information : Address) (answers : AcceptAnswers)
  | destroy (information : Address)

def perform (init : Int → FileDescriptorType → C) (ports : Ports) (s : State C) :
    Operation → Option (State C)
  | .listen addresses => listenAddresses init s addresses
  | .accept a answers => some (acceptConnection init ports s a answers)
  | .destroy a => destroyFileInformation s a

/-- A new block is not in use and a new descriptor is not open. -/
def Fresh (s : State C) (information : Address) (fd : Int) : Prop :=
  s.registry.entries information = none ∧ fd ∉ s.descriptors

/-- `getaddrinfo` finds internet addresses only. -/
def PermittedAddresses (init : Int → FileDescriptorType → C) (s : State C) :
    List (Address × ListenAnswers) → Prop
  | [] => True
  | (a, answers) :: rest =>
    answers.family ≠ .other ∧ Fresh s a answers.socket ∧
      ∀ s', listenAddress init s a answers = some s' → PermittedAddresses init s' rest

def Permitted (init : Int → FileDescriptorType → C) (s : State C) : Operation → Prop
  | .listen addresses => PermittedAddresses init s addresses
  | .accept a answers => Fresh s a answers.accept
  | .destroy a => s.registry.entries a ≠ none

/-- The socket that `listen_address` gives up without closing it. -/
def abandonedSocket (answers : ListenAnswers) : List Int :=
  if answers.socket ≠ -1 ∧ (answers.bind = -1 ∨ answers.listen = -1) then [answers.socket]
  else []

def abandoned : Operation → List Int
  | .listen addresses => addresses.flatMap fun p => abandonedSocket p.2
  | .accept .. => []
  | .destroy _ => []

inductive Run (init : Int → FileDescriptorType → C) (ports : Ports) :
    List Operation → State C → Prop
  | start : Run init ports [] initial
  | step {operations : List Operation} {s s' : State C} (operation : Operation) :
      Run init ports operations s → Permitted init s operation →
      perform init ports s operation = some s' →
      Run init ports (operations ++ [operation]) s'

/-- Every open socket has one entry, or has been abandoned; the interest list points to the
entries of its sockets. -/
structure Sound (lost : List Int) (s : State C) : Prop where
  prev : ∀ a e, s.registry.entries a = some e → e.prev = .head
  nodup : s.descriptors.Nodup
  isOpen : ∀ fd, fd ∈ s.descriptors ↔
    (∃ a e, s.registry.entries a = some e ∧ e.fileDescriptor = fd) ∨ fd ∈ lost
  distinct : ∀ a b e e', s.registry.entries a = some e → s.registry.entries b = some e' →
    e.fileDescriptor = e'.fileDescriptor → a = b
  apart : ∀ a e, s.registry.entries a = some e → e.fileDescriptor ∉ lost
  pointer : ∀ fd a, (fd, a) ∈ s.interest →
    ∃ e, s.registry.entries a = some e ∧ e.fileDescriptor = fd
  once : (s.interest.map (·.1)).Nodup

variable {init : Int → FileDescriptorType → C} {ports : Ports} {lost : List Int} {s s' : State C}
  {a : Address} {fd epollCtl : Int} {type : FileDescriptorType}

theorem sound_initial : Sound [] (initial (C := C)) where
  prev _ _ h := by cases h
  nodup := List.nodup_nil
  isOpen fd := by
    refine ⟨fun h => absurd h List.not_mem_nil, ?_⟩
    rintro (⟨a, e, h, -⟩ | h)
    · cases h
    · exact absurd h List.not_mem_nil
  distinct _ _ _ _ h := by cases h
  apart _ _ h := by cases h
  pointer _ _ h := absurd h List.not_mem_nil
  once := List.nodup_nil

theorem Sound.not_mem_interest (h : Sound lost s) (hfd : fd ∉ s.descriptors) :
    fd ∉ s.interest.map (·.1) := by
  intro hmem
  obtain ⟨⟨fd', a⟩, hin, rfl⟩ := List.mem_map.mp hmem
  obtain ⟨e, he, hefd⟩ := h.pointer fd' a hin
  exact hfd ((h.isOpen fd').mpr (.inl ⟨a, e, he, hefd⟩))

theorem Sound.pointers_nodup (h : Sound lost s) : (s.interest.map (·.2)).Nodup := by
  have honce : s.interest.Pairwise fun p q => p.1 ≠ q.1 := List.pairwise_map.mp h.once
  refine List.pairwise_map.mpr (honce.imp_of_mem ?_)
  rintro ⟨fd, a⟩ ⟨fd', b⟩ hp hq hne hab
  obtain ⟨e, he, hefd⟩ := h.pointer fd a hp
  obtain ⟨e', he', hefd'⟩ := h.pointer fd' b hq
  dsimp only at hab
  subst hab
  cases he.symm.trans he'
  exact hne (hefd.symm.trans hefd')

theorem Sound.closed_opened (h : Sound lost s) (hfd : fd ∉ s.descriptors) :
    State.closed { s with descriptors := fd :: s.descriptors } fd = s := by
  have hfilter : s.interest.filter (·.1 ≠ fd) = s.interest := by
    refine List.filter_eq_self.mpr fun p hp => decide_eq_true fun heq => ?_
    exact h.not_mem_interest hfd (heq ▸ List.mem_map_of_mem hp)
  rw [State.closed, List.erase_cons_head, hfilter]

theorem Sound.abandon (h : Sound lost s) (hfd : fd ∉ s.descriptors) :
    Sound (lost ++ [fd]) { s with descriptors := fd :: s.descriptors } where
  prev := h.prev
  nodup := List.nodup_cons.mpr ⟨hfd, h.nodup⟩
  isOpen fd' := by
    rw [List.mem_cons, h.isOpen, List.mem_append, List.mem_singleton, or_comm, or_assoc]
  distinct := h.distinct
  apart a e he hmem := by
    obtain hmem | hmem := List.mem_append.mp hmem
    · exact h.apart a e he hmem
    · exact hfd ((h.isOpen fd).mpr (.inl ⟨a, e, he, List.mem_singleton.mp hmem⟩))
  pointer := h.pointer
  once := h.once

theorem entries_register {b : Address} {e : FileDescriptorInformation C}
    (hb : (register init s a fd type epollCtl).registry.entries b = some e) :
    (b = a ∧ e.fileDescriptor = fd ∧ e.prev = .head) ∨
      (b ≠ a ∧ s.registry.entries b = some e) := by
  simp only [register, registerFileDescriptor] at hb
  by_cases hne : b = a
  · subst hne
    rw [Function.update_self] at hb
    cases hb
    exact .inl ⟨rfl, rfl, rfl⟩
  · rw [Function.update_of_ne hne] at hb
    exact .inr ⟨hne, hb⟩

theorem entries_register_self :
    ∃ e, (register init s a fd type epollCtl).registry.entries a = some e ∧
      e.fileDescriptor = fd := ⟨_, Function.update_self .., rfl⟩

theorem entries_register_of_live (epollCtl : Int) (ha : s.registry.entries a = none)
    {b : Address} {e : FileDescriptorInformation C} (hb : s.registry.entries b = some e) :
    (register init s a fd type epollCtl).registry.entries b = some e := by
  have hne : b ≠ a := by
    rintro rfl
    cases ha.symm.trans hb
  exact (Function.update_of_ne hne ..).trans hb

theorem mem_interest_register {p : Int × Address}
    (hp : p ∈ (register init s a fd type epollCtl).interest) :
    p = (fd, a) ∨ p ∈ s.interest := by
  rw [register] at hp
  dsimp only at hp
  split at hp
  · exact .inr hp
  · exact List.mem_cons.mp hp

theorem Sound.fileDescriptor_ne (h : Sound lost s) (hfd : fd ∉ s.descriptors) {b : Address}
    {e : FileDescriptorInformation C} (hb : s.registry.entries b = some e) :
    e.fileDescriptor ≠ fd := by
  rintro rfl
  exact hfd ((h.isOpen _).mpr (.inl ⟨b, e, hb, rfl⟩))

theorem Sound.register (h : Sound lost s) (ha : s.registry.entries a = none)
    (hfd : fd ∉ s.descriptors) :
    Sound lost
      (register init { s with descriptors := fd :: s.descriptors } a fd type epollCtl) where
  prev b e hb := by
    obtain ⟨-, -, hprev⟩ | ⟨-, hb⟩ := entries_register hb
    · exact hprev
    · exact h.prev b e hb
  nodup := List.nodup_cons.mpr ⟨hfd, h.nodup⟩
  isOpen fd' := by
    refine ⟨fun hmem => ?_, ?_⟩
    · obtain rfl | hmem := List.mem_cons.mp hmem
      · exact .inl ⟨a, entries_register_self⟩
      · obtain ⟨b, e, hb, hefd⟩ | hlost := (h.isOpen fd').mp hmem
        · exact .inl ⟨b, e, entries_register_of_live epollCtl ha hb, hefd⟩
        · exact .inr hlost
    · rintro (⟨b, e, hb, rfl⟩ | hlost)
      · obtain ⟨-, hefd, -⟩ | ⟨-, hb⟩ := entries_register hb
        · rw [hefd]
          exact List.mem_cons_self
        · exact List.mem_cons_of_mem _ ((h.isOpen _).mpr (.inl ⟨b, e, hb, rfl⟩))
      · exact List.mem_cons_of_mem _ ((h.isOpen _).mpr (.inr hlost))
  distinct b b' e e' hb hb' heq := by
    obtain ⟨rfl, hefd, -⟩ | ⟨-, hb⟩ := entries_register hb
    · obtain ⟨rfl, -, -⟩ | ⟨-, hb'⟩ := entries_register hb'
      · rfl
      · exact absurd (heq.symm.trans hefd) (h.fileDescriptor_ne hfd hb')
    · obtain ⟨-, hefd', -⟩ | ⟨-, hb'⟩ := entries_register hb'
      · exact absurd (heq.trans hefd') (h.fileDescriptor_ne hfd hb)
      · exact h.distinct b b' e e' hb hb' heq
  apart b e hb := by
    obtain ⟨-, hefd, -⟩ | ⟨-, hb⟩ := entries_register hb
    · rw [hefd]
      exact fun hlost => hfd ((h.isOpen fd).mpr (.inr hlost))
    · exact h.apart b e hb
  pointer fd' b hmem := by
    obtain heq | hmem := mem_interest_register hmem
    · cases heq
      exact entries_register_self
    · obtain ⟨e, he, hefd⟩ := h.pointer fd' b hmem
      exact ⟨e, entries_register_of_live epollCtl ha he, hefd⟩
  once := by
    rw [Sockets.register]
    dsimp only
    split
    · exact h.once
    · exact List.nodup_cons.mpr ⟨h.not_mem_interest hfd, h.once⟩

theorem Sound.listenAddress (h : Sound lost s) {answers : ListenAnswers}
    (hfamily : answers.family ≠ .other) (hfresh : Fresh s a answers.socket) :
    ∃ s', listenAddress init s a answers = some s' ∧
      Sound (lost ++ abandonedSocket answers) s' := by
  obtain ⟨ha, hfd⟩ := hfresh
  have hinternet : ¬(answers.family ≠ .inet ∧ answers.family ≠ .inet6) := by
    cases hf : answers.family with
    | other => exact absurd hf hfamily
    | inet => simp
    | inet6 => simp
  rw [Sockets.listenAddress, abandonedSocket, if_neg hinternet]
  dsimp only
  by_cases hsocket : answers.socket = -1
  · rw [if_pos hsocket, if_neg (fun hn => hn.1 hsocket), List.append_nil]
    exact ⟨s, rfl, h⟩
  rw [if_neg hsocket]
  by_cases hbind : answers.bind = -1
  · rw [if_pos hbind, if_pos ⟨hsocket, .inl hbind⟩]
    exact ⟨_, rfl, h.abandon hfd⟩
  rw [if_neg hbind]
  by_cases hlisten : answers.listen = -1
  · rw [if_pos hlisten, if_pos ⟨hsocket, .inr hlisten⟩]
    exact ⟨_, rfl, h.abandon hfd⟩
  · rw [if_neg hlisten, if_neg (fun hn => hn.2.elim hbind hlisten), List.append_nil]
    exact ⟨_, rfl, h.register ha hfd⟩

theorem Sound.listenAddresses (h : Sound lost s) {addresses : List (Address × ListenAnswers)}
    (hp : PermittedAddresses init s addresses) :
    ∃ s', listenAddresses init s addresses = some s' ∧
      Sound (lost ++ addresses.flatMap fun p => abandonedSocket p.2) s' := by
  induction addresses generalizing s lost with
  | nil => exact ⟨s, rfl, by rwa [List.flatMap_nil, List.append_nil]⟩
  | cons p rest ih =>
    obtain ⟨hfamily, hfresh, hrest⟩ := hp
    obtain ⟨s₁, hlisten, h₁⟩ : ∃ s₁, Sockets.listenAddress init s p.1 p.2 = some s₁ ∧
      Sound (lost ++ abandonedSocket p.2) s₁ := h.listenAddress hfamily hfresh
    obtain ⟨s', hs', h'⟩ := ih h₁ (hrest s₁ hlisten)
    refine ⟨s', ?_, ?_⟩
    · rw [Sockets.listenAddresses, hlisten]
      exact hs'
    · rwa [List.flatMap_cons, ← List.append_assoc]

theorem Sound.acceptConnection (h : Sound lost s) {answers : AcceptAnswers}
    (hfresh : Fresh s a answers.accept) : Sound lost (acceptConnection init ports s a answers) := by
  obtain ⟨ha, hfd⟩ := hfresh
  rw [Sockets.acceptConnection]
  dsimp only
  split
  · exact h
  split
  · rw [h.closed_opened hfd]
    exact h
  split
  · rw [h.closed_opened hfd]
    exact h
  · exact h.register ha hfd

/-- The state after `destroy_file_information`, where every entry is linked from the head. -/
def State.destroyed (s : State C) (a : Address) (e : FileDescriptorInformation C) : State C :=
  { s.closed e.fileDescriptor with
    registry :=
      { head := e.next
        entries := Function.update s.registry.entries a none
        closed := s.registry.closed ++ [e.fileDescriptor] } }

theorem destroyFileInformation_eq {e : FileDescriptorInformation C}
    (he : s.registry.entries a = some e) (hprev : e.prev = .head) :
    destroyFileInformation s a = some (s.destroyed a e) := by
  have hdestroy : DescriptorList.destroyFileInformation a s.registry =
      some (s.destroyed a e).registry := Batch.destroy_eq he hprev
  rw [destroyFileInformation, he, Option.bind_eq_bind, Option.bind_some, hdestroy]
  rfl

theorem Sound.entries_destroyed (h : Sound lost s) {e e' : FileDescriptorInformation C}
    (he : s.registry.entries a = some e) {b : Address}
    (hb : (s.destroyed a e).registry.entries b = some e') :
    s.registry.entries b = some e' ∧ e'.fileDescriptor ≠ e.fileDescriptor := by
  have hne : b ≠ a := by
    rintro rfl
    cases (Function.update_self ..).symm.trans hb
  have hb' : s.registry.entries b = some e' := (Function.update_of_ne hne ..).symm.trans hb
  exact ⟨hb', fun heq => hne (h.distinct b a e' e hb' he heq)⟩

theorem entries_destroyed_of_ne {e e' : FileDescriptorInformation C}
    (he : s.registry.entries a = some e) {b : Address} (hb : s.registry.entries b = some e')
    (hne : e'.fileDescriptor ≠ e.fileDescriptor) :
    (s.destroyed a e).registry.entries b = some e' := by
  have hba : b ≠ a := by
    rintro rfl
    cases he.symm.trans hb
    exact hne rfl
  exact (Function.update_of_ne hba ..).trans hb

theorem Sound.destroyed (h : Sound lost s) {e : FileDescriptorInformation C}
    (he : s.registry.entries a = some e) : Sound lost (s.destroyed a e) where
  prev b e' hb := h.prev b e' (h.entries_destroyed he hb).1
  nodup := h.nodup.erase _
  isOpen fd := by
    refine (h.nodup.mem_erase_iff).trans ⟨?_, ?_⟩
    · rintro ⟨hne, hmem⟩
      obtain ⟨b, e', hb, rfl⟩ | hlost := (h.isOpen fd).mp hmem
      · exact .inl ⟨b, e', entries_destroyed_of_ne he hb hne, rfl⟩
      · exact .inr hlost
    · rintro (⟨b, e', hb, rfl⟩ | hlost)
      · obtain ⟨hb, hne⟩ := h.entries_destroyed he hb
        exact ⟨hne, (h.isOpen _).mpr (.inl ⟨b, e', hb, rfl⟩)⟩
      · refine ⟨?_, (h.isOpen _).mpr (.inr hlost)⟩
        rintro rfl
        exact h.apart a e he hlost
  distinct b b' e₁ e₂ hb hb' heq :=
    h.distinct b b' e₁ e₂ (h.entries_destroyed he hb).1 (h.entries_destroyed he hb').1 heq
  apart b e' hb := h.apart b e' (h.entries_destroyed he hb).1
  pointer fd b hmem := by
    obtain ⟨hmem, hne⟩ := List.mem_filter.mp hmem
    obtain ⟨e', he', rfl⟩ := h.pointer fd b hmem
    exact ⟨e', entries_destroyed_of_ne he he' (of_decide_eq_true hne), rfl⟩
  once := h.once.sublist (List.filter_sublist.map _)

theorem Sound.perform (h : Sound lost s) {operation : Operation}
    (hp : Permitted init s operation) :
    ∃ s', perform init ports s operation = some s' ∧ Sound (lost ++ abandoned operation) s' := by
  cases operation with
  | listen addresses => exact h.listenAddresses hp
  | accept a answers =>
    refine ⟨_, rfl, ?_⟩
    rw [abandoned, List.append_nil]
    exact h.acceptConnection hp
  | destroy a =>
    obtain ⟨e, he⟩ := Option.ne_none_iff_exists'.mp hp
    refine ⟨s.destroyed a e, destroyFileInformation_eq he (h.prev a e he), ?_⟩
    rw [abandoned, List.append_nil]
    exact h.destroyed he

theorem Run.sound {operations : List Operation} (h : Run init ports operations s) :
    Sound (operations.flatMap abandoned) s := by
  induction h with
  | start => exact sound_initial
  | step operation _ hp hperform ih =>
    obtain ⟨s₁, hs₁, hsound⟩ := ih.perform hp
    cases hs₁.symm.trans hperform
    rw [List.flatMap_append, List.flatMap_singleton]
    exact hsound

/-- However addresses are listened on, connections accepted and entries destroyed, and
whatever the kernel answers: no operation fails, each pointer in the interest list of epoll
leads to a live entry whose socket is open, no two of them to the same one, and the sockets
open are those of the entries, one each, and those that could not be bound or listened on. -/
theorem sockets_accounted {operations : List Operation} (h : Run init ports operations s) :
    (∀ operation, Permitted init s operation → ∃ s', perform init ports s operation = some s') ∧
      (∀ fd a, (fd, a) ∈ s.interest → fd ∈ s.descriptors ∧
        ∃ e, s.registry.entries a = some e ∧ e.fileDescriptor = fd) ∧
      (s.interest.map (·.2)).Nodup ∧ s.descriptors.Nodup ∧
      ∀ fd, fd ∈ s.descriptors ↔
        (∃! a, ∃ e, s.registry.entries a = some e ∧ e.fileDescriptor = fd) ∨
          fd ∈ operations.flatMap abandoned := by
  have hs := h.sound
  refine ⟨fun operation hp => ?_, fun fd a hmem => ?_, hs.pointers_nodup, hs.nodup,
    fun fd => ?_⟩
  · obtain ⟨s', hs', -⟩ := hs.perform hp
    exact ⟨s', hs'⟩
  · obtain ⟨e, he, hefd⟩ := hs.pointer fd a hmem
    exact ⟨(hs.isOpen fd).mpr (.inl ⟨a, e, he, hefd⟩), e, he, hefd⟩
  · rw [hs.isOpen]
    refine or_congr_left ⟨?_, ?_⟩
    · rintro ⟨a, e, he, hefd⟩
      refine ⟨a, ⟨e, he, hefd⟩, ?_⟩
      rintro b ⟨e', he', hefd'⟩
      exact hs.distinct b a e' e he' he (hefd'.trans hefd.symm)
    · rintro ⟨a, ⟨e, he, hefd⟩, -⟩
      exact ⟨a, e, he, hefd⟩

/-- A connection came and went; the second address could not be bound. -/
theorem sockets_accounted_after_one : ∃ operations, ∃ s : State Int,
    Run (fun fd _ => fd) ⟨80, 443⟩ operations s ∧ (3, 10) ∈ s.interest ∧
      s.descriptors = [4, 3] ∧
      ∀ fd, fd ∈ s.descriptors ↔
        (∃! a, ∃ e, s.registry.entries a = some e ∧ e.fileDescriptor = fd) ∨
          fd ∈ operations.flatMap abandoned := by
  have hlisten : Run (fun fd _ => fd) ⟨80, 443⟩
      [.listen [(10, ⟨.inet, 3, 0, 0, 0⟩), (11, ⟨.inet6, 4, -1, 0, 0⟩)]] _ :=
    .step _ .start
      ⟨by decide, ⟨rfl, by decide⟩, fun s' hs' => by
        cases hs'
        exact ⟨by decide, ⟨rfl, by decide⟩, fun _ _ => trivial⟩⟩ rfl
  have haccept := hlisten.step (.accept 11 ⟨5, .inet, (1, 187), 0⟩) ⟨rfl, by decide⟩ rfl
  have hdestroy := haccept.step (.destroy 11) (fun hnone => by cases hnone) rfl
  exact ⟨_, _, hdestroy, by decide, rfl, (sockets_accounted hdestroy).2.2.2.2⟩

end Hss.Sockets
