import Hss.Lib.Loop
import Hss.Lib.LinkedList
import Mathlib.Data.List.Perm.Basic
import Mathlib.Logic.Function.Basic

namespace Hss.DescriptorList

open Hss.Loop Hss.LinkedList

inductive FileDescriptorType
  | listenSocket
  | tcpSocket
  | tlsSocket
  deriving DecidableEq, Repr

abbrev Address := Nat

/-- What a `struct file_descriptor_information **` points to: the static list
head, or the `next` field of an entry. -/
inductive Link
  | head
  | next (entry : Address)
  deriving DecidableEq, Repr

structure FileDescriptorInformation (C : Type) where
  type : FileDescriptorType
  fileDescriptor : Int
  next : Option Address
  prev : Link
  connection : Option C

/-- The list behind `get_file_descriptor_list`, the heap blocks of its entries
(a freed block is `none`) and the arguments of `close` so far. -/
structure Registry (C : Type) where
  head : Option Address
  entries : Address → Option (FileDescriptorInformation C)
  closed : List Int

variable {C : Type}

def initial : Registry C := ⟨none, fun _ => none, []⟩

def Registry.nextOf (r : Registry C) (a : Address) : Option (Option Address) :=
  (r.entries a).map (·.next)

/-- `*link`; reading a link inside a freed entry is undefined. -/
def Registry.load (r : Registry C) : Link → Option (Option Address)
  | .head => some r.head
  | .next a => r.nextOf a

def Registry.store (r : Registry C) (target : Option Address) : Link → Option (Registry C)
  | .head => some { r with head := target }
  | .next a => (r.entries a).map fun e =>
      { r with entries := Function.update r.entries a (some { e with next := target }) }

variable (initializeConnectionInformation : Int → FileDescriptorType → C)

/-- `information` is the block that `malloc` returned. -/
def registerFileDescriptor (information : Address) (fileDescriptor : Int)
    (type : FileDescriptorType) (r : Registry C) : Registry C :=
  let entry : FileDescriptorInformation C :=
    { type, fileDescriptor
      next := r.head
      prev := .head
      connection :=
        if type ≠ .listenSocket then some (initializeConnectionInformation fileDescriptor type)
        else none }
  { r with
    head := some information
    entries := Function.update r.entries information (some entry) }

/-- Close the descriptor, unlink the entry through its back pointer, free it.
`none` is a use of freed memory. -/
def destroyFileInformation (information : Address) (r : Registry C) : Option (Registry C) := do
  let e ← r.entries information
  let r ← { r with closed := r.closed ++ [e.fileDescriptor] }.store e.next e.prev
  some { r with entries := Function.update r.entries information none }

def closeStep (r : Registry C) : Registry C ⊕ Option (Registry C) :=
  match r.head with
  | none => .inr (some r)
  | some information =>
    match destroyFileInformation information r with
    | none => .inr none
    | some r' => .inl r'

def closeAllFileDescriptors (fuel : Nat) (r : Registry C) : Option (Option (Registry C)) :=
  iterate closeStep fuel r

inductive Call
  | register (information : Address) (fileDescriptor : Int) (type : FileDescriptorType)
  | destroy (information : Address)

def apply : Call → Registry C → Option (Registry C)
  | .register a fd type, r => some (registerFileDescriptor initializeConnectionInformation a fd type r)
  | .destroy a, r => destroyFileInformation a r

def run : List Call → Registry C → Option (Registry C)
  | [], r => some r
  | c :: cs, r => (apply initializeConnectionInformation c r).bind (run cs)

def registered (live : List (Address × Int)) : List Call → List (Address × Int)
  | [] => live
  | .register a fd _ :: cs => registered ((a, fd) :: live) cs
  | .destroy a :: cs => registered (live.filter (·.1 ≠ a)) cs

def descriptors : List Call → List Int
  | [] => []
  | .register _ fd _ :: cs => fd :: descriptors cs
  | .destroy _ :: cs => descriptors cs

/-- `malloc` returns memory that is not in use, and an entry is destroyed only
while it is registered. -/
def Legal (live : List (Address × Int)) : List Call → Prop
  | [] => True
  | .register a fd _ :: cs => a ∉ live.map (·.1) ∧ Legal ((a, fd) :: live) cs
  | .destroy a :: cs => a ∈ live.map (·.1) ∧ Legal (live.filter (·.1 ≠ a)) cs

/-- Every `destroy` hits the entry registered last among the live ones. -/
def LastInFirstOut (live : List (Address × Int)) : List Call → Prop
  | [] => True
  | .register a fd _ :: cs => LastInFirstOut ((a, fd) :: live) cs
  | .destroy a :: cs =>
    (live.map (·.1)).head? = some a ∧ LastInFirstOut (live.filter (·.1 ≠ a)) cs

def OneAtATime (live : List (Address × Int)) : List Call → Prop
  | [] => True
  | .register a fd _ :: cs => live = [] ∧ OneAtATime ((a, fd) :: live) cs
  | .destroy a :: cs => OneAtATime (live.filter (·.1 ≠ a)) cs

def ListsExactly (r : Registry C) (live : List (Address × Int)) : Prop :=
  ∃ l, Chain r.nextOf r.head l ∧ l.Nodup ∧ ∀ a, a ∈ l ↔ a ∈ live.map (·.1)

def BackPointersExact (r : Registry C) : Prop :=
  ∀ a e, r.entries a = some e → r.load e.prev = some (some a)

def NoLinkDangles (r : Registry C) (live : List (Address × Int)) : Prop :=
  ∀ link a, r.load link = some (some a) → a ∈ live.map (·.1)

/-- `close_all_file_descriptors` comes back, and every descriptor ever
registered has then been closed exactly once. -/
def ClosesEverything (r : Registry C) (fds : List Int) : Prop :=
  ∃ r', Ends closeStep r (some r') ∧ r'.closed.Perm fds

@[simp] theorem nextOf_register (init : Int → FileDescriptorType → C) (a : Address) (fd : Int)
    (type : FileDescriptorType) (r : Registry C) :
    (registerFileDescriptor init a fd type r).nextOf =
      Function.update r.nextOf a (some r.head) := by
  funext b
  by_cases h : b = a
  · subst b
    simp [Registry.nextOf, registerFileDescriptor]
  · simp [Registry.nextOf, registerFileDescriptor, h]

/-- The shape every registry has as long as only the head is ever destroyed:
the list is the stack of live entries, and each back pointer is the list head. -/
structure Stacked (r : Registry C) (live : List (Address × Int)) : Prop where
  chain : Chain r.nextOf r.head (live.map (·.1))
  nodup : (live.map (·.1)).Nodup
  entry : ∀ a fd, (a, fd) ∈ live → ∃ e, r.entries a = some e ∧ e.fileDescriptor = fd ∧ e.prev = .head
  freed : ∀ a, a ∉ live.map (·.1) → r.entries a = none

theorem stacked_initial : Stacked (initial (C := C)) [] :=
  ⟨.null, List.nodup_nil, by simp, by simp [initial]⟩

variable {init : Int → FileDescriptorType → C} {r : Registry C} {live : List (Address × Int)}

theorem Stacked.register (h : Stacked r live) {a : Address} (fd : Int) (type : FileDescriptorType)
    (ha : a ∉ live.map (·.1)) :
    Stacked (registerFileDescriptor init a fd type r) ((a, fd) :: live) := by
  refine ⟨?_, List.nodup_cons.mpr ⟨ha, h.nodup⟩, ?_, ?_⟩
  · refine Chain.node (by simp) (h.chain.congr fun b hb => ?_)
    have hne : b ≠ a := fun he => ha (he ▸ hb)
    simp [hne]
  · intro b fb hb
    rcases List.mem_cons.mp hb with he | hb
    · cases he
      simp [registerFileDescriptor]
    · have hne : b ≠ a := fun he => ha (he ▸ List.mem_map_of_mem hb)
      simpa [registerFileDescriptor, hne] using h.entry b fb hb
  · intro b hb
    simp only [List.map_cons, List.mem_cons, not_or] at hb
    simpa [registerFileDescriptor, hb.1] using h.freed b hb.2

/-- What destroying any live entry does while the back pointers are all the
list head: the entry's successor becomes the head of the list. -/
theorem Stacked.destroy_eq (h : Stacked r live) {a : Address} (ha : a ∈ live.map (·.1)) :
    ∃ e, r.entries a = some e ∧ (a, e.fileDescriptor) ∈ live ∧
      destroyFileInformation a r = some
        { head := e.next
          entries := Function.update r.entries a none
          closed := r.closed ++ [e.fileDescriptor] } := by
  obtain ⟨⟨b, fd⟩, hm, rfl⟩ := List.mem_map.mp ha
  obtain ⟨e, he, rfl, hp⟩ := h.entry b fd hm
  exact ⟨e, he, hm, by simp [destroyFileInformation, he, hp, Registry.store]⟩

theorem filter_top {a : Address} {fd : Int} (hn : (((a, fd) :: live).map (·.1)).Nodup) :
    ((a, fd) :: live).filter (·.1 ≠ a) = live := by
  have ha : a ∉ live.map (·.1) := (List.nodup_cons.mp hn).1
  simp only [ne_eq, decide_not, List.filter_cons, decide_true, Bool.not_true, Bool.false_eq_true,
    ↓reduceIte, List.filter_eq_self]
  intro b hb
  have hne : b.1 ≠ a := fun he => ha (he ▸ List.mem_map_of_mem hb)
  simp [hne]

theorem Stacked.destroy_top {a : Address} {fd : Int} (h : Stacked r ((a, fd) :: live)) :
    ∃ r', destroyFileInformation a r = some r' ∧ Stacked r' live ∧ r'.closed = r.closed ++ [fd] := by
  obtain ⟨e, he, hm, hd⟩ := h.destroy_eq (a := a) (by simp)
  obtain ⟨hna, hnl⟩ := List.nodup_cons.mp h.nodup
  have hfd : e.fileDescriptor = fd := by
    obtain ⟨e', he', hfd', -⟩ := h.entry a fd (by simp)
    cases he.symm.trans he'
    exact hfd'
  refine ⟨_, hd, ⟨?_, hnl, ?_, ?_⟩, by rw [hfd]⟩
  · obtain ⟨-, rest, hn, ht⟩ := chain_cons h.chain
    obtain rfl : e.next = rest := by simpa [Registry.nextOf, he] using hn
    refine ht.congr fun b hb => ?_
    have hne : b ≠ a := fun heq => hna (heq ▸ hb)
    simp [Registry.nextOf, hne]
  · intro b fb hb
    have hbl : b ∈ live.map (·.1) := List.mem_map_of_mem (f := (·.1)) hb
    have hne : b ≠ a := fun heq => hna (heq ▸ hbl)
    simpa [hne] using h.entry b fb (by simp [hb])
  · intro b hb
    by_cases hba : b = a
    · simp [hba]
    · have hb' : b ∉ ((a, fd) :: live).map (·.1) := by simpa [hba] using hb
      simpa [hba] using h.freed b hb'

theorem Stacked.closesEverything (h : Stacked r live) {fds : List Int}
    (hc : (r.closed ++ live.map (·.2)).Perm fds) : ClosesEverything r fds := by
  induction live generalizing r with
  | nil =>
    have hh : r.head = none := chain_nil h.chain
    exact ⟨r, .leave (by simp [closeStep, hh]), by simpa using hc⟩
  | cons top live ih =>
    obtain ⟨a, fd⟩ := top
    have hh : r.head = some a := (chain_cons h.chain).1
    obtain ⟨r', hd, hs, hcl⟩ := h.destroy_top
    obtain ⟨r'', he, hp⟩ := ih hs (by simpa [hcl] using hc)
    exact ⟨r'', .again (by simp [closeStep, hh, hd]) he, hp⟩

theorem Stacked.listsExactly (h : Stacked r live) : ListsExactly r live :=
  ⟨_, h.chain, h.nodup, fun _ => Iff.rfl⟩

theorem Stacked.noLinkDangles (h : Stacked r live) : NoLinkDangles r live := by
  intro link a hl
  cases link with
  | head =>
    have hh : r.head = some a := Option.some.inj hl
    exact (hh ▸ h.chain).head_mem
  | next b =>
    refine h.chain.next_mem ?_ hl
    by_contra hb
    simp [Registry.load, Registry.nextOf, h.freed b hb] at hl

theorem Stacked.not_backPointersExact {top under : Address × Int}
    (h : Stacked r (top :: under :: live)) : ¬ BackPointersExact r := by
  intro hb
  obtain ⟨e, he, -, hp⟩ := h.entry under.1 under.2 (by simp)
  have hl := hb under.1 e he
  have hh : r.head = some top.1 := (chain_cons h.chain).1
  have heq : top.1 = under.1 := by simpa [hp, Registry.load, hh] using hl
  have hnd := (List.nodup_cons.mp h.nodup).1
  simp [heq] at hnd

theorem Stacked.backPointersExact (h : Stacked r live) (hl : live.length ≤ 1) :
    BackPointersExact r := by
  intro a e he
  have ha : a ∈ live.map (·.1) := by
    by_contra ha
    simp [h.freed a ha] at he
  cases live with
  | nil => cases ha
  | cons top live =>
    obtain rfl : live = [] := List.length_eq_zero_iff.mp (by simpa using hl)
    obtain rfl : a = top.1 := by simpa using ha
    obtain ⟨e', he', -, hp⟩ := h.entry top.1 top.2 (by simp)
    obtain rfl := Option.some.inj (he.symm.trans he')
    rw [hp]
    exact congrArg some (chain_cons h.chain).1

/-- Destroying an entry below the top loses the entries above it. -/
theorem Stacked.destroy_under (h : Stacked r live) {a : Address} (ha : a ∈ live.map (·.1))
    (htop : (live.map (·.1)).head? ≠ some a) {r' : Registry C}
    (hd : destroyFileInformation a r = some r') : ¬ ListsExactly r' (live.filter (·.1 ≠ a)) := by
  rintro ⟨l, hl, -, hmem⟩
  obtain ⟨e, he, -, hd'⟩ := h.destroy_eq ha
  obtain rfl := Option.some.inj (hd.symm.trans hd')
  obtain ⟨above, below, hsplit⟩ := List.append_of_mem ha
  have hnd := h.nodup
  rw [hsplit] at hnd htop
  cases above with
  | nil => simp at htop
  | cons b above =>
    have hbelow : Chain r.nextOf e.next below := by
      obtain ⟨rest, hn, hc⟩ := (hsplit ▸ h.chain : Chain _ _ ((b :: above) ++ a :: below)).split
      obtain rfl : e.next = rest := by simpa [Registry.nextOf, he] using hn
      exact hc
    simp only [List.cons_append, List.nodup_cons, List.mem_append, List.mem_cons, not_or,
      List.nodup_append] at hnd
    have hb : b ∈ l := by
      have hbl : b ∈ live.map (·.1) := by simp [hsplit]
      refine (hmem b).mpr ?_
      obtain ⟨p, hp, rfl⟩ := List.mem_map.mp hbl
      exact List.mem_map_of_mem (List.mem_filter.mpr ⟨hp, by simpa using hnd.1.2.1⟩)
    have hkeep : Chain (Registry.nextOf ⟨e.next, Function.update r.entries a none,
        r.closed ++ [e.fileDescriptor]⟩) e.next below := by
      refine hbelow.congr fun c hc => ?_
      have hne : c ≠ a := fun heq => hnd.2.2.1.1 (heq ▸ hc)
      simp [Registry.nextOf, hne]
    exact hnd.1.2.2 (hl.unique hkeep ▸ hb)

theorem OneAtATime.lastInFirstOut {calls : List Call} (hone : OneAtATime live calls)
    (hlegal : Legal live calls) (hl : live.length ≤ 1) : LastInFirstOut live calls := by
  induction calls generalizing live with
  | nil => trivial
  | cons c calls ih =>
    cases c with
    | register a fd type =>
      obtain ⟨rfl, hone⟩ := hone
      exact ih hone hlegal.2 (by simp)
    | destroy a =>
      refine ⟨?_, ih hone hlegal.2 (Nat.le_trans (List.length_filter_le _ _) hl)⟩
      have ha := hlegal.1
      cases live with
      | nil => cases ha
      | cons top live =>
        obtain rfl : live = [] := List.length_eq_zero_iff.mp (by simpa using hl)
        simpa [eq_comm] using ha

theorem OneAtATime.registered_length {calls done : List Call} (hone : OneAtATime live calls)
    (hd : done <+: calls) (hl : live.length ≤ 1) : (registered live done).length ≤ 1 := by
  induction calls generalizing live done with
  | nil => simpa [List.prefix_nil.mp hd, registered] using hl
  | cons c calls ih =>
    obtain rfl | ⟨done, rfl, hd'⟩ := List.prefix_cons_iff.mp hd
    · exact hl
    · cases c with
      | register a fd type =>
        obtain ⟨rfl, hone'⟩ := hone
        exact @ih [(a, fd)] done hone' hd' (by simp)
      | destroy a =>
        exact @ih (live.filter (·.1 ≠ a)) done hone hd' (Nat.le_trans (List.length_filter_le _ _) hl)

/-- In a last-in-first-out run every state reached is a stack, and the
descriptors closed so far and the live ones are those registered. -/
theorem run_stacked {calls done : List Call} {fds : List Int} (h : Stacked r live)
    (hc : (r.closed ++ live.map (·.2)).Perm fds) (hlegal : Legal live calls)
    (hlifo : LastInFirstOut live calls) (hd : done <+: calls) :
    ∃ r', run init done r = some r' ∧ Stacked r' (registered live done) ∧
      (r'.closed ++ (registered live done).map (·.2)).Perm (fds ++ descriptors done) := by
  induction calls generalizing r live fds done with
  | nil =>
    obtain rfl := List.prefix_nil.mp hd
    exact ⟨r, rfl, h, by simpa [descriptors, registered] using hc⟩
  | cons c calls ih =>
    obtain rfl | ⟨done, rfl, hd'⟩ := List.prefix_cons_iff.mp hd
    · exact ⟨r, rfl, h, by simpa [descriptors, registered] using hc⟩
    · cases c with
      | register a fd type =>
        have hc' : (r.closed ++ ((a, fd) :: live).map (·.2)).Perm (fds ++ [fd]) :=
          List.perm_middle.trans ((hc.cons fd).trans (List.perm_append_singleton fd fds).symm)
        obtain ⟨r', hr, hs, hp⟩ := ih (h.register fd type hlegal.1) hc' hlegal.2 hlifo hd'
        exact ⟨r', hr, hs, by simpa [descriptors, registered] using hp⟩
      | destroy a =>
        cases live with
        | nil => simp [LastInFirstOut] at hlifo
        | cons top live =>
          obtain ⟨b, fd⟩ := top
          obtain rfl : b = a := by simpa using hlifo.1
          obtain ⟨r₁, hr₁, hs₁, hc₁⟩ := h.destroy_top
          have hf := filter_top h.nodup
          obtain ⟨r', hr, hs, hp⟩ := ih hs₁ (by simpa [hc₁] using hc)
            (hf ▸ hlegal.2) (hf ▸ hlifo.2) hd'
          refine ⟨r', by simp [run, apply, hr₁, hr], ?_, ?_⟩
          · simpa only [registered, hf] using hs
          · simpa only [registered, descriptors, hf] using hp

theorem lastInFirstOut_of_listsExactly {calls : List Call} (h : Stacked r live)
    (hlegal : Legal live calls)
    (hall : ∀ done, done <+: calls → ∃ r', run init done r = some r' ∧
      ListsExactly r' (registered live done)) : LastInFirstOut live calls := by
  induction calls generalizing r live with
  | nil => trivial
  | cons c calls ih =>
    have hcons : ∀ done, done <+: calls → (c :: done) <+: c :: calls :=
      fun done hd => (List.prefix_cons_inj c).mpr hd
    cases c with
    | register a fd type =>
      exact ih (h.register fd type hlegal.1) hlegal.2 fun done hd => hall _ (hcons done hd)
    | destroy a =>
      have htop : (live.map (·.1)).head? = some a := by
        by_contra htop
        obtain ⟨r', hr, hl⟩ := hall _ (hcons [] List.nil_prefix)
        exact h.destroy_under hlegal.1 htop (by simpa [run, apply] using hr) hl
      refine ⟨htop, ?_⟩
      cases live with
      | nil => simp at htop
      | cons top live =>
        obtain ⟨b, fd⟩ := top
        obtain rfl : b = a := by simpa using htop
        obtain ⟨r₁, hr₁, hs₁, -⟩ := h.destroy_top
        have hf := filter_top h.nodup
        have hlegal₁ := hlegal.2
        rw [hf] at hlegal₁ ⊢
        refine ih hs₁ hlegal₁ fun done hd => ?_
        simpa only [run, apply, hr₁, registered, hf, Option.bind_some] using hall _ (hcons done hd)

theorem oneAtATime_of_backPointersExact {calls : List Call} (h : Stacked r live)
    (hlegal : Legal live calls) (hlifo : LastInFirstOut live calls)
    (hall : ∀ done, done <+: calls → ∀ r', run init done r = some r' → BackPointersExact r') :
    OneAtATime live calls := by
  induction calls generalizing r live with
  | nil => trivial
  | cons c calls ih =>
    have hcons : ∀ done, done <+: calls → (c :: done) <+: c :: calls :=
      fun done hd => (List.prefix_cons_inj c).mpr hd
    cases c with
    | register a fd type =>
      have hs : Stacked (registerFileDescriptor init a fd type r) ((a, fd) :: live) :=
        h.register fd type hlegal.1
      refine ⟨?_, ih hs hlegal.2 hlifo fun done hd => hall _ (hcons done hd)⟩
      cases live with
      | nil => rfl
      | cons under live =>
        exact absurd (hall _ (hcons [] List.nil_prefix) _ rfl) hs.not_backPointersExact
    | destroy a =>
      cases live with
      | nil => simp [LastInFirstOut] at hlifo
      | cons top live =>
        obtain ⟨b, fd⟩ := top
        obtain rfl : b = a := by simpa using hlifo.1
        obtain ⟨r₁, hr₁, hs₁, -⟩ := h.destroy_top
        have hf := filter_top h.nodup
        have hone : OneAtATime live calls :=
          ih hs₁ (hf ▸ hlegal.2) (hf ▸ hlifo.2) fun done hd r' hr' =>
            hall _ (hcons done hd) r' (by simpa only [run, apply, hr₁, Option.bind_some])
        simpa only [OneAtATime, hf] using hone

/-- With the back pointers the registry promises, the list is exact as long as
at most one entry is ever live; without them, as long as the entries are
destroyed in the reverse order of their registration. -/
theorem registry_exact_iff (init : Int → FileDescriptorType → C) (calls : List Call)
    (hlegal : Legal [] calls) :
    ((∀ done, done <+: calls → ∃ r, run init done initial = some r ∧
        ListsExactly r (registered [] done) ∧ BackPointersExact r ∧
        NoLinkDangles r (registered [] done) ∧ ClosesEverything r (descriptors done)) ↔
      OneAtATime [] calls) ∧
    ((∀ done, done <+: calls → ∃ r, run init done initial = some r ∧
        ListsExactly r (registered [] done) ∧
        NoLinkDangles r (registered [] done) ∧ ClosesEverything r (descriptors done)) ↔
      LastInFirstOut [] calls) := by
  have reach (hlifo : LastInFirstOut [] calls) (done : List Call) (hd : done <+: calls) :
      ∃ r, run init done initial = some r ∧ Stacked r (registered [] done) ∧
        ClosesEverything r (descriptors done) := by
    have hnone : ((initial (C := C)).closed ++ ([] : List (Address × Int)).map (·.2)).Perm [] := by
      simp [initial]
    obtain ⟨r, hr, hs, hp⟩ := run_stacked stacked_initial hnone hlegal hlifo hd
    exact ⟨r, hr, hs, hs.closesEverything hp⟩
  refine ⟨⟨fun hall => ?_, fun hone done hd => ?_⟩, ⟨fun hall => ?_, fun hlifo done hd => ?_⟩⟩
  · have hlifo : LastInFirstOut [] calls :=
      lastInFirstOut_of_listsExactly stacked_initial hlegal fun done hd => by
        obtain ⟨r, hr, hl, -⟩ := hall done hd
        exact ⟨r, hr, hl⟩
    refine oneAtATime_of_backPointersExact stacked_initial hlegal hlifo
      fun done hd r (hr : run init done initial = some r) => ?_
    obtain ⟨r', hr', -, hb, -⟩ := hall done hd
    obtain rfl := Option.some.inj (hr.symm.trans hr')
    exact hb
  · obtain ⟨r, hr, hs, hc⟩ := reach (hone.lastInFirstOut hlegal (by simp)) done hd
    exact ⟨r, hr, hs.listsExactly, hs.backPointersExact (hone.registered_length hd (by simp)),
      hs.noLinkDangles, hc⟩
  · exact lastInFirstOut_of_listsExactly stacked_initial hlegal fun done hd => by
      obtain ⟨r, hr, hl, -⟩ := hall done hd
      exact ⟨r, hr, hl⟩
  · obtain ⟨r, hr, hs, hc⟩ := reach hlifo done hd
    exact ⟨r, hr, hs.listsExactly, hs.noLinkDangles, hc⟩

theorem registry_exact_listener :
    ((∀ done, done <+: [Call.register 1 5 .listenSocket, .destroy 1, .register 1 6 .tcpSocket] →
        ∃ r, run (fun _ _ => ()) done initial = some r ∧
        ListsExactly r (registered [] done) ∧ BackPointersExact r ∧
        NoLinkDangles r (registered [] done) ∧ ClosesEverything r (descriptors done)) ↔
      OneAtATime [] [Call.register 1 5 .listenSocket, .destroy 1, .register 1 6 .tcpSocket]) :=
  (registry_exact_iff (fun _ _ => ()) _ (by simp [Legal])).1

/-- Two entries are registered and the older one is destroyed: the list is
empty while the younger entry is live, and its descriptor stays open. -/
theorem older_entry_destroyed :
    Legal [] [.register 1 5 .listenSocket, .register 2 6 .tcpSocket, .destroy 1] ∧
    ∃ r, run (fun _ _ => ()) [.register 1 5 .listenSocket, .register 2 6 .tcpSocket, .destroy 1]
        initial = some r ∧
      ¬ ListsExactly r
        (registered [] [.register 1 5 .listenSocket, .register 2 6 .tcpSocket, .destroy 1]) ∧
      ¬ ClosesEverything r
        (descriptors [.register 1 5 .listenSocket, .register 2 6 .tcpSocket, .destroy 1]) := by
  refine ⟨by simp [Legal], _, rfl, ?_, ?_⟩
  · rintro ⟨l, hl, -, hm⟩
    obtain rfl := hl.unique .null
    exact absurd ((hm 2).mpr (by simp [registered])) (by simp)
  · rintro ⟨r', hr', hp⟩
    obtain rfl := Option.some.inj (hr'.unique (.leave rfl))
    exact absurd hp.length_eq (by decide)

end Hss.DescriptorList
