import Hss.Http.Headers
import Hss.Lib.Heap
import Hss.Lib.Loop

namespace Hss.HeaderHeap

open Hss.CString Hss.Headers Hss.Heap Hss.Loop

/-- A block of the heap: bytes, with a NUL behind them where they are a string, or a
`struct header`. Safety is by the block: a string is read as a whole, and where bytes are
counted they are checked against those of the block. -/
inductive Block
  | text (contents : List UInt8)
  | header (key value next : Option Address)
  deriving DecidableEq, Repr

abbrev Cell := Address × Block

/-- What a `struct header **` points to: the field of `struct headers`, or the `next`
field of a header. -/
inductive Link
  | headerList
  | next (header : Address)
  deriving DecidableEq, Repr

structure Memory where
  headerList : Option Address
  heap : Blocks Block

def textAt (heap : Blocks Block) (p : Option Address) : Option (List UInt8) :=
  p.bind fun a =>
    match heap.lookup a with
    | some (.text contents) => some contents
    | _ => none

def keyAt (heap : Blocks Block) (a : Address) : Option (List UInt8) :=
  match heap.lookup a with
  | some (.header key _ _) => textAt heap key
  | _ => none

def valueAt (heap : Blocks Block) (a : Address) : Option (List UInt8) :=
  match heap.lookup a with
  | some (.header _ value _) => textAt heap value
  | _ => none

def Memory.load (m : Memory) : Link → Option (Option Address)
  | .headerList => some m.headerList
  | .next a =>
    match m.heap.lookup a with
    | some (.header _ _ next) => some next
    | _ => none

/-- `*link = target` -/
def Memory.store (m : Memory) (target : Option Address) : Link → Option Memory
  | .headerList => some { m with headerList := target }
  | .next a =>
    match m.heap.lookup a with
    | some (.header key value _) =>
      (Heap.store a (.header key value target) m.heap).map fun heap => { m with heap }
    | _ => none

def lookupStep (m : Memory) (name : List UInt8) (prev : Link) :
    Link ⊕ Option (Option Address × Link) :=
  match m.load prev with
  | none => .inr none
  | some none => .inr (some (none, prev))
  | some (some target) =>
    match keyAt m.heap target with
    | none => .inr none
    | some key =>
      if strcmp key name = .lt then .inl (.next target)
      else .inr (some (if strcmp key name = .eq then some target else none, prev))

def rounds (heap : Blocks Block) : Nat := heap.keys.card + 1

/-- `none` is an access outside the allocated blocks, or a list that never ends. -/
def lookupHeader (m : Memory) (name : List UInt8) : Option (Option Address × Link) :=
  (iterate (lookupStep m name) (rounds m.heap) .headerList).join

def insertHeader (m : Memory) (header : Address) : Option (HttpErrorCode × Memory) := do
  let key ← keyAt m.heap header
  let (target, prev) ← lookupHeader m key
  match target with
  | some _ => some (.duplicateHeaderKey, m)
  | none =>
    let m ← m.store (← m.load prev) (.next header)
    let m ← m.store (some header) prev
    some (.succeed, m)

def destroyHeader (heap : Blocks Block) (header : Address) : Option (Blocks Block) :=
  match heap.lookup header with
  | some (.header key value next) => do
    let heap ← free key heap
    let heap ← free value heap
    Heap.store header (.header none none next) heap
  | _ => none

def destroyStep (s : Option Address × Blocks Block) :
    (Option Address × Blocks Block) ⊕ Option (Blocks Block) :=
  match s.1 with
  | none => .inr (some s.2)
  | some target =>
    match destroyHeader s.2 target with
    | none => .inr none
    | some heap =>
      match heap.lookup target, free (some target) heap with
      | some (.header _ _ next), some heap => .inl (next, heap)
      | _, _ => .inr none

def destroyHeaders (m : Memory) : Option Memory := do
  let heap ← (iterate destroyStep (rounds m.heap) (m.headerList, m.heap)).join
  some ⟨none, heap⟩

/-- The fields of a block that has just been allocated stand as null until they are
written. -/
def newHeader (alloc : Allocator Block) (header : Header) (heap : Blocks Block) :
    Option (Address × Blocks Block) := do
  let (target, heap) := malloc alloc (.header none none none) heap
  let (key, heap) := malloc alloc (.text header.key) heap
  let heap ← Heap.store target (.header (some key) none none) heap
  let (value, heap) := malloc alloc (.text header.value) heap
  let heap ← Heap.store target (.header (some key) (some value) none) heap
  some (target, heap)

def findStep (heap : Blocks Block) (name : List UInt8) (header : Option Address) :
    Option Address ⊕ Option (Option Address) :=
  match header with
  | none => .inr (some none)
  | some a =>
    match heap.lookup a with
    | some (.header key _ next) =>
      match textAt heap key with
      | none => .inr none
      | some key =>
        if strcmp key name = .lt then .inl next
        else .inr (some (if strcmp key name = .eq then some a else none))
    | _ => .inr none

def findHeader (m : Memory) (name : List UInt8) : Option (Option Address) :=
  (iterate (findStep m.heap name) (rounds m.heap) m.headerList).join

def foldStep {α : Type} (heap : Blocks Block) (f : α → Header → α) (s : Option Address × α) :
    (Option Address × α) ⊕ Option α :=
  match s.1 with
  | none => .inr (some s.2)
  | some target =>
    match heap.lookup target with
    | some (.header key value next) =>
      match textAt heap key, textAt heap value with
      | some key, some value => .inl (next, f s.2 ⟨key, value⟩)
      | _, _ => .inr none
    | _ => .inr none

def foldHeaders {α : Type} (m : Memory) (f : α → Header → α) (start : α) : Option α :=
  (iterate (foldStep m.heap f) (rounds m.heap) (m.headerList, start)).join

/-- A stretch of the list, from one link to another, with what the two hold and the
blocks in between. -/
inductive Segment : Link → Option Address → List Header → List Cell → Link → Option Address → Prop
  | nil (link : Link) (p : Option Address) : Segment link p [] [] link p
  | node {link : Link} {a key value : Address} {next : Option Address} {header : Header}
      {headers : List Header} {cells : List Cell} {link' : Link} {q : Option Address} :
      Segment (.next a) next headers cells link' q →
      Segment link (some a) (header :: headers)
        ((a, .header (some key) (some value) next) :: (key, .text header.key) ::
          (value, .text header.value) :: cells) link' q

def Linked (p : Option Address) (headers : List Header) (cells : List Cell) : Prop :=
  ∃ link, Segment .headerList p headers cells link none

/-- A pointer to a block of bytes of its own, or to nothing. -/
inductive Owned : Option Address → Option (List UInt8) → List Cell → Prop
  | null : Owned none none []
  | block (a : Address) (contents : List UInt8) :
      Owned (some a) (some contents) [(a, .text contents)]

variable {m m' : Memory} {link link' link'' : Link} {p q r : Option Address}
  {headers headers' : List Header} {cells cells' rest : List Cell} {name : List UInt8}

theorem Segment.congr {other : Link} (h : Segment link p headers cells link' q)
    (hne : headers ≠ []) : Segment other p headers cells link' q := by
  cases h with
  | nil => exact absurd rfl hne
  | node h => exact .node h

theorem Segment.append (h : Segment link p headers cells link' q)
    (h' : Segment link' q headers' cells' link'' r) :
    Segment link p (headers ++ headers') (cells ++ cells') link'' r := by
  induction h with
  | nil => exact h'
  | node _ ih => exact .node (ih h')

theorem Segment.split (h : Segment link p (headers ++ headers') cells link'' r) :
    ∃ cells₁ cells₂ link' q, cells = cells₁ ++ cells₂ ∧
      Segment link p headers cells₁ link' q ∧ Segment link' q headers' cells₂ link'' r := by
  induction headers generalizing link p cells with
  | nil => exact ⟨[], cells, link, p, rfl, .nil link p, h⟩
  | cons header headers ih =>
    cases h with
    | node h =>
      obtain ⟨cells₁, cells₂, link', q, rfl, h₁, h₂⟩ := ih h
      exact ⟨_, cells₂, link', q, rfl, .node h₁, h₂⟩

/-- The last link of a stretch is the one it starts with, or the `next` field of one of
its blocks, which can be set to something else. -/
theorem Segment.last (h : Segment link p headers cells link' q) :
    (link' = link ∧ q = p ∧ headers = [] ∧ cells = []) ∨
      ∃ a key value cells₁ cells₂, link' = .next a ∧
        cells = cells₁ ++ (a, .header key value q) :: cells₂ ∧
        ∀ q', Segment link p headers (cells₁ ++ (a, .header key value q') :: cells₂) link' q' := by
  induction h with
  | nil link p => exact .inl ⟨rfl, rfl, rfl, rfl⟩
  | @node link a key value next header headers cells link' q h ih =>
    right
    obtain ⟨rfl, rfl, rfl, rfl⟩ | ⟨b, key', value', cells₁, cells₂, rfl, rfl, hset⟩ := ih
    · exact ⟨a, some key, some value, [], _, rfl, rfl, fun q' => .node (.nil _ q')⟩
    · refine ⟨b, key', value', (a, .header (some key) (some value) next) ::
        (key, .text header.key) :: (value, .text header.value) :: cells₁, cells₂, rfl, rfl, ?_⟩
      exact fun q' => .node (hset q')

theorem Segment.relink (h : Segment link p headers cells link' q) (other : Link) :
    ∃ link'', Segment other p headers cells link'' q := by
  cases h with
  | nil => exact ⟨other, .nil other p⟩
  | node h => exact ⟨link', .node h⟩

theorem Segment.length (h : Segment link p headers cells link' q) :
    cells.length = 3 * headers.length := by
  induction h with
  | nil => rfl
  | node _ ih =>
    simp only [List.length_cons]
    omega

def Reads (heap : Blocks Block) (cells : List Cell) : Prop :=
  ∀ a b, (a, b) ∈ cells → heap.lookup a = some b

theorem reads_of_holds {heap : Blocks Block} (h : Holds heap (cells ++ rest)) : Reads heap cells :=
  fun _ _ hmem => h.load (List.mem_append_left rest hmem)

theorem Reads.behind {heap : Blocks Block} {a key value : Address} {b b' b'' : Block}
    (h : Reads heap ((a, b) :: (key, b') :: (value, b'') :: cells)) : Reads heap cells :=
  fun c d hmem => h c d (List.mem_cons_of_mem _ (List.mem_cons_of_mem _ (List.mem_cons_of_mem _ hmem)))

theorem textAt_text {heap : Blocks Block} {a : Address} {contents : List UInt8}
    (h : heap.lookup a = some (.text contents)) : textAt heap (some a) = some contents := by
  simp only [textAt, Option.bind_some, h]

theorem keyAt_header {heap : Blocks Block} {a key : Address} {value next : Option Address}
    {contents : List UInt8} (h : heap.lookup a = some (.header (some key) value next))
    (hkey : heap.lookup key = some (.text contents)) : keyAt heap a = some contents := by
  simp only [keyAt, h, textAt_text hkey]

theorem load_next {a : Address} {key value next : Option Address}
    (h : m.heap.lookup a = some (.header key value next)) : m.load (.next a) = some next := by
  simp only [Memory.load, h]

theorem lookupHeader_cons_lt {header : Header} (hlt : strcmp header.key name = .lt) :
    Headers.lookupHeader (header :: headers) name =
      { Headers.lookupHeader headers name with
        passed := header :: (Headers.lookupHeader headers name).passed } := by
  simp only [Headers.lookupHeader, List.takeWhile_cons, List.dropWhile_cons, hlt, decide_true,
    if_true]

theorem lookupHeader_cons_not_lt {header : Header} (hlt : strcmp header.key name ≠ .lt) :
    Headers.lookupHeader (header :: headers) name =
      ⟨if strcmp header.key name = .eq then some header else none, [], header :: headers⟩ := by
  simp only [Headers.lookupHeader, List.takeWhile_cons, List.dropWhile_cons, hlt, decide_false,
    Bool.false_eq_true, if_false, List.head?_cons, Option.filter_some, decide_eq_true_eq]

theorem lookup_segment {final : Link} (h : Segment link p headers cells final none)
    (hread : Reads m.heap cells) (hload : m.load link = some p) (name : List UInt8) :
    ∃ link' q cells₁ cells₂, cells = cells₁ ++ cells₂ ∧ m.load link' = some q ∧
      Segment link p (Headers.lookupHeader headers name).passed cells₁ link' q ∧
      Segment link' q (Headers.lookupHeader headers name).rest cells₂ final none ∧
      iterate (lookupStep m name) (headers.length + 1) link =
        some (some ((Headers.lookupHeader headers name).target.bind fun _ => q, link')) := by
  induction headers generalizing link p cells with
  | nil =>
    cases h with
    | nil =>
      refine ⟨_, none, [], [], rfl, hload, .nil _ none, .nil _ none, iterate_inr ?_⟩
      simp only [lookupStep, hload]
      rfl
  | cons header headers ih =>
    have hfull := h
    cases h with
    | @node _ a key value next _ _ cells _ _ h =>
      have hnode := hread a _ List.mem_cons_self
      have hkey := hread key _ (List.mem_cons_of_mem _ List.mem_cons_self)
      have hstep : lookupStep m name link =
          if strcmp header.key name = .lt then .inl (.next a)
          else .inr (some (if strcmp header.key name = .eq then some a else none, link)) := by
        simp only [lookupStep, hload, keyAt_header hnode hkey]
      by_cases hlt : strcmp header.key name = .lt
      · obtain ⟨link', q, cells₁, cells₂, rfl, hload', hpassed, hrest, hends⟩ :=
          ih h hread.behind (load_next hnode)
        rw [if_pos hlt] at hstep
        rw [lookupHeader_cons_lt hlt, List.length_cons, iterate_inl hstep]
        exact ⟨link', q, (a, .header (some key) (some value) next) :: (key, .text header.key) ::
          (value, .text header.value) :: cells₁, cells₂, rfl, hload', .node hpassed, hrest, hends⟩
      · rw [if_neg hlt] at hstep
        rw [lookupHeader_cons_not_lt hlt, iterate_inr hstep]
        refine ⟨link, some a, [], _, rfl, hload, .nil link (some a), hfull, ?_⟩
        by_cases heq : strcmp header.key name = .eq
        · simp only [heq, if_true, Option.bind_some]
        · simp only [heq, if_false, Option.bind_none]

theorem store_link {link : Link} (h : Segment .headerList m.headerList headers cells link q)
    (hholds : Holds m.heap (cells ++ rest)) (q' : Option Address) :
    ∃ m' cells', m.store q' link = some m' ∧
      Segment .headerList m'.headerList headers cells' link q' ∧
      Holds m'.heap (cells' ++ rest) := by
  obtain ⟨rfl, rfl, rfl, rfl⟩ | ⟨a, key, value, cells₁, cells₂, rfl, rfl, hset⟩ := h.last
  · exact ⟨{ m with headerList := q' }, [], rfl, .nil .headerList q', hholds⟩
  · have hfront : ∀ b, ((cells₁ ++ (a, b) :: cells₂) ++ rest).Perm
        ((a, b) :: (cells₁ ++ cells₂ ++ rest)) := fun b => by
      simpa only [List.append_assoc, List.cons_append] using List.perm_middle
    have hfirst := hholds.perm (hfront _)
    obtain ⟨heap, hstore, hheld⟩ := hfirst.store (.header key value q')
    refine ⟨{ m with heap }, _, ?_, hset q', hheld.perm (hfront _).symm⟩
    simp only [Memory.store, hfirst.load List.mem_cons_self, hstore, Option.map_some]

def node (a key value : Address) (next : Option Address) (header : Header) : List Cell :=
  [(a, .header (some key) (some value) next), (key, .text header.key), (value, .text header.value)]

theorem Segment.le_rounds {heap : Blocks Block} (h : Segment link p headers cells link' q)
    (hholds : Holds heap (cells ++ rest)) : headers.length + 1 ≤ rounds heap := by
  rw [rounds, hholds.card, List.length_append, h.length]
  omega

theorem lookupHeader_spec (h : Linked m.headerList headers cells)
    (hholds : Holds m.heap (cells ++ rest)) (name : List UInt8) :
    ∃ link q cells₁ cells₂, cells = cells₁ ++ cells₂ ∧ m.load link = some q ∧
      Segment .headerList m.headerList (Headers.lookupHeader headers name).passed cells₁ link q ∧
      Linked q (Headers.lookupHeader headers name).rest cells₂ ∧
      lookupHeader m name =
        some ((Headers.lookupHeader headers name).target.bind fun _ => q, link) := by
  obtain ⟨final, h⟩ := h
  obtain ⟨link, q, cells₁, cells₂, rfl, hload, hpassed, hrest, hends⟩ :=
    lookup_segment h (reads_of_holds hholds) rfl name
  refine ⟨link, q, cells₁, cells₂, rfl, hload, hpassed, hrest.relink .headerList, ?_⟩
  rw [lookupHeader, iterate_mono hends (h.le_rounds hholds), Option.join_some]

theorem node_front (a key value : Address) (next : Option Address) (header : Header) :
    (cells ++ (node a key value next header ++ rest)).Perm
      ((a, .header (some key) (some value) next) ::
        (cells ++ ((key, .text header.key) :: (value, .text header.value) :: rest))) :=
  List.perm_middle

theorem store_next {a : Address} {key value next : Option Address}
    (hholds : Holds m.heap ((a, .header key value next) :: rest)) (q : Option Address) :
    ∃ heap, m.store q (.next a) = some { m with heap } ∧
      Holds heap ((a, .header key value q) :: rest) := by
  obtain ⟨heap, hstore, hheld⟩ := hholds.store (.header key value q)
  refine ⟨heap, ?_, hheld⟩
  simp only [Memory.store, hholds.load List.mem_cons_self, hstore, Option.map_some]

theorem Segment.load (h : Segment .headerList m.headerList headers cells link q)
    (hread : Reads m.heap cells) : m.load link = some q := by
  obtain ⟨rfl, rfl, rfl, rfl⟩ | ⟨a, key, value, cells₁, cells₂, rfl, rfl, -⟩ := h.last
  · rfl
  · exact load_next (hread a _ (List.mem_append_right _ List.mem_cons_self))

theorem link_in {passed behind : List Header} {cells₁ cells₂ : List Cell} {a key value : Address}
    {next : Option Address} {header : Header}
    (hpassed : Segment .headerList m.headerList passed cells₁ link q)
    (hbehind : Linked q behind cells₂)
    (hholds : Holds m.heap (cells₁ ++ cells₂ ++ (node a key value next header ++ rest))) :
    ∃ m₁ m' cells', m.store q (.next a) = some m₁ ∧ m₁.store (some a) link = some m' ∧
      Linked m'.headerList (passed ++ header :: behind) cells' ∧
      Holds m'.heap (cells' ++ rest) := by
  obtain ⟨heap, hnext, hheld⟩ := store_next (hholds.perm (node_front a key value next header)) q
  have hfirst : Holds heap (cells₁ ++ (cells₂ ++ (node a key value q header ++ rest))) := by
    rw [← List.append_assoc]
    exact hheld.perm (node_front a key value q header).symm
  obtain ⟨m', cells', hstore, hseg, hholds'⟩ :=
    store_link (m := { m with heap }) hpassed hfirst (some a)
  obtain ⟨final, hbehind⟩ := hbehind
  obtain ⟨final, hbehind⟩ := hbehind.relink (.next a)
  refine ⟨_, m', cells' ++ (node a key value q header ++ cells₂), hnext, hstore,
    ⟨final, hseg.append (.node hbehind)⟩, hholds'.perm ?_⟩
  rw [List.append_assoc, List.append_assoc]
  refine List.Perm.append_left cells' ?_
  rw [← List.append_assoc, ← List.append_assoc]
  exact List.perm_append_comm.append_right rest

theorem Linked.of_cons {header : Header} (h : Linked q (header :: headers) cells) :
    ∃ a, q = some a := by
  obtain ⟨link, h⟩ := h
  cases h with
  | node => exact ⟨_, rfl⟩

theorem insertHeader_of_target {header e : Header}
    (h : (Headers.lookupHeader headers header.key).target = some e) :
    Headers.insertHeader headers header = (.duplicateHeaderKey, headers) := by
  simp only [Headers.insertHeader, h]

theorem insertHeader_of_not_target {header : Header}
    (h : (Headers.lookupHeader headers header.key).target = none) :
    Headers.insertHeader headers header = (.succeed,
      (Headers.lookupHeader headers header.key).passed ++ header ::
        (Headers.lookupHeader headers header.key).rest) := by
  simp only [Headers.insertHeader, h]

theorem rest_of_target {e : Header} (h : (Headers.lookupHeader headers name).target = some e) :
    ∃ tail, (Headers.lookupHeader headers name).rest = e :: tail := by
  have hhead := (Option.filter_eq_some_iff.mp h).1
  exact ⟨_, List.eq_cons_of_mem_head? hhead⟩

/-- A header whose blocks lie beside the list is taken into the list, or refused and left
beside it. -/
theorem insertHeader_spec (h : Linked m.headerList headers cells) {a key value : Address}
    {next : Option Address} {header : Header}
    (hholds : Holds m.heap (cells ++ (node a key value next header ++ rest))) :
    ∃ m', insertHeader m a = some ((Headers.insertHeader headers header).1, m') ∧
      ((Headers.insertHeader headers header).1 ≠ .succeed ∧ m' = m ∨
        (Headers.insertHeader headers header).1 = .succeed ∧ ∃ cells',
          Linked m'.headerList (Headers.insertHeader headers header).2 cells' ∧
          Holds m'.heap (cells' ++ rest)) := by
  have hfront := hholds.perm (node_front a key value next header)
  have hkey : keyAt m.heap a = some header.key := by
    refine keyAt_header (hfront.load List.mem_cons_self) (hfront.load ?_)
    exact List.mem_cons_of_mem _ (List.mem_append_right _ List.mem_cons_self)
  obtain ⟨link, q, cells₁, cells₂, rfl, hload, hpassed, hrest, hlookup⟩ :=
    lookupHeader_spec h hholds header.key
  simp only [insertHeader, hkey, hlookup, Option.bind_eq_bind, Option.bind_some]
  cases htarget : (Headers.lookupHeader headers header.key).target with
  | some e =>
    obtain ⟨tail, htail⟩ := rest_of_target htarget
    obtain ⟨b, rfl⟩ := (htail ▸ hrest).of_cons
    rw [insertHeader_of_target htarget]
    exact ⟨m, rfl, .inl ⟨HttpErrorCode.noConfusion, rfl⟩⟩
  | none =>
    rw [insertHeader_of_not_target htarget]
    obtain ⟨m₁, m', cells', hnext, hstore, hlinked, hheld⟩ := link_in hpassed hrest hholds
    refine ⟨m', ?_, .inr ⟨rfl, cells', hlinked, hheld⟩⟩
    simp only [Option.bind_none, hload, hnext, hstore, Option.bind_some]

theorem destroyStep_node {heap : Blocks Block} {a key value : Address} {next : Option Address}
    {header : Header} (h : Holds heap (node a key value next header ++ rest)) :
    ∃ heap', destroyStep (some a, heap) = .inl (next, heap') ∧ Holds heap' rest := by
  have hlookup := h.load List.mem_cons_self
  have hkey : Holds heap ((key, .text header.key) :: (a, .header (some key) (some value) next) ::
      (value, .text header.value) :: rest) := h.perm (.swap _ _ _)
  obtain ⟨heap₁, hfree₁, h₁⟩ := hkey.free
  obtain ⟨heap₂, hfree₂, h₂⟩ := (h₁.perm (.swap _ _ _)).free
  obtain ⟨heap₃, hstore, h₃⟩ := h₂.store (.header none none next)
  obtain ⟨heap₄, hfree₄, h₄⟩ := h₃.free
  refine ⟨heap₄, ?_, h₄⟩
  simp only [destroyStep, destroyHeader, hlookup, hfree₁, hfree₂, hstore, Option.bind_eq_bind,
    Option.bind_some, h₃.load List.mem_cons_self, hfree₄]

theorem destroyHeaders_spec (h : Linked m.headerList headers cells)
    (hholds : Holds m.heap (cells ++ rest)) :
    ∃ heap, destroyHeaders m = some ⟨none, heap⟩ ∧ Holds heap rest := by
  obtain ⟨final, h⟩ := h
  have hloop : ∀ {link p headers cells heap}, Segment link p headers cells final none →
      Holds heap (cells ++ rest) →
      ∃ heap', iterate destroyStep (headers.length + 1) (p, heap) = some (some heap') ∧
        Holds heap' rest := by
    intro link p headers
    induction headers generalizing link p with
    | nil =>
      intro cells heap h hholds
      cases h with
      | nil => exact ⟨heap, iterate_inr rfl, hholds⟩
    | cons header headers ih =>
      intro cells heap h hholds
      cases h with
      | @node _ a key value next _ _ cells _ _ h =>
        obtain ⟨heap₁, hstep, h₁⟩ := @destroyStep_node (cells ++ rest) _ _ _ _ _ _ hholds
        obtain ⟨heap', hends, h'⟩ := ih h h₁
        exact ⟨heap', (iterate_inl hstep).trans hends, h'⟩
  obtain ⟨heap, hends, hheld⟩ := hloop h hholds
  refine ⟨heap, ?_, hheld⟩
  simp only [destroyHeaders, iterate_mono hends (h.le_rounds hholds), Option.join_some,
    Option.bind_eq_bind, Option.bind_some]

theorem newHeader_spec {heap : Blocks Block} (h : Holds heap cells) (alloc : Allocator Block)
    (header : Header) : ∃ a key value heap', newHeader alloc header heap = some (a, heap') ∧
      Holds heap' (node a key value none header ++ cells) := by
  obtain ⟨a, heap₁, hmalloc₁, h₁⟩ := h.malloc alloc (.header none none none)
  obtain ⟨key, heap₂, hmalloc₂, h₂⟩ := h₁.malloc alloc (.text header.key)
  obtain ⟨heap₃, hstore₃, h₃⟩ := (h₂.perm (.swap _ _ _)).store (.header (some key) none none)
  obtain ⟨value, heap₄, hmalloc₄, h₄⟩ := h₃.malloc alloc (.text header.value)
  obtain ⟨heap₅, hstore₅, h₅⟩ :=
    (h₄.perm (.swap _ _ _)).store (.header (some key) (some value) none)
  refine ⟨a, key, value, heap₅, ?_, h₅.perm (.cons _ (.swap _ _ _))⟩
  simp only [newHeader, hmalloc₁, hmalloc₂, hstore₃, hmalloc₄, hstore₅, Option.bind_eq_bind,
    Option.bind_some]

theorem find_segment {heap : Blocks Block} {final : Link} (h : Segment link p headers cells final none)
    (hread : Reads heap cells) (name : List UInt8) :
    ∃ found, iterate (findStep heap name) (headers.length + 1) p = some (some found) ∧
      Option.Rel (fun e a => valueAt heap a = some e.value)
        (Headers.lookupHeader headers name).target found := by
  induction headers generalizing link p cells with
  | nil =>
    cases h with
    | nil => exact ⟨none, iterate_inr rfl, .none⟩
  | cons header headers ih =>
    cases h with
    | @node _ a key value next _ _ cells _ _ h =>
      have hnode := hread a _ List.mem_cons_self
      have hkey := hread key _ (List.mem_cons_of_mem _ List.mem_cons_self)
      have hvalue := hread value _
        (List.mem_cons_of_mem _ (List.mem_cons_of_mem _ List.mem_cons_self))
      have hstep : findStep heap name (some a) =
          if strcmp header.key name = .lt then .inl next
          else .inr (some (if strcmp header.key name = .eq then some a else none)) := by
        simp only [findStep, hnode, textAt_text hkey]
      by_cases hlt : strcmp header.key name = .lt
      · rw [if_pos hlt] at hstep
        rw [lookupHeader_cons_lt hlt, List.length_cons, iterate_inl hstep]
        exact ih h hread.behind
      · rw [if_neg hlt] at hstep
        rw [lookupHeader_cons_not_lt hlt, iterate_inr hstep]
        by_cases heq : strcmp header.key name = .eq
        · simp only [heq, if_true]
          refine ⟨some a, rfl, .some ?_⟩
          simp only [valueAt, hnode, textAt_text hvalue]
        · simp only [heq, if_false]
          exact ⟨none, rfl, .none⟩

theorem findHeader_spec (h : Linked m.headerList headers cells)
    (hholds : Holds m.heap (cells ++ rest)) (name : List UInt8) :
    ∃ found, findHeader m name = some found ∧
      Option.Rel (fun e a => valueAt m.heap a = some e.value)
        (Headers.lookupHeader headers name).target found := by
  obtain ⟨final, h⟩ := h
  obtain ⟨found, hends, hfound⟩ := find_segment h (reads_of_holds hholds) name
  refine ⟨found, ?_, hfound⟩
  rw [findHeader, iterate_mono hends (h.le_rounds hholds), Option.join_some]

theorem foldHeaders_spec {α : Type} (h : Linked m.headerList headers cells)
    (hholds : Holds m.heap (cells ++ rest)) (f : α → Header → α) (start : α) :
    foldHeaders m f start = some (headers.foldl f start) := by
  obtain ⟨final, h⟩ := h
  have hloop : ∀ {link p headers cells start}, Segment link p headers cells final none →
      Reads m.heap cells → iterate (foldStep m.heap f) (headers.length + 1) (p, start) =
        some (some (headers.foldl f start)) := by
    intro link p headers
    induction headers generalizing link p with
    | nil =>
      intro cells start h hread
      cases h with
      | nil => exact iterate_inr rfl
    | cons header headers ih =>
      intro cells start h hread
      cases h with
      | @node _ a key value next _ _ cells _ _ h =>
        have hnode := hread a _ List.mem_cons_self
        have hkey := hread key _ (List.mem_cons_of_mem _ List.mem_cons_self)
        have hvalue := hread value _
          (List.mem_cons_of_mem _ (List.mem_cons_of_mem _ List.mem_cons_self))
        have hstep : foldStep m.heap f (some a, start) = .inl (next, f start header) := by
          simp only [foldStep, hnode, textAt_text hkey, textAt_text hvalue]
        rw [List.length_cons, iterate_inl hstep]
        exact ih h hread.behind
  rw [foldHeaders, iterate_mono (hloop h (reads_of_holds hholds)) (h.le_rounds hholds), Option.join_some]

theorem Owned.of_none {p : Option Address} {cells : List Cell} (h : Owned p none cells) :
    p = none ∧ cells = [] := by
  cases h
  exact ⟨rfl, rfl⟩

theorem Owned.free {p : Option Address} {contents : Option (List UInt8)} {cells : List Cell}
    {heap : Blocks Block} (h : Owned p contents cells) (hholds : Holds heap (cells ++ rest)) :
    ∃ heap', Heap.free p heap = some heap' ∧ Holds heap' rest := by
  cases h with
  | null => exact ⟨heap, rfl, hholds⟩
  | block a contents => exact hholds.free

theorem Owned.length_eq {p : Option Address} {contents : Option (List UInt8)} {cells : List Cell}
    (h : Owned p contents cells) : cells.length = contents.toList.length := by
  cases h <;> rfl

end Hss.HeaderHeap
