import Mathlib.Data.Finmap
import Mathlib.Order.Lattice.Nat
import Mathlib.Tactic.Common

namespace Hss.Heap

abbrev Address := Nat

abbrev Blocks (B : Type) := Finmap fun _ : Address => B

variable {B : Type}

/-- What `malloc` is free to choose: any address that is not in use. -/
structure Allocator (B : Type) where
  choose : Blocks B → Address
  fresh : ∀ heap, choose heap ∉ heap

def malloc (alloc : Allocator B) (b : B) (heap : Blocks B) : Address × Blocks B :=
  (alloc.choose heap, heap.insert (alloc.choose heap) b)

/-- `free` takes a null pointer; anything else that is not allocated is undefined. -/
def free : Option Address → Blocks B → Option (Blocks B)
  | none, heap => some heap
  | some a, heap => if a ∈ heap then some (heap.erase a) else none

def store (a : Address) (b : B) (heap : Blocks B) : Option (Blocks B) :=
  if a ∈ heap then some (heap.insert a b) else none

/-- The heap consists of exactly these blocks, each allocated once. -/
structure Holds (heap : Blocks B) (cells : List (Address × B)) : Prop where
  nodup : (cells.map (·.1)).Nodup
  lookup : ∀ a b, heap.lookup a = some b ↔ (a, b) ∈ cells

variable {heap heap' : Blocks B} {cells cells' rest : List (Address × B)} {a : Address} {b b' : B}

theorem Holds.perm (h : Holds heap cells) (hperm : cells.Perm cells') : Holds heap cells' where
  nodup := (hperm.map _).nodup_iff.mp h.nodup
  lookup a b := (h.lookup a b).trans hperm.mem_iff

theorem Holds.mem_iff (h : Holds heap cells) : a ∈ heap ↔ a ∈ cells.map (·.1) := by
  rw [Finmap.mem_iff, List.mem_map]
  constructor
  · rintro ⟨b, hb⟩
    exact ⟨(a, b), (h.lookup a b).mp hb, rfl⟩
  · rintro ⟨⟨a', b⟩, hb, rfl⟩
    exact ⟨b, (h.lookup a' b).mpr hb⟩

theorem Holds.load (h : Holds heap cells) (hmem : (a, b) ∈ cells) : heap.lookup a = some b :=
  (h.lookup a b).mpr hmem

theorem Holds.tail (h : Holds heap ((a, b) :: rest)) : a ∉ rest.map (·.1) :=
  (List.nodup_cons.mp h.nodup).1

theorem ne_of_mem_map (ha : a ∉ rest.map (·.1)) {a' : Address} (hmem : (a', b') ∈ rest) : a' ≠ a :=
  fun heq => ha (heq ▸ List.mem_map_of_mem (f := (·.1)) hmem)

theorem Holds.insert (h : Holds heap cells) (ha : a ∉ heap) (b : B) :
    Holds (heap.insert a b) ((a, b) :: cells) where
  nodup := List.nodup_cons.mpr ⟨fun hmem => ha (h.mem_iff.mpr hmem), h.nodup⟩
  lookup a' b' := by
    by_cases hne : a' = a
    · subst hne
      rw [Finmap.lookup_insert, List.mem_cons]
      refine ⟨fun heq => .inl (by rw [Option.some.inj heq]), fun hmem => ?_⟩
      obtain heq | hmem := hmem
      · rw [(Prod.mk.inj heq).2]
      · exact absurd (h.mem_iff.mpr (List.mem_map_of_mem (f := (·.1)) hmem)) ha
    · rw [Finmap.lookup_insert_of_ne heap hne, h.lookup, List.mem_cons]
      exact (or_iff_right fun heq => hne (Prod.mk.inj heq).1).symm

theorem Holds.malloc (h : Holds heap cells) (alloc : Allocator B) (b : B) :
    ∃ a heap', malloc alloc b heap = (a, heap') ∧ Holds heap' ((a, b) :: cells) :=
  ⟨_, _, rfl, h.insert (alloc.fresh heap) b⟩

theorem Holds.free (h : Holds heap ((a, b) :: rest)) :
    ∃ heap', free (some a) heap = some heap' ∧ Holds heap' rest := by
  have hlive : a ∈ heap := h.mem_iff.mpr List.mem_cons_self
  refine ⟨heap.erase a, if_pos hlive, (List.nodup_cons.mp h.nodup).2, fun a' b' => ?_⟩
  by_cases hne : a' = a
  · subst hne
    rw [Finmap.lookup_erase]
    refine ⟨nofun, fun hmem => ?_⟩
    exact absurd rfl (ne_of_mem_map h.tail hmem)
  · rw [Finmap.lookup_erase_ne hne, h.lookup, List.mem_cons]
    exact or_iff_right fun heq => hne (Prod.mk.inj heq).1

theorem Holds.store (h : Holds heap ((a, b) :: rest)) (b' : B) :
    ∃ heap', store a b' heap = some heap' ∧ Holds heap' ((a, b') :: rest) := by
  have hlive : a ∈ heap := h.mem_iff.mpr List.mem_cons_self
  have hnodup := List.nodup_cons.mp h.nodup
  refine ⟨heap.insert a b', if_pos hlive, List.nodup_cons.mpr hnodup, fun a' c => ?_⟩
  by_cases hne : a' = a
  · subst hne
    rw [Finmap.lookup_insert, List.mem_cons]
    refine ⟨fun heq => .inl (by rw [Option.some.inj heq]), fun hmem => ?_⟩
    obtain heq | hmem := hmem
    · rw [(Prod.mk.inj heq).2]
    · exact absurd rfl (ne_of_mem_map hnodup.1 hmem)
  · rw [Finmap.lookup_insert_of_ne heap hne, h.lookup, List.mem_cons, List.mem_cons]
    have hother : ∀ d : B, (a', c) = (a, d) ↔ False := fun d =>
      iff_of_false (fun heq => hne (Prod.mk.inj heq).1) id
    rw [hother, hother]

theorem Holds.unique (h : Holds heap cells) (h' : Holds heap' cells) : heap = heap' := by
  refine Finmap.ext_lookup fun a => Option.ext fun b => ?_
  exact (h.lookup a b).trans (h'.lookup a b).symm

theorem Holds.card (h : Holds heap cells) : heap.keys.card = cells.length := by
  have hkeys : heap.keys = (cells.map (·.1)).toFinset := by
    ext a
    rw [Finmap.mem_keys, h.mem_iff, List.mem_toFinset]
  rw [hkeys, List.toFinset_card_of_nodup h.nodup, List.length_map]

theorem exists_holds (heap : Blocks B) : ∃ cells, Holds heap cells := by
  refine Finmap.induction_on heap fun s => ⟨s.entries.map fun c => (c.1, c.2), ?_, fun a b => ?_⟩
  · rw [List.map_map]
    exact s.nodupKeys
  · rw [Finmap.lookup_toFinmap, List.mem_map]
    refine (List.mem_dlookup_iff s.nodupKeys).trans ⟨fun hmem => ⟨_, hmem, rfl⟩, ?_⟩
    rintro ⟨c, hmem, heq⟩
    cases heq
    exact hmem

def above : Allocator B where
  choose heap := heap.keys.sup id + 1
  fresh heap hmem := by
    have hle := Finset.le_sup (f := id) (Finmap.mem_keys.mpr hmem)
    exact absurd hle (Nat.not_le_of_lt (Nat.lt_succ_self _))

end Hss.Heap
