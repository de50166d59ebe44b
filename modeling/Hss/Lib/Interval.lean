import Mathlib.Data.List.Pairwise
import Mathlib.Order.Lattice

namespace Hss

/-- A half-open interval, the end not included. -/
structure Interval (α : Type) where
  start : α
  end_ : α
  deriving DecidableEq, Repr

namespace Interval

variable {α : Type}

/-- The ends reached from `first` by adjoining intervals of `rs` on the right. -/
inductive RightEnd (rs : List (Interval α)) (first : Interval α) : α → Prop
  | first : RightEnd rs first first.end_
  | next {e : α} {r : Interval α} : RightEnd rs first e → r ∈ rs → r.start = e →
      RightEnd rs first r.end_

theorem RightEnd.mem {rs : List (Interval α)} {first : Interval α} {e : α}
    (h : RightEnd rs first e) (hfirst : first ∈ rs) : ∃ r ∈ rs, r.end_ = e := by
  cases h with
  | first => exact ⟨first, hfirst, rfl⟩
  | next _ hr _ => exact ⟨_, hr, rfl⟩

theorem RightEnd.mono {rs rs' : List (Interval α)} {first : Interval α} {e : α}
    (h : RightEnd rs first e) (hsub : ∀ r ∈ rs, r ∈ rs') : RightEnd rs' first e := by
  induction h with
  | first => exact .first
  | next _ hr hstart ih => exact ih.next (hsub _ hr) hstart

variable [LinearOrder α]

def Nonempty (r : Interval α) : Prop := r.start < r.end_

instance (r : Interval α) : Decidable r.Nonempty := inferInstanceAs (Decidable (_ < _))

def Precedes (r s : Interval α) : Prop := r.end_ ≤ s.start

instance (r s : Interval α) : Decidable (r.Precedes s) := inferInstanceAs (Decidable (_ ≤ _))

def Apart (r s : Interval α) : Prop := r.Precedes s ∨ s.Precedes r

instance (r s : Interval α) : Decidable (r.Apart s) := inferInstanceAs (Decidable (_ ∨ _))

def Le (r s : Interval α) : Prop := r.start < s.start ∨ r.start = s.start ∧ r.end_ ≤ s.end_

def absorb (p r : Interval α) : Interval α :=
  if r.end_ = p.start then ⟨r.start, p.end_⟩
  else if r.start = p.end_ then ⟨p.start, r.end_⟩
  else p

variable {p r s first : Interval α} {rs : List (Interval α)}

theorem Apart.symm (h : r.Apart s) : s.Apart r := Or.symm h

instance : Std.Symm (Apart : Interval α → Interval α → Prop) := ⟨fun _ _ => Apart.symm⟩

def Meets (r s : Interval α) : Prop := ∃ x, (r.start ≤ x ∧ x < r.end_) ∧ s.start ≤ x ∧ x < s.end_

theorem Meets.symm (h : r.Meets s) : s.Meets r := by
  obtain ⟨x, hr, hs⟩ := h
  exact ⟨x, hs, hr⟩

theorem meets_iff_not_apart (hr : r.Nonempty) (hs : s.Nonempty) : r.Meets s ↔ ¬ r.Apart s := by
  constructor
  · rintro ⟨x, ⟨hrx, hxr⟩, hsx, hxs⟩ (h | h)
    · exact absurd (lt_of_lt_of_le hxr (le_trans h hsx)) (lt_irrefl x)
    · exact absurd (lt_of_lt_of_le hxs (le_trans h hrx)) (lt_irrefl x)
  · intro h
    rw [Apart, not_or, Precedes, Precedes, not_le, not_le] at h
    obtain hle | hle := le_total r.start s.start
    · exact ⟨s.start, ⟨hle, h.1⟩, le_refl _, hs⟩
    · exact ⟨r.start, ⟨le_refl _, hr⟩, hle, h.2⟩

def Overlapping (rs : List (Interval α)) : Prop :=
  ∃ (i j : Nat) (r s : Interval α), i ≠ j ∧ rs[i]? = some r ∧ rs[j]? = some s ∧ r.Meets s

theorem overlapping_iff (hne : ∀ r ∈ rs, r.Nonempty) : Overlapping rs ↔ ¬ rs.Pairwise Apart := by
  have hmeets : ∀ {i j : Nat} {r s : Interval α}, rs[i]? = some r → rs[j]? = some s →
      (r.Meets s ↔ ¬ r.Apart s) := fun hi hj =>
    meets_iff_not_apart (hne _ (List.mem_of_getElem? hi)) (hne _ (List.mem_of_getElem? hj))
  constructor
  · rintro ⟨i, j, r, s, hij, hi, hj, hrs⟩ hpairs
    have hnot := (hmeets hi hj).mp hrs
    obtain ⟨hi', rfl⟩ := List.getElem?_eq_some_iff.mp hi
    obtain ⟨hj', rfl⟩ := List.getElem?_eq_some_iff.mp hj
    obtain hlt | hlt := Nat.lt_or_gt_of_ne hij
    · exact hnot (List.pairwise_iff_getElem.mp hpairs i j hi' hj' hlt)
    · exact hnot (List.pairwise_iff_getElem.mp hpairs j i hj' hi' hlt).symm
  · intro hpairs
    rw [List.pairwise_iff_getElem] at hpairs
    push Not at hpairs
    obtain ⟨i, j, hi, hj, hij, hnot⟩ := hpairs
    have hi' := List.getElem?_eq_getElem hi
    have hj' := List.getElem?_eq_getElem hj
    exact ⟨i, j, _, _, Nat.ne_of_lt hij, hi', hj', (hmeets hi' hj').mpr hnot⟩

theorem Le.precedes_of_apart (h : r.Le s) (hs : s.Nonempty) (ha : r.Apart s) : r.Precedes s := by
  obtain ha | ha := ha
  · exact ha
  · have hlt : s.start < s.start := by
      obtain h | ⟨h, -⟩ := h
      · exact lt_of_lt_of_le (lt_of_lt_of_le hs ha) (le_of_lt h)
      · exact lt_of_lt_of_le hs (h ▸ ha)
    exact absurd hlt (lt_irrefl _)

theorem pairwise_apart_iff (hsorted : rs.Pairwise Le) (hne : ∀ r ∈ rs, r.Nonempty) :
    rs.Pairwise Apart ↔ rs.Pairwise Precedes := by
  constructor
  · intro h
    refine (hsorted.and h).imp_of_mem fun _ hs h => ?_
    exact h.1.precedes_of_apart (hne _ hs) h.2
  · exact fun h => h.imp Or.inl

theorem absorb_nonempty (hp : p.Nonempty) (hr : r.Nonempty) : (p.absorb r).Nonempty := by
  simp only [absorb, Nonempty] at *
  split
  · rename_i h
    exact lt_trans (h ▸ hr) hp
  · split
    · rename_i h
      exact lt_trans hp (h ▸ hr)
    · exact hp

theorem absorb_end_le (hr : r.Nonempty) : p.end_ ≤ (p.absorb r).end_ := by
  simp only [absorb, Nonempty] at *
  split
  · exact le_refl _
  · split
    · rename_i h
      exact h ▸ le_of_lt hr
    · exact le_refl _

theorem absorb_rightEnd (h : RightEnd rs first p.end_) (hr : r ∈ rs) :
    RightEnd rs first (p.absorb r).end_ := by
  simp only [absorb]
  split
  · exact h
  · split
    · rename_i heq
      exact RightEnd.next (r := r) h hr heq
    · exact h

theorem start_ne_absorb_end (hp : p.Nonempty) (hr : r.Nonempty) :
    r.start ≠ (p.absorb r).end_ := by
  simp only [absorb, Nonempty] at *
  split
  · rename_i h
    exact ne_of_lt (lt_trans hr (h ▸ hp))
  · split
    · exact ne_of_lt hr
    · rename_i h
      exact h

theorem start_ne_absorb_end_of_precedes (hs : s.Nonempty) (hr : r.Nonempty) (h : s.Precedes r)
    (hne : s.start ≠ p.end_) : s.start ≠ (p.absorb r).end_ := by
  simp only [absorb, Nonempty, Precedes] at *
  split
  · exact hne
  · split
    · exact ne_of_lt (lt_trans (lt_of_lt_of_le hs h) hr)
    · exact hne

theorem foldl_absorb_nonempty (hp : p.Nonempty) (hne : ∀ r ∈ rs, r.Nonempty) :
    (rs.foldl absorb p).Nonempty := by
  induction rs generalizing p with
  | nil => exact hp
  | cons r rs ih =>
    exact ih (absorb_nonempty hp (hne r List.mem_cons_self)) fun s hs =>
      hne s (List.mem_cons_of_mem r hs)

theorem foldl_absorb_end_le (hne : ∀ r ∈ rs, r.Nonempty) : p.end_ ≤ (rs.foldl absorb p).end_ := by
  induction rs generalizing p with
  | nil => exact le_refl _
  | cons r rs ih =>
    exact le_trans (absorb_end_le (hne r List.mem_cons_self)) (ih fun s hs =>
      hne s (List.mem_cons_of_mem r hs))

theorem foldl_absorb_rightEnd {all : List (Interval α)} (h : RightEnd all first p.end_)
    (hsub : ∀ r ∈ rs, r ∈ all) : RightEnd all first (rs.foldl absorb p).end_ := by
  induction rs generalizing p with
  | nil => exact h
  | cons r rs ih =>
    exact ih (absorb_rightEnd h (hsub r List.mem_cons_self)) fun s hs =>
      hsub s (List.mem_cons_of_mem r hs)

theorem start_ne_foldl_absorb_end (hs : s.Nonempty) (hne : ∀ r ∈ rs, r.Nonempty)
    (hbefore : ∀ r ∈ rs, s.Precedes r) (h : s.start ≠ p.end_) :
    s.start ≠ (rs.foldl absorb p).end_ := by
  induction rs generalizing p with
  | nil => exact h
  | cons r rs ih =>
    refine ih (fun t ht => hne t (List.mem_cons_of_mem r ht))
      (fun t ht => hbefore t (List.mem_cons_of_mem r ht)) ?_
    exact start_ne_absorb_end_of_precedes hs (hne r List.mem_cons_self)
      (hbefore r List.mem_cons_self) h

theorem foldl_absorb_maximal (hp : p.Nonempty) (hne : ∀ r ∈ rs, r.Nonempty)
    (hsorted : rs.Pairwise Precedes) : ∀ r ∈ rs, r.start ≠ (rs.foldl absorb p).end_ := by
  induction rs generalizing p with
  | nil =>
    intro r hr
    cases hr
  | cons s rs ih =>
    obtain ⟨hbefore, hsorted⟩ := List.pairwise_cons.mp hsorted
    have hs := hne s List.mem_cons_self
    have hrest : ∀ r ∈ rs, r.Nonempty := fun r hr => hne r (List.mem_cons_of_mem s hr)
    intro r hr
    rw [List.foldl_cons]
    obtain rfl | hr := List.mem_cons.mp hr
    · exact start_ne_foldl_absorb_end hs hrest hbefore (start_ne_absorb_end hp hs)
    · exact ih (absorb_nonempty hp hs) hrest hsorted r hr

/-- The merged interval reaches as far to the right as the run of adjoining
intervals that begins with the first one. -/
theorem rightEnd_le_foldl_absorb (hfirst : first ∈ rs) (hne : ∀ r ∈ rs, r.Nonempty)
    (hsorted : rs.Pairwise Precedes) {e : α} (h : RightEnd rs first e) :
    e ≤ (rs.foldl absorb first).end_ := by
  have hmax := foldl_absorb_maximal (hne first hfirst) hne hsorted
  have hreached := foldl_absorb_rightEnd (p := first) .first fun r (hr : r ∈ rs) => hr
  obtain ⟨t, ht, htend⟩ := hreached.mem hfirst
  induction h with
  | first => exact foldl_absorb_end_le hne
  | @next e r _ hr hstart ih =>
    have hlt : r.start < (rs.foldl absorb first).end_ := lt_of_le_of_ne (hstart ▸ ih) (hmax r hr)
    rw [← htend] at hlt ⊢
    by_cases hrt : r = t
    · exact hrt ▸ le_refl _
    · have hpairs : rs.Pairwise Apart := hsorted.imp Or.inl
      obtain hapart | hapart := hpairs.forall hr ht hrt
      · exact le_trans hapart (le_of_lt (hne t ht))
      · exact absurd (lt_of_lt_of_le hlt hapart) (lt_irrefl _)

/-- The start moves to that of the interval in front of it, and no further. -/
theorem foldl_absorb_start (hne : ∀ r ∈ rs, r.Nonempty) (hsorted : rs.Pairwise Precedes) :
    (∃ q ∈ rs, q.end_ = p.start ∧ (rs.foldl absorb p).start = q.start) ∨
      (∀ r ∈ rs, r.end_ ≠ p.start) ∧ (rs.foldl absorb p).start = p.start := by
  induction rs generalizing p with
  | nil => simp
  | cons r rs ih =>
    obtain ⟨hbehind, hsorted⟩ := List.pairwise_cons.mp hsorted
    obtain ⟨hr, hne⟩ := List.forall_mem_cons.mp hne
    rw [List.foldl_cons]
    by_cases htouch : r.end_ = p.start
    · left
      have hstart : (p.absorb r).start = r.start := by simp [absorb, htouch]
      refine ⟨r, List.mem_cons_self, htouch, ?_⟩
      obtain ⟨q, hq, hqend, -⟩ | ⟨-, hfold⟩ := ih (p := p.absorb r) hne hsorted
      · have hlt : r.start < q.end_ := lt_trans (lt_of_lt_of_le hr (hbehind q hq)) (hne q hq)
        rw [hqend, hstart] at hlt
        exact absurd hlt (lt_irrefl _)
      · exact hfold.trans hstart
    · have hstart : (p.absorb r).start = p.start := by
        rw [absorb, if_neg htouch]
        split <;> rfl
      obtain ⟨q, hq, hqend, hfold⟩ | ⟨hno, hfold⟩ := ih (p := p.absorb r) hne hsorted
      · exact .inl ⟨q, List.mem_cons_of_mem r hq, hqend.trans hstart, hfold⟩
      · rw [hstart] at hno hfold
        exact .inr ⟨List.forall_mem_cons.mpr ⟨htouch, hno⟩, hfold⟩

def Contains (p r : Interval α) : Prop := p.start ≤ r.start ∧ r.end_ ≤ p.end_

def CoveredBy (p : Interval α) (rs : List (Interval α)) : Prop :=
  ∀ x, p.start ≤ x → x < p.end_ → ∃ r ∈ rs, r.start ≤ x ∧ x < r.end_

theorem coveredBy_of_mem (h : p ∈ rs) : p.CoveredBy rs := fun _ hl hr => ⟨p, h, hl, hr⟩

theorem CoveredBy.mono {rs' : List (Interval α)} (h : p.CoveredBy rs) (hsub : ∀ r ∈ rs, r ∈ rs') :
    p.CoveredBy rs' := by
  intro x hl hr
  obtain ⟨r, hmem, hx⟩ := h x hl hr
  exact ⟨r, hsub r hmem, hx⟩

theorem absorb_contains (hr : r.Nonempty) (h : p.Contains first) : (p.absorb r).Contains first := by
  refine ⟨?_, le_trans h.2 (absorb_end_le hr)⟩
  have hstart : (p.absorb r).start ≤ p.start := by
    simp only [absorb, Nonempty] at *
    split
    · rename_i htouch
      exact htouch ▸ le_of_lt hr
    · split <;> exact le_refl _
  exact le_trans hstart h.1

theorem absorb_coveredBy (h : p.CoveredBy rs) (hr : r ∈ rs) : (p.absorb r).CoveredBy rs := by
  intro x hl hx
  simp only [absorb] at hl hx
  split at hl
  · rename_i htouch
    rw [if_pos htouch] at hx
    by_cases hin : x < r.end_
    · exact ⟨r, hr, hl, hin⟩
    · exact h x (htouch ▸ not_lt.mp hin) hx
  · rename_i hleft
    rw [if_neg hleft] at hx
    split at hl
    · rename_i htouch
      rw [if_pos htouch] at hx
      by_cases hin : x < p.end_
      · exact h x hl hin
      · exact ⟨r, hr, htouch ▸ not_lt.mp hin, hx⟩
    · rename_i hright
      rw [if_neg hright] at hx
      exact h x hl hx

theorem foldl_absorb_contains (h : p.Contains first) (hne : ∀ r ∈ rs, r.Nonempty) :
    (rs.foldl absorb p).Contains first := by
  induction rs generalizing p with
  | nil => exact h
  | cons r rs ih =>
    obtain ⟨hr, hne⟩ := List.forall_mem_cons.mp hne
    exact ih (absorb_contains hr h) hne

theorem foldl_absorb_coveredBy {all : List (Interval α)} (h : p.CoveredBy all)
    (hsub : ∀ r ∈ rs, r ∈ all) : (rs.foldl absorb p).CoveredBy all := by
  induction rs generalizing p with
  | nil => exact h
  | cons r rs ih =>
    obtain ⟨hr, hsub⟩ := List.forall_mem_cons.mp hsub
    exact ih (absorb_coveredBy h hr) hsub

theorem eq_of_end_eq (hne : ∀ r ∈ rs, r.Nonempty) (hpairs : rs.Pairwise Apart) (hr : r ∈ rs)
    (hs : s ∈ rs) (h : r.end_ = s.end_) : r = s := by
  by_contra hrs
  obtain hapart | hapart := hpairs.forall hr hs hrs
  · have hlt := lt_of_le_of_lt hapart (hne s hs)
    rw [h] at hlt
    exact absurd hlt (lt_irrefl _)
  · have hlt := lt_of_le_of_lt hapart (hne r hr)
    rw [h] at hlt
    exact absurd hlt (lt_irrefl _)

/-- A run of adjoining intervals around the first one that no other adjoins. -/
structure WholeBlock (rs : List (Interval α)) (first p : Interval α) : Prop where
  contains : p.Contains first
  covered : p.CoveredBy rs
  alone : ∀ r ∈ rs, r.start ≠ p.end_ ∧ r.end_ ≠ p.start

/-- One pass in ascending order joins the whole run if, in front of the first
interval, the run is one interval long at most. -/
theorem wholeBlock_foldl_absorb_iff (hfirst : first ∈ rs) (hne : ∀ r ∈ rs, r.Nonempty)
    (hsorted : rs.Pairwise Precedes) : WholeBlock rs first (rs.foldl absorb first) ↔
      ∀ q ∈ rs, q.end_ = first.start → ∀ q' ∈ rs, q'.end_ ≠ q.start := by
  have hpairs : rs.Pairwise Apart := hsorted.imp Or.inl
  have hcontains : first.Contains first := ⟨le_refl _, le_refl _⟩
  have hmaximal := foldl_absorb_maximal (hne first hfirst) hne hsorted
  have hstart := foldl_absorb_start (p := first) hne hsorted
  constructor
  · rintro ⟨-, -, halone⟩ q hq hqend q' hq'
    obtain ⟨t, ht, htend, hfold⟩ | ⟨hno, -⟩ := hstart
    · obtain rfl := eq_of_end_eq hne hpairs ht hq (htend.trans hqend.symm)
      rw [← hfold]
      exact (halone q' hq').2
    · exact absurd hqend (hno q hq)
  · intro h
    refine ⟨foldl_absorb_contains hcontains hne,
      foldl_absorb_coveredBy (coveredBy_of_mem hfirst) fun _ hr => hr,
      fun r hr => ⟨hmaximal r hr, ?_⟩⟩
    obtain ⟨t, ht, htend, hfold⟩ | ⟨hno, hfold⟩ := hstart
    · rw [hfold]
      exact h t ht htend r hr
    · rw [hfold]
      exact hno r hr

end Interval

end Hss
