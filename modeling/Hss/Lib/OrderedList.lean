import Mathlib.Data.List.Nodup
import Mathlib.Data.List.TakeWhile
import Mathlib.Data.List.Pairwise
import Mathlib.Order.Lattice
import Mathlib.Tactic.Common

namespace Hss.OrderedList

variable {ε κ : Type} [LinearOrder κ] (key : ε → κ)

def Sorted (l : List ε) : Prop := l.Pairwise (key · < key ·)

def before (k : κ) (l : List ε) : List ε := l.takeWhile (key · < k)

def since (k : κ) (l : List ε) : List ε := l.dropWhile (key · < k)

variable {key} {k : κ} {l : List ε} {e : ε}

theorem before_append_since : before key k l ++ since key k l = l :=
  List.takeWhile_append_dropWhile

theorem key_lt_of_mem_before (he : e ∈ before key k l) : key e < k := by
  simpa using List.mem_takeWhile_imp he

theorem le_key_of_mem_since (hl : Sorted key l) (he : e ∈ since key k l) : k ≤ key e := by
  induction l with
  | nil => cases he
  | cons a l ih =>
    obtain ⟨ha, hl⟩ := List.pairwise_cons.mp hl
    by_cases hk : key a < k
    · rw [since, List.dropWhile_cons_of_pos (by simpa using hk)] at he
      exact ih hl he
    · rw [since, List.dropWhile_cons_of_neg (by simpa using hk)] at he
      rcases List.mem_cons.mp he with rfl | he
      · exact not_lt.mp hk
      · exact (not_lt.mp hk).trans (ha e he).le

/-- The early stop of the search misses nothing: the first entry not below the
key is the entry with that key, if there is one. -/
theorem head_since_iff (hl : Sorted key l) :
    (since key k l).head?.any (key · = k) ↔ ∃ e ∈ l, key e = k := by
  constructor
  · intro h
    cases hs : since key k l with
    | nil => simp [hs] at h
    | cons e rest =>
      have he : e ∈ before key k l ++ since key k l := by simp [hs]
      rw [before_append_since] at he
      exact ⟨e, he, by simpa [hs] using h⟩
  · rintro ⟨e, he, hk⟩
    rw [← @before_append_since _ _ _ key k l] at he
    rcases List.mem_append.mp he with hb | hs
    · exact absurd hk (key_lt_of_mem_before hb).ne
    · cases hsl : since key k l with
      | nil => simp [hsl] at hs
      | cons a rest =>
        have hak : k ≤ key a := le_key_of_mem_since hl (by simp [hsl])
        rw [hsl] at hs
        rcases List.mem_cons.mp hs with rfl | hr
        · simp [hk]
        · have hsub : (since key k l).Sublist l := List.dropWhile_sublist _
          have hp := List.pairwise_cons.mp (hsl ▸ hl.sublist hsub : Sorted key (a :: rest))
          exact absurd (hp.1 e hr) (by rw [hk]; exact not_lt.mpr hak)

theorem Sorted.insert (hl : Sorted key l) (hk : key e = k) (hnew : ∀ a ∈ l, key a ≠ k) :
    Sorted key (before key k l ++ e :: since key k l) := by
  have hb : Sorted key (before key k l) := hl.sublist (List.takeWhile_sublist _)
  have hs : Sorted key (since key k l) := hl.sublist (List.dropWhile_sublist _)
  have hlt : ∀ a ∈ since key k l, k < key a := by
    intro a ha
    have hmem : a ∈ l := (List.dropWhile_sublist _).subset ha
    exact lt_of_le_of_ne (le_key_of_mem_since hl ha) (hnew a hmem).symm
  refine List.pairwise_append.mpr ⟨hb, List.pairwise_cons.mpr ⟨by simpa [hk] using hlt, hs⟩, ?_⟩
  intro a ha c hc
  have hak := key_lt_of_mem_before ha
  rcases List.mem_cons.mp hc with rfl | hc
  · exact hk ▸ hak
  · exact hak.trans (hlt c hc)

theorem mem_insert {a : ε} : a ∈ before key k l ++ e :: since key k l ↔ a = e ∨ a ∈ l := by
  have hl : a ∈ l ↔ a ∈ before key k l ∨ a ∈ since key k l := by
    rw [← List.mem_append, before_append_since]
  simp only [List.mem_append, List.mem_cons, hl]
  tauto

theorem before_eq_filter (hl : Sorted key l) : before key k l = l.filter (key · < k) := by
  induction l with
  | nil => rfl
  | cons a l ih =>
    obtain ⟨ha, hl⟩ := List.pairwise_cons.mp hl
    by_cases hk : key a < k
    · rw [before, List.takeWhile_cons_of_pos (by simpa using hk),
        List.filter_cons_of_pos (by simpa using hk), ← ih hl, before]
    · have hnil : l.filter (key · < k) = [] := by
        apply List.filter_eq_nil_iff.mpr
        intro b hb
        simpa using (not_lt.mp hk).trans (ha b hb).le
      rw [before, List.takeWhile_cons_of_neg (by simpa using hk),
        List.filter_cons_of_neg (by simpa using hk), hnil]

theorem since_eq_filter (hl : Sorted key l) : since key k l = l.filter (k ≤ key ·) := by
  induction l with
  | nil => rfl
  | cons a l ih =>
    obtain ⟨ha, hl⟩ := List.pairwise_cons.mp hl
    by_cases hk : key a < k
    · rw [since, List.dropWhile_cons_of_pos (by simpa using hk),
        List.filter_cons_of_neg (by simpa using hk), ← ih hl, since]
    · have hall : (a :: l).filter (k ≤ key ·) = a :: l := by
        apply List.filter_eq_self.mpr
        intro b hb
        obtain rfl | hb := List.mem_cons.mp hb
        · simpa using hk
        · simpa using (not_lt.mp hk).trans (ha b hb).le
      rw [since, List.dropWhile_cons_of_neg (by simpa using hk), hall]

def put (key : ε → κ) (e : ε) (l : List ε) : List ε :=
  l.filter (key · < key e) ++ e :: l.filter (key e < key ·)

theorem mem_put {a : ε} : a ∈ put key e l ↔ a = e ∨ a ∈ l ∧ key a ≠ key e := by
  simp only [put, List.mem_append, List.mem_cons, List.mem_filter, decide_eq_true_eq,
    lt_or_lt_iff_ne.symm]
  tauto

theorem Sorted.put (hl : Sorted key l) : Sorted key (put key e l) := by
  have hbefore : Sorted key (l.filter (key · < key e)) := hl.sublist List.filter_sublist
  have hbehind : Sorted key (l.filter (key e < key ·)) := hl.sublist List.filter_sublist
  refine List.pairwise_append.mpr ⟨hbefore, List.pairwise_cons.mpr ⟨?_, hbehind⟩, ?_⟩
  · intro a ha
    simpa using (List.mem_filter.mp ha).2
  · intro a ha b hb
    have hae : key a < key e := by simpa using (List.mem_filter.mp ha).2
    obtain rfl | hb := List.mem_cons.mp hb
    · exact hae
    · have heb : key e < key b := by simpa using (List.mem_filter.mp hb).2
      exact hae.trans heb

theorem Sorted.eq_of_key (hl : Sorted key l) {a : ε} (ha : a ∈ l) (he : e ∈ l)
    (hk : key a = key e) : a = e := by
  have hnodup : (l.map key).Nodup := List.pairwise_map.mpr (hl.imp fun h => h.ne)
  exact List.inj_on_of_nodup_map hnodup ha he hk

theorem since_of_mem (hl : Sorted key l) (he : e ∈ l) :
    since key (key e) l = e :: l.filter (key e < key ·) := by
  have hhead := (head_since_iff (k := key e) hl).mpr ⟨e, he, rfl⟩
  have hsorted : Sorted key (since key (key e) l) := hl.sublist (List.dropWhile_sublist _)
  cases hs : since key (key e) l with
  | nil => simp [hs] at hhead
  | cons a rest =>
    have hak : key a = key e := by simpa [hs] using hhead
    have ha : a ∈ l := (List.dropWhile_sublist _).subset (hs ▸ List.mem_cons_self : a ∈ since _ _ l)
    obtain rfl := hl.eq_of_key ha he hak
    rw [hs] at hsorted
    obtain ⟨hrest, -⟩ := List.pairwise_cons.mp hsorted
    have hfilter : (a :: rest).filter (key a < key ·) = l.filter (key a < key ·) := by
      rw [← hs, since_eq_filter hl, List.filter_filter]
      apply List.filter_congr
      intro b _
      simpa using fun h : key a < key b => h.le
    rw [← hfilter, List.filter_cons_of_neg (by simp), List.filter_eq_self.mpr]
    intro b hb
    simpa using hrest b hb

theorem since_of_not_mem (hl : Sorted key l) (hk : ∀ a ∈ l, key a ≠ k) :
    since key k l = l.filter (k < key ·) := by
  rw [since_eq_filter hl]
  apply List.filter_congr
  intro a ha
  have hne := (hk a ha).symm
  simp [lt_iff_le_and_ne, hne]

end Hss.OrderedList
