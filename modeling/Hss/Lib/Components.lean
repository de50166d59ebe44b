import Hss.Lib.Simulation

namespace Hss.Components

open Hss.Simulation

variable {I Op Reply S T : Type} [DecidableEq I]

def dealings (i : I) (record : List (I × Op × Reply)) : List (Op × Reply) :=
  (record.filter (·.1 = i)).map (·.2)

theorem dealings_append (i : I) (record record' : List (I × Op × Reply)) :
    dealings i (record ++ record') = dealings i record ++ dealings i record' := by
  simp only [dealings, List.filter_append, List.map_append]

theorem dealings_self (i : I) (op : Op) (reply : Reply) :
    dealings i [(i, op, reply)] = [(op, reply)] := by
  simp [dealings]

theorem dealings_other {i j : I} (h : j ≠ i) (op : Op) (reply : Reply) :
    dealings i [(j, op, reply)] = [] := by
  simp [dealings, h]

/-- The runs of a system whose steps are operations on one component or on none. -/
inductive Recorded (Step : T → Option (I × Op × Reply) → T → Prop) (t₀ : T) :
    List (I × Op × Reply) → T → Prop
  | start : Recorded Step t₀ [] t₀
  | step {record : List (I × Op × Reply)} {t t' : T} {label : Option (I × Op × Reply)} :
      Recorded Step t₀ record t → Step t label t' → Recorded Step t₀ (record ++ label.toList) t'

/-- A step does to the component it is about what that does by itself, and leaves the
other ones as they are. -/
structure Separates (Step : T → Option (I × Op × Reply) → T → Prop) (Inv : T → Prop)
    (perform : S → Op → Option (Reply × S)) (Sees : I → T → S → Prop) : Prop where
  inv : ∀ t label t', Inv t → Step t label t' → Inv t'
  own : ∀ t i op reply t' s, Inv t → Step t (some (i, op, reply)) t' → Sees i t s →
    ∃ s', perform s op = some (reply, s') ∧ Sees i t' s'
  other : ∀ t label t' i s, Inv t → Step t label t' → (∀ v ∈ label, v.1 ≠ i) → Sees i t s →
    Sees i t' s

variable {Step : T → Option (I × Op × Reply) → T → Prop} {Inv : T → Prop}
  {perform : S → Op → Option (Reply × S)} {Sees : I → T → S → Prop} {t₀ t : T}
  {record : List (I × Op × Reply)}

omit [DecidableEq I] in
theorem Recorded.quiet {t' : T} (h : Recorded Step t₀ record t) (hstep : Step t none t') :
    Recorded Step t₀ record t' := by
  have hnext := h.step hstep
  rwa [Option.toList_none, List.append_nil] at hnext

omit [DecidableEq I] in
theorem Recorded.inv (h : Recorded Step t₀ record t) (hsep : Separates Step Inv perform Sees)
    (hinv : Inv t₀) : Inv t := by
  induction h with
  | start => exact hinv
  | step _ hstep ih => exact hsep.inv _ _ _ ih hstep

/-- However the operations on the components interleave, each of them is in the state that
its own operations lead to, and has given the replies it gives by itself. -/
theorem Recorded.alone (h : Recorded Step t₀ record t) (hsep : Separates Step Inv perform Sees)
    (hinv : Inv t₀) {i : I} {s : S} (hsees : Sees i t₀ s) :
    ∃ s', performAll perform s ((dealings i record).map (·.1)) =
      some ((dealings i record).map (·.2), s') ∧ Sees i t s' := by
  induction h with
  | start => exact ⟨s, rfl, hsees⟩
  | @step record t t' label hrecorded hstep ih =>
    obtain ⟨s', hrun, hsees'⟩ := ih
    have hinv' := hrecorded.inv hsep hinv
    rw [dealings_append, List.map_append, List.map_append]
    cases label with
    | none =>
      refine ⟨s', ?_, hsep.other _ _ _ _ _ hinv' hstep nofun hsees'⟩
      simpa [dealings] using hrun
    | some v =>
      obtain ⟨j, op, reply⟩ := v
      by_cases hj : j = i
      · subst hj
        obtain ⟨s'', hperform, hsees''⟩ := hsep.own _ _ _ _ _ _ hinv' hstep hsees'
        refine ⟨s'', ?_, hsees''⟩
        rw [Option.toList_some, dealings_self]
        exact performAll_concat hrun hperform
      · have hother : ∀ v ∈ some (j, op, reply), v.1 ≠ i := by
          rintro v ⟨⟩
          exact hj
        refine ⟨s', ?_, hsep.other _ _ _ _ _ hinv' hstep hother hsees'⟩
        rw [Option.toList_some, dealings_other hj, List.map_nil, List.map_nil, List.append_nil,
          List.append_nil]
        exact hrun

end Hss.Components
