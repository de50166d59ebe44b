import Hss.Lib.Loop
import Mathlib.Data.Option.Basic
import Mathlib.Data.Sum.Basic

namespace Hss.Simulation

open Hss.Loop

variable {ε ε' α α' β β' : Type}

/-- Two computations that return at the same points, with related results. -/
inductive Simulates (Error : ε → ε' → Prop) (Result : α → α' → Prop) :
    Except ε α → Except ε' α' → Prop
  | error {e : ε} {e' : ε'} : Error e e' → Simulates Error Result (.error e) (.error e')
  | ok {a : α} {a' : α'} : Result a a' → Simulates Error Result (.ok a) (.ok a')

variable {Error : ε → ε' → Prop} {Result : α → α' → Prop} {Result' : β → β' → Prop}
  {x : Except ε α} {x' : Except ε' α'} {f : α → Except ε β} {f' : α' → Except ε' β'}

theorem Simulates.bind (h : Simulates Error Result x x')
    (next : ∀ a a', Result a a' → Simulates Error Result' (f a) (f' a')) :
    Simulates Error Result' (x >>= f) (x' >>= f') := by
  cases h with
  | error he => exact .error he
  | ok ha => exact next _ _ ha

theorem iterate_rel {step : α → α ⊕ β} {step' : α' → α' ⊕ β'} {R : α → α' → Prop}
    {Q : β → β' → Prop} (round : ∀ a a', R a a' → Sum.LiftRel R Q (step a) (step' a')) {a : α}
    {a' : α'} (h : R a a') (n : Nat) : Option.Rel Q (iterate step n a) (iterate step' n a') := by
  induction n generalizing a a' with
  | zero => exact .none
  | succ n ih =>
    have hround := round a a' h
    rw [iterate, iterate]
    generalize step a = x at hround
    generalize step' a' = y at hround
    cases hround with
    | inl hnext => exact ih hnext
    | inr hleft => exact .some hleft

theorem rel_bind {R : α → β → Prop} {R' : α' → β' → Prop} {x : Option α} {y : Option β}
    {f : α → Option α'} {g : β → Option β'} (h : Option.Rel R x y)
    (next : ∀ a b, R a b → Option.Rel R' (f a) (g b)) : Option.Rel R' (x.bind f) (y.bind g) := by
  cases h with
  | some hab => exact next _ _ hab
  | none => exact .none

theorem rel_bind_same {R : α' → β' → Prop} (x : Option α) {f : α → Option α'} {g : α → Option β'}
    (next : ∀ a, Option.Rel R (f a) (g a)) : Option.Rel R (x.bind f) (x.bind g) := by
  cases x with
  | none => exact .none
  | some a => exact next a

section Runs

variable {S T Op Reply : Type}

def performAll (perform : S → Op → Option (Reply × S)) : S → List Op → Option (List Reply × S)
  | s, [] => some ([], s)
  | s, op :: ops => do
    let (reply, s) ← perform s op
    let (replies, s) ← performAll perform s ops
    some (reply :: replies, s)

theorem performAll_concat {perform : S → Op → Option (Reply × S)} {s s' s'' : S} {ops : List Op}
    {op : Op} {replies : List Reply} {reply : Reply}
    (h : performAll perform s ops = some (replies, s')) (hop : perform s' op = some (reply, s'')) :
    performAll perform s (ops ++ [op]) = some (replies ++ [reply], s'') := by
  induction ops generalizing s replies with
  | nil =>
    cases h
    simp only [List.nil_append, performAll, hop, Option.bind_eq_bind, Option.bind_some]
  | cons first ops ih =>
    obtain ⟨⟨reply₁, s₁⟩, hfirst, h⟩ := Option.bind_eq_some_iff.mp h
    obtain ⟨⟨replies₁, s₂⟩, hops, h⟩ := Option.bind_eq_some_iff.mp h
    cases h
    simp only [List.cons_append, performAll, hfirst, ih hops, Option.bind_eq_bind,
      Option.bind_some]

theorem performAll_defined {perform : S → Op → Option (Reply × S)} {I : S → Prop}
    {Allowed : Op → Prop}
    (step : ∀ s op, I s → Allowed op → ∃ v, perform s op = some v ∧ I v.2) {s : S} (h : I s)
    {ops : List Op} (hallowed : ∀ op ∈ ops, Allowed op) :
    ∃ v, performAll perform s ops = some v := by
  induction ops generalizing s with
  | nil => exact ⟨_, rfl⟩
  | cons op ops ih =>
    obtain ⟨hop, hops⟩ := List.forall_mem_cons.mp hallowed
    obtain ⟨⟨reply, s'⟩, hperform, h'⟩ := step s op h hop
    obtain ⟨⟨replies, s''⟩, hrest⟩ := ih h' hops
    refine ⟨(reply :: replies, s''), ?_⟩
    simp only [performAll, hperform, hrest, Option.bind_eq_bind, Option.bind_some]

/-- A machine that follows another one as long as its replies are allowed gives the same
replies in every run in which they are. -/
theorem performAll_follows {perform : S → Op → Option (Reply × S)}
    {perform' : T → Op → Option (Reply × T)} {R : List Reply → S → T → Prop}
    (Allowed : Reply → Prop) {s s' : S} {t : T} {l replies : List Reply} {ops : List Op}
    (h : R l s t) (hrun : performAll perform s ops = some (replies, s'))
    (hallowed : ∀ reply ∈ replies, Allowed reply)
    (step : ∀ done s t op reply s', R done s t → perform s op = some (reply, s') →
      Allowed reply → ∃ t', perform' t op = some (reply, t') ∧ R (done ++ [reply]) s' t') :
    ∃ t', performAll perform' t ops = some (replies, t') ∧ R (l ++ replies) s' t' := by
  induction ops generalizing s t l replies with
  | nil =>
    cases hrun
    refine ⟨t, rfl, ?_⟩
    rwa [List.append_nil]
  | cons op ops ih =>
    obtain ⟨⟨reply, s₁⟩, hop, hrun⟩ := Option.bind_eq_some_iff.mp hrun
    obtain ⟨⟨rest, s₂⟩, hops, hrun⟩ := Option.bind_eq_some_iff.mp hrun
    cases hrun
    obtain ⟨hreply, hrest⟩ := List.forall_mem_cons.mp hallowed
    obtain ⟨t₁, hperform, h₁⟩ := step l s t op reply s₁ h hop hreply
    obtain ⟨t₂, hperformAll, h₂⟩ := ih h₁ hops hrest
    refine ⟨t₂, ?_, ?_⟩
    · simp only [performAll, hperform, hperformAll, Option.bind_eq_bind, Option.bind_some]
    · rwa [List.append_assoc, List.singleton_append] at h₂

/-- A machine that performs like operations alike performs like runs alike, as long as its
replies are allowed. -/
theorem performAll_alike {perform : S → Op → Option (Reply × S)} {I : S → Prop}
    {Alike : Op → Op → Prop} (Allowed : Reply → Prop)
    (step : ∀ s op op' reply s', I s → perform s op = some (reply, s') → Allowed reply →
      Alike op op' → perform s op' = some (reply, s') ∧ I s')
    {s s' : S} {ops ops' : List Op} {replies : List Reply} (h : I s)
    (hrun : performAll perform s ops = some (replies, s'))
    (hallowed : ∀ reply ∈ replies, Allowed reply) (hops : List.Forall₂ Alike ops ops') :
    performAll perform s ops' = some (replies, s') := by
  induction hops generalizing s replies with
  | nil => exact hrun
  | cons halike _ ih =>
    obtain ⟨⟨reply, s₁⟩, hop, hrun⟩ := Option.bind_eq_some_iff.mp hrun
    obtain ⟨⟨rest, s₂⟩, hrest, hrun⟩ := Option.bind_eq_some_iff.mp hrun
    cases hrun
    obtain ⟨hreply, hallowed⟩ := List.forall_mem_cons.mp hallowed
    obtain ⟨hop', h₁⟩ := step s _ _ reply s₁ h hop hreply halike
    have hrest' := ih h₁ hrest hallowed
    simp only [performAll, hop', hrest', Option.bind_eq_bind, Option.bind_some]

end Runs

end Hss.Simulation
