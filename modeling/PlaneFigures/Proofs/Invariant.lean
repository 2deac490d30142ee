import PlaneFigures.Expr.Evaluate
import PlaneFigures.Expr

/-!
# Invariants of evaluations

A property of figures that intersections and shifts keep is an invariant of evaluations: if the
literals of a program and the bindings of an environment have it, so have all figures that are bound
on the way and the figure that is returned. The property of an evaluation as a whole is put together
along its sequence of steps, with one rule for each kind of step.
-/

namespace PlaneFigures

section Rules

variable {α β γ : Type} {P : Figure α → Prop}

def Env.All (P : Figure α → Prop) (env : Env α) : Prop := ∀ b ∈ env.toList, P b.2

instance [DecidablePred P] (env : Env α) : Decidable (env.All P) :=
  inferInstanceAs (Decidable (∀ b ∈ env.toList, P b.2))

theorem Env.all_empty : (empty : Env α).All P := by
  intro b hb
  cases hb

theorem Env.All.extend {env : Env α} (henv : env.All P) (name : String) {f : Figure α} (hf : P f) :
    (env.extend name f).All P := by
  intro b hb
  rcases List.mem_cons.1 hb with rfl | hb
  · exact hf
  · exact henv b hb

theorem Env.All.of_lookup {env : Env α} (henv : env.All P) {name : String} {f : Figure α}
    (h : env.lookup name = some f) : P f := by
  obtain ⟨inner, outer, hsplit, -⟩ := List.lookup_eq_some_iff.1 h
  have hmem : (name, f) ∈ env.toList := by
    rw [toList, hsplit]
    exact List.mem_append_right inner List.mem_cons_self
  exact henv _ hmem

namespace Evaluation

/-- The evaluation binds only figures with the property `P`, and its result has the property `Q`. -/
structure Upholds (P : Figure α → Prop) (Q : β → Prop) (x : Evaluation α β) : Prop where
  binds : ∀ name value, .bind name value ∈ x.events → P value
  result : ∀ b, x.outcome = .ok b → Q b

variable {Q : β → Prop} {R : γ → Prop}

theorem upholds_pure {b : β} (hb : Q b) : (pure b : Evaluation α β).Upholds P Q := by
  constructor
  · intro name value hmem
    cases hmem
  · intro b' h
    cases h
    exact hb

theorem upholds_throw (e : EvalError) : (throw e : Evaluation α β).Upholds P Q := by
  constructor
  · intro name value hmem
    cases hmem
  · intro b h
    cases h

theorem upholds_report {e : Event α} (he : ∀ name value, e = .bind name value → P value) :
    (report e).Upholds P fun _ => True := by
  constructor
  · intro name value hmem
    exact he name value (List.mem_singleton.1 hmem).symm
  · intro _ _
    trivial

theorem upholds_meet [Scalar α] {f g : Figure α} (h : P (f.intersect g)) :
    (meet f g).Upholds P P := by
  constructor
  · intro name value hmem
    rw [events_meet] at hmem
    obtain ⟨pair, -, hpair⟩ := List.mem_map.1 hmem
    cases hpair
  · intro met hmet
    cases hmet
    exact h

theorem Upholds.bind {x : Evaluation α β} {k : β → Evaluation α γ} (hx : x.Upholds P Q)
    (hk : ∀ b, Q b → (k b).Upholds P R) : (x >>= k).Upholds P R := by
  cases h : x.outcome with
  | ok b =>
    have hb := hk b (hx.result b h)
    constructor
    · intro name value hmem
      rw [events_bind_of_ok h] at hmem
      rcases List.mem_append.1 hmem with hmem | hmem
      · exact hx.binds name value hmem
      · exact hb.binds name value hmem
    · intro c hc
      rw [outcome_bind, h] at hc
      exact hb.result c hc
  | error e =>
    constructor
    · intro name value hmem
      rw [events_bind_of_error h] at hmem
      exact hx.binds name value hmem
    · intro c hc
      rw [outcome_bind, h] at hc
      cases hc

end Evaluation

end Rules

variable {α : Type} [Scalar α]

structure Figure.Closed (P : Figure α → Prop) : Prop where
  intersect {f g : Figure α} : P f → P g → P (f.intersect g)
  shift {f : Figure α} (dx dy : α) : P f → P (f.shift dx dy)

namespace Expr

open Evaluation

theorem upholds_evaluate {P : Figure α → Prop} (hP : Figure.Closed P) {e : Expr α}
    (he : ∀ f ∈ e.literals, P f) {env : Env α} (henv : env.All P) :
    (e.evaluate env).Upholds P P := by
  induction e generalizing env with
  | literal f =>
    rw [evaluate]
    apply (upholds_report (by simp)).bind
    intro _ _
    exact upholds_pure (he f List.mem_cons_self)
  | intersect left right ihl ihr =>
    obtain ⟨hleft, hright⟩ := List.forall_mem_append.1 he
    rw [evaluate]
    apply (upholds_report (by simp)).bind
    intro _ _
    apply (ihl hleft henv).bind
    intro f hf
    apply (ihr hright henv).bind
    intro g hg
    exact upholds_meet (hP.intersect hf hg)
  | letIn name bound body ihb ihe =>
    obtain ⟨hbound, hbody⟩ := List.forall_mem_append.1 he
    rw [evaluate]
    apply (upholds_report (by simp)).bind
    intro _ _
    apply (ihb hbound henv).bind
    intro value hvalue
    have hreport : ∀ name' value', Event.bind name value = .bind name' value' → P value' := by
      intro name' value' h
      cases h
      exact hvalue
    apply (upholds_report hreport).bind
    intro _ _
    exact ihe hbody (henv.extend name hvalue)
  | var name =>
    rw [evaluate]
    apply (upholds_report (by simp)).bind
    intro _ _
    cases h : env.lookup name with
    | some value => exact upholds_pure (henv.of_lookup h)
    | none =>
      apply (upholds_report (by simp)).bind
      intro _ _
      exact upholds_throw _
  | shift dx dy target ih =>
    rw [evaluate]
    apply (upholds_report (by simp)).bind
    intro _ _
    apply (ih he henv).bind
    intro f hf
    exact upholds_pure (hP.shift dx dy hf)

end Expr

end PlaneFigures
