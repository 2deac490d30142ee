import PlaneFigures.Proofs.Canonical
import PlaneFigures.Proofs.Nondegenerate
import PlaneFigures.Proofs.Simulation
import PlaneFigures.Proofs.Translation

/-!
# Canonical programs

Over the rationals a program and its canonical form have the same meaning, unless a degenerate
segment is among the literals or the bindings. The two evaluations differ in the direction of the
segments that they pass along. Figures of the same form, which is the relation between them, are not
degenerate and have one canonical form. An intersection forgets the direction of its operands and so
is the same figure in both evaluations. A shift keeps the direction and commutes with making a
figure canonical.
-/

namespace PlaneFigures

section Relations

variable {α : Type} {R S : Figure α → Figure α → Prop}

theorem EndsAlike.mono (hRS : ∀ f g, R f g → S f g) {x y : Except EvalError (Figure α)}
    (h : EndsAlike R x y) : EndsAlike S x y := by
  cases h with
  | ok hfg => exact .ok (hRS _ _ hfg)
  | error e => exact .error e

theorem Env.All.agree {P : Figure α → Prop} (hR : ∀ f, P f → R f f) {env : Env α}
    (henv : env.All P) (names : List String) : Env.Agree R names env env := by
  intro name _
  cases h : env.lookup name with
  | none => exact .none
  | some f => exact .some (hR f (henv.of_lookup h))

end Relations

variable {α : Type} [Scalar α]

structure Figure.SameForm (f g : Figure α) : Prop where
  left_not_degenerate : ¬f.Degenerate
  right_not_degenerate : ¬g.Degenerate
  canonical_eq : f.canonical = g.canonical

namespace Figure

theorem sameForm_self {f : Figure α} (hf : ¬f.Degenerate) : f.SameForm f := ⟨hf, hf, rfl⟩

section

variable [Scalar.Symmetric α] [Std.Asymm (α := α) (· < ·)]

theorem sameForm_canonical {f : Figure α} (hf : ¬f.Degenerate) : f.SameForm f.canonical :=
  ⟨hf, not_degenerate_canonical f, (canonical_canonical f).symm⟩

theorem SameForm.intersect_eq {f f' g g' : Figure α} (hf : f.SameForm f') (hg : g.SameForm g') :
    f.intersect g = f'.intersect g' :=
  calc
    f.intersect g = f.canonical.intersect g.canonical := by
      rw [intersect_canonical, canonical_intersect hf.left_not_degenerate]
    _ = f'.canonical.intersect g'.canonical := by rw [hf.canonical_eq, hg.canonical_eq]
    _ = f'.intersect g' := by
      rw [intersect_canonical, canonical_intersect hf.right_not_degenerate]

end

theorem canonical_shift (f : Figure ℚ) (dx dy : ℚ) :
    (f.shift dx dy).canonical = f.canonical.shift dx dy := by
  rcases f.flat_or_segment with hf | ⟨s, rfl⟩
  · rw [canonical_of_flat hf, canonical_of_flat (flat_shift hf)]
  · by_cases hd : s.Degenerate
    · have hcollapse : (segment s).shift dx dy = point (s.start.shift dx dy) :=
        if_pos (s.degenerate_shift.2 hd)
      rw [canonical_of_degenerate hd, hcollapse]
      rfl
    · have hd' : ¬(s.shift dx dy).Degenerate := mt s.degenerate_shift.1 hd
      rw [canonical_of_not_degenerate hd, Segment.shift_of_not_degenerate hd,
        canonical_of_not_degenerate hd', Segment.oriented_shift,
        Segment.shift_of_not_degenerate (mt Segment.degenerate_oriented.1 hd)]

theorem compatible_sameForm : Compatible (SameForm : Figure ℚ → Figure ℚ → Prop) where
  intersect hf hg := by
    rw [hf.intersect_eq hg]
    exact sameForm_self (not_degenerate_intersect _ _)
  shift dx dy hf := by
    refine ⟨not_degenerate_shift _ dx dy, not_degenerate_shift _ dx dy, ?_⟩
    rw [canonical_shift, canonical_shift, hf.canonical_eq]

end Figure

namespace Expr

theorem alike_canonical {e : Expr ℚ} (he : ∀ f ∈ e.literals, ¬f.Degenerate) :
    e.Alike Figure.SameForm e.canonical := by
  induction e with
  | literal f => exact .literal (Figure.sameForm_canonical (he f List.mem_cons_self))
  | intersect left right ihl ihr =>
    obtain ⟨hleft, hright⟩ := List.forall_mem_append.1 he
    exact .intersect (ihl hleft) (ihr hright)
  | letIn name bound body ihb ihe =>
    obtain ⟨hbound, hbody⟩ := List.forall_mem_append.1 he
    exact .letIn name (ihb hbound) (ihe hbody)
  | var name => exact .var name
  | shift dx dy target ih => exact .shift dx dy (ih he)

/-- A program and its canonical form fail with one error or end with figures of one canonical form,
in every environment, if there are no degenerate literals and bindings. -/
theorem eval_canonical_alike (e : Expr ℚ) (env : Env ℚ) (he : ∀ f ∈ e.literals, ¬f.Degenerate)
    (henv : env.All fun f => ¬f.Degenerate) :
    EndsAlike (fun f g => f.canonical = g.canonical) (e.eval env) (e.canonical.eval env) := by
  have hagree := henv.agree (R := Figure.SameForm) (fun _ => Figure.sameForm_self) e.freeVars
  apply ((alike_canonical he).eval Figure.compatible_sameForm hagree).mono
  intro f g h
  exact h.canonical_eq

/-- A segment that is travelled backward is bound, shifted, and met with one of the environment. -/
theorem eval_canonical_alike_backward :
    let e : Expr ℚ := letIn "s" (literal (.segment ⟨⟨4, 2⟩, ⟨0, 0⟩⟩))
      (intersect (shift 1 (1 / 2) (var "s")) (var "t"))
    let env : Env ℚ := Env.ofBindings [("t", .segment ⟨⟨6, 3⟩, ⟨2, 1⟩⟩)]
    (∀ f ∈ e.literals, ¬f.Degenerate) ∧ (env.All fun f => ¬f.Degenerate) ∧ e.canonical ≠ e ∧
      EndsAlike (fun f g => f.canonical = g.canonical) (e.eval env) (e.canonical.eval env) := by
  intro e env
  have he : ∀ f ∈ e.literals, ¬f.Degenerate := by decide +kernel
  have henv : env.All fun f => ¬f.Degenerate := by decide +kernel
  exact ⟨he, henv, by decide +kernel, eval_canonical_alike e env he henv⟩

end Expr

end PlaneFigures
