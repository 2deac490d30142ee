import PlaneFigures.Proofs.Binary64
import PlaneFigures.Proofs.Invariant

/-!
# Degenerate segments at run time

A segment comes out of an operation in five places: as the canonical form of a literal, from a
shift, from clipping a line, and from two branches of the overlap of two segments. None of these
segments is degenerate. A shift tests its own result, a clipped line is a segment that was tested
before, and the overlap takes its two ends apart along the axis from which it reads them. Hence no
evaluation of a canonical program binds or returns a degenerate segment, unless it finds one in its
environment.
-/

namespace PlaneFigures

theorem Figure.not_degenerate_shift {α : Type} [Scalar α] (f : Figure α) (dx dy : α) :
    ¬(f.shift dx dy).Degenerate := by
  cases f with
  | segment s =>
    rw [shift]
    by_cases hd : (s.shift dx dy).Degenerate
    · rw [if_pos hd]
      exact id
    · rw [if_neg hd]
      exact hd
  | _ => exact id

variable {α : Type} [Scalar α] [Scalar.Symmetric α]

namespace Segment

theorem not_degenerate_of_not_close {s : Segment α} {axis : Axis}
    (h : ¬Close (axis.coord s.stop) (axis.coord s.start)) : ¬s.Degenerate := by
  intro hd
  cases axis with
  | x => exact h (close_comm.1 hd.1)
  | y => exact h (close_comm.1 hd.2)

theorem not_degenerate_shared {axis : Axis} {earlier later : Segment α}
    (hlater : ¬later.Degenerate) : ¬(shared axis earlier later).Degenerate := by
  rw [shared]
  by_cases htouch : Close (axis.coord earlier.stop) (axis.coord later.start)
  · rw [if_pos htouch]
    exact id
  · rw [if_neg htouch]
    split
    · exact id
    · split
      · exact hlater
      · exact not_degenerate_of_not_close (s := ⟨later.start, earlier.stop⟩) htouch

theorem not_degenerate_overlap {s t : Segment α} (hs : ¬s.Degenerate) (ht : ¬t.Degenerate) :
    ¬(s.overlap t).Degenerate := by
  rw [overlap]
  split
  · exact not_degenerate_shared (mt degenerate_ascending.1 ht)
  · exact not_degenerate_shared (mt degenerate_ascending.1 hs)

end Segment

namespace Figure

open Segment

theorem not_degenerate_canonical (f : Figure α) : ¬f.canonical.Degenerate := by
  cases f with
  | segment s =>
    rw [canonical_segment]
    by_cases hd : s.Degenerate
    · rw [if_pos hd]
      exact id
    · rw [if_neg hd]
      exact mt degenerate_oriented.1 hd
  | _ => exact id

theorem not_degenerate_clip {f : Figure α} (hf : ¬f.Degenerate) {s : Segment α}
    (hs : ¬s.Degenerate) : ¬(f.clip s).Degenerate := by
  cases f with
  | empty => exact id
  | point p =>
    rw [clip]
    split <;> exact id
  | line m b => exact hs
  | vertical x => exact hs
  | segment t => exact not_degenerate_overlap hf hs

theorem not_degenerate_intersect (f g : Figure α) : ¬(f.intersect g).Degenerate := by
  rcases f.flat_or_segment with hf | ⟨s, rfl⟩
  · rcases g.flat_or_segment with hg | ⟨t, rfl⟩
    · exact not_degenerate_of_flat (flat_intersect hf hg)
    · rw [intersect_segment_eq_trim]
      exact not_degenerate_trim (flat_intersect hf (flat_carrier t)) t
  · rcases g.flat_or_segment with hg | ⟨t, rfl⟩
    · rw [segment_intersect_eq_trim s hg]
      exact not_degenerate_trim (flat_intersect hg (flat_carrier s)) s
    · rw [segment_intersect_segment]
      -- The first trim may leave a segment, so that the second one is no trim of a flat figure.
      have htrim := not_degenerate_trim (flat_intersect (flat_carrier t) (flat_carrier s)) s
      by_cases hd : t.Degenerate
      · rw [trim_of_degenerate _ hd]
        exact htrim
      · rw [trim_of_not_degenerate _ hd]
        exact not_degenerate_clip htrim (mt degenerate_oriented.1 hd)

theorem closed_not_degenerate : Closed fun f : Figure α => ¬f.Degenerate where
  intersect _ _ := not_degenerate_intersect _ _
  shift dx dy _ := not_degenerate_shift _ dx dy

end Figure

namespace Expr

theorem upholds_evaluate_canonical (e : Expr α) {env : Env α}
    (henv : env.All fun f => ¬f.Degenerate) :
    (e.canonical.evaluate env).Upholds (fun f => ¬f.Degenerate) fun f => ¬f.Degenerate := by
  apply upholds_evaluate Figure.closed_not_degenerate _ henv
  intro f hf
  rw [literals_canonical] at hf
  obtain ⟨g, -, rfl⟩ := List.mem_map.1 hf
  exact Figure.not_degenerate_canonical g

/-- In binary64, evaluating a canonical program binds and returns no degenerate segment if its
environment holds none. A whole program returns none, and no intersection is one. -/
theorem not_degenerate_at_run_time (e : Expr Float) :
    (∀ env : Env Float, (env.All fun f => ¬f.Degenerate) →
      (∀ name value, .bind name value ∈ e.canonical.log env → ¬value.Degenerate) ∧
        ∀ f, e.canonical.eval env = .ok f → ¬f.Degenerate) ∧
      (∀ f, e.run = .ok f → ¬f.Degenerate) ∧
      ∀ f g : Figure Float, ¬(f.intersect g).Degenerate := by
  refine ⟨?_, ?_, Figure.not_degenerate_intersect⟩
  · intro env henv
    have h := e.upholds_evaluate_canonical henv
    exact ⟨h.binds, h.result⟩
  · exact (e.upholds_evaluate_canonical Env.all_empty).result

/-- A program that binds the overlap of a segment of its environment with a literal one. -/
theorem not_degenerate_at_run_time_overlap :
    let e : Expr Float := letIn "p"
      (intersect (var "s") (literal (.segment ⟨⟨2, 1⟩, ⟨1, 0.5⟩⟩))) (shift 0.1 0 (var "p"))
    let env : Env Float := Env.ofBindings [("s", .segment ⟨⟨0, 0⟩, ⟨1.5, 0.75⟩⟩)]
    let value : Figure Float := .segment ⟨⟨1, 0.5⟩, ⟨1.5, 0.75⟩⟩
    (env.All fun f => ¬f.Degenerate) ∧ .bind "p" value ∈ e.canonical.log env ∧
      e.canonical.eval env = .ok (value.shift 0.1 0) ∧
      ¬value.Degenerate ∧ ¬(value.shift 0.1 0).Degenerate := by
  intro e env value
  have henv : env.All fun f => ¬f.Degenerate := by decide +kernel
  have hbind : .bind "p" value ∈ e.canonical.log env :=
    List.mem_of_getElem? (i := 7) (by decide +kernel)
  have hresult : e.canonical.eval env = .ok (value.shift 0.1 0) := by decide +kernel
  have h := (not_degenerate_at_run_time e).1 env henv
  exact ⟨henv, hbind, hresult, h.1 "p" value hbind, h.2 _ hresult⟩

end Expr

end PlaneFigures
