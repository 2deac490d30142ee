import PlaneFigures.Expr
import PlaneFigures.Proofs.Extent

/-!
# Orientation of finite segments

The canonical form of a segment is chosen by two tests of different sharpness: closeness of the
abscissas picks the axis, and an exact comparison along that axis picks the direction. On finite
segments the two never leave a doubt. The ends of a segment that is not degenerate are not close
along its axis, hence not equal there, and the oriented segment ascends strictly, whichever way it
was given. Canonical forms are fixed by the canonical form, for figures and for programs; this needs
no finite coordinates.
-/

namespace PlaneFigures

open Binary64

theorem Expr.canonical_canonical {α : Type} [Scalar α] [Scalar.Symmetric α]
    [Std.Asymm (α := α) (· < ·)] (e : Expr α) : e.canonical.canonical = e.canonical := by
  induction e with
  | literal f => rw [canonical, canonical, Figure.canonical_canonical]
  | intersect left right ihl ihr => rw [canonical, canonical, ihl, ihr]
  | letIn name bound body ihb ihe => rw [canonical, canonical, ihb, ihe]
  | var name => rfl
  | shift dx dy target ih => rw [canonical, canonical, ih]

def Point.Finite (p : Point Float) : Prop := p.x.isFinite = true ∧ p.y.isFinite = true

instance (p : Point Float) : Decidable p.Finite := inferInstanceAs (Decidable (_ ∧ _))

theorem Point.Finite.coord {p : Point Float} (h : p.Finite) (axis : Axis) :
    (axis.coord p).isFinite = true := by
  cases axis with
  | x => exact h.1
  | y => exact h.2

namespace Segment

def Finite (s : Segment Float) : Prop := s.start.Finite ∧ s.stop.Finite

instance (s : Segment Float) : Decidable s.Finite := inferInstanceAs (Decidable (_ ∧ _))

variable {s : Segment Float}

theorem Finite.numeric (h : s.Finite) : s.Numeric := by
  have hnum {p : Point Float} (hp : p.Finite) : p.x.isNaN = false ∧ p.y.isNaN = false :=
    ⟨isNaN_of_isFinite hp.1, isNaN_of_isFinite hp.2⟩
  intro p hp
  rcases List.mem_pair.1 hp with rfl | rfl
  · exact hnum h.1
  · exact hnum h.2

theorem Finite.reverse (h : s.Finite) : s.reverse.Finite := ⟨h.2, h.1⟩

theorem Finite.oriented (h : s.Finite) : s.oriented.Finite := by
  rw [Segment.oriented]
  split
  · exact h.reverse
  · exact h

theorem oriented_eq_ascending (hs : s.Numeric) : s.oriented = s.ascending s.axis := by
  have hle := Binary64.not_lt (hs.stop s.axis) (hs.start s.axis)
  rw [oriented, ascending, ← if_congr hle rfl rfl, ite_not]
  exact if_congr s.backward_iff rfl rfl

theorem ascends_oriented (hs : s.Numeric) (hd : ¬s.Degenerate) : s.oriented.Ascends s.axis := by
  rw [oriented_eq_ascending hs]
  exact ascends_ascending hs (extends_axis hd)

theorem oriented_lt (hs : s.Finite) (hd : ¬s.Degenerate) :
    s.axis.coord s.oriented.start < s.axis.coord s.oriented.stop := by
  have hascends := ascends_oriented hs.numeric hd
  exact lt_of_not_close (hs.oriented.1.coord _) (hs.oriented.2.coord _)
    (mt close_comm.1 hascends.not_close) hascends.le

theorem oriented_lt_of_upright (hs : s.Finite) (hd : ¬s.Degenerate) (hu : s.Upright) :
    s.oriented.start.y < s.oriented.stop.y := by
  have haxis : s.axis = .y := if_pos hu
  have hlt := oriented_lt hs hd
  rw [haxis] at hlt
  exact hlt

theorem oriented_lt_of_not_upright (hs : s.Finite) (hu : ¬s.Upright) :
    s.oriented.start.x < s.oriented.stop.x := by
  have haxis : s.axis = .x := if_neg hu
  have hlt := oriented_lt hs fun hd => hu hd.1
  rw [haxis] at hlt
  exact hlt

theorem axis_reverse (s : Segment Float) : s.reverse.axis = s.axis :=
  if_congr upright_reverse rfl rfl

theorem oriented_reverse (hs : s.Finite) (hd : ¬s.Degenerate) :
    s.reverse.oriented = s.oriented := by
  have hlt := oriented_lt hs hd
  have hback : s.reverse.Backward ↔ s.axis.coord s.start < s.axis.coord s.stop := by
    rw [backward_iff, axis_reverse]
    exact Iff.rfl
  by_cases hb : s.Backward
  · have hnot : ¬s.reverse.Backward := mt hback.1 (Std.Asymm.asymm _ _ (s.backward_iff.1 hb))
    rw [oriented, oriented, if_pos hb, if_neg hnot]
  · rw [oriented, if_neg hb] at hlt
    rw [oriented, oriented, if_neg hb, if_pos (hback.2 hlt), reverse_reverse]

theorem oriented_eq_or (s : Segment Float) : s.oriented = s ∨ s.oriented = s.reverse := by
  rw [oriented]
  split
  · exact Or.inr rfl
  · exact Or.inl rfl

end Segment

namespace Figure

open Segment

/-- Canonical forms are fixed by the canonical form. On a finite segment it is the start if the ends
are close, and else the one direction of the segment that ascends strictly along its axis, so that
the direction in which the segment is given does not matter. -/
theorem canonical_form_binary64 :
    (∀ f : Figure Float, f.canonical.canonical = f.canonical) ∧
      (∀ e : Expr Float, e.canonical.canonical = e.canonical) ∧
      ∀ p q : Point Float, p.Finite → q.Finite →
        (p.Close q →
          (segment ⟨p, q⟩).canonical = point p ∧ (segment ⟨q, p⟩).canonical = point q ∧
            (segment ⟨p, q⟩).canonical.Close (segment ⟨q, p⟩).canonical) ∧
        (¬p.Close q →
          ∃ r : Segment Float, (segment ⟨p, q⟩).canonical = segment r ∧
            (segment ⟨q, p⟩).canonical = segment r ∧ (r = ⟨p, q⟩ ∨ r = ⟨q, p⟩) ∧
            (¬PlaneFigures.Close p.x q.x → r.start.x < r.stop.x) ∧
            (PlaneFigures.Close p.x q.x → r.start.y < r.stop.y)) := by
  refine ⟨canonical_canonical, Expr.canonical_canonical, ?_⟩
  intro p q hp hq
  constructor
  · intro hclose
    have hpq : (segment ⟨p, q⟩).canonical = point p := canonical_of_degenerate hclose
    have hqp : (segment ⟨q, p⟩).canonical = point q :=
      canonical_of_degenerate (Point.close_comm.1 hclose)
    refine ⟨hpq, hqp, ?_⟩
    rw [hpq, hqp]
    exact hclose
  · intro hclose
    have hfinite : (⟨p, q⟩ : Segment Float).Finite := ⟨hp, hq⟩
    have hd : ¬(⟨p, q⟩ : Segment Float).Degenerate := hclose
    have hd' : ¬(⟨q, p⟩ : Segment Float).Degenerate := mt Point.close_comm.1 hclose
    refine ⟨oriented ⟨p, q⟩, canonical_of_not_degenerate hd, ?_, oriented_eq_or _, ?_, ?_⟩
    · rw [← oriented_reverse hfinite hd]
      exact canonical_of_not_degenerate hd'
    · intro hx
      exact oriented_lt_of_not_upright hfinite hx
    · intro hx
      exact oriented_lt_of_upright hfinite hd hx

/-- A nearly upright segment that is travelled downwards and to the right, and two close points. -/
theorem canonical_form_binary64_nearly_upright :
    let p : Point Float := ⟨0.1, 3⟩
    let q : Point Float := ⟨0.100002, -1⟩
    let p' : Point Float := ⟨0.100001, 3⟩
    (p.Finite ∧ q.Finite ∧ p'.Finite ∧ ¬p.Close q ∧ PlaneFigures.Close p.x q.x ∧ p.Close p') ∧
      (∃ r : Segment Float, (segment ⟨p, q⟩).canonical = segment r ∧
        (segment ⟨q, p⟩).canonical = segment r ∧ (r = ⟨p, q⟩ ∨ r = ⟨q, p⟩) ∧
        r.start.y < r.stop.y) ∧
      (segment ⟨p, p'⟩).canonical = point p ∧ (segment ⟨p', p⟩).canonical = point p' ∧
      (segment ⟨p, p'⟩).canonical.Close (segment ⟨p', p⟩).canonical := by
  intro p q p'
  have hp : p.Finite := by decide +kernel
  have hq : q.Finite := by decide +kernel
  have hp' : p'.Finite := by decide +kernel
  have hapart : ¬p.Close q := by decide +kernel
  have hx : PlaneFigures.Close p.x q.x := by decide +kernel
  have hclose : p.Close p' := by decide +kernel
  obtain ⟨r, hpq, hqp, hr, -, hy⟩ := (canonical_form_binary64.2.2 p q hp hq).2 hapart
  exact ⟨⟨hp, hq, hp', hapart, hx, hclose⟩, ⟨r, hpq, hqp, hr, hy hx⟩,
    (canonical_form_binary64.2.2 p p' hp hp').1 hclose⟩

end Figure

end PlaneFigures
