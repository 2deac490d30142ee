import PlaneFigures.Figure
import PlaneFigures.Proofs.Incidence
import PlaneFigures.Proofs.PointSet

/-!
# Membership

Two readings of "a point of a figure" agree over the rationals. One is the point set of the figure,
from which points are drawn by a parameter. The other is the intersection, which keeps a point that
passes the tolerance tests of the figure. Every point of the point set passes them, whether its
segment is sloped, nearly upright or degenerate: it lies exactly on the line of a sloped segment,
and along an axis on which two ends are close it is between them and hence close to both.
-/

namespace PlaneFigures

theorem close_left_of_between {a b v : ℚ} (h : Close a b) (hv : min a b ≤ v ∧ v ≤ max a b) :
    Close a v := by
  rw [close_iff_bounds] at h ⊢
  rcases le_total a b with hab | hab
  · rw [min_eq_left hab, max_eq_right hab] at hv
    constructor <;> linarith
  · rw [min_eq_right hab, max_eq_left hab] at hv
    constructor <;> linarith

theorem within_of_between {a b v : ℚ} (hv : min a b ≤ v ∧ v ≤ max a b) : Within v a b := by
  rw [within_iff]
  constructor <;> linarith

namespace Figure

theorem intersect_eq_point_of_holds {α : Type} [Scalar α] {f : Figure α} {p : Point α}
    (h : f.Holds p) : (point p).intersect f = point p := by
  rcases f.flat_or_segment with hf | ⟨s, rfl⟩
  · exact intersect_of_holds hf h
  · obtain ⟨hcarrier, hbox⟩ := holds_segment.1 h
    rw [intersect_segment_eq_trim, intersect_of_holds (flat_carrier s) hcarrier, trim_point,
      if_pos hbox]

end Figure

namespace Segment

variable {s : Segment ℚ} {p : Point ℚ}

theorem boxHolds_of_mem (h : p ∈ (Figure.segment s).points) : s.BoxHolds p := by
  obtain ⟨hx, hy⟩ := points_segment_box h
  exact ⟨within_of_between hx, within_of_between hy⟩

theorem throughEnds_holds_of_mem (h : p ∈ (Figure.segment s).points) :
    (Figure.throughEnds s).Holds p := by
  by_cases hu : s.Upright
  · rw [Figure.throughEnds, if_pos hu, Figure.holds_vertical]
    exact close_comm.1 (close_left_of_between hu (points_segment_box h).1)
  · obtain ⟨t, -, hx, hy⟩ := Figure.mem_points_segment.1 h
    have hne : s.stop.x - s.start.x ≠ 0 := sub_ne_zero.2 (ne_of_not_close hu).symm
    have hline : p.y = (s.stop.y - s.start.y) / (s.stop.x - s.start.x) * p.x +
        (s.start.y - (s.stop.y - s.start.y) / (s.stop.x - s.start.x) * s.start.x) := by
      rw [hx, hy]
      field_simp
      ring
    rw [Figure.throughEnds, if_neg hu, Figure.holds_line, ← hline]
    exact close_refl p.y

theorem holds_of_mem (h : p ∈ (Figure.segment s).points) : (Figure.segment s).Holds p := by
  rw [Figure.holds_segment]
  by_cases hd : s.Degenerate
  · obtain ⟨hx, hy⟩ := points_segment_box h
    rw [carrier_of_degenerate hd, Figure.holds_point]
    exact ⟨⟨close_left_of_between hd.1 hx, close_left_of_between hd.2 hy⟩, Or.inl hd⟩
  · rw [← Figure.points_segment_oriented] at h
    rw [carrier_of_not_degenerate hd]
    exact ⟨throughEnds_holds_of_mem h, Or.inr (boxHolds_of_mem h)⟩

end Segment

namespace Figure

theorem holds_of_mem_points {f : Figure ℚ} {p : Point ℚ} (h : p ∈ f.points) : f.Holds p := by
  cases f with
  | empty => exact h.elim
  | point q =>
    obtain rfl : p = q := h
    exact holds_point.2 p.close_refl
  | line m b =>
    rw [holds_line, ← mem_points_line.1 h]
    exact PlaneFigures.close_refl p.y
  | vertical x =>
    rw [holds_vertical, ← mem_points_vertical.1 h]
    exact PlaneFigures.close_refl p.x
  | segment s => exact Segment.holds_of_mem h

theorem lerp_mem_points (s : Segment ℚ) {t : ℚ} (ht : 0 ≤ t ∧ t ≤ 1) :
    s.start.lerp s.stop t ∈ (segment s).points := by
  refine mem_points_segment.2 ⟨t, ht, ?_, ?_⟩
  · change s.start.x + (s.stop.x - s.start.x) * t = _
    rw [mul_comm]
  · change s.start.y + (s.stop.y - s.start.y) * t = _
    rw [mul_comm]

theorem exists_drawn_mem_points {f : Figure ℚ} (hf : f ≠ empty) (x : ℚ) {t : ℚ}
    (ht : 0 ≤ t ∧ t ≤ 1) : ∃ p ∈ f.points, Id.run (f.pointOn? (pure x) (pure t)) = some p := by
  cases f with
  | empty => exact absurd rfl hf
  | point p => exact ⟨p, rfl, rfl⟩
  | line m b => exact ⟨⟨x, m * x + b⟩, rfl, rfl⟩
  | vertical c => exact ⟨⟨c, x⟩, rfl, rfl⟩
  | segment s => exact ⟨_, lerp_mem_points s ht, rfl⟩

/-- For any coordinate and any fraction from zero to one, a point is drawn on every figure but the
empty one, and the intersection with the figure keeps it exactly as it was drawn. -/
theorem intersect_drawn_point (f : Figure ℚ) (x t : ℚ) (ht : 0 ≤ t ∧ t ≤ 1) :
    (Id.run (f.pointOn? (pure x) (pure t)) = none ↔ f = empty) ∧
      (f ≠ empty → ∃ p, Id.run (f.pointOn? (pure x) (pure t)) = some p ∧
        (point p).intersect f = point p) := by
  refine ⟨⟨?_, ?_⟩, ?_⟩
  · intro hnone
    by_contra hf
    obtain ⟨p, -, hp⟩ := exists_drawn_mem_points hf x ht
    rw [hp] at hnone
    cases hnone
  · rintro rfl
    rfl
  · intro hf
    obtain ⟨p, hmem, hp⟩ := exists_drawn_mem_points hf x ht
    exact ⟨p, hp, intersect_eq_point_of_holds (holds_of_mem_points hmem)⟩

/-- One third of the way down a nearly upright segment. -/
theorem intersect_drawn_point_nearly_upright :
    let s : Segment ℚ := ⟨⟨1, 5⟩, ⟨1 + 1 / 200000, -1⟩⟩
    Id.run ((segment s).pointOn? (pure 7) (pure (1 / 3))) = some ⟨1 + 1 / 600000, 3⟩ ∧
      (point ⟨1 + 1 / 600000, 3⟩).intersect (segment s) = point ⟨1 + 1 / 600000, 3⟩ := by
  intro s
  have hdraw : Id.run ((segment s).pointOn? (pure 7) (pure (1 / 3))) =
      some ⟨1 + 1 / 600000, 3⟩ := by
    decide +kernel
  obtain ⟨p, hp, hkept⟩ := (intersect_drawn_point (segment s) 7 (1 / 3) (by norm_num)).2 (by simp)
  rw [hdraw] at hp
  obtain rfl := Option.some.inj hp
  exact ⟨hdraw, hkept⟩

end Figure

end PlaneFigures
