import PlaneFigures.Proofs.Carrier

/-!
# Reversal

Over a scalar in which a difference has the same magnitude both ways, closeness is symmetric, and
neither being degenerate nor being upright depends on the direction in which a segment is
travelled. Both scalars of this library are of that kind, so that the facts below hold with and
without rounding. The kind of a carrier can then be read off the segment as it is given, and of two
close figures that are no segments the first is the intersection. Two segments of close lines share
what they overlap in.
-/

namespace PlaneFigures

/-- A scalar in which a difference has the same magnitude both ways. -/
class Scalar.Symmetric (α : Type) [Scalar α] : Prop where
  abs_sub_comm (a b : α) : Scalar.abs (a - b) = Scalar.abs (b - a)

theorem Segment.backward_iff {α : Type} [Scalar α] (s : Segment α) :
    s.Backward ↔ s.axis.coord s.stop < s.axis.coord s.start := by
  by_cases hu : s.Upright
  · simp only [Backward, axis, if_pos hu, Axis.coord_y]
  · simp only [Backward, axis, if_neg hu, Axis.coord_x]

variable {α : Type} [Scalar α] [Scalar.Symmetric α]

theorem close_comm {a b : α} : Close a b ↔ Close b a := by
  rw [Close, Close, Scalar.Symmetric.abs_sub_comm]

theorem Point.close_comm {p q : Point α} : p.Close q ↔ q.Close p :=
  and_congr PlaneFigures.close_comm PlaneFigures.close_comm

namespace Segment

theorem degenerate_reverse {s : Segment α} : s.reverse.Degenerate ↔ s.Degenerate :=
  Point.close_comm

theorem upright_reverse {s : Segment α} : s.reverse.Upright ↔ s.Upright :=
  PlaneFigures.close_comm

theorem degenerate_oriented {s : Segment α} : s.oriented.Degenerate ↔ s.Degenerate := by
  rw [oriented]
  split
  · exact degenerate_reverse
  · exact Iff.rfl

theorem upright_oriented {s : Segment α} : s.oriented.Upright ↔ s.Upright := by
  rw [oriented]
  split
  · exact upright_reverse
  · exact Iff.rfl

theorem axis_oriented (s : Segment α) : s.oriented.axis = s.axis := by
  by_cases hu : s.Upright
  · rw [axis, axis, if_pos hu, if_pos (upright_oriented.2 hu)]
  · rw [axis, axis, if_neg hu, if_neg (mt upright_oriented.1 hu)]

theorem degenerate_ascending {s : Segment α} {axis : Axis} :
    (s.ascending axis).Degenerate ↔ s.Degenerate := by
  rw [ascending]
  split
  · exact Iff.rfl
  · exact degenerate_reverse

end Segment

open Segment

theorem kind_carrier (s : Segment α) :
    s.carrier.kind = if s.Degenerate then .point else if s.Upright then .vertical else .line := by
  by_cases hd : s.Degenerate
  · rw [s.carrier_of_degenerate hd, if_pos hd]
    rfl
  · rw [s.carrier_of_not_degenerate hd, if_neg hd, Figure.throughEnds]
    by_cases hu : s.Upright
    · rw [if_pos (upright_oriented.2 hu), if_pos hu]
      rfl
    · rw [if_neg (mt upright_oriented.1 hu), if_neg hu]
      rfl

namespace Figure

theorem not_degenerate_trim {f : Figure α} (hf : f.Flat) (s : Segment α) :
    ¬(f.trim s).Degenerate := by
  cases h : f.trim s with
  | segment t =>
    obtain ⟨hd, rfl⟩ := eq_oriented_of_trim_eq_segment hf h
    exact mt degenerate_oriented.1 hd
  | _ => exact id

theorem close_symm {f g : Figure α} (h : f.Close g) : g.Close f := by
  cases f with
  | empty =>
    cases g with
    | empty => trivial
    | _ => exact h.elim
  | point p =>
    cases g with
    | point q => exact Point.close_comm.1 h
    | _ => exact h.elim
  | line m b =>
    cases g with
    | line n c => exact ⟨PlaneFigures.close_comm.1 h.1, PlaneFigures.close_comm.1 h.2⟩
    | _ => exact h.elim
  | vertical x =>
    cases g with
    | vertical y => exact PlaneFigures.close_comm.1 h
    | _ => exact h.elim
  | segment s =>
    cases g with
    | segment t => exact ⟨Point.close_comm.1 h.1, Point.close_comm.1 h.2⟩
    | _ => exact h.elim

theorem intersect_eq_left {f g : Figure α} (hf : f.Flat) (h : f.Close g) :
    f.intersect g = f := by
  cases f with
  | segment s => cases hf
  | empty => exact empty_intersect g
  | point p =>
    cases g with
    | point q =>
      have hqp : q.Close p := Point.close_comm.1 h
      rw [point_intersect_point, if_pos hqp]
    | _ => exact h.elim
  | line m b =>
    cases g with
    | line n c => rw [line_intersect_line, lineWithLine, if_pos h.1, if_pos h.2]
    | _ => exact h.elim
  | vertical x =>
    cases g with
    | vertical y =>
      have hxy : PlaneFigures.Close x y := h
      rw [vertical_intersect_vertical, if_pos hxy]
    | _ => exact h.elim

theorem segment_intersect_segment_of_close {s t : Segment α} (hs : ¬s.Degenerate)
    (ht : ¬t.Degenerate) (h : s.carrier.Close t.carrier) :
    (segment s).intersect (segment t) = s.oriented.overlap t.oriented := by
  rw [segment_intersect_segment, intersect_eq_left (flat_carrier t) (close_symm h),
    trim_carrier hs ht, trim_of_not_degenerate _ ht, clip]

end Figure

end PlaneFigures
