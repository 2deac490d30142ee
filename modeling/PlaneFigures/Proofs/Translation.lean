import Mathlib.Tactic.FieldSimp
import Mathlib.Tactic.Ring
import PlaneFigures.Proofs.Exact
import PlaneFigures.Proofs.Recorder

/-!
# Translation

Over the rationals every step of an intersection commutes with a shift of the plane, because each
tolerance test looks at differences of coordinates only. The one exception is the comparison of
intercepts, whose difference changes with the shift unless the two slopes are equal; hence the
condition on the slopes that an intersection compares. Shifting collapses a segment that has
become degenerate, and this never happens to the segments that an intersection yields.
-/

namespace PlaneFigures

/-- If the test compares two slopes, they are equal or not close. -/
def Test.SlopesApart : Test ℚ → Prop
  | .slopes m n => m = n ∨ ¬Close m n
  | _ => True

instance (t : Test ℚ) : Decidable t.SlopesApart :=
  match t with
  | .slopes m n => inferInstanceAs (Decidable (m = n ∨ ¬Close m n))
  | .coordinates _ _ => inferInstanceAs (Decidable True)
  | .range _ _ _ => inferInstanceAs (Decidable True)

variable {dx dy : ℚ}

theorem close_add_right {a b d : ℚ} : Close (a + d) (b + d) ↔ Close a b := by
  rw [close_iff, close_iff, add_sub_add_right_eq_sub]

theorem within_add_right {v a b d : ℚ} : Within (v + d) (a + d) (b + d) ↔ Within v a b := by
  rw [within_iff, within_iff, min_add_add_right, max_add_add_right]
  constructor
  · intro hw
    obtain ⟨hl, hu⟩ := hw
    constructor <;> linarith
  · intro hw
    obtain ⟨hl, hu⟩ := hw
    constructor <;> linarith

theorem Point.close_shift {p q : Point ℚ} : (p.shift dx dy).Close (q.shift dx dy) ↔ p.Close q :=
  and_congr close_add_right close_add_right

theorem Axis.coord_shift (axis : Axis) (p : Point ℚ) :
    axis.coord (p.shift dx dy) = axis.coord p + axis.coord ⟨dx, dy⟩ := by
  cases axis <;> rfl

namespace Segment

variable (s t : Segment ℚ)

theorem degenerate_shift : (s.shift dx dy).Degenerate ↔ s.Degenerate := Point.close_shift

theorem upright_shift : (s.shift dx dy).Upright ↔ s.Upright := close_add_right

theorem backward_shift : (s.shift dx dy).Backward ↔ s.Backward := by
  by_cases hu : s.Upright
  · rw [Backward, Backward, if_pos hu, if_pos (s.upright_shift.2 hu)]
    exact add_lt_add_iff_right dy
  · rw [Backward, Backward, if_neg hu, if_neg (mt s.upright_shift.1 hu)]
    exact add_lt_add_iff_right dx

theorem oriented_shift : (s.shift dx dy).oriented = s.oriented.shift dx dy := by
  by_cases hb : s.Backward
  · rw [oriented, oriented, if_pos hb, if_pos (s.backward_shift.2 hb)]
    rfl
  · rw [oriented, oriented, if_neg hb, if_neg (mt s.backward_shift.1 hb)]

theorem axis_shift : (s.shift dx dy).axis = s.axis := by
  by_cases hu : s.Upright
  · rw [axis, axis, if_pos hu, if_pos (s.upright_shift.2 hu)]
  · rw [axis, axis, if_neg hu, if_neg (mt s.upright_shift.1 hu)]

theorem throughEnds_shift :
    Figure.throughEnds (s.shift dx dy) = (Figure.throughEnds s).shift dx dy := by
  by_cases hu : s.Upright
  · rw [Figure.throughEnds, Figure.throughEnds, if_pos hu, if_pos (s.upright_shift.2 hu)]
    rfl
  · rw [Figure.throughEnds, Figure.throughEnds, if_neg hu, if_neg (mt s.upright_shift.1 hu)]
    have hslope : (s.shift dx dy).stop.y - (s.shift dx dy).start.y = s.stop.y - s.start.y :=
      add_sub_add_right_eq_sub _ _ _
    have hrun : (s.shift dx dy).stop.x - (s.shift dx dy).start.x = s.stop.x - s.start.x :=
      add_sub_add_right_eq_sub _ _ _
    simp only [Figure.shift, hslope, hrun, Figure.line.injEq, true_and]
    simp only [shift, Point.shift]
    ring

theorem ascending_shift (axis : Axis) :
    (s.shift dx dy).ascending axis = (s.ascending axis).shift dx dy := by
  have hle : axis.coord (s.shift dx dy).start ≤ axis.coord (s.shift dx dy).stop ↔
      axis.coord s.start ≤ axis.coord s.stop := by
    simp only [shift, Axis.coord_shift, add_le_add_iff_right]
  by_cases h : axis.coord s.start ≤ axis.coord s.stop
  · rw [ascending, ascending, if_pos h, if_pos (hle.2 h)]
  · rw [ascending, ascending, if_neg h, if_neg (mt hle.1 h)]
    rfl

theorem precedes_shift (axis : Axis) :
    (s.shift dx dy).Precedes axis (t.shift dx dy) ↔ s.Precedes axis t := by
  simp only [Precedes, shift, Axis.coord_shift, add_lt_add_iff_right, add_le_add_iff_right]

theorem boxHolds_shift (p : Point ℚ) :
    (s.shift dx dy).BoxHolds (p.shift dx dy) ↔ s.BoxHolds p :=
  and_congr within_add_right within_add_right

variable {s t}

theorem shift_of_not_degenerate (h : ¬s.Degenerate) :
    (Figure.segment s).shift dx dy = .segment (s.shift dx dy) :=
  if_neg (mt s.degenerate_shift.1 h)

theorem shared_shift (axis : Axis) (ht : ¬t.Degenerate) :
    shared axis (s.shift dx dy) (t.shift dx dy) = (shared axis s t).shift dx dy := by
  have htouch : Close (axis.coord (s.shift dx dy).stop) (axis.coord (t.shift dx dy).start) ↔
      Close (axis.coord s.stop) (axis.coord t.start) := by
    simp only [shift, Axis.coord_shift, close_add_right]
  have hapart : axis.coord (s.shift dx dy).stop < axis.coord (t.shift dx dy).start ↔
      axis.coord s.stop < axis.coord t.start := by
    simp only [shift, Axis.coord_shift, add_lt_add_iff_right]
  have hinside : axis.coord (t.shift dx dy).stop < axis.coord (s.shift dx dy).stop ↔
      axis.coord t.stop < axis.coord s.stop := by
    simp only [shift, Axis.coord_shift, add_lt_add_iff_right]
  simp only [shared, htouch, hapart, hinside]
  split_ifs with h₁ h₂ h₃
  · rfl
  · rfl
  · exact (shift_of_not_degenerate ht).symm
  · have hd : ¬(⟨t.start, s.stop⟩ : Segment ℚ).Degenerate := by
      intro hclose
      obtain ⟨hx, hy⟩ := hclose
      cases axis with
      | x => exact h₁ (close_comm.1 hx)
      | y => exact h₁ (close_comm.1 hy)
    exact (shift_of_not_degenerate hd).symm

theorem overlap_shift (hs : ¬s.Degenerate) (ht : ¬t.Degenerate) :
    (s.shift dx dy).overlap (t.shift dx dy) = (s.overlap t).shift dx dy := by
  simp only [overlap, axis_shift, ascending_shift, precedes_shift]
  split_ifs with hp
  · exact shared_shift s.axis (mt degenerate_ascending.1 ht)
  · exact shared_shift s.axis (mt degenerate_ascending.1 hs)

theorem carrier_shift : (s.shift dx dy).carrier = s.carrier.shift dx dy := by
  by_cases hd : s.Degenerate
  · rw [carrier_of_degenerate hd, carrier_of_degenerate (s.degenerate_shift.2 hd)]
    rfl
  · rw [carrier_of_not_degenerate hd, carrier_of_not_degenerate (mt s.degenerate_shift.1 hd),
      oriented_shift, throughEnds_shift]

end Segment

namespace Figure

open Segment
open Recorder (tests)

theorem flat_shift {f : Figure ℚ} (hf : f.Flat) : (f.shift dx dy).Flat := by
  cases f with
  | segment s => cases hf
  | _ => rfl

theorem clip_shift {f : Figure ℚ} (hf : ¬f.Degenerate) {s : Segment ℚ} (hs : ¬s.Degenerate) :
    (f.shift dx dy).clip (s.shift dx dy) = (f.clip s).shift dx dy := by
  cases f with
  | empty => rfl
  | point p =>
    by_cases hb : s.BoxHolds p
    · simp only [clip, shift, if_pos hb, if_pos ((s.boxHolds_shift p).2 hb)]
    · simp only [clip, shift, if_neg hb, if_neg (mt (s.boxHolds_shift p).1 hb)]
  | line m b => exact (shift_of_not_degenerate hs).symm
  | vertical x => exact (shift_of_not_degenerate hs).symm
  | segment t =>
    rw [shift_of_not_degenerate hf]
    exact overlap_shift hf hs

theorem trim_shift {f : Figure ℚ} (hf : ¬f.Degenerate) (s : Segment ℚ) :
    (f.shift dx dy).trim (s.shift dx dy) = (f.trim s).shift dx dy := by
  by_cases hd : s.Degenerate
  · rw [trim_of_degenerate _ hd, trim_of_degenerate _ (s.degenerate_shift.2 hd)]
  · rw [trim_of_not_degenerate _ hd, trim_of_not_degenerate _ (mt s.degenerate_shift.1 hd),
      oriented_shift, clip_shift hf (mt degenerate_oriented.1 hd)]

theorem pointOnLine_shift (p : Point ℚ) (m b : ℚ) :
    pointOnLine (p.shift dx dy) m (b + dy - m * dx) = (pointOnLine p m b).shift dx dy := by
  have hline : m * (p.x + dx) + (b + dy - m * dx) = m * p.x + b + dy := by ring
  have hon : PlaneFigures.Close (p.shift dx dy).y (m * (p.shift dx dy).x + (b + dy - m * dx)) ↔
      PlaneFigures.Close p.y (m * p.x + b) := by
    refine Iff.trans ?_ (close_add_right (d := dy))
    rw [← hline]
    rfl
  by_cases h : PlaneFigures.Close p.y (m * p.x + b)
  · rw [pointOnLine, pointOnLine, if_pos h, if_pos (hon.2 h)]
    rfl
  · rw [pointOnLine, pointOnLine, if_neg h, if_neg (mt hon.1 h)]
    rfl

theorem pointOnVertical_shift (p : Point ℚ) (x : ℚ) :
    pointOnVertical (p.shift dx dy) (x + dx) = (pointOnVertical p x).shift dx dy := by
  have hon : PlaneFigures.Close (p.shift dx dy).x (x + dx) ↔ PlaneFigures.Close p.x x :=
    close_add_right
  by_cases h : PlaneFigures.Close p.x x
  · rw [pointOnVertical, pointOnVertical, if_pos h, if_pos (hon.2 h)]
    rfl
  · rw [pointOnVertical, pointOnVertical, if_neg h, if_neg (mt hon.1 h)]
    rfl

theorem lineWithLine_shift {m n : ℚ} (b c : ℚ) (h : m = n ∨ ¬PlaneFigures.Close m n) :
    lineWithLine m (b + dy - m * dx) n (c + dy - n * dx) =
      (lineWithLine m b n c).shift dx dy := by
  by_cases hc : PlaneFigures.Close m n
  · have hmn := h.resolve_right (not_not_intro hc)
    subst hmn
    have hint : PlaneFigures.Close (b + dy - m * dx) (c + dy - m * dx) ↔
        PlaneFigures.Close b c := by
      rw [add_sub_assoc, add_sub_assoc, close_add_right]
    by_cases hb : PlaneFigures.Close b c
    · rw [lineWithLine, lineWithLine, if_pos hc, if_pos hc, if_pos hb, if_pos (hint.2 hb)]
      rfl
    · rw [lineWithLine, lineWithLine, if_pos hc, if_pos hc, if_neg hb, if_neg (mt hint.1 hb)]
      rfl
  · have hmn : m - n ≠ 0 := sub_ne_zero.2 (ne_of_not_close hc)
    have hx : (c + dy - n * dx - (b + dy - m * dx)) / (m - n) = (c - b) / (m - n) + dx := by
      field_simp
      ring
    rw [lineWithLine, lineWithLine, if_neg hc, if_neg hc]
    simp only [shift, Point.shift, point.injEq, Point.mk.injEq]
    refine ⟨hx, ?_⟩
    have hy : m * ((c - b) / (m - n) + dx) + (b + dy - m * dx) =
        m * ((c - b) / (m - n)) + b + dy := by ring
    rw [← hy, ← hx]

theorem crossing_shift (m b x : ℚ) :
    point ⟨x + dx, m * (x + dx) + (b + dy - m * dx)⟩ =
      (point ⟨x, m * x + b⟩).shift dx dy := by
  simp only [shift, Point.shift, point.injEq, Point.mk.injEq, true_and]
  ring

theorem intersect_shift_of_flat {f g : Figure ℚ} (hf : f.Flat) (hg : g.Flat)
    (h : ∀ t ∈ (tests.flat f g).entries, t.SlopesApart) :
    (f.shift dx dy).intersect (g.shift dx dy) = (f.intersect g).shift dx dy := by
  induction hf, hg using Flat.pair_cases with
  | empty_left g hg => simp only [shift, empty_intersect]
  | empty_right f hf => simp only [shift, intersect_empty]
  | point_point p q =>
    by_cases hc : q.Close p
    · simp only [shift, point_intersect_point, Point.close_shift, if_pos hc]
    · simp only [shift, point_intersect_point, Point.close_shift, if_neg hc]
  | point_line p m b =>
    simp only [shift, point_intersect_line]
    exact pointOnLine_shift p m b
  | line_point m b p =>
    simp only [shift, line_intersect_point]
    exact pointOnLine_shift p m b
  | point_vertical p x =>
    simp only [shift, point_intersect_vertical]
    exact pointOnVertical_shift p x
  | vertical_point x p =>
    simp only [shift, vertical_intersect_point]
    exact pointOnVertical_shift p x
  | line_line m b n c =>
    simp only [shift, line_intersect_line]
    exact lineWithLine_shift b c (h (.slopes m n) List.mem_cons_self)
  | line_vertical m b x =>
    simp only [shift, line_intersect_vertical]
    exact crossing_shift m b x
  | vertical_line x m b =>
    simp only [shift, vertical_intersect_line]
    exact crossing_shift m b x
  | vertical_vertical x y =>
    by_cases hc : PlaneFigures.Close x y
    · simp only [shift, vertical_intersect_vertical, close_add_right, if_pos hc]
    · simp only [shift, vertical_intersect_vertical, close_add_right, if_neg hc]

/-- Intersecting commutes with every shift of the plane, for results of every kind. -/
theorem intersect_shift (dx dy : ℚ) (f g : Figure ℚ) (hf : ¬f.Degenerate) (hg : ¬g.Degenerate)
    (h : ∀ t ∈ (f.probe g).entries, t.SlopesApart) :
    (f.shift dx dy).intersect (g.shift dx dy) = (f.intersect g).shift dx dy := by
  rw [probe] at h
  induction f, g using operand_cases with
  | empty_right f => simp [shift]
  | flat_flat f g hflat hflat' =>
    rw [tests.intersect_of_flat hflat hflat'] at h
    exact intersect_shift_of_flat hflat hflat' h
  | flat_segment f t hflat =>
    rw [tests.intersect_segment_of_flat hflat] at h
    have hapart : ∀ e ∈ (tests.flat f t.carrier).entries, e.SlopesApart :=
      fun e he => h e (tests.mem_entries_meetSegment he)
    have hmeet := flat_intersect hflat (flat_carrier t)
    rw [shift_of_not_degenerate hg, intersect_segment_eq_trim, carrier_shift,
      intersect_shift_of_flat hflat (flat_carrier t) hapart,
      trim_shift (not_degenerate_of_flat hmeet), intersect_segment_eq_trim]
  | segment_flat s g hflat' hne =>
    rw [tests.segment_intersect_of_flat s hflat' hne] at h
    have hapart : ∀ e ∈ (tests.flat g s.carrier).entries, e.SlopesApart :=
      fun e he => h e (tests.mem_entries_meetSegment he)
    have hmeet := flat_intersect hflat' (flat_carrier s)
    rw [shift_of_not_degenerate hf, segment_intersect_eq_trim _ (flat_shift hflat'),
      carrier_shift, intersect_shift_of_flat hflat' (flat_carrier s) hapart,
      trim_shift (not_degenerate_of_flat hmeet), segment_intersect_eq_trim _ hflat']
  | segment_segment s t =>
    rw [tests.segment_intersect_segment] at h
    have hapart : ∀ e ∈ (tests.flat t.carrier s.carrier).entries, e.SlopesApart :=
      fun e he => h e (tests.mem_entries_meetSegment (tests.mem_entries_meetSegment he))
    have hmeet := flat_intersect (flat_carrier t) (flat_carrier s)
    rw [shift_of_not_degenerate hf, shift_of_not_degenerate hg, segment_intersect_segment,
      carrier_shift, carrier_shift,
      intersect_shift_of_flat (flat_carrier t) (flat_carrier s) hapart,
      trim_shift (not_degenerate_of_flat hmeet), trim_shift (not_degenerate_trim hmeet s),
      segment_intersect_segment]

/-- Two segments that overlap on a line, moved to the left and upwards. -/
theorem intersect_shift_collinear :
    ¬(segment ⟨⟨4, 8⟩, ⟨0, 0⟩⟩ : Figure ℚ).Degenerate ∧
      ¬(segment ⟨⟨1, 2⟩, ⟨6, 12⟩⟩ : Figure ℚ).Degenerate ∧
      ((segment ⟨⟨4, 8⟩, ⟨0, 0⟩⟩).shift (-7 / 2) 3).intersect
          ((segment ⟨⟨1, 2⟩, ⟨6, 12⟩⟩).shift (-7 / 2) 3) =
        ((segment ⟨⟨4, 8⟩, ⟨0, 0⟩⟩).intersect (segment ⟨⟨1, 2⟩, ⟨6, 12⟩⟩)).shift
          (-7 / 2) (3 : ℚ) := by
  have hs : ¬(⟨⟨4, 8⟩, ⟨0, 0⟩⟩ : Segment ℚ).Degenerate := by decide +kernel
  have ht : ¬(⟨⟨1, 2⟩, ⟨6, 12⟩⟩ : Segment ℚ).Degenerate := by decide +kernel
  have h : ∀ t ∈ ((segment ⟨⟨4, 8⟩, ⟨0, 0⟩⟩).probe (segment ⟨⟨1, 2⟩, ⟨6, 12⟩⟩)).entries,
      t.SlopesApart := by
    decide +kernel
  exact ⟨hs, ht, intersect_shift (-7 / 2) 3 _ _ hs ht h⟩

end Figure

end PlaneFigures
