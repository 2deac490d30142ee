import PlaneFigures.Proofs.Coextension

/-!
# Incidence

A figure holds a point if the point, intersected with the figure, is not lost. Over the rationals
a point in which two figures meet is held by both of them, with one exception. Where two segments of
close lines abut, they meet in the stop of the earlier one, which always holds it. Along the axis
the later segment comes back to that point up to the tolerance, but nothing bounds how far it passes
beside the point: the lines are compared by slope and intercept, and the two ends along the axis
only.
-/

namespace PlaneFigures

def Axis.across : Axis → Axis
  | .x => .y
  | .y => .x

section Holds

variable {α : Type} [Scalar α]

def Figure.Holds (f : Figure α) (p : Point α) : Prop := (Figure.point p).intersect f ≠ .empty

theorem Segment.boxHolds_iff (s : Segment α) (p : Point α) (axis : Axis) :
    s.BoxHolds p ↔ Within (axis.coord p) (axis.coord s.start) (axis.coord s.stop) ∧
      Within (axis.across.coord p) (axis.across.coord s.start) (axis.across.coord s.stop) := by
  cases axis with
  | x => exact Iff.rfl
  | y => exact and_comm

namespace Figure

theorem ite_point_ne_empty {β : Type} {c : Prop} [Decidable c] {p : Point β} :
    (if c then point p else empty) ≠ empty ↔ c := by
  split_ifs with h <;> simp [h]

theorem ite_point_eq_point {β : Type} {c : Prop} [Decidable c] {p q : Point β} :
    (if c then point q else empty) = point p ↔ c ∧ q = p := by
  split_ifs with h <;> simp [h]

theorem not_holds_empty (p : Point α) : ¬(empty : Figure α).Holds p := by
  rw [Holds, intersect_empty]
  exact fun h => h rfl

theorem holds_point {p q : Point α} : (point q).Holds p ↔ q.Close p := by
  rw [Holds, point_intersect_point, ite_point_ne_empty]

theorem holds_line {m b : α} {p : Point α} :
    (line m b).Holds p ↔ PlaneFigures.Close p.y (m * p.x + b) := by
  rw [Holds, point_intersect_line, pointOnLine, ite_point_ne_empty]

theorem holds_vertical {x : α} {p : Point α} :
    (vertical x).Holds p ↔ PlaneFigures.Close p.x x := by
  rw [Holds, point_intersect_vertical, pointOnVertical, ite_point_ne_empty]

theorem intersect_of_holds {f : Figure α} (hf : f.Flat) {p : Point α} (h : f.Holds p) :
    (point p).intersect f = point p := by
  cases f with
  | empty => exact absurd h (not_holds_empty p)
  | point q => rw [point_intersect_point, if_pos (holds_point.1 h)]
  | line m b => rw [point_intersect_line, pointOnLine, if_pos (holds_line.1 h)]
  | vertical x => rw [point_intersect_vertical, pointOnVertical, if_pos (holds_vertical.1 h)]
  | segment s => cases hf

theorem holds_segment {s : Segment α} {p : Point α} :
    (segment s).Holds p ↔ s.carrier.Holds p ∧ (s.Degenerate ∨ s.oriented.BoxHolds p) := by
  rw [Holds, intersect_segment_eq_trim]
  by_cases hc : s.carrier.Holds p
  · rw [intersect_of_holds (flat_carrier s) hc, trim_point, ite_point_ne_empty]
    exact (and_iff_right hc).symm
  · rw [not_not.1 hc, trim_empty]
    exact iff_of_false (fun h => h rfl) fun h => hc h.1

theorem eq_point_of_trim_eq_point {f : Figure α} (hf : f.Flat) {s : Segment α} {p : Point α}
    (h : f.trim s = point p) : f = point p ∧ (s.Degenerate ∨ s.oriented.BoxHolds p) := by
  cases f with
  | empty =>
    rw [trim_empty] at h
    cases h
  | point q =>
    rw [trim_point, ite_point_eq_point] at h
    obtain ⟨hbox, rfl⟩ := h
    exact ⟨rfl, hbox⟩
  | segment t => cases hf
  | _ =>
    by_cases hd : s.Degenerate
    · rw [trim_of_degenerate _ hd] at h
      cases h
    · rw [trim_of_not_degenerate _ hd] at h
      cases h

theorem Punctual.trim {f : Figure α} (hf : f.Punctual) (s : Segment α) : (f.trim s).Punctual := by
  rcases hf with rfl | ⟨p, rfl⟩
  · exact Or.inl (trim_empty s)
  · rw [trim_point]
    exact punctual_ite p

theorem Punctual.flat {β : Type} {f : Figure β} (hf : f.Punctual) : f.Flat := by
  rcases hf with rfl | ⟨p, rfl⟩ <;> rfl

end Figure

end Holds

namespace Segment

structure Abuts (s t : Segment ℚ) : Prop where
  left_not_degenerate : ¬s.Degenerate
  right_not_degenerate : ¬t.Degenerate
  lines_close : (Figure.throughEnds s.oriented).Close (Figure.throughEnds t.oriented)
  stop_close_start : Close (s.axis.coord s.oriented.stop) (s.axis.coord t.oriented.start)

/-- The line of the segment holds the point, and the segment does not pass beside it: its padded
range across its axis holds the point. -/
def Reaches (t : Segment ℚ) (p : Point ℚ) : Prop :=
  (Figure.throughEnds t.oriented).Holds p ∧
    Within (t.axis.across.coord p) (t.axis.across.coord t.oriented.start)
      (t.axis.across.coord t.oriented.stop)

theorem throughEnds_holds_stop (s : Segment ℚ) : (Figure.throughEnds s).Holds s.stop := by
  by_cases hu : s.Upright
  · rw [Figure.throughEnds, if_pos hu, Figure.holds_vertical]
    exact close_comm.1 hu
  · have hx : s.stop.x - s.start.x ≠ 0 := sub_ne_zero.2 (ne_of_not_close hu).symm
    have hy : s.stop.y = (s.stop.y - s.start.y) / (s.stop.x - s.start.x) * s.stop.x +
        (s.start.y - (s.stop.y - s.start.y) / (s.stop.x - s.start.x) * s.start.x) := by
      field_simp
      ring
    rw [Figure.throughEnds, if_neg hu, Figure.holds_line, ← hy]
    exact close_refl _

theorem holds_stop {s : Segment ℚ} (hd : ¬s.Degenerate) :
    (Figure.segment s).Holds s.oriented.stop := by
  rw [Figure.holds_segment, carrier_of_not_degenerate hd]
  exact ⟨throughEnds_holds_stop _, Or.inr ⟨within_right _ _, within_right _ _⟩⟩

theorem holds_iff_reaches {t : Segment ℚ} (hd : ¬t.Degenerate) (p : Point ℚ) :
    (Figure.segment t).Holds p ↔ t.Reaches p ∧
      Within (t.axis.coord p) (t.axis.coord t.oriented.start) (t.axis.coord t.oriented.stop) := by
  rw [Figure.holds_segment, carrier_of_not_degenerate hd, or_iff_right hd,
    boxHolds_iff _ _ t.axis, Reaches, and_assoc, and_comm (a := Within (t.axis.coord p) _ _)]

theorem Abuts.holds_iff {s t : Segment ℚ} (h : s.Abuts t) (haxis : s.axis = t.axis) :
    (Figure.segment t).Holds s.oriented.stop ↔ t.Reaches s.oriented.stop := by
  have htouch := h.stop_close_start
  rw [haxis] at htouch
  rw [holds_iff_reaches h.right_not_degenerate]
  exact and_iff_left (within_of_close htouch)

theorem Abuts.holds_stop_of_not_reaches {s t : Segment ℚ} (h : s.Abuts t)
    (hr : ¬t.Reaches s.oriented.stop) :
    (Figure.segment s).Holds s.oriented.stop ∧ ¬(Figure.segment t).Holds s.oriented.stop :=
  ⟨holds_stop h.left_not_degenerate,
    fun ht => hr ((holds_iff_reaches h.right_not_degenerate _).1 ht).1⟩

theorem shared_eq_point {axis : Axis} {s t : Segment ℚ} {p : Point ℚ}
    (h : shared axis s t = .point p) :
    Close (axis.coord s.stop) (axis.coord t.start) ∧ p = s.stop := by
  rw [shared] at h
  split_ifs at h with htouch
  exact ⟨htouch, (Figure.point.inj h).symm⟩

theorem abuts_of_overlap_eq_point {s t : Segment ℚ} (hs : ¬s.Degenerate) (ht : ¬t.Degenerate)
    (hc : (Figure.throughEnds s.oriented).Close (Figure.throughEnds t.oriented))
    (haxis : s.axis = t.axis) {p : Point ℚ} (h : s.oriented.overlap t.oriented = .point p) :
    s.Abuts t ∧ p = s.oriented.stop ∨ t.Abuts s ∧ p = t.oriented.stop := by
  rw [overlap_oriented haxis] at h
  split_ifs at h with hp
  · obtain ⟨htouch, rfl⟩ := shared_eq_point h
    exact Or.inl ⟨⟨hs, ht, hc, htouch⟩, rfl⟩
  · obtain ⟨htouch, rfl⟩ := shared_eq_point h
    rw [haxis] at htouch
    exact Or.inr ⟨⟨ht, hs, Figure.close_symm hc, htouch⟩, rfl⟩

end Segment

namespace Figure

open Segment

theorem lineWithLine_eq_point {m b n c : ℚ} {p : Point ℚ} (h : lineWithLine m b n c = point p) :
    ¬PlaneFigures.Close m n ∧ p.y = m * p.x + b := by
  rw [lineWithLine] at h
  split_ifs at h with hm
  cases h
  exact ⟨hm, rfl⟩

theorem holds_of_flat {f g : Figure ℚ} (hf : f.Flat) (hg : g.Flat) {p : Point ℚ}
    (h : f.intersect g = point p) : f.Holds p ∧ g.Holds p := by
  induction hf, hg using Flat.pair_cases with
  | empty_left g hg =>
    rw [empty_intersect] at h
    cases h
  | empty_right f hf =>
    rw [intersect_empty] at h
    cases h
  | point_point q r =>
    rw [point_intersect_point, ite_point_eq_point] at h
    obtain ⟨hc, rfl⟩ := h
    exact ⟨holds_point.2 q.close_refl, holds_point.2 hc⟩
  | point_line q m b =>
    rw [point_intersect_line, pointOnLine, ite_point_eq_point] at h
    obtain ⟨hc, rfl⟩ := h
    exact ⟨holds_point.2 q.close_refl, holds_line.2 hc⟩
  | line_point m b q =>
    rw [line_intersect_point, pointOnLine, ite_point_eq_point] at h
    obtain ⟨hc, rfl⟩ := h
    exact ⟨holds_line.2 hc, holds_point.2 q.close_refl⟩
  | point_vertical q x =>
    rw [point_intersect_vertical, pointOnVertical, ite_point_eq_point] at h
    obtain ⟨hc, rfl⟩ := h
    exact ⟨holds_point.2 q.close_refl, holds_vertical.2 hc⟩
  | vertical_point x q =>
    rw [vertical_intersect_point, pointOnVertical, ite_point_eq_point] at h
    obtain ⟨hc, rfl⟩ := h
    exact ⟨holds_vertical.2 hc, holds_point.2 q.close_refl⟩
  | line_line m b n c =>
    rw [line_intersect_line] at h
    obtain ⟨hm, hy⟩ := lineWithLine_eq_point h
    -- Solving the two lines in the other order gives the same crossing, read off the other line.
    rw [lineWithLine_comm b c hm] at h
    obtain ⟨-, hy'⟩ := lineWithLine_eq_point h
    rw [holds_line, holds_line, ← hy, ← hy']
    exact ⟨PlaneFigures.close_refl _, PlaneFigures.close_refl _⟩
  | line_vertical m b x =>
    rw [line_intersect_vertical] at h
    cases h
    exact ⟨holds_line.2 (PlaneFigures.close_refl _), holds_vertical.2 (PlaneFigures.close_refl _)⟩
  | vertical_line x m b =>
    rw [vertical_intersect_line] at h
    cases h
    exact ⟨holds_vertical.2 (PlaneFigures.close_refl _), holds_line.2 (PlaneFigures.close_refl _)⟩
  | vertical_vertical x y =>
    rw [vertical_intersect_vertical] at h
    split_ifs at h

theorem holds_of_trim {f : Figure ℚ} (hf : f.Flat) {s : Segment ℚ} {p : Point ℚ}
    (h : (f.intersect s.carrier).trim s = point p) : f.Holds p ∧ (segment s).Holds p := by
  obtain ⟨hmeet, hbox⟩ := eq_point_of_trim_eq_point (flat_intersect hf (flat_carrier s)) h
  obtain ⟨hheld, hcarrier⟩ := holds_of_flat hf (flat_carrier s) hmeet
  exact ⟨hheld, holds_segment.2 ⟨hcarrier, hbox⟩⟩

theorem holds_of_punctual {s t : Segment ℚ} (hc : (t.carrier.intersect s.carrier).Punctual)
    {p : Point ℚ} (h : (segment s).intersect (segment t) = point p) :
    (segment s).Holds p ∧ (segment t).Holds p := by
  rw [segment_intersect_segment] at h
  obtain ⟨htrim, ht⟩ := eq_point_of_trim_eq_point (hc.trim s).flat h
  obtain ⟨hmeet, hs⟩ := eq_point_of_trim_eq_point hc.flat htrim
  obtain ⟨htc, hsc⟩ := holds_of_flat (flat_carrier t) (flat_carrier s) hmeet
  exact ⟨holds_segment.2 ⟨hsc, hs⟩, holds_segment.2 ⟨htc, ht⟩⟩

theorem holds_or_abuts {s t : Segment ℚ} {p : Point ℚ}
    (h : (segment s).intersect (segment t) = point p) :
    ((segment s).Holds p ∧ (segment t).Holds p) ∨
      s.axis = t.axis ∧ (s.Abuts t ∧ p = s.oriented.stop ∨ t.Abuts s ∧ p = t.oriented.stop) := by
  by_cases hc : s.carrier.Close t.carrier
  · obtain ⟨hdeg, haxis⟩ := carrier_of_carrier_close hc
    by_cases hs : s.Degenerate
    · left
      apply holds_of_punctual _ h
      rw [carrier_of_degenerate hs, carrier_of_degenerate (hdeg.1 hs), point_intersect_point]
      exact punctual_ite _
    · have ht := mt hdeg.2 hs
      rw [segment_intersect_segment_of_close hs ht hc] at h
      rw [carrier_of_not_degenerate hs, carrier_of_not_degenerate ht] at hc
      exact Or.inr ⟨haxis hs, abuts_of_overlap_eq_point hs ht hc (haxis hs) h⟩
  · obtain ⟨hcomm, hpoint⟩ := intersect_comm_of_not_close (flat_carrier s) (flat_carrier t) hc
    rw [hcomm] at hpoint
    exact Or.inl (holds_of_punctual hpoint h)

theorem holds_or_misses {f g : Figure ℚ} {p : Point ℚ} (h : f.intersect g = point p) :
    (f.Holds p ∧ g.Holds p) ∨
      ∃ s t, (f = segment s ∧ g = segment t ∨ f = segment t ∧ g = segment s) ∧
        s.Abuts t ∧ p = s.oriented.stop ∧ ¬t.Reaches p := by
  rcases f.flat_or_segment with hf | ⟨s, rfl⟩
  · rcases g.flat_or_segment with hg | ⟨t, rfl⟩
    · exact Or.inl (holds_of_flat hf hg h)
    · rw [intersect_segment_eq_trim] at h
      exact Or.inl (holds_of_trim hf h)
  · rcases g.flat_or_segment with hg | ⟨t, rfl⟩
    · rw [segment_intersect_eq_trim s hg] at h
      exact Or.inl (holds_of_trim hg h).symm
    · rcases holds_or_abuts h with hboth | ⟨haxis, ⟨hst, rfl⟩ | ⟨hts, rfl⟩⟩
      · exact Or.inl hboth
      · by_cases hr : t.Reaches s.oriented.stop
        · exact Or.inl ⟨holds_stop hst.left_not_degenerate, (hst.holds_iff haxis).2 hr⟩
        · exact Or.inr ⟨s, t, Or.inl ⟨rfl, rfl⟩, hst, rfl, hr⟩
      · by_cases hr : s.Reaches t.oriented.stop
        · exact Or.inl ⟨(hts.holds_iff haxis.symm).2 hr, holds_stop hts.left_not_degenerate⟩
        · exact Or.inr ⟨t, s, Or.inr ⟨rfl, rfl⟩, hts, rfl, hr⟩

/-- A point in which two figures meet is held by one of them at least. It is held by both, unless
they are two segments that abut in it and the later one does not reach it across its axis. In that
case the earlier segment holds the point and the later one does not. -/
theorem holds_iff_of_intersect_eq_point (f g : Figure ℚ) (p : Point ℚ)
    (h : f.intersect g = point p) :
    (f.Holds p ∨ g.Holds p) ∧
      (f.Holds p ∧ g.Holds p ↔
        ¬∃ s t, (f = segment s ∧ g = segment t ∨ f = segment t ∧ g = segment s) ∧
          s.Abuts t ∧ p = s.oriented.stop ∧ ¬t.Reaches p) ∧
      ∀ s t, (f = segment s ∧ g = segment t ∨ f = segment t ∧ g = segment s) →
        s.Abuts t → p = s.oriented.stop → ¬t.Reaches p →
          (segment s).Holds p ∧ ¬(segment t).Holds p := by
  refine ⟨?_, ⟨?_, ?_⟩, ?_⟩
  · rcases holds_or_misses h with hboth | ⟨s, t, hpair, hst, rfl, hr⟩
    · exact Or.inl hboth.1
    · obtain ⟨hs, -⟩ := hst.holds_stop_of_not_reaches hr
      rcases hpair with ⟨rfl, rfl⟩ | ⟨rfl, rfl⟩
      · exact Or.inl hs
      · exact Or.inr hs
  · rintro ⟨hf, hg⟩ ⟨s, t, hpair, hst, rfl, hr⟩
    obtain ⟨-, ht⟩ := hst.holds_stop_of_not_reaches hr
    rcases hpair with ⟨rfl, rfl⟩ | ⟨rfl, rfl⟩
    · exact ht hg
    · exact ht hf
  · intro hno
    exact (holds_or_misses h).resolve_right hno
  · rintro s t - hst rfl hr
    exact hst.holds_stop_of_not_reaches hr

/-- The diagonals of a square, the first of them travelled downwards. -/
theorem holds_iff_of_intersect_eq_point_diagonals :
    (segment ⟨⟨4, 4⟩, ⟨0, 0⟩⟩ : Figure ℚ).intersect (segment ⟨⟨0, 4⟩, ⟨4, 0⟩⟩) = point ⟨2, 2⟩ ∧
      (segment ⟨⟨4, 4⟩, ⟨0, 0⟩⟩ : Figure ℚ).Holds ⟨2, 2⟩ ∧
      (segment ⟨⟨0, 4⟩, ⟨4, 0⟩⟩ : Figure ℚ).Holds ⟨2, 2⟩ := by
  have h : (segment ⟨⟨4, 4⟩, ⟨0, 0⟩⟩ : Figure ℚ).intersect (segment ⟨⟨0, 4⟩, ⟨4, 0⟩⟩) =
      point ⟨2, 2⟩ := by
    decide +kernel
  refine ⟨h, (holds_iff_of_intersect_eq_point _ _ _ h).2.1.2 ?_⟩
  rintro ⟨s, t, ⟨hs, ht⟩ | ⟨ht, hs⟩, hst, -⟩
  · cases hs
    cases ht
    exact absurd hst.lines_close (by decide +kernel)
  · cases hs
    cases ht
    exact absurd hst.lines_close (by decide +kernel)

/-- Two segments of length a million that abut up to the tolerance, on lines whose slopes differ by a
millionth: the later one starts at height one above the stop of the earlier. -/
theorem intersect_abutting_not_held :
    (segment ⟨⟨0, 0⟩, ⟨1000000, 0⟩⟩ : Figure ℚ).intersect
        (segment ⟨⟨1000000, 1⟩, ⟨2000000, 2⟩⟩) = point ⟨1000000, 0⟩ ∧
      (point ⟨1000000, 0⟩ : Figure ℚ).intersect (segment ⟨⟨1000000, 1⟩, ⟨2000000, 2⟩⟩) = empty := by
  decide +kernel

end Figure

end PlaneFigures
