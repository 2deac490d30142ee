import Mathlib.Tactic.FieldSimp
import Mathlib.Tactic.Ring
import PlaneFigures.Proofs.Commutativity
import PlaneFigures.Proofs.Exact

/-!
# Commutativity up to the tolerance

Over the rationals, intersecting two figures in both orders gives figures that are equal up to the
tolerance, with one exception. Two segments on close lines that have exactly the same extent along
their axis are a full tie: either one counts as the earlier of the two, and the result takes its
start from one operand and its stop from the other. The start and stop are compared with the
absolute tolerance, while the lines are compared by slope and intercept, so that the ends of long
segments on close lines need not be close.
-/

namespace PlaneFigures

namespace Segment

structure Coextensive (s t : Segment ℚ) : Prop where
  left_not_degenerate : ¬s.Degenerate
  right_not_degenerate : ¬t.Degenerate
  lines_close : (Figure.throughEnds s.oriented).Close (Figure.throughEnds t.oriented)
  start_eq : s.axis.coord s.oriented.start = s.axis.coord t.oriented.start
  stop_eq : s.axis.coord s.oriented.stop = s.axis.coord t.oriented.stop

theorem oriented_le (s : Segment ℚ) :
    s.axis.coord s.oriented.start ≤ s.axis.coord s.oriented.stop := by
  by_cases hb : s.Backward
  · rw [oriented, if_pos hb]
    exact le_of_lt (s.backward_iff.1 hb)
  · rw [oriented, if_neg hb]
    exact le_of_not_gt (mt s.backward_iff.2 hb)

theorem ascending_oriented (s : Segment ℚ) : s.oriented.ascending s.axis = s.oriented :=
  if_pos s.oriented_le

theorem not_close_ends {s : Segment ℚ} (hd : ¬s.Degenerate) :
    ¬Close (s.axis.coord s.stop) (s.axis.coord s.start) := by
  by_cases hu : s.Upright
  · rw [axis, if_pos hu]
    exact fun hy => hd ⟨hu, close_comm.1 hy⟩
  · rw [axis, if_neg hu]
    exact fun hx => hu (close_comm.1 hx)

theorem overlap_oriented {s t : Segment ℚ} (haxis : s.axis = t.axis) :
    s.oriented.overlap t.oriented =
      if s.oriented.Precedes s.axis t.oriented then shared s.axis s.oriented t.oriented
      else shared s.axis t.oriented s.oriented := by
  have ht : t.oriented.ascending s.axis = t.oriented := by rw [haxis, ascending_oriented]
  simp only [overlap, axis_oriented, ascending_oriented, ht]

theorem precedes_iff_not {axis : Axis} {s t : Segment ℚ}
    (h : ¬(axis.coord s.start = axis.coord t.start ∧ axis.coord s.stop = axis.coord t.stop)) :
    s.Precedes axis t ↔ ¬t.Precedes axis s := by
  constructor
  · intro hst hts
    rcases hst with hlt | ⟨hle, hle'⟩
    · rcases hts with hgt | ⟨hge, _⟩
      · exact lt_asymm hlt hgt
      · exact absurd hlt (not_lt.2 hge)
    · rcases hts with hgt | ⟨hge, hge'⟩
      · exact absurd hgt (not_lt.2 hle)
      · exact h ⟨le_antisymm hle hge, le_antisymm hle' hge'⟩
  · intro hn
    by_cases hlt : axis.coord s.start < axis.coord t.start
    · exact Or.inl hlt
    · have hle : axis.coord s.start ≤ axis.coord t.start :=
        le_of_not_gt fun hgt => hn (Or.inl hgt)
      have hle' : axis.coord s.stop ≤ axis.coord t.stop := by
        by_contra hgt
        exact hn (Or.inr ⟨not_lt.1 hlt, le_of_not_ge hgt⟩)
      exact Or.inr ⟨hle, hle'⟩

theorem shared_of_tie {s t : Segment ℚ} (hd : ¬s.Degenerate)
    (h₀ : s.axis.coord s.oriented.start = s.axis.coord t.oriented.start)
    (h₁ : s.axis.coord s.oriented.stop = s.axis.coord t.oriented.stop) :
    shared s.axis s.oriented t.oriented = .segment ⟨t.oriented.start, s.oriented.stop⟩ := by
  have hends := not_close_ends (mt degenerate_oriented.1 hd)
  rw [axis_oriented] at hends
  rw [shared, ← h₀, ← h₁, if_neg hends, if_neg (not_lt.2 s.oriented_le), if_neg (lt_irrefl _)]

theorem overlap_close_iff {s t : Segment ℚ} (hs : ¬s.Degenerate) (ht : ¬t.Degenerate)
    (haxis : s.axis = t.axis) :
    (s.oriented.overlap t.oriented).Close (t.oriented.overlap s.oriented) ↔
      (s.axis.coord s.oriented.start = s.axis.coord t.oriented.start →
        s.axis.coord s.oriented.stop = s.axis.coord t.oriented.stop →
          (Figure.segment s.oriented).Close (.segment t.oriented)) := by
  rw [overlap_oriented haxis, overlap_oriented haxis.symm, ← haxis]
  by_cases htie : s.axis.coord s.oriented.start = s.axis.coord t.oriented.start ∧
      s.axis.coord s.oriented.stop = s.axis.coord t.oriented.stop
  · obtain ⟨h₀, h₁⟩ := htie
    have hst : s.oriented.Precedes s.axis t.oriented := Or.inr ⟨h₀.le, h₁.le⟩
    have hts : t.oriented.Precedes s.axis s.oriented := Or.inr ⟨h₀.ge, h₁.ge⟩
    have hback : shared s.axis t.oriented s.oriented =
        .segment ⟨s.oriented.start, t.oriented.stop⟩ := by
      rw [haxis] at h₀ h₁ ⊢
      exact shared_of_tie ht h₀.symm h₁.symm
    rw [if_pos hst, if_pos hts, shared_of_tie hs h₀ h₁, hback]
    constructor
    · intro h _ _
      exact ⟨Point.close_comm.1 h.1, h.2⟩
    · intro h
      exact ⟨Point.close_comm.1 (h h₀ h₁).1, (h h₀ h₁).2⟩
  · have hprec := precedes_iff_not htie
    by_cases hst : s.oriented.Precedes s.axis t.oriented
    · rw [if_pos hst, if_neg (hprec.1 hst)]
      exact iff_of_true (Figure.close_refl _) fun h₀ h₁ => absurd ⟨h₀, h₁⟩ htie
    · rw [if_neg hst, if_pos (not_not.1 (mt hprec.2 hst))]
      exact iff_of_true (Figure.close_refl _) fun h₀ h₁ => absurd ⟨h₀, h₁⟩ htie

end Segment

namespace Figure

open Segment

theorem kind_eq_of_close {f g : Figure ℚ} (h : f.Close g) : f.kind = g.kind := by
  cases f <;> cases g <;> simp_all [Close, kind]

theorem lineWithLine_comm {m n : ℚ} (b c : ℚ) (h : ¬PlaneFigures.Close m n) :
    lineWithLine m b n c = lineWithLine n c m b := by
  have hmn : m - n ≠ 0 := sub_ne_zero.2 (ne_of_not_close h)
  have hnm : n - m ≠ 0 := sub_ne_zero.2 (ne_of_not_close h).symm
  have hx : (c - b) / (m - n) = (b - c) / (n - m) := by
    rw [div_eq_div_iff hmn hnm]
    ring
  have hy : m * ((c - b) / (m - n)) + b = n * ((c - b) / (m - n)) + c := by
    field_simp
    ring
  rw [lineWithLine, lineWithLine, if_neg h, if_neg (mt close_comm.1 h)]
  simp only [point.injEq, Point.mk.injEq]
  refine ⟨hx, ?_⟩
  rw [← hx]
  exact hy

theorem intersect_comm_of_not_close {f g : Figure ℚ} (hf : f.Flat) (hg : g.Flat)
    (h : ¬f.Close g) : f.intersect g = g.intersect f ∧ (f.intersect g).Punctual := by
  by_cases hk : f.kind = g.kind
  · cases f with
    | segment s => cases hf
    | empty =>
      cases g with
      | empty => exact absurd trivial h
      | _ => cases hk
    | point p =>
      cases g with
      | point q =>
        have hpq : ¬p.Close q := h
        rw [point_intersect_point, point_intersect_point, if_neg hpq,
          if_neg (mt Point.close_comm.1 hpq)]
        exact ⟨rfl, Or.inl rfl⟩
      | _ => cases hk
    | line m b =>
      cases g with
      | line n c =>
        rw [line_intersect_line, line_intersect_line]
        by_cases hm : PlaneFigures.Close m n
        · have hb : ¬PlaneFigures.Close b c := fun hb => h ⟨hm, hb⟩
          rw [lineWithLine, lineWithLine, if_pos hm, if_neg hb, if_pos (close_comm.1 hm),
            if_neg (mt close_comm.1 hb)]
          exact ⟨rfl, Or.inl rfl⟩
        · refine ⟨lineWithLine_comm b c hm, ?_⟩
          rw [lineWithLine, if_neg hm]
          exact Or.inr ⟨_, rfl⟩
      | _ => cases hk
    | vertical x =>
      cases g with
      | vertical y =>
        have hxy : ¬PlaneFigures.Close x y := h
        rw [vertical_intersect_vertical, vertical_intersect_vertical, if_neg hxy,
          if_neg (mt close_comm.1 hxy)]
        exact ⟨rfl, Or.inl rfl⟩
      | _ => cases hk
  · exact ⟨intersect_comm_of_flat hf hg hk, punctual_intersect_of_flat hf hg hk⟩

theorem intersect_close_comm_of_flat {f g : Figure ℚ} (hf : f.Flat) (hg : g.Flat) :
    (f.intersect g).Close (g.intersect f) := by
  by_cases h : f.Close g
  · rw [intersect_eq_left hf h, intersect_eq_left hg (close_symm h)]
    exact h
  · rw [(intersect_comm_of_not_close hf hg h).1]
    exact close_refl _

theorem carrier_of_carrier_close {s t : Segment ℚ} (h : s.carrier.Close t.carrier) :
    (s.Degenerate ↔ t.Degenerate) ∧ (¬s.Degenerate → s.axis = t.axis) := by
  have hk := kind_eq_of_close h
  rw [kind_carrier, kind_carrier] at hk
  unfold Segment.axis
  split_ifs at hk ⊢ <;> simp_all

theorem segment_intersect_close_iff (s t : Segment ℚ) :
    ((segment s).intersect (segment t)).Close ((segment t).intersect (segment s)) ↔
      (s.Coextensive t → (segment s.oriented).Close (segment t.oriented)) := by
  by_cases hc : s.carrier.Close t.carrier
  · obtain ⟨hdeg, haxis⟩ := carrier_of_carrier_close hc
    by_cases hs : s.Degenerate
    · have ht := hdeg.1 hs
      rw [segment_intersect_segment, segment_intersect_segment, trim_of_degenerate _ hs,
        trim_of_degenerate _ ht, trim_of_degenerate _ ht, trim_of_degenerate _ hs]
      exact iff_of_true (intersect_close_comm_of_flat (flat_carrier t) (flat_carrier s))
        fun h => absurd hs h.left_not_degenerate
    · have ht := mt hdeg.2 hs
      rw [segment_intersect_segment_of_close hs ht hc,
        segment_intersect_segment_of_close ht hs (close_symm hc),
        overlap_close_iff hs ht (haxis hs)]
      rw [carrier_of_not_degenerate hs, carrier_of_not_degenerate ht] at hc
      constructor
      · intro h hst
        exact h hst.start_eq hst.stop_eq
      · intro h h₀ h₁
        exact h ⟨hs, ht, hc, h₀, h₁⟩
  · obtain ⟨hcomm, hpoint⟩ := intersect_comm_of_not_close (flat_carrier s) (flat_carrier t) hc
    rw [segment_intersect_comm hcomm.symm hpoint]
    refine iff_of_true (close_refl _) fun h => absurd ?_ hc
    rw [carrier_of_not_degenerate h.left_not_degenerate,
      carrier_of_not_degenerate h.right_not_degenerate]
    exact h.lines_close

/-- The two orders agree up to the tolerance, unless the figures are segments on close lines with
the same extent whose canonical forms are not close. -/
theorem intersect_close_comm_iff (f g : Figure ℚ) :
    (f.intersect g).Close (g.intersect f) ↔
      ¬∃ s t, f = segment s ∧ g = segment t ∧ s.Coextensive t ∧
        ¬(segment s.oriented).Close (segment t.oriented) := by
  by_cases hk : f.kind = g.kind
  · rcases f.flat_or_segment with hf | ⟨s, rfl⟩
    · have hg : g.Flat := by
        cases g with
        | segment t =>
          cases f with
          | segment s => cases hf
          | _ => cases hk
        | _ => rfl
      refine iff_of_true (intersect_close_comm_of_flat hf hg) ?_
      intro hex
      obtain ⟨s, t, rfl, -⟩ := hex
      cases hf
    · cases g with
      | segment t =>
        rw [segment_intersect_close_iff]
        constructor
        · intro h hex
          obtain ⟨s', t', hs, ht, hst, hn⟩ := hex
          cases hs
          cases ht
          exact hn (h hst)
        · intro h hst
          by_contra hn
          exact h ⟨s, t, rfl, rfl, hst, hn⟩
      | _ => cases hk
  · rw [intersect_comm_of_kind_ne hk]
    refine iff_of_true (close_refl _) ?_
    intro hex
    obtain ⟨s, t, rfl, rfl, -⟩ := hex
    exact hk rfl

/-- Two segments of length a million from the origin, on lines whose slopes differ by a millionth. -/
theorem not_close_intersect_flip :
    ¬((segment ⟨⟨0, 0⟩, ⟨1000000, 0⟩⟩ : Figure ℚ).intersect
        (segment ⟨⟨0, 0⟩, ⟨1000000, 1⟩⟩)).Close
      ((segment ⟨⟨0, 0⟩, ⟨1000000, 1⟩⟩).intersect (segment ⟨⟨0, 0⟩, ⟨1000000, 0⟩⟩)) := by
  rw [segment_intersect_close_iff]
  intro h
  have hst : (⟨⟨0, 0⟩, ⟨1000000, 0⟩⟩ : Segment ℚ).Coextensive ⟨⟨0, 0⟩, ⟨1000000, 1⟩⟩ :=
    ⟨by decide +kernel, by decide +kernel, by decide +kernel, by decide +kernel,
      by decide +kernel⟩
  have hfar : ¬(segment (⟨⟨0, 0⟩, ⟨1000000, 0⟩⟩ : Segment ℚ).oriented).Close
      (segment (⟨⟨0, 0⟩, ⟨1000000, 1⟩⟩ : Segment ℚ).oriented) := by
    decide +kernel
  exact hfar (h hst)

end Figure

end PlaneFigures
