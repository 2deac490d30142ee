import PlaneFigures.Proofs.Orientation

/-!
# Self-intersection

A finite figure intersected with itself is its canonical form, bit for bit. Closeness is reflexive
on finite numbers and on no others, so that this is where finite coordinates are needed: for the
figure itself, and for the slope and the intercept of the line through a segment, which may be
infinite although the segment is not. Past the lines, a segment is cut down to itself. The oriented
segment ascends along its axis and overlaps with itself in the whole of itself.
-/

namespace PlaneFigures

open Binary64

theorem Point.Finite.close_self {p : Point Float} (h : p.Finite) : p.Close p :=
  ⟨Binary64.close_self h.1, Binary64.close_self h.2⟩

theorem Segment.overlap_self {s : Segment Float} (h : s.Ascends s.axis) :
    s.overlap s = .segment s := by
  have hascending : s.ascending s.axis = s := if_pos h.le
  have hle : ¬s.axis.coord s.stop < s.axis.coord s.start :=
    (Binary64.not_lt h.stop_num h.start_num).2 h.le
  have hirrefl : ¬s.axis.coord s.stop < s.axis.coord s.stop := fun hlt =>
    Std.Asymm.asymm _ _ hlt hlt
  rw [overlap, hascending, ite_self, shared, if_neg h.not_close, if_neg hle, if_neg hirrefl]

namespace Figure

open Segment

def Finite : Figure Float → Prop
  | empty => True
  | point p => p.Finite
  | line m b => m.isFinite = true ∧ b.isFinite = true
  | vertical x => x.isFinite = true
  | segment s => s.Finite

theorem Finite.close_self {f : Figure Float} (hf : f.Finite) : f.Close f := by
  cases f with
  | empty => trivial
  | point p => exact Point.Finite.close_self hf
  | line m b => exact ⟨Binary64.close_self hf.1, Binary64.close_self hf.2⟩
  | vertical x => exact Binary64.close_self hf
  | segment s => exact ⟨Point.Finite.close_self hf.1, Point.Finite.close_self hf.2⟩

theorem finite_throughEnds {s : Segment Float} (hs : s.Finite)
    (hline : ∀ m b, throughEnds s = line m b → m.isFinite = true ∧ b.isFinite = true) :
    (throughEnds s).Finite := by
  rw [throughEnds] at hline ⊢
  split
  case isTrue hu => exact hs.1.1
  case isFalse hu =>
    rw [if_neg hu] at hline
    exact hline _ _ rfl

theorem segment_intersect_self {s : Segment Float} (hs : s.Finite) (hcarrier : s.carrier.Finite) :
    (segment s).intersect (segment s) = (segment s).canonical := by
  by_cases hd : s.Degenerate
  · rw [segment_intersect_segment, trim_of_degenerate _ hd, trim_of_degenerate _ hd,
      intersect_eq_left (flat_carrier s) hcarrier.close_self, carrier_of_degenerate hd,
      canonical_of_degenerate hd]
  · have hascends : s.oriented.Ascends s.oriented.axis := by
      rw [axis_oriented]
      exact ascends_oriented hs.numeric hd
    rw [segment_intersect_segment_of_close hd hd hcarrier.close_self, overlap_self hascends,
      canonical_of_not_degenerate hd]

/-- A finite figure intersected with itself is its canonical form, provided that the line through a
segment that is not degenerate has a finite slope and intercept. -/
theorem intersect_self_binary64 {f : Figure Float} (hf : f.Finite)
    (hline : ∀ (s : Segment Float) (m b : Float), f = segment s → ¬s.Degenerate →
      throughEnds s.oriented = line m b → m.isFinite = true ∧ b.isFinite = true) :
    f.intersect f = f.canonical := by
  rcases f.flat_or_segment with hflat | ⟨s, rfl⟩
  · rw [intersect_eq_left hflat hf.close_self, canonical_of_flat hflat]
  · have hs : s.Finite := hf
    have hcarrier : s.carrier.Finite := by
      by_cases hd : s.Degenerate
      · rw [carrier_of_degenerate hd]
        exact hs.1
      · rw [carrier_of_not_degenerate hd]
        exact finite_throughEnds hs.oriented fun m b h => hline s m b rfl hd h
    exact segment_intersect_self hs hcarrier

/-- A sloped segment, travelled backward. -/
theorem intersect_self_binary64_backward :
    let s : Segment Float := ⟨⟨3, 0.7⟩, ⟨0.1, 0.2⟩⟩
    (segment s).Finite ∧ ¬s.Degenerate ∧
      throughEnds s.oriented =
        line ((0.7 - 0.2) / (3 - 0.1)) (0.2 - (0.7 - 0.2) / (3 - 0.1) * 0.1) ∧
      (segment s).intersect (segment s) = (segment s).canonical ∧
      (segment s).canonical = segment ⟨⟨0.1, 0.2⟩, ⟨3, 0.7⟩⟩ := by
  intro s
  have hs : s.Finite := by decide +kernel
  have hd : ¬s.Degenerate := by decide +kernel
  have hthrough : throughEnds s.oriented =
      line ((0.7 - 0.2) / (3 - 0.1)) (0.2 - (0.7 - 0.2) / (3 - 0.1) * 0.1) := by decide +kernel
  have hcanonical : (segment s).canonical = segment ⟨⟨0.1, 0.2⟩, ⟨3, 0.7⟩⟩ := by decide +kernel
  refine ⟨hs, hd, hthrough, intersect_self_binary64 hs ?_, hcanonical⟩
  intro t m b ht _ hline
  rw [← segment.inj ht, hthrough] at hline
  obtain ⟨rfl, rfl⟩ := line.inj hline
  exact ⟨by decide +kernel, by decide +kernel⟩

end Figure

end PlaneFigures
