import PlaneFigures.Proofs.PointSet
import PlaneFigures.Proofs.Recorder

/-!
# Decisive tests

A tolerance test is decisive if it answers as the exact test would: two coordinates that pass for
equal are equal, and a coordinate that passes for one in the range is in the range. A segment is
sharp if its two tests on its own endpoints are exact, and the carrier of a sharp segment is the
line or the point of its points.
-/

namespace PlaneFigures

/-- The test is not borderline: the two numbers are equal or no less than the threshold apart, the
coordinate is in the range or outside its padding. -/
def Test.Decisive : Test ℚ → Prop
  | .coordinates a b | .slopes a b => a = b ∨ 1 / 100000 ≤ |a - b|
  | .range v a b =>
    (min a b ≤ v ∧ v ≤ max a b) ∨ v < min a b - 1 / 100000 ∨ max a b + 1 / 100000 < v

instance (t : Test ℚ) : Decidable t.Decisive :=
  match t with
  | .coordinates a b => inferInstanceAs (Decidable (a = b ∨ 1 / 100000 ≤ |a - b|))
  | .slopes m n => inferInstanceAs (Decidable (m = n ∨ 1 / 100000 ≤ |m - n|))
  | .range v a b => inferInstanceAs (Decidable ((min a b ≤ v ∧ v ≤ max a b) ∨
      v < min a b - 1 / 100000 ∨ max a b + 1 / 100000 < v))

def Traced.Decisive {β : Type} (t : Traced (Test ℚ) β) : Prop := ∀ e ∈ t.entries, e.Decisive

namespace Test

theorem close_iff_eq {a b : ℚ} (h : a = b ∨ 1 / 100000 ≤ |a - b|) : Close a b ↔ a = b := by
  constructor
  · intro hc
    exact h.resolve_right (not_le.2 (close_iff.1 hc))
  · intro he
    subst he
    exact close_refl a

theorem Decisive.within_iff {v a b : ℚ} (h : (range v a b).Decisive) :
    Within v a b ↔ min a b ≤ v ∧ v ≤ max a b := by
  rw [PlaneFigures.within_iff]
  constructor
  · intro hv
    obtain ⟨hl, hu⟩ := hv
    rcases h with h | h | h
    · exact h
    · exact absurd hl (not_le.2 h)
    · exact absurd hu (not_le.2 h)
  · intro hv
    obtain ⟨hl, hu⟩ := hv
    constructor <;> linarith

end Test

namespace Segment

structure Sharp (s : Segment ℚ) : Prop where
  eq_of_degenerate : s.Degenerate → s.start = s.stop
  eq_of_upright : s.Upright → s.start.x = s.stop.x

variable {s : Segment ℚ}

theorem Sharp.reverse (h : s.Sharp) : s.reverse.Sharp where
  eq_of_degenerate hd := (h.eq_of_degenerate (degenerate_reverse.1 hd)).symm
  eq_of_upright hu := (h.eq_of_upright (upright_reverse.1 hu)).symm

theorem Sharp.oriented (h : s.Sharp) : s.oriented.Sharp := by
  rw [Segment.oriented]
  split
  · exact h.reverse
  · exact h

theorem start_ne_stop (hd : ¬s.Degenerate) : s.start ≠ s.stop := by
  intro h
  apply hd
  rw [Degenerate, h]
  exact s.stop.close_refl

theorem Sharp.through (h : s.Sharp) :
    s.axis.Crosses (Figure.throughEnds s) ∧ s.start ∈ (Figure.throughEnds s).points ∧
      s.stop ∈ (Figure.throughEnds s).points := by
  by_cases hu : s.Upright
  · rw [Figure.throughEnds, axis, if_pos hu, if_pos hu]
    exact ⟨.upright _, rfl, (h.eq_of_upright hu).symm⟩
  · rw [Figure.throughEnds, axis, if_neg hu, if_neg hu]
    refine ⟨.sloped _ _, ?_, ?_⟩
    · rw [Figure.mem_points_line]
      ring
    · have hx : s.stop.x - s.start.x ≠ 0 := sub_ne_zero.2 (ne_of_not_close hu).symm
      rw [Figure.mem_points_line]
      field_simp
      ring

theorem Sharp.points_of_degenerate (h : s.Sharp) (hd : s.Degenerate) :
    (Figure.segment s).points = s.carrier.points := by
  obtain ⟨p, q⟩ := s
  have he : p = q := h.eq_of_degenerate hd
  subst he
  rw [carrier_of_degenerate hd, Figure.points_segment_self]
  rfl

theorem Sharp.points_subset_carrier (h : s.Sharp) :
    (Figure.segment s).points ⊆ s.carrier.points := by
  by_cases hd : s.Degenerate
  · exact (h.points_of_degenerate hd).subset
  · obtain ⟨hc, h₀, h₁⟩ := h.oriented.through
    rw [carrier_of_not_degenerate hd, ← Figure.points_segment_oriented]
    intro p hp
    exact ((hc.mem_segment_iff h₀ h₁).1 hp).1

end Segment

end PlaneFigures
