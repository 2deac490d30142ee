import PlaneFigures.Proofs.Binary64Order
import PlaneFigures.Proofs.Commutativity

/-!
# Canonical operands

An intersection puts its operands into canonical form on its own. The right operand may be made
canonical beforehand without any effect, since a segment enters only through its carrier and its
oriented form. The same holds for a left operand that is not degenerate. A degenerate left operand
changes its place: as a segment it is met with the right operand, as a point the right operand is
met with it. The two orders agree unless both are points, where each order keeps its own point.
Nothing but the symmetry of closeness and the asymmetry of the strict order is used, so that the
equalities are exact also with rounding, infinities and values that are not numbers.
-/

namespace PlaneFigures

namespace Figure

variable {α : Type} [Scalar α]

theorem canonical_of_flat {f : Figure α} (hf : f.Flat) : f.canonical = f := by
  cases f with
  | segment s => cases hf
  | _ => rfl

theorem canonical_of_degenerate {s : Segment α} (hd : s.Degenerate) :
    (segment s).canonical = point s.start := if_pos hd

theorem canonical_of_not_degenerate {s : Segment α} (hd : ¬s.Degenerate) :
    (segment s).canonical = segment s.oriented := if_neg hd

theorem eq_of_canonical_eq_point {f : Figure α} {p : Point α} (h : f.canonical = point p) :
    f = point p ∨ ∃ s, f = segment s ∧ s.Degenerate ∧ s.start = p := by
  rcases f.flat_or_segment with hf | ⟨s, rfl⟩
  · rw [canonical_of_flat hf] at h
    exact Or.inl h
  · by_cases hd : s.Degenerate
    · rw [canonical_of_degenerate hd] at h
      exact Or.inr ⟨s, rfl, hd, point.inj h⟩
    · rw [canonical_of_not_degenerate hd] at h
      cases h

theorem segment_intersect_comm_of_degenerate [Scalar.Symmetric α] {s : Segment α}
    (hd : s.Degenerate) {g : Figure α} (hg : g.canonical.kind ≠ .point) :
    (segment s).intersect g = g.intersect (segment s) := by
  rcases g.flat_or_segment with hflat | ⟨t, rfl⟩
  · apply intersect_comm_of_kind_ne
    intro hk
    cases g with
    | segment t => cases hflat
    | _ => cases hk
  · have ht : ¬t.Degenerate := by
      intro ht
      rw [canonical_of_degenerate ht] at hg
      exact hg rfl
    exact segment_intersect_comm_of_carrier_kind_ne
      (carrier_kind_ne (Or.inl (iff_of_true hd ht)))

end Figure

variable {α : Type} [Scalar α] [Scalar.Symmetric α] [Std.Asymm (α := α) (· < ·)]

namespace Segment

theorem not_backward_oriented (s : Segment α) : ¬s.oriented.Backward := by
  rw [backward_iff, axis_oriented]
  by_cases hb : s.Backward
  · rw [oriented, if_pos hb]
    exact Std.Asymm.asymm _ _ (s.backward_iff.1 hb)
  · rw [oriented, if_neg hb]
    exact mt s.backward_iff.2 hb

theorem oriented_oriented (s : Segment α) : s.oriented.oriented = s.oriented :=
  if_neg s.not_backward_oriented

theorem carrier_oriented {s : Segment α} (hd : ¬s.Degenerate) : s.oriented.carrier = s.carrier := by
  rw [carrier_of_not_degenerate hd, carrier_of_not_degenerate (mt degenerate_oriented.1 hd),
    oriented_oriented]

end Segment

namespace Figure

open Segment

theorem trim_oriented (f : Figure α) {s : Segment α} (hd : ¬s.Degenerate) :
    f.trim s.oriented = f.trim s := by
  rw [trim_of_not_degenerate f hd, trim_of_not_degenerate f (mt degenerate_oriented.1 hd),
    oriented_oriented]

theorem canonical_canonical (f : Figure α) : f.canonical.canonical = f.canonical := by
  rcases f.flat_or_segment with hf | ⟨s, rfl⟩
  · rw [canonical_of_flat hf, canonical_of_flat hf]
  · by_cases hd : s.Degenerate
    · rw [canonical_of_degenerate hd, canonical_point]
    · rw [canonical_of_not_degenerate hd, canonical_of_not_degenerate (mt degenerate_oriented.1 hd),
        oriented_oriented]

theorem intersect_canonical (f g : Figure α) : f.intersect g.canonical = f.intersect g := by
  rcases g.flat_or_segment with hg | ⟨s, rfl⟩
  · rw [canonical_of_flat hg]
  · rw [intersect_segment_eq_trim f s]
    by_cases hd : s.Degenerate
    · rw [canonical_of_degenerate hd, carrier_of_degenerate hd, trim_of_degenerate _ hd]
    · rw [canonical_of_not_degenerate hd, intersect_segment_eq_trim, carrier_oriented hd,
        trim_oriented _ hd]

theorem canonical_intersect {f : Figure α} (hf : ¬f.Degenerate) (g : Figure α) :
    f.canonical.intersect g = f.intersect g := by
  rcases f.flat_or_segment with hflat | ⟨s, rfl⟩
  · rw [canonical_of_flat hflat]
  · rw [canonical_of_not_degenerate hf]
    rcases g.flat_or_segment with hg | ⟨t, rfl⟩
    · rw [segment_intersect_eq_trim _ hg, segment_intersect_eq_trim _ hg, carrier_oriented hf,
        trim_oriented _ hf]
    · rw [segment_intersect_segment, segment_intersect_segment, carrier_oriented hf,
        trim_oriented _ hf]

theorem start_intersect {s : Segment α} (hd : s.Degenerate) {g : Figure α}
    (hg : g.canonical.kind ≠ .point) : (point s.start).intersect g = (segment s).intersect g := by
  have hkind : (point s.start).kind ≠ g.kind := by
    intro hk
    cases g with
    | point q => exact hg rfl
    | _ => cases hk
  calc
    (point s.start).intersect g = g.intersect (point s.start) := intersect_comm_of_kind_ne hkind
    _ = g.intersect (segment s) := by rw [← canonical_of_degenerate hd, intersect_canonical]
    _ = (segment s).intersect g := (segment_intersect_comm_of_degenerate hd hg).symm

theorem canonical_intersect_canonical {f g : Figure α}
    (h : ¬(f.canonical.kind = .point ∧ g.canonical.kind = .point)) :
    f.canonical.intersect g.canonical = f.intersect g := by
  rw [intersect_canonical]
  by_cases hf : f.Degenerate
  · cases f with
    | segment s =>
      rw [canonical_of_degenerate hf]
      apply start_intersect hf
      intro hg
      rw [canonical_of_degenerate hf] at h
      exact h ⟨rfl, hg⟩
    | _ => exact hf.elim
  · exact canonical_intersect hf g

theorem intersect_of_canonical_points {f g : Figure α} {p q : Point α}
    (hf : f.canonical = point p) (hg : g.canonical = point q) :
    ∃ a, (a = p ∨ a = q) ∧ f.intersect g = if q.Close p then point a else empty := by
  rw [← intersect_canonical, hg]
  rcases eq_of_canonical_eq_point hf with rfl | ⟨s, rfl, hd, rfl⟩
  · exact ⟨p, Or.inl rfl, point_intersect_point p q⟩
  · refine ⟨q, Or.inr rfl, ?_⟩
    rw [segment_intersect_point, intersectSegment_of_degenerate _ hd, point_intersect_point]
    exact if_congr Point.close_comm rfl rfl

/-- Binary64 operands may be made canonical beforehand, bit for bit, unless both become points. Then
both intersections are empty or both are points, equal up to the tolerance. -/
theorem intersect_canonical_binary64 (f g : Figure Float) :
    (¬(f.canonical.kind = .point ∧ g.canonical.kind = .point) →
        f.intersect g = f.canonical.intersect g.canonical) ∧
      ∀ p q, f.canonical = point p → g.canonical = point q →
        f.intersect g = empty ∧ f.canonical.intersect g.canonical = empty ∨
          ∃ a b, f.intersect g = point a ∧ f.canonical.intersect g.canonical = point b ∧
            (point a).Close (point b) := by
  constructor
  · intro h
    exact (canonical_intersect_canonical h).symm
  · intro p q hf hg
    obtain ⟨a, ha, h⟩ := intersect_of_canonical_points hf hg
    rw [h, hf, hg, point_intersect_point]
    by_cases hc : q.Close p
    · right
      rw [if_pos hc, if_pos hc]
      refine ⟨a, p, rfl, rfl, ?_⟩
      rcases ha with rfl | rfl
      · exact ⟨Binary64.close_self_of_close hc.1, Binary64.close_self_of_close hc.2⟩
      · exact hc
    · left
      rw [if_neg hc, if_neg hc]
      exact ⟨rfl, rfl⟩

/-- A degenerate segment with one that is travelled backward, and with a point close to it. -/
theorem intersect_canonical_binary64_degenerate :
    let f : Figure Float := segment ⟨⟨0.1, 0.3⟩, ⟨0.1, 0.300001⟩⟩
    let g : Figure Float := segment ⟨⟨1, 3⟩, ⟨0, 0⟩⟩
    let h : Figure Float := point ⟨0.100002, 0.3⟩
    ¬(f.canonical.kind = .point ∧ g.canonical.kind = .point) ∧
      f.intersect g = f.canonical.intersect g.canonical ∧
      f.canonical = point ⟨0.1, 0.3⟩ ∧ h.canonical = point ⟨0.100002, 0.3⟩ ∧
      ∃ a b, f.intersect h = point a ∧ f.canonical.intersect h.canonical = point b ∧
        (point a).Close (point b) := by
  intro f g h
  have hkinds : ¬(f.canonical.kind = .point ∧ g.canonical.kind = .point) := by decide +kernel
  have hf : f.canonical = point ⟨0.1, 0.3⟩ := by decide +kernel
  have hmeet : f.canonical.intersect h.canonical ≠ empty := by
    rw [hf]
    decide +kernel
  refine ⟨hkinds, (intersect_canonical_binary64 f g).1 hkinds, hf, rfl, ?_⟩
  rcases (intersect_canonical_binary64 f h).2 _ _ hf rfl with ⟨_, hempty⟩ | hpoints
  · exact absurd hempty hmeet
  · exact hpoints

end Figure

end PlaneFigures
