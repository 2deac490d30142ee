import PlaneFigures.Proofs.Binary64

/-!
# Structural commutativity

Two figures of different kinds meet by one rule, whichever of them comes first, and so do the
carriers of two segments if these are of different kinds. The figure they share is then a point or
nothing, and trimming a point to one segment and then to another is a conjunction of tests. No
algebra of the scalar enters, so that the two orders agree also where rounding, infinities and
values that are not numbers do.
-/

namespace PlaneFigures

variable {α : Type} [Scalar α]

namespace Figure

theorem intersect_comm_of_flat {f g : Figure α} (hf : f.Flat) (hg : g.Flat)
    (hk : f.kind ≠ g.kind) : f.intersect g = g.intersect f := by
  induction hf, hg using Flat.pair_cases with
  | empty_left g hg => rw [empty_intersect, intersect_empty]
  | empty_right f hf => rw [empty_intersect, intersect_empty]
  | point_point p q => exact absurd rfl hk
  | point_line p m b => rw [point_intersect_line, line_intersect_point]
  | line_point m b p => rw [point_intersect_line, line_intersect_point]
  | point_vertical p x => rw [point_intersect_vertical, vertical_intersect_point]
  | vertical_point x p => rw [point_intersect_vertical, vertical_intersect_point]
  | line_line m b n c => exact absurd rfl hk
  | line_vertical m b x => rw [line_intersect_vertical, vertical_intersect_line]
  | vertical_line x m b => rw [line_intersect_vertical, vertical_intersect_line]
  | vertical_vertical x y => exact absurd rfl hk

def Punctual {β : Type} (f : Figure β) : Prop := f = empty ∨ ∃ p, f = point p

theorem punctual_ite {β : Type} {c : Prop} [Decidable c] (p : Point β) :
    (if c then point p else empty : Figure β).Punctual := by
  split
  · exact Or.inr ⟨p, rfl⟩
  · exact Or.inl rfl

theorem punctual_intersect_of_flat {f g : Figure α} (hf : f.Flat) (hg : g.Flat)
    (hk : f.kind ≠ g.kind) : (f.intersect g).Punctual := by
  induction hf, hg using Flat.pair_cases with
  | empty_left g hg => exact Or.inl (empty_intersect g)
  | empty_right f hf => exact Or.inl (intersect_empty f)
  | point_point p q => exact absurd rfl hk
  | point_line p m b =>
    rw [point_intersect_line]
    exact punctual_ite p
  | line_point m b p =>
    rw [line_intersect_point]
    exact punctual_ite p
  | point_vertical p x =>
    rw [point_intersect_vertical]
    exact punctual_ite p
  | vertical_point x p =>
    rw [vertical_intersect_point]
    exact punctual_ite p
  | line_line m b n c => exact absurd rfl hk
  | line_vertical m b x => exact Or.inr ⟨_, line_intersect_vertical m b x⟩
  | vertical_line x m b => exact Or.inr ⟨_, vertical_intersect_line m b x⟩
  | vertical_vertical x y => exact absurd rfl hk

theorem trim_point (p : Point α) (s : Segment α) :
    (point p).trim s = if s.Degenerate ∨ s.oriented.BoxHolds p then point p else empty := by
  by_cases hd : s.Degenerate
  · rw [trim_of_degenerate _ hd, if_pos (Or.inl hd)]
  · simp only [trim_of_not_degenerate _ hd, clip, hd, false_or]

theorem Punctual.trim_comm {f : Figure α} (hf : f.Punctual) (s t : Segment α) :
    (f.trim s).trim t = (f.trim t).trim s := by
  rcases hf with rfl | ⟨p, rfl⟩
  · simp
  · by_cases hs : s.Degenerate ∨ s.oriented.BoxHolds p
    · by_cases ht : t.Degenerate ∨ t.oriented.BoxHolds p
      · simp only [trim_point, if_pos hs, if_pos ht]
      · simp only [trim_point, if_pos hs, if_neg ht, trim_empty]
    · by_cases ht : t.Degenerate ∨ t.oriented.BoxHolds p
      · simp only [trim_point, if_neg hs, if_pos ht, trim_empty]
      · simp only [trim_point, if_neg hs, if_neg ht, trim_empty]

theorem segment_intersect_comm {s t : Segment α}
    (hcomm : t.carrier.intersect s.carrier = s.carrier.intersect t.carrier)
    (hpoint : (s.carrier.intersect t.carrier).Punctual) :
    (segment s).intersect (segment t) = (segment t).intersect (segment s) := by
  rw [segment_intersect_segment, segment_intersect_segment, hcomm, hpoint.trim_comm]

theorem intersect_comm_of_kind_ne {f g : Figure α} (hk : f.kind ≠ g.kind) :
    f.intersect g = g.intersect f := by
  rcases f.flat_or_segment with hf | ⟨s, rfl⟩
  · rcases g.flat_or_segment with hg | ⟨t, rfl⟩
    · exact intersect_comm_of_flat hf hg hk
    · rw [intersect_segment_eq_trim, segment_intersect_eq_trim t hf]
  · rcases g.flat_or_segment with hg | ⟨t, rfl⟩
    · rw [segment_intersect_eq_trim s hg, intersect_segment_eq_trim]
    · exact absurd rfl hk

theorem segment_intersect_comm_of_carrier_kind_ne {s t : Segment α}
    (hk : s.carrier.kind ≠ t.carrier.kind) :
    (segment s).intersect (segment t) = (segment t).intersect (segment s) :=
  segment_intersect_comm (intersect_comm_of_flat (flat_carrier t) (flat_carrier s) hk.symm)
    (punctual_intersect_of_flat (flat_carrier s) (flat_carrier t) hk)

theorem carrier_kind_ne [Scalar.Symmetric α] {s t : Segment α}
    (h : (s.Degenerate ↔ ¬t.Degenerate) ∨
      ¬s.Degenerate ∧ ¬t.Degenerate ∧ (s.Upright ↔ ¬t.Upright)) :
    s.carrier.kind ≠ t.carrier.kind := by
  rw [kind_carrier, kind_carrier]
  split_ifs <;> simp_all

/-- Binary64 figures of different kinds, and segments of which exactly one is degenerate or of
which, neither being degenerate, exactly one is upright, meet in the same figure in both orders,
bit for bit. -/
theorem intersect_comm_binary64 (f g : Figure Float)
    (h : f.kind ≠ g.kind ∨ ∃ s t, f = segment s ∧ g = segment t ∧
      ((s.Degenerate ↔ ¬t.Degenerate) ∨
        ¬s.Degenerate ∧ ¬t.Degenerate ∧ (s.Upright ↔ ¬t.Upright))) :
    f.intersect g = g.intersect f := by
  rcases h with hk | ⟨s, t, rfl, rfl, hst⟩
  · exact intersect_comm_of_kind_ne hk
  · exact segment_intersect_comm_of_carrier_kind_ne (carrier_kind_ne hst)

/-- An upright segment, travelled downwards, and a sloped one that reaches infinity. -/
theorem intersect_comm_binary64_upright_sloped :
    ¬(⟨⟨0.1, 3⟩, ⟨0.1, -1⟩⟩ : Segment Float).Degenerate ∧
      ¬(⟨⟨0, 0⟩, ⟨1 / 0, 0.3⟩⟩ : Segment Float).Degenerate ∧
      (segment (⟨⟨0.1, 3⟩, ⟨0.1, -1⟩⟩ : Segment Float)).intersect
          (segment ⟨⟨0, 0⟩, ⟨1 / 0, 0.3⟩⟩) =
        (segment ⟨⟨0, 0⟩, ⟨1 / 0, 0.3⟩⟩).intersect (segment ⟨⟨0.1, 3⟩, ⟨0.1, -1⟩⟩) := by
  have hs : ¬(⟨⟨0.1, 3⟩, ⟨0.1, -1⟩⟩ : Segment Float).Degenerate := by decide +kernel
  have ht : ¬(⟨⟨0, 0⟩, ⟨1 / 0, 0.3⟩⟩ : Segment Float).Degenerate := by decide +kernel
  have hu : (⟨⟨0.1, 3⟩, ⟨0.1, -1⟩⟩ : Segment Float).Upright ↔
      ¬(⟨⟨0, 0⟩, ⟨1 / 0, 0.3⟩⟩ : Segment Float).Upright := by decide +kernel
  exact ⟨hs, ht, intersect_comm_binary64 _ _ (Or.inr ⟨_, _, rfl, rfl, Or.inr ⟨hs, ht, hu⟩⟩)⟩

end Figure

end PlaneFigures
