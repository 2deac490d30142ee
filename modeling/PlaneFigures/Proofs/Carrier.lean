import PlaneFigures.Figure.Intersect

/-!
# Carriers

A segment takes part in an intersection through its carrier, which is its start if the segment is
degenerate and its infinite line otherwise. What the carrier yields is then trimmed to the
segment. The equations of this module state every intersection with a segment as an intersection
of carriers with one trim for each segment operand. A carrier is flat: it is no segment itself, so
that the recursion of the intersection no longer appears, and a property of all intersections
follows from one statement about flat figures and one about trimming.
-/

namespace PlaneFigures

variable {α : Type} [Scalar α]

def Segment.carrier (s : Segment α) : Figure α :=
  if s.Degenerate then .point s.start else .throughEnds s.oriented

def Figure.trim (f : Figure α) (s : Segment α) : Figure α :=
  if s.Degenerate then f else f.clip s.oriented

theorem Segment.carrier_of_degenerate {s : Segment α} (h : s.Degenerate) :
    s.carrier = .point s.start := if_pos h

theorem Segment.carrier_of_not_degenerate {s : Segment α} (h : ¬s.Degenerate) :
    s.carrier = .throughEnds s.oriented := if_neg h

theorem Figure.trim_of_degenerate (f : Figure α) {s : Segment α} (h : s.Degenerate) :
    f.trim s = f := if_pos h

theorem Figure.trim_of_not_degenerate (f : Figure α) {s : Segment α} (h : ¬s.Degenerate) :
    f.trim s = f.clip s.oriented := if_neg h

namespace Figure

@[simp] theorem trim_empty (s : Segment α) : (empty : Figure α).trim s = empty := by
  rw [trim]
  split <;> rfl

def Flat {β : Type} (f : Figure β) : Prop := f.segments = 0

theorem flat_throughEnds (s : Segment α) : (throughEnds s).Flat := segments_throughEnds s

theorem flat_carrier (s : Segment α) : s.carrier.Flat := by
  rw [Segment.carrier]
  split
  · rfl
  · exact flat_throughEnds _

theorem flat_or_segment {β : Type} (f : Figure β) : f.Flat ∨ ∃ s, f = segment s := by
  cases f with
  | segment s => exact Or.inr ⟨s, rfl⟩
  | empty => exact Or.inl rfl
  | point p => exact Or.inl rfl
  | line m b => exact Or.inl rfl
  | vertical x => exact Or.inl rfl

/-- The pairs of figures by what an intersection does with them. Every figure meets the empty one at
once, also a segment on the left. -/
theorem operand_cases {β : Type} {motive : Figure β → Figure β → Prop}
    (empty_right : ∀ f, motive f empty)
    (flat_flat : ∀ f g, f.Flat → g.Flat → motive f g)
    (flat_segment : ∀ f t, f.Flat → motive f (segment t))
    (segment_flat : ∀ s g, g.Flat → g ≠ empty → motive (segment s) g)
    (segment_segment : ∀ s t, motive (segment s) (segment t)) (f g : Figure β) : motive f g := by
  by_cases hne : g = empty
  · subst hne
    exact empty_right f
  rcases f.flat_or_segment with hf | ⟨s, rfl⟩
  · rcases g.flat_or_segment with hg | ⟨t, rfl⟩
    · exact flat_flat f g hf hg
    · exact flat_segment f t hf
  · rcases g.flat_or_segment with hg | ⟨t, rfl⟩
    · exact segment_flat s g hg hne
    · exact segment_segment s t

/-- The pairs of flat figures, those with an empty one taken together. -/
theorem Flat.pair_cases {β : Type} {motive : ∀ f g : Figure β, f.Flat → g.Flat → Prop}
    (empty_left : ∀ g (hg : g.Flat), motive empty g rfl hg)
    (empty_right : ∀ f (hf : f.Flat), motive f empty hf rfl)
    (point_point : ∀ p q, motive (point p) (point q) rfl rfl)
    (point_line : ∀ p m b, motive (point p) (line m b) rfl rfl)
    (line_point : ∀ m b p, motive (line m b) (point p) rfl rfl)
    (point_vertical : ∀ p x, motive (point p) (vertical x) rfl rfl)
    (vertical_point : ∀ x p, motive (vertical x) (point p) rfl rfl)
    (line_line : ∀ m b n c, motive (line m b) (line n c) rfl rfl)
    (line_vertical : ∀ m b x, motive (line m b) (vertical x) rfl rfl)
    (vertical_line : ∀ x m b, motive (vertical x) (line m b) rfl rfl)
    (vertical_vertical : ∀ x y, motive (vertical x) (vertical y) rfl rfl)
    {f g : Figure β} (hf : f.Flat) (hg : g.Flat) : motive f g hf hg := by
  cases f with
  | empty => exact empty_left g hg
  | segment s => cases hf
  | point p =>
    cases g with
    | empty => exact empty_right _ hf
    | point q => exact point_point p q
    | line m b => exact point_line p m b
    | vertical x => exact point_vertical p x
    | segment t => cases hg
  | line m b =>
    cases g with
    | empty => exact empty_right _ hf
    | point p => exact line_point m b p
    | line n c => exact line_line m b n c
    | vertical x => exact line_vertical m b x
    | segment t => cases hg
  | vertical x =>
    cases g with
    | empty => exact empty_right _ hf
    | point p => exact vertical_point x p
    | line m b => exact vertical_line x m b
    | vertical y => exact vertical_vertical x y
    | segment t => cases hg

def Degenerate : Figure α → Prop
  | segment s => s.Degenerate
  | _ => False

instance (f : Figure α) : Decidable f.Degenerate :=
  match f with
  | segment s => inferInstanceAs (Decidable s.Degenerate)
  | empty | point _ | line _ _ | vertical _ => inferInstanceAs (Decidable False)

theorem not_degenerate_of_flat {f : Figure α} (hf : f.Flat) : ¬f.Degenerate := by
  cases f with
  | segment s => cases hf
  | _ => exact id

theorem intersectSegment_eq_trim (f : Figure α) (s : Segment α) :
    f.intersectSegment s = (f.intersect s.carrier).trim s := by
  by_cases h : s.Degenerate
  · rw [intersectSegment_of_degenerate f h, s.carrier_of_degenerate h, trim_of_degenerate _ h]
  · rw [intersectSegment_of_not_degenerate f h, s.carrier_of_not_degenerate h,
      trim_of_not_degenerate _ h]

theorem intersect_segment_eq_trim (f : Figure α) (s : Segment α) :
    f.intersect (segment s) = (f.intersect s.carrier).trim s := by
  rw [intersect_segment, intersectSegment_eq_trim]

theorem segment_intersect_eq_trim (s : Segment α) {f : Figure α} (hf : f.Flat) :
    (segment s).intersect f = (f.intersect s.carrier).trim s := by
  rw [← intersectSegment_eq_trim]
  cases f with
  | empty => rw [intersect_empty, intersectSegment_eq_trim, empty_intersect, trim_empty]
  | point p => exact segment_intersect_point s p
  | line m b => exact segment_intersect_line s m b
  | vertical x => exact segment_intersect_vertical s x
  | segment t => cases hf

theorem segment_intersect_segment (s t : Segment α) :
    (segment s).intersect (segment t) =
      ((t.carrier.intersect s.carrier).trim s).trim t := by
  rw [intersect_segment_eq_trim, segment_intersect_eq_trim s (flat_carrier t)]

theorem trim_carrier {s t : Segment α} (hs : ¬s.Degenerate) (ht : ¬t.Degenerate) :
    t.carrier.trim s = segment s.oriented := by
  rw [trim_of_not_degenerate _ hs, t.carrier_of_not_degenerate ht, throughEnds]
  split <;> rfl

theorem flat_intersect {f g : Figure α} (hf : f.Flat) (hg : g.Flat) : (f.intersect g).Flat := by
  induction hf, hg using Flat.pair_cases with
  | empty_left g hg => exact congrArg segments (empty_intersect g)
  | empty_right f hf => exact congrArg segments (intersect_empty f)
  | point_point p q =>
    rw [point_intersect_point]
    split <;> rfl
  | point_line p m b =>
    rw [point_intersect_line, pointOnLine]
    split <;> rfl
  | line_point m b p =>
    rw [line_intersect_point, pointOnLine]
    split <;> rfl
  | point_vertical p x =>
    rw [point_intersect_vertical, pointOnVertical]
    split <;> rfl
  | vertical_point x p =>
    rw [vertical_intersect_point, pointOnVertical]
    split <;> rfl
  | line_line m b n c =>
    rw [line_intersect_line, lineWithLine]
    split
    · split <;> rfl
    · rfl
  | line_vertical m b x => exact congrArg segments (line_intersect_vertical m b x)
  | vertical_line x m b => exact congrArg segments (vertical_intersect_line m b x)
  | vertical_vertical x y =>
    rw [vertical_intersect_vertical]
    split <;> rfl

theorem eq_oriented_of_trim_eq_segment {f : Figure α} (hf : f.Flat) {s t : Segment α}
    (h : f.trim s = segment t) : ¬s.Degenerate ∧ t = s.oriented := by
  by_cases hd : s.Degenerate
  · rw [trim_of_degenerate _ hd] at h
    rw [h] at hf
    cases hf
  · refine ⟨hd, ?_⟩
    rw [trim_of_not_degenerate _ hd] at h
    cases f with
    | empty => cases h
    | point p =>
      rw [clip] at h
      split at h <;> cases h
    | line m b => exact (Figure.segment.inj h).symm
    | vertical x => exact (Figure.segment.inj h).symm
    | segment r => cases hf

end Figure

end PlaneFigures
