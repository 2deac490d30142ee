import PlaneFigures.Proofs.Canonical
import PlaneFigures.Proofs.Incidence

/-!
# Provenance

Where the coordinates of an intersection come from. The lines that stand for segments on the way
are never part of the result: a line is a result only as the left one of two lines, and a segment
has its ends among those of the operands. A point is an operand that is a point for all purposes, an
end at which two segments touch, or the crossing of two lines that are not parallel. New coordinates
are computed in the last case only. All of this is read off one inversion of the intersection, first
for flat figures and then for all, and holds over every scalar.
-/

namespace PlaneFigures

def Segment.ends {β : Type} (s : Segment β) : List (Point β) := [s.start, s.stop]

namespace Figure

def ends {β : Type} : Figure β → List (Point β)
  | segment s => s.ends
  | _ => []

inductive MadeOf {β : Type} (points : List (Point β)) : Figure β → Prop
  | nothing : MadeOf points empty
  | point {p : Point β} (h : p ∈ points) : MadeOf points (point p)
  | segment {s : Segment β} (h : s.ends ⊆ points) : MadeOf points (segment s)

theorem MadeOf.mono {β : Type} {points more : List (Point β)} (hsub : points ⊆ more) {f : Figure β}
    (h : f.MadeOf points) : f.MadeOf more := by
  cases h with
  | nothing => exact .nothing
  | point h => exact .point (hsub h)
  | segment h => exact .segment (List.Subset.trans h hsub)

end Figure

variable {α : Type} [Scalar α]

namespace Segment

theorem ends_reverse_subset {β : Type} (s : Segment β) : s.reverse.ends ⊆ s.ends := by
  intro p hp
  simp only [ends, reverse_start, reverse_stop, List.mem_cons, List.not_mem_nil, or_false] at hp ⊢
  exact hp.symm

theorem ends_oriented_subset (s : Segment α) : s.oriented.ends ⊆ s.ends := by
  rw [oriented]
  split
  · exact s.ends_reverse_subset
  · exact List.Subset.refl _

theorem ends_ascending_subset (s : Segment α) (axis : Axis) : (s.ascending axis).ends ⊆ s.ends := by
  rw [ascending]
  split
  · exact List.Subset.refl _
  · exact s.ends_reverse_subset

theorem madeOf_shared (axis : Axis) (earlier later : Segment α) :
    (shared axis earlier later).MadeOf (earlier.ends ++ later.ends) := by
  rw [shared]
  split_ifs
  · exact .point (by simp [ends])
  · exact .nothing
  · exact .segment (List.subset_append_right _ _)
  · exact .segment (by simp [ends])

theorem madeOf_overlap (s t : Segment α) : (s.overlap t).MadeOf (s.ends ++ t.ends) := by
  have hs : (s.ascending s.axis).ends ⊆ s.ends ++ t.ends :=
    List.Subset.trans (s.ends_ascending_subset _) (List.subset_append_left _ _)
  have ht : (t.ascending s.axis).ends ⊆ s.ends ++ t.ends :=
    List.Subset.trans (t.ends_ascending_subset _) (List.subset_append_right _ _)
  rw [overlap]
  split
  · exact (madeOf_shared _ _ _).mono (List.append_subset.2 ⟨hs, ht⟩)
  · exact (madeOf_shared _ _ _).mono (List.append_subset.2 ⟨ht, hs⟩)

end Segment

namespace Figure

open Segment

def carrier : Figure α → Figure α
  | segment s => s.carrier
  | f => f

theorem carrier_of_flat {f : Figure α} (hf : f.Flat) : f.carrier = f := by
  cases f with
  | segment s => cases hf
  | _ => rfl

theorem canonical_of_carrier_eq_point {f : Figure α} {p : Point α} (h : f.carrier = point p) :
    f.canonical = point p := by
  cases f with
  | segment s =>
    by_cases hd : s.Degenerate
    · rw [canonical_of_degenerate hd, ← carrier_of_degenerate hd]
      exact h
    · rw [carrier, carrier_of_not_degenerate hd, throughEnds] at h
      split at h <;> cases h
  | _ => exact h

def Unbounded {β : Type} : Figure β → Prop
  | line _ _ | vertical _ => True
  | _ => False

theorem not_punctual_of_unbounded {f : Figure α} (h : f.carrier.Unbounded) :
    ¬f.canonical.Punctual := by
  cases f with
  | segment s =>
    by_cases hd : s.Degenerate
    · rw [carrier, carrier_of_degenerate hd] at h
      exact h.elim
    · rw [canonical_of_not_degenerate hd]
      simp [Punctual]
  | _ => simp_all [Punctual, carrier, Unbounded]

theorem not_degenerate_of_unbounded {s : Segment α} (h : s.carrier.Unbounded) : ¬s.Degenerate := by
  intro hd
  rw [carrier_of_degenerate hd] at h
  exact h

theorem trim_of_unbounded {f : Figure α} (hf : f.Unbounded) {s : Segment α} (hd : ¬s.Degenerate) :
    f.trim s = segment s.oriented := by
  rw [trim_of_not_degenerate _ hd]
  cases f with
  | line m b => rfl
  | vertical x => rfl
  | _ => exact hf.elim

/-- Two lines that are not parallel, with the point that is computed for their crossing. -/
inductive Crosses : Figure α → Figure α → Point α → Prop
  | lines {m b n c : α} (hmn : ¬PlaneFigures.Close m n) :
      Crosses (line m b) (line n c) ⟨(c - b) / (m - n), m * ((c - b) / (m - n)) + b⟩
  | line_vertical (m b x : α) : Crosses (line m b) (vertical x) ⟨x, m * x + b⟩
  | vertical_line (x m b : α) : Crosses (vertical x) (line m b) ⟨x, m * x + b⟩

theorem Crosses.unbounded {f g : Figure α} {p : Point α} (h : Crosses f g p) :
    f.Unbounded ∧ g.Unbounded := by
  cases h <;> exact ⟨trivial, trivial⟩

inductive FlatOrigin (f g : Figure α) : Figure α → Prop
  | nothing : FlatOrigin f g empty
  | operand {p : Point α} (h : f = point p ∨ g = point p) : FlatOrigin f g (point p)
  | crossing {p : Point α} (h : Crosses f g p) : FlatOrigin f g (point p)
  | left (hf : f.Unbounded) (hg : g.kind = f.kind) : FlatOrigin f g f

theorem FlatOrigin.ite {f g : Figure α} {p : Point α} {c : Prop} [Decidable c]
    (h : FlatOrigin f g (point p)) : FlatOrigin f g (if c then point p else empty) := by
  split
  · exact h
  · exact .nothing

theorem flatOrigin_intersect {f g : Figure α} (hf : f.Flat) (hg : g.Flat) :
    FlatOrigin f g (f.intersect g) := by
  induction hf, hg using Flat.pair_cases with
  | empty_left g hg =>
    rw [empty_intersect]
    exact .nothing
  | empty_right f hf =>
    rw [intersect_empty]
    exact .nothing
  | point_point p q =>
    rw [point_intersect_point]
    exact .ite (.operand (Or.inl rfl))
  | point_line p m b =>
    rw [point_intersect_line]
    exact .ite (.operand (Or.inl rfl))
  | line_point m b p =>
    rw [line_intersect_point]
    exact .ite (.operand (Or.inr rfl))
  | point_vertical p x =>
    rw [point_intersect_vertical]
    exact .ite (.operand (Or.inl rfl))
  | vertical_point x p =>
    rw [vertical_intersect_point]
    exact .ite (.operand (Or.inr rfl))
  | line_line m b n c =>
    rw [line_intersect_line, lineWithLine]
    split_ifs with hmn
    · exact .left trivial rfl
    · exact .nothing
    · exact .crossing (.lines hmn)
  | line_vertical m b x =>
    rw [line_intersect_vertical]
    exact .crossing (.line_vertical m b x)
  | vertical_line x m b =>
    rw [vertical_intersect_line]
    exact .crossing (.vertical_line x m b)
  | vertical_vertical x y =>
    rw [vertical_intersect_vertical]
    split
    · exact .left trivial rfl
    · exact .nothing

inductive Origin (f g : Figure α) : Figure α → Prop
  | nothing : Origin f g empty
  | operand {p : Point α} (h : f.canonical = point p ∨ g.canonical = point p) :
      Origin f g (point p)
  | crossing {p : Point α} (h : Crosses f.carrier g.carrier p ∨ Crosses g.carrier f.carrier p) :
      Origin f g (point p)
  | left (hf : f.Unbounded) (hg : g.kind = f.kind) : Origin f g f
  | ends {r : Figure α} (hf : ¬f.canonical.Punctual) (hg : ¬g.canonical.Punctual)
      (h : r.MadeOf (f.ends ++ g.ends)) : Origin f g r

theorem Origin.trim {f g r : Figure α} (h : Origin f g r) (hr : r.Punctual) (s : Segment α) :
    Origin f g (r.trim s) := by
  rcases hr with rfl | ⟨p, rfl⟩
  · rw [trim_empty]
    exact .nothing
  · rw [trim_point]
    split
    · exact h
    · exact .nothing

theorem FlatOrigin.punctual_or_left {f g r : Figure α} (h : FlatOrigin f g r) :
    r.Punctual ∨ r = f ∧ f.Unbounded ∧ g.kind = f.kind := by
  cases h with
  | nothing => exact Or.inl (Or.inl rfl)
  | operand h => exact Or.inl (Or.inr ⟨_, rfl⟩)
  | crossing h => exact Or.inl (Or.inr ⟨_, rfl⟩)
  | left hf hg => exact Or.inr ⟨rfl, hf, hg⟩

theorem unbounded_of_kind_eq {β : Type} {f g : Figure β} (hf : f.Unbounded)
    (hk : g.kind = f.kind) : g.Unbounded := by
  cases f with
  | line m b =>
    cases g with
    | line n c => trivial
    | _ => cases hk
  | vertical x =>
    cases g with
    | vertical y => trivial
    | _ => cases hk
  | _ => exact hf.elim

theorem origin_of_punctual {f g x y r : Figure α} (hx : f.carrier = x) (hy : g.carrier = y)
    (h : FlatOrigin x y r) (hr : r.Punctual) : Origin f g r := by
  subst hx hy
  cases h with
  | nothing => exact .nothing
  | operand h => exact .operand (h.imp canonical_of_carrier_eq_point canonical_of_carrier_eq_point)
  | crossing h => exact .crossing (Or.inl h)
  | left hf hg =>
    rcases hr with hr | ⟨p, hr⟩
    · rw [hr] at hf
      exact hf.elim
    · rw [hr] at hf
      exact hf.elim

theorem Origin.swap {f g r : Figure α} (h : Origin f g r) (hg : ¬g.Unbounded) : Origin g f r := by
  cases h with
  | nothing => exact .nothing
  | operand h => exact .operand h.symm
  | crossing h => exact .crossing h.symm
  | left hf hk => exact absurd (unbounded_of_kind_eq hf hk) hg
  | ends hf hg h => exact .ends hg hf (h.mono (by simp))

theorem origin_trim {f : Figure α} (hf : f.Flat) (s : Segment α) :
    Origin f (segment s) ((f.intersect s.carrier).trim s) := by
  have horigin := flatOrigin_intersect hf (flat_carrier s)
  rcases horigin.punctual_or_left with hr | ⟨hr, hu, hk⟩
  · have hfs : Origin f (segment s) _ := origin_of_punctual (carrier_of_flat hf) rfl horigin hr
    exact hfs.trim hr s
  · have hs : s.carrier.Unbounded := unbounded_of_kind_eq hu hk
    rw [hr, trim_of_unbounded hu (not_degenerate_of_unbounded hs)]
    rw [← carrier_of_flat hf] at hu
    refine .ends (not_punctual_of_unbounded hu) (not_punctual_of_unbounded hs) (.segment ?_)
    exact List.Subset.trans s.ends_oriented_subset (List.subset_append_right _ _)

theorem origin_segments (s t : Segment α) :
    Origin (segment s) (segment t) ((segment s).intersect (segment t)) := by
  have horigin := flatOrigin_intersect (flat_carrier t) (flat_carrier s)
  rw [segment_intersect_segment]
  rcases horigin.punctual_or_left with hr | ⟨hr, hu, hk⟩
  · have hts : Origin (segment t) (segment s) _ := origin_of_punctual rfl rfl horigin hr
    exact ((hts.swap id).trim hr s).trim (Punctual.trim hr s) t
  · have hs : s.carrier.Unbounded := unbounded_of_kind_eq hu hk
    have ht : ¬t.Degenerate := not_degenerate_of_unbounded hu
    rw [hr, trim_of_unbounded hu (not_degenerate_of_unbounded hs), trim_of_not_degenerate _ ht]
    refine .ends (not_punctual_of_unbounded hs) (not_punctual_of_unbounded hu) ?_
    refine (madeOf_overlap _ _).mono (List.append_subset.2 ⟨?_, ?_⟩)
    · exact List.Subset.trans s.ends_oriented_subset (List.subset_append_left _ _)
    · exact List.Subset.trans t.ends_oriented_subset (List.subset_append_right _ _)

theorem origin_intersect (f g : Figure α) : Origin f g (f.intersect g) := by
  rcases f.flat_or_segment with hf | ⟨s, rfl⟩
  · rcases g.flat_or_segment with hg | ⟨t, rfl⟩
    · have horigin := flatOrigin_intersect hf hg
      rcases horigin.punctual_or_left with hr | ⟨hr, hu, hk⟩
      · exact origin_of_punctual (carrier_of_flat hf) (carrier_of_flat hg) horigin hr
      · rw [hr]
        exact .left hu hk
    · rw [intersect_segment_eq_trim]
      exact origin_trim hf t
  · rcases g.flat_or_segment with hg | ⟨t, rfl⟩
    · rw [segment_intersect_eq_trim s hg]
      exact (origin_trim hg s).swap id
    · exact origin_segments s t

theorem Origin.of_line {f g : Figure α} {m b : α} (h : Origin f g (line m b)) :
    f = line m b ∧ g.kind = .line := by
  cases h with
  | left hf hg => exact ⟨rfl, hg⟩
  | ends hf hg h => cases h

theorem Origin.of_vertical {f g : Figure α} {x : α} (h : Origin f g (vertical x)) :
    f = vertical x ∧ g.kind = .vertical := by
  cases h with
  | left hf hg => exact ⟨rfl, hg⟩
  | ends hf hg h => cases h

theorem Origin.of_segment {f g : Figure α} {r : Segment α} (h : Origin f g (segment r)) :
    ¬f.canonical.Punctual ∧ ¬g.canonical.Punctual ∧ r.ends ⊆ f.ends ++ g.ends := by
  cases h with
  | left hf hg => exact hf.elim
  | ends hf hg h =>
    cases h with
    | segment h => exact ⟨hf, hg, h⟩

theorem Origin.of_point {f g : Figure α} {p : Point α} (h : Origin f g (point p)) :
    (f.canonical = point p ∨ g.canonical = point p) ∨
      ¬f.canonical.Punctual ∧ ¬g.canonical.Punctual ∧
        (p ∈ f.ends ++ g.ends ∨ Crosses f.carrier g.carrier p ∨ Crosses g.carrier f.carrier p) := by
  cases h with
  | operand h => exact Or.inl h
  | crossing h =>
    have hu : f.carrier.Unbounded ∧ g.carrier.Unbounded := by
      rcases h with h | h
      · exact h.unbounded
      · exact h.unbounded.symm
    exact Or.inr ⟨not_punctual_of_unbounded hu.1, not_punctual_of_unbounded hu.2, Or.inr h⟩
  | left hf hg => exact hf.elim
  | ends hf hg h =>
    cases h with
    | point h => exact Or.inr ⟨hf, hg, Or.inl h⟩

theorem kind_ne_point_of_not_punctual {β : Type} {f : Figure β} (hf : ¬f.Punctual) :
    f.kind ≠ .point := by
  intro hk
  cases f with
  | point p => exact hf (Or.inr ⟨p, rfl⟩)
  | _ => cases hk

theorem ne_empty_of_not_punctual {f : Figure α} (hf : ¬f.canonical.Punctual) : f ≠ empty := by
  rintro rfl
  exact hf (Or.inl rfl)

theorem kind_segment_of_mem_ends {β : Type} {f g : Figure β} {p : Point β}
    (h : p ∈ f.ends ++ g.ends) : f.kind = .segment ∨ g.kind = .segment := by
  rcases List.mem_append.1 h with h | h
  · cases f with
    | segment s => exact Or.inl rfl
    | _ => cases h
  · cases g with
    | segment s => exact Or.inr rfl
    | _ => cases h

/-- In binary64, an intersection that is a line is the left one of two lines. One that is a segment
has its ends among those of the operands, none of which is a point for all purposes. One that is a
point is an operand, if an operand is a point for all purposes, and is otherwise an end of an
operand or the crossing of two lines that are not parallel. -/
theorem intersect_origin_binary64 (f g : Figure Float) :
    (f = empty ∨ g = empty → f.intersect g = empty) ∧
      (∀ m b, f.intersect g = line m b → f = line m b ∧ g.kind = .line) ∧
      (∀ x, f.intersect g = vertical x → f = vertical x ∧ g.kind = .vertical) ∧
      (∀ r, f.intersect g = segment r →
        (f.kind = .segment ∨ g.kind = .segment) ∧
          (f ≠ empty ∧ f.canonical.kind ≠ .point) ∧ (g ≠ empty ∧ g.canonical.kind ≠ .point) ∧
          r.start ∈ f.ends ++ g.ends ∧ r.stop ∈ f.ends ++ g.ends) ∧
      (∀ p, f.intersect g = point p → f.canonical.kind = .point ∨ g.canonical.kind = .point →
        f.canonical = point p ∨ g.canonical = point p) ∧
      ∀ p, f.intersect g = point p → f.canonical = point p ∨ g.canonical = point p ∨
        p ∈ f.ends ++ g.ends ∨ Crosses f.carrier g.carrier p ∨ Crosses g.carrier f.carrier p := by
  have horigin := origin_intersect f g
  refine ⟨?_, ?_, ?_, ?_, ?_, ?_⟩
  · rintro (rfl | rfl)
    · exact empty_intersect g
    · exact intersect_empty f
  · intro m b h
    rw [h] at horigin
    exact horigin.of_line
  · intro x h
    rw [h] at horigin
    exact horigin.of_vertical
  · intro r h
    rw [h] at horigin
    obtain ⟨hf, hg, hends⟩ := horigin.of_segment
    have hstart : r.start ∈ f.ends ++ g.ends := hends List.mem_cons_self
    have hstop : r.stop ∈ f.ends ++ g.ends := hends (List.mem_cons_of_mem _ List.mem_cons_self)
    exact ⟨kind_segment_of_mem_ends hstart,
      ⟨ne_empty_of_not_punctual hf, kind_ne_point_of_not_punctual hf⟩,
      ⟨ne_empty_of_not_punctual hg, kind_ne_point_of_not_punctual hg⟩, hstart, hstop⟩
  · intro p h hpoint
    rw [h] at horigin
    rcases horigin.of_point with hoperand | ⟨hf, hg, -⟩
    · exact hoperand
    · rcases hpoint with hpoint | hpoint
      · exact absurd hpoint (kind_ne_point_of_not_punctual hf)
      · exact absurd hpoint (kind_ne_point_of_not_punctual hg)
  · intro p h
    rw [h] at horigin
    rcases horigin.of_point with (hf | hg) | ⟨-, -, hnew⟩
    · exact Or.inl hf
    · exact Or.inr (Or.inl hg)
    · exact Or.inr (Or.inr hnew)

/-- Two close lines, two close vertical lines, two overlapping segments of which one is travelled
backward, a degenerate segment on a line, and two crossing lines. -/
theorem intersect_origin_binary64_each_kind :
    let f : Figure Float := segment ⟨⟨2, 1⟩, ⟨1, 0.5⟩⟩
    let g : Figure Float := segment ⟨⟨0, 0⟩, ⟨1.5, 0.75⟩⟩
    let r : Segment Float := ⟨⟨1, 0.5⟩, ⟨1.5, 0.75⟩⟩
    let d : Figure Float := segment ⟨⟨0.1, 0.3⟩, ⟨0.1, 0.300001⟩⟩
    (line 0.1 (1 / 0)).intersect (empty : Figure Float) = empty ∧
      (line (0.1 : Float) 2).kind = .line ∧ (vertical (0.3 : Float)).kind = .vertical ∧
      f.intersect g = segment r ∧ r.start ∈ f.ends ++ g.ends ∧ r.stop ∈ f.ends ++ g.ends ∧
      (d.canonical = point ⟨0.1, 0.3⟩ ∨ (line (3 : Float) 0).canonical = point ⟨0.1, 0.3⟩) ∧
      ∃ p, (line (1 : Float) 0).intersect (line (-1) 1) = point p ∧
        (Crosses (line (1 : Float) 0) (line (-1) 1) p ∨
          Crosses (line (-1 : Float) 1) (line 1 0) p) := by
  intro f g r d
  have hlines : (line 0.1 1.999999 : Figure Float).intersect (line 0.1 2) = line 0.1 1.999999 := by
    decide +kernel
  have hverticals : (vertical 0.3 : Figure Float).intersect (vertical 0.3) = vertical 0.3 := by
    decide +kernel
  have hoverlap : f.intersect g = segment r := by decide +kernel
  have hpoint : d.intersect (line 3 0) = point ⟨0.1, 0.3⟩ := by decide +kernel
  have hcross : (line 1 0 : Figure Float).intersect (line (-1) 1) = point ⟨0.5, 0.5⟩ := by
    decide +kernel
  have hline := (intersect_origin_binary64 _ _).2.1 _ _ hlines
  have hvertical := (intersect_origin_binary64 _ _).2.2.1 _ hverticals
  have hsegment := (intersect_origin_binary64 f g).2.2.2.1 r hoverlap
  have hd : d.canonical.kind = .point := by decide +kernel
  refine ⟨(intersect_origin_binary64 _ _).1 (Or.inr rfl), hline.2, hvertical.2, hoverlap,
    hsegment.2.2.2.1, hsegment.2.2.2.2,
    (intersect_origin_binary64 d _).2.2.2.2.1 _ hpoint (Or.inl hd), _, hcross, ?_⟩
  rcases (intersect_origin_binary64 _ _).2.2.2.2.2 _ hcross with h | h | h | h
  · cases h
  · cases h
  · cases h
  · exact h

end Figure

end PlaneFigures
