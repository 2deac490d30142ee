import PlaneFigures.Proofs.Provenance
import PlaneFigures.Proofs.Recorder

/-!
# Divisors of an intersection

An intersection divides in two places: for the slope of the line through a segment, and for the
abscissa at which two lines cross. A recorded divisor is therefore one of two differences, and a
tolerance test has found either of them too large for its operands to count as equal. All other
steps of an intersection record nothing if only divisors are kept.
-/

namespace PlaneFigures

open Figure (flat_carrier carrier_of_flat)

variable {α : Type} [Scalar α]

namespace Recorder

theorem entries_divisors_close (p q : Point α) : (divisors.close p q).entries = [] := by
  simp [close, apply_ite Traced.entries]

theorem entries_divisors_oriented (s : Segment α) : (divisors.oriented s).entries = [] := by
  simp [oriented, apply_ite Traced.entries]

theorem entries_divisors_shared (axis : Axis) (s t : Segment α) :
    (divisors.shared axis s t).entries = [] := by
  simp [shared, apply_ite Traced.entries]

theorem entries_divisors_overlap (s t : Segment α) : (divisors.overlap s t).entries = [] := by
  simp [overlap, axis, apply_ite Traced.entries, entries_divisors_shared]

theorem entries_divisors_clip (f : Figure α) (s : Segment α) :
    (divisors.clip f s).entries = [] := by
  cases f with
  | point p => simp [clip, apply_ite Traced.entries]
  | segment t => exact entries_divisors_overlap t s
  | _ => rfl

theorem mem_entries_divisors_through {s : Segment α} {d : α}
    (h : d ∈ (divisors.through s).entries) : ¬s.Upright ∧ d = s.stop.x - s.start.x := by
  simp only [through, Traced.entries_bind, entries_ask, test_divisors, List.nil_append] at h
  split_ifs at h with hu
  · cases h
  · exact ⟨fun hup => hu (decide_eq_true hup), List.mem_singleton.1 h⟩

theorem mem_entries_divisors_meetSegment {s : Segment α} {meet : Figure α → Traced α (Figure α)}
    {d : α} (h : d ∈ (divisors.meetSegment s meet).entries) :
    ¬s.oriented.Upright ∧ d = s.oriented.stop.x - s.oriented.start.x ∨
      d ∈ (meet s.carrier).entries := by
  by_cases hd : s.Degenerate
  · rw [divisors.entries_meetSegment_of_degenerate hd, entries_divisors_close] at h
    exact Or.inr h
  · rw [divisors.entries_meetSegment_of_not_degenerate hd, entries_divisors_close,
      entries_divisors_oriented, entries_divisors_clip, List.append_nil] at h
    exact (List.mem_append.1 h).imp_left mem_entries_divisors_through

theorem mem_entries_divisors_flat {f g : Figure α} {d : α}
    (h : d ∈ (divisors.flat f g).entries) :
    ∃ m b n c, f = .line m b ∧ g = .line n c ∧ ¬Close m n ∧ d = m - n := by
  cases f with
  | line m b =>
    cases g with
    | line n c =>
      by_cases hmn : (Test.slopes m n).Holds
      · simp [flat, hmn, apply_ite Traced.entries] at h
      · simp only [flat, hmn, Traced.entries_bind, entries_ask, result_ask, test_divisors,
          decide_false, Bool.false_eq_true, if_false] at h
        exact ⟨m, b, n, c, rfl, rfl, hmn, List.mem_singleton.1 h⟩
    | _ => simp [flat, apply_ite Traced.entries] at h
  | _ => cases g <;> simp [flat, apply_ite Traced.entries, entries_divisors_close] at h

end Recorder

namespace Figure

open Recorder

/-- What the divisor of a division can be: the run of a segment that is not upright, or the
difference of two slopes that are not close. -/
inductive Divisor (f g : Figure α) : α → Prop
  | run {s : Segment α} (hs : f = segment s ∨ g = segment s) (hu : ¬s.oriented.Upright) :
      Divisor f g (s.oriented.stop.x - s.oriented.start.x)
  | slopes {m b n c : α}
      (h : f.carrier = line m b ∧ g.carrier = line n c ∨
        g.carrier = line m b ∧ f.carrier = line n c)
      (hmn : ¬PlaneFigures.Close m n) : Divisor f g (m - n)

theorem divisor_of_mem_flat {f g x y : Figure α} {d : α} (hd : d ∈ (divisors.flat x y).entries)
    (h : f.carrier = x ∧ g.carrier = y ∨ g.carrier = x ∧ f.carrier = y) : Divisor f g d := by
  obtain ⟨m, b, n, c, rfl, rfl, hmn, rfl⟩ := mem_entries_divisors_flat hd
  exact .slopes h hmn

theorem divisor_of_mem_divisions {f g : Figure α} {d : α} (hd : d ∈ (f.divisions g).entries) :
    Divisor f g d := by
  rw [divisions] at hd
  induction f, g using operand_cases with
  | empty_right f => cases f <;> cases hd
  | flat_flat f g hf hg =>
    rw [divisors.intersect_of_flat hf hg] at hd
    exact divisor_of_mem_flat hd (Or.inl ⟨carrier_of_flat hf, carrier_of_flat hg⟩)
  | flat_segment f t hf =>
    rw [divisors.intersect_segment_of_flat hf] at hd
    rcases mem_entries_divisors_meetSegment hd with ⟨hu, rfl⟩ | hd
    · exact .run (Or.inr rfl) hu
    · exact divisor_of_mem_flat hd (Or.inl ⟨carrier_of_flat hf, rfl⟩)
  | segment_flat s g hg hne =>
    rw [divisors.segment_intersect_of_flat s hg hne] at hd
    rcases mem_entries_divisors_meetSegment hd with ⟨hu, rfl⟩ | hd
    · exact .run (Or.inl rfl) hu
    · exact divisor_of_mem_flat hd (Or.inr ⟨carrier_of_flat hg, rfl⟩)
  | segment_segment s t =>
    rw [divisors.segment_intersect_segment] at hd
    rcases mem_entries_divisors_meetSegment hd with ⟨hu, rfl⟩ | hd
    · exact .run (Or.inr rfl) hu
    rcases mem_entries_divisors_meetSegment hd with ⟨hu, rfl⟩ | hd
    · exact .run (Or.inl rfl) hu
    · exact divisor_of_mem_flat hd (Or.inr ⟨rfl, rfl⟩)

end Figure

end PlaneFigures
