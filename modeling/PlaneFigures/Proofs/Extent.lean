import PlaneFigures.Proofs.Binary64Closeness
import PlaneFigures.Proofs.Provenance

/-!
# Extents along an axis

Clipping one segment to another is the intersection of two intervals, whichever of the segments
comes first and in whichever direction each is travelled. The lower bound is the greater of the two
minima along the axis and the upper bound the lesser of the two maxima. What is shared is a point if
the bounds are close, nothing if they are the wrong way round, and else a segment that runs from one
bound to the other. Infinite coordinates are allowed, and the segments need not be on one line.

The touching test compares the stop of the earlier segment, which is not the upper bound if the
later segment is inside the earlier one. The test is then false, as it would be for the upper bound:
closeness passes to a number between two close numbers, and the ends of a segment are not close
along its axis.
-/

namespace PlaneFigures

open Binary64

namespace Figure

/-- The figure is what the bounds `lo` and `hi` along an axis leave: a point at `hi` if they are
close, nothing if `hi` is below `lo`, and else a segment from `lo` to `hi`. -/
inductive Spans (axis : Axis) (lo hi : Float) : Figure Float → Prop
  | touching {p : Point Float} (hclose : PlaneFigures.Close hi lo) (hp : axis.coord p == hi) :
      Spans axis lo hi (point p)
  | apart (hclose : ¬PlaneFigures.Close hi lo) (hlt : hi < lo) : Spans axis lo hi empty
  | shared {r : Segment Float} (hclose : ¬PlaneFigures.Close hi lo) (hlt : ¬hi < lo)
      (hstart : axis.coord r.start == lo) (hstop : axis.coord r.stop == hi) :
      Spans axis lo hi (segment r)

def SameExtent (axis : Axis) : Figure Float → Figure Float → Prop
  | empty, empty => True
  | point p, point q => axis.coord p == axis.coord q
  | segment s, segment t =>
    axis.coord s.start == axis.coord t.start ∧ axis.coord s.stop == axis.coord t.stop
  | _, _ => False

variable {axis : Axis} {lo hi lo' hi' : Float} {f g : Figure Float}

theorem Spans.congr (hlo : lo == lo') (hhi : hi == hi') (h : f.Spans axis lo hi) :
    f.Spans axis lo' hi' := by
  have hclose : PlaneFigures.Close hi lo ↔ PlaneFigures.Close hi' lo' := close_congr hhi hlo
  have hlt : hi < lo ↔ hi' < lo' := lt_congr hhi hlo
  cases h with
  | touching hc hp => exact .touching (hclose.1 hc) (BEq.trans hp hhi)
  | apart hc hl => exact .apart (mt hclose.2 hc) (hlt.1 hl)
  | shared hc hl hstart hstop =>
    exact .shared (mt hclose.2 hc) (mt hlt.2 hl) (BEq.trans hstart hlo) (BEq.trans hstop hhi)

theorem Spans.sameExtent (hf : f.Spans axis lo hi) (hg : g.Spans axis lo hi) :
    f.SameExtent axis g := by
  cases hf with
  | touching hc hp =>
    cases hg with
    | touching _ hq => exact BEq.trans hp (BEq.symm hq)
    | apart hc' _ => exact absurd hc hc'
    | shared hc' _ _ _ => exact absurd hc hc'
  | apart hc hl =>
    cases hg with
    | touching hc' _ => exact absurd hc' hc
    | apart _ _ => trivial
    | shared _ hl' _ _ => exact absurd hl hl'
  | shared hc hl hstart hstop =>
    cases hg with
    | touching hc' _ => exact absurd hc' hc
    | apart _ hl' => exact absurd hl' hl
    | shared _ _ hstart' hstop' =>
      exact ⟨BEq.trans hstart (BEq.symm hstart'), BEq.trans hstop (BEq.symm hstop')⟩

end Figure

namespace Segment

def low (axis : Axis) (s : Segment Float) : Float := min (axis.coord s.start) (axis.coord s.stop)

def high (axis : Axis) (s : Segment Float) : Float := max (axis.coord s.start) (axis.coord s.stop)

def Numeric (s : Segment Float) : Prop := ∀ p ∈ s.ends, p.x.isNaN = false ∧ p.y.isNaN = false

instance (s : Segment Float) : Decidable s.Numeric :=
  inferInstanceAs (Decidable (∀ p ∈ s.ends, p.x.isNaN = false ∧ p.y.isNaN = false))

/-- The segment is not degenerate and the axis is the one along which it is read: its abscissas are
not close, or they are and its ordinates are not. -/
def Extends : Axis → Segment Float → Prop
  | .x, s => ¬Close s.start.x s.stop.x
  | .y, s => Close s.start.x s.stop.x ∧ ¬Close s.start.y s.stop.y

instance (axis : Axis) (s : Segment Float) : Decidable (s.Extends axis) :=
  match axis with
  | .x => inferInstanceAs (Decidable (¬Close _ _))
  | .y => inferInstanceAs (Decidable (Close _ _ ∧ ¬Close _ _))

variable {axis : Axis} {s t earlier later : Segment Float}

theorem Numeric.coord (h : s.Numeric) (axis : Axis) {p : Point Float} (hp : p ∈ s.ends) :
    (axis.coord p).isNaN = false := by
  cases axis with
  | x => exact (h p hp).1
  | y => exact (h p hp).2

theorem Numeric.start (h : s.Numeric) (axis : Axis) : (axis.coord s.start).isNaN = false :=
  h.coord axis (by simp [ends])

theorem Numeric.stop (h : s.Numeric) (axis : Axis) : (axis.coord s.stop).isNaN = false :=
  h.coord axis (by simp [ends])

theorem Numeric.reverse (h : s.Numeric) : s.reverse.Numeric :=
  fun p hp => h p (s.ends_reverse_subset hp)

theorem extends_axis (hd : ¬s.Degenerate) : s.Extends s.axis := by
  rw [axis]
  split
  case isTrue hu => exact ⟨hu, fun hy => hd ⟨hu, hy⟩⟩
  case isFalse hu => exact hu

theorem Extends.axis_eq (h : s.Extends axis) : s.axis = axis := by
  cases axis with
  | x => exact if_neg h
  | y => exact if_pos h.1

theorem Extends.not_close (h : s.Extends axis) :
    ¬Close (axis.coord s.start) (axis.coord s.stop) := by
  cases axis with
  | x => exact h
  | y => exact h.2

theorem Extends.reverse (h : s.Extends axis) : s.reverse.Extends axis := by
  cases axis with
  | x => exact mt close_comm.1 h
  | y => exact ⟨close_comm.1 h.1, mt close_comm.1 h.2⟩

theorem coord_ascending (axis : Axis) (s : Segment Float) :
    axis.coord (s.ascending axis).start = s.low axis ∧
      axis.coord (s.ascending axis).stop = s.high axis := by
  rw [low, high, Binary64.min_eq, Binary64.max_eq, ascending]
  split <;> exact ⟨rfl, rfl⟩

structure Ascends (axis : Axis) (s : Segment Float) : Prop where
  start_num : (axis.coord s.start).isNaN = false
  stop_num : (axis.coord s.stop).isNaN = false
  le : axis.coord s.start ≤ axis.coord s.stop
  not_close : ¬Close (axis.coord s.stop) (axis.coord s.start)

theorem ascends_ascending (hs : s.Numeric) (h : s.Extends axis) :
    (s.ascending axis).Ascends axis := by
  have hstart := hs.start axis
  have hstop := hs.stop axis
  rw [ascending]
  split
  case isTrue hle => exact ⟨hstart, hstop, hle, mt close_comm.1 h.not_close⟩
  case isFalse hle =>
    have hlt : axis.coord s.stop < axis.coord s.start := (Binary64.not_le hstart hstop).1 hle
    exact ⟨hstop, hstart, Binary64.le_of_lt hstop hstart hlt, h.not_close⟩

theorem Ascends.spans_shared (he : earlier.Ascends axis) (hl : later.Ascends axis)
    (hfirst : axis.coord earlier.start ≤ axis.coord later.start) :
    (shared axis earlier later).Spans axis
      (max (axis.coord earlier.start) (axis.coord later.start))
      (min (axis.coord earlier.stop) (axis.coord later.stop)) := by
  rw [Binary64.max_eq, Binary64.min_eq, shared, if_pos hfirst]
  by_cases hin : axis.coord earlier.stop ≤ axis.coord later.stop
  · rw [if_pos hin, if_neg ((Binary64.not_lt hl.stop_num he.stop_num).2 hin)]
    split_ifs with hclose hlt
    · exact .touching hclose (beq_self he.stop_num)
    · exact .apart hclose hlt
    · exact .shared hclose hlt (beq_self hl.start_num) (beq_self he.stop_num)
  · -- Here `later` is inside `earlier`, and its stop lies between its start and the stop of
    -- `earlier`.
    have hlt : axis.coord later.stop < axis.coord earlier.stop :=
      (Binary64.not_le he.stop_num hl.stop_num).1 hin
    have hle : axis.coord later.stop ≤ axis.coord earlier.stop :=
      Binary64.le_of_lt hl.stop_num he.stop_num hlt
    have hclose : ¬Close (axis.coord earlier.stop) (axis.coord later.start) := fun h =>
      hl.not_close (close_of_between hl.stop_num hl.le hle h)
    have hnot : ¬axis.coord earlier.stop < axis.coord later.start :=
      (Binary64.not_lt he.stop_num hl.start_num).2
        (Binary64.le_trans hl.start_num hl.stop_num he.stop_num hl.le hle)
    rw [if_neg hin, if_neg hclose, if_neg hnot, if_pos hlt]
    exact .shared hl.not_close ((Binary64.not_lt hl.stop_num hl.start_num).2 hl.le)
      (beq_self hl.start_num) (beq_self hl.stop_num)

theorem Ascends.start_le_of_precedes (hs : s.Ascends axis) (ht : t.Ascends axis)
    (h : s.Precedes axis t) : axis.coord s.start ≤ axis.coord t.start := by
  rcases h with hlt | hle
  · exact Binary64.le_of_lt hs.start_num ht.start_num hlt
  · exact hle.1

theorem Ascends.start_le_of_not_precedes (hs : s.Ascends axis) (ht : t.Ascends axis)
    (h : ¬s.Precedes axis t) : axis.coord t.start ≤ axis.coord s.start :=
  (Binary64.not_lt hs.start_num ht.start_num).1 fun hlt => h (Or.inl hlt)

theorem spans_overlap (hs : s.Numeric) (ht : t.Numeric) (hsa : s.Extends axis)
    (hta : t.Extends axis) :
    (s.overlap t).Spans axis (max (s.low axis) (t.low axis)) (min (s.high axis) (t.high axis)) := by
  have hs' := ascends_ascending hs hsa
  have ht' := ascends_ascending ht hta
  rw [← (coord_ascending axis s).1, ← (coord_ascending axis s).2, ← (coord_ascending axis t).1,
    ← (coord_ascending axis t).2, overlap, hsa.axis_eq]
  split
  case isTrue hpre => exact hs'.spans_shared ht' (hs'.start_le_of_precedes ht' hpre)
  case isFalse hpre =>
    exact (ht'.spans_shared hs' (hs'.start_le_of_not_precedes ht' hpre)).congr
      (Binary64.max_comm ht'.start_num hs'.start_num) (Binary64.min_comm ht'.stop_num hs'.stop_num)

theorem extent_of_mem (hs : s.Numeric) (h : s.Extends axis) {s' : Segment Float}
    (hs' : s' ∈ [s, s.reverse]) :
    s'.Numeric ∧ s'.Extends axis ∧ s'.low axis == s.low axis ∧ s'.high axis == s.high axis := by
  have hstart := hs.start axis
  have hstop := hs.stop axis
  rcases List.mem_pair.1 hs' with rfl | rfl
  · exact ⟨hs, h, beq_self (min_spec hstart hstop).1, beq_self (max_spec hstart hstop).1⟩
  · exact ⟨hs.reverse, h.reverse, Binary64.min_comm hstop hstart, Binary64.max_comm hstop hstart⟩

end Segment

namespace Figure

open Segment

/-- Clipping a segment to a segment is the intersection of their intervals along the axis, with
ends of the two as its ends, and up to equal coordinates along the axis it does not depend on the
order of the segments or of their ends. -/
theorem clip_spans_binary64 (axis : Axis) {s t : Segment Float} (hs : s.Numeric) (ht : t.Numeric)
    (hsa : s.Extends axis) (hta : t.Extends axis) :
    ((segment s).clip t).Spans axis (max (s.low axis) (t.low axis))
        (min (s.high axis) (t.high axis)) ∧
      ((segment s).clip t).MadeOf (s.ends ++ t.ends) ∧
      ∀ s' ∈ [s, s.reverse], ∀ t' ∈ [t, t.reverse],
        ((segment s).clip t).SameExtent axis ((segment s').clip t') ∧
          ((segment s).clip t).SameExtent axis ((segment t').clip s') := by
  have hspans := spans_overlap hs ht hsa hta
  refine ⟨hspans, madeOf_overlap s t, ?_⟩
  intro s' hs' t' ht'
  obtain ⟨hsn, hse, hslow, hshigh⟩ := extent_of_mem hs hsa hs'
  obtain ⟨htn, hte, htlow, hthigh⟩ := extent_of_mem ht hta ht'
  have hlow : max (t'.low axis) (s'.low axis) == max (s.low axis) (t.low axis) :=
    BEq.trans (Binary64.max_comm (beq_iff.1 htlow).1 (beq_iff.1 hslow).1) (max_congr hslow htlow)
  have hhigh : min (t'.high axis) (s'.high axis) == min (s.high axis) (t.high axis) :=
    BEq.trans (Binary64.min_comm (beq_iff.1 hthigh).1 (beq_iff.1 hshigh).1)
      (min_congr hshigh hthigh)
  have hst := (spans_overlap hsn htn hse hte).congr (max_congr hslow htlow)
    (min_congr hshigh hthigh)
  have hts := (spans_overlap htn hsn hte hse).congr hlow hhigh
  exact ⟨hspans.sameExtent hst, hspans.sameExtent hts⟩

/-- A segment inside another one that is travelled backward and reaches infinity. -/
theorem clip_spans_binary64_inside :
    let s : Segment Float := ⟨⟨3, 1⟩, ⟨-1 / 0, 2⟩⟩
    let t : Segment Float := ⟨⟨1, 0⟩, ⟨2, 5⟩⟩
    (s.Numeric ∧ t.Numeric ∧ s.Extends .x ∧ t.Extends .x) ∧
      ((segment s).clip t).Spans .x 1 2 ∧ ((segment s).clip t).MadeOf (s.ends ++ t.ends) ∧
      ((segment s).clip t).SameExtent .x ((segment t.reverse).clip s.reverse) := by
  intro s t
  have hs : s.Numeric := by decide +kernel
  have ht : t.Numeric := by decide +kernel
  have hsa : s.Extends .x := by decide +kernel
  have hta : t.Extends .x := by decide +kernel
  have hlow : max (s.low .x) (t.low .x) = 1 := by decide +kernel
  have hhigh : min (s.high .x) (t.high .x) = 2 := by decide +kernel
  obtain ⟨hspans, hmade, hsame⟩ := clip_spans_binary64 .x hs ht hsa hta
  rw [hlow, hhigh] at hspans
  exact ⟨⟨hs, ht, hsa, hta⟩, hspans, hmade,
    (hsame _ (List.mem_cons_of_mem _ List.mem_cons_self) _
      (List.mem_cons_of_mem _ List.mem_cons_self)).2⟩

end Figure

end PlaneFigures
