import PlaneFigures.Figure

/-!
# Intersection

The intersection of two figures, with a trace of the pairs that were met on the way. A traced
computation has a result and the entries it recorded; sequencing appends the entries. Points and
lines are intersected directly, each unordered pair of kinds by one rule. A segment is first
replaced by its infinite line, or by its start if it is degenerate; the figure it is met with is
intersected with that, and the outcome is clipped to the segment. Each such step leaves one
segment less among the operands, which is why the recursion ends. Below the recursion stands one
equation per pair of kinds for the intersection itself.

Two segments of one line are clipped through their extents along an axis: the segment whose extent
comes first is the earlier one, and what remains is the part after the later one's start and before
the first of the two stops.
-/

namespace PlaneFigures

/-- A result and the entries recorded before it, oldest first. -/
structure Traced (ε β : Type) where
  entries : List ε
  result : β
deriving Repr

namespace Traced

variable {ε β γ : Type}

instance : Monad (Traced ε) where
  pure b := ⟨[], b⟩
  bind t f := ⟨t.entries ++ (f t.result).entries, (f t.result).result⟩

def note (e : ε) : Traced ε Unit := ⟨[e], ()⟩

def mapEntries {ζ : Type} (f : ε → ζ) (t : Traced ε β) : Traced ζ β :=
  ⟨t.entries.map f, t.result⟩

@[simp] theorem entries_pure (b : β) : (pure b : Traced ε β).entries = [] := rfl

@[simp] theorem result_pure (b : β) : (pure b : Traced ε β).result = b := rfl

@[simp] theorem entries_bind (t : Traced ε β) (f : β → Traced ε γ) :
    (t >>= f).entries = t.entries ++ (f t.result).entries := rfl

@[simp] theorem result_bind (t : Traced ε β) (f : β → Traced ε γ) :
    (t >>= f).result = (f t.result).result := rfl

@[simp] theorem entries_map (f : β → γ) (t : Traced ε β) : (f <$> t).entries = t.entries :=
  List.append_nil _

@[simp] theorem result_map (f : β → γ) (t : Traced ε β) : (f <$> t).result = f t.result := rfl

end Traced

variable {α : Type} [Scalar α]

namespace Segment

/-- What an earlier and a later segment of one line share, both ascending along the axis. Where
they only touch, up to the tolerance, the stop of the earlier one is kept. -/
def shared (axis : Axis) (earlier later : Segment α) : Figure α :=
  if Close (axis.coord earlier.stop) (axis.coord later.start) then .point earlier.stop
  else if axis.coord earlier.stop < axis.coord later.start then .empty
  else if axis.coord later.stop < axis.coord earlier.stop then .segment later
  else .segment ⟨later.start, earlier.stop⟩

/-- What two segments of one line share. The first segment decides along which axis both are
read. -/
def overlap (s t : Segment α) : Figure α :=
  let s' := s.ascending s.axis
  let t' := t.ascending s.axis
  if s'.Precedes s.axis t' then shared s.axis s' t' else shared s.axis t' s'

def BoxHolds (s : Segment α) (p : Point α) : Prop :=
  Within p.x s.start.x s.stop.x ∧ Within p.y s.start.y s.stop.y

instance (s : Segment α) (p : Point α) : Decidable (s.BoxHolds p) :=
  inferInstanceAs (Decidable (_ ∧ _))

end Segment

/-- The part on the segment `s` of a figure that lies on the infinite line of `s`. -/
def Figure.clip (f : Figure α) (s : Segment α) : Figure α :=
  match f with
  | .empty => .empty
  | .point p => if s.BoxHolds p then .point p else .empty
  | .line _ _ | .vertical _ => .segment s
  | .segment t => t.overlap s

namespace Figure

/-- One for a segment and zero for any other figure: what an operand adds to the number of
segments still to be replaced. -/
def segments {β : Type} : Figure β → Nat
  | segment _ => 1
  | _ => 0

@[simp] theorem segments_segment {β : Type} (s : Segment β) : (segment s).segments = 1 := rfl

@[simp] theorem segments_point {β : Type} (p : Point β) : (point p).segments = 0 := rfl

@[simp] theorem segments_throughEnds (s : Segment α) : (throughEnds s).segments = 0 := by
  unfold throughEnds
  split <;> rfl

def pointOnLine (p : Point α) (slope intercept : α) : Figure α :=
  if PlaneFigures.Close p.y (slope * p.x + intercept) then point p else empty

def pointOnVertical (p : Point α) (x : α) : Figure α :=
  if PlaneFigures.Close p.x x then point p else empty

def lineWithLine (m b n c : α) : Figure α :=
  if PlaneFigures.Close m n then
    if PlaneFigures.Close b c then line m b else empty
  else
    let x := (c - b) / (m - n)
    point ⟨x, m * x + b⟩

mutual

def meet (f g : Figure α) : Traced (Figure α × Figure α) (Figure α) := do
  Traced.note (f, g)
  match f, g with
  | _, empty => pure empty
  | f, segment s => f.meetSegment s
  | segment s, g => g.meetSegment s
  | empty, _ => pure empty
  | point p, point q => pure (if q.Close p then point p else empty)
  | point p, line m b | line m b, point p => pure (pointOnLine p m b)
  | point p, vertical x | vertical x, point p => pure (pointOnVertical p x)
  | line m b, line n c => pure (lineWithLine m b n c)
  | line m b, vertical x | vertical x, line m b => pure (point ⟨x, m * x + b⟩)
  | vertical x, vertical y => pure (if PlaneFigures.Close x y then vertical x else empty)
termination_by 2 * (f.segments + g.segments) + 1
decreasing_by
  all_goals
    simp only [segments_segment]
    omega

def meetSegment (f : Figure α) (s : Segment α) : Traced (Figure α × Figure α) (Figure α) :=
  if s.Degenerate then f.meet (point s.start)
  else (·.clip s.oriented) <$> f.meet (throughEnds s.oriented)
termination_by 2 * (f.segments + 1)
decreasing_by
  all_goals
    simp only [segments_point, segments_throughEnds]
    omega

end

def intersect (f g : Figure α) : Figure α := (f.meet g).result

def intersectSegment (f : Figure α) (s : Segment α) : Figure α := (f.meetSegment s).result

@[simp] theorem intersect_empty (f : Figure α) : f.intersect empty = empty := by
  rw [intersect, meet.eq_def]
  rfl

theorem intersect_segment (f : Figure α) (s : Segment α) :
    f.intersect (segment s) = f.intersectSegment s := by
  rw [intersect, meet.eq_def]
  rfl

theorem segment_intersect_point (s : Segment α) (p : Point α) :
    (segment s).intersect (point p) = (point p).intersectSegment s := by
  rw [intersect, meet.eq_def]
  rfl

theorem segment_intersect_line (s : Segment α) (m b : α) :
    (segment s).intersect (line m b) = (line m b).intersectSegment s := by
  rw [intersect, meet.eq_def]
  rfl

theorem segment_intersect_vertical (s : Segment α) (x : α) :
    (segment s).intersect (vertical x) = (vertical x).intersectSegment s := by
  rw [intersect, meet.eq_def]
  rfl

theorem intersectSegment_of_degenerate (f : Figure α) {s : Segment α} (h : s.Degenerate) :
    f.intersectSegment s = f.intersect (point s.start) := by
  rw [intersectSegment, meetSegment, if_pos h, intersect]

theorem intersectSegment_of_not_degenerate (f : Figure α) {s : Segment α}
    (h : ¬s.Degenerate) :
    f.intersectSegment s = (f.intersect (throughEnds s.oriented)).clip s.oriented := by
  rw [intersectSegment, meetSegment, if_neg h, Traced.result_map, intersect]

@[simp] theorem empty_intersect_point (p : Point α) :
    (empty : Figure α).intersect (point p) = empty := by
  rw [intersect, meet.eq_def]
  rfl

@[simp] theorem empty_intersect_line (m b : α) :
    (empty : Figure α).intersect (line m b) = empty := by
  rw [intersect, meet.eq_def]
  rfl

@[simp] theorem empty_intersect_vertical (x : α) :
    (empty : Figure α).intersect (vertical x) = empty := by
  rw [intersect, meet.eq_def]
  rfl

@[simp] theorem point_intersect_point (p q : Point α) :
    (point p).intersect (point q) = if q.Close p then point p else empty := by
  rw [intersect, meet.eq_def]
  rfl

@[simp] theorem point_intersect_line (p : Point α) (m b : α) :
    (point p).intersect (line m b) = pointOnLine p m b := by
  rw [intersect, meet.eq_def]
  rfl

@[simp] theorem line_intersect_point (p : Point α) (m b : α) :
    (line m b).intersect (point p) = pointOnLine p m b := by
  rw [intersect, meet.eq_def]
  rfl

@[simp] theorem point_intersect_vertical (p : Point α) (x : α) :
    (point p).intersect (vertical x) = pointOnVertical p x := by
  rw [intersect, meet.eq_def]
  rfl

@[simp] theorem vertical_intersect_point (p : Point α) (x : α) :
    (vertical x).intersect (point p) = pointOnVertical p x := by
  rw [intersect, meet.eq_def]
  rfl

@[simp] theorem line_intersect_line (m b n c : α) :
    (line m b).intersect (line n c) = lineWithLine m b n c := by
  rw [intersect, meet.eq_def]
  rfl

@[simp] theorem line_intersect_vertical (m b x : α) :
    (line m b).intersect (vertical x) = point ⟨x, m * x + b⟩ := by
  rw [intersect, meet.eq_def]
  rfl

@[simp] theorem vertical_intersect_line (m b x : α) :
    (vertical x).intersect (line m b) = point ⟨x, m * x + b⟩ := by
  rw [intersect, meet.eq_def]
  rfl

@[simp] theorem vertical_intersect_vertical (x y : α) :
    (vertical x).intersect (vertical y) =
      if PlaneFigures.Close x y then vertical x else empty := by
  rw [intersect, meet.eq_def]
  rfl

@[simp] theorem empty_intersect (f : Figure α) : empty.intersect f = empty := by
  cases f with
  | empty => exact intersect_empty _
  | point p => exact empty_intersect_point p
  | line m b => exact empty_intersect_line m b
  | vertical x => exact empty_intersect_vertical x
  | segment s =>
    rw [intersect_segment]
    by_cases h : s.Degenerate
    · rw [intersectSegment_of_degenerate _ h, empty_intersect_point]
    · rw [intersectSegment_of_not_degenerate _ h]
      unfold throughEnds
      split
      · rw [empty_intersect_vertical, clip]
      · rw [empty_intersect_line, clip]

end Figure

end PlaneFigures
