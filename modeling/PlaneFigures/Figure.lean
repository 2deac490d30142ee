import PlaneFigures.Scalar

/-!
# Figures

The figures of the language: nothing, a point, a line with a slope, a vertical line, and a segment.
A segment is a pair of endpoints in some order, possibly close to each other. It is oriented when it
runs from left to right, or upwards if its endpoints have close abscissas; along a given axis it can
also be put in ascending order by an exact comparison. This module holds the kinds, shifts, the
canonical form, and equality up to the tolerance. Figures are never changed in place; every
operation builds a new one. Every figure but the empty one is a curve with one parameter, from which
points of the figure are drawn: the abscissa on a line, the ordinate on a vertical line, the
fraction of the way on a segment.
-/

namespace PlaneFigures

variable {α : Type} [Scalar α]

structure Point (α : Type) where
  x : α
  y : α
deriving BEq, DecidableEq, Repr

namespace Point

def Close (p q : Point α) : Prop := PlaneFigures.Close p.x q.x ∧ PlaneFigures.Close p.y q.y

instance (p q : Point α) : Decidable (p.Close q) := inferInstanceAs (Decidable (_ ∧ _))

def shift (p : Point α) (dx dy : α) : Point α := ⟨p.x + dx, p.y + dy⟩

def lerp (p q : Point α) (t : α) : Point α := ⟨p.x + (q.x - p.x) * t, p.y + (q.y - p.y) * t⟩

end Point

inductive Axis where
  | x
  | y
deriving DecidableEq, Repr

def Axis.coord {β : Type} : Axis → Point β → β
  | .x, p => p.x
  | .y, p => p.y

@[simp] theorem Axis.coord_x {β : Type} (p : Point β) : Axis.x.coord p = p.x := rfl

@[simp] theorem Axis.coord_y {β : Type} (p : Point β) : Axis.y.coord p = p.y := rfl

structure Segment (α : Type) where
  start : Point α
  stop : Point α
deriving BEq, DecidableEq, Repr

namespace Segment

def reverse {β : Type} (s : Segment β) : Segment β := ⟨s.stop, s.start⟩

@[simp] theorem reverse_start {β : Type} (s : Segment β) : s.reverse.start = s.stop := rfl

@[simp] theorem reverse_stop {β : Type} (s : Segment β) : s.reverse.stop = s.start := rfl

@[simp] theorem reverse_reverse {β : Type} (s : Segment β) : s.reverse.reverse = s := rfl

def Degenerate (s : Segment α) : Prop := s.start.Close s.stop

instance (s : Segment α) : Decidable s.Degenerate := inferInstanceAs (Decidable (Point.Close _ _))

def Upright (s : Segment α) : Prop := Close s.start.x s.stop.x

instance (s : Segment α) : Decidable s.Upright := inferInstanceAs (Decidable (Close _ _))

def Backward (s : Segment α) : Prop :=
  if s.Upright then s.stop.y < s.start.y else s.stop.x < s.start.x

instance (s : Segment α) : Decidable s.Backward :=
  inferInstanceAs (Decidable (if s.Upright then s.stop.y < s.start.y else s.stop.x < s.start.x))

def oriented (s : Segment α) : Segment α := if s.Backward then s.reverse else s

def shift (s : Segment α) (dx dy : α) : Segment α := ⟨s.start.shift dx dy, s.stop.shift dx dy⟩

def axis (s : Segment α) : Axis := if s.Upright then .y else .x

/-- The endpoints in ascending order along an axis. Endpoints that cannot be compared are
exchanged. -/
def ascending (s : Segment α) (axis : Axis) : Segment α :=
  if axis.coord s.start ≤ axis.coord s.stop then s else s.reverse

/-- The extent of `s` along the axis comes no later than that of `t`: it starts earlier, or
starts together with it and does not stop later. -/
def Precedes (axis : Axis) (s t : Segment α) : Prop :=
  axis.coord s.start < axis.coord t.start ∨
    axis.coord s.start ≤ axis.coord t.start ∧ axis.coord s.stop ≤ axis.coord t.stop

instance (axis : Axis) (s t : Segment α) : Decidable (s.Precedes axis t) :=
  inferInstanceAs (Decidable (_ ∨ _))

end Segment

inductive Kind where
  | empty
  | point
  | line
  | vertical
  | segment
deriving DecidableEq, Repr

def Kind.name : Kind → String
  | .empty => "Empty"
  | .point => "Point"
  | .line => "Line"
  | .vertical => "VerticalLine"
  | .segment => "LineSegment"

/-- A figure: the empty one, a point, the line `y = slope * x + intercept`, the line of all
points with abscissa `x`, or a segment, which may be degenerate until made canonical. -/
inductive Figure (α : Type) where
  | empty
  | point (p : Point α)
  | line (slope intercept : α)
  | vertical (x : α)
  | segment (s : Segment α)
deriving BEq, DecidableEq, Repr

namespace Figure

def kind {β : Type} : Figure β → Kind
  | empty => .empty
  | point _ => .point
  | line _ _ => .line
  | vertical _ => .vertical
  | segment _ => .segment

/-- The figure moved by the offset `(dx, dy)`. A segment whose shifted endpoints are close becomes
its shifted start. -/
def shift (f : Figure α) (dx dy : α) : Figure α :=
  match f with
  | empty => empty
  | point p => point (p.shift dx dy)
  | line slope intercept => line slope (intercept + dy - slope * dx)
  | vertical x => vertical (x + dx)
  | segment s =>
    let moved := s.shift dx dy
    if moved.Degenerate then point moved.start else segment moved

def canonical : Figure α → Figure α
  | segment s => if s.Degenerate then point s.start else segment s.oriented
  | f => f

def Close : Figure α → Figure α → Prop
  | empty, empty => True
  | point p, point q => p.Close q
  | line m b, line n c => PlaneFigures.Close m n ∧ PlaneFigures.Close b c
  | vertical x, vertical y => PlaneFigures.Close x y
  | segment s, segment t => s.start.Close t.start ∧ s.stop.Close t.stop
  | _, _ => False

instance (f g : Figure α) : Decidable (f.Close g) := by
  unfold Close
  split <;> infer_instance

@[simp] theorem canonical_empty : (empty : Figure α).canonical = empty := rfl

@[simp] theorem canonical_point (p : Point α) : (point p).canonical = point p := rfl

@[simp] theorem canonical_line (m b : α) : (line m b).canonical = line m b := rfl

@[simp] theorem canonical_vertical (x : α) : (vertical x).canonical = vertical x := rfl

theorem canonical_segment (s : Segment α) :
    (segment s).canonical = if s.Degenerate then point s.start else segment s.oriented := rfl

def throughEnds (s : Segment α) : Figure α :=
  if s.Upright then vertical s.start.x
  else
    let slope := (s.stop.y - s.start.y) / (s.stop.x - s.start.x)
    line slope (s.start.y - slope * s.start.x)

def pointAt? (f : Figure α) (t : α) : Option (Point α) :=
  match f with
  | empty => none
  | point p => some p
  | line slope intercept => some ⟨t, slope * t + intercept⟩
  | vertical x => some ⟨x, t⟩
  | segment s => some (s.start.lerp s.stop t)

/-- A point of a figure at a drawn parameter, or nothing if the figure is empty. The parameter of a
line is a coordinate; nothing is drawn for a point. -/
def pointOn? {m : Type → Type} [Monad m] (f : Figure α) (coordinate fraction : m α) :
    m (Option (Point α)) :=
  match f with
  | empty => return none
  | point p => return some p
  | line _ _ | vertical _ => return f.pointAt? (← coordinate)
  | segment _ => return f.pointAt? (← fraction)

end Figure

end PlaneFigures
