import PlaneFigures.Proofs.Carrier

/-!
# Recorded intersections

The intersection of two figures once more, with its tolerance tests and its divisions made visible.
Every function on the way is repeated here with each test replaced by a question and each division
by a step of its own. A recorder says what is kept of either, so that one computation yields the
tests in the order in which they are evaluated and another one the divisors. The second half of a
conjunction is asked only if the first half holds. Each repeated function is proved to have the
result of the function itself, whatever is recorded: what is recorded belongs to the intersection
and to nothing else.
-/

namespace PlaneFigures

inductive Test (α : Type) where
  | coordinates (a b : α)
  | slopes (m n : α)
  | range (v a b : α)
deriving DecidableEq

variable {α ε : Type} [Scalar α]

namespace Test

def Holds : Test α → Prop
  | coordinates a b => Close a b
  | slopes m n => Close m n
  | range v a b => Within v a b

instance (t : Test α) : Decidable t.Holds :=
  match t with
  | coordinates a b => inferInstanceAs (Decidable (Close a b))
  | slopes m n => inferInstanceAs (Decidable (Close m n))
  | range v a b => inferInstanceAs (Decidable (Within v a b))

end Test

/-- What is kept of a test and of a division by a number. -/
structure Recorder (α ε : Type) where
  test : Test α → List ε
  divisor : α → List ε

namespace Recorder

def tests {β : Type} : Recorder β (Test β) := ⟨fun t => [t], fun _ => []⟩

def divisors {β : Type} : Recorder β β := ⟨fun _ => [], fun d => [d]⟩

@[simp] theorem test_tests {β : Type} (t : Test β) : tests.test t = [t] := rfl

@[simp] theorem test_divisors {β : Type} (t : Test β) : divisors.test t = [] := rfl

variable (r : Recorder α ε)

def ask (t : Test α) : Traced ε Bool := ⟨r.test t, decide t.Holds⟩

def divide (a b : α) : Traced ε α := ⟨r.divisor b, a / b⟩

@[simp] theorem entries_ask (t : Test α) : (r.ask t).entries = r.test t := rfl

@[simp] theorem result_ask (t : Test α) : (r.ask t).result = decide t.Holds := rfl

@[simp] theorem result_divide (a b : α) : (r.divide a b).result = a / b := rfl

def close (p q : Point α) : Traced ε Bool := do
  if ← r.ask (.coordinates p.x q.x) then r.ask (.coordinates p.y q.y) else pure false

@[simp] theorem result_close (p q : Point α) : (r.close p q).result = decide (p.Close q) := by
  by_cases h : Close p.x q.x
  · simp only [close, Test.Holds, Point.Close, Traced.result_bind, result_ask, h, decide_true,
      if_true, true_and]
    rfl
  · simp [close, Test.Holds, Point.Close, h]

def oriented (s : Segment α) : Traced ε (Segment α) := do
  if ← r.ask (.coordinates s.start.x s.stop.x) then
    pure (if s.stop.y < s.start.y then s.reverse else s)
  else
    pure (if s.stop.x < s.start.x then s.reverse else s)

@[simp] theorem result_oriented (s : Segment α) : (r.oriented s).result = s.oriented := by
  by_cases h : Close s.start.x s.stop.x <;>
    simp [oriented, Test.Holds, Segment.oriented, Segment.Backward, Segment.Upright, h]

def through (s : Segment α) : Traced ε (Figure α) := do
  if ← r.ask (.coordinates s.start.x s.stop.x) then
    pure (.vertical s.start.x)
  else
    let slope ← r.divide (s.stop.y - s.start.y) (s.stop.x - s.start.x)
    pure (.line slope (s.start.y - slope * s.start.x))

@[simp] theorem result_through (s : Segment α) :
    (r.through s).result = Figure.throughEnds s := by
  by_cases h : Close s.start.x s.stop.x <;>
    simp [through, Test.Holds, Figure.throughEnds, Segment.Upright, h]

def shared (axis : Axis) (earlier later : Segment α) : Traced ε (Figure α) := do
  if ← r.ask (.coordinates (axis.coord earlier.stop) (axis.coord later.start)) then
    pure (.point earlier.stop)
  else if axis.coord earlier.stop < axis.coord later.start then
    pure .empty
  else if axis.coord later.stop < axis.coord earlier.stop then
    pure (.segment later)
  else
    pure (.segment ⟨later.start, earlier.stop⟩)

@[simp] theorem result_shared (axis : Axis) (earlier later : Segment α) :
    (r.shared axis earlier later).result = Segment.shared axis earlier later := by
  by_cases h : Close (axis.coord earlier.stop) (axis.coord later.start)
  · simp [shared, Test.Holds, Segment.shared, h]
  · simp only [shared, Segment.shared, Test.Holds, Traced.result_bind, result_ask, h,
      decide_false, Bool.false_eq_true, if_false]
    split
    · rfl
    · split <;> rfl

def axis (s : Segment α) : Traced ε Axis := do
  if ← r.ask (.coordinates s.start.x s.stop.x) then pure .y else pure .x

@[simp] theorem result_axis (s : Segment α) : (r.axis s).result = s.axis := by
  by_cases h : Close s.start.x s.stop.x <;>
    simp [axis, Test.Holds, Segment.axis, Segment.Upright, h]

def overlap (s t : Segment α) : Traced ε (Figure α) := do
  let axis ← r.axis s
  let s' := s.ascending axis
  let t' := t.ascending axis
  if s'.Precedes axis t' then r.shared axis s' t' else r.shared axis t' s'

@[simp] theorem result_overlap (s t : Segment α) : (r.overlap s t).result = s.overlap t := by
  simp only [overlap, Segment.overlap, Traced.result_bind, result_axis]
  split <;> exact r.result_shared _ _ _

def clip (f : Figure α) (s : Segment α) : Traced ε (Figure α) :=
  match f with
  | .empty => pure .empty
  | .point p => do
    if ← r.ask (.range p.x s.start.x s.stop.x) then
      if ← r.ask (.range p.y s.start.y s.stop.y) then pure (.point p) else pure .empty
    else pure .empty
  | .line _ _ | .vertical _ => pure (.segment s)
  | .segment t => r.overlap t s

@[simp] theorem result_clip (f : Figure α) (s : Segment α) : (r.clip f s).result = f.clip s := by
  cases f with
  | empty => rfl
  | line m b => rfl
  | vertical x => rfl
  | segment t => exact r.result_overlap t s
  | point p =>
    by_cases hx : Within p.x s.start.x s.stop.x <;>
      by_cases hy : Within p.y s.start.y s.stop.y <;>
        simp [clip, Figure.clip, Segment.BoxHolds, Test.Holds, hx, hy]

def flat (f g : Figure α) : Traced ε (Figure α) :=
  match f, g with
  | .point p, .point q => do
    if ← r.close q p then pure (.point p) else pure .empty
  | .point p, .line m b | .line m b, .point p => do
    if ← r.ask (.coordinates p.y (m * p.x + b)) then pure (.point p) else pure .empty
  | .point p, .vertical x | .vertical x, .point p => do
    if ← r.ask (.coordinates p.x x) then pure (.point p) else pure .empty
  | .line m b, .line n c => do
    if ← r.ask (.slopes m n) then
      if ← r.ask (.coordinates b c) then pure (.line m b) else pure .empty
    else
      let x ← r.divide (c - b) (m - n)
      pure (.point ⟨x, m * x + b⟩)
  | .line m b, .vertical x | .vertical x, .line m b => pure (.point ⟨x, m * x + b⟩)
  | .vertical x, .vertical y => do
    if ← r.ask (.coordinates x y) then pure (.vertical x) else pure .empty
  | _, _ => pure .empty

open Figure (Flat pointOnLine pointOnVertical lineWithLine) in
theorem result_flat {f g : Figure α} (hf : f.Flat) (hg : g.Flat) :
    (r.flat f g).result = f.intersect g := by
  induction hf, hg using Flat.pair_cases with
  | empty_left g hg =>
    rw [Figure.empty_intersect]
    cases g <;> rfl
  | empty_right f hf =>
    rw [Figure.intersect_empty]
    cases f <;> rfl
  | point_point p q => by_cases h : q.Close p <;> simp [flat, h]
  | point_line p m b =>
    by_cases h : Close p.y (m * p.x + b) <;> simp [flat, pointOnLine, Test.Holds, h]
  | line_point m b p =>
    by_cases h : Close p.y (m * p.x + b) <;> simp [flat, pointOnLine, Test.Holds, h]
  | point_vertical p x =>
    by_cases h : Close p.x x <;> simp [flat, pointOnVertical, Test.Holds, h]
  | vertical_point x p =>
    by_cases h : Close p.x x <;> simp [flat, pointOnVertical, Test.Holds, h]
  | line_line m b n c =>
    by_cases hm : Close m n <;> by_cases hb : Close b c <;>
      simp [flat, lineWithLine, Test.Holds, hm, hb]
  | line_vertical m b x => exact (Figure.line_intersect_vertical m b x).symm
  | vertical_line x m b => exact (Figure.vertical_intersect_line m b x).symm
  | vertical_vertical x y => by_cases h : Close x y <;> simp [flat, Test.Holds, h]

/-- Meeting a segment, where `meet` intersects a carrier with the other operand. -/
def meetSegment (s : Segment α) (meet : Figure α → Traced ε (Figure α)) :
    Traced ε (Figure α) := do
  if ← r.close s.start s.stop then
    meet (.point s.start)
  else
    let s' ← r.oriented s
    let common ← meet (← r.through s')
    r.clip common s'

section MeetSegment

variable {s : Segment α} {meet : Figure α → Traced ε (Figure α)}

theorem result_meetSegment : (r.meetSegment s meet).result = (meet s.carrier).result.trim s := by
  by_cases h : s.Degenerate
  · have hp : s.start.Close s.stop := h
    simp [meetSegment, hp, s.carrier_of_degenerate h, Figure.trim_of_degenerate _ h]
  · have hp : ¬s.start.Close s.stop := h
    simp [meetSegment, hp, s.carrier_of_not_degenerate h, Figure.trim_of_not_degenerate _ h]

theorem entries_meetSegment_of_degenerate (h : s.Degenerate) :
    (r.meetSegment s meet).entries =
      (r.close s.start s.stop).entries ++ (meet s.carrier).entries := by
  have hp : s.start.Close s.stop := h
  simp [meetSegment, hp, s.carrier_of_degenerate h]

theorem entries_meetSegment_of_not_degenerate (h : ¬s.Degenerate) :
    (r.meetSegment s meet).entries =
      (r.close s.start s.stop).entries ++ (r.oriented s).entries ++
        (r.through s.oriented).entries ++ (meet s.carrier).entries ++
          (r.clip (meet s.carrier).result s.oriented).entries := by
  have hp : ¬s.start.Close s.stop := h
  simp [meetSegment, hp, s.carrier_of_not_degenerate h]

theorem mem_entries_meetSegment {e : ε} (he : e ∈ (meet s.carrier).entries) :
    e ∈ (r.meetSegment s meet).entries := by
  by_cases h : s.Degenerate
  · rw [entries_meetSegment_of_degenerate r h]
    exact List.mem_append_right _ he
  · rw [entries_meetSegment_of_not_degenerate r h]
    exact List.mem_append_left _ (List.mem_append_right _ he)

end MeetSegment

def intersect (f g : Figure α) : Traced ε (Figure α) :=
  match f, g with
  | _, .empty => pure .empty
  | .segment s, .segment t => r.meetSegment t fun c => r.meetSegment s (r.flat c)
  | f, .segment t => r.meetSegment t (r.flat f)
  | .segment s, g => r.meetSegment s (r.flat g)
  | f, g => r.flat f g

theorem intersect_of_flat {f g : Figure α} (hf : f.Flat) (hg : g.Flat) :
    r.intersect f g = r.flat f g := by
  cases f with
  | segment s => cases hf
  | _ =>
    cases g with
    | segment t => cases hg
    | _ => rfl

theorem intersect_segment_of_flat {f : Figure α} (hf : f.Flat) (t : Segment α) :
    r.intersect f (.segment t) = r.meetSegment t (r.flat f) := by
  cases f with
  | segment s => cases hf
  | _ => rfl

theorem segment_intersect_of_flat (s : Segment α) {g : Figure α} (hg : g.Flat) (hne : g ≠ .empty) :
    r.intersect (.segment s) g = r.meetSegment s (r.flat g) := by
  cases g with
  | empty => exact absurd rfl hne
  | segment t => cases hg
  | _ => rfl

theorem segment_intersect_segment (s t : Segment α) :
    r.intersect (.segment s) (.segment t) =
      r.meetSegment t fun c => r.meetSegment s (r.flat c) := rfl

open Figure (flat_carrier) in
/-- Recording does not change the intersection. -/
theorem result_intersect (f g : Figure α) : (r.intersect f g).result = f.intersect g := by
  induction f, g using Figure.operand_cases with
  | empty_right f =>
    rw [Figure.intersect_empty]
    cases f <;> rfl
  | flat_flat f g hf hg => rw [r.intersect_of_flat hf hg, r.result_flat hf hg]
  | flat_segment f t hf =>
    rw [r.intersect_segment_of_flat hf, result_meetSegment, r.result_flat hf (flat_carrier t),
      Figure.intersect_segment_eq_trim]
  | segment_flat s g hg hne =>
    rw [r.segment_intersect_of_flat s hg hne, result_meetSegment,
      r.result_flat hg (flat_carrier s), Figure.segment_intersect_eq_trim s hg]
  | segment_segment s t =>
    rw [segment_intersect_segment, result_meetSegment, result_meetSegment,
      r.result_flat (flat_carrier t) (flat_carrier s), Figure.segment_intersect_segment]

end Recorder

/-- The intersection of two figures, recording every tolerance test that it evaluates. -/
def Figure.probe (f g : Figure α) : Traced (Test α) (Figure α) := Recorder.tests.intersect f g

/-- The intersection of two figures, recording the divisor of every division. -/
def Figure.divisions (f g : Figure α) : Traced α (Figure α) := Recorder.divisors.intersect f g

end PlaneFigures
