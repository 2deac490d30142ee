import Mathlib.Tactic.SplitIfs
import PlaneFigures.Expr.Log
import PlaneFigures.Proofs.Carrier

/-!
# Dispatch

The calls that are made while two figures are intersected. The entry point hands over to the handler
for the kind of its second operand, and the handler looks at the kind of the first one. It answers at
once, or calls the handler for the exchanged operands, or, for a segment, calls the entry point with
the carrier of the segment and clips the answer. No operand shrinks in these calls. What decreases is
the number of segments among the operands and, between two calls of the entry point, the number of
the kind on which a handler is called. Every call therefore returns. The pairs for which the entry
point is called on the way are those recorded by the intersection itself, and their number is exact:
one, and one more for each operand that is a segment, unless the second operand is empty.
-/

namespace PlaneFigures

open Figure (pointOnLine pointOnVertical lineWithLine throughEnds)

/-- A call of the entry point with two figures, or a call on the first figure of the handler for the
kind of the second one. -/
inductive Call (α : Type) where
  | entry (f g : Figure α)
  | handler (f g : Figure α)

/-- What a call does: it answers, or passes on the answer of another call, or clips that answer to a
segment. -/
inductive Action (α : Type) where
  | answer (r : Figure α)
  | pass (callee : Call α)
  | clip (callee : Call α) (s : Segment α)

variable {α : Type} [Scalar α]

namespace Call

def act : Call α → Action α
  | entry f g => .pass (handler f g)
  | handler _ .empty => .answer .empty
  | handler f (.segment s) =>
    if s.Degenerate then .pass (entry f (.point s.start))
    else .clip (entry f (throughEnds s.oriented)) s.oriented
  | handler (.segment s) g => .pass (handler g (.segment s))
  | handler .empty _ => .answer .empty
  | handler (.point p) (.point q) => .answer (if q.Close p then .point p else .empty)
  | handler (.line m b) (.point p) => .pass (handler (.point p) (.line m b))
  | handler (.vertical x) (.point p) => .pass (handler (.point p) (.vertical x))
  | handler (.point p) (.line m b) => .answer (pointOnLine p m b)
  | handler (.line m b) (.line n c) => .answer (lineWithLine m b n c)
  | handler (.vertical x) (.line m b) => .pass (handler (.line m b) (.vertical x))
  | handler (.point p) (.vertical x) => .answer (pointOnVertical p x)
  | handler (.line m b) (.vertical x) => .answer (.point ⟨x, m * x + b⟩)
  | handler (.vertical x) (.vertical y) => .answer (if Close x y then .vertical x else .empty)

def pair? {β : Type} : Call β → Option (Figure β × Figure β)
  | entry f g => some (f, g)
  | handler _ _ => none

/-- The call returns the figure after the calls listed have been made, each by the one before it. -/
inductive Returns : Call α → List (Call α) → Figure α → Prop
  | answer {c : Call α} {r : Figure α} (h : c.act = .answer r) : Returns c [] r
  | pass {c d : Call α} {calls : List (Call α)} {r : Figure α} (h : c.act = .pass d)
      (hd : Returns d calls r) : Returns c (d :: calls) r
  | clip {c d : Call α} {s : Segment α} {calls : List (Call α)} {r : Figure α}
      (h : c.act = .clip d s) (hd : Returns d calls r) : Returns c (d :: calls) (r.clip s)

def meeting : Call α → Traced (Figure α × Figure α) (Figure α)
  | entry f g => f.meet g
  | handler f g => ⟨(f.meet g).entries.tail, f.intersect g⟩

end Call

namespace Action

def callee? {β : Type} : Action β → Option (Call β)
  | answer _ => none
  | pass callee => some callee
  | clip callee _ => some callee

def meeting : Action α → Traced (Figure α × Figure α) (Figure α)
  | answer r => pure r
  | pass callee => callee.meeting
  | clip callee s => (·.clip s) <$> callee.meeting

end Action

namespace Call

theorem meeting_entry (f g : Figure α) :
    (entry f g).meeting =
      ⟨(f, g) :: (handler f g).meeting.entries, (handler f g).meeting.result⟩ := by
  simp only [meeting, Figure.intersect, Figure.meet.eq_def f g]
  rfl

theorem meeting_handler_segment (f : Figure α) (s : Segment α) :
    (handler f (.segment s)).meeting = (handler f (.segment s)).act.meeting := by
  have hmeet : (handler f (.segment s)).meeting = f.meetSegment s := by
    rw [meeting, Figure.intersect_segment, Figure.meet.eq_def]
    rfl
  rw [hmeet, Figure.meetSegment, act]
  split <;> rfl

theorem meeting_handler (f g : Figure α) :
    (handler f g).meeting = (handler f g).act.meeting := by
  cases g with
  | segment s => exact meeting_handler_segment f s
  | _ =>
    cases f <;>
      simp only [act, Action.meeting, meeting, Figure.intersect, Figure.meet.eq_def] <;> rfl

/-- A call adds to what its action records the pair of the entry point, if it is one of that. -/
theorem meeting_eq (c : Call α) :
    c.meeting = ⟨c.pair?.toList ++ c.act.meeting.entries, c.act.meeting.result⟩ := by
  cases c with
  | entry f g => exact meeting_entry f g
  | handler f g => exact meeting_handler f g

theorem callee_handler {f g : Figure α} {d : Call α} (h : (handler f g).act.callee? = some d) :
    (∃ carrier : Figure α, d = entry f carrier ∧ carrier.segments < g.segments) ∨
      d = handler g f ∧ g.kind.ctorIdx < f.kind.ctorIdx := by
  cases g with
  | segment s =>
    left
    rw [act] at h
    split_ifs at h
    · exact ⟨.point s.start, (Option.some.inj h).symm, Nat.one_pos⟩
    · refine ⟨throughEnds s.oriented, (Option.some.inj h).symm, ?_⟩
      rw [Figure.segments_throughEnds]
      exact Nat.one_pos
  | empty => cases h
  | _ =>
    right
    cases f <;> cases h <;> exact ⟨rfl, Nat.le_of_ble_eq_true rfl⟩

/-- Segments among the operands count most. Between calls of the entry point, the number of the kind
on which a handler is called decreases. -/
def measure {β : Type} : Call β → Nat
  | entry f g => 8 * (f.segments + g.segments) + 5
  | handler f g => 8 * (f.segments + g.segments) + f.kind.ctorIdx

theorem measure_callee_lt {c d : Call α} (h : c.act.callee? = some d) : d.measure < c.measure := by
  cases c with
  | entry f g =>
    obtain rfl : handler f g = d := Option.some.inj h
    have hkind : f.kind.ctorIdx ≤ 4 := by cases f <;> exact Nat.le_of_ble_eq_true rfl
    simp only [measure]
    omega
  | handler f g =>
    obtain ⟨carrier, rfl, hlt⟩ | ⟨rfl, hlt⟩ := callee_handler h
    · simp only [measure]
      omega
    · simp only [measure]
      omega

theorem exists_returns (c : Call α) :
    ∃ calls, c.Returns calls c.meeting.result ∧
      (c :: calls).filterMap pair? = c.meeting.entries := by
  -- The induction is on the measure: a call returns if the call that it makes does.
  induction hn : c.measure using Nat.strongRecOn generalizing c with
  | ind n ih =>
    subst hn
    have hmeeting := c.meeting_eq
    have hlt := fun d => measure_callee_lt (c := c) (d := d)
    cases hact : c.act with
    | answer r =>
      rw [hmeeting, hact]
      refine ⟨[], .answer hact, ?_⟩
      cases c <;> rfl
    | pass d =>
      rw [hact] at hlt
      obtain ⟨calls, hreturns, hpairs⟩ := ih _ (hlt d rfl) d rfl
      rw [hmeeting, hact]
      refine ⟨d :: calls, .pass hact hreturns, ?_⟩
      rw [List.filterMap_cons, hpairs]
      cases c <;> rfl
    | clip d s =>
      rw [hact] at hlt
      obtain ⟨calls, hreturns, hpairs⟩ := ih _ (hlt d rfl) d rfl
      rw [hmeeting, hact]
      refine ⟨d :: calls, .clip hact hreturns, ?_⟩
      rw [List.filterMap_cons, hpairs]
      cases c <;> simp [Action.meeting, pair?]

end Call

namespace Figure

theorem entries_meet_empty (f : Figure α) : (f.meet empty).entries = [(f, empty)] := by
  rw [meet.eq_def]
  rfl

theorem entries_meet_of_flat {f g : Figure α} (hf : f.Flat) (hg : g.Flat) :
    (f.meet g).entries = [(f, g)] := by
  rw [meet.eq_def]
  cases f with
  | segment s => cases hf
  | _ =>
    cases g with
    | segment t => cases hg
    | _ => rfl

theorem entries_meetSegment (f : Figure α) (s : Segment α) :
    (f.meetSegment s).entries = (f.meet s.carrier).entries := by
  rw [meetSegment, Segment.carrier]
  split
  · rfl
  · exact Traced.entries_map _ _

theorem entries_meet_segment (f : Figure α) (s : Segment α) :
    (f.meet (segment s)).entries = (f, segment s) :: (f.meet s.carrier).entries := by
  rw [← entries_meetSegment, meet.eq_def]
  rfl

theorem entries_segment_meet (s : Segment α) {g : Figure α} (hg : g.Flat) (hne : g ≠ empty) :
    ((segment s).meet g).entries = [(segment s, g), (g, s.carrier)] := by
  have hcarrier := entries_meet_of_flat hg (flat_carrier s)
  rw [← entries_meetSegment] at hcarrier
  rw [← hcarrier, meet.eq_def]
  cases g with
  | empty => exact absurd rfl hne
  | segment t => cases hg
  | _ => rfl

theorem carrier_ne_empty (s : Segment α) : s.carrier ≠ empty := by
  rw [Segment.carrier, throughEnds]
  split_ifs <;> simp

theorem length_entries_meet (f : Figure α) {g : Figure α} (hg : g ≠ empty) :
    (f.meet g).entries.length = 1 + f.segments + g.segments := by
  rcases g.flat_or_segment with hflat | ⟨t, rfl⟩
  · rcases f.flat_or_segment with hf | ⟨s, rfl⟩
    · rw [entries_meet_of_flat hf hflat, hf, hflat]
      rfl
    · rw [entries_segment_meet s hflat hg, hflat]
      rfl
  · rcases f.flat_or_segment with hf | ⟨s, rfl⟩
    · rw [entries_meet_segment, entries_meet_of_flat hf (flat_carrier t), hf]
      rfl
    · rw [entries_meet_segment, entries_segment_meet s (flat_carrier t) (carrier_ne_empty t)]
      rfl

theorem segments_eq_ite {β : Type} (f : Figure β) :
    f.segments = if f.kind = .segment then 1 else 0 := by
  cases f <;> rfl

/-- In binary64, the calls made while two figures are intersected end, with the intersection as their
answer. The pairs for which the entry point is called are those that the intersection records, and an
evaluation reports each of them on a line of its own at the finest level. They are exactly one if the
second figure is empty, and else one and one more for each segment. -/
theorem dispatch_returns_binary64 (f g : Figure Float) :
    (∃ calls, (Call.entry f g).Returns calls (f.intersect g) ∧
      (Call.entry f g :: calls).filterMap Call.pair? = (f.meet g).entries) ∧
    (Evaluation.meet f g).events.map Event.line =
      (f.meet g).entries.map
        (fun pair => (.trace, "intersect " ++ pair.1.text ++ " with " ++ pair.2.text)) ∧
    (f.meet g).entries.length =
      (if g = empty then 1
        else 1 + (if f.kind = .segment then 1 else 0) + (if g.kind = .segment then 1 else 0)) ∧
    (f.meet g).entries.length ≤ 3 := by
  have hlength : (f.meet g).entries.length =
      if g = empty then 1
      else 1 + (if f.kind = .segment then 1 else 0) + (if g.kind = .segment then 1 else 0) := by
    rw [← segments_eq_ite, ← segments_eq_ite]
    split
    case isTrue hg =>
      rw [hg, entries_meet_empty]
      rfl
    case isFalse hg => exact length_entries_meet f hg
  refine ⟨(Call.entry f g).exists_returns, ?_, hlength, ?_⟩
  · rw [Evaluation.events_meet, List.map_map]
    rfl
  · rw [hlength]
    split_ifs <;> omega

example : ((segment ⟨⟨0, 0⟩, ⟨2, 2⟩⟩).meet (segment ⟨⟨3, 3⟩, ⟨1, 1⟩⟩) :
    Traced (Figure Float × Figure Float) (Figure Float)).entries.length = 3 := by
  decide +kernel

end Figure

end PlaneFigures
