import Mathlib.Analysis.Convex.Hull
import Mathlib.Tactic.Linarith
import PlaneFigures.Proofs.Exact

/-!
# Point sets

The set of rational points that a figure denotes. A segment denotes the convex hull of its
endpoints; on a line that is met once by every perpendicular to an axis, this hull is the part of
the line whose coordinate along the axis lies between those of the endpoints. All facts about
clipping rest on that reading.
-/

namespace PlaneFigures

attribute [ext] Point

def Point.pair (p : Point ℚ) : ℚ × ℚ := (p.x, p.y)

namespace Figure

def points : Figure ℚ → Set (Point ℚ)
  | empty => ∅
  | point p => {p}
  | line m b => {p | p.y = m * p.x + b}
  | vertical x => {p | p.x = x}
  | segment s => {p | p.pair ∈ convexHull ℚ {s.start.pair, s.stop.pair}}

@[simp] theorem points_empty : (empty : Figure ℚ).points = ∅ := rfl

@[simp] theorem points_point (p : Point ℚ) : (point p).points = {p} := rfl

theorem mem_points_line {m b : ℚ} {p : Point ℚ} :
    p ∈ (line m b).points ↔ p.y = m * p.x + b := Iff.rfl

theorem mem_points_vertical {x : ℚ} {p : Point ℚ} : p ∈ (vertical x).points ↔ p.x = x := Iff.rfl

theorem points_ite_point {c : Prop} [Decidable c] {p : Point ℚ} {A : Set (Point ℚ)}
    (h : c ↔ p ∈ A) : (if c then point p else empty).points = {p} ∩ A := by
  split_ifs with hc
  · rw [points_point, Set.inter_eq_left.2 (Set.singleton_subset_iff.2 (h.1 hc))]
  · rw [points_empty, Set.singleton_inter_eq_empty.2 (mt h.2 hc)]

theorem mem_points_segment {s : Segment ℚ} {p : Point ℚ} :
    p ∈ (segment s).points ↔ ∃ t : ℚ, (0 ≤ t ∧ t ≤ 1) ∧
      p.x = s.start.x + t * (s.stop.x - s.start.x) ∧
        p.y = s.start.y + t * (s.stop.y - s.start.y) := by
  change p.pair ∈ convexHull ℚ {s.start.pair, s.stop.pair} ↔ _
  rw [convexHull_pair, segment_eq_image']
  constructor
  · intro hmem
    obtain ⟨t, ht, he⟩ := hmem
    exact ⟨t, ht, (congrArg Prod.fst he).symm, (congrArg Prod.snd he).symm⟩
  · intro hmem
    obtain ⟨t, ht, hx, hy⟩ := hmem
    exact ⟨t, ht, Prod.ext hx.symm hy.symm⟩

theorem points_segment_self (p : Point ℚ) : (segment ⟨p, p⟩).points = {p} := by
  change {q : Point ℚ | q.pair ∈ convexHull ℚ {p.pair, p.pair}} = {p}
  rw [Set.pair_eq_singleton, convexHull_singleton]
  ext q
  constructor
  · intro h
    exact Point.ext (congrArg Prod.fst h) (congrArg Prod.snd h)
  · intro he
    subst he
    rfl

theorem points_segment_reverse (s : Segment ℚ) :
    (segment s.reverse).points = (segment s).points := by
  change {p : Point ℚ | p.pair ∈ convexHull ℚ {s.stop.pair, s.start.pair}} = _
  rw [Set.pair_comm]
  rfl

theorem points_segment_oriented (s : Segment ℚ) :
    (segment s.oriented).points = (segment s).points := by
  rw [Segment.oriented]
  split
  · exact points_segment_reverse s
  · rfl

end Figure

/-- The line is met exactly once by every perpendicular to the axis. -/
inductive Axis.Crosses : Axis → Figure ℚ → Prop
  | sloped (m b : ℚ) : Crosses .x (.line m b)
  | upright (c : ℚ) : Crosses .y (.vertical c)

theorem between_iff {a b v : ℚ} :
    min a b ≤ v ∧ v ≤ max a b ↔ ∃ t : ℚ, (0 ≤ t ∧ t ≤ 1) ∧ v = a + t * (b - a) := by
  have h : v ∈ segment ℚ a b ↔ v ∈ Set.Icc (min a b) (max a b) := by rw [segment_eq_Icc']
  rw [segment_eq_image'] at h
  refine h.symm.trans ?_
  constructor
  · intro hmem
    obtain ⟨t, ht, he⟩ := hmem
    exact ⟨t, ht, he.symm⟩
  · intro hmem
    obtain ⟨t, ht, he⟩ := hmem
    exact ⟨t, ht, he.symm⟩

theorem points_segment_box {s : Segment ℚ} {p : Point ℚ} (h : p ∈ (Figure.segment s).points) :
    (min s.start.x s.stop.x ≤ p.x ∧ p.x ≤ max s.start.x s.stop.x) ∧
      min s.start.y s.stop.y ≤ p.y ∧ p.y ≤ max s.start.y s.stop.y := by
  obtain ⟨t, ht, hx, hy⟩ := Figure.mem_points_segment.1 h
  exact ⟨between_iff.2 ⟨t, ht, hx⟩, between_iff.2 ⟨t, ht, hy⟩⟩

namespace Axis.Crosses

variable {axis : Axis} {l : Figure ℚ}

theorem point_ext (h : axis.Crosses l) {p q : Point ℚ} (hp : p ∈ l.points) (hq : q ∈ l.points)
    (he : axis.coord p = axis.coord q) : p = q := by
  cases h with
  | sloped m b =>
    have hx : p.x = q.x := he
    have hy : p.y = q.y := by rw [hp, hq, hx]
    exact Point.ext hx hy
  | upright c => exact Point.ext (hp.trans hq.symm) he

theorem eq_of_subset (h : axis.Crosses l) {axis' : Axis} {l' : Figure ℚ} (h' : axis'.Crosses l')
    (hsub : l'.points ⊆ l.points) : l' = l := by
  cases h with
  | sloped m b =>
    cases h' with
    | sloped m' b' =>
      have h₀ : b' = m * 0 + b := hsub (show (⟨0, b'⟩ : Point ℚ) ∈ _ by simp [Figure.points])
      have h₁ : m' + b' = m * 1 + b :=
        hsub (show (⟨1, m' + b'⟩ : Point ℚ) ∈ _ by simp [Figure.points])
      have hb : b' = b := by linarith
      have hm : m' = m := by linarith
      rw [hb, hm]
    | upright c' =>
      have h₀ : 0 = m * c' + b := hsub (show (⟨c', 0⟩ : Point ℚ) ∈ _ from rfl)
      have h₁ : 1 = m * c' + b := hsub (show (⟨c', 1⟩ : Point ℚ) ∈ _ from rfl)
      linarith
  | upright c =>
    cases h' with
    | sloped m' b' =>
      have h₀ : 0 = c := hsub (show (⟨0, b'⟩ : Point ℚ) ∈ _ by simp [Figure.points])
      have h₁ : 1 = c := hsub (show (⟨1, m' + b'⟩ : Point ℚ) ∈ _ by simp [Figure.points])
      linarith
    | upright c' =>
      have h₀ : c' = c := hsub (show (⟨c', 0⟩ : Point ℚ) ∈ _ from rfl)
      rw [h₀]

theorem mem_segment_iff (h : axis.Crosses l) {s : Segment ℚ} (h₀ : s.start ∈ l.points)
    (h₁ : s.stop ∈ l.points) {p : Point ℚ} :
    p ∈ (Figure.segment s).points ↔ p ∈ l.points ∧
      min (axis.coord s.start) (axis.coord s.stop) ≤ axis.coord p ∧
        axis.coord p ≤ max (axis.coord s.start) (axis.coord s.stop) := by
  rw [between_iff, Figure.mem_points_segment]
  cases h with
  | sloped m b =>
    rw [Figure.mem_points_line] at h₀ h₁ ⊢
    constructor
    · intro hmem
      obtain ⟨t, ht, hx, hy⟩ := hmem
      refine ⟨?_, t, ht, hx⟩
      rw [hy, hx, h₀, h₁]
      ring
    · intro hmem
      obtain ⟨hp, t, ht, hx⟩ := hmem
      have hx' : p.x = s.start.x + t * (s.stop.x - s.start.x) := hx
      refine ⟨t, ht, hx', ?_⟩
      rw [hp, hx', h₀, h₁]
      ring
  | upright c =>
    rw [Figure.mem_points_vertical] at h₀ h₁ ⊢
    constructor
    · intro hmem
      obtain ⟨t, ht, hx, hy⟩ := hmem
      refine ⟨?_, t, ht, hy⟩
      rw [hx, h₀, h₁]
      ring
    · intro hmem
      obtain ⟨hp, t, ht, hy⟩ := hmem
      refine ⟨t, ht, ?_, hy⟩
      rw [hp, h₀, h₁]
      ring

end Axis.Crosses

end PlaneFigures
