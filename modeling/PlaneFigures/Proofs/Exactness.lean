import PlaneFigures.Proofs.Decisive

/-!
# Exactness away from the tolerance

If no tolerance test that an intersection evaluates is borderline, the intersection denotes the
points that its operands have in common. The proof follows the computation: two flat figures are
intersected directly; what is found on the carrier of a segment is then trimmed, by its bounding
box if it is a point and by the overlap of extents if it is a segment of the same line.
-/

namespace PlaneFigures

open Segment Axis
open Recorder (tests)

section Overlap

variable {axis : Axis} {l : Figure ℚ}

theorem points_shared (hc : axis.Crosses l) {s t : Segment ℚ}
    (hs₀ : s.start ∈ l.points) (hs₁ : s.stop ∈ l.points)
    (ht₀ : t.start ∈ l.points) (ht₁ : t.stop ∈ l.points)
    (hs : axis.coord s.start ≤ axis.coord s.stop) (ht : axis.coord t.start ≤ axis.coord t.stop)
    (hst : axis.coord s.start ≤ axis.coord t.start)
    (h : (tests.shared axis s t).Decisive) :
    (shared axis s t).points = (Figure.segment s).points ∩ (Figure.segment t).points := by
  have htouch := Test.close_iff_eq (h (.coordinates (axis.coord s.stop) (axis.coord t.start))
    List.mem_cons_self)
  ext p
  rw [Set.mem_inter_iff, hc.mem_segment_iff hs₀ hs₁, hc.mem_segment_iff ht₀ ht₁,
    min_eq_left hs, max_eq_right hs, min_eq_left ht, max_eq_right ht]
  rw [shared]
  split_ifs with h₁ h₂ h₃
  · have he := htouch.1 h₁
    rw [Figure.points_point, Set.mem_singleton_iff]
    constructor
    · intro he
      subst he
      exact ⟨⟨hs₁, hs, le_rfl⟩, hs₁, he.ge, he.le.trans ht⟩
    · intro hmem
      obtain ⟨⟨hp, _, hps⟩, _, hpt, _⟩ := hmem
      exact hc.point_ext hp hs₁ (le_antisymm hps (he.le.trans hpt))
  · simp only [Figure.points_empty, Set.mem_empty_iff_false, false_iff]
    intro hmem
    obtain ⟨⟨_, _, hps⟩, _, hpt, _⟩ := hmem
    exact absurd (hpt.trans hps) (not_le.2 h₂)
  · rw [hc.mem_segment_iff ht₀ ht₁, min_eq_left ht, max_eq_right ht]
    constructor
    · intro hmem
      obtain ⟨hp, hpt, htp⟩ := hmem
      exact ⟨⟨hp, hst.trans hpt, htp.trans (le_of_lt h₃)⟩, hp, hpt, htp⟩
    · exact fun hp => hp.2
  · have hle : axis.coord t.start ≤ axis.coord s.stop := le_of_not_gt h₂
    have hse : axis.coord s.stop ≤ axis.coord t.stop := le_of_not_gt h₃
    rw [hc.mem_segment_iff (s := ⟨t.start, s.stop⟩) ht₀ hs₁, min_eq_left hle, max_eq_right hle]
    constructor
    · intro hmem
      obtain ⟨hp, hpt, hps⟩ := hmem
      exact ⟨⟨hp, hst.trans hpt, hps⟩, hp, hpt, hps.trans hse⟩
    · intro hmem
      obtain ⟨⟨hp, _, hps⟩, _, hpt, _⟩ := hmem
      exact ⟨hp, hpt, hps⟩

theorem points_ascending (s : Segment ℚ) (axis : Axis) :
    (Figure.segment (s.ascending axis)).points = (Figure.segment s).points := by
  rw [ascending]
  split
  · rfl
  · exact Figure.points_segment_reverse s

theorem ascending_le (s : Segment ℚ) (axis : Axis) :
    axis.coord (s.ascending axis).start ≤ axis.coord (s.ascending axis).stop := by
  rw [ascending]
  split_ifs with h
  · exact h
  · exact le_of_not_ge h

theorem ascending_mem {s : Segment ℚ} (h₀ : s.start ∈ l.points) (h₁ : s.stop ∈ l.points)
    (axis : Axis) :
    (s.ascending axis).start ∈ l.points ∧ (s.ascending axis).stop ∈ l.points := by
  rw [ascending]
  split
  · exact ⟨h₀, h₁⟩
  · exact ⟨h₁, h₀⟩

theorem points_overlap {s t : Segment ℚ} (hc : s.axis.Crosses l)
    (hs₀ : s.start ∈ l.points) (hs₁ : s.stop ∈ l.points)
    (ht₀ : t.start ∈ l.points) (ht₁ : t.stop ∈ l.points) (h : (tests.overlap s t).Decisive) :
    (s.overlap t).points = (Figure.segment s).points ∩ (Figure.segment t).points := by
  obtain ⟨hs₀', hs₁'⟩ := ascending_mem hs₀ hs₁ s.axis
  obtain ⟨ht₀', ht₁'⟩ := ascending_mem ht₀ ht₁ s.axis
  have hs' := ascending_le s s.axis
  have ht' := ascending_le t s.axis
  rw [← points_ascending s s.axis, ← points_ascending t s.axis, overlap]
  simp only [Recorder.overlap, Traced.Decisive, Traced.entries_bind, tests.result_axis] at h
  split_ifs at h ⊢ with hp
  · have hst : s.axis.coord (s.ascending s.axis).start ≤ s.axis.coord (t.ascending s.axis).start :=
      hp.elim le_of_lt And.left
    exact points_shared hc hs₀' hs₁' ht₀' ht₁' hs' ht' hst
      fun e he => h e (List.mem_append_right _ he)
  · have hts : s.axis.coord (t.ascending s.axis).start ≤ s.axis.coord (s.ascending s.axis).start :=
      le_of_not_gt fun hlt => hp (Or.inl hlt)
    rw [Set.inter_comm]
    exact points_shared hc ht₀' ht₁' hs₀' hs₁' ht' hs' hts
      fun e he => h e (List.mem_append_right _ he)

end Overlap

section Clip

variable {s : Segment ℚ}

theorem points_clip_point (hs : s.Sharp) {p : Point ℚ} (hp : p ∈ (Figure.throughEnds s).points)
    (h : (tests.clip (.point p) s).Decisive) :
    ((Figure.point p).clip s).points = {p} ∩ (Figure.segment s).points := by
  obtain ⟨hc, h₀, h₁⟩ := hs.through
  have hx := (h (.range p.x s.start.x s.stop.x) List.mem_cons_self).within_iff
  have hbox : s.BoxHolds p ↔ p ∈ (Figure.segment s).points := by
    constructor
    · intro hbox
      obtain ⟨hpx, hpy⟩ := hbox
      have hy : (Test.range p.y s.start.y s.stop.y).Decisive :=
        h _ (by simp [Recorder.clip, Test.Holds, hpx])
      rw [hc.mem_segment_iff h₀ h₁]
      cases hc' : s.axis with
      | x => exact ⟨hp, hx.1 hpx⟩
      | y => exact ⟨hp, hy.within_iff.1 hpy⟩
    · intro hmem
      obtain ⟨hpx, hpy⟩ := points_segment_box hmem
      have hy : (Test.range p.y s.start.y s.stop.y).Decisive :=
        h _ (by simp [Recorder.clip, Test.Holds, hx.2 hpx])
      exact ⟨hx.2 hpx, hy.within_iff.2 hpy⟩
  exact Figure.points_ite_point hbox

theorem points_clip_line (hs : s.Sharp) {axis : Axis} {l : Figure ℚ} (hl : axis.Crosses l)
    (hsub : l.points ⊆ (Figure.throughEnds s).points) :
    (l.clip s).points = l.points ∩ (Figure.segment s).points := by
  obtain ⟨hc, h₀, h₁⟩ := hs.through
  have hclip : l.clip s = Figure.segment s := by cases hl <;> rfl
  rw [hclip, hc.eq_of_subset hl hsub, Set.inter_eq_right.2]
  intro p hp
  exact ((hc.mem_segment_iff h₀ h₁).1 hp).1

theorem points_clip_segment (hs : s.Sharp) {t : Segment ℚ} (hne : t.start ≠ t.stop)
    (hsub : (Figure.segment t).points ⊆ (Figure.throughEnds s).points)
    (h : (tests.clip (.segment t) s).Decisive) :
    ((Figure.segment t).clip s).points =
      (Figure.segment t).points ∩ (Figure.segment s).points := by
  obtain ⟨hc, h₀, h₁⟩ := hs.through
  have ht₀ : t.start ∈ (Figure.throughEnds s).points :=
    hsub (Figure.mem_points_segment.2 ⟨0, by norm_num, by ring, by ring⟩)
  have ht₁ : t.stop ∈ (Figure.throughEnds s).points :=
    hsub (Figure.mem_points_segment.2 ⟨1, by norm_num, by ring, by ring⟩)
  have hu : t.Upright ↔ t.start.x = t.stop.x :=
    Test.close_iff_eq (h (.coordinates t.start.x t.stop.x) List.mem_cons_self)
  -- The overlap reads both segments along the axis of `t`, which has to be that of the line.
  have haxis : t.axis = s.axis := by
    generalize s.axis = axis at hc
    generalize Figure.throughEnds s = l at hc ht₀ ht₁
    cases hc with
    | sloped m b => exact if_neg fun hup => hne (Crosses.point_ext (.sloped m b) ht₀ ht₁ (hu.1 hup))
    | upright c => exact if_pos (hu.2 (ht₀.trans ht₁.symm))
  rw [← haxis] at hc
  exact points_overlap hc ht₀ ht₁ h₀ h₁ h

theorem points_trim (hs : s.Sharp) {f : Figure ℚ} (hsub : f.points ⊆ s.carrier.points)
    (hne : ∀ t, f = .segment t → t.start ≠ t.stop)
    (h : ¬s.Degenerate → (tests.clip f s.oriented).Decisive) :
    (f.trim s).points = f.points ∩ (Figure.segment s).points := by
  by_cases hd : s.Degenerate
  · rw [Figure.trim_of_degenerate _ hd, hs.points_of_degenerate hd, Set.inter_eq_left.2 hsub]
  · rw [carrier_of_not_degenerate hd] at hsub
    rw [Figure.trim_of_not_degenerate _ hd, ← Figure.points_segment_oriented]
    have hdec := h hd
    cases f with
    | empty => simp [Figure.clip]
    | point p => exact points_clip_point hs.oriented (hsub rfl) hdec
    | line m b => exact points_clip_line hs.oriented (.sloped m b) hsub
    | vertical c => exact points_clip_line hs.oriented (.upright c) hsub
    | segment t => exact points_clip_segment hs.oriented (hne t rfl) hsub hdec

end Clip

section Flat

open Figure

theorem point_close_iff_eq {p q : Point ℚ} (h : (tests.close p q).Decisive) :
    p.Close q ↔ p = q := by
  have hx := Test.close_iff_eq (h (.coordinates p.x q.x) List.mem_cons_self)
  constructor
  · intro hclose
    obtain ⟨hcx, hcy⟩ := hclose
    have hy : (Test.coordinates p.y q.y).Decisive :=
      h _ (by simp [Recorder.close, Test.Holds, hcx])
    exact Point.ext (hx.1 hcx) ((Test.close_iff_eq hy).1 hcy)
  · intro he
    subst he
    exact p.close_refl

theorem points_pointOnLine {p : Point ℚ} {m b : ℚ}
    (h : (Test.coordinates p.y (m * p.x + b)).Decisive) :
    (pointOnLine p m b).points = {p} ∩ (line m b).points :=
  points_ite_point (Test.close_iff_eq h)

theorem points_pointOnVertical {p : Point ℚ} {x : ℚ} (h : (Test.coordinates p.x x).Decisive) :
    (pointOnVertical p x).points = {p} ∩ (vertical x).points :=
  points_ite_point (Test.close_iff_eq h)

theorem points_crossing (m b x : ℚ) :
    (point ⟨x, m * x + b⟩).points = (line m b).points ∩ (vertical x).points := by
  ext p
  constructor
  · intro he
    subst he
    exact ⟨rfl, rfl⟩
  · intro hmem
    obtain ⟨hl, hv⟩ := hmem
    have hx : p.x = x := hv
    exact Point.ext hx (by rw [← hx]; exact hl)

theorem points_lineWithLine {m b n c : ℚ} (h : (tests.flat (line m b) (line n c)).Decisive) :
    (lineWithLine m b n c).points = (line m b).points ∩ (line n c).points := by
  have hslope := Test.close_iff_eq (h (.slopes m n) List.mem_cons_self)
  rw [lineWithLine]
  by_cases hm : Close m n
  · have hint : (Test.coordinates b c).Decisive := h _ (by simp [Recorder.flat, Test.Holds, hm])
    have hmn := hslope.1 hm
    subst hmn
    rw [if_pos hm]
    by_cases hb : Close b c
    · have hbc := (Test.close_iff_eq hint).1 hb
      subst hbc
      rw [if_pos hb, Set.inter_self]
    · rw [if_neg hb, points_empty, eq_comm, Set.eq_empty_iff_forall_notMem]
      intro p hmem
      obtain ⟨hp, hp'⟩ := hmem
      rw [mem_points_line] at hp hp'
      exact hb ((Test.close_iff_eq hint).2 (by linarith))
  · have hmn : m - n ≠ 0 := sub_ne_zero.2 (mt hslope.2 hm)
    rw [if_neg hm]
    ext p
    constructor
    · intro he
      subst he
      refine ⟨rfl, ?_⟩
      rw [mem_points_line]
      field_simp
      ring
    · intro hmem
      obtain ⟨hp, hp'⟩ := hmem
      rw [mem_points_line] at hp hp'
      have hx : p.x = (c - b) / (m - n) := by
        rw [eq_div_iff hmn]
        linarith
      exact Point.ext hx (by rw [← hx]; exact hp)

theorem points_verticals {x y : ℚ} (h : (Test.coordinates x y).Decisive) :
    (if PlaneFigures.Close x y then vertical x else empty).points =
      (vertical x).points ∩ (vertical y).points := by
  have hxy := Test.close_iff_eq h
  by_cases hc : PlaneFigures.Close x y
  · have he := hxy.1 hc
    subst he
    rw [if_pos hc, Set.inter_self]
  · rw [if_neg hc, points_empty, eq_comm, Set.eq_empty_iff_forall_notMem]
    intro p hp
    exact hc (hxy.2 (hp.1.symm.trans hp.2))

theorem points_intersect_of_flat {f g : Figure ℚ} (hf : f.Flat) (hg : g.Flat)
    (h : (tests.flat f g).Decisive) : (f.intersect g).points = f.points ∩ g.points := by
  induction hf, hg using Flat.pair_cases with
  | empty_left g hg => rw [empty_intersect, points_empty, Set.empty_inter]
  | empty_right f hf => rw [intersect_empty, points_empty, Set.inter_empty]
  | point_point p q =>
    have hd : (tests.close q p).Decisive := fun e he => h e (List.mem_append_left _ he)
    rw [point_intersect_point]
    exact points_ite_point ((point_close_iff_eq hd).trans eq_comm)
  | point_line p m b =>
    rw [point_intersect_line]
    exact points_pointOnLine (h _ List.mem_cons_self)
  | line_point m b p =>
    rw [line_intersect_point, Set.inter_comm]
    exact points_pointOnLine (h _ List.mem_cons_self)
  | point_vertical p x =>
    rw [point_intersect_vertical]
    exact points_pointOnVertical (h _ List.mem_cons_self)
  | vertical_point x p =>
    rw [vertical_intersect_point, Set.inter_comm]
    exact points_pointOnVertical (h _ List.mem_cons_self)
  | line_line m b n c =>
    rw [line_intersect_line]
    exact points_lineWithLine h
  | line_vertical m b x =>
    rw [line_intersect_vertical]
    exact points_crossing m b x
  | vertical_line x m b =>
    rw [vertical_intersect_line, Set.inter_comm]
    exact points_crossing m b x
  | vertical_vertical x y =>
    rw [vertical_intersect_vertical]
    exact points_verticals (h _ List.mem_cons_self)

end Flat

section Meet

variable {s : Segment ℚ} {meet : Figure ℚ → Traced (Test ℚ) (Figure ℚ)}

theorem decisive_meetSegment (h : (tests.meetSegment s meet).Decisive) :
    s.Sharp ∧ (meet s.carrier).Decisive ∧
      (¬s.Degenerate → (tests.clip (meet s.carrier).result s.oriented).Decisive) := by
  by_cases hd : s.Degenerate
  · rw [Traced.Decisive, tests.entries_meetSegment_of_degenerate hd, List.forall_mem_append] at h
    have he : s.start = s.stop := (point_close_iff_eq h.1).1 hd
    exact ⟨⟨fun _ => he, fun _ => congrArg Point.x he⟩, h.2, fun hn => absurd hd hn⟩
  · rw [Traced.Decisive, tests.entries_meetSegment_of_not_degenerate hd] at h
    simp only [List.forall_mem_append] at h
    obtain ⟨⟨⟨⟨_, horiented⟩, _⟩, hmeet⟩, hclip⟩ := h
    have hu := Test.close_iff_eq (horiented (.coordinates s.start.x s.stop.x) List.mem_cons_self)
    exact ⟨⟨fun h => absurd h hd, hu.1⟩, hmeet, fun _ => hclip⟩

theorem points_meetSegment {A : Set (Point ℚ)} (h : (tests.meetSegment s meet).Decisive)
    (hm : (meet s.carrier).Decisive → (meet s.carrier).result.points = A ∩ s.carrier.points)
    (hne : ∀ t, (meet s.carrier).result = .segment t → t.start ≠ t.stop) :
    (tests.meetSegment s meet).result.points = A ∩ (Figure.segment s).points := by
  obtain ⟨hs, hmeet, hclip⟩ := decisive_meetSegment h
  have hpoints := hm hmeet
  have hsub : (meet s.carrier).result.points ⊆ s.carrier.points := by
    rw [hpoints]
    exact Set.inter_subset_right
  rw [tests.result_meetSegment, points_trim hs hsub hne hclip, hpoints, Set.inter_assoc,
    Set.inter_eq_right.2 hs.points_subset_carrier]

theorem points_meetSegment_of_flat {f : Figure ℚ} (hf : f.Flat)
    (h : (tests.meetSegment s (tests.flat f)).Decisive) :
    (tests.meetSegment s (tests.flat f)).result.points = f.points ∩ (Figure.segment s).points := by
  have hresult := tests.result_flat hf (Figure.flat_carrier s)
  apply points_meetSegment h
  · intro hmeet
    rw [hresult]
    exact points_intersect_of_flat hf (Figure.flat_carrier s) hmeet
  · intro t ht
    have hflat := Figure.flat_intersect hf (Figure.flat_carrier s)
    rw [← hresult, ht] at hflat
    cases hflat

end Meet

/-- If no tolerance test is borderline, nothing is lost and nothing is added. -/
theorem Figure.points_intersect (f g : Figure ℚ)
    (h : ∀ t ∈ (f.probe g).entries, t.Decisive) :
    (f.intersect g).points = f.points ∩ g.points := by
  rw [probe] at h
  rw [← tests.result_intersect]
  induction f, g using operand_cases with
  | empty_right f =>
    rw [tests.result_intersect, intersect_empty]
    exact (Set.inter_empty _).symm
  | flat_flat f g hf hg =>
    rw [tests.intersect_of_flat hf hg] at h ⊢
    rw [tests.result_flat hf hg]
    exact points_intersect_of_flat hf hg h
  | flat_segment f t hf =>
    rw [tests.intersect_segment_of_flat hf] at h ⊢
    exact points_meetSegment_of_flat hf h
  | segment_flat s g hg hne =>
    rw [tests.segment_intersect_of_flat s hg hne] at h ⊢
    rw [points_meetSegment_of_flat hg h, Set.inter_comm]
  | segment_segment s t =>
    rw [tests.segment_intersect_segment] at h ⊢
    apply points_meetSegment h
    · intro hmeet
      rw [points_meetSegment_of_flat (flat_carrier t) hmeet, Set.inter_comm]
    · intro r hr
      rw [tests.result_meetSegment, tests.result_flat (flat_carrier t) (flat_carrier s)] at hr
      obtain ⟨hd, rfl⟩ := eq_oriented_of_trim_eq_segment
        (flat_intersect (flat_carrier t) (flat_carrier s)) hr
      exact start_ne_stop (mt degenerate_oriented.1 hd)

/-- Two segments of the line `y = 2 * x`, the first of them travelled downwards. -/
theorem Figure.points_intersect_collinear :
    (∀ t ∈ ((segment ⟨⟨4, 8⟩, ⟨0, 0⟩⟩).probe (segment ⟨⟨1, 2⟩, ⟨6, 12⟩⟩)).entries, t.Decisive) ∧
      ((segment ⟨⟨4, 8⟩, ⟨0, 0⟩⟩).intersect (segment ⟨⟨1, 2⟩, ⟨6, 12⟩⟩)).points =
        (segment ⟨⟨4, 8⟩, ⟨0, 0⟩⟩).points ∩ (segment ⟨⟨1, 2⟩, ⟨6, 12⟩⟩).points := by
  have h : ∀ t ∈ ((segment ⟨⟨4, 8⟩, ⟨0, 0⟩⟩).probe (segment ⟨⟨1, 2⟩, ⟨6, 12⟩⟩)).entries,
      t.Decisive := by
    decide +kernel
  exact ⟨h, points_intersect _ _ h⟩

end PlaneFigures
