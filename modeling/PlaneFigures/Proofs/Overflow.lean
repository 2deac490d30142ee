import PlaneFigures.Proofs.Binary64Arithmetic
import PlaneFigures.Proofs.Divisors
import PlaneFigures.Proofs.SelfIntersection

/-!
# Intersections without overflow

The intersection of figures whose coordinates are at most `2 ^ 300` in magnitude never divides by
zero and never leaves the range of binary64. A bound of two to some power survives the rounding of an
operation, since the power itself is a binary64 number, so that it is enough to bound the exact
operations. A tolerance test guards each division, and a divisor is then at least `2 ^ (-17)`. Thus a
slope is at most `2 ^ 318` and an intercept at most `2 ^ 619`. Two such lines cross at an abscissa of
at most `2 ^ 637` and an ordinate of at most `2 ^ 956`, which is short of `2 ^ 1024`.
-/

namespace PlaneFigures

namespace Binary64

structure Bounded (k : ℤ) (a : Float) : Prop where
  isFinite : a.isFinite = true
  abs_le : |value a| ≤ 2 ^ k

instance (k : ℤ) (a : Float) : Decidable (Bounded k a) :=
  decidable_of_iff (a.isFinite = true ∧ |value a| ≤ 2 ^ k)
    ⟨fun h => ⟨h.1, h.2⟩, fun h => ⟨h.1, h.2⟩⟩

def InRange (k : ℤ) : Prop := -1074 ≤ k ∧ k < 1024

instance (k : ℤ) : Decidable (InRange k) := inferInstanceAs (Decidable (_ ∧ _))

theorem Rounds.bounded {a : Float} {q : ℚ} (h : Rounds a q) {k : ℤ} (hk : InRange k)
    (hq : |q| ≤ 2 ^ k) : Bounded k a := by
  have hle : |nearest q| ≤ 2 ^ k := abs_nearest_le_two_zpow hk.1 hq
  have hlt : |nearest q| < limit := hle.trans_lt (zpow_lt_zpow_right₀ (by norm_num) hk.2)
  obtain ⟨hfinite, hvalue⟩ := h.of_lt hlt
  exact ⟨hfinite, hvalue ▸ hle⟩

section Operations

variable {i j k : ℤ} {a b : Float}

theorem Bounded.mono (ha : Bounded j a) (hjk : j ≤ k) : Bounded k a :=
  ⟨ha.isFinite, ha.abs_le.trans (zpow_le_zpow_right₀ (by norm_num) hjk)⟩

theorem Bounded.abs_add_abs_le (ha : Bounded i a) (hb : Bounded j b) (hi : i < k) (hj : j < k) :
    |value a| + |value b| ≤ 2 ^ k := by
  have ha' := (ha.mono (Int.le_sub_one_of_lt hi)).abs_le
  have hb' := (hb.mono (Int.le_sub_one_of_lt hj)).abs_le
  calc
    |value a| + |value b| ≤ 2 ^ (k - 1) + 2 ^ (k - 1) := add_le_add ha' hb'
    _ = 2 ^ (k - 1) * 2 ^ (1 : ℤ) := by rw [zpow_one, mul_two]
    _ = 2 ^ k := by rw [← zpow_add₀ (by norm_num), sub_add_cancel]

theorem Bounded.add (ha : Bounded i a) (hb : Bounded j b) (hi : i < k) (hj : j < k)
    (hk : InRange k) : Bounded k (a + b) :=
  (rounds_add ha.isFinite hb.isFinite).bounded hk
    ((abs_add_le _ _).trans (ha.abs_add_abs_le hb hi hj))

theorem Bounded.sub (ha : Bounded i a) (hb : Bounded j b) (hi : i < k) (hj : j < k)
    (hk : InRange k) : Bounded k (a - b) :=
  (rounds_sub ha.isFinite hb.isFinite).bounded hk ((abs_sub _ _).trans (ha.abs_add_abs_le hb hi hj))

theorem Bounded.mul (ha : Bounded i a) (hb : Bounded j b) (hij : i + j ≤ k) (hk : InRange k) :
    Bounded k (a * b) := by
  refine (rounds_mul ha.isFinite hb.isFinite).bounded hk ?_
  calc
    |value a * value b| = |value a| * |value b| := abs_mul _ _
    _ ≤ 2 ^ i * 2 ^ j :=
      mul_le_mul ha.abs_le hb.abs_le (abs_nonneg _) (zpow_pos (by norm_num) i).le
    _ = 2 ^ (i + j) := (zpow_add₀ (by norm_num) i j).symm
    _ ≤ 2 ^ k := zpow_le_zpow_right₀ (by norm_num) hij

theorem Bounded.div (ha : Bounded i a) (hb : b.isFinite = true) (hge : 2 ^ j ≤ |value b|)
    (hij : i - j ≤ k) (hk : InRange k) : Bounded k (a / b) := by
  have hpow : (0 : ℚ) < 2 ^ j := zpow_pos (by norm_num) j
  have hpos : 0 < |value b| := hpow.trans_le hge
  refine (rounds_div ha.isFinite hb (abs_pos.1 hpos)).bounded hk ?_
  calc
    |value a / value b| = |value a| / |value b| := abs_div _ _
    _ ≤ 2 ^ i / 2 ^ j := div_le_div₀ (zpow_pos (by norm_num) i).le ha.abs_le hpow hge
    _ = 2 ^ (i - j) := (zpow_sub₀ (by norm_num) i j).symm
    _ ≤ 2 ^ k := zpow_le_zpow_right₀ (by norm_num) hij

end Operations

structure Sound (d : Float) : Prop where
  isFinite : d.isFinite = true
  tolerance_le : Scalar.tolerance ≤ d.abs

theorem sound_sub {a b : Float} (h : ¬Close a b) (hfinite : (a - b).isFinite = true) :
    Sound (a - b) := by
  have habs := isNaN_of_isFinite (value_abs hfinite).1
  exact ⟨hfinite, (Binary64.not_lt habs (isNaN_of_isFinite isFinite_tolerance)).1 h⟩

theorem Sound.two_zpow_le {d : Float} (h : Sound d) : (2 : ℚ) ^ (-17 : ℤ) ≤ |value d| := by
  have htolerance : (2 : ℚ) ^ (-17 : ℤ) ≤ value Scalar.tolerance := by decide +kernel
  obtain ⟨habs, hvalue⟩ := value_abs h.isFinite
  have hle := (le_iff_value (isNaN_of_isFinite isFinite_tolerance) (isNaN_of_isFinite habs)).1
    h.tolerance_le
  rw [hvalue] at hle
  exact htolerance.trans hle

end Binary64

open Binary64

def Point.Bounded (k : ℤ) (p : Point Float) : Prop :=
  Binary64.Bounded k p.x ∧ Binary64.Bounded k p.y

instance (k : ℤ) (p : Point Float) : Decidable (p.Bounded k) := inferInstanceAs (Decidable (_ ∧ _))

theorem Point.Bounded.finite {k : ℤ} {p : Point Float} (h : p.Bounded k) : p.Finite :=
  ⟨h.1.isFinite, h.2.isFinite⟩

namespace Segment

def Bounded (k : ℤ) (s : Segment Float) : Prop := ∀ p ∈ s.ends, p.Bounded k

instance (k : ℤ) (s : Segment Float) : Decidable (s.Bounded k) :=
  inferInstanceAs (Decidable (∀ p ∈ s.ends, p.Bounded k))

variable {s : Segment Float}

theorem Bounded.oriented {k : ℤ} (h : s.Bounded k) : s.oriented.Bounded k :=
  fun p hp => h p (s.ends_oriented_subset hp)

theorem Bounded.start {k : ℤ} (h : s.Bounded k) : s.start.Bounded k := h _ (by simp [ends])

theorem Bounded.stop {k : ℤ} (h : s.Bounded k) : s.stop.Bounded k := h _ (by simp [ends])

theorem sound_run (hs : s.Bounded 300) (hu : ¬s.Upright) : Sound (s.stop.x - s.start.x) := by
  have hrun : Binary64.Bounded 301 (s.stop.x - s.start.x) :=
    hs.stop.1.sub hs.start.1 (by decide) (by decide) (by decide)
  exact sound_sub (mt close_comm.1 hu) hrun.isFinite

end Segment

namespace Figure

open Segment

def Bounded (k : ℤ) : Figure Float → Prop
  | empty => True
  | point p => p.Bounded k
  | line m b => Binary64.Bounded k m ∧ Binary64.Bounded k b
  | vertical x => Binary64.Bounded k x
  | segment s => s.Bounded k

/-- The bounds for the line that stands for a segment with coordinates of at most `2 ^ 300`. -/
def Moderate : Figure Float → Prop
  | line m b => Binary64.Bounded 318 m ∧ Binary64.Bounded 619 b
  | vertical x => Binary64.Bounded 300 x
  | _ => True

theorem moderate_throughEnds {s : Segment Float} (hs : s.Bounded 300) : (throughEnds s).Moderate := by
  rw [throughEnds]
  split
  case isTrue => exact hs.start.1
  case isFalse hu =>
    have hrun := sound_run hs hu
    have hrise : Binary64.Bounded 301 (s.stop.y - s.start.y) :=
      hs.stop.2.sub hs.start.2 (by decide) (by decide) (by decide)
    have hslope : Binary64.Bounded 318 ((s.stop.y - s.start.y) / (s.stop.x - s.start.x)) :=
      hrise.div hrun.isFinite hrun.two_zpow_le (by decide) (by decide)
    have hdrop : Binary64.Bounded 618
        ((s.stop.y - s.start.y) / (s.stop.x - s.start.x) * s.start.x) :=
      hslope.mul hs.start.1 (by decide) (by decide)
    exact ⟨hslope, hs.start.2.sub hdrop (by decide) (by decide) (by decide)⟩

theorem Bounded.moderate_carrier {f : Figure Float} (hf : f.Bounded 300) : f.carrier.Moderate := by
  cases f with
  | empty => trivial
  | point p => trivial
  | line m b => exact ⟨hf.1.mono (by decide), hf.2.mono (by decide)⟩
  | vertical x => exact hf
  | segment s =>
    rw [Figure.carrier, Segment.carrier]
    split
    · trivial
    · exact moderate_throughEnds (Segment.Bounded.oriented hf)

theorem sound_slopes {m b n c : Float} (hf : (line m b).Moderate) (hg : (line n c).Moderate)
    (hmn : ¬PlaneFigures.Close m n) : Sound (m - n) := by
  have hdiff : Binary64.Bounded 319 (m - n) := hf.1.sub hg.1 (by decide) (by decide) (by decide)
  exact sound_sub hmn hdiff.isFinite

theorem isFinite_ordinate {m b x : Float} (h : (line m b).Moderate)
    (hx : Binary64.Bounded 637 x) : (m * x + b).isFinite = true := by
  have hrise : Binary64.Bounded 955 (m * x) := h.1.mul hx (by decide) (by decide)
  have hsum : Binary64.Bounded 956 (m * x + b) :=
    hrise.add h.2 (by decide) (by decide) (by decide)
  exact hsum.isFinite

theorem Crosses.finite {f g : Figure Float} {p : Point Float} (h : Crosses f g p) (hf : f.Moderate)
    (hg : g.Moderate) : p.Finite := by
  cases h with
  | @lines m b n c hmn =>
    have hd := sound_slopes hf hg hmn
    have hdrop : Binary64.Bounded 620 (c - b) := hg.2.sub hf.2 (by decide) (by decide) (by decide)
    have hx : Binary64.Bounded 637 ((c - b) / (m - n)) :=
      hdrop.div hd.isFinite hd.two_zpow_le (by decide) (by decide)
    exact ⟨hx.isFinite, isFinite_ordinate hf hx⟩
  | line_vertical m b x => exact ⟨hg.isFinite, isFinite_ordinate hf (hg.mono (by decide))⟩
  | vertical_line x m b => exact ⟨hf.isFinite, isFinite_ordinate hg (hf.mono (by decide))⟩

section Operands

variable {f g : Figure Float}

theorem Bounded.finite {k : ℤ} (hf : f.Bounded k) : f.Finite := by
  cases f with
  | empty => trivial
  | point p => exact Point.Bounded.finite hf
  | line m b => exact ⟨hf.1.isFinite, hf.2.isFinite⟩
  | vertical x => exact hf.isFinite
  | segment s => exact ⟨(Segment.Bounded.start hf).finite, (Segment.Bounded.stop hf).finite⟩

theorem Bounded.of_mem_ends {k : ℤ} (hf : f.Bounded k) {p : Point Float} (hp : p ∈ f.ends) :
    p.Bounded k := by
  cases f with
  | segment s => exact hf p hp
  | _ => cases hp

theorem Finite.canonical (hf : f.Finite) : f.canonical.Finite := by
  cases f with
  | segment s =>
    rw [canonical_segment]
    split
    · exact hf.1
    · exact Segment.Finite.oriented hf
  | _ => exact hf

theorem Divisor.sound {d : Float} (h : Divisor f g d) (hf : f.Bounded 300) (hg : g.Bounded 300) :
    Sound d := by
  cases h with
  | @run s hs hu =>
    have hbounded : s.Bounded 300 := by
      rcases hs with rfl | rfl
      · exact hf
      · exact hg
    exact sound_run hbounded.oriented hu
  | slopes h hmn =>
    have hf' := hf.moderate_carrier
    have hg' := hg.moderate_carrier
    rcases h with ⟨hm, hn⟩ | ⟨hm, hn⟩
    · rw [hm] at hf'
      rw [hn] at hg'
      exact sound_slopes hf' hg' hmn
    · rw [hm] at hg'
      rw [hn] at hf'
      exact sound_slopes hg' hf' hmn

theorem MadeOf.finite {points : List (Point Float)} (h : f.MadeOf points)
    (hpoints : ∀ p ∈ points, p.Finite) : f.Finite := by
  cases h with
  | nothing => trivial
  | point hp => exact hpoints _ hp
  | segment hs =>
    have hstart := hpoints _ (hs List.mem_cons_self)
    exact ⟨hstart, hpoints _ (hs (List.mem_cons_of_mem _ List.mem_cons_self))⟩

theorem Origin.finite {r : Figure Float} (h : Origin f g r) (hf : f.Bounded 300)
    (hg : g.Bounded 300) : r.Finite := by
  cases h with
  | nothing => trivial
  | operand h =>
    rcases h with h | h
    · exact h ▸ hf.finite.canonical
    · exact h ▸ hg.finite.canonical
  | crossing h =>
    rcases h with h | h
    · exact h.finite hf.moderate_carrier hg.moderate_carrier
    · exact h.finite hg.moderate_carrier hf.moderate_carrier
  | left => exact hf.finite
  | ends _ _ h =>
    refine h.finite fun p hp => ?_
    rcases List.mem_append.1 hp with hp | hp
    · exact (hf.of_mem_ends hp).finite
    · exact (hg.of_mem_ends hp).finite

/-- The intersection of two figures whose coordinates are at most `2 ^ 300` in magnitude divides only
by finite numbers that are not below the threshold in magnitude, and is a finite figure. -/
theorem intersect_finite_of_bounded (hf : f.Bounded 300) (hg : g.Bounded 300) :
    (f.divisions g).result = f.intersect g ∧
      (∀ d ∈ (f.divisions g).entries, d.isFinite = true ∧ Scalar.tolerance ≤ d.abs) ∧
      (f.intersect g).Finite := by
  refine ⟨Recorder.divisors.result_intersect f g, fun d hd => ?_,
    (origin_intersect f g).finite hf hg⟩
  have hsound := (divisor_of_mem_divisions hd).sound hf hg
  exact ⟨hsound.isFinite, hsound.tolerance_le⟩

end Operands

/-- Two crossing segments, one of them so steep that its line has a slope beyond `2 ^ 316`. -/
theorem intersect_finite_of_bounded_steep :
    let huge := Float.ofBits 0x52b0000000000000
    let s : Segment Float := ⟨⟨0, -huge⟩, ⟨0.00002, huge⟩⟩
    let t : Segment Float := ⟨⟨-1, -huge⟩, ⟨1, huge⟩⟩
    s.Bounded 300 ∧ t.Bounded 300 ∧ ((segment s).divisions (segment t)).entries.length = 3 ∧
      (∀ d ∈ ((segment s).divisions (segment t)).entries,
        d.isFinite = true ∧ Scalar.tolerance ≤ d.abs) ∧
      ((segment s).intersect (segment t)).Finite := by
  intro huge s t
  have hs : s.Bounded 300 := by decide +kernel
  have ht : t.Bounded 300 := by decide +kernel
  have hlength : ((segment s).divisions (segment t)).entries.length = 3 := by decide +kernel
  exact ⟨hs, ht, hlength, (intersect_finite_of_bounded (f := segment s) (g := segment t) hs ht).2⟩

end Figure

end PlaneFigures
