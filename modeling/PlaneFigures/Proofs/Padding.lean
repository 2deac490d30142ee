import PlaneFigures.Proofs.Binary64Arithmetic

/-!
# Padded ranges of binary64 numbers

Closeness and the padded range test round differently. The one subtracts two numbers and compares
the difference with the threshold, the other adds the threshold to a bound, where it may be lost. The
range test still accepts every number that is close to a bound. A rounded difference is below the
threshold only if the exact one is, since the threshold is a binary64 number itself. The exact
padded bound is then past the number, and since rounding is monotone the rounded one is not before
it. A bound that is infinite is not moved by the padding.
-/

namespace PlaneFigures

open Binary64
open Float.Model (UnpackedFloat)
open Float.Model.UnpackedFloat (Sign pack unpack)
open Scalar (tolerance)

namespace Binary64

theorem exists_infinity {a : Float} (ha : a.isNaN = false) (hinf : a.isFinite = false) :
    ∃ s, a.toModel.unpack = .infinity s := by
  change a.toModel.unpack.isNaN = false at ha
  change a.toModel.unpack.isFinite = false at hinf
  cases hu : a.toModel.unpack with
  | notANumber =>
    rw [hu] at ha
    cases ha
  | infinity s => exact ⟨s, rfl⟩
  | zero s =>
    rw [hu] at hinf
    cases hinf
  | finite s m e hm =>
    rw [hu] at hinf
    cases hinf

theorem abs_value_of_infinite {a : Float} (ha : a.isNaN = false) (hinf : a.isFinite = false) :
    |value a| = limit := by
  obtain ⟨s, hs⟩ := exists_infinity ha hinf
  rw [value, hs, valueOf, abs_signed s limit_pos.le]

theorem abs_value_le {a : Float} (ha : a.isNaN = false) : |value a| ≤ limit := by
  by_cases hfinite : a.isFinite = true
  · exact (abs_value_lt hfinite).le
  · exact (abs_value_of_infinite ha (Bool.eq_false_of_not_eq_true hfinite)).le

/-- Packing takes a number that is out of range to the nearer end of the range. -/
theorem value_pack {u : UnpackedFloat} (hu : Normal u) :
    value (.ofModel (.pack u)) = max (-limit) (min (valueOf u) limit) := by
  change valueOf (unpack .binary64 (pack .binary64 u)) = _
  rcases lt_or_ge |valueOf u| limit with hlt | hge
  · obtain ⟨hlow, hhigh⟩ := abs_lt.1 hlt
    rw [unpack_pack_of_lt hu hlt, min_eq_left hhigh.le, max_eq_right hlow.le]
  · cases u with
    | notANumber => exact hu.elim
    | infinity s => exact hu.elim
    | zero s =>
      rw [valueOf_zero, abs_zero] at hge
      exact absurd limit_pos (not_lt.2 hge)
    | finite s m e hm =>
      have hlimit := limit_pos
      have habs := abs_signed s (q := m * 2 ^ e) (by positivity)
      rw [unpack_pack_finite hu, if_neg (mt (abs_lt_limit_iff hu).2 (not_lt.2 hge))]
      rw [valueOf, habs] at hge
      cases s with
      | positive =>
        change limit = max (-limit) (min (m * 2 ^ e) limit)
        rw [min_eq_right hge, max_eq_right (by linarith)]
      | negative =>
        change -limit = max (-limit) (min (-(m * 2 ^ e)) limit)
        rw [min_eq_left (by linarith), max_eq_left (by linarith)]

theorem nearest_value_of_isNaN {a : Float} (ha : a.isNaN = false) : nearest (value a) = value a := by
  by_cases hfinite : a.isFinite = true
  · exact nearest_value hfinite
  · obtain ⟨s, hs⟩ := exists_infinity ha (Bool.eq_false_of_not_eq_true hfinite)
    rw [value, hs, valueOf, nearest_signed, nearest_limit]

section Comparison

variable {u : UnpackedFloat} {q : ℚ} {c : Float} (hu : Normal u ∧ valueOf u = nearest q)
  (hc : c.isNaN = false)

include hu hc

theorem pack_le (h : q ≤ value c) : Float.ofModel (.pack u) ≤ c := by
  have hnearest := nearest_monotone h
  rw [nearest_value_of_isNaN hc] at hnearest
  rw [le_iff_value (rounds_pack hu).isNaN hc, value_pack hu.1, hu.2]
  exact max_le (abs_le.1 (abs_value_le hc)).1 ((min_le_left _ _).trans hnearest)

theorem le_pack (h : value c ≤ q) : c ≤ Float.ofModel (.pack u) := by
  have hnearest := nearest_monotone h
  rw [nearest_value_of_isNaN hc] at hnearest
  rw [le_iff_value hc (rounds_pack hu).isNaN, value_pack hu.1, hu.2]
  exact le_max_of_le_right (le_min hnearest (abs_le.1 (abs_value_le hc)).2)

end Comparison

theorem abs_sub_lt_of_close {a b : Float} (h : Close a b) :
    |value a - value b| < value tolerance := by
  rw [close_iff_value (isFinite_of_close (close_comm.1 h)) (isFinite_of_close h)] at h
  by_contra hge
  have hnearest := nearest_monotone (not_lt.1 hge)
  rw [nearest_value isFinite_tolerance] at hnearest
  exact absurd h (not_lt.2 hnearest)

theorem ofModel_pack_unpack (a : Float) : Float.ofModel (.pack a.toModel.unpack) = a := by
  have h := @UnpackedFloat.pack_unpack_of_valid .binary64 _ a.toModel.valid
  exact Float.toBits_inj.1 (UInt64.toBitVec_inj.1 h)

theorem infinity_sub (s : Sign) {v : UnpackedFloat} (hv : v.isFinite = true) :
    UnpackedFloat.sub .binary64 (.infinity s) v = .infinity s := by
  cases v with
  | notANumber => cases hv
  | infinity t => cases hv
  | zero t => rfl
  | finite t n k hn => rfl

theorem infinity_add (s : Sign) {v : UnpackedFloat} (hv : v.isFinite = true) :
    UnpackedFloat.add .binary64 (.infinity s) v = .infinity s := by
  have hneg : v.neg.isFinite = true := by cases v <;> exact hv
  rw [add_eq_sub_neg, infinity_sub s hneg]

section Infinite

variable {a b : Float} (ha : a.isNaN = false) (hinf : a.isFinite = false) (hb : b.isFinite = true)

include ha hinf hb

theorem sub_eq_self_of_infinite : a - b = a := by
  obtain ⟨s, hs⟩ := exists_infinity ha hinf
  change Float.ofModel (.pack (UnpackedFloat.sub .binary64 a.toModel.unpack b.toModel.unpack)) = a
  rw [hs, infinity_sub s hb, ← hs, ofModel_pack_unpack]

theorem add_eq_self_of_infinite : a + b = a := by
  obtain ⟨s, hs⟩ := exists_infinity ha hinf
  change Float.ofModel (.pack (UnpackedFloat.add .binary64 a.toModel.unpack b.toModel.unpack)) = a
  rw [hs, infinity_add s hb, ← hs, ofModel_pack_unpack]

end Infinite

theorem isNaN_of_le {a b : Float} (h : a ≤ b) : a.isNaN = false ∧ b.isNaN = false := by
  change decide (a.toModel ≤ b.toModel) = true at h
  rw [decide_eq_true_iff] at h
  change (a.toModel.unpack.compare b.toModel.unpack).any (·.isLE) = true at h
  change a.toModel.unpack.isNaN = false ∧ b.toModel.unpack.isNaN = false
  cases ha : a.toModel.unpack with
  | notANumber =>
    rw [ha] at h
    cases b.toModel.unpack <;> cases h
  | _ =>
    cases hb : b.toModel.unpack with
    | notANumber =>
      rw [ha, hb] at h
      cases h
    | _ => exact ⟨rfl, rfl⟩

end Binary64

section Bounds

variable {v bound c : Float} (hv : v.isNaN = false) (hbound : bound.isNaN = false)
  (hc : c.isNaN = false)

include hv hbound hc

theorem sub_tolerance_le (hle : bound ≤ c) (h : c ≤ v ∨ Close v c) : bound - tolerance ≤ v := by
  rw [le_iff_value hbound hc] at hle
  rw [le_iff_value hc hv] at h
  have htol := value_tolerance_pos
  by_cases hfinite : bound.isFinite = true
  · have hexact : value bound - value tolerance ≤ value v := by
      rcases h with h | h
      · linarith
      · linarith [(abs_lt.1 (abs_sub_lt_of_close h)).1]
    exact pack_le (sub_spec (normal_of_isFinite hfinite) (normal_of_isFinite isFinite_tolerance)) hv
      hexact
  · have hinf := Bool.eq_false_of_not_eq_true hfinite
    rw [sub_eq_self_of_infinite hbound hinf isFinite_tolerance, le_iff_value hbound hv]
    rcases h with h | h
    · exact hle.trans h
    · -- A number that is close to another is finite, and so the bound is below all numbers.
      have habs := abs_value_of_infinite hbound hinf
      have hc' := abs_lt.1 (abs_value_lt (isFinite_of_close h))
      have hv' := abs_le.1 (abs_value_le hv)
      rcases abs_choice (value bound) with hsign | hsign <;> linarith

theorem le_add_tolerance (hle : c ≤ bound) (h : v ≤ c ∨ Close v c) : v ≤ bound + tolerance := by
  rw [le_iff_value hc hbound] at hle
  rw [le_iff_value hv hc] at h
  have htol := value_tolerance_pos
  by_cases hfinite : bound.isFinite = true
  · have hexact : value v ≤ value bound + value tolerance := by
      rcases h with h | h
      · linarith
      · linarith [(abs_lt.1 (abs_sub_lt_of_close h)).2]
    exact le_pack (add_spec (normal_of_isFinite hfinite) (normal_of_isFinite isFinite_tolerance)) hv
      hexact
  · have hinf := Bool.eq_false_of_not_eq_true hfinite
    rw [add_eq_self_of_infinite hbound hinf isFinite_tolerance, le_iff_value hv hbound]
    rcases h with h | h
    · exact h.trans hle
    · have habs := abs_value_of_infinite hbound hinf
      have hc' := abs_lt.1 (abs_value_lt (isFinite_of_close h))
      have hv' := abs_le.1 (abs_value_le hv)
      rcases abs_choice (value bound) with hsign | hsign <;> linarith

end Bounds

theorem isNaN_of_inPaddedRange {v a b : Float} (h : InPaddedRange v a b) :
    a.isNaN = false ∧ b.isNaN = false := by
  constructor
  · by_contra ha
    have hsub := (isNaN_of_le h.1).1
    rw [eq_nan_of_isNaN ha] at hsub
    exact absurd hsub (by decide +kernel)
  · by_contra hb
    have hadd := (isNaN_of_le h.2).2
    rw [eq_nan_of_isNaN hb] at hadd
    exact absurd hadd (by decide +kernel)

theorem padded_eq_of_beq {a b : Float} (h : a == b) :
    a - tolerance = b - tolerance ∧ a + tolerance = b + tolerance := by
  -- Only the zeros are equal without being the same number.
  obtain ⟨-, -, rfl | ⟨rfl, rfl⟩ | ⟨rfl, rfl⟩⟩ := Float.beq_iff_ne_nan_and_eq.1 h
  · exact ⟨rfl, rfl⟩
  · decide +kernel
  · decide +kernel

theorem within_comm (v a b : Float) : Within v a b ↔ Within v b a := by
  by_cases hab : a ≤ b <;> by_cases hba : b ≤ a
  · obtain ⟨ha, hb⟩ := isNaN_of_le hab
    have hvalue := le_antisymm ((le_iff_value ha hb).1 hab) ((le_iff_value hb ha).1 hba)
    obtain ⟨hsub, hadd⟩ := padded_eq_of_beq (beq_iff.2 ⟨ha, hb, hvalue⟩)
    rw [within_of_le hab, within_of_le hba, InPaddedRange, InPaddedRange, hsub, hadd]
  · rw [within_of_le hab, within_of_not_le hba]
  · rw [within_of_not_le hab, within_of_le hba]
  · have hnan : ¬(a.isNaN = false ∧ b.isNaN = false) := fun ⟨ha, hb⟩ =>
      hab (Binary64.le_of_lt ha hb ((Binary64.not_le hb ha).1 hba))
    rw [within_of_not_le hab, within_of_not_le hba]
    exact iff_of_false (fun h => hnan (isNaN_of_inPaddedRange h).symm)
      fun h => hnan (isNaN_of_inPaddedRange h)

theorem within_of_bounds {v a b c d : Float} (hv : v.isNaN = false) (ha : a.isNaN = false)
    (hb : b.isNaN = false) (hc : c = a ∨ c = b) (hd : d = a ∨ d = b) (hlow : c ≤ v ∨ Close v c)
    (hhigh : v ≤ d ∨ Close v d) : Within v a b := by
  wlog hab : a ≤ b generalizing a b
  · rw [within_comm]
    exact this hb ha hc.symm hd.symm (Binary64.le_of_lt hb ha ((Binary64.not_le ha hb).1 hab))
  have hrefl {x : Float} (hx : x.isNaN = false) : x ≤ x := (le_iff_value hx hx).2 le_rfl
  rw [within_of_le hab]
  constructor
  · rcases hc with rfl | rfl
    · exact sub_tolerance_le hv ha ha (hrefl ha) hlow
    · exact sub_tolerance_le hv ha hb hab hlow
  · rcases hd with rfl | rfl
    · exact le_add_tolerance hv hb ha hab hhigh
    · exact le_add_tolerance hv hb hb (hrefl hb) hhigh

/-- The padded range test accepts every number between its bounds and every number that is close to
one of them, infinities included, and it does not depend on the order of its bounds, even if some of
the numbers are undefined. -/
theorem within_of_between_or_close_binary64 (v a b : Float) :
    (v.isNaN = false → a.isNaN = false → b.isNaN = false →
      (a ≤ v ∧ v ≤ b ∨ b ≤ v ∧ v ≤ a ∨ Close v a ∨ Close v b) → Within v a b) ∧
    (Within v a b ↔ Within v b a) := by
  refine ⟨fun hv ha hb h => ?_, within_comm v a b⟩
  rcases h with ⟨hlow, hhigh⟩ | ⟨hlow, hhigh⟩ | hclose | hclose
  · exact within_of_bounds hv ha hb (.inl rfl) (.inr rfl) (.inl hlow) (.inl hhigh)
  · exact within_of_bounds hv ha hb (.inr rfl) (.inl rfl) (.inl hlow) (.inl hhigh)
  · exact within_of_bounds hv ha hb (.inl rfl) (.inl rfl) (.inr hclose) (.inr hclose)
  · exact within_of_bounds hv ha hb (.inr rfl) (.inr rfl) (.inr hclose) (.inr hclose)

/-- A number above both bounds and close to the upper one, which padding takes to the number itself:
the threshold is rounded down to ten units of the last place. -/
theorem within_of_between_or_close_binary64_rounded_bound :
    let a : Float := 4294967296
    let v := Float.ofBits 0x41f000000000000a
    a + tolerance = v ∧ v.isNaN = false ∧ a.isNaN = false ∧ (0 : Float).isNaN = false ∧ 0 < a ∧
      a < v ∧ Close v a ∧ Within v 0 a ∧ Within v a 0 := by
  intro a v
  have hclose : Close v a := by decide +kernel
  have hv : v.isNaN = false := by decide +kernel
  have ha : a.isNaN = false := by decide +kernel
  have hzero : (0 : Float).isNaN = false := by decide +kernel
  obtain ⟨haccept, hcomm⟩ := within_of_between_or_close_binary64 v 0 a
  have hwithin := haccept hv hzero ha (.inr (.inr (.inr hclose)))
  exact ⟨by decide +kernel, hv, ha, hzero, by decide +kernel, by decide +kernel, hclose, hwithin,
    hcomm.1 hwithin⟩

end PlaneFigures
