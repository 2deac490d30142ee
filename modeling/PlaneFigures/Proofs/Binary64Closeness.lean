import PlaneFigures.Proofs.Binary64Value

/-!
# Closeness of binary64 numbers

Two finite numbers are close if their exact difference, rounded once, is below the threshold in
magnitude; nothing is close to an infinity. Because rounding is monotone, a number between two close
numbers is close to them too. Finite numbers that compare equal are close, and closeness does not
tell such numbers apart.
-/

namespace PlaneFigures.Binary64

open Float.Model (UnpackedFloat)
open Float.Model.UnpackedFloat (pack unpack)

theorem valueOf_abs (u : UnpackedFloat) : valueOf u.abs = |valueOf u| := by
  cases u with
  | notANumber => exact abs_zero.symm
  | infinity s => exact (abs_signed s limit_pos.le).symm
  | zero s => exact abs_zero.symm
  | finite s m e hm =>
    have hnonneg : (0 : ℚ) ≤ m * 2 ^ e := by positivity
    exact (abs_signed s hnonneg).symm

theorem normal_abs {u : UnpackedFloat} (hu : Normal u) : Normal u.abs := by
  cases u with
  | notANumber => exact hu
  | infinity s => exact hu
  | zero s => trivial
  | finite s m e hm => exact hu

theorem unpack_pack_of_lt {u : UnpackedFloat} (hu : Normal u) (h : |valueOf u| < limit) :
    unpack .binary64 (pack .binary64 u) = u := by
  cases u with
  | notANumber => exact hu.elim
  | infinity s => exact hu.elim
  | zero s => exact UnpackedFloat.unpack_packedZero
  | finite s m e hm => rw [unpack_pack_finite hu, if_pos ((abs_lt_limit_iff hu).1 h)]

theorem unpack_pack_of_le {u : UnpackedFloat} (hu : Normal u) (h : limit ≤ |valueOf u|) :
    ∃ s, unpack .binary64 (pack .binary64 u) = .infinity s := by
  cases u with
  | notANumber => exact hu.elim
  | infinity s => exact hu.elim
  | zero s =>
    rw [valueOf, abs_zero] at h
    exact absurd limit_pos (not_lt.2 h)
  | finite s m e hm =>
    refine ⟨s, ?_⟩
    rw [unpack_pack_finite hu, if_neg (mt (abs_lt_limit_iff hu).2 (not_lt.2 h))]

theorem isFinite_tolerance : (Scalar.tolerance : Float).isFinite = true := by decide +kernel

theorem small_iff {w : UnpackedFloat} (hw : Normal w) :
    Small w ↔ |valueOf w| < value Scalar.tolerance := by
  have htol := ranked_of_isNaN (isNaN_of_isFinite isFinite_tolerance)
  have hlimit := (le_abs_self _).trans_lt (abs_value_lt isFinite_tolerance)
  have hsmall : Small w ↔ UnpackedFloat.compare
      (unpack .binary64 (pack .binary64 (unpack .binary64 (pack .binary64 w)).abs))
      (Scalar.tolerance : Float).toModel.unpack = some .lt := lt_iff_compare
  rw [hsmall]
  rcases lt_or_ge |valueOf w| limit with hlt | hge
  · have habs : |valueOf w.abs| < limit := by rwa [valueOf_abs, abs_abs]
    have hranked := ranked_of_lt (normal_abs hw) habs
    rw [unpack_pack_of_lt hw hlt, unpack_pack_of_lt (normal_abs hw) habs,
      compare_eq_lt_iff hranked htol, valueOf_abs]
    rfl
  · obtain ⟨s, hs⟩ := unpack_pack_of_le hw hge
    have hinf : unpack .binary64 (pack .binary64 (UnpackedFloat.infinity s).abs) =
        .infinity .positive := unpack_packedInfinity .positive
    rw [hs, hinf, compare_eq_lt_iff (u := .infinity .positive) trivial htol]
    exact iff_of_false (not_lt.2 hlimit.le) (not_lt.2 (hlimit.le.trans hge))

theorem isFinite_of_close {a b : Float} (h : Close a b) : b.isFinite = true := by
  have hsub := sub_self_of_small (close_iff_small.1 h)
  change b.toModel.unpack.isFinite = true
  cases hb : b.toModel.unpack with
  | notANumber =>
    rw [hb] at hsub
    cases hsub
  | infinity s =>
    rw [hb] at hsub
    cases s <;> cases hsub
  | zero s => rfl
  | finite s m e hm => rfl

/-- Finite numbers are close if the magnitude of their difference, rounded once, is below the
threshold. -/
theorem close_iff_value {a b : Float} (ha : a.isFinite = true) (hb : b.isFinite = true) :
    Close a b ↔ nearest |value a - value b| < value Scalar.tolerance := by
  obtain ⟨hnormal, hvalue⟩ := sub_spec (normal_of_isFinite ha) (normal_of_isFinite hb)
  rw [close_iff_small, small_iff hnormal, hvalue, abs_nearest]
  rfl

theorem value_tolerance_pos : 0 < value Scalar.tolerance := by
  have hlt : (0 : Float) < Scalar.tolerance := by decide +kernel
  have hvalue := (lt_iff_value (by decide +kernel) (isNaN_of_isFinite isFinite_tolerance)).1 hlt
  exact hvalue

theorem close_of_value_eq {a b : Float} (ha : a.isFinite = true) (hb : b.isFinite = true)
    (h : value a = value b) : Close a b := by
  rw [close_iff_value ha hb, h, sub_self, abs_zero, nearest_zero]
  exact value_tolerance_pos

theorem close_self {a : Float} (ha : a.isFinite = true) : Close a a := close_of_value_eq ha ha rfl

theorem lt_of_not_close {a b : Float} (ha : a.isFinite = true) (hb : b.isFinite = true)
    (h : ¬Close a b) (hle : a ≤ b) : a < b := by
  have ha' := isNaN_of_isFinite ha
  have hb' := isNaN_of_isFinite hb
  rw [le_iff_value ha' hb'] at hle
  exact (lt_iff_value ha' hb').2 (lt_of_le_of_ne hle (mt (close_of_value_eq ha hb) h))

theorem isFinite_congr {a b : Float} (h : a == b) (ha : a.isFinite = true) : b.isFinite = true := by
  obtain ⟨ha', hb', h⟩ := beq_iff.1 h
  rw [isFinite_iff_value ha', h] at ha
  exact (isFinite_iff_value hb').2 ha

theorem close_congr {a b c d : Float} (hac : a == c) (hbd : b == d) : Close a b ↔ Close c d := by
  have himp {a b c d : Float} (hac : a == c) (hbd : b == d) (h : Close a b) : Close c d := by
    have ha := isFinite_of_close (close_comm.1 h)
    have hb := isFinite_of_close h
    rw [close_iff_value ha hb, (beq_iff.1 hac).2.2, (beq_iff.1 hbd).2.2] at h
    exact (close_iff_value (isFinite_congr hac ha) (isFinite_congr hbd hb)).2 h
  exact ⟨himp hac hbd, himp (BEq.symm hac) (BEq.symm hbd)⟩

theorem close_of_between {a b c : Float} (hb : b.isNaN = false) (hab : a ≤ b) (hbc : b ≤ c)
    (h : Close c a) : Close b a := by
  have ha := isFinite_of_close h
  have hc := isFinite_of_close (close_comm.1 h)
  rw [le_iff_value (isNaN_of_isFinite ha) hb] at hab
  rw [le_iff_value hb (isNaN_of_isFinite hc)] at hbc
  have ha' := abs_lt.1 (abs_value_lt ha)
  have hc' := abs_lt.1 (abs_value_lt hc)
  have hb' : b.isFinite = true := (isFinite_iff_value hb).2 (abs_lt.2 ⟨by linarith, by linarith⟩)
  rw [close_iff_value hc ha, abs_of_nonneg (by linarith)] at h
  rw [close_iff_value hb' ha, abs_of_nonneg (by linarith)]
  exact (nearest_mono (by linarith) (by linarith)).trans_lt h

end PlaneFigures.Binary64
