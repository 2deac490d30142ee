import Mathlib.Algebra.Order.Ring.Rat
import Mathlib.Tactic.Linarith
import PlaneFigures.Proofs.Reversal
import PlaneFigures.Scalar

/-!
# Tolerance tests over the rationals

Over the exact scalar the two tolerance tests are statements of ordinary rational order: closeness
bounds the absolute difference, and the padded range reaches from the lesser bound to the greater
one, with one hundred-thousandth added on both sides.
-/

namespace PlaneFigures

namespace Scalar

theorem exact_tolerance : (tolerance : ℚ) = 1 / 100000 := by
  change mkRat 1 100000 = 1 / 100000
  rw [Rat.mkRat_eq_div]
  norm_num

theorem exact_abs (a : ℚ) : abs a = |a| := by
  change (if a.num < 0 then -a else a) = |a|
  by_cases h : a.num < 0
  · rw [if_pos h, abs_of_neg (Rat.num_neg.1 h)]
  · rw [if_neg h, abs_of_nonneg (Rat.num_nonneg.1 (not_lt.1 h))]

instance : Symmetric ℚ where
  abs_sub_comm a b := by
    have h := abs_sub_comm a b
    rwa [← exact_abs, ← exact_abs] at h

end Scalar

theorem close_iff {a b : ℚ} : Close a b ↔ |a - b| < 1 / 100000 := by
  rw [← Scalar.exact_abs, ← Scalar.exact_tolerance]
  rfl

theorem close_iff_bounds {a b : ℚ} : Close a b ↔ a - b < 1 / 100000 ∧ b - a < 1 / 100000 := by
  rw [close_iff, abs_sub_lt_iff]

theorem inPaddedRange_iff {v a b : ℚ} :
    InPaddedRange v a b ↔ a - 1 / 100000 ≤ v ∧ v ≤ b + 1 / 100000 := by
  rw [← Scalar.exact_tolerance]
  rfl

theorem within_iff {v a b : ℚ} :
    Within v a b ↔ min a b - 1 / 100000 ≤ v ∧ v ≤ max a b + 1 / 100000 := by
  by_cases h : a ≤ b
  · rw [within_of_le h, inPaddedRange_iff, min_eq_left h, max_eq_right h]
  · have hba : b ≤ a := le_of_not_ge h
    rw [within_of_not_le h, inPaddedRange_iff, min_eq_right hba, max_eq_left hba]

theorem close_refl (a : ℚ) : Close a a := by
  rw [close_iff_bounds]
  constructor <;> norm_num

theorem ne_of_not_close {a b : ℚ} (h : ¬Close a b) : a ≠ b := by
  intro he
  rw [he] at h
  exact h (close_refl b)

theorem within_right (a b : ℚ) : Within b a b := by
  rw [within_iff]
  have hmin := min_le_right a b
  have hmax := le_max_right a b
  constructor <;> linarith

theorem within_of_close {v a b : ℚ} (h : Close v a) : Within v a b := by
  rw [close_iff_bounds] at h
  rw [within_iff]
  have hmin := min_le_left a b
  have hmax := le_max_left a b
  constructor <;> linarith

theorem Point.close_refl (p : Point ℚ) : p.Close p :=
  ⟨PlaneFigures.close_refl p.x, PlaneFigures.close_refl p.y⟩

theorem Figure.close_refl (f : Figure ℚ) : f.Close f := by
  cases f with
  | empty => trivial
  | point p => exact p.close_refl
  | line m b => exact ⟨PlaneFigures.close_refl m, PlaneFigures.close_refl b⟩
  | vertical x => exact PlaneFigures.close_refl x
  | segment s => exact ⟨s.start.close_refl, s.stop.close_refl⟩

end PlaneFigures
