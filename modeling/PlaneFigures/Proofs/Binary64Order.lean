import PlaneFigures.Scalar

/-!
# Comparison of binary64 numbers

A comparison of two binary64 numbers gives the reverse answer when the operands are exchanged, or
no answer both ways if one of them is not a number. Hence no number is both less and greater than
another, infinities and both zeros included. Closeness is no reflexive relation: an infinity and the
value that is not a number are close to nothing. A number that is close to some number is finite,
and its difference from itself is then an exact zero.
-/

namespace PlaneFigures.Binary64

open Float.Model (UnpackedFloat)
open Float.Model.UnpackedFloat (Sign)

theorem compare_swap (a b : UnpackedFloat) :
    (a.compare b).map Ordering.swap = b.compare a := by
  cases a with
  | notANumber => cases b <;> rfl
  | infinity s =>
    cases b with
    | infinity t => cases s <;> cases t <;> rfl
    | _ => cases s <;> rfl
  | zero s =>
    cases b with
    | infinity t => cases t <;> rfl
    | finite t n k hn => cases t <;> rfl
    | _ => rfl
  | finite s m e hm =>
    cases b with
    | notANumber => cases s <;> rfl
    | infinity t => cases s <;> cases t <;> rfl
    | zero t => cases s <;> rfl
    | finite t n k hn =>
      have hswap : ((compare e k).then (compare m n)).swap = (compare k e).then (compare n m) := by
        rw [Ordering.swap_then, Int.compare_swap, Nat.compare_swap]
      cases s with
      | positive =>
        cases t with
        | positive => exact congrArg some hswap
        | negative => rfl
      | negative =>
        cases t with
        | positive => rfl
        | negative => exact congrArg (some ·.swap) hswap

theorem lt_iff_compare {a b : Float} :
    a < b ↔ a.toModel.unpack.compare b.toModel.unpack = some .lt := by
  change decide (a.toModel < b.toModel) = true ↔ _
  rw [decide_eq_true_iff]
  change (a.toModel.unpack.compare b.toModel.unpack == some .lt) = true ↔ _
  rw [beq_iff_eq]

instance asymm_lt : Std.Asymm (α := Float) (· < ·) where
  asymm a b hab hba := by
    rw [lt_iff_compare] at hab hba
    rw [← compare_swap, hab] at hba
    cases hba

def Small (d : UnpackedFloat) : Prop := Float.abs (.ofModel (.pack d)) < Scalar.tolerance

instance (d : UnpackedFloat) : Decidable (Small d) := inferInstanceAs (Decidable (_ < _))

theorem close_iff_small {a b : Float} :
    Close a b ↔ Small (UnpackedFloat.sub .binary64 a.toModel.unpack b.toModel.unpack) := Iff.rfl

theorem small_zero : Small (.zero .positive) := by decide +kernel

theorem not_small_notANumber : ¬Small .notANumber := by decide +kernel

theorem not_small_infinity (s : Sign) : ¬Small (.infinity s) := by
  cases s <;> decide +kernel

theorem sub_infinity (u : UnpackedFloat) (t : Sign) :
    UnpackedFloat.sub .binary64 u (.infinity t) = .notANumber ∨
      UnpackedFloat.sub .binary64 u (.infinity t) = .infinity (-t) := by
  cases u with
  | notANumber => exact Or.inl rfl
  | zero s => exact Or.inr rfl
  | finite s m e hm => exact Or.inr rfl
  | infinity s =>
    cases s with
    | positive =>
      cases t with
      | positive => exact Or.inl rfl
      | negative => exact Or.inr rfl
    | negative =>
      cases t with
      | positive => exact Or.inr rfl
      | negative => exact Or.inl rfl

theorem sub_self_of_small {u v : UnpackedFloat} (h : Small (UnpackedFloat.sub .binary64 u v)) :
    UnpackedFloat.sub .binary64 v v = .zero .positive := by
  cases v with
  | notANumber =>
    have hsub : UnpackedFloat.sub .binary64 u .notANumber = .notANumber := by cases u <;> rfl
    rw [hsub] at h
    exact absurd h not_small_notANumber
  | infinity t =>
    rcases sub_infinity u t with hsub | hsub
    · rw [hsub] at h
      exact absurd h not_small_notANumber
    · rw [hsub] at h
      exact absurd h (not_small_infinity _)
  | zero t => cases t <;> rfl
  | finite t m e hm =>
    change UnpackedFloat.normalize _ (t.apply _ - t.apply _) _ _ = _
    rw [Int.sub_self]
    rfl

theorem close_self_of_close {a b : Float} (h : Close a b) : Close b b := by
  rw [close_iff_small] at h ⊢
  rw [sub_self_of_small h]
  exact small_zero

end PlaneFigures.Binary64
