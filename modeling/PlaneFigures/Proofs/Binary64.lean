import Mathlib
import PlaneFigures.Proofs.Reversal

/-!
# Magnitudes of binary64 differences

Rounding to nearest treats the two signs alike: the rounded differences `a - b` and `b - a` have
the same magnitude, bit for bit and for all operands, infinities and the one value that is not a
number included. The sign is followed through the three stages of a subtraction, which are exact
subtraction of mantissas, rounding, and packing into fields.
-/

namespace PlaneFigures.Binary64

open Float.Model (Format UnpackedFloat)
open Float.Model.UnpackedFloat (Sign pack packedInfinity packedZero unpack unpackExponent
  unpackMantissa)

variable {spec : Format}

theorem abs_round (s t : Sign) (m : Nat) (e : Int) :
    (UnpackedFloat.round spec s m e).abs = (UnpackedFloat.round spec t m e).abs := by
  simp only [UnpackedFloat.round, UnpackedFloat.roundWithAccuracy]
  split <;> rfl

theorem abs_normalize_neg (m e : Int) (z : Sign) :
    (UnpackedFloat.normalize spec (-m) e z).abs = (UnpackedFloat.normalize spec m e z).abs := by
  rcases Int.lt_trichotomy m 0 with hm | rfl | hm
  · have hneg : compare (-m) 0 = .gt := Int.compare_eq_gt.2 (by omega)
    have hpos : compare m 0 = .lt := Int.compare_eq_lt.2 hm
    simp only [UnpackedFloat.normalize, hneg, hpos]
    exact abs_round _ _ _ _
  · rfl
  · have hneg : compare (-m) 0 = .lt := Int.compare_eq_lt.2 (by omega)
    have hpos : compare m 0 = .gt := Int.compare_eq_gt.2 hm
    simp only [UnpackedFloat.normalize, hneg, hpos, Int.neg_neg]
    exact abs_round _ _ _ _

theorem abs_sub_comm (a b : UnpackedFloat) :
    (UnpackedFloat.sub spec a b).abs = (UnpackedFloat.sub spec b a).abs := by
  cases a with
  | notANumber => cases b <;> rfl
  | infinity s =>
    cases b with
    | infinity t => cases s <;> cases t <;> rfl
    | notANumber => rfl
    | zero t => rfl
    | finite t m e hm => rfl
  | zero s =>
    cases b with
    | zero t => cases s <;> cases t <;> rfl
    | notANumber => rfl
    | infinity t => rfl
    | finite t m e hm => rfl
  | finite s m e hm =>
    cases b with
    | finite t n k hn =>
      simp only [UnpackedFloat.sub, Int.min_comm k e]
      rw [← abs_normalize_neg, Int.neg_sub]
    | notANumber => rfl
    | infinity t => rfl
    | zero t => rfl

theorem abs_unpack_congr {b c : BitVec spec.numBits}
    (he : unpackExponent b = unpackExponent c) (hm : unpackMantissa b = unpackMantissa c) :
    (unpack spec b).abs = (unpack spec c).abs := by
  simp only [unpack, he, hm]
  split_ifs <;> rfl

theorem fields_pack_abs (u : UnpackedFloat) :
    unpackExponent (pack spec u.abs) = unpackExponent (pack spec u) ∧
      unpackMantissa (pack spec u.abs) = unpackMantissa (pack spec u) := by
  cases u with
  | notANumber => exact ⟨rfl, rfl⟩
  | infinity s => simp [UnpackedFloat.abs, pack, packedInfinity]
  | zero s => simp [UnpackedFloat.abs, pack, packedZero]
  | finite s m e hm =>
    simp only [UnpackedFloat.abs, pack]
    split_ifs <;> simp [packedInfinity]

theorem abs_unpack_pack (u : UnpackedFloat) :
    (unpack spec (pack spec u)).abs = (unpack spec (pack spec u.abs)).abs :=
  abs_unpack_congr (fields_pack_abs u).1.symm (fields_pack_abs u).2.symm

instance : Scalar.Symmetric Float where
  abs_sub_comm a b := by
    have h := @abs_sub_comm .binary64 a.toModel.unpack b.toModel.unpack
    change Float.ofModel (.pack (unpack _ (pack _ (UnpackedFloat.sub _ _ _))).abs) =
      Float.ofModel (.pack (unpack _ (pack _ (UnpackedFloat.sub _ _ _))).abs)
    rw [abs_unpack_pack, h, ← abs_unpack_pack]

end PlaneFigures.Binary64
