/-!
# Scalars and tolerance tests

The coordinate arithmetic that figures are computed with, and the two comparisons that forgive an
error of up to its threshold. No algebraic law is part of the class: an instance may round. Every
geometric definition is written once, over a scalar, and so has a binary64 meaning and an exact one,
in which no operation rounds and the threshold is exactly one hundred-thousandth. Closeness is
strict, the padded range is inclusive, and both are false as soon as a coordinate is not a number.
-/

namespace PlaneFigures

/-- Coordinates: four operations, an absolute value, two comparisons, and the absolute
threshold below which two coordinates count as equal. -/
class Scalar (α : Type) extends Add α, Sub α, Mul α, Div α, LT α, LE α where
  abs : α → α
  tolerance : α
  decidableLT : ∀ a b : α, Decidable (a < b)
  decidableLE : ∀ a b : α, Decidable (a ≤ b)

namespace Scalar

variable {α : Type} [Scalar α]

instance (a b : α) : Decidable (a < b) := decidableLT a b

instance (a b : α) : Decidable (a ≤ b) := decidableLE a b

/-- Binary64 coordinates. Each operation rounds once, to nearest with ties to even. -/
instance binary64 : Scalar Float where
  abs := Float.abs
  tolerance := 0.00001
  decidableLT := Float.decLt
  decidableLE := Float.decLe

instance exact : Scalar Rat where
  toAdd := ⟨Rat.add⟩
  toSub := ⟨Rat.sub⟩
  toMul := ⟨Rat.mul⟩
  toDiv := ⟨Rat.div⟩
  toLT := Rat.instLT
  toLE := Rat.instLE
  abs a := if a.num < 0 then a.neg else a
  tolerance := mkRat 1 100000
  decidableLT := Rat.instDecidableLt
  decidableLE := Rat.instDecidableLe

end Scalar

open Scalar (abs tolerance)

variable {α : Type} [Scalar α]

def Close (a b : α) : Prop := abs (a - b) < tolerance

instance (a b : α) : Decidable (Close a b) := inferInstanceAs (Decidable (_ < _))

def InPaddedRange (v low high : α) : Prop := low - tolerance ≤ v ∧ v ≤ high + tolerance

instance (v low high : α) : Decidable (InPaddedRange v low high) :=
  inferInstanceAs (Decidable (_ ∧ _))

/-- The padded range between `a` and `b` holds `v`. The bounds come in either order; bounds
that cannot be compared are taken in reverse. -/
def Within (v a b : α) : Prop :=
  if a ≤ b then InPaddedRange v a b else InPaddedRange v b a

instance (v a b : α) : Decidable (Within v a b) :=
  inferInstanceAs (Decidable (if a ≤ b then InPaddedRange v a b else InPaddedRange v b a))

theorem within_of_le {v a b : α} (h : a ≤ b) : Within v a b ↔ InPaddedRange v a b := by
  simp [Within, h]

theorem within_of_not_le {v a b : α} (h : ¬a ≤ b) : Within v a b ↔ InPaddedRange v b a := by
  simp [Within, h]

end PlaneFigures
