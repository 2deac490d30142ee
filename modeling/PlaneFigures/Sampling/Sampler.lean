import PlaneFigures.Figure
import PlaneFigures.Sampling.Draw

/-!
# Random figures

A kind is drawn without bias. Five times a word, as a number of 128 bits, has the index in its
upper half; the word is rejected if the lower half is not below `5 * 2 ^ 61`, that is
`0xa000000000000000`, so that every index is left with `2 ^ 61` words.

A sampler draws figures whose coordinates and intercepts lie between minus its extent and its
extent. Slopes stay between minus four and four, so that intercepts remain comparable to the
extent. The coordinates of a figure are drawn in the order in which they are written.
-/

namespace PlaneFigures

namespace Kind

def ofIndex : Fin 5 → Kind
  | 0 => .empty
  | 1 => .point
  | 2 => .line
  | 3 => .vertical
  | 4 => .segment

def index? (word : UInt64) : Option (Fin 5) :=
  let product := word.toNat * 5
  if product % UInt64.size < 0xa000000000000000 then
    some ⟨product / UInt64.size, Nat.div_lt_of_lt_mul (by
      rw [Nat.mul_comm UInt64.size]
      exact Nat.mul_lt_mul_of_pos_right word.toNat_lt_size (by decide))⟩
  else none

def select? (word : UInt64) : Option Kind := (index? word).map ofIndex

def draw : Draw Kind := Draw.accepted select? (by decide)

end Kind

/-- A sampler. Its extent is at least one, and so never undefined. -/
structure Sampler where
  extent : Float
  one_le_extent : 1 ≤ extent

namespace Sampler

def ofExtent (extent : Float) : Sampler :=
  if h : 1 ≤ extent.abs then ⟨extent.abs, h⟩ else ⟨1, by decide +kernel⟩

def coordinate (s : Sampler) : Draw Float := Draw.uniform (-s.extent) s.extent

def slope : Draw Float := Draw.uniform (-4) 4

def point (s : Sampler) : Draw (Point Float) := return ⟨← s.coordinate, ← s.coordinate⟩

def figureOfKind (s : Sampler) : Kind → Draw (Figure Float)
  | .empty => return .empty
  | .point => return .point (← s.point)
  | .line => return .line (← slope) (← s.coordinate)
  | .vertical => return .vertical (← s.coordinate)
  | .segment => return .segment ⟨← s.point, ← s.point⟩

def figure (s : Sampler) : Draw (Figure Float) := do s.figureOfKind (← Kind.draw)

def pointOn? (s : Sampler) (f : Figure Float) : Draw (Option (Point Float)) :=
  f.pointOn? s.coordinate Draw.unit

end Sampler

end PlaneFigures
