/-!
# Decimals and numerals

A decimal is a coefficient scaled by a power of ten. Its text is positional and complete: no
exponent is ever written, zeros fill the places up to the point, and a whole number has no point.

A positive binary float stands for all reals that round to it. Of these reals the text of the
float shows one with the fewest digits: a multiple of the largest power of ten that has a
multiple among them, and of such multiples the one nearest to the float itself. If a multiple of
a power of ten is among them then so is one of the two multiples next to the float, so only
those two are tested. All arithmetic is exact, on natural numbers. A sign stands in front of every
negative number, negative zero included. Infinity and the undefined number have words of their own,
the latter without a sign.
-/

namespace PlaneFigures

structure Decimal where
  coefficient : Nat
  exponent : Int
deriving DecidableEq, Repr

namespace Decimal

/-- The digits with a point before the last `places` of them. Zeros in front make sure that a
digit stands before the point. -/
def pointed (digits : List Char) (places : Nat) : List Char :=
  let padded := List.replicate (places + 1 - digits.length) '0' ++ digits
  padded.take (padded.length - places) ++ '.' :: padded.drop (padded.length - places)

def positional (d : Decimal) : List Char :=
  let digits := Nat.toDigits 10 d.coefficient
  if 0 ≤ d.exponent then digits ++ List.replicate d.exponent.toNat '0'
  else pointed digits (-d.exponent).toNat

end Decimal

/-- A range of reals around a float, measured on a scale on which the multiples of some power of
ten are the multiples of `step`. The ends belong to the range if it is closed. -/
structure GridSpan where
  low : Nat
  mid : Nat
  high : Nat
  step : Nat
  closed : Bool
deriving DecidableEq, Repr

namespace GridSpan

def Holds (g : GridSpan) (n : Nat) : Prop :=
  if g.closed then g.low ≤ n * g.step ∧ n * g.step ≤ g.high
  else g.low < n * g.step ∧ n * g.step < g.high

instance (g : GridSpan) (n : Nat) : Decidable (g.Holds n) := by
  unfold Holds
  infer_instance

def below (g : GridSpan) : Nat := g.mid / g.step

def NextNearer (g : GridSpan) (n : Nat) : Prop := (2 * n + 1) * g.step ≤ 2 * g.mid

instance (g : GridSpan) (n : Nat) : Decidable (g.NextNearer n) :=
  inferInstanceAs (Decidable (_ ≤ _))

/-- The number of steps in the range that is nearest to the middle, if there is one. Of two at
the same distance it is the greater. -/
def nearest? (g : GridSpan) : Option Nat :=
  let n := g.below
  if g.Holds n then
    if g.NextNearer n ∧ g.Holds (n + 1) then some (n + 1) else some n
  else if g.Holds (n + 1) then some (n + 1)
  else none

end GridSpan

/-- The reals that round to a positive float, in multiples of `2 ^ unit`: those between `low`
and `high`, the ends included if the span is closed. The float itself is `mid`. -/
structure RoundingSpan where
  low : Nat
  mid : Nat
  high : Nat
  closed : Bool
  unit : Int
deriving DecidableEq, Repr

namespace RoundingSpan

def fractionSize : Nat := 0x10000000000000

/-- The span of a positive finite binary64 number with the given exponent and fraction fields.
The unit is a quarter of the distance to the next float, so that both midpoints are whole. The
float below is half as far away if the fraction is zero and the exponent is not the least. Ties
go to the even mantissa, which is why its midpoints belong to it. -/
def ofFields (exponent fraction : Nat) : RoundingSpan :=
  let mantissa := if exponent = 0 then fraction else fractionSize + fraction
  { low := if fraction = 0 ∧ 1 < exponent then 4 * mantissa - 1 else 4 * mantissa - 2
    mid := 4 * mantissa
    high := 4 * mantissa + 2
    closed := mantissa % 2 == 0
    unit := (max exponent 1 : Nat) - 1077 }

def onGrid (s : RoundingSpan) (k : Int) : GridSpan :=
  let scale := Nat.pow 2 s.unit.toNat * Nat.pow 10 (-k).toNat
  { low := s.low * scale
    mid := s.mid * scale
    high := s.high * scale
    step := Nat.pow 2 (-s.unit).toNat * Nat.pow 10 k.toNat
    closed := s.closed }

def Holds (s : RoundingSpan) (d : Decimal) : Prop := (s.onGrid d.exponent).Holds d.coefficient

instance (s : RoundingSpan) (d : Decimal) : Decidable (s.Holds d) :=
  inferInstanceAs (Decidable (GridSpan.Holds _ _))

def nearest? (s : RoundingSpan) (k : Int) : Option Decimal :=
  (s.onGrid k).nearest?.map (⟨·, k⟩)

/-- Exponents of ten from one too large for any multiple to be in the span down to one small
enough for several, the largest first. The logarithm of two is close to 0.30103. -/
def grids (s : RoundingSpan) : List Int :=
  let top := (s.mid.log2 + s.unit) * 30103 / 100000 + 2
  (List.range 22).map (top - Int.ofNat ·)

def exactly (s : RoundingSpan) : Decimal :=
  if 0 ≤ s.unit then ⟨s.mid * Nat.pow 2 s.unit.toNat, 0⟩
  else ⟨s.mid * Nat.pow 5 (-s.unit).toNat, s.unit⟩

def shortest (s : RoundingSpan) : Decimal := (s.grids.findSome? s.nearest?).getD s.exactly

end RoundingSpan

structure FloatFields where
  negative : Bool
  exponent : Nat
  fraction : Nat
deriving DecidableEq, Repr

namespace FloatFields

def ofFloat (x : Float) : FloatFields :=
  let bits := x.toBits.toNat
  { negative := bits / RoundingSpan.fractionSize / 2048 == 1
    exponent := bits / RoundingSpan.fractionSize % 2048
    fraction := bits % RoundingSpan.fractionSize }

def magnitude (f : FloatFields) : String :=
  if f.exponent = 2047 then "inf"
  else if f.exponent = 0 ∧ f.fraction = 0 then "0"
  else String.ofList (RoundingSpan.ofFields f.exponent f.fraction).shortest.positional

def text (f : FloatFields) : String :=
  if f.exponent = 2047 ∧ f.fraction ≠ 0 then "NaN"
  else if f.negative then "-" ++ f.magnitude
  else f.magnitude

end FloatFields

def numeral (x : Float) : String := (FloatFields.ofFloat x).text

end PlaneFigures
