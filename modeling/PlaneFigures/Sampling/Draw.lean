/-!
# Draws

Numbers drawn from a supply of random words, which is a finite list followed by zeros for ever.
Drawing until a word is accepted ends because the zero word is accepted: the caller proves so. The
number of words used is part of the supply, the zeros past the end of the list included. A draw may
fail before it uses a word; the words used by earlier draws stay used.

The fraction of a word is its upper 52 bits read as a multiple of `2 ^ -52` below one. A half-open
range takes fractions until the scaled one is below the upper bound, a closed unit range scales the
fraction so that the greatest one becomes one.
-/

namespace PlaneFigures

structure Words where
  pending : List UInt64
  used : Nat
deriving DecidableEq, Repr

namespace Words

variable {β : Type}

def ofList (words : List UInt64) : Words := ⟨words, 0⟩

def next (w : Words) : UInt64 × Words :=
  match w.pending with
  | [] => (0, ⟨[], w.used + 1⟩)
  | word :: rest => (word, ⟨rest, w.used + 1⟩)

/-- The first accepted word's value, and the supply after that word, for a list of words of
which the first follows `used` others. -/
def searchFrom (accept : UInt64 → Option β) (zero : (accept 0).isSome) :
    List UInt64 → Nat → β × Words
  | [], used => ((accept 0).get zero, ⟨[], used + 1⟩)
  | word :: rest, used =>
    match accept word with
    | some b => (b, ⟨rest, used + 1⟩)
    | none => searchFrom accept zero rest (used + 1)

def nextAccepted (accept : UInt64 → Option β) (zero : (accept 0).isSome) (w : Words) :
    β × Words :=
  searchFrom accept zero w.pending w.used

end Words

inductive RangeError where
  /-- A bound or the width of the range is not a finite number. -/
  | unbounded
  /-- The lower bound is not below the upper one. -/
  | empty
deriving DecidableEq, Repr

abbrev Draw (β : Type) := ExceptT RangeError (StateM Words) β

namespace Draw

variable {β : Type}

def word : Draw UInt64 := modifyGet Words.next

def accepted (accept : UInt64 → Option β) (zero : (accept 0).isSome) : Draw β :=
  modifyGet (Words.nextAccepted accept zero)

def runFrom (x : Draw β) (w : Words) : Except RangeError β × Words := (x.run).run w

/-- The fraction of a word, at least zero and less than one: the upper 52 bits become the
fraction bits of a number between one and two, from which one is taken. -/
def fraction (word : UInt64) : Float := Float.ofBits (word >>> 12 ||| 0x3ff0000000000000) - 1

/-- The place of a word's fraction in the range from `low` to `high`, if rounding has not moved
it out of the range. -/
def place? (low high : Float) (word : UInt64) : Option Float :=
  let placed := fraction word * (high - low) + low
  if placed < high then some placed else none

def uniform (low high : Float) : Draw Float :=
  if low.isFinite ∧ high.isFinite ∧ (high - low).isFinite then
    if zero : (place? low high 0).isSome then accepted (place? low high) zero
    else throw .empty
  else throw .unbounded

def unitScale : Float := 1 / fraction 0xffffffffffffffff

def unit : Draw Float := return fraction (← word) * unitScale + 0

end Draw

end PlaneFigures
