import PlaneFigures.Expr.Evaluate
import PlaneFigures.Expr.Log

/-!
# Gallery

Small named programs that show what the language does, and the report that runs them all: one
line per program, with its name in a column of its own and its figure or error after it.
-/

namespace PlaneFigures

structure Exhibit where
  name : String
  program : Expr Float

namespace Gallery

open PlaneFigures.Expr (literal intersect letIn var shift)

private def point (x y : Float) : Expr Float := literal (.point ⟨x, y⟩)

private def line (slope intercept : Float) : Expr Float := literal (.line slope intercept)

private def vertical (x : Float) : Expr Float := literal (.vertical x)

private def segment (x₁ y₁ x₂ y₂ : Float) : Expr Float :=
  literal (.segment ⟨⟨x₁, y₁⟩, ⟨x₂, y₂⟩⟩)

def exhibits : List Exhibit := [
  ⟨"crossing lines", intersect (line 1 0) (line (-1) 0)⟩,
  ⟨"parallel lines", intersect (line 1 0) (line 1 1)⟩,
  ⟨"overlapping segments", intersect (segment 0 0 4 0) (segment 6 0 2 0)⟩,
  ⟨"shifted crossing", shift 1 1 (intersect (line 1 0) (vertical 2))⟩,
  ⟨"shadowed binding", letIn "p" (point 0 0) (letIn "p" (point 1 1) (var "p"))⟩,
  ⟨"nested scopes", letIn "diag" (segment 4 4 0 0)
    (letIn "hit" (intersect (var "diag") (vertical 3)) (intersect (var "hit") (point 3 3)))⟩,
  ⟨"degenerate segment", intersect (segment 1 1 1 1) (line 1 0)⟩,
  ⟨"unbound variable", shift 2 0 (var "q")⟩]

def find? (name : String) : Option (Expr Float) :=
  (exhibits.find? (·.name = name)).map (·.program)

def nameWidth : Nat := 22

def outcomeText : Except EvalError (Figure Float) → String
  | .ok f => f.text
  | .error e => "error: " ++ e.message

def padded (width : Nat) (text : String) : String :=
  text ++ String.ofList (List.replicate (width - text.length) ' ')

def reportLine (exhibit : Exhibit) : String :=
  padded nameWidth exhibit.name ++ " " ++ outcomeText exhibit.program.run ++ "\n"

def report : String := String.join (exhibits.map reportLine)

end Gallery

end PlaneFigures
