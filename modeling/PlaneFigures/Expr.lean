import PlaneFigures.Figure

/-!
# Expressions

Programs over figures: literals, intersections, local definitions, variables and shifts. The
canonical form of a program has every literal in canonical form and is otherwise the same tree.

The rest is the static reading of a program: which variable occurrences are free, in the order in
which an evaluation comes to them, what it means to put a figure in the place of a free variable, the
literals and the defined names, and the list of all subexpressions from the outside in and from left
to right, also with the definitions around each of them.
-/

namespace PlaneFigures

/-- A program. The name of a definition is visible in its body and not in its bound part. -/
inductive Expr (α : Type) where
  | literal (value : Figure α)
  | intersect (left right : Expr α)
  | letIn (name : String) (bound body : Expr α)
  | var (name : String)
  | shift (dx dy : α) (target : Expr α)
deriving BEq, DecidableEq, Repr

namespace Expr

variable {α : Type}

def canonical [Scalar α] : Expr α → Expr α
  | literal value => literal value.canonical
  | intersect left right => intersect left.canonical right.canonical
  | letIn name bound body => letIn name bound.canonical body.canonical
  | var name => var name
  | shift dx dy target => shift dx dy target.canonical

def freeVars : Expr α → List String
  | literal _ => []
  | intersect left right => left.freeVars ++ right.freeVars
  | letIn name bound body => bound.freeVars ++ body.freeVars.filter (· ≠ name)
  | var name => [name]
  | shift _ _ target => target.freeVars

def subst (e : Expr α) (x : String) (value : Figure α) : Expr α :=
  match e with
  | literal f => literal f
  | intersect left right => intersect (left.subst x value) (right.subst x value)
  | letIn name bound body =>
    letIn name (bound.subst x value) (if name = x then body else body.subst x value)
  | var name => if name = x then literal value else var name
  | shift dx dy target => shift dx dy (target.subst x value)

def literals : Expr α → List (Figure α)
  | literal f => [f]
  | intersect left right => left.literals ++ right.literals
  | letIn _ bound body => bound.literals ++ body.literals
  | var _ => []
  | shift _ _ target => target.literals

/-- The names of all definitions. A definition comes after those of its bound part and before those
of its body. -/
def definedNames : Expr α → List String
  | literal _ => []
  | intersect left right => left.definedNames ++ right.definedNames
  | letIn name bound body => bound.definedNames ++ name :: body.definedNames
  | var _ => []
  | shift _ _ target => target.definedNames

def subexpressions : Expr α → List (Expr α)
  | literal f => [literal f]
  | intersect left right =>
    intersect left right :: (left.subexpressions ++ right.subexpressions)
  | letIn name bound body =>
    letIn name bound body :: (bound.subexpressions ++ body.subexpressions)
  | var name => [var name]
  | shift dx dy target => shift dx dy target :: target.subexpressions

/-- A subexpression in its place: the scope holds the names of the definitions whose body it stands
in, from the outermost to the innermost. -/
structure Occurrence (α : Type) where
  scope : List String
  node : Expr α

def Occurrence.under (o : Occurrence α) (name : String) : Occurrence α := ⟨name :: o.scope, o.node⟩

def occurrences : Expr α → List (Occurrence α)
  | literal f => [⟨[], literal f⟩]
  | intersect left right =>
    ⟨[], intersect left right⟩ :: (left.occurrences ++ right.occurrences)
  | letIn name bound body =>
    ⟨[], letIn name bound body⟩ :: (bound.occurrences ++ body.occurrences.map (·.under name))
  | var name => [⟨[], var name⟩]
  | shift dx dy target => ⟨[], shift dx dy target⟩ :: target.occurrences

theorem map_node_under (name : String) (occurrences : List (Occurrence α)) :
    (occurrences.map (·.under name)).map Occurrence.node = occurrences.map Occurrence.node := by
  rw [List.map_map]
  rfl

@[simp] theorem map_node_occurrences (e : Expr α) :
    e.occurrences.map Occurrence.node = e.subexpressions := by
  induction e with
  | literal f => rfl
  | intersect left right ihl ihr =>
    rw [occurrences, subexpressions, List.map_cons, List.map_append, ihl, ihr]
  | letIn name bound body ihb ihe =>
    rw [occurrences, subexpressions, List.map_cons, List.map_append, map_node_under, ihb, ihe]
  | var name => rfl
  | shift dx dy target ih => rw [occurrences, subexpressions, List.map_cons, ih]

theorem take_subexpressions {e : Expr α} {before after : List (Occurrence α)} {o : Occurrence α}
    (h : e.occurrences = before ++ o :: after) :
    e.subexpressions.take (before.length + 1) = before.map Occurrence.node ++ [o.node] := by
  rw [← map_node_occurrences, h, ← List.map_take, List.take_length_add_append, List.map_append]
  rfl

@[simp] theorem literals_canonical [Scalar α] (e : Expr α) :
    e.canonical.literals = e.literals.map Figure.canonical := by
  induction e with
  | literal f => rfl
  | intersect left right ihl ihr => rw [canonical, literals, literals, List.map_append, ihl, ihr]
  | letIn name bound body ihb ihe => rw [canonical, literals, literals, List.map_append, ihb, ihe]
  | var name => rfl
  | shift dx dy target ih => rw [canonical, literals, literals, ih]

@[simp] theorem freeVars_canonical [Scalar α] (e : Expr α) :
    e.canonical.freeVars = e.freeVars := by
  induction e with
  | literal f => rfl
  | intersect left right ihl ihr => rw [canonical, freeVars, freeVars, ihl, ihr]
  | letIn name bound body ihb ihe => rw [canonical, freeVars, freeVars, ihb, ihe]
  | var name => rfl
  | shift dx dy target ih => rw [canonical, freeVars, freeVars, ih]

end Expr

end PlaneFigures
