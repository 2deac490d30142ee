import PlaneFigures.Decimal
import PlaneFigures.Expr.Evaluate

/-!
# Texts and log lines

A figure is written as the word for its kind followed by its coordinates, separated by a comma and a
blank, in parentheses. The empty figure is its word alone. An expression is written the same way, as
the word for its form followed by its parts; a literal is written as its figure and a name as it is.
In a log, entering an expression and meeting two figures are reported at the finest level, bindings
and failed lookups one level above it.
-/

namespace PlaneFigures

def Point.text (p : Point Float) : String := numeral p.x ++ ", " ++ numeral p.y

namespace Figure

def text : Figure Float → String
  | empty => "Empty"
  | point p => "Point(" ++ p.text ++ ")"
  | line slope intercept => "Line(" ++ numeral slope ++ ", " ++ numeral intercept ++ ")"
  | vertical x => "VerticalLine(" ++ numeral x ++ ")"
  | segment s => "LineSegment(" ++ s.start.text ++ ", " ++ s.stop.text ++ ")"

theorem text_point (p : Point Float) : (point p).text = "Point(" ++ p.text ++ ")" := rfl

theorem text_line (slope intercept : Float) :
    (line slope intercept).text = "Line(" ++ numeral slope ++ ", " ++ numeral intercept ++ ")" := rfl

theorem text_vertical (x : Float) : (vertical x).text = "VerticalLine(" ++ numeral x ++ ")" := rfl

theorem text_segment (s : Segment Float) :
    (segment s).text = "LineSegment(" ++ s.start.text ++ ", " ++ s.stop.text ++ ")" := rfl

end Figure

namespace Expr

def text : Expr Float → String
  | literal value => value.text
  | intersect left right => "Intersect(" ++ left.text ++ ", " ++ right.text ++ ")"
  | letIn name bound body => "Let(" ++ name ++ ", " ++ bound.text ++ ", " ++ body.text ++ ")"
  | var name => "Var(" ++ name ++ ")"
  | shift dx dy target =>
    "Shift(" ++ numeral dx ++ ", " ++ numeral dy ++ ", " ++ target.text ++ ")"

theorem text_literal (value : Figure Float) : (literal value).text = value.text := rfl

theorem text_intersect (left right : Expr Float) :
    (intersect left right).text = "Intersect(" ++ left.text ++ ", " ++ right.text ++ ")" := rfl

theorem text_letIn (name : String) (bound body : Expr Float) :
    (letIn name bound body).text =
      "Let(" ++ name ++ ", " ++ bound.text ++ ", " ++ body.text ++ ")" := rfl

theorem text_var (name : String) : (var name).text = "Var(" ++ name ++ ")" := rfl

theorem text_shift (dx dy : Float) (target : Expr Float) :
    (shift dx dy target).text =
      "Shift(" ++ numeral dx ++ ", " ++ numeral dy ++ ", " ++ target.text ++ ")" := rfl

end Expr

inductive Level where
  | trace
  | debug
deriving DecidableEq, Repr

def Level.name : Level → String
  | trace => "TRACE"
  | debug => "DEBUG"

namespace Event

def level {α : Type} : Event α → Level
  | enter _ => .trace
  | bind _ _ => .debug
  | missing _ _ => .debug
  | meet _ _ => .trace

def message : Event Float → String
  | enter e => "eval " ++ e.text
  | bind name value => "bind " ++ name ++ " = " ++ value.text
  | missing name bindings =>
    "lookup of `" ++ name ++ "` failed in environment of " ++ bindings.repr ++ " bindings"
  | meet left right => "intersect " ++ left.text ++ " with " ++ right.text

def line (e : Event Float) : Level × String := (e.level, e.message)

end Event

end PlaneFigures
