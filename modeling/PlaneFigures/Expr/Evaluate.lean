import PlaneFigures.Env
import PlaneFigures.Expr
import PlaneFigures.Figure.Intersect

/-!
# Evaluating programs

Programs are evaluated from left to right, the bound part of a definition before its body, in an
environment that grows inwards. An undefined variable ends the whole evaluation. The log has one
event for every expression entered, name bound, pair of figures met, and failed lookup, and it is
kept also when the evaluation fails. An evaluation is described by its outcome and its events, and
each operation on evaluations by what it does to these two. Below the evaluator stands one equation
per form of expression for the figure it gives.
-/

namespace PlaneFigures

inductive EvalError where
  | undefined (name : String)
deriving DecidableEq, Repr

def EvalError.message : EvalError → String
  | undefined name => "undefined variable `" ++ name ++ "`"

inductive Event (α : Type) where
  | enter (e : Expr α)
  | bind (name : String) (value : Figure α)
  /-- A name has no binding among the given number of bindings. -/
  | missing (name : String) (bindings : Nat)
  | meet (left right : Figure α)
deriving BEq, DecidableEq, Repr

abbrev Evaluation (α β : Type) := ExceptT EvalError (Traced (Event α)) β

namespace Evaluation

variable {α β γ : Type}

def report (e : Event α) : Evaluation α Unit := ExceptT.lift (Traced.note e)

def meet [Scalar α] (f g : Figure α) : Evaluation α (Figure α) :=
  ExceptT.lift ((f.meet g).mapEntries fun pair => .meet pair.1 pair.2)

def outcome (x : Evaluation α β) : Except EvalError β := x.run.result

def events (x : Evaluation α β) : List (Event α) := x.run.entries

@[simp] theorem outcome_meet [Scalar α] (f g : Figure α) :
    (meet f g).outcome = .ok (f.intersect g) := rfl

@[simp] theorem events_meet [Scalar α] (f g : Figure α) :
    (meet f g).events = (f.meet g).entries.map fun pair => .meet pair.1 pair.2 :=
  List.append_nil _

theorem outcome_bind (x : Evaluation α β) (f : β → Evaluation α γ) :
    (x >>= f).outcome = x.outcome >>= fun b => (f b).outcome := by
  simp only [outcome, ExceptT.run_bind, Traced.result_bind]
  cases x.run.result <;> rfl

theorem events_bind_of_ok {x : Evaluation α β} {b : β} (h : x.outcome = .ok b)
    (f : β → Evaluation α γ) : (x >>= f).events = x.events ++ (f b).events := by
  simp only [outcome] at h
  simp only [events, ExceptT.run_bind, Traced.entries_bind, h]

theorem events_bind_of_error {x : Evaluation α β} {e : EvalError} (h : x.outcome = .error e)
    (f : β → Evaluation α γ) : (x >>= f).events = x.events := by
  simp only [outcome] at h
  simp only [events, ExceptT.run_bind, Traced.entries_bind, h, Traced.entries_pure,
    List.append_nil]

end Evaluation

namespace Expr

open Evaluation (report)

variable {α : Type} [Scalar α]

def evaluate (e : Expr α) (env : Env α) : Evaluation α (Figure α) := do
  report (.enter e)
  match e with
  | literal value => pure value
  | intersect left right => do
    let f ← left.evaluate env
    let g ← right.evaluate env
    Evaluation.meet f g
  | letIn name bound body => do
    let value ← bound.evaluate env
    report (.bind name value)
    body.evaluate (env.extend name value)
  | var name =>
    match env.lookup name with
    | some value => pure value
    | none => do
      report (.missing name env.size)
      throw (.undefined name)
  | shift dx dy target => do
    let f ← target.evaluate env
    pure (f.shift dx dy)

def eval (e : Expr α) (env : Env α) : Except EvalError (Figure α) := (e.evaluate env).outcome

def log (e : Expr α) (env : Env α) : List (Event α) := (e.evaluate env).events

/-- Evaluates a whole program: its canonical form, in the empty environment. -/
def execute (e : Expr α) : Evaluation α (Figure α) := e.canonical.evaluate Env.empty

def run (e : Expr α) : Except EvalError (Figure α) := e.execute.outcome

@[simp] theorem eval_literal (value : Figure α) (env : Env α) :
    (literal value).eval env = .ok value := rfl

theorem eval_intersect (left right : Expr α) (env : Env α) :
    (intersect left right).eval env = (do
      let f ← left.eval env
      let g ← right.eval env
      pure (f.intersect g)) := by
  simp only [eval, evaluate, Evaluation.outcome_bind]
  rfl

theorem eval_letIn (name : String) (bound body : Expr α) (env : Env α) :
    (letIn name bound body).eval env = (do
      let value ← bound.eval env
      body.eval (env.extend name value)) := by
  simp only [eval, evaluate, Evaluation.outcome_bind]
  rfl

theorem eval_var_of_some {name : String} {env : Env α} {value : Figure α}
    (h : env.lookup name = some value) : (var name).eval env = .ok value := by
  simp only [eval, evaluate, Evaluation.outcome_bind, h]
  rfl

theorem eval_var_of_none {name : String} {env : Env α} (h : env.lookup name = none) :
    (var name).eval env = .error (.undefined name) := by
  simp only [eval, evaluate, Evaluation.outcome_bind, h]
  rfl

theorem eval_shift (dx dy : α) (target : Expr α) (env : Env α) :
    (shift dx dy target).eval env = (do
      let f ← target.eval env
      pure (f.shift dx dy)) := by
  simp only [eval, evaluate, Evaluation.outcome_bind]
  rfl

end Expr

end PlaneFigures
