import PlaneFigures.Expr.Evaluate
import PlaneFigures.Expr

/-!
# Simulation of evaluations

Two evaluations of programs of one shape are compared step by step. The literals of the programs
are related, and so are the figures that the environments show for the free variables. If
intersections and shifts keep the relation, both evaluations fail with one error or end with related
figures. With equality as the relation, an evaluation depends on nothing but what its environment
shows for the free variables.
-/

namespace PlaneFigures

section Relations

variable {α : Type} {R : Figure α → Figure α → Prop}

/-- The environments show related figures for each of the names, or both show none. -/
def Env.Agree (R : Figure α → Figure α → Prop) (names : List String) (env env' : Env α) : Prop :=
  ∀ name ∈ names, Option.Rel R (env.lookup name) (env'.lookup name)

theorem Env.agree_append {names more : List String} {env env' : Env α} :
    Env.Agree R (names ++ more) env env' ↔ Env.Agree R names env env' ∧ Env.Agree R more env env' :=
  List.forall_mem_append

-- The new binding hides whatever the environments held under its name, related or not.
theorem Env.Agree.extend {names : List String} {bound : String} {env env' : Env α}
    {f g : Figure α} (h : Env.Agree R (names.filter (· ≠ bound)) env env') (hfg : R f g) :
    Env.Agree R names (env.extend bound f) (env'.extend bound g) := by
  intro name hname
  rw [lookup_extend, lookup_extend]
  by_cases heq : name = bound
  · rw [if_pos heq, if_pos heq]
    exact .some hfg
  · rw [if_neg heq, if_neg heq]
    exact h name (List.mem_filter.2 ⟨hname, decide_eq_true heq⟩)

theorem Env.agree_of_lookup_eq {names : List String} {env env' : Env α}
    (h : ∀ name ∈ names, env.lookup name = env'.lookup name) : Env.Agree Eq names env env' := by
  intro name hname
  rw [h name hname]
  cases env'.lookup name with
  | none => exact .none
  | some f => exact .some rfl

inductive Expr.Alike (R : Figure α → Figure α → Prop) : Expr α → Expr α → Prop
  | literal {f g : Figure α} (h : R f g) : Alike R (literal f) (literal g)
  | intersect {left left' right right' : Expr α} (hl : Alike R left left')
      (hr : Alike R right right') : Alike R (intersect left right) (intersect left' right')
  | letIn (name : String) {bound bound' body body' : Expr α} (hb : Alike R bound bound')
      (he : Alike R body body') : Alike R (letIn name bound body) (letIn name bound' body')
  | var (name : String) : Alike R (var name) (var name)
  | shift (dx dy : α) {target target' : Expr α} (h : Alike R target target') :
      Alike R (shift dx dy target) (shift dx dy target')

theorem Expr.Alike.refl (hR : ∀ f, R f f) (e : Expr α) : e.Alike R e := by
  induction e with
  | literal f => exact .literal (hR f)
  | intersect left right ihl ihr => exact .intersect ihl ihr
  | letIn name bound body ihb ihe => exact .letIn name ihb ihe
  | var name => exact .var name
  | shift dx dy target ih => exact .shift dx dy ih

inductive EndsAlike (R : Figure α → Figure α → Prop) :
    Except EvalError (Figure α) → Except EvalError (Figure α) → Prop
  | ok {f g : Figure α} (h : R f g) : EndsAlike R (.ok f) (.ok g)
  | error (e : EvalError) : EndsAlike R (.error e) (.error e)

theorem EndsAlike.bind {x y : Except EvalError (Figure α)}
    {k l : Figure α → Except EvalError (Figure α)} (h : EndsAlike R x y)
    (hkl : ∀ f g, R f g → EndsAlike R (k f) (l g)) : EndsAlike R (x >>= k) (y >>= l) := by
  cases h with
  | ok hfg => exact hkl _ _ hfg
  | error e => exact .error e

theorem EndsAlike.eq {x y : Except EvalError (Figure α)} (h : EndsAlike Eq x y) : x = y := by
  cases h with
  | ok hfg => rw [hfg]
  | error e => rfl

end Relations

variable {α : Type} [Scalar α]

structure Figure.Compatible (R : Figure α → Figure α → Prop) : Prop where
  intersect {f f' g g' : Figure α} : R f f' → R g g' → R (f.intersect g) (f'.intersect g')
  shift {f f' : Figure α} (dx dy : α) : R f f' → R (f.shift dx dy) (f'.shift dx dy)

theorem Figure.compatible_eq : Figure.Compatible (Eq : Figure α → Figure α → Prop) where
  intersect hf hg := by rw [hf, hg]
  shift dx dy hf := by rw [hf]

namespace Expr

theorem eval_var_alike {R : Figure α → Figure α → Prop} {name : String} {env env' : Env α}
    (h : Option.Rel R (env.lookup name) (env'.lookup name)) :
    EndsAlike R ((var name).eval env) ((var name).eval env') := by
  generalize hf : env.lookup name = found at h
  generalize hg : env'.lookup name = found' at h
  cases h with
  | some hfg =>
    rw [eval_var_of_some hf, eval_var_of_some hg]
    exact .ok hfg
  | none =>
    rw [eval_var_of_none hf, eval_var_of_none hg]
    exact .error _

theorem Alike.eval {R : Figure α → Figure α → Prop} (hR : Figure.Compatible R) {e e' : Expr α}
    (h : e.Alike R e') {env env' : Env α} (henv : Env.Agree R e.freeVars env env') :
    EndsAlike R (e.eval env) (e'.eval env') := by
  induction h generalizing env env' with
  | literal hfg => exact .ok hfg
  | intersect hl hr ihl ihr =>
    obtain ⟨hleft, hright⟩ := Env.agree_append.1 henv
    rw [eval_intersect, eval_intersect]
    apply (ihl hleft).bind
    intro f f' hf
    apply (ihr hright).bind
    intro g g' hg
    exact .ok (hR.intersect hf hg)
  | letIn name hb he ihb ihe =>
    obtain ⟨hbound, hbody⟩ := Env.agree_append.1 henv
    rw [eval_letIn, eval_letIn]
    apply (ihb hbound).bind
    intro f f' hf
    exact ihe (hbody.extend hf)
  | var name => exact eval_var_alike (henv name List.mem_cons_self)
  | shift dx dy ht ih =>
    rw [eval_shift, eval_shift]
    apply (ih henv).bind
    intro f f' hf
    exact .ok (hR.shift dx dy hf)

theorem eval_eq_of_agree {e : Expr α} {env env' : Env α} (h : Env.Agree Eq e.freeVars env env') :
    e.eval env = e.eval env' :=
  ((Alike.refl (fun _ => rfl) e).eval Figure.compatible_eq h).eq

/-- Environments that show the same figures for the free variables are interchangeable, whatever
else they hold or hide. -/
theorem eval_eq_of_lookup_eq (e : Expr α) (env env' : Env α)
    (h : ∀ name ∈ e.freeVars, env.lookup name = env'.lookup name) : e.eval env = e.eval env' :=
  eval_eq_of_agree (Env.agree_of_lookup_eq h)

/-- Environments of different lengths that disagree on a name which the program itself defines. -/
theorem eval_eq_of_lookup_eq_shadowed :
    let e : Expr Float := letIn "p" (var "q") (intersect (var "p") (var "r"))
    let env : Env Float := Env.ofBindings [("p", .empty), ("r", .vertical 2), ("q", .line 0.1 0)]
    let env' : Env Float := Env.ofBindings
      [("q", .point ⟨5, 5⟩), ("q", .line 0.1 0), ("p", .vertical 7), ("r", .vertical 2)]
    (∀ name ∈ e.freeVars, env.lookup name = env'.lookup name) ∧
      env.lookup "p" ≠ env'.lookup "p" ∧ e.eval env = e.eval env' := by
  intro e env env'
  have h : ∀ name ∈ e.freeVars, env.lookup name = env'.lookup name := by decide +kernel
  exact ⟨h, by decide +kernel, eval_eq_of_lookup_eq e env env' h⟩

end Expr

end PlaneFigures
