import PlaneFigures.Proofs.Simulation

/-!
# Scoping

The static reading of a program agrees with its evaluation. An evaluation fails exactly if some free
variable has no binding, and then at the first such occurrence: the list of free occurrences is in
the order in which an evaluation comes to them, and taking the name of a definition off the list of
its body has the effect of binding that name, whatever it is bound to. A definition has the outcome
of its body with the bound figure put in the place of the name, since innermost-first lookup neither
sees a hidden binding nor tells in which order bindings of different names were made.
-/

namespace PlaneFigures

section EndsAt

variable {β γ : Type}

def EndsAt (x : Except EvalError β) : Option String → Prop
  | none => ∃ b, x = .ok b
  | some name => x = .error (.undefined name)

theorem EndsAt.error_iff {x : Except EvalError β} {failure : Option String}
    (h : EndsAt x failure) (name : String) :
    x = .error (.undefined name) ↔ failure = some name := by
  cases failure with
  | none =>
    obtain ⟨b, rfl⟩ := h
    simp
  | some first =>
    have hx : x = .error (.undefined first) := h
    simp [hx]

theorem EndsAt.ok_iff {x : Except EvalError β} {failure : Option String}
    (h : EndsAt x failure) : (∃ b, x = .ok b) ↔ failure = none := by
  cases failure with
  | none => exact iff_of_true h rfl
  | some first =>
    have hx : x = .error (.undefined first) := h
    simp [hx]

theorem EndsAt.bind {x : Except EvalError β} {k : β → Except EvalError γ}
    {failure failure' : Option String} (h : EndsAt x failure) (hk : ∀ b, EndsAt (k b) failure') :
    EndsAt (x >>= k) (failure.or failure') := by
  cases failure with
  | none =>
    obtain ⟨b, rfl⟩ := h
    exact hk b
  | some first =>
    have hx : x = .error (.undefined first) := h
    rw [hx]
    rfl

theorem EndsAt.bind_pure {x : Except EvalError β} {failure : Option String}
    (h : EndsAt x failure) (f : β → γ) : EndsAt (x >>= fun b => pure (f b)) failure := by
  have hpure : ∀ b, EndsAt (pure (f b) : Except EvalError γ) none := fun b => ⟨f b, rfl⟩
  have hbind := h.bind hpure
  rwa [Option.or_none] at hbind

end EndsAt

namespace Expr

section FirstUnbound

variable {α : Type}

def firstUnbound (e : Expr α) (env : Env α) : Option String :=
  e.freeVars.find? fun name => (env.lookup name).isNone

theorem firstUnbound_intersect (left right : Expr α) (env : Env α) :
    (intersect left right).firstUnbound env =
      (left.firstUnbound env).or (right.firstUnbound env) :=
  List.find?_append

theorem firstUnbound_letIn (name : String) (bound body : Expr α) (env : Env α) :
    (letIn name bound body).firstUnbound env = (bound.firstUnbound env).or
      ((body.freeVars.filter (· ≠ name)).find? fun other => (env.lookup other).isNone) :=
  List.find?_append

theorem firstUnbound_extend (e : Expr α) (env : Env α) (name : String) (value : Figure α) :
    e.firstUnbound (env.extend name value) =
      (e.freeVars.filter (· ≠ name)).find? fun other => (env.lookup other).isNone := by
  rw [firstUnbound, List.find?_filter]
  congr 1
  funext other
  rw [Env.lookup_extend]
  by_cases h : other = name
  · simp [h]
  · rw [if_neg h]
    cases env.lookup other <;> simp [h]

theorem firstUnbound_empty (e : Expr α) : e.firstUnbound Env.empty = e.freeVars.head? := by
  rw [firstUnbound]
  cases e.freeVars with
  | nil => rfl
  | cons name names => rfl

end FirstUnbound

variable {α : Type} [Scalar α]

theorem endsAt_var (name : String) (env : Env α) :
    EndsAt ((var name).eval env) ((var name : Expr α).firstUnbound env) := by
  cases h : env.lookup name with
  | none =>
    rw [eval_var_of_none h, firstUnbound, freeVars, List.find?_cons_of_pos (by rw [h]; rfl)]
    rfl
  | some f =>
    rw [eval_var_of_some h, firstUnbound, freeVars, List.find?_cons_of_neg (by rw [h]; simp)]
    exact ⟨f, rfl⟩

theorem endsAt_firstUnbound (e : Expr α) (env : Env α) :
    EndsAt (e.eval env) (e.firstUnbound env) := by
  induction e generalizing env with
  | literal f => exact ⟨f, rfl⟩
  | intersect left right ihl ihr =>
    rw [eval_intersect, firstUnbound_intersect]
    apply (ihl env).bind
    intro f
    exact (ihr env).bind_pure f.intersect
  | letIn name bound body ihb ihe =>
    rw [eval_letIn, firstUnbound_letIn]
    apply (ihb env).bind
    intro value
    rw [← firstUnbound_extend body env name value]
    exact ihe (env.extend name value)
  | var name => exact endsAt_var name env
  | shift dx dy target ih =>
    rw [eval_shift]
    exact (ih env).bind_pure fun f => f.shift dx dy

theorem endsAt_run (e : Expr α) : EndsAt e.run e.freeVars.head? := by
  have h := endsAt_firstUnbound e.canonical Env.empty
  rwa [firstUnbound_empty, freeVars_canonical] at h

/-- An evaluation fails exactly at the first free variable without a binding and otherwise has a
figure. A whole program fails exactly at its first free variable. An empty left operand hides no
failure of the right one. -/
theorem eval_undefined_iff_firstUnbound (e : Expr α) :
    (∀ env name, e.eval env = .error (.undefined name) ↔ e.firstUnbound env = some name) ∧
      (∀ env, (∃ f, e.eval env = .ok f) ↔ e.firstUnbound env = none) ∧
      (∀ name, e.run = .error (.undefined name) ↔ e.freeVars.head? = some name) ∧
      ((∃ f, e.run = .ok f) ↔ e.freeVars = []) ∧
      ∀ left env name, left.eval env = .ok .empty →
        ((intersect left e).eval env = .error (.undefined name) ↔
          e.firstUnbound env = some name) := by
  refine ⟨?_, ?_, ?_, ?_, ?_⟩
  · intro env name
    exact (endsAt_firstUnbound e env).error_iff name
  · intro env
    exact (endsAt_firstUnbound e env).ok_iff
  · intro name
    exact (endsAt_run e).error_iff name
  · rw [(endsAt_run e).ok_iff, List.head?_eq_none_iff]
  · intro left env name hleft
    have hbound : left.firstUnbound env = none := (endsAt_firstUnbound left env).ok_iff.1 ⟨_, hleft⟩
    rw [(endsAt_firstUnbound _ env).error_iff, firstUnbound_intersect, hbound, Option.none_or]

theorem eval_subst (e : Expr α) (x : String) (value : Figure α) (env : Env α) :
    (e.subst x value).eval env = e.eval (env.extend x value) := by
  induction e generalizing env with
  | literal f => rfl
  | intersect left right ihl ihr => rw [subst, eval_intersect, eval_intersect, ihl, ihr]
  | letIn name bound body ihb ihe =>
    rw [subst, eval_letIn, eval_letIn, ihb]
    congr 1
    funext inner
    -- An inner definition of `x` itself hides the outer binding. One of another name is made after
    -- it here and before it in the substituted body.
    by_cases h : name = x
    · rw [if_pos h]
      subst h
      exact eval_eq_of_agree (Env.agree_of_lookup_eq fun other _ =>
        (env.lookup_extend_extend_self name other value inner).symm)
    · rw [if_neg h, ihe]
      exact eval_eq_of_agree (Env.agree_of_lookup_eq fun other _ =>
        env.lookup_extend_comm h other inner value)
  | var name =>
    by_cases h : name = x
    · rw [subst, if_pos h, h, eval_var_of_some (env.lookup_extend_self x value), eval_literal]
    · have hlookup : (env.extend x value).lookup name = env.lookup name := by
        rw [Env.lookup_extend, if_neg h]
      rw [subst, if_neg h]
      exact eval_eq_of_agree (Env.agree_of_lookup_eq (by simp [freeVars, hlookup]))
  | shift dx dy target ih => rw [subst, eval_shift, eval_shift, ih]

/-- A definition has the outcome of its body with the bound figure in the place of the name, or the
error of its bound part. -/
theorem eval_letIn_eq_subst (x : String) (bound body : Expr α) (env : Env α) :
    (letIn x bound body).eval env =
      match bound.eval env with
      | .ok value => (body.subst x value).eval env
      | .error failure => .error failure := by
  rw [eval_letIn]
  cases bound.eval env with
  | ok value => exact (eval_subst body x value env).symm
  | error failure => rfl

end Expr

end PlaneFigures
