import PlaneFigures.Figure

/-!
# Environments

An environment binds names to figures. Bindings are kept from the innermost to the outermost; a
new binding hides an older one of the same name and does not remove it, and extending leaves the
extended environment as it was.
-/

namespace PlaneFigures

structure Env (α : Type) where
  bindings : List (String × Figure α)
deriving Repr

namespace Env

variable {α : Type}

def empty : Env α := ⟨[]⟩

def extend (env : Env α) (name : String) (value : Figure α) : Env α :=
  ⟨(name, value) :: env.bindings⟩

def lookup (env : Env α) (name : String) : Option (Figure α) := env.bindings.lookup name

def size (env : Env α) : Nat := env.bindings.length

def isEmpty (env : Env α) : Bool := env.bindings.isEmpty

def toList (env : Env α) : List (String × Figure α) := env.bindings

/-- The environment of bindings given from the outermost to the innermost. -/
def ofBindings (bindings : List (String × Figure α)) : Env α :=
  bindings.foldl (fun env b => env.extend b.1 b.2) empty

theorem lookup_extend (env : Env α) (bound name : String) (value : Figure α) :
    (env.extend bound value).lookup name =
      if name = bound then some value else env.lookup name := by
  by_cases h : name = bound
  · simp [lookup, extend, h]
  · simp [lookup, extend, List.lookup_cons, beq_eq_false_iff_ne.2 h, h]

@[simp] theorem lookup_extend_self (env : Env α) (name : String) (value : Figure α) :
    (env.extend name value).lookup name = some value := by
  simp [lookup_extend]

theorem lookup_extend_extend_self (env : Env α) (name other : String) (hidden value : Figure α) :
    ((env.extend name hidden).extend name value).lookup other =
      (env.extend name value).lookup other := by
  simp only [lookup_extend]
  split <;> rfl

theorem lookup_extend_comm (env : Env α) {name name' : String} (h : name ≠ name')
    (other : String) (value value' : Figure α) :
    ((env.extend name value).extend name' value').lookup other =
      ((env.extend name' value').extend name value).lookup other := by
  simp only [lookup_extend]
  by_cases hn : other = name
  · subst hn
    rw [if_neg h, if_pos rfl, if_pos rfl]
  · rw [if_neg hn, if_neg hn]

@[simp] theorem size_extend (env : Env α) (name : String) (value : Figure α) :
    (env.extend name value).size = env.size + 1 := rfl

end Env

end PlaneFigures
