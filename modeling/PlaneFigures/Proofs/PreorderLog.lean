import PlaneFigures.Expr.Log
import PlaneFigures.Expr

/-!
# The log of an evaluation

An evaluation enters the subexpressions of a program in the order of the static list: each one
before its parts, and the parts from left to right. If it succeeds, it has entered all of them, has
bound the name of each definition once, and has missed no name. If it fails, it has entered those up
to the first variable that neither a definition around it nor the environment binds; the last event
is the failed lookup, and the number of bindings in it counts the definitions around that variable
on top of those of the environment. A definition that has been left again is not counted, because
the scope of an occurrence grows only on the way into a body.

Both outcomes are carried along the sequence of steps. A step visits a list of places; two steps in
sequence visit the two lists one after the other, unless the first one stops.
-/

namespace PlaneFigures

namespace Event

variable {α : Type}

def isEnter : Event α → Bool
  | enter _ => true
  | _ => false

def isBind : Event α → Bool
  | bind _ _ => true
  | _ => false

def isMissing : Event α → Bool
  | missing _ _ => true
  | _ => false

def boundName? : Event α → Option String
  | bind name _ => some name
  | _ => none

theorem exists_map_line_filter_isBind (events : List (Event Float)) :
    ∃ values : List (Figure Float), values.length = (events.filterMap boundName?).length ∧
      (events.filter isBind).map line =
        List.zipWith (fun name value => (.debug, "bind " ++ name ++ " = " ++ value.text))
          (events.filterMap boundName?) values := by
  induction events with
  | nil => exact ⟨[], rfl, rfl⟩
  | cons event rest ih =>
    obtain ⟨values, hlength, hlines⟩ := ih
    cases event with
    | bind name value =>
      exact ⟨value :: values, congrArg (· + 1) hlength, congrArg (List.cons _) hlines⟩
    | _ => exact ⟨values, hlength, hlines⟩

end Event

/-- The occurrence is a variable that neither a definition around it nor the environment binds. -/
def Expr.Occurrence.Unbound {α : Type} (env : Env α) (o : Expr.Occurrence α) : Prop :=
  ∃ name, o.node = .var name ∧ name ∉ o.scope ∧ env.lookup name = none

namespace Expr.Occurrence

variable {α : Type}

theorem unbound_under (o : Occurrence α) (env : Env α) (bound : String) (value : Figure α) :
    (o.under bound).Unbound env ↔ o.Unbound (env.extend bound value) := by
  refine exists_congr fun name => and_congr_right fun _ => ?_
  rw [Env.lookup_extend, under, List.mem_cons, not_or, and_assoc]
  by_cases h : name = bound
  · simp [h]
  · simp [h]

theorem not_unbound_map_under {places : List (Occurrence α)} {env : Env α} {bound : String}
    {value : Figure α} (h : ∀ o ∈ places, ¬o.Unbound (env.extend bound value)) :
    ∀ o ∈ places.map (·.under bound), ¬o.Unbound env := by
  intro o ho
  obtain ⟨inner, hinner, rfl⟩ := List.mem_map.1 ho
  rw [unbound_under inner env bound value]
  exact h inner hinner

end Expr.Occurrence

namespace Evaluation

open PlaneFigures.Expr (Occurrence)

variable {α β γ : Type}

structure Completes (env : Env α) (places : List (Occurrence α)) (names : List String)
    (x : Evaluation α β) : Prop where
  visible : ∀ o ∈ places, ¬o.Unbound env
  entered : x.events.filter Event.isEnter = places.map fun o => .enter o.node
  bound : x.events.filterMap Event.boundName? = names
  missing : x.events.filter Event.isMissing = []

/-- The evaluation enters the places before a variable and the variable itself, and then misses
the name. -/
structure StopsAt (env : Env α) (before : List (Occurrence α)) (scope : List String) (name : String)
    (x : Evaluation α β) : Prop where
  visible : ∀ o ∈ before, ¬o.Unbound env
  unbound : (⟨scope, .var name⟩ : Occurrence α).Unbound env
  entered : x.events.filter Event.isEnter =
    (before.map fun o => .enter o.node) ++ [.enter (.var name)]
  last : ∃ rest, x.events = rest ++ [.missing name (env.size + scope.length)] ∧
    rest.filter Event.isMissing = []

/-- The evaluation visits the places in order, to their end or to the first unbound variable. -/
inductive Visits (env : Env α) (places : List (Occurrence α)) (names : List String)
    (x : Evaluation α β) : Prop
  | completes (b : β) (hok : x.outcome = .ok b) (h : x.Completes env places names)
  | stops (before after : List (Occurrence α)) (scope : List String) (name : String)
      (hplaces : places = before ++ ⟨scope, .var name⟩ :: after)
      (herror : x.outcome = .error (.undefined name)) (h : x.StopsAt env before scope name)

section Sequencing

variable {env : Env α} {places more before : List (Occurrence α)} {names others scope : List String}
  {name : String} {x : Evaluation α β} {k : β → Evaluation α γ} {b : β}

theorem Completes.bind (hok : x.outcome = .ok b) (hx : x.Completes env places names)
    (hk : (k b).Completes env more others) :
    (x >>= k).Completes env (places ++ more) (names ++ others) := by
  have hevents := events_bind_of_ok hok k
  constructor
  · exact List.forall_mem_append.2 ⟨hx.visible, hk.visible⟩
  · rw [hevents, List.filter_append, hx.entered, hk.entered, List.map_append]
  · rw [hevents, List.filterMap_append, hx.bound, hk.bound]
  · rw [hevents, List.filter_append, hx.missing, hk.missing, List.nil_append]

theorem Completes.bind_stopsAt (hok : x.outcome = .ok b) (hx : x.Completes env places names)
    (hk : (k b).StopsAt env before scope name) :
    (x >>= k).StopsAt env (places ++ before) scope name := by
  have hevents := events_bind_of_ok hok k
  obtain ⟨rest, hlast, hmissing⟩ := hk.last
  constructor
  · exact List.forall_mem_append.2 ⟨hx.visible, hk.visible⟩
  · exact hk.unbound
  · rw [hevents, List.filter_append, hx.entered, hk.entered, List.map_append, List.append_assoc]
  · refine ⟨x.events ++ rest, ?_, ?_⟩
    · rw [hevents, hlast, List.append_assoc]
    · rw [List.filter_append, hx.missing, hmissing, List.nil_append]

theorem StopsAt.bind (herror : x.outcome = .error (.undefined name))
    (hx : x.StopsAt env before scope name) (k : β → Evaluation α γ) :
    (x >>= k).StopsAt env before scope name := by
  have hevents := events_bind_of_error herror k
  obtain ⟨rest, hlast, hmissing⟩ := hx.last
  constructor
  · exact hx.visible
  · exact hx.unbound
  · rw [hevents, hx.entered]
  · exact ⟨rest, hevents.trans hlast, hmissing⟩

theorem Visits.bind (hx : x.Visits env places names) (hk : ∀ b, (k b).Visits env more others) :
    (x >>= k).Visits env (places ++ more) (names ++ others) := by
  cases hx with
  | completes b hok hx =>
    have houtcome : (x >>= k).outcome = (k b).outcome := by
      rw [outcome_bind, hok]
      rfl
    cases hk b with
    | completes c hok' hc => exact .completes c (houtcome.trans hok') (hx.bind hok hc)
    | stops before after scope name hplaces herror hc =>
      refine .stops (places ++ before) after scope name ?_ (houtcome.trans herror)
        (hx.bind_stopsAt hok hc)
      rw [hplaces, List.append_assoc]
  | stops before after scope name hplaces herror hx =>
    refine .stops before (after ++ more) scope name ?_ ?_ (hx.bind herror k)
    · rw [hplaces, List.append_assoc, List.cons_append]
    · rw [outcome_bind, herror]
      rfl

theorem Visits.bind_quiet (hx : x.Visits env places names) (hk : ∀ b, (k b).Visits env [] []) :
    (x >>= k).Visits env places names := by
  have h := hx.bind hk
  rwa [List.append_nil, List.append_nil] at h

/-- What is visited inside the body of a definition, seen from outside. -/
theorem Visits.under {bound : String} {value : Figure α}
    (hx : x.Visits (env.extend bound value) places names) :
    x.Visits env (places.map (·.under bound)) names := by
  cases hx with
  | completes b hok hx =>
    refine .completes b hok ⟨Occurrence.not_unbound_map_under hx.visible, ?_, hx.bound, hx.missing⟩
    rw [hx.entered, List.map_map]
    rfl
  | stops before after scope name hplaces herror hx =>
    refine .stops (before.map (·.under bound)) (after.map (·.under bound)) (bound :: scope) name ?_
      herror ⟨Occurrence.not_unbound_map_under hx.visible, ?_, ?_, ?_⟩
    · rw [hplaces, List.map_append, List.map_cons]
      rfl
    · exact (Occurrence.unbound_under _ env bound value).2 hx.unbound
    · rw [hx.entered, List.map_map]
      rfl
    · -- From outside there is one binding less and one definition more around the variable.
      have hcount : env.size + (bound :: scope).length =
          (env.extend bound value).size + scope.length := by
        rw [Env.size_extend, List.length_cons]
        omega
      rw [hcount]
      exact hx.last

end Sequencing

theorem visits_pure (env : Env α) (b : β) : (pure b : Evaluation α β).Visits env [] [] :=
  .completes b rfl ⟨List.forall_mem_nil _, rfl, rfl, rfl⟩

theorem visits_enter (env : Env α) {e : Expr α} (he : ∀ name, e ≠ .var name) :
    (report (.enter e)).Visits env [⟨[], e⟩] [] := by
  refine .completes () rfl ⟨?_, rfl, rfl, rfl⟩
  intro o ho hunbound
  obtain ⟨name, hnode, -⟩ := hunbound
  rw [List.mem_singleton.1 ho] at hnode
  exact he name hnode

theorem visits_bind (env : Env α) (name : String) (value : Figure α) :
    (report (.bind name value)).Visits env [] [name] :=
  .completes () rfl ⟨List.forall_mem_nil _, rfl, rfl, rfl⟩

theorem visits_meet [Scalar α] (env : Env α) (f g : Figure α) : (meet f g).Visits env [] [] := by
  refine .completes _ (outcome_meet f g) ⟨List.forall_mem_nil _, ?_, ?_, ?_⟩
  · rw [events_meet, List.filter_map, List.filter_eq_nil_iff.2 (by simp [Event.isEnter])]
    rfl
  · rw [events_meet, List.filterMap_map, List.filterMap_eq_nil_iff.2 (by simp [Event.boundName?])]
  · rw [events_meet, List.filter_map, List.filter_eq_nil_iff.2 (by simp [Event.isMissing])]
    rfl

end Evaluation

namespace Expr

open Evaluation

variable {α : Type} [Scalar α]

theorem visits_var (name : String) (env : Env α) :
    ((var name).evaluate env).Visits env [⟨[], var name⟩] [] := by
  rw [evaluate]
  cases h : env.lookup name with
  | some value =>
    refine .completes value rfl ⟨?_, rfl, rfl, rfl⟩
    intro o ho hunbound
    obtain ⟨other, hnode, -, hother⟩ := hunbound
    rw [List.mem_singleton.1 ho] at hnode
    cases hnode
    rw [h] at hother
    cases hother
  | none =>
    have hunbound : (⟨[], var name⟩ : Occurrence α).Unbound env := ⟨name, rfl, List.not_mem_nil, h⟩
    refine .stops [] [] [] name rfl rfl ⟨List.forall_mem_nil _, hunbound, rfl, ?_⟩
    exact ⟨[.enter (var name)], rfl, rfl⟩

theorem visits_evaluate (e : Expr α) (env : Env α) :
    (e.evaluate env).Visits env e.occurrences e.definedNames := by
  induction e generalizing env with
  | literal f =>
    rw [evaluate]
    apply (visits_enter env (by simp)).bind
    intro _
    exact visits_pure env f
  | intersect left right ihl ihr =>
    rw [evaluate]
    apply (visits_enter env (by simp)).bind
    intro _
    apply (ihl env).bind
    intro f
    apply (ihr env).bind_quiet
    intro g
    exact visits_meet env f g
  | letIn name bound body ihb ihe =>
    rw [evaluate]
    apply (visits_enter env (by simp)).bind
    intro _
    apply (ihb env).bind
    intro value
    apply (visits_bind env name value).bind
    intro _
    exact (ihe (env.extend name value)).under
  | var name => exact visits_var name env
  | shift dx dy target ih =>
    rw [evaluate]
    apply (visits_enter env (by simp)).bind
    intro _
    apply (ih env).bind_quiet
    intro f
    exact visits_pure env (f.shift dx dy)

/-- The `eval` lines of a log are the texts of all subexpressions in preorder if the evaluation
succeeds, with one `bind` line for each definition. If it fails, they are those up to the first
unbound variable, and the only failed lookup comes last and reports the bindings of the environment
and one more for each definition around that variable. -/
theorem log_preorder (e : Expr Float) (env : Env Float) :
    (∀ f, e.eval env = .ok f →
      ((e.log env).filter Event.isEnter).map Event.line =
          e.subexpressions.map (fun d => (.trace, "eval " ++ d.text)) ∧
        (e.log env).filterMap Event.boundName? = e.definedNames ∧
        (∃ values : List (Figure Float), values.length = e.definedNames.length ∧
          ((e.log env).filter Event.isBind).map Event.line =
            List.zipWith (fun name value => (.debug, "bind " ++ name ++ " = " ++ value.text))
              e.definedNames values) ∧
        (e.log env).filter Event.isMissing = []) ∧
      ∀ name, e.eval env = .error (.undefined name) →
        ∃ i scope rest,
          e.occurrences[i]? = some ⟨scope, var name⟩ ∧
          (⟨scope, var name⟩ : Occurrence Float).Unbound env ∧
          (∀ o ∈ e.occurrences.take i, ¬o.Unbound env) ∧
          ((e.log env).filter Event.isEnter).map Event.line =
            (e.subexpressions.take (i + 1)).map (fun d => (.trace, "eval " ++ d.text)) ∧
          e.log env = rest ++ [.missing name (env.size + scope.length)] ∧
          ((e.log env).map Event.line).getLast? =
            some (.debug, "lookup of `" ++ name ++ "` failed in environment of " ++
              (env.size + scope.length).repr ++ " bindings") ∧
          rest.filter Event.isMissing = [] := by
  constructor
  · intro f hf
    cases e.visits_evaluate env with
    | completes b hok h =>
      have hbinds := Event.exists_map_line_filter_isBind (e.evaluate env).events
      rw [h.bound] at hbinds
      refine ⟨?_, h.bound, hbinds, h.missing⟩
      rw [log, h.entered, ← map_node_occurrences, List.map_map, List.map_map]
      rfl
    | stops before after scope name hplaces herror h =>
      rw [eval, herror] at hf
      cases hf
  · intro name hname
    cases e.visits_evaluate env with
    | completes b hok h =>
      rw [eval, hok] at hname
      cases hname
    | stops before after scope other hplaces herror h =>
      rw [eval, herror] at hname
      cases hname
      obtain ⟨rest, hlast, hmissing⟩ := h.last
      have hevents : e.log env = rest ++ [.missing name (env.size + scope.length)] := hlast
      refine ⟨before.length, scope, rest, ?_, h.unbound, ?_, ?_, hevents, ?_, hmissing⟩
      · rw [hplaces, List.getElem?_append_right (Nat.le_refl _), Nat.sub_self]
        rfl
      · rw [hplaces, List.take_left]
        exact h.visible
      · rw [log, h.entered, take_subexpressions hplaces, List.map_append, List.map_append,
          List.map_map, List.map_map]
        rfl
      · rw [hevents, List.map_append, List.getLast?_append]
        rfl

/-- The second of two definitions has been left when the variable fails, so that the failed lookup
finds the binding of the first one and that of the environment. -/
theorem log_preorder_left_scope :
    let e : Expr Float := letIn "a" (literal .empty)
      (intersect (letIn "b" (var "a") (shift 1 0.5 (var "b"))) (intersect (var "b") (var "c")))
    let env : Env Float := Env.ofBindings [("p", .vertical 2)]
    e.eval env = .error (.undefined "b") ∧ (e.log env).getLast? = some (.missing "b" 2) ∧
      ∃ i scope rest,
        e.occurrences[i]? = some ⟨scope, var "b"⟩ ∧
        (⟨scope, var "b"⟩ : Occurrence Float).Unbound env ∧
        (∀ o ∈ e.occurrences.take i, ¬o.Unbound env) ∧
        ((e.log env).filter Event.isEnter).map Event.line =
          (e.subexpressions.take (i + 1)).map (fun d => (.trace, "eval " ++ d.text)) ∧
        e.log env = rest ++ [.missing "b" (env.size + scope.length)] ∧
        ((e.log env).map Event.line).getLast? =
          some (.debug, "lookup of `" ++ "b" ++ "` failed in environment of " ++
            (env.size + scope.length).repr ++ " bindings") ∧
        rest.filter Event.isMissing = [] := by
  intro e env
  have h : e.eval env = .error (.undefined "b") := rfl
  exact ⟨h, by decide +kernel, (log_preorder e env).2 "b" h⟩

end Expr

end PlaneFigures
