/-
This file is a small library of labelled transition systems: finite runs of a
step relation, conditions met by every step of a run, and the invariant rules
that carry a property from the start of a run to every state it reaches.

A step relation relates a state, an action and a next state. The action holds
everything the environment chooses (which thread moves, what a system call
answers), so a list of actions is a schedule. A condition on steps looks at
the state before the step and at its action only, so it can be asked of a
schedule without knowing where the step leads.
-/

import Mathlib

namespace Transition

variable {State Action : Type*}

/-! ### Runs -/

/-- A finite run of a step relation under a schedule. -/
inductive Run (step : State → Action → State → Prop) : State → List Action → State → Prop
  | nil (start : State) : Run step start [] start
  | snoc {start middle final : State} {actions : List Action} {action : Action}
      (run : Run step start actions middle) (last : step middle action final) :
      Run step start (actions ++ [action]) final

/-- A run puts one step in front of another run. -/
theorem Run.cons {step : State → Action → State → Prop} {start middle final : State}
    {action : Action} {actions : List Action} (first : step start action middle)
    (rest : Run step middle actions final) : Run step start (action :: actions) final := by
  induction rest with
  | nil => exact Run.snoc (Run.nil start) first
  | snoc _ last inductionHypothesis => exact Run.snoc inductionHypothesis last

/-- A run behind another run. -/
theorem Run.append {step : State → Action → State → Prop} {start middle final : State}
    {first second : List Action} (before : Run step start first middle)
    (after : Run step middle second final) : Run step start (first ++ second) final := by
  induction after with
  | nil =>
    rw [List.append_nil]
    exact before
  | snoc _ last inductionHypothesis =>
    rw [← List.append_assoc]
    exact Run.snoc inductionHypothesis last

/-- The last step of a run whose schedule ends in one action. -/
theorem Run.of_snoc {step : State → Action → State → Prop} {start final : State}
    {actions : List Action} {action : Action}
    (run : Run step start (actions ++ [action]) final) :
    ∃ middle, Run step start actions middle ∧ step middle action final := by
  generalize schedule : actions ++ [action] = whole at run
  cases run with
  | nil => simp at schedule
  | snoc run last =>
    obtain ⟨sameActions, sameAction⟩ := List.append_inj' schedule rfl
    obtain rfl : action = _ := List.singleton_inj.mp sameAction
    exact ⟨_, sameActions ▸ run, last⟩

theorem Run.of_nil {step : State → Action → State → Prop} {start final : State}
    (run : Run step start [] final) : start = final := by
  generalize schedule : ([] : List Action) = actions at run
  cases run with
  | nil => rfl
  | snoc => simp at schedule

/-- The first step of a run whose schedule starts with one action. -/
theorem Run.of_cons {step : State → Action → State → Prop} {start final : State}
    {action : Action} {actions : List Action} (run : Run step start (action :: actions) final) :
    ∃ middle, step start action middle ∧ Run step middle actions final := by
  induction actions using List.reverseRecOn generalizing final with
  | nil =>
    have whole : Run step start ([] ++ [action]) final := run
    obtain ⟨middle, first, last⟩ := whole.of_snoc
    obtain rfl := first.of_nil
    exact ⟨final, last, Run.nil final⟩
  | append_singleton actions other inductionHypothesis =>
    have whole : Run step start ((action :: actions) ++ [other]) final := run
    obtain ⟨middle, first, last⟩ := whole.of_snoc
    obtain ⟨next, taken, later⟩ := inductionHypothesis first
    exact ⟨next, taken, later.snoc last⟩

/-- A step relation is deterministic when the action fixes the next state. -/
def Deterministic (step : State → Action → State → Prop) : Prop :=
  ∀ state action first second, step state action first → step state action second →
    first = second

/-- A deterministic step relation has one run for each schedule. -/
theorem Run.unique {step : State → Action → State → Prop} (deterministic : Deterministic step)
    {start first second : State} {actions : List Action} (run : Run step start actions first)
    (other : Run step start actions second) : first = second := by
  induction run generalizing second with
  | nil => exact other.of_nil
  | snoc _ last inductionHypothesis =>
    obtain ⟨middle, before, otherLast⟩ := other.of_snoc
    rw [← inductionHypothesis before] at otherLast
    exact deterministic _ _ _ _ last otherLast

/-- Where a longer run of a deterministic step relation has passed, the next step exists. -/
theorem Run.next {step : State → Action → State → Prop} (deterministic : Deterministic step)
    {start state final : State} {before after : List Action} {action : Action}
    (run : Run step start (before ++ action :: after) final) (earlier : Run step start before state) :
    ∃ next, step state action next := by
  induction after using List.reverseRecOn generalizing final with
  | nil =>
    obtain ⟨middle, first, last⟩ := run.of_snoc
    rw [first.unique deterministic earlier] at last
    exact ⟨final, last⟩
  | append_singleton after other inductionHypothesis =>
    have shape : before ++ action :: (after ++ [other]) = (before ++ action :: after) ++ [other] := by
      simp
    rw [shape] at run
    obtain ⟨middle, first, _⟩ := run.of_snoc
    exact inductionHypothesis first

/-! ### Conditions met by every step -/

/-- Every step a schedule takes from `start` meets a condition on the state before the step
and its action. -/
def Meets (step : State → Action → State → Prop) (condition : State → Action → Prop)
    (start : State) (actions : List Action) : Prop :=
  ∀ before action after, actions = before ++ action :: after →
    ∀ state, Run step start before state → condition state action

theorem meets_nil (step : State → Action → State → Prop) (condition : State → Action → Prop)
    (start : State) : Meets step condition start [] := by
  intro before action after split
  simp at split

/-- A schedule meets a condition when its steps but the last do and its last one does. -/
theorem meets_snoc (step : State → Action → State → Prop) (condition : State → Action → Prop)
    (start : State) (actions : List Action) (action : Action) :
    Meets step condition start (actions ++ [action]) ↔
      Meets step condition start actions ∧
        ∀ state, Run step start actions state → condition state action := by
  constructor
  · intro meets
    refine ⟨fun before other after split => ?_, meets actions action [] rfl⟩
    exact meets before other (after ++ [action]) (by rw [split]; simp)
  · rintro ⟨meets, last⟩ before other after split
    rcases List.eq_nil_or_concat after with rfl | ⟨init, final, rfl⟩
    · obtain ⟨sameActions, sameAction⟩ := List.append_inj' split rfl
      obtain rfl : action = other := List.singleton_inj.mp sameAction
      exact sameActions ▸ last
    · have shape : actions ++ [action] = (before ++ other :: init) ++ [final] := by
        rw [split]; simp
      exact meets before other init (List.append_inj_left' shape rfl)

/-- A schedule of one action meets what that action meets in the first state. -/
theorem meets_single {step : State → Action → State → Prop} {condition : State → Action → Prop}
    {start : State} {action : Action} (meets : condition start action) :
    Meets step condition start ([] ++ [action]) := by
  refine (meets_snoc _ _ _ _ _).mpr ⟨meets_nil _ _ _, fun state run => ?_⟩
  rw [← run.of_nil]
  exact meets

/-- A schedule that meets two conditions meets both at every step. -/
theorem Meets.and {step : State → Action → State → Prop} {first second : State → Action → Prop}
    {start : State} {actions : List Action} (meetsFirst : Meets step first start actions)
    (meetsSecond : Meets step second start actions) :
    Meets step (fun state action => first state action ∧ second state action) start actions :=
  fun before action after split state reached =>
    ⟨meetsFirst before action after split state reached,
      meetsSecond before action after split state reached⟩

/-- A schedule's first part meets what the schedule meets. -/
theorem Meets.of_append {step : State → Action → State → Prop} {condition : State → Action → Prop}
    {start : State} (first second : List Action)
    (meets : Meets step condition start (first ++ second)) : Meets step condition start first := by
  intro before action after split
  exact meets before action (after ++ second) (by rw [split]; simp)

/-- An invariant that each scheduled step meeting the condition keeps holds at the end of every
run whose steps all meet it. -/
theorem Run.invariant_on {step : State → Action → State → Prop}
    {condition : State → Action → Prop} {invariant : State → Prop} {start final : State}
    {actions : List Action} (run : Run step start actions final) (initially : invariant start)
    (keeps : ∀ state action next, action ∈ actions → invariant state → condition state action →
      step state action next → invariant next)
    (meets : Meets step condition start actions) : invariant final := by
  induction run with
  | nil => exact initially
  | snoc run last inductionHypothesis =>
    obtain ⟨earlier, here⟩ := (meets_snoc _ _ _ _ _).mp meets
    have before := inductionHypothesis
      (fun state action next member => keeps state action next (List.mem_append_left _ member))
      earlier
    exact keeps _ _ _ (by simp) before (here _ run) last

/-- An invariant that each step meeting the condition keeps holds at the end of every run
whose steps all meet it. -/
theorem Run.invariant {step : State → Action → State → Prop} {condition : State → Action → Prop}
    {invariant : State → Prop} {start final : State} {actions : List Action}
    (run : Run step start actions final) (initially : invariant start)
    (keeps : ∀ state action next, invariant state → condition state action →
      step state action next → invariant next)
    (meets : Meets step condition start actions) : invariant final :=
  run.invariant_on initially (fun state action next _ => keeps state action next) meets

/-- An invariant that every step keeps holds at the end of every run. -/
theorem Run.invariant_of_step {step : State → Action → State → Prop} {invariant : State → Prop}
    {start final : State} {actions : List Action} (run : Run step start actions final)
    (initially : invariant start)
    (keeps : ∀ state action next, invariant state → step state action next → invariant next) :
    invariant final := by
  induction run with
  | nil => exact initially
  | snoc _ last inductionHypothesis => exact keeps _ _ _ inductionHypothesis last

/-- A property holds in every state of a run if and only if every step of the run meets a
condition, when good states have the property, a step from a good state that meets the
condition leads to a good state, and a step from a good state to one with the property meets
the condition. -/
theorem Run.always_iff {step : State → Action → State → Prop} (deterministic : Deterministic step)
    {condition : State → Action → Prop} {good property : State → Prop} {start final : State}
    {actions : List Action} (run : Run step start actions final) (initially : good start)
    (sound : ∀ state, good state → property state)
    (keeps : ∀ state action next, action ∈ actions → good state → condition state action →
      step state action next → good next)
    (needs : ∀ state action next, action ∈ actions → good state → step state action next →
      property next → condition state action) :
    (∀ before, before <+: actions → ∀ state, Run step start before state → property state) ↔
      Meets step condition start actions := by
  constructor
  · intro always
    have stays (before : List Action) (state : State) (reached : Run step start before state)
        (isPrefix : before <+: actions) : good state := by
      induction reached with
      | nil => exact initially
      | snoc earlier last inductionHypothesis =>
        have holds := inductionHypothesis ((List.prefix_append _ _).trans isPrefix)
        have member := isPrefix.subset (List.mem_append_right _ (List.mem_singleton_self _))
        have met := needs _ _ _ member holds last (always _ isPrefix _ (earlier.snoc last))
        exact keeps _ _ _ member holds met last
    intro before action after split state reached
    obtain ⟨next, taken⟩ := Run.next deterministic (split ▸ run) reached
    have isPrefix : before ++ [action] <+: actions := ⟨after, by rw [split]; simp⟩
    refine needs state action next (by rw [split]; simp) ?_ taken
      (always _ isPrefix next (reached.snoc taken))
    exact stays before state reached ⟨_, split.symm⟩
  · rintro meets before ⟨after, rfl⟩ state reached
    refine sound state (reached.invariant_on initially (fun state action next member => ?_)
      (meets.of_append _ _))
    exact keeps state action next (List.mem_append_left _ member)

/-- Two conditions that agree wherever an invariant holds agree along a schedule, when the
steps that meet one of them keep the invariant. -/
theorem meets_congr {step : State → Action → State → Prop}
    {first second : State → Action → Prop} {invariant : State → Prop} {start : State}
    {actions : List Action} (initially : invariant start)
    (agree : ∀ state action, invariant state → (first state action ↔ second state action))
    (keeps : ∀ state action next, invariant state → first state action →
      step state action next → invariant next) :
    Meets step first start actions ↔ Meets step second start actions := by
  have keeps' : ∀ state action next, invariant state → second state action →
      step state action next → invariant next := fun state action next holds met =>
    keeps state action next holds ((agree state action holds).mpr met)
  induction actions using List.reverseRecOn with
  | nil => exact iff_of_true (meets_nil _ _ _) (meets_nil _ _ _)
  | append_singleton actions action inductionHypothesis =>
    rw [meets_snoc, meets_snoc, propext inductionHypothesis]
    refine and_congr_right fun meets => forall_congr' fun state => imp_congr_right fun run => ?_
    exact agree state action (run.invariant initially keeps' meets)

/-! ### Executable step functions -/

/-- The step relation of a partial step function. -/
def StepOf (step : State → Action → Option State) (state : State) (action : Action)
    (next : State) : Prop :=
  step state action = some next

theorem stepOf_deterministic (step : State → Action → Option State) :
    Deterministic (StepOf step) := by
  intro state action first second left right
  exact Option.some.inj (left.symm.trans right)

/-- Execute a schedule with a partial step function. -/
def exec (step : State → Action → Option State) : State → List Action → Option State
  | state, [] => some state
  | state, action :: rest => (step state action).bind fun next => exec step next rest

/-- An execution is a run of the step relation. -/
theorem run_of_exec {step : State → Action → Option State} {start final : State}
    {actions : List Action} (executed : exec step start actions = some final) :
    Run (StepOf step) start actions final := by
  induction actions generalizing start with
  | nil =>
    obtain rfl : start = final := Option.some.inj executed
    exact Run.nil start
  | cons action rest inductionHypothesis =>
    obtain ⟨next, first, later⟩ := Option.bind_eq_some_iff.mp executed
    exact Run.cons first (inductionHypothesis later)

/-- Whether every step of an execution meets a condition. -/
def checks (step : State → Action → Option State) (condition : State → Action → Prop)
    [∀ state action, Decidable (condition state action)] : State → List Action → Bool
  | _, [] => true
  | state, action :: rest => decide (condition state action) &&
      match step state action with
      | some next => checks step condition next rest
      | none => true

/-- An execution that checks meets the condition. -/
theorem meets_of_checks {step : State → Action → Option State} {condition : State → Action → Prop}
    [∀ state action, Decidable (condition state action)] {start : State} {actions : List Action}
    (checked : checks step condition start actions = true) :
    Meets (StepOf step) condition start actions := by
  intro before action after split state reached
  induction before generalizing start actions with
  | nil =>
    obtain rfl := reached.of_nil
    subst split
    simp only [List.nil_append, checks, Bool.and_eq_true, decide_eq_true_eq] at checked
    exact checked.1
  | cons first rest inductionHypothesis =>
    subst split
    obtain ⟨next, taken, later⟩ := reached.of_cons
    have taken : step start first = some next := taken
    simp only [List.cons_append, checks, taken, Bool.and_eq_true] at checked
    exact inductionHypothesis checked.2 rfl later

end Transition
