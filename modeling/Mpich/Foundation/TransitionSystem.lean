import Mathlib.Data.Finset.Card

/-!
# Transition systems with partial steps

A transition system is driven by its environment: `enabled` says which actions
the environment may ask for in a state, and `step` is the program's response.
The response `none` means that the program cannot carry out the action, for
instance because one of its assertions fails.

An inductive predicate holds initially and is preserved by every enabled step,
so it holds of every reachable state. `Inductive.reachable` packages that
induction once. `restrict` removes actions, and is used to speak of the runs
whose steps all meet a condition.
-/

namespace Mpich

/-- A state machine whose actions are offered by an environment. -/
structure TransitionSystem (State : Type*) (Action : Type*) where
  /-- The states a run may start in. -/
  initial : State → Prop
  /-- The actions the environment may offer. -/
  enabled : State → Action → Prop
  /-- The response to an action; `none` when the program fails. -/
  step : State → Action → Option State

namespace TransitionSystem

variable {State Action : Type*}

/-- States at the end of a finite run of enabled, successful steps. -/
inductive Reachable (system : TransitionSystem State Action) : State → Prop
  | initial {state : State} :
      system.initial state → Reachable system state
  | step {state next : State} (action : Action) :
      Reachable system state →
      system.enabled state action → system.step state action = some next → Reachable system next

/-- States at the end of a run of this many steps. -/
inductive ReachableIn
    (system : TransitionSystem State Action) : Nat → State → Prop
  | initial {state : State} :
      system.initial state → ReachableIn system 0 state
  | step {steps : Nat} {state next : State} (action : Action) :
      ReachableIn system steps state →
      system.enabled state action → system.step state action = some next →
      ReachableIn system (steps + 1) next

variable {system : TransitionSystem State Action}

variable {state : State}

/-- A run has some number of steps. -/
theorem Reachable.exists_reachableIn
    (reachable : system.Reachable state) :
    ∃ steps, system.ReachableIn steps state := by
  induction reachable with
  | initial start => exact ⟨0, .initial start⟩
  | step action _ enabled stepped ih =>
    obtain ⟨steps, counted⟩ := ih
    exact ⟨steps + 1, .step action counted enabled stepped⟩

theorem ReachableIn.reachable
    {steps : Nat}
    (counted : system.ReachableIn steps state) :
    system.Reachable state := by
  induction counted with
  | initial start => exact .initial start
  | step action _ enabled stepped ih => exact .step action ih enabled stepped

/-- A predicate that holds initially and is preserved by every step. -/
structure Inductive
    (system : TransitionSystem State Action)
    (invariant : State → Prop) : Prop where
  /-- The predicate holds where a run may start. -/
  initial : ∀ state, system.initial state → invariant state
  /-- One enabled, successful step preserves the predicate. -/
  step : ∀ state action next, invariant state → system.enabled state action →
      system.step state action = some next → invariant next

/-- An inductive predicate holds of every reachable state. -/
theorem Inductive.reachable
    {invariant : State → Prop}
    (holds : system.Inductive invariant)
    (reachable : system.Reachable state) :
    invariant state := by
  induction reachable with
  | initial start => exact holds.initial _ start
  | step action _ enabled stepped ih =>
    exact holds.step _ action _ ih enabled stepped

/-- No action offered in the state makes the program fail. -/
def Responsive
    (system : TransitionSystem State Action)
    (state : State) : Prop :=
  ∀ action, system.enabled state action → (system.step state action).isSome

/-- The same system, offered only the actions that meet a condition. -/
def restrict
    (system : TransitionSystem State Action)
    (condition : State → Action → Prop) :
    TransitionSystem State Action where
  initial := system.initial
  enabled := fun state action =>
    system.enabled state action ∧ condition state action
  step := system.step

/-- A run whose steps all meet a condition is a run. -/
theorem Reachable.of_restrict
    {condition : State → Action → Prop}
    (reachable : (system.restrict condition).Reachable state) :
    system.Reachable state := by
  induction reachable with
  | initial start => exact .initial start
  | step action _ enabled stepped ih => exact .step action ih enabled.1 stepped

end Mpich.TransitionSystem
