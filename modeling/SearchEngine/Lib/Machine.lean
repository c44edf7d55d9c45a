import Mathlib.Algebra.BigOperators.Group.Finset.Basic
import Mathlib.Data.Fintype.Basic
import Mathlib.Data.List.Basic

/-!
# Machines with chosen actions

A machine takes one enabled action at a time; the list of actions is the
schedule. `Conforms` restricts a schedule by a condition on each action and the
state it is taken in, and `invariant_run` carries an invariant along a conforming
schedule. A monitor records history beside the state and cannot influence it.
-/

namespace SearchEngine.Lib

universe u v w

/-- A machine; `none` is an action that is not enabled. -/
structure Machine (State : Type u) (Action : Type v) where
  step : State → Action → Option State

namespace Machine

variable {State : Type u} {Action : Type v} {History : Type w}

/-- Take the actions of a schedule in order. -/
def run (machine : Machine State Action) (state : State) : List Action → Option State
  | [] => some state
  | action :: rest => (machine.step state action).bind fun next => machine.run next rest

/-- A run passes through the state between two parts of its schedule. -/
theorem run_append {machine : Machine State Action} {state final : State} (before after : List Action)
    (done : machine.run state (before ++ after) = some final) :
    ∃ middle, machine.run state before = some middle ∧ machine.run middle after = some final := by
  induction before generalizing state with
  | nil => exact ⟨state, rfl, done⟩
  | cons action before ih =>
      obtain ⟨next, stepped, remaining⟩ := Option.bind_eq_some_iff.mp done
      obtain ⟨middle, first, last⟩ := ih remaining
      exact ⟨middle, Option.bind_eq_some_iff.mpr ⟨next, stepped, first⟩, last⟩

/-- Every action of the schedule satisfies `allowed` in the state it is taken in. -/
def Conforms (machine : Machine State Action) (allowed : State → Action → Prop) (state : State) :
    List Action → Prop
  | [] => True
  | action :: rest => allowed state action ∧
      ∀ next, machine.step state action = some next → machine.Conforms allowed next rest

instance decidableConforms (machine : Machine State Action) (allowed : State → Action → Prop)
    [∀ state action, Decidable (allowed state action)] (state : State) (actions : List Action) :
    Decidable (machine.Conforms allowed state actions) :=
  match actions with
  | [] => isTrue trivial
  | action :: rest =>
      match taken : machine.step state action with
      | none => decidable_of_iff (allowed state action) (by simp [Conforms, taken])
      | some next =>
          have := decidableConforms machine allowed next rest
          decidable_of_iff (allowed state action ∧ machine.Conforms allowed next rest)
            (by simp [Conforms, taken])

/-- A condition that always holds restricts nothing. -/
theorem conforms_of_forall {machine : Machine State Action} {allowed : State → Action → Prop}
    (every : ∀ state action, allowed state action) (state : State) (actions : List Action) :
    machine.Conforms allowed state actions := by
  induction actions generalizing state with
  | nil => trivial
  | cons action rest ih => exact ⟨every state action, fun next _ => ih next⟩

/-- A condition on the actions alone holds along a schedule of such actions. -/
theorem conforms_of_mem {machine : Machine State Action} {allowed : Action → Prop}
    {actions : List Action} (every : ∀ action ∈ actions, allowed action) (state : State) :
    machine.Conforms (fun _ => allowed) state actions := by
  induction actions generalizing state with
  | nil => trivial
  | cons action rest ih =>
      obtain ⟨first, remaining⟩ := List.forall_mem_cons.mp every
      exact ⟨first, fun next _ => ih remaining next⟩

/-- An invariant kept by every allowed action holds after a conforming schedule. -/
theorem invariant_run {machine : Machine State Action} {allowed : State → Action → Prop}
    {invariant : State → Prop}
    (kept : ∀ state action next, invariant state → allowed state action →
      machine.step state action = some next → invariant next)
    {state final : State} {actions : List Action} (initial : invariant state)
    (conforms : machine.Conforms allowed state actions)
    (done : machine.run state actions = some final) : invariant final := by
  induction actions generalizing state with
  | nil =>
      obtain rfl := Option.some.inj done
      exact initial
  | cons action rest ih =>
      obtain ⟨next, stepped, remaining⟩ := Option.bind_eq_some_iff.mp done
      exact ih (kept state action next initial conforms.1 stepped) (conforms.2 next stepped) remaining

/-- An invariant kept by every action holds after every schedule. -/
theorem invariant_reachable {machine : Machine State Action} {invariant : State → Prop}
    (kept : ∀ state action next, invariant state → machine.step state action = some next →
      invariant next)
    {state final : State} {actions : List Action} (initial : invariant state)
    (done : machine.run state actions = some final) : invariant final := by
  have free : machine.Conforms (fun _ _ => True) state actions :=
    conforms_of_forall (fun _ _ => trivial) state actions
  exact invariant_run (fun before action next holds _ => kept before action next holds) initial free done

/-- A schedule that conforms to a condition conforms to a weaker one. -/
theorem Conforms.mono {machine : Machine State Action} {strong weak : State → Action → Prop}
    (weaker : ∀ state action, strong state action → weak state action) {state : State}
    {actions : List Action} (conforms : machine.Conforms strong state actions) :
    machine.Conforms weak state actions := by
  induction actions generalizing state with
  | nil => trivial
  | cons action rest ih =>
      exact ⟨weaker state action conforms.1, fun next stepped => ih (conforms.2 next stepped)⟩

/-- A condition that an invariant adds to each action holds along the schedule. -/
theorem Conforms.strengthen {machine : Machine State Action} {weak strong : State → Action → Prop}
    {invariant : State → Prop}
    (kept : ∀ state action next, invariant state → weak state action →
      machine.step state action = some next → invariant next)
    (implies : ∀ state action, invariant state → weak state action → strong state action)
    {state : State} {actions : List Action} (initial : invariant state)
    (conforms : machine.Conforms weak state actions) : machine.Conforms strong state actions := by
  induction actions generalizing state with
  | nil => trivial
  | cons action rest ih =>
      refine ⟨implies state action initial conforms.1, fun next stepped => ?_⟩
      exact ih (kept state action next initial conforms.1 stepped) (conforms.2 next stepped)

/-- The property holds in every state that the schedule passes through. -/
def Throughout (machine : Machine State Action) (holds : State → Prop) (state : State) :
    List Action → Prop
  | [] => holds state
  | action :: rest => holds state ∧
      ∀ next, machine.step state action = some next → machine.Throughout holds next rest

/-- The property holds where the schedule starts. -/
theorem Throughout.here {machine : Machine State Action} {holds : State → Prop} {state : State}
    {actions : List Action} (throughout : machine.Throughout holds state actions) : holds state := by
  cases actions with
  | nil => exact throughout
  | cons action rest => exact throughout.1

/-- The property holds where the schedule ends. -/
theorem Throughout.final {machine : Machine State Action} {holds : State → Prop} {state last : State}
    {actions : List Action} (throughout : machine.Throughout holds state actions)
    (done : machine.run state actions = some last) : holds last := by
  induction actions generalizing state with
  | nil => exact Option.some.inj done ▸ throughout
  | cons action rest ih =>
      obtain ⟨next, stepped, remaining⟩ := Option.bind_eq_some_iff.mp done
      exact ih (throughout.2 next stepped) remaining

/-- A weaker property holds throughout as well. -/
theorem Throughout.mono {machine : Machine State Action} {strong weak : State → Prop} {state : State}
    {actions : List Action} (throughout : machine.Throughout strong state actions)
    (weaker : ∀ state, strong state → weak state) : machine.Throughout weak state actions := by
  induction actions generalizing state with
  | nil => exact weaker state throughout
  | cons action rest ih =>
      exact ⟨weaker state throughout.1, fun next stepped => ih (throughout.2 next stepped)⟩

/-- An invariant that implies the property carries it through a conforming schedule. -/
theorem throughout_of_conforms {machine : Machine State Action} {allowed : State → Action → Prop}
    {invariant holds : State → Prop} (implies : ∀ state, invariant state → holds state)
    (kept : ∀ state action next, invariant state → allowed state action →
      machine.step state action = some next → invariant next)
    {state : State} {actions : List Action} (initial : invariant state)
    (conforms : machine.Conforms allowed state actions) :
    machine.Throughout holds state actions := by
  induction actions generalizing state with
  | nil => exact implies state initial
  | cons action rest ih =>
      refine ⟨implies state initial, fun next stepped => ?_⟩
      exact ih (kept state action next initial conforms.1 stepped) (conforms.2 next stepped)

/-- If every action outside the condition breaks the property at once, the
condition is the exact one. -/
theorem throughout_iff_conforms {machine : Machine State Action} {allowed : State → Action → Prop}
    {invariant holds : State → Prop} (implies : ∀ state, invariant state → holds state)
    (kept : ∀ state action next, invariant state → allowed state action →
      machine.step state action = some next → invariant next)
    (breaks : ∀ state action, invariant state → ¬ allowed state action →
      ∃ next, machine.step state action = some next ∧ ¬ holds next)
    {state : State} {actions : List Action} (initial : invariant state) :
    machine.Throughout holds state actions ↔ machine.Conforms allowed state actions := by
  refine ⟨fun throughout => ?_, throughout_of_conforms implies kept initial⟩
  induction actions generalizing state with
  | nil => trivial
  | cons action rest ih =>
      have permitted : allowed state action := by
        by_contra refused
        obtain ⟨next, stepped, broken⟩ := breaks state action initial refused
        exact broken (throughout.2 next stepped).here
      refine ⟨permitted, fun next stepped => ?_⟩
      exact ih (kept state action next initial permitted stepped) (throughout.2 next stepped)

/-- A measure lowered by every action bounds the length of a run. -/
theorem length_add_le_of_run {machine : Machine State Action} (invariant : State → Prop)
    (measure : State → Nat)
    (kept : ∀ state action next, invariant state → machine.step state action = some next →
      invariant next ∧ measure next < measure state)
    {state final : State} {actions : List Action} (initial : invariant state)
    (done : machine.run state actions = some final) :
    actions.length + measure final ≤ measure state := by
  induction actions generalizing state with
  | nil =>
      obtain rfl := Option.some.inj done
      simp
  | cons action rest ih =>
      obtain ⟨next, stepped, remaining⟩ := Option.bind_eq_some_iff.mp done
      obtain ⟨nextHolds, lower⟩ := kept state action next initial stepped
      have shorter := ih nextHolds remaining
      rw [List.length_cons]
      omega

/-- A machine that can always move until it is final, and cannot move forever,
reaches a final state. -/
theorem exists_run_of_progress {machine : Machine State Action} (invariant : State → Prop)
    (measure : State → Nat) {final : State → Prop}
    (kept : ∀ state action next, invariant state → machine.step state action = some next →
      invariant next ∧ measure next < measure state)
    (progress : ∀ state, invariant state → ¬ final state →
      ∃ action next, machine.step state action = some next)
    {state : State} (initial : invariant state) :
    ∃ actions last, machine.run state actions = some last ∧ final last := by
  generalize bound : measure state = budget
  induction budget using Nat.strongRecOn generalizing state with
  | ind budget ih =>
      by_cases ended : final state
      · exact ⟨[], state, rfl, ended⟩
      · obtain ⟨action, next, stepped⟩ := progress state initial ended
        obtain ⟨nextHolds, lower⟩ := kept state action next initial stepped
        obtain ⟨actions, last, done, lastFinal⟩ := ih (measure next) (bound ▸ lower) nextHolds rfl
        exact ⟨action :: actions, last, by simp [run, stepped, done], lastFinal⟩

/-- The machine with a history that observes each action before it is taken. -/
def monitor (machine : Machine State Action) (observe : State → Action → History → History) :
    Machine (State × History) Action where
  step monitored action := (machine.step monitored.1 action).map fun next =>
    (next, observe monitored.1 action monitored.2)

end Machine

/-- A sum over the parts of a state when one part changes. -/
theorem sum_changed_part {Part : Type u} {Value : Type v} [Fintype Part] [DecidableEq Part]
    (values : Part → Value) (part : Part) (value : Value) (weight : Value → Nat) :
    ∑ other, weight (Function.update values part value other) + weight (values part) =
      ∑ other, weight (values other) + weight value := by
  rw [← Finset.add_sum_erase _ _ (Finset.mem_univ part),
    ← Finset.add_sum_erase (a := part) _ (fun other => weight (values other)) (Finset.mem_univ part)]
  have others : ∑ other ∈ Finset.univ.erase part, weight (Function.update values part value other) =
      ∑ other ∈ Finset.univ.erase part, weight (values other) := by
    refine Finset.sum_congr rfl fun other member => ?_
    rw [Function.update_of_ne (Finset.ne_of_mem_erase member)]
  rw [others, Function.update_self]
  omega

end SearchEngine.Lib
