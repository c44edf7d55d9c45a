import Mathlib.Logic.Function.Basic
import SearchEngine.Lib.Coroutine
import SearchEngine.Lib.Machine

/-!
# Executions that share a service

A service keeps one value per slot and works on a world around it. Each of its
calls is for one slot: it sets the slot, reads it, or passes it by. Several
executions take their calls on one service in any order. An execution that reads
a slot only after its own last setting call cannot tell the shared service from
one of its own (`isolated_of_undisturbed`), whatever the others do.
-/

namespace SearchEngine.Lib

/-- What a call does with its slot. -/
inductive SlotUse where
  | sets
  | reads
  | passes
deriving DecidableEq

/-- A service with slots. A call that sets its slot does not look at what was there,
and only such a call changes it. -/
structure Service (Call : Type) (Answer : Call → Type) (Slot Value World : Type) where
  slot : Call → Slot
  use : Call → SlotUse
  respond : Value → World → (call : Call) → Answer call
  store : Value → World → Call → Value
  change : World → Call → World
  respond_eq : ∀ {call}, use call ≠ .reads → ∀ value other world,
    respond value world call = respond other world call
  store_eq : ∀ {call}, use call = .sets → ∀ value other world,
    store value world call = store other world call
  store_keeps : ∀ {call}, use call ≠ .sets → ∀ value world, store value world call = value

/-- A shared service, the world around it and what every execution still has to do. -/
structure Sharing (Execution Call : Type) (Answer : Call → Type)
    (Thrown Result Slot Value World : Type) where
  slots : Slot → Value
  world : World
  program : Execution → Coroutine Call Answer Thrown Result

/-- What is known of a run: the slots an execution would have on a service of its own,
the worlds that its calls found, and who set a slot last. -/
structure SharingHistory (Execution Slot Value World : Type) where
  own : Execution → Slot → Value
  found : Execution → List World
  setter : Slot → Option Execution

namespace Sharing

variable {Execution Call : Type} {Answer : Call → Type} {Thrown Result Slot Value World : Type}
  [DecidableEq Execution] [DecidableEq Slot]

/-- One call of a chosen execution. -/
def step (service : Service Call Answer Slot Value World)
    (s : Sharing Execution Call Answer Thrown Result Slot Value World) (execution : Execution) :
    Option (Sharing Execution Call Answer Thrown Result Slot Value World) :=
  match s.program execution with
  | .done _ | .raise _ => none
  | .suspend call resume =>
      let value := s.slots (service.slot call)
      some
        { slots := Function.update s.slots (service.slot call) (service.store value s.world call)
          world := service.change s.world call
          program := Function.update s.program execution (resume (service.respond value s.world call)) }

/-- What a call adds to the history. -/
def observe (service : Service Call Answer Slot Value World)
    (s : Sharing Execution Call Answer Thrown Result Slot Value World) (execution : Execution)
    (history : SharingHistory Execution Slot Value World) :
    SharingHistory Execution Slot Value World :=
  match s.program execution with
  | .done _ | .raise _ => history
  | .suspend call _ =>
      let slot := service.slot call
      let own := history.own execution
      { own := Function.update history.own execution
          (Function.update own slot (service.store (own slot) s.world call))
        found := Function.update history.found execution (history.found execution ++ [s.world])
        setter := if service.use call = .sets then Function.update history.setter slot (some execution)
          else history.setter }

/-- The machine of the executions, with its history. -/
def machine (service : Service Call Answer Slot Value World) :
    Machine (Sharing Execution Call Answer Thrown Result Slot Value World ×
      SharingHistory Execution Slot Value World) Execution :=
  Machine.monitor ⟨step service⟩ (observe service)

/-- Nothing has been called yet; every own slot starts with the given values. -/
def begun (start : Slot → Value) : SharingHistory Execution Slot Value World :=
  ⟨fun _ => start, fun _ => [], fun _ => none⟩

end Sharing

/-- A coroutine with a service of its own; each of its calls finds the next of the
listed worlds. -/
def alone {Call : Type} {Answer : Call → Type} {Thrown Result Slot Value World : Type}
    [DecidableEq Slot] (service : Service Call Answer Slot Value World) :
    Coroutine Call Answer Thrown Result → (Slot → Value) → List World →
      Option (Except Thrown Result)
  | .done result, _, _ => some (.ok result)
  | .raise thrown, _, _ => some (.error thrown)
  | .suspend _ _, _, [] => none
  | .suspend call resume, slots, world :: later =>
      let value := slots (service.slot call)
      alone service (resume (service.respond value world call))
        (Function.update slots (service.slot call) (service.store value world call)) later

/-- How a coroutine ended. -/
def Coroutine.outcome {Call : Type} {Answer : Call → Type} {Thrown Result : Type} :
    Coroutine Call Answer Thrown Result → Option (Except Thrown Result)
  | .done result => some (.ok result)
  | .raise thrown => some (.error thrown)
  | .suspend _ _ => none

namespace Sharing

variable {Execution Call : Type} {Answer : Call → Type} {Thrown Result Slot Value World : Type}
  [DecidableEq Execution] [DecidableEq Slot] {service : Service Call Answer Slot Value World}

/-- When the execution reads a slot, it was the last to set it. -/
def Undisturbed (service : Service Call Answer Slot Value World) (observed : Execution)
    (s : Sharing Execution Call Answer Thrown Result Slot Value World ×
      SharingHistory Execution Slot Value World) (execution : Execution) : Prop :=
  match s.1.program execution with
  | .suspend call _ => execution = observed → service.use call = .reads →
      s.2.setter (service.slot call) = some observed
  | .done _ | .raise _ => True

instance (service : Service Call Answer Slot Value World) (observed : Execution)
    (s : Sharing Execution Call Answer Thrown Result Slot Value World ×
      SharingHistory Execution Slot Value World) (execution : Execution) :
    Decidable (Undisturbed service observed s execution) :=
  match remaining : s.1.program execution with
  | .suspend call _ =>
      decidable_of_iff (execution = observed → service.use call = .reads →
        s.2.setter (service.slot call) = some observed) (by simp [Undisturbed, remaining])
  | .done _ | .raise _ => isTrue (by simp [Undisturbed, remaining])

/-- The answer the execution gets is the one a service of its own would give. -/
def AnsweredOwn (service : Service Call Answer Slot Value World) (observed : Execution)
    (s : Sharing Execution Call Answer Thrown Result Slot Value World ×
      SharingHistory Execution Slot Value World) (execution : Execution) : Prop :=
  match s.1.program execution with
  | .suspend call _ => execution = observed →
      service.respond (s.1.slots (service.slot call)) s.1.world call =
        service.respond (s.2.own execution (service.slot call)) s.1.world call
  | .done _ | .raise _ => True

/-- Slots last set by the execution hold its own values, and what is left of the
execution is what is left of it alone. -/
structure Separate (service : Service Call Answer Slot Value World) (observed : Execution)
    (original : Coroutine Call Answer Thrown Result) (start : Slot → Value)
    (s : Sharing Execution Call Answer Thrown Result Slot Value World ×
      SharingHistory Execution Slot Value World) : Prop where
  own : ∀ slot, s.2.setter slot = some observed → s.1.slots slot = s.2.own observed slot
  rest : ∀ later, alone service original start (s.2.found observed ++ later) =
    alone service (s.1.program observed) (s.2.own observed) later

/-- A step is one call of the execution it is named after. -/
theorem step_cases {s s' : Sharing Execution Call Answer Thrown Result Slot Value World ×
      SharingHistory Execution Slot Value World} {execution : Execution}
    (taken : (machine service).step s execution = some s') :
    ∃ call resume, s.1.program execution = .suspend call resume ∧
      s'.1.slots = Function.update s.1.slots (service.slot call)
        (service.store (s.1.slots (service.slot call)) s.1.world call) ∧
      s'.1.program = Function.update s.1.program execution
        (resume (service.respond (s.1.slots (service.slot call)) s.1.world call)) ∧
      s'.2.own = Function.update s.2.own execution (Function.update (s.2.own execution)
        (service.slot call) (service.store (s.2.own execution (service.slot call)) s.1.world call)) ∧
      s'.2.found = Function.update s.2.found execution (s.2.found execution ++ [s.1.world]) ∧
      s'.2.setter = (if service.use call = .sets then
        Function.update s.2.setter (service.slot call) (some execution) else s.2.setter) := by
  obtain ⟨next, stepped, rfl⟩ := Option.map_eq_some_iff.mp taken
  change step service s.1 execution = some next at stepped
  unfold step at stepped
  cases remaining : s.1.program execution with
  | done result => simp [remaining] at stepped
  | raise thrown => simp [remaining] at stepped
  | suspend call resume =>
      simp only [remaining] at stepped
      obtain rfl := Option.some.inj stepped
      exact ⟨call, resume, rfl, rfl, rfl, by simp only [observe, remaining],
        by simp only [observe, remaining], by simp only [observe, remaining]⟩

omit [DecidableEq Execution] in
/-- An undisturbed call of a separate execution is answered as on its own service. -/
theorem Separate.answeredOwn {observed : Execution}
    {original : Coroutine Call Answer Thrown Result} {start : Slot → Value}
    {s : Sharing Execution Call Answer Thrown Result Slot Value World ×
      SharingHistory Execution Slot Value World} {execution : Execution}
    (separate : Separate service observed original start s)
    (undisturbed : Undisturbed service observed s execution) :
    AnsweredOwn service observed s execution := by
  unfold AnsweredOwn
  unfold Undisturbed at undisturbed
  cases remaining : s.1.program execution with
  | done result => trivial
  | raise thrown => trivial
  | suspend call resume =>
      simp only [remaining] at undisturbed ⊢
      rintro rfl
      by_cases reading : service.use call = .reads
      · have same := separate.own (service.slot call) (undisturbed rfl reading)
        exact congrArg (fun value => service.respond value s.1.world call) same
      · exact service.respond_eq reading _ _ _

/-- Every step keeps an undisturbed execution separate. -/
theorem Separate.step {observed : Execution} {original : Coroutine Call Answer Thrown Result}
    {start : Slot → Value} {s s' : Sharing Execution Call Answer Thrown Result Slot Value World ×
      SharingHistory Execution Slot Value World} {execution : Execution}
    (separate : Separate service observed original start s)
    (undisturbed : Undisturbed service observed s execution)
    (taken : (machine service).step s execution = some s') :
    Separate service observed original start s' := by
  have answered := separate.answeredOwn undisturbed
  obtain ⟨call, resume, remaining, slots, program, own, found, setter⟩ := step_cases taken
  simp only [AnsweredOwn, remaining] at answered
  by_cases mine : execution = observed
  · subst mine
    refine ⟨fun slot last => ?_, fun later => ?_⟩
    · rw [slots, own, Function.update_self]
      by_cases here : slot = service.slot call
      · subst here
        simp only [Function.update_self]
        by_cases setting : service.use call = .sets
        · exact service.store_eq setting _ _ _
        · rw [service.store_keeps setting, service.store_keeps setting]
          rw [setter, if_neg setting] at last
          exact separate.own _ last
      · rw [Function.update_of_ne here, Function.update_of_ne here]
        refine separate.own slot ?_
        rw [setter] at last
        split at last
        · rwa [Function.update_of_ne here] at last
        · exact last
    · rw [found, program, own]
      simp only [Function.update_self, List.append_assoc, List.singleton_append]
      rw [separate.rest, remaining, answered rfl]
      rfl
  · have other : observed ≠ execution := fun same => mine same.symm
    refine ⟨fun slot last => ?_, fun later => ?_⟩
    · rw [own, Function.update_of_ne other]
      rw [setter] at last
      by_cases here : slot = service.slot call
      · subst here
        by_cases setting : service.use call = .sets
        · rw [if_pos setting, Function.update_self] at last
          exact absurd (Option.some.inj last) mine
        · rw [if_neg setting] at last
          rw [slots, Function.update_self, service.store_keeps setting]
          exact separate.own _ last
      · rw [slots, Function.update_of_ne here]
        refine separate.own slot ?_
        split at last
        · rwa [Function.update_of_ne here] at last
        · exact last
    · rw [found, program, own, Function.update_of_ne other, Function.update_of_ne other,
        Function.update_of_ne other]
      exact separate.rest later

omit [DecidableEq Execution] in
/-- At the start nothing has been set. -/
theorem separate_begun (s : Sharing Execution Call Answer Thrown Result Slot Value World)
    (observed : Execution) (start : Slot → Value) :
    Separate service observed (s.program observed) start (s, begun start) :=
  ⟨fun _ last => absurd last (by simp [begun]), fun _ => rfl⟩

/-- The execution gets its own answers, and ends as it would alone. -/
def Isolated (service : Service Call Answer Slot Value World) (observed : Execution)
    (start : Slot → Value) (s : Sharing Execution Call Answer Thrown Result Slot Value World)
    (schedule : List Execution) : Prop :=
  (machine service).Conforms (AnsweredOwn service observed) (s, begun start) schedule ∧
    ∀ final, (machine service).run (s, begun start) schedule = some final →
      ∀ outcome, (final.1.program observed).outcome = some outcome →
        alone service (s.program observed) start (final.2.found observed) = some outcome

/-- An execution that reads only what it set last is isolated. -/
theorem isolated_of_undisturbed {observed : Execution} {start : Slot → Value}
    {s : Sharing Execution Call Answer Thrown Result Slot Value World} {schedule : List Execution}
    (undisturbed : (machine service).Conforms (Undisturbed service observed) (s, begun start) schedule) :
    Isolated service observed start s schedule := by
  have initial : Separate service observed (s.program observed) start (s, begun start) :=
    separate_begun s observed start
  refine ⟨?_, fun final done outcome ended => ?_⟩
  · exact undisturbed.strengthen (fun _ _ _ separate allowed => separate.step allowed)
      (fun _ _ separate allowed => separate.answeredOwn allowed) initial
  · have separate := Machine.invariant_run
      (fun _ _ _ separate allowed => separate.step allowed) initial undisturbed done
    have rest := separate.rest []
    rw [List.append_nil] at rest
    rw [rest]
    cases remaining : final.1.program observed with
    | done result => simpa [remaining, Coroutine.outcome, alone] using ended
    | raise thrown => simpa [remaining, Coroutine.outcome, alone] using ended
    | suspend call resume => simp [remaining, Coroutine.outcome] at ended

/-- What a coroutine owes that never reads a slot. -/
def neverReads (service : Service Call Answer Slot Value World) : Contract Call Answer Unit where
  requires _ call := service.use call ≠ .reads
  answers _ _ _ := True
  next _ _ _ := ()

/-- A coroutine that never reads a slot is undisturbed in every run. -/
theorem undisturbed_of_neverReads {observed : Execution}
    {s : Sharing Execution Call Answer Thrown Result Slot Value World ×
      SharingHistory Execution Slot Value World}
    (never : (s.1.program observed).Meets (neverReads service) (fun _ _ => True) ())
    (schedule : List Execution) :
    (machine service).Conforms (Undisturbed service observed) s schedule := by
  have free : (machine service).Conforms (fun _ _ => True) s schedule :=
    Machine.conforms_of_forall (fun _ _ => trivial) s schedule
  have kept : ∀ (before : Sharing Execution Call Answer Thrown Result Slot Value World ×
      SharingHistory Execution Slot Value World) execution after,
      (before.1.program observed).Meets (neverReads service) (fun _ _ => True) () → True →
      (machine service).step before execution = some after →
      (after.1.program observed).Meets (neverReads service) (fun _ _ => True) () := by
    intro before execution after holds _ taken
    obtain ⟨call, resume, remaining, -, program, -⟩ := step_cases taken
    rw [program]
    by_cases mine : execution = observed
    · subst mine
      rw [remaining] at holds
      rw [Function.update_self]
      exact holds.2 _ trivial
    · rw [Function.update_of_ne (Ne.symm mine)]
      exact holds
  refine free.strengthen kept (fun before execution holds _ => ?_) never
  unfold Undisturbed
  cases remaining : before.1.program execution with
  | done result => trivial
  | raise thrown => trivial
  | suspend call resume =>
      rintro rfl reading
      rw [remaining] at holds
      exact absurd reading holds.1

end Sharing

end SearchEngine.Lib
