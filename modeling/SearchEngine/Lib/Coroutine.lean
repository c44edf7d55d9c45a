import Mathlib.Data.List.Basic

/-!
# Coroutines and what their callers may rely on

A coroutine is the tree of everything it may still do: it is done, it throws, or
it is suspended on a call and goes on with the answer. A `Contract` says what the
coroutine owes when it calls, which answers may come back, and how a call changes
the state both sides see. `Meets` is the weakest precondition under a contract,
and its rules take a coroutine apart along the way it was put together.
-/

namespace SearchEngine.Lib

/-- What a coroutine still has to do. -/
inductive Coroutine (Call : Type) (Answer : Call → Type) (Thrown : Type) (Result : Type) where
  | done (result : Result)
  | raise (thrown : Thrown)
  | suspend (call : Call) (resume : Answer call → Coroutine Call Answer Thrown Result)

namespace Coroutine

variable {Call : Type} {Answer : Call → Type} {Thrown Result Next : Type}

/-- Go on with the result; a throw skips what follows. -/
def bind (program : Coroutine Call Answer Thrown Result)
    (next : Result → Coroutine Call Answer Thrown Next) : Coroutine Call Answer Thrown Next :=
  match program with
  | done result => next result
  | raise thrown => raise thrown
  | suspend call resume => suspend call fun answer => (resume answer).bind next

instance : Monad (Coroutine Call Answer Thrown) where
  pure := done
  bind := bind

/-- Make one call. -/
def call (call : Call) : Coroutine Call Answer Thrown (Answer call) := suspend call done

/-- Change what is thrown. -/
def mapThrown {Rethrown : Type} (change : Thrown → Rethrown) :
    Coroutine Call Answer Thrown Result → Coroutine Call Answer Rethrown Result
  | done result => done result
  | raise thrown => raise (change thrown)
  | suspend call resume => suspend call fun answer => (resume answer).mapThrown change

/-- Run a coroutine to its end and catch what it throws. -/
def attempt : Coroutine Call Answer Thrown Result →
    Coroutine Call Answer Thrown (Except Thrown Result)
  | done result => done (.ok result)
  | raise thrown => done (.error thrown)
  | suspend call resume => suspend call fun answer => (resume answer).attempt

end Coroutine

/-- The two sides of a call. -/
structure Contract (Call : Type) (Answer : Call → Type) (State : Type) where
  /-- What must hold when the call is made. -/
  requires : State → Call → Prop
  /-- Which answers may come back. -/
  answers : State → (call : Call) → Answer call → Prop
  /-- The state after the answer. -/
  next : State → (call : Call) → Answer call → State

namespace Coroutine

variable {Call : Type} {Answer : Call → Type} {Thrown Result Next State : Type}
  {contract : Contract Call Answer State}

/-- From the state on, the coroutine makes only calls it may make, and ends in a
state that satisfies the postcondition of its result. -/
def Meets (contract : Contract Call Answer State) (post : Except Thrown Result → State → Prop) :
    Coroutine Call Answer Thrown Result → State → Prop
  | done result, state => post (.ok result) state
  | raise thrown, state => post (.error thrown) state
  | suspend call resume, state => contract.requires state call ∧
      ∀ answer, contract.answers state call answer →
        (resume answer).Meets contract post (contract.next state call answer)

/-- What follows a coroutine: the next one after a result, nothing after a throw. -/
def Following (contract : Contract Call Answer State)
    (next : Result → Coroutine Call Answer Thrown Next) (post : Except Thrown Next → State → Prop) :
    Except Thrown Result → State → Prop
  | .ok result, state => (next result).Meets contract post state
  | .error thrown, state => post (.error thrown) state

/-- A weaker postcondition is met as well. -/
theorem Meets.mono {strong weak : Except Thrown Result → State → Prop}
    {program : Coroutine Call Answer Thrown Result} {state : State}
    (met : program.Meets contract strong state)
    (weaker : ∀ outcome final, strong outcome final → weak outcome final) :
    program.Meets contract weak state := by
  induction program generalizing state with
  | done result => exact weaker _ _ met
  | raise thrown => exact weaker _ _ met
  | suspend call resume ih =>
      exact ⟨met.1, fun answer possible => ih answer (met.2 answer possible)⟩

/-- Postconditions that were met separately are met together. -/
theorem Meets.and {left right : Except Thrown Result → State → Prop}
    {program : Coroutine Call Answer Thrown Result} {state : State}
    (first : program.Meets contract left state) (second : program.Meets contract right state) :
    program.Meets contract (fun outcome final => left outcome final ∧ right outcome final) state := by
  induction program generalizing state with
  | done result => exact ⟨first, second⟩
  | raise thrown => exact ⟨first, second⟩
  | suspend call resume ih =>
      exact ⟨first.1, fun answer possible =>
        ih answer (first.2 answer possible) (second.2 answer possible)⟩

/-- Sequential composition. -/
theorem meets_bind {program : Coroutine Call Answer Thrown Result}
    {next : Result → Coroutine Call Answer Thrown Next} {post : Except Thrown Next → State → Prop}
    {state : State} :
    (program >>= next).Meets contract post state ↔
      program.Meets contract (Following contract next post) state := by
  induction program generalizing state with
  | done result => exact Iff.rfl
  | raise thrown => exact Iff.rfl
  | suspend call resume ih =>
      refine and_congr_right fun _ => forall_congr' fun answer => imp_congr_right fun _ => ?_
      exact ih answer

/-- A finished coroutine. -/
theorem meets_pure {post : Except Thrown Result → State → Prop} {result : Result} {state : State} :
    (pure result : Coroutine Call Answer Thrown Result).Meets contract post state ↔
      post (.ok result) state := Iff.rfl

/-- A caught throw is a result. -/
theorem meets_attempt {program : Coroutine Call Answer Thrown Result}
    {post : Except Thrown (Except Thrown Result) → State → Prop} {state : State} :
    program.attempt.Meets contract post state ↔
      program.Meets contract (fun outcome => post (.ok outcome)) state := by
  induction program generalizing state with
  | done result => exact Iff.rfl
  | raise thrown => exact Iff.rfl
  | suspend call resume ih =>
      refine and_congr_right fun _ => forall_congr' fun answer => imp_congr_right fun _ => ?_
      exact ih answer

/-- A changed throw. -/
theorem meets_mapThrown {Rethrown : Type} {change : Thrown → Rethrown}
    {program : Coroutine Call Answer Thrown Result}
    {post : Except Rethrown Result → State → Prop} {state : State} :
    (program.mapThrown change).Meets contract post state ↔
      program.Meets contract (fun outcome => post (outcome.mapError change)) state := by
  induction program generalizing state with
  | done result => exact Iff.rfl
  | raise thrown => exact Iff.rfl
  | suspend call resume ih =>
      refine and_congr_right fun _ => forall_congr' fun answer => imp_congr_right fun _ => ?_
      exact ih answer

/-- The rule of sequential composition with the first postcondition spelled out. -/
theorem Meets.bind {program : Coroutine Call Answer Thrown Result}
    {next : Result → Coroutine Call Answer Thrown Next} {post : Except Thrown Next → State → Prop}
    {middle : Except Thrown Result → State → Prop} {state : State}
    (first : program.Meets contract middle state)
    (returned : ∀ result final, middle (.ok result) final → (next result).Meets contract post final)
    (thrown : ∀ error final, middle (.error error) final → post (.error error) final) :
    (program >>= next).Meets contract post state := by
  refine meets_bind.mpr (first.mono fun outcome final holds => ?_)
  cases outcome with
  | ok result => exact returned result final holds
  | error error => exact thrown error final holds

/-- A call and what follows its answer. -/
theorem Meets.call {made : Call} {next : Answer made → Coroutine Call Answer Thrown Next}
    {post : Except Thrown Next → State → Prop} {state : State}
    (permitted : contract.requires state made)
    (answered : ∀ answer, contract.answers state made answer →
      (next answer).Meets contract post (contract.next state made answer)) :
    (Coroutine.call made >>= next).Meets contract post state :=
  meets_bind.mpr ⟨permitted, answered⟩

/-- A caught coroutine and what follows its outcome. -/
theorem Meets.attempt {program : Coroutine Call Answer Thrown Result}
    {next : Except Thrown Result → Coroutine Call Answer Thrown Next}
    {post : Except Thrown Next → State → Prop} {middle : Except Thrown Result → State → Prop}
    {state : State} (tried : program.Meets contract middle state)
    (ended : ∀ outcome final, middle outcome final → (next outcome).Meets contract post final) :
    (program.attempt >>= next).Meets contract post state := by
  refine meets_bind.mpr (meets_attempt.mpr (tried.mono fun outcome final holds => ?_))
  exact ended outcome final holds

/-! ## The calls of a coroutine -/

section Makes

variable {allowed : Call → Prop} {returns : Result → Prop}

/-- Whatever it is answered, a coroutine makes only allowed calls, and what it
returns satisfies the condition. -/
def Makes (allowed : Call → Prop) (returns : Result → Prop) : Coroutine Call Answer Thrown Result → Prop
  | done result => returns result
  | raise _ => True
  | suspend call resume => allowed call ∧ ∀ answer, (resume answer).Makes allowed returns

theorem Makes.mono {weak : Result → Prop} {program : Coroutine Call Answer Thrown Result}
    (makes : program.Makes allowed returns) (weaker : ∀ result, returns result → weak result) :
    program.Makes allowed weak := by
  induction program with
  | done result => exact weaker result makes
  | raise thrown => trivial
  | suspend call resume ih => exact ⟨makes.1, fun answer => ih answer (makes.2 answer)⟩

theorem Makes.bind {last : Next → Prop} {program : Coroutine Call Answer Thrown Result}
    {next : Result → Coroutine Call Answer Thrown Next} (first : program.Makes allowed returns)
    (second : ∀ result, returns result → (next result).Makes allowed last) :
    (program >>= next).Makes allowed last := by
  induction program with
  | done result => exact second result first
  | raise thrown => trivial
  | suspend call resume ih => exact ⟨first.1, fun answer => ih answer (first.2 answer)⟩

/-- A call and what follows its answer. -/
theorem Makes.call {made : Call} {last : Next → Prop} {next : Answer made → Coroutine Call Answer Thrown Next}
    (may : allowed made) (answered : ∀ answer, (next answer).Makes allowed last) :
    (Coroutine.call made >>= next).Makes allowed last := ⟨may, answered⟩

theorem Makes.attempt {program : Coroutine Call Answer Thrown Result} (makes : program.Makes allowed returns) :
    program.attempt.Makes allowed fun _ => True := by
  induction program with
  | done result => trivial
  | raise thrown => trivial
  | suspend call resume ih => exact ⟨makes.1, fun answer => ih answer (makes.2 answer)⟩

theorem Makes.mapThrown {Rethrown : Type} {change : Thrown → Rethrown}
    {program : Coroutine Call Answer Thrown Result} (makes : program.Makes allowed returns) :
    (program.mapThrown change).Makes allowed returns := by
  induction program with
  | done result => exact makes
  | raise thrown => trivial
  | suspend call resume ih => exact ⟨makes.1, fun answer => ih answer (makes.2 answer)⟩

/-- What every allowed call keeps, a coroutine that makes no others keeps. -/
theorem Makes.meets {holds : State → Prop} {program : Coroutine Call Answer Thrown Result}
    (makes : program.Makes allowed returns)
    (requires : ∀ state call, allowed call → holds state → contract.requires state call)
    (kept : ∀ state call answer, allowed call → contract.answers state call answer → holds state →
      holds (contract.next state call answer)) {state : State} (here : holds state) :
    program.Meets contract (fun outcome final => holds final ∧ ∀ result, outcome = .ok result → returns result)
      state := by
  induction program generalizing state with
  | done result =>
      refine ⟨here, fun other same => ?_⟩
      obtain rfl := Except.ok.inj same
      exact makes
  | raise thrown => exact ⟨here, fun _ wrong => nomatch wrong⟩
  | suspend call resume ih =>
      exact ⟨requires state call makes.1 here, fun answer possible =>
        ih answer (makes.2 answer) (kept state call answer makes.1 possible here)⟩

end Makes

end Coroutine

end SearchEngine.Lib
