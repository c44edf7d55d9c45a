import SearchEngine.Lib.Coroutine
import SearchEngine.Lib.Machine

/-!
# Programs that may stop at any call

Commands run one after another on a state that outlives them. A command is a
coroutine; each of its calls is answered by a handler and a free choice, and the
command may stop between any two calls, which leaves the state as it is. If every
program meets the contract of its crash invariant, what the invariants say holds
in every state of every run: `throughout_of_meets`.
-/

namespace SearchEngine.Lib

/-- How calls are answered; the choice stands for what the program cannot know. -/
structure Handler (Call : Type) (Answer : Call → Type) (State Choice : Type) where
  respond : State → (call : Call) → Choice → Answer call
  next : State → (call : Call) → Answer call → State

namespace Handler

variable {Call : Type} {Answer : Call → Type} {State Choice : Type}

/-- Every call is made in a safe state and answered by a permitted choice. -/
def contract (handler : Handler Call Answer State Choice) (permitted : State → Call → Choice → Prop)
    (safe : State → Prop) : Contract Call Answer State where
  requires state _ := safe state
  answers state call answer := ∃ choice, permitted state call choice ∧ answer = handler.respond state call choice
  next := handler.next

end Handler

/-- How a command ended. -/
inductive Ending (Thrown Result : Type) where
  | returned (result : Result)
  | threw (thrown : Thrown)
  | stopped
deriving DecidableEq

/-- The state, the program that runs, and how the commands before it ended, the
latest first. -/
structure Invocations (Command Call : Type) (Answer : Call → Type) (Thrown Result State : Type) where
  state : State
  running : Option (Command × Coroutine Call Answer Thrown Result)
  history : List (Command × Ending Thrown Result)

/-- A step of a run. -/
inductive Invoke (Command Choice : Type) where
  | start (command : Command)
  | proceed (choice : Choice)
  | stop

namespace Invocations

variable {Command Call : Type} {Answer : Call → Type} {Thrown Result State Choice : Type}

def initial (state : State) : Invocations Command Call Answer Thrown Result State := ⟨state, none, []⟩

/-- One step. A command starts where it may; a finished program ends its command. -/
def step (handler : Handler Call Answer State Choice)
    (startable : List (Command × Ending Thrown Result) → Command → Bool)
    (program : Command → Coroutine Call Answer Thrown Result)
    (s : Invocations Command Call Answer Thrown Result State) :
    Invoke Command Choice → Option (Invocations Command Call Answer Thrown Result State)
  | .start command =>
      match s.running with
      | none =>
          if startable s.history command then some { s with running := some (command, program command) }
          else none
      | some _ => none
  | .proceed choice =>
      match s.running with
      | none => none
      | some (command, .done result) =>
          some { s with running := none, history := (command, .returned result) :: s.history }
      | some (command, .raise thrown) =>
          some { s with running := none, history := (command, .threw thrown) :: s.history }
      | some (command, .suspend call resume) =>
          let answer := handler.respond s.state call choice
          some { s with state := handler.next s.state call answer, running := some (command, resume answer) }
  | .stop =>
      match s.running with
      | none => none
      | some (command, _) => some { s with running := none, history := (command, .stopped) :: s.history }

/-- The machine of the commands. -/
def machine (handler : Handler Call Answer State Choice)
    (startable : List (Command × Ending Thrown Result) → Command → Bool)
    (program : Command → Coroutine Call Answer Thrown Result) :
    Machine (Invocations Command Call Answer Thrown Result State) (Invoke Command Choice) where
  step := step handler startable program

/-- Calls are answered as permitted. -/
def Permits (permitted : State → Call → Choice → Prop)
    (s : Invocations Command Call Answer Thrown Result State) : Invoke Command Choice → Prop
  | .proceed choice =>
      match s.running with
      | some (_, .suspend call _) => permitted s.state call choice
      | _ => True
  | .start _ | .stop => True

instance (permitted : State → Call → Choice → Prop)
    [∀ state call choice, Decidable (permitted state call choice)]
    (s : Invocations Command Call Answer Thrown Result State) (action : Invoke Command Choice) :
    Decidable (Permits permitted s action) :=
  match action with
  | .start _ | .stop => isTrue trivial
  | .proceed choice =>
      match running : s.running with
      | some (_, .suspend call _) =>
          decidable_of_iff (permitted s.state call choice) (by simp [Permits, running])
      | some (_, .done _) | some (_, .raise _) | none => isTrue (by simp [Permits, running])

/-- Calls are answered as permitted, and a command stops only where it may. -/
def PermitsStops (permitted : State → Call → Choice → Prop) (stoppable : State → Prop)
    (s : Invocations Command Call Answer Thrown Result State) : Invoke Command Choice → Prop
  | .stop => stoppable s.state
  | action => Permits permitted s action

instance (permitted : State → Call → Choice → Prop) (stoppable : State → Prop)
    [∀ state call choice, Decidable (permitted state call choice)] [∀ state, Decidable (stoppable state)]
    (s : Invocations Command Call Answer Thrown Result State) (action : Invoke Command Choice) :
    Decidable (PermitsStops permitted stoppable s action) :=
  match action with
  | .stop => inferInstanceAs (Decidable (stoppable s.state))
  | .start command => inferInstanceAs (Decidable (Permits permitted s (.start command)))
  | .proceed choice => inferInstanceAs (Decidable (Permits permitted s (.proceed choice)))

/-- How an outcome enters the history. -/
def ending : Except Thrown Result → Ending Thrown Result
  | .ok result => .returned result
  | .error thrown => .threw thrown

/-- What holds between commands, what holds while one runs, and that the programs
keep both. -/
structure Keeps (handler : Handler Call Answer State Choice)
    (program : Command → Coroutine Call Answer Thrown Result)
    (startable : List (Command × Ending Thrown Result) → Command → Bool)
    (permitted : State → Call → Choice → Prop)
    (idle : List (Command × Ending Thrown Result) → State → Prop)
    (during : Command → List (Command × Ending Thrown Result) → State → Prop) : Prop where
  meets : ∀ command history state, startable history command = true → idle history state →
    (program command).Meets (handler.contract permitted (during command history))
      (fun outcome final => idle ((command, ending outcome) :: history) final ∧
        during command history final) state
  stopped : ∀ command history state, startable history command = true →
    during command history state → idle ((command, .stopped) :: history) state

/-- The same where a command may stop only in some states. -/
structure KeepsStops (handler : Handler Call Answer State Choice)
    (program : Command → Coroutine Call Answer Thrown Result)
    (startable : List (Command × Ending Thrown Result) → Command → Bool)
    (permitted : State → Call → Choice → Prop) (stoppable : State → Prop)
    (idle : List (Command × Ending Thrown Result) → State → Prop)
    (during : Command → List (Command × Ending Thrown Result) → State → Prop) : Prop where
  meets : ∀ command history state, startable history command = true → idle history state →
    (program command).Meets (handler.contract permitted (during command history))
      (fun outcome final => idle ((command, ending outcome) :: history) final ∧
        during command history final) state
  stopped : ∀ command history state, startable history command = true →
    during command history state → stoppable state → idle ((command, .stopped) :: history) state

variable {handler : Handler Call Answer State Choice}
  {program : Command → Coroutine Call Answer Thrown Result}
  {startable : List (Command × Ending Thrown Result) → Command → Bool}
  {permitted : State → Call → Choice → Prop} {stoppable : State → Prop}
  {idle : List (Command × Ending Thrown Result) → State → Prop}
  {during : Command → List (Command × Ending Thrown Result) → State → Prop}

/-- The invariant of the runs. -/
def Invariant (handler : Handler Call Answer State Choice)
    (startable : List (Command × Ending Thrown Result) → Command → Bool)
    (permitted : State → Call → Choice → Prop)
    (idle : List (Command × Ending Thrown Result) → State → Prop)
    (during : Command → List (Command × Ending Thrown Result) → State → Prop)
    (s : Invocations Command Call Answer Thrown Result State) : Prop :=
  match s.running with
  | none => idle s.history s.state
  | some (command, rest) => startable s.history command = true ∧
      rest.Meets (handler.contract permitted (during command s.history))
        (fun outcome final => idle ((command, ending outcome) :: s.history) final ∧
          during command s.history final) s.state

/-- Wherever a program stands, what holds while it runs holds. -/
theorem during_of_meets {command : Command} {history : List (Command × Ending Thrown Result)}
    {rest : Coroutine Call Answer Thrown Result} {state : State}
    (met : rest.Meets (handler.contract permitted (during command history))
      (fun outcome final => idle ((command, ending outcome) :: history) final ∧
        during command history final) state) : during command history state := by
  cases rest with
  | done result => exact met.2
  | raise thrown => exact met.2
  | suspend call resume => exact met.1

theorem Invariant.during_of_running {s : Invocations Command Call Answer Thrown Result State}
    {command : Command} {rest : Coroutine Call Answer Thrown Result}
    (invariant : Invariant handler startable permitted idle during s) (running : s.running = some (command, rest)) :
    during command s.history s.state := by
  rw [Invariant, running] at invariant
  exact during_of_meets invariant.2

theorem Invariant.step (keeps : KeepsStops handler program startable permitted stoppable idle during)
    {s next : Invocations Command Call Answer Thrown Result State} {action : Invoke Command Choice}
    (invariant : Invariant handler startable permitted idle during s) (allowed : PermitsStops permitted stoppable s action)
    (stepped : (machine handler startable program).step s action = some next) :
    Invariant handler startable permitted idle during next := by
  obtain ⟨state, running, history⟩ := s
  cases action with
  | start command =>
      cases running with
      | some current => cases stepped
      | none =>
          change (if startable history command then _ else none) = _ at stepped
          split at stepped
          · rename_i may_start
            obtain rfl := Option.some.inj stepped
            exact ⟨may_start, keeps.meets command history state may_start invariant⟩
          · cases stepped
  | proceed choice =>
      cases running with
      | none => cases stepped
      | some current =>
          obtain ⟨command, rest⟩ := current
          cases rest with
          | done result =>
              obtain rfl := Option.some.inj stepped
              exact invariant.2.1
          | raise thrown =>
              obtain rfl := Option.some.inj stepped
              exact invariant.2.1
          | suspend call resume =>
              obtain rfl := Option.some.inj stepped
              exact ⟨invariant.1, invariant.2.2 _ ⟨choice, allowed, rfl⟩⟩
  | stop =>
      cases running with
      | none => cases stepped
      | some current =>
          obtain ⟨command, rest⟩ := current
          obtain rfl := Option.some.inj stepped
          exact keeps.stopped command history state invariant.1 (during_of_meets invariant.2) allowed

/-- What the programs keep holds in every state of every run with permitted answers and stops. -/
theorem throughout_of_keepsStops (keeps : KeepsStops handler program startable permitted stoppable idle during)
    {state : State} (fresh : idle [] state) {steps : List (Invoke Command Choice)}
    (allowed : (machine handler startable program).Conforms (PermitsStops permitted stoppable)
      (initial state) steps)
    {holds : Invocations Command Call Answer Thrown Result State → Prop}
    (implies : ∀ s, Invariant handler startable permitted idle during s → holds s) :
    (machine handler startable program).Throughout holds (initial state) steps :=
  Machine.throughout_of_conforms implies
    (fun _ _ _ invariant permitted stepped => invariant.step keeps permitted stepped) fresh allowed

/-- Where a command may stop anywhere, every stop is permitted. -/
theorem Permits.stops {s : Invocations Command Call Answer Thrown Result State}
    {action : Invoke Command Choice} (allowed : Permits permitted s action) :
    PermitsStops permitted (fun _ => True) s action := by
  cases action with
  | start command => exact allowed
  | proceed choice => exact allowed
  | stop => trivial

/-- What the programs keep holds in every state of every run with permitted answers. -/
theorem throughout_of_meets (keeps : Keeps handler program startable permitted idle during)
    {state : State} (fresh : idle [] state) {steps : List (Invoke Command Choice)}
    (allowed : (machine handler startable program).Conforms (Permits permitted) (initial state) steps)
    {holds : Invocations Command Call Answer Thrown Result State → Prop}
    (implies : ∀ s, Invariant handler startable permitted idle during s → holds s) :
    (machine handler startable program).Throughout holds (initial state) steps :=
  throughout_of_keepsStops
    ⟨keeps.meets, fun command history state start during _ => keeps.stopped command history state start during⟩
    fresh (allowed.mono fun _ _ permits => permits.stops) implies

end Invocations

namespace Coroutine

variable {Call : Type} {Answer : Call → Type} {Thrown Rethrown Result State Choice : Type}

/-- Run a program to its end with a choice made in each state. -/
def play (handler : Handler Call Answer State Choice) (choose : State → Choice) :
    Coroutine Call Answer Thrown Result → State → Except Thrown Result × State
  | done result, state => (.ok result, state)
  | raise thrown, state => (.error thrown, state)
  | suspend call resume, state =>
      let answer := handler.respond state call (choose state)
      (resume answer).play handler choose (handler.next state call answer)

variable {Next : Type} {handler : Handler Call Answer State Choice} {choose : State → Choice}

/-- Sequential composition, in the run of one choice in each state. -/
theorem play_bind (program : Coroutine Call Answer Thrown Result)
    (next : Result → Coroutine Call Answer Thrown Next) (state : State) :
    (program >>= next).play handler choose state =
      match program.play handler choose state with
      | (.ok result, after) => (next result).play handler choose after
      | (.error thrown, after) => (.error thrown, after) := by
  induction program generalizing state with
  | done result => rfl
  | raise thrown => rfl
  | suspend call resume ih => exact ih _ _

/-- A caught throw is a result. -/
theorem play_attempt (program : Coroutine Call Answer Thrown Result) (state : State) :
    program.attempt.play handler choose state =
      ((.ok (program.play handler choose state).1 : Except Thrown _), (program.play handler choose state).2) := by
  induction program generalizing state with
  | done result => rfl
  | raise thrown => rfl
  | suspend call resume ih => exact ih _ _

/-- A changed throw. -/
theorem play_mapThrown {change : Thrown → Rethrown} (program : Coroutine Call Answer Thrown Result)
    (state : State) : (program.mapThrown change).play handler choose state =
      ((program.play handler choose state).1.mapError change, (program.play handler choose state).2) := by
  induction program generalizing state with
  | done result => rfl
  | raise thrown => rfl
  | suspend call resume ih => exact ih _ _

/-- What follows a program that returned. -/
theorem play_bind_of_ok {program : Coroutine Call Answer Thrown Result}
    {next : Result → Coroutine Call Answer Thrown Next} {state after : State} {result : Result}
    (first : program.play handler choose state = (.ok result, after)) :
    (program >>= next).play handler choose state = (next result).play handler choose after := by
  rw [play_bind, first]

/-- Nothing follows a program that threw. -/
theorem play_bind_of_error {program : Coroutine Call Answer Thrown Result}
    {next : Result → Coroutine Call Answer Thrown Next} {state after : State} {thrown : Thrown}
    (first : program.play handler choose state = (.error thrown, after)) :
    (program >>= next).play handler choose state = (.error thrown, after) := by
  rw [play_bind, first]

/-- Fewer choices are met as well. -/
theorem Meets.permit {permitted fewer : State → Call → Choice → Prop} {safe : State → Prop}
    {post : Except Thrown Result → State → Prop} {program : Coroutine Call Answer Thrown Result} {state : State}
    (met : program.Meets (handler.contract permitted safe) post state)
    (subset : ∀ state call choice, fewer state call choice → permitted state call choice) :
    program.Meets (handler.contract fewer safe) post state := by
  induction program generalizing state with
  | done result => exact met
  | raise thrown => exact met
  | suspend call resume ih =>
      refine ⟨met.1, ?_⟩
      rintro answer ⟨choice, allowed, rfl⟩
      exact ih _ (met.2 _ ⟨choice, subset _ _ _ allowed, rfl⟩)

/-- Whatever a program meets under every permitted choice holds at the end of this run. -/
theorem Meets.of_play {permitted : State → Call → Choice → Prop} {safe : State → Prop}
    {post : Except Thrown Result → State → Prop} {program : Coroutine Call Answer Thrown Result} {state : State}
    (met : program.Meets (handler.contract permitted safe) post state)
    (allowed : ∀ state call, permitted state call (choose state)) :
    post (program.play handler choose state).1 (program.play handler choose state).2 := by
  induction program generalizing state with
  | done result => exact met
  | raise thrown => exact met
  | suspend call resume ih =>
      exact ih _ (met.2 _ ⟨choose state, allowed state call, rfl⟩)

end Coroutine

end SearchEngine.Lib
