import SearchEngine.Lib.Machine

/-!
# Delayed events

`PeriodicTaskManager` keeps a queue of delayed events. A tick reads the clock once
and takes events from the front: one whose time has not come, or whose condition
answers false, goes to the back and ends the tick; one whose action throws goes to
the back until it has failed twenty times. Actions and conditions are functions of
everything outside the manager, the `World`; an exception is an `.error`.
-/

namespace SearchEngine.Scheduler

/-- `std::chrono::seconds(5)` in the nanoseconds of the steady clock. -/
def fiveSeconds : Int := 5 * 10 ^ 9

variable {World : Type}

/-- The event as `addDelayedEvent` takes it; an empty `condition` is `none`. -/
structure DelayedEvent (World : Type) where
  action : World → Except Unit Unit × World
  executeAfter : Int
  condition : Option (World → Except Unit Bool × World) := none
  count : Int := 0

/-- `!evt.condition || evt.condition()`. -/
def DelayedEvent.askCondition (event : DelayedEvent World) (world : World) :
    Except Unit Bool × World :=
  match event.condition with
  | none => (.ok true, world)
  | some condition => condition world

/-- An event in the queue. `number` counts the accepted calls of `addDelayedEvent`; the
code does not keep it, and no decision below reads it. -/
structure Accepted (World : Type) where
  number : Nat
  event : DelayedEvent World

/-- An action that was run: the event as it stood, the time the tick had read, and the
world its condition was asked in. -/
structure Attempt (World : Type) where
  number : Nat
  event : DelayedEvent World
  now : Int
  world : World

/-- What became of the event a pass of the loop took from the front. -/
inductive Happening (World : Type) where
  | notYet (number : Nat)
  | held (number : Nat)
  | conditionThrew (number : Nat)
  | succeeded (attempt : Attempt World)
  | retried (attempt : Attempt World)
  | gaveUp (attempt : Attempt World)

/-- The loop goes on, `break`s, or is left by an exception. -/
inductive Control where
  | goOn
  | stop
  | leave
  deriving DecidableEq, Repr

/-- One pass of the loop. -/
structure Pass (World : Type) where
  happening : Happening World
  world : World
  queue : List (Accepted World)
  control : Control

/-- `evt.execute_after = now + std::chrono::seconds(5)`. -/
def Accepted.postponed (item : Accepted World) (now : Int) : Accepted World :=
  { item with event := { item.event with executeAfter := now + fiveSeconds } }

/-- `evt.count++`. -/
def Accepted.failedOnce (item : Accepted World) : Accepted World :=
  { item with event := { item.event with count := item.event.count + 1 } }

/-- The body of the loop, for the event taken from the front and the queue behind it. -/
def pass (now : Int) (world : World) (item : Accepted World) (rest : List (Accepted World)) :
    Pass World :=
  if now < item.event.executeAfter then
    ⟨.notYet item.number, world, rest ++ [item], .stop⟩
  else
    match item.event.askCondition world with
    -- Nothing catches here: the event is no longer in the queue and is destroyed.
    | (.error _, after) => ⟨.conditionThrew item.number, after, rest, .leave⟩
    | (.ok false, after) => ⟨.held item.number, after, rest ++ [item.postponed now], .stop⟩
    | (.ok true, middle) =>
        let attempt : Attempt World := ⟨item.number, item.event, now, world⟩
        match item.event.action middle with
        | (.ok _, after) => ⟨.succeeded attempt, after, rest, .goOn⟩
        | (.error _, after) =>
            if item.event.count + 1 < 20 then
              ⟨.retried attempt, after, rest ++ [item.failedOnce], .goOn⟩
            else
              ⟨.gaveUp attempt, after, rest, .goOn⟩

/-- A finished tick; `threw` is an exception that reached the caller. -/
structure Tick (World : Type) where
  log : List (Happening World)
  world : World
  queue : List (Accepted World)
  threw : Bool

/-- `while (!delayedEvents.empty())`, for at most `fuel` passes. -/
def tickLoop (now : Int) : Nat → World → List (Accepted World) → Option (Tick World)
  | 0, _, _ => none
  | _ + 1, world, [] => some ⟨[], world, [], false⟩
  | fuel + 1, world, item :: rest =>
      let passed := pass now world item rest
      match passed.control with
      | .goOn => (tickLoop now fuel passed.world passed.queue).map fun tick =>
          { tick with log := passed.happening :: tick.log }
      | .stop => some ⟨[passed.happening], passed.world, passed.queue, false⟩
      | .leave => some ⟨[passed.happening], passed.world, passed.queue, true⟩

/-- How often an event can still be attempted; the first attempt is always made. -/
def Accepted.attemptsLeft (item : Accepted World) : Nat := max 1 (20 - item.event.count).toNat

/-- How many passes of one tick the queue allows at most. -/
def budget : List (Accepted World) → Nat
  | [] => 0
  | item :: rest => item.attemptsLeft + budget rest

/-- `scheduler_tick`. -/
def schedulerTick (now : Int) (world : World) (queue : List (Accepted World)) :
    Option (Tick World) :=
  tickLoop now (budget queue + 1) world queue

/-- Everything one pass can do. -/
inductive Passed (now : Int) (world : World) (item : Accepted World) (rest : List (Accepted World)) :
    Pass World → Prop where
  | notYet (early : now < item.event.executeAfter) :
      Passed now world item rest ⟨.notYet item.number, world, rest ++ [item], .stop⟩
  | conditionThrew {error : Unit} {after : World} (due : item.event.executeAfter ≤ now)
      (asked : item.event.askCondition world = (.error error, after)) :
      Passed now world item rest ⟨.conditionThrew item.number, after, rest, .leave⟩
  | held {after : World} (due : item.event.executeAfter ≤ now)
      (asked : item.event.askCondition world = (.ok false, after)) :
      Passed now world item rest ⟨.held item.number, after, rest ++ [item.postponed now], .stop⟩
  | succeeded {middle after : World} (due : item.event.executeAfter ≤ now)
      (asked : item.event.askCondition world = (.ok true, middle)) :
      Passed now world item rest
        ⟨.succeeded ⟨item.number, item.event, now, world⟩, after, rest, .goOn⟩
  | retried {middle after : World} (due : item.event.executeAfter ≤ now)
      (asked : item.event.askCondition world = (.ok true, middle))
      (left : item.event.count + 1 < 20) :
      Passed now world item rest
        ⟨.retried ⟨item.number, item.event, now, world⟩, after, rest ++ [item.failedOnce], .goOn⟩
  | gaveUp {middle after : World} (due : item.event.executeAfter ≤ now)
      (asked : item.event.askCondition world = (.ok true, middle))
      (spent : 20 ≤ item.event.count + 1) :
      Passed now world item rest
        ⟨.gaveUp ⟨item.number, item.event, now, world⟩, after, rest, .goOn⟩

theorem pass_passed (now : Int) (world : World) (item : Accepted World)
    (rest : List (Accepted World)) :
    Passed now world item rest (pass now world item rest) := by
  unfold pass
  split
  case isTrue early => exact .notYet early
  case isFalse late =>
    have due : item.event.executeAfter ≤ now := Int.not_lt.mp late
    split
    case h_1 asked => exact .conditionThrew due asked
    case h_2 asked => exact .held due asked
    case h_3 asked =>
      dsimp only
      split
      case h_1 => exact .succeeded due asked
      case h_2 =>
        split
        case isTrue left => exact .retried due asked left
        case isFalse spent => exact .gaveUp due asked (Int.not_lt.mp spent)

theorem budget_append (front back : List (Accepted World)) :
    budget (front ++ back) = budget front + budget back := by
  induction front with
  | nil => simp [budget]
  | cons item front ih => simp only [List.cons_append, budget, ih]; omega

/-- A pass after which the loop goes on has used up an attempt. -/
theorem budget_pass (now : Int) (world : World) (item : Accepted World)
    (rest : List (Accepted World))
    (goesOn : (pass now world item rest).control = .goOn) :
    budget (pass now world item rest).queue < budget (item :: rest) := by
  have passed := pass_passed now world item rest
  revert passed goesOn
  generalize pass now world item rest = result
  intro goesOn passed
  cases passed with
  | notYet early => cases goesOn
  | conditionThrew due asked => cases goesOn
  | held due asked => cases goesOn
  | succeeded due asked => simp only [budget, Accepted.attemptsLeft]; omega
  | retried due asked left =>
      simp only [budget_append, budget, Accepted.attemptsLeft, Accepted.failedOnce]
      omega
  | gaveUp due asked spent => simp only [budget, Accepted.attemptsLeft]; omega

/-- The loop ends within the passes its queue allows. -/
theorem tickLoop_isSome (now : Int) (fuel : Nat) (world : World) (queue : List (Accepted World))
    (enough : budget queue < fuel) : (tickLoop now fuel world queue).isSome := by
  induction fuel generalizing world queue with
  | zero => omega
  | succ fuel ih =>
      cases queue with
      | nil => rfl
      | cons item rest =>
          unfold tickLoop
          dsimp only
          split
          case h_1 goesOn =>
            have less := budget_pass now world item rest goesOn
            rw [Option.isSome_map]
            apply ih
            omega
          case h_2 => rfl
          case h_3 => rfl

theorem schedulerTick_isSome (now : Int) (world : World) (queue : List (Accepted World)) :
    (schedulerTick now world queue).isSome :=
  tickLoop_isSome now _ world queue (Nat.lt_succ_self _)

/-- What every pass keeps, every finished tick keeps. `step` speaks of what was logged so
far, the world and the queue. -/
theorem tickLoop_induct {now : Int}
    {invariant : List (Happening World) → List (Accepted World) → Prop}
    (kept : ∀ log world item rest, invariant log (item :: rest) →
      invariant (log ++ [(pass now world item rest).happening]) (pass now world item rest).queue)
    {fuel : Nat} {world : World} {queue : List (Accepted World)} {tick : Tick World}
    (ticked : tickLoop now fuel world queue = some tick) (log : List (Happening World))
    (initial : invariant log queue) : invariant (log ++ tick.log) tick.queue := by
  induction fuel generalizing world queue tick log with
  | zero => cases ticked
  | succ fuel ih =>
      cases queue with
      | nil =>
          obtain rfl := Option.some.inj ticked
          simpa using initial
      | cons item rest =>
          have next := kept log world item rest initial
          unfold tickLoop at ticked
          dsimp only at ticked
          split at ticked
          case h_1 =>
            obtain ⟨later, ranOn, rfl⟩ := Option.map_eq_some_iff.mp ticked
            have final := ih ranOn _ next
            simpa only [List.append_assoc, List.singleton_append] using final
          case h_2 =>
            obtain rfl := Option.some.inj ticked
            exact next
          case h_3 =>
            obtain rfl := Option.some.inj ticked
            exact next

/-- `PeriodicTaskManager` and what surrounds it. `accepted` and `log` are history: the
accepted events in order, and what became of each event taken from the front. -/
structure Manager (World : Type) where
  world : World
  clock : Int
  stopping : Bool := false
  delayedEvents : List (Accepted World) := []
  accepted : List (DelayedEvent World) := []
  log : List (Happening World) := []

/-- `addDelayedEvent`. -/
def addDelayedEvent (manager : Manager World) (event : DelayedEvent World) : Manager World :=
  if manager.stopping then manager
  else
    { manager with
      delayedEvents := manager.delayedEvents ++ [⟨manager.accepted.length, event⟩]
      accepted := manager.accepted ++ [event] }

/-- `tickDelayedEvents`. -/
def tickDelayedEvents (manager : Manager World) : Option (Manager World) :=
  if manager.stopping then some manager
  else
    (schedulerTick manager.clock manager.world manager.delayedEvents).map fun tick =>
      { manager with
        world := tick.world
        delayedEvents := tick.queue
        log := manager.log ++ tick.log }

/-- Calls under the mutex, and what happens between them: time passes and the world changes. -/
inductive Call (World : Type) where
  | add (event : DelayedEvent World)
  | tick
  | elapse (world : World) (time : Nat)

def schedulerMachine (World : Type) : Lib.Machine (Manager World) (Call World) where
  step manager
    | .add event => some (addDelayedEvent manager event)
    | .tick => tickDelayedEvents manager
    | .elapse world time => some { manager with world := world, clock := manager.clock + time }

end SearchEngine.Scheduler
