import SearchEngine.Scheduler.DelayedEvents

/-!
# Runs of ticks

Every pass takes one event from the front, so an event is found once in the queue or
left it once: completed, given up, or dropped by a condition that threw. The counter in
the queue is the number of failed attempts in the log.
-/

namespace SearchEngine.Scheduler

variable {World : Type}

/-- The attempt a pass made. -/
def Happening.attempt? : Happening World → Option (Attempt World)
  | .succeeded attempt | .retried attempt | .gaveUp attempt => some attempt
  | _ => none

/-- The event a pass took from the front. -/
def Happening.number : Happening World → Nat
  | .notYet number | .held number | .conditionThrew number => number
  | .succeeded attempt | .retried attempt | .gaveUp attempt => attempt.number

/-- An attempt of `number` that succeeded. -/
def Happening.isSuccess (number : Nat) : Happening World → Bool
  | .succeeded attempt => attempt.number == number
  | _ => false

/-- An attempt of `number` that failed. -/
def Happening.isFailure (number : Nat) : Happening World → Bool
  | .retried attempt | .gaveUp attempt => attempt.number == number
  | _ => false

/-- `number` was given up. -/
def Happening.isGivenUp (number : Nat) : Happening World → Bool
  | .gaveUp attempt => attempt.number == number
  | _ => false

/-- The condition of `number` threw. -/
def Happening.isDrop (number : Nat) : Happening World → Bool
  | .conditionThrew dropped => dropped == number
  | _ => false

/-- The condition of `number` answered false or threw. -/
def Happening.isRefusal (number : Nat) : Happening World → Bool
  | .held refused | .conditionThrew refused => refused == number
  | _ => false

/-- How often `number` stands in the queue. -/
def copies (number : Nat) (queue : List (Accepted World)) : Nat :=
  queue.countP fun item => item.number == number

/-- How often an attempt of `number` succeeded. -/
def successes (number : Nat) (log : List (Happening World)) : Nat :=
  log.countP (Happening.isSuccess number)

/-- How often an attempt of `number` failed. -/
def failures (number : Nat) (log : List (Happening World)) : Nat :=
  log.countP (Happening.isFailure number)

/-- How often `number` was given up. -/
def givenUps (number : Nat) (log : List (Happening World)) : Nat :=
  log.countP (Happening.isGivenUp number)

/-- How often the condition of `number` threw. -/
def drops (number : Nat) (log : List (Happening World)) : Nat :=
  log.countP (Happening.isDrop number)

/-- In the queue once, never completed, and with attempts left. -/
structure IsQueued (manager : Manager World) (number : Nat) : Prop where
  queued : copies number manager.delayedEvents = 1
  notCompleted : successes number manager.log = 0
  trying : failures number manager.log < 20

/-- Completed by one successful action, and no longer in the queue. -/
structure IsCompleted (manager : Manager World) (number : Nat) : Prop where
  left : copies number manager.delayedEvents = 0
  completed : successes number manager.log = 1
  trying : failures number manager.log < 20

/-- Given up after twenty failed attempts, and no longer in the queue. -/
structure IsGivenUp (manager : Manager World) (number : Nat) : Prop where
  left : copies number manager.delayedEvents = 0
  notCompleted : successes number manager.log = 0
  spent : failures number manager.log = 20

/-- Every accepted event is queued, completed or given up; by their counts no two of
these hold together. -/
def Accounted (manager : Manager World) : Prop :=
  ∀ number < manager.accepted.length,
    IsQueued manager number ∨ IsCompleted manager number ∨ IsGivenUp manager number

/-- No condition that was asked threw. -/
def NoConditionThrew (log : List (Happening World)) : Prop :=
  ∀ number, Happening.conditionThrew number ∉ log

section Counts

variable (number : Nat) (log : List (Happening World)) (happening : Happening World)

theorem copies_append (front back : List (Accepted World)) :
    copies number (front ++ back) = copies number front + copies number back :=
  List.countP_append

theorem copies_cons (item : Accepted World) (rest : List (Accepted World)) :
    copies number (item :: rest) = copies number rest + if item.number = number then 1 else 0 := by
  simp [copies, List.countP_cons]

theorem copies_pos {item : Accepted World} {queue : List (Accepted World)} (queued : item ∈ queue) :
    0 < copies item.number queue :=
  List.countP_pos_iff.mpr ⟨item, queued, by simp⟩

/-- A list of one event's entries holds that event only. -/
theorem copies_of_number {item : Accepted World} {queue : List (Accepted World)}
    (same : ∀ other ∈ queue, other.number = item.number) :
    copies number queue = if item.number = number then queue.length else 0 := by
  induction queue with
  | nil => simp [copies]
  | cons other queue ih =>
      obtain ⟨here, behind⟩ := List.forall_mem_cons.mp same
      rw [copies_cons, ih behind, here]
      split <;> simp

theorem successes_concat : successes number (log ++ [happening]) =
    successes number log + if happening.isSuccess number then 1 else 0 := by
  simp [successes, List.countP_append, List.countP_singleton]

theorem failures_concat : failures number (log ++ [happening]) =
    failures number log + if happening.isFailure number then 1 else 0 := by
  simp [failures, List.countP_append, List.countP_singleton]

theorem givenUps_concat : givenUps number (log ++ [happening]) =
    givenUps number log + if happening.isGivenUp number then 1 else 0 := by
  simp [givenUps, List.countP_append, List.countP_singleton]

theorem drops_concat : drops number (log ++ [happening]) =
    drops number log + if happening.isDrop number then 1 else 0 := by
  simp [drops, List.countP_append, List.countP_singleton]

theorem noConditionThrew_iff : NoConditionThrew log ↔ ∀ number, drops number log = 0 := by
  have drop : ∀ number, drops number log = 0 ↔ Happening.conditionThrew number ∉ log := by
    intro number
    rw [drops, List.countP_eq_zero]
    constructor
    · intro none threw
      simpa [Happening.isDrop] using none _ threw
    · intro absent happening logged dropped
      cases happening with
      | conditionThrew other =>
          obtain rfl : other = number := by simpa [Happening.isDrop] using dropped
          exact absent logged
      | _ => cases dropped
  simp only [NoConditionThrew, drop]

end Counts

/-- The counters agree with the log, and every accepted event is in one place. -/
structure Kept (accepted : Nat) (log : List (Happening World)) (queue : List (Accepted World)) :
    Prop where
  once : ∀ number, copies number queue + successes number log + givenUps number log +
    drops number log = if number < accepted then 1 else 0
  counted : ∀ item ∈ queue, item.event.count = failures item.number log
  trying : ∀ number, givenUps number log = 0 → failures number log < 20
  spent : ∀ number, 0 < givenUps number log → failures number log = 20
  unseen : ∀ number, accepted ≤ number → failures number log = 0

/-- Every event behind the front has another number. -/
theorem Kept.number_ne {accepted : Nat} {log : List (Happening World)} {item : Accepted World}
    {rest : List (Accepted World)} (kept : Kept accepted log (item :: rest)) {other : Accepted World}
    (behind : other ∈ rest) : item.number ≠ other.number := by
  intro same
  have once := kept.once item.number
  have more := copies_pos behind
  rw [← same] at more
  simp only [copies_cons, if_true] at once
  split at once <;> omega

/-- The event at the front has been neither given up nor tried twenty times. -/
theorem Kept.front {accepted : Nat} {log : List (Happening World)} {item : Accepted World}
    {rest : List (Accepted World)} (kept : Kept accepted log (item :: rest)) :
    item.number < accepted ∧ givenUps item.number log = 0 ∧
      item.event.count = failures item.number log := by
  have once := kept.once item.number
  have counted := kept.counted item List.mem_cons_self
  simp only [copies_cons, if_true] at once
  split at once
  case isTrue known => exact ⟨known, by omega, counted⟩
  case isFalse => omega

/-- A pass that only touches the counts of the event it took, and puts `back` that event
or nothing. -/
theorem Kept.moved {accepted : Nat} {log log' : List (Happening World)} {item : Accepted World}
    {rest back : List (Accepted World)} (kept : Kept accepted log (item :: rest))
    {succeeded failed given dropped : Nat}
    (success : ∀ number, successes number log' =
      successes number log + if item.number = number then succeeded else 0)
    (failure : ∀ number, failures number log' =
      failures number log + if item.number = number then failed else 0)
    (givenUp : ∀ number, givenUps number log' =
      givenUps number log + if item.number = number then given else 0)
    (drop : ∀ number, drops number log' =
      drops number log + if item.number = number then dropped else 0)
    (returned : ∀ other ∈ back, other.number = item.number ∧
      other.event.count = item.event.count + failed)
    (one : back.length + succeeded + given + dropped = 1)
    (trying : given = 0 → item.event.count < 20 → item.event.count + failed < 20)
    (spent : 0 < given → item.event.count < 20 → item.event.count + failed = 20) :
    Kept accepted log' (rest ++ back) := by
  obtain ⟨known, notGivenUp, counted⟩ := kept.front
  have below := kept.trying item.number notGivenUp
  constructor
  · intro number
    have once := kept.once number
    rw [success, givenUp, drop, copies_append,
      copies_of_number number fun other other_mem => (returned other other_mem).1]
    rw [copies_cons] at once
    by_cases same : item.number = number
    · simp only [same, if_true] at once ⊢
      omega
    · simp only [same, if_false] at once ⊢
      omega
  · intro other queued
    rw [failure]
    obtain behind | put := List.mem_append.mp queued
    · rw [if_neg (kept.number_ne behind)]
      exact kept.counted other (List.mem_cons_of_mem _ behind)
    · obtain ⟨same, more⟩ := returned other put
      rw [same, if_pos rfl, more, counted]
      omega
  · intro number none
    rw [givenUp] at none
    rw [failure]
    by_cases same : item.number = number
    · subst same
      simp only [if_true] at none ⊢
      have := trying (by omega) (by omega)
      omega
    · simp only [same, if_false] at none ⊢
      exact kept.trying number none
  · intro number some
    rw [givenUp] at some
    rw [failure]
    by_cases same : item.number = number
    · subst same
      simp only [if_true] at some ⊢
      have := spent (by omega) (by omega)
      omega
    · simp only [same, if_false] at some ⊢
      exact kept.spent number some
  · intro number new
    have other : item.number ≠ number := by omega
    rw [failure, if_neg other]
    exact kept.unseen number new

theorem kept_pass {accepted : Nat} {now : Int} (log : List (Happening World)) (world : World)
    (item : Accepted World) (rest : List (Accepted World)) (kept : Kept accepted log (item :: rest)) :
    Kept accepted (log ++ [(pass now world item rest).happening])
      (pass now world item rest).queue := by
  have passed := pass_passed now world item rest
  revert passed
  generalize pass now world item rest = result
  intro passed
  cases passed with
  | notYet early =>
      apply @Kept.moved _ _ _ _ _ _ [item] kept 0 0 0 0 <;>
        simp [successes_concat, failures_concat, givenUps_concat, drops_concat, Happening.isSuccess,
          Happening.isFailure, Happening.isGivenUp, Happening.isDrop]
  | held due asked =>
      apply @Kept.moved _ _ _ _ _ _ [item.postponed now] kept 0 0 0 0 <;>
        simp [successes_concat, failures_concat, givenUps_concat, drops_concat, Happening.isSuccess,
          Happening.isFailure, Happening.isGivenUp, Happening.isDrop, Accepted.postponed]
  | conditionThrew due asked =>
      rw [← List.append_nil rest]
      apply @Kept.moved _ _ _ _ _ _ [] kept 0 0 0 1 <;>
        simp [successes_concat, failures_concat, givenUps_concat, drops_concat, Happening.isSuccess,
          Happening.isFailure, Happening.isGivenUp, Happening.isDrop]
  | succeeded due asked =>
      rw [← List.append_nil rest]
      apply @Kept.moved _ _ _ _ _ _ [] kept 1 0 0 0 <;>
        simp [successes_concat, failures_concat, givenUps_concat, drops_concat, Happening.isSuccess,
          Happening.isFailure, Happening.isGivenUp, Happening.isDrop]
  | retried due asked left =>
      apply @Kept.moved _ _ _ _ _ _ [item.failedOnce] kept 0 1 0 0 <;>
        simp [successes_concat, failures_concat, givenUps_concat, drops_concat, Happening.isSuccess,
          Happening.isFailure, Happening.isGivenUp, Happening.isDrop, Accepted.failedOnce, left]
  | gaveUp due asked spent =>
      rw [← List.append_nil rest]
      apply @Kept.moved _ _ _ _ _ _ [] kept 0 1 1 0 <;>
        simp [successes_concat, failures_concat, givenUps_concat, drops_concat, Happening.isSuccess,
          Happening.isFailure, Happening.isGivenUp, Happening.isDrop]
      omega

/-- The event as it stands is the accepted one, put off at most. -/
structure DelayedEvent.Continues (event original : DelayedEvent World) : Prop where
  action : event.action = original.action
  condition : event.condition = original.condition
  later : original.executeAfter ≤ event.executeAfter

/-- An attempt of an accepted event: not before its time, and its condition had just answered
true. -/
structure Attempt.Timely (accepted : List (DelayedEvent World)) (attempt : Attempt World)
    (original : DelayedEvent World) : Prop where
  accepted : accepted[attempt.number]? = some original
  action : attempt.event.action = original.action
  due : original.executeAfter ≤ attempt.now
  held : (original.askCondition attempt.world).1 = .ok true

/-- The queue holds accepted events, and every attempt in the log was timely. -/
structure Timed (accepted : List (DelayedEvent World)) (log : List (Happening World))
    (queue : List (Accepted World)) : Prop where
  queued : ∀ item ∈ queue, ∃ original, accepted[item.number]? = some original ∧
    DelayedEvent.Continues item.event original
  attempted : ∀ happening ∈ log, ∀ attempt, happening.attempt? = some attempt →
    ∃ original, attempt.Timely accepted original

theorem DelayedEvent.Continues.askCondition {event original : DelayedEvent World}
    (continues : DelayedEvent.Continues event original) (world : World) :
    event.askCondition world = original.askCondition world := by
  simp only [DelayedEvent.askCondition, continues.condition]

/-- A pass shows its attempt timely and what it put back a continuation of what it took. -/
theorem Timed.moved {accepted : List (DelayedEvent World)} {log : List (Happening World)}
    {item : Accepted World} {rest back : List (Accepted World)}
    (timed : Timed accepted log (item :: rest)) {happening : Happening World}
    (returned : ∀ other ∈ back, other.number = item.number ∧
      DelayedEvent.Continues other.event item.event)
    (attempted : ∀ attempt, happening.attempt? = some attempt →
      attempt.number = item.number ∧ attempt.event = item.event ∧
        item.event.executeAfter ≤ attempt.now ∧
        (item.event.askCondition attempt.world).1 = .ok true) :
    Timed accepted (log ++ [happening]) (rest ++ back) := by
  obtain ⟨original, known, continues⟩ := timed.queued item List.mem_cons_self
  constructor
  · intro other queued
    obtain behind | put := List.mem_append.mp queued
    · exact timed.queued other (List.mem_cons_of_mem _ behind)
    · obtain ⟨same, onward⟩ := returned other put
      exact ⟨original, same ▸ known, onward.action.trans continues.action,
        onward.condition.trans continues.condition, continues.later.trans onward.later⟩
  · intro entry logged attempt made
    obtain before | here := List.mem_append.mp logged
    · exact timed.attempted entry before attempt made
    · obtain rfl := List.mem_singleton.mp here
      obtain ⟨same, event, due, held⟩ := attempted attempt made
      refine ⟨original, same ▸ known, event ▸ continues.action, continues.later.trans due, ?_⟩
      rw [← continues.askCondition]
      exact held

theorem timed_pass {accepted : List (DelayedEvent World)} {now : Int}
    (log : List (Happening World)) (world : World) (item : Accepted World)
    (rest : List (Accepted World)) (timed : Timed accepted log (item :: rest)) :
    Timed accepted (log ++ [(pass now world item rest).happening])
      (pass now world item rest).queue := by
  have passed := pass_passed now world item rest
  revert passed
  generalize pass now world item rest = result
  intro passed
  have same : DelayedEvent.Continues item.event item.event := ⟨rfl, rfl, Int.le_refl _⟩
  cases passed with
  | notYet early =>
      apply @Timed.moved _ _ _ _ _ [item] timed
      · simpa using same
      · simp [Happening.attempt?]
  | held due asked =>
      apply @Timed.moved _ _ _ _ _ [item.postponed now] timed
      · have onward : DelayedEvent.Continues (item.postponed now).event item.event := by
          refine ⟨rfl, rfl, ?_⟩
          simp only [Accepted.postponed, fiveSeconds]
          omega
        simpa using ⟨rfl, onward⟩
      · simp [Happening.attempt?]
  | conditionThrew due asked =>
      rw [← List.append_nil rest]
      apply @Timed.moved _ _ _ _ _ [] timed <;> simp [Happening.attempt?]
  | succeeded due asked =>
      rw [← List.append_nil rest]
      apply @Timed.moved _ _ _ _ _ [] timed <;> simp [Happening.attempt?, asked, due]
  | retried due asked left =>
      apply @Timed.moved _ _ _ _ _ [item.failedOnce] timed
      · have onward : DelayedEvent.Continues item.failedOnce.event item.event := ⟨rfl, rfl, Int.le_refl _⟩
        simpa using ⟨rfl, onward⟩
      · simp [Happening.attempt?, asked, due]
  | gaveUp due asked spent =>
      rw [← List.append_nil rest]
      apply @Timed.moved _ _ _ _ _ [] timed <;> simp [Happening.attempt?, asked, due]

/-- A pass over an event that is not the front one moves that event forward by one. -/
theorem pass_advances (now : Int) (world : World) (head : Accepted World)
    (before after : List (Accepted World)) (item : Accepted World) :
    ∃ back, (pass now world head (before ++ item :: after)).queue = before ++ item :: (after ++ back) := by
  have passed := pass_passed now world head (before ++ item :: after)
  revert passed
  generalize pass now world head (before ++ item :: after) = result
  intro passed
  cases passed with
  | notYet early => exact ⟨[head], by simp⟩
  | held due asked => exact ⟨[head.postponed now], by simp⟩
  | retried due asked left => exact ⟨[head.failedOnce], by simp⟩
  | conditionThrew due asked => exact ⟨[], by simp⟩
  | succeeded due asked => exact ⟨[], by simp⟩
  | gaveUp due asked spent => exact ⟨[], by simp⟩

/-- `number` was attempted, or its condition was asked and refused. -/
def Served (number : Nat) (log : List (Happening World)) : Prop :=
  ∃ happening ∈ log, (happening.isRefusal number = true ∨
    ∃ attempt, happening.attempt? = some attempt ∧ attempt.number = number)

theorem Served.mono {number : Nat} {log more : List (Happening World)} (served : Served number log)
    (within : ∀ happening ∈ log, happening ∈ more) : Served number more := by
  obtain ⟨happening, logged, served⟩ := served
  exact ⟨happening, within happening logged, served⟩

/-- A pass over a due event attempts it or finds its condition refusing. -/
theorem served_pass {now : Int} (world : World) {item : Accepted World}
    (rest : List (Accepted World)) (due : item.event.executeAfter ≤ now) :
    Served item.number [(pass now world item rest).happening] := by
  have passed := pass_passed now world item rest
  revert passed
  generalize pass now world item rest = result
  intro passed
  refine ⟨_, List.mem_singleton_self _, ?_⟩
  cases passed with
  | notYet early => omega
  | held due asked => simp [Happening.isRefusal]
  | conditionThrew due asked => simp [Happening.isRefusal]
  | succeeded due asked => simp [Happening.attempt?]
  | retried due asked left => simp [Happening.attempt?]
  | gaveUp due asked spent => simp [Happening.attempt?]

/-- A tick serves a due event, or brings it nearer to the front. -/
theorem tickLoop_serves {now : Int} {item : Accepted World} (due : item.event.executeAfter ≤ now)
    {fuel : Nat} {world : World} {before after : List (Accepted World)} {tick : Tick World}
    (ticked : tickLoop now fuel world (before ++ item :: after) = some tick) :
    Served item.number tick.log ∨ ∃ before' after', tick.queue = before' ++ item :: after' ∧
      before'.length < before.length := by
  induction fuel generalizing world before after tick with
  | zero => cases ticked
  | succ fuel ih =>
      cases before with
      | nil =>
          have served := served_pass world after due
          left
          rw [List.nil_append, tickLoop] at ticked
          split at ticked
          case h_1 =>
            obtain ⟨later, ranOn, rfl⟩ := Option.map_eq_some_iff.mp ticked
            apply served.mono
            simp
          case h_2 =>
            obtain rfl := Option.some.inj ticked
            exact served
          case h_3 =>
            obtain rfl := Option.some.inj ticked
            exact served
      | cons head before =>
          obtain ⟨back, advanced⟩ := pass_advances now world head before after item
          rw [List.cons_append, tickLoop] at ticked
          split at ticked
          case h_1 =>
            obtain ⟨later, ranOn, rfl⟩ := Option.map_eq_some_iff.mp ticked
            rw [advanced] at ranOn
            obtain served | ⟨before', after', found, nearer⟩ := ih ranOn
            · left
              apply served.mono
              intro happening logged
              exact List.mem_cons_of_mem _ logged
            · right
              refine ⟨before', after', found, ?_⟩
              rw [List.length_cons]
              omega
          case h_2 =>
            obtain rfl := Option.some.inj ticked
            exact .inr ⟨before, _, advanced, Nat.lt_succ_self _⟩
          case h_3 =>
            obtain rfl := Option.some.inj ticked
            exact .inr ⟨before, _, advanced, Nat.lt_succ_self _⟩

/-- The events a run adds. -/
def added (calls : List (Call World)) : List (DelayedEvent World) :=
  calls.filterMap fun call => match call with
    | .add event => some event
    | _ => none

/-- The ticks of a run. -/
def ticks (calls : List (Call World)) : Nat :=
  calls.countP fun call => match call with
    | .tick => true
    | _ => false

/-- A manager nothing was added to. -/
def started (world : World) (clock : Int) : Manager World :=
  { world := world, clock := clock }

theorem step_add {manager next : Manager World} {event : DelayedEvent World}
    (running : manager.stopping = false)
    (stepped : (schedulerMachine World).step manager (.add event) = some next) :
    next = { manager with
      delayedEvents := manager.delayedEvents ++ [⟨manager.accepted.length, event⟩]
      accepted := manager.accepted ++ [event] } := by
  simpa [schedulerMachine, addDelayedEvent, running] using stepped.symm

theorem step_tick {manager next : Manager World} (running : manager.stopping = false)
    (stepped : (schedulerMachine World).step manager .tick = some next) :
    ∃ tick, schedulerTick manager.clock manager.world manager.delayedEvents = some tick ∧
      next = { manager with
        world := tick.world
        delayedEvents := tick.queue
        log := manager.log ++ tick.log } := by
  have runs : tickDelayedEvents manager = some next := stepped
  rw [tickDelayedEvents, if_neg (by simp [running])] at runs
  obtain ⟨tick, ticked, same⟩ := Option.map_eq_some_iff.mp runs
  exact ⟨tick, ticked, same.symm⟩

/-- Calls keep the manager running and its log growing. -/
theorem step_grows {manager next : Manager World} {call : Call World}
    (running : manager.stopping = false)
    (stepped : (schedulerMachine World).step manager call = some next) :
    next.stopping = false ∧ manager.clock ≤ next.clock ∧ ∃ new, next.log = manager.log ++ new := by
  cases call with
  | add event =>
      obtain rfl := step_add running stepped
      exact ⟨running, Int.le_refl _, [], (List.append_nil _).symm⟩
  | tick =>
      obtain ⟨tick, ticked, rfl⟩ := step_tick running stepped
      exact ⟨running, Int.le_refl _, tick.log, rfl⟩
  | elapse world time =>
      obtain rfl := Option.some.inj stepped
      refine ⟨running, ?_, [], (List.append_nil _).symm⟩
      dsimp only
      omega

theorem run_grows {manager final : Manager World} {calls : List (Call World)}
    (running : manager.stopping = false)
    (ran : (schedulerMachine World).run manager calls = some final) :
    ∃ new, final.log = manager.log ++ new := by
  induction calls generalizing manager with
  | nil =>
      obtain rfl := Option.some.inj ran
      exact ⟨[], (List.append_nil _).symm⟩
  | cons call calls ih =>
      obtain ⟨next, stepped, ranOn⟩ := Option.bind_eq_some_iff.mp ran
      obtain ⟨still, -, first, grown⟩ := step_grows running stepped
      obtain ⟨rest, final_log⟩ := ih still ranOn
      exact ⟨first ++ rest, by rw [final_log, grown, List.append_assoc]⟩

/-- After as many ticks as stand before and at a due event, it has been served. -/
theorem run_serves {manager final : Manager World} {calls : List (Call World)}
    (running : manager.stopping = false)
    (ran : (schedulerMachine World).run manager calls = some final)
    {item : Accepted World} {before after : List (Accepted World)}
    (queued : manager.delayedEvents = before ++ item :: after)
    (due : item.event.executeAfter ≤ manager.clock) (enough : before.length < ticks calls) :
    ∃ new, final.log = manager.log ++ new ∧ Served item.number new := by
  induction calls generalizing manager before after with
  | nil => simp [ticks] at enough
  | cons call calls ih =>
      obtain ⟨next, stepped, ranOn⟩ := Option.bind_eq_some_iff.mp ran
      obtain ⟨still, later, -⟩ := step_grows running stepped
      have stillDue : item.event.executeAfter ≤ next.clock := Int.le_trans due later
      cases call with
      | add event =>
          obtain rfl := step_add running stepped
          have behind : manager.delayedEvents ++ [⟨manager.accepted.length, event⟩] =
              before ++ item :: (after ++ [⟨manager.accepted.length, event⟩]) := by
            simp [queued]
          have served := ih still ranOn behind stillDue (by simpa [ticks] using enough)
          exact served
      | elapse world time =>
          obtain rfl := Option.some.inj stepped
          have served := ih still ranOn queued stillDue (by simpa [ticks] using enough)
          exact served
      | tick =>
          obtain ⟨tick, ticked, rfl⟩ := step_tick running stepped
          rw [queued] at ticked
          obtain ⟨rest, grown⟩ := run_grows still ranOn
          obtain served | ⟨before', after', found, nearer⟩ := tickLoop_serves due ticked
          · refine ⟨tick.log ++ rest, by rw [grown, List.append_assoc], ?_⟩
            exact served.mono fun happening logged => List.mem_append_left _ logged
          · have fewer : before'.length < ticks calls := by
              simp only [ticks, List.countP_cons, if_true] at enough ⊢
              omega
            obtain ⟨new, final_log, served⟩ := ih still ranOn found stillDue fewer
            refine ⟨tick.log ++ new, by rw [final_log, List.append_assoc], ?_⟩
            exact served.mono fun happening logged => List.mem_append_right _ logged

/-- Every call keeps the books, once a new event starts with its counter at zero. -/
theorem kept_step {manager next : Manager World} {call : Call World}
    (running : manager.stopping = false)
    (kept : Kept manager.accepted.length manager.log manager.delayedEvents)
    (fresh : ∀ event, call = .add event → event.count = 0)
    (stepped : (schedulerMachine World).step manager call = some next) :
    Kept next.accepted.length next.log next.delayedEvents := by
  cases call with
  | elapse world time =>
      obtain rfl := Option.some.inj stepped
      exact kept
  | tick =>
      obtain ⟨tick, ticked, rfl⟩ := step_tick running stepped
      exact tickLoop_induct kept_pass ticked manager.log kept
  | add event =>
      obtain rfl := step_add running stepped
      have unseen := kept.unseen manager.accepted.length (Nat.le_refl _)
      constructor
      · intro number
        have once := kept.once number
        have new : copies number [(⟨manager.accepted.length, event⟩ : Accepted World)] =
            if manager.accepted.length = number then 1 else 0 := by
          rw [copies_cons]
          simp [copies]
        dsimp only
        rw [copies_append, new, List.length_append, List.length_singleton]
        by_cases here : manager.accepted.length = number
        · rw [if_neg (by omega)] at once
          rw [if_pos here, if_pos (by omega)]
          omega
        · have known : number < manager.accepted.length + 1 ↔ number < manager.accepted.length := by
            omega
          rw [if_neg here, if_congr known rfl rfl]
          omega
      · intro item queued
        obtain old | new := List.mem_append.mp queued
        · exact kept.counted item old
        · obtain rfl := List.mem_singleton.mp new
          simp only [fresh event rfl, unseen]
          rfl
      · exact kept.trying
      · exact kept.spent
      · intro number new
        rw [List.length_append, List.length_singleton] at new
        exact kept.unseen number (by omega)

theorem timed_step {manager next : Manager World} {call : Call World}
    (running : manager.stopping = false)
    (timed : Timed manager.accepted manager.log manager.delayedEvents)
    (stepped : (schedulerMachine World).step manager call = some next) :
    Timed next.accepted next.log next.delayedEvents := by
  cases call with
  | elapse world time =>
      obtain rfl := Option.some.inj stepped
      exact timed
  | tick =>
      obtain ⟨tick, ticked, rfl⟩ := step_tick running stepped
      exact tickLoop_induct timed_pass ticked manager.log timed
  | add event =>
      obtain rfl := step_add running stepped
      have known {number : Nat} {original : DelayedEvent World}
          (found : manager.accepted[number]? = some original) :
          (manager.accepted ++ [event])[number]? = some original := by
        obtain ⟨within, -⟩ := List.getElem?_eq_some_iff.mp found
        rw [List.getElem?_append_left within]
        exact found
      constructor
      · intro item queued
        obtain old | new := List.mem_append.mp queued
        · obtain ⟨original, found, continues⟩ := timed.queued item old
          exact ⟨original, known found, continues⟩
        · obtain rfl := List.mem_singleton.mp new
          exact ⟨event, List.getElem?_concat_length, rfl, rfl, Int.le_refl _⟩
      · intro happening logged attempt made
        obtain ⟨original, timely⟩ := timed.attempted happening logged attempt made
        exact ⟨original, { timely with accepted := known timely.accepted }⟩

/-- The accepted events are the added ones, in order. -/
theorem run_accepted {manager final : Manager World} {calls : List (Call World)}
    (running : manager.stopping = false)
    (ran : (schedulerMachine World).run manager calls = some final) :
    final.accepted = manager.accepted ++ added calls := by
  induction calls generalizing manager with
  | nil =>
      obtain rfl := Option.some.inj ran
      exact (List.append_nil _).symm
  | cons call calls ih =>
      obtain ⟨next, stepped, ranOn⟩ := Option.bind_eq_some_iff.mp ran
      obtain ⟨still, -, -⟩ := step_grows running stepped
      rw [ih still ranOn]
      cases call with
      | add event =>
          obtain rfl := step_add running stepped
          simp [added]
      | tick =>
          obtain ⟨tick, ticked, rfl⟩ := step_tick running stepped
          rfl
      | elapse world time =>
          obtain rfl := Option.some.inj stepped
          rfl

/-- An event is out of its three places exactly when its condition threw. -/
theorem Kept.accounted_iff {manager : Manager World}
    (kept : Kept manager.accepted.length manager.log manager.delayedEvents) :
    Accounted manager ↔ NoConditionThrew manager.log := by
  rw [noConditionThrew_iff]
  constructor
  · intro accounted number
    have once := kept.once number
    split at once
    case isFalse unknown => omega
    case isTrue known =>
      obtain place | place | place := accounted number known
      · have := place.queued
        omega
      · have := place.completed
        omega
      · have gone : givenUps number manager.log ≠ 0 := by
          intro none
          have := kept.trying number none
          have := place.spent
          omega
        omega
  · intro undropped number known
    have once := kept.once number
    rw [if_pos known, undropped number] at once
    by_cases given : givenUps number manager.log = 0
    · have trying := kept.trying number given
      by_cases queued : copies number manager.delayedEvents = 0
      · exact .inr (.inl ⟨queued, by omega, trying⟩)
      · exact .inl ⟨by omega, by omega, trying⟩
    · exact .inr (.inr ⟨by omega, by omega, kept.spent number (by omega)⟩)

/-- The state every run from a started manager keeps. -/
structure Sound (manager : Manager World) : Prop where
  running : manager.stopping = false
  kept : Kept manager.accepted.length manager.log manager.delayedEvents
  timed : Timed manager.accepted manager.log manager.delayedEvents

theorem sound_started (world : World) (clock : Int) : Sound (started world clock) where
  running := rfl
  kept := by constructor <;> simp [started, copies, successes, failures, givenUps, drops]
  timed := by constructor <;> simp [started]

theorem sound_run {manager final : Manager World} {calls : List (Call World)}
    (sound : Sound manager) (fresh : ∀ event ∈ added calls, event.count = 0)
    (ran : (schedulerMachine World).run manager calls = some final) : Sound final := by
  have each : ∀ call ∈ calls, ∀ event, call = .add event → event.count = 0 := by
    rintro call called event rfl
    apply fresh
    exact List.mem_filterMap.mpr ⟨_, called, rfl⟩
  apply Lib.Machine.invariant_run _ sound (Lib.Machine.conforms_of_mem each manager) ran
  intro state call next sound fresh stepped
  exact ⟨(step_grows sound.running stepped).1, kept_step sound.running sound.kept fresh stepped,
    timed_step sound.running sound.timed stepped⟩

/-- Whatever actions and conditions do, every tick ends, an action runs only when its
time has come and its condition has just answered true, and a due event is served
within as many ticks as the queue is long. Every accepted event is in its place
exactly as long as no condition throws. -/
theorem delayedEvents_accounted_iff {World : Type} (world : World) (clock : Int)
    (calls : List (Call World)) (final : Manager World)
    (ran : (schedulerMachine World).run (started world clock) calls = some final)
    (fresh : ∀ event ∈ added calls, event.count = 0) :
    (final.accepted = added calls ∧ (Accounted final ↔ NoConditionThrew final.log)) ∧
    ((schedulerMachine World).step final .tick).isSome ∧
    (∀ happening ∈ final.log, ∀ attempt, happening.attempt? = some attempt →
      ∃ original, attempt.Timely final.accepted original) ∧
    ∀ item ∈ final.delayedEvents, item.event.executeAfter ≤ final.clock →
      ∀ more later, (schedulerMachine World).run final more = some later →
        final.delayedEvents.length ≤ ticks more →
        ∃ new, later.log = final.log ++ new ∧
          ((∀ happening ∈ new, happening.isRefusal item.number = false) →
            ∃ happening ∈ new, ∃ attempt, happening.attempt? = some attempt ∧
              attempt.number = item.number) := by
  have sound := sound_run (sound_started world clock) fresh ran
  refine ⟨⟨?_, sound.kept.accounted_iff⟩, ?_, sound.timed.attempted, ?_⟩
  · simpa [started] using run_accepted rfl ran
  · have runs : (schedulerMachine World).step final .tick = tickDelayedEvents final := rfl
    rw [runs, tickDelayedEvents, if_neg (by simp [sound.running]), Option.isSome_map]
    exact schedulerTick_isSome _ _ _
  · intro item queued due more later ranOn enough
    obtain ⟨before, after, queue⟩ := List.append_of_mem queued
    have ahead : before.length < ticks more := by
      rw [queue, List.length_append, List.length_cons] at enough
      omega
    obtain ⟨new, grown, happening, logged, served⟩ :=
      run_serves sound.running ranOn queue due ahead
    refine ⟨new, grown, fun unrefused => ⟨happening, logged, ?_⟩⟩
    obtain refused | attempted := served
    · rw [unrefused happening logged] at refused
      cases refused
    · exact attempted

/-- An action that fails twice and then succeeds. -/
def flakyEvent : DelayedEvent Nat where
  action tries := (if tries < 2 then .error () else .ok (), tries + 1)
  executeAfter := 7

theorem flakyEvent_accounted : ∃ final,
    (schedulerMachine Nat).run (started 0 0) [.add flakyEvent, .elapse 0 7, .tick] = some final ∧
      final.delayedEvents.length = 0 ∧ Accounted final := by
  refine ⟨_, rfl, rfl, ?_⟩
  apply (delayedEvents_accounted_iff 0 0 [.add flakyEvent, .elapse 0 7, .tick] _ rfl _).1.2.mpr
  · intro number logged
    simp [addDelayedEvent, started, flakyEvent, pass, DelayedEvent.askCondition,
      Accepted.failedOnce] at logged
  · simp [added, flakyEvent]

/-- An event whose condition throws. -/
def unreadableEvent : DelayedEvent Unit where
  action world := (.ok (), world)
  executeAfter := 0
  condition := some fun world => (.error (), world)

/-- The event is lost in its first tick: never run, never given up, no longer queued. -/
theorem unreadableEvent_lost : ∃ final,
    (schedulerMachine Unit).run (started () 0) [.add unreadableEvent, .tick] = some final ∧
      (∀ event ∈ added [.add unreadableEvent, .tick], event.count = 0) ∧ ¬ Accounted final := by
  refine ⟨_, rfl, by simp [added, unreadableEvent], fun accounted => ?_⟩
  obtain place | place | place := accounted 0 (by decide)
  · exact absurd place.queued (by decide)
  · exact absurd place.completed (by decide)
  · exact absurd place.spent (by decide)

end SearchEngine.Scheduler
