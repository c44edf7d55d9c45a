import SearchEngine.Batch.BoundedByteQueue
import SearchEngine.Lib.ConditionVariable
import SearchEngine.Lib.Machine

/-!
# The bounded queue as a channel

Any number of threads push and pop. Each section under the mutex is one action; a thread
that has to wait sleeps on one of the condition variables and takes the mutex again when it
was woken, by a notification or for no reason. What was accepted and what was delivered is
kept beside the queue.
-/

namespace SearchEngine.Batch

open SearchEngine.Lib

universe u

/-- A thread inside `push`. -/
structure Producer (Thread T : Type u) where
  thread : Thread
  item : T
  weightBytes : Nat
  deriving DecidableEq

structure ByteChannel (Thread T : Type u) where
  queue : BoundedByteQueue T
  notEmpty : ConditionVariable Thread
  notFull : ConditionVariable (Producer Thread T)
  accepted : List T
  delivered : List T

/-- An action; the numbers choose among waiters. -/
inductive ChannelAction (Thread T : Type u) where
  | push (producer : Producer Thread T) (choice : Nat)
  | resumePush (index choice : Nat)
  | pop (thread : Thread)
  | resumePop (index : Nat)
  | close
  | cancel
  | wakeProducer (index : Nat)
  | wakeConsumer (index : Nat)

namespace ByteChannel

variable {Thread T : Type u}

def new (capacityBytes : Nat) : ByteChannel Thread T where
  queue := .new capacityBytes
  notEmpty := .new
  notFull := .new
  accepted := []
  delivered := []

/-- The section of `push`. -/
def enterPush (channel : ByteChannel Thread T) (producer : Producer Thread T) (choice : Nat) : ByteChannel Thread T :=
  match channel.queue.push producer.item producer.weightBytes with
  | .tooHeavy => channel
  | .rejected => channel
  | .wait => { channel with notFull := channel.notFull.wait producer }
  | .pushed queue =>
      { channel with
        queue
        notEmpty := channel.notEmpty.notifyOne choice
        accepted := channel.accepted ++ [producer.item] }

/-- The section of `pop`. -/
def enterPop (channel : ByteChannel Thread T) (thread : Thread) : ByteChannel Thread T :=
  match channel.queue.pop with
  | .ended => channel
  | .wait => { channel with notEmpty := channel.notEmpty.wait thread }
  | .popped item queue =>
      { channel with
        queue
        notFull := channel.notFull.notifyAll
        delivered := channel.delivered ++ [item] }

/-- One action of the threads or the system. -/
def step (channel : ByteChannel Thread T) : ChannelAction Thread T → Option (ByteChannel Thread T)
  | .push producer choice => some (channel.enterPush producer choice)
  | .resumePush index choice =>
      (channel.notFull.resume index).map fun resumed => { channel with notFull := resumed.2 }.enterPush resumed.1 choice
  | .pop thread => some (channel.enterPop thread)
  | .resumePop index =>
      (channel.notEmpty.resume index).map fun resumed => { channel with notEmpty := resumed.2 }.enterPop resumed.1
  | .close =>
      some { channel with
        queue := channel.queue.close
        notEmpty := channel.notEmpty.notifyAll
        notFull := channel.notFull.notifyAll }
  | .cancel =>
      some { channel with
        queue := channel.queue.cancel
        notEmpty := channel.notEmpty.notifyAll
        notFull := channel.notFull.notifyAll }
  | .wakeProducer index => some { channel with notFull := channel.notFull.wake index }
  | .wakeConsumer index => some { channel with notEmpty := channel.notEmpty.wake index }

def machine : Machine (ByteChannel Thread T) (ChannelAction Thread T) := ⟨step⟩

/-! ## The invariant -/

/-- What holds of a channel when so many queued items have a woken consumer. -/
structure SoundFor (channel : ByteChannel Thread T) (staffed : Nat) : Prop where
  inOrder : channel.delivered <+: channel.accepted
  complete : channel.queue.cancelled = false → channel.accepted = channel.delivered ++ channel.queue.items
  emptied : channel.queue.cancelled = true → channel.queue.items = []
  producers : channel.notFull.Idle fun producer => channel.queue.push producer.item producer.weightBytes = .wait
  consumers : channel.notEmpty.Staffed staffed
  awake : channel.queue.closed = true ∨ channel.queue.cancelled = true → channel.notEmpty.asleep = []

/-- What holds of a channel between two actions. -/
abbrev Sound (channel : ByteChannel Thread T) : Prop := channel.SoundFor channel.queue.items.length

variable {channel next : ByteChannel Thread T}

theorem sound_new (capacityBytes : Nat) : (new capacityBytes : ByteChannel Thread T).Sound where
  inOrder := List.prefix_rfl
  complete _ := rfl
  emptied _ := rfl
  producers _ member := nomatch member
  consumers asleep := absurd rfl asleep
  awake _ := rfl

/-- The section of `push` keeps the invariant, whichever thread enters it. -/
theorem SoundFor.enterPush (sound : channel.Sound) (producer : Producer Thread T) (choice : Nat) :
    (channel.enterPush producer choice).Sound := by
  unfold ByteChannel.enterPush
  cases pushed : channel.queue.push producer.item producer.weightBytes with
  | tooHeavy => exact sound
  | rejected => exact sound
  | wait => exact { sound with producers := sound.producers.wait pushed }
  | pushed queue =>
      obtain ⟨-, isOpen, running, after⟩ := BoundedByteQueue.push_eq_pushed pushed
      exact {
        inOrder := sound.inOrder.trans (List.prefix_append _ _)
        complete := by
          intro _
          rw [after.items, sound.complete running, List.append_assoc]
        emptied := by
          intro cancelled
          rw [after.cancelled.2] at cancelled
          cases cancelled
        producers := sound.producers.mono fun other waits => BoundedByteQueue.wait_of_pushed pushed waits
        consumers := by
          rw [after.items, List.length_append, List.length_singleton]
          exact sound.consumers.notifyOne
        awake := by
          rintro (closed | cancelled)
          · rw [after.closed.2] at closed
            cases closed
          · rw [after.cancelled.2] at cancelled
            cases cancelled }

/-- The section of `pop` keeps it, and the thread that enters counts for one item. -/
theorem SoundFor.enterPop (sound : channel.SoundFor (channel.queue.items.length - 1)) (thread : Thread) :
    (channel.enterPop thread).Sound := by
  unfold ByteChannel.enterPop
  cases cancelled : channel.queue.cancelled with
  | true =>
      have ended : channel.queue.pop = .ended := by rw [BoundedByteQueue.pop, if_pos cancelled]
      have asleep := sound.awake (.inr cancelled)
      rw [ended]
      exact { sound with consumers := fun some => absurd asleep some }
  | false =>
      rcases BoundedByteQueue.pop_cases cancelled with ⟨empty, isOpen, waits⟩ | ⟨empty, closed, ended⟩ |
        ⟨item, queue, popped, after⟩
      · rw [waits]
        exact { sound with
          consumers := by
            rw [empty]
            exact .wait_zero
          awake := by
            rintro (closed | stopped)
            · rw [isOpen] at closed
              cases closed
            · rw [cancelled] at stopped
              cases stopped }
      · have asleep := sound.awake (.inl closed)
        rw [ended]
        exact { sound with consumers := fun some => absurd asleep some }
      · rw [popped]
        have whole := sound.complete cancelled
        have staffed := sound.consumers
        rw [after.items] at whole staffed
        exact {
          inOrder := by
            rw [whole]
            exact ⟨queue.items, by simp⟩
          complete := by
            intro _
            rw [whole, List.append_assoc, List.singleton_append]
          emptied := by
            intro stopped
            rw [after.cancelled.2] at stopped
            cases stopped
          producers := .notifyAll
          consumers := by simpa using staffed
          awake := by
            rintro (closed | stopped)
            · exact sound.awake (.inl (after.closed ▸ closed))
            · rw [after.cancelled.2] at stopped
              cases stopped }

/-- Every action keeps the invariant. -/
theorem SoundFor.step (sound : channel.Sound) {action : ChannelAction Thread T} (stepped : channel.step action = some next) :
    next.Sound := by
  cases action with
  | push producer choice =>
      obtain rfl := Option.some.inj stepped
      exact sound.enterPush producer choice
  | resumePush index choice =>
      obtain ⟨⟨producer, notFull⟩, resumed, rfl⟩ := Option.map_eq_some_iff.mp stepped
      have taken : ({ channel with notFull } : ByteChannel Thread T).Sound :=
        { sound with producers := sound.producers.resume resumed }
      exact taken.enterPush producer choice
  | pop thread =>
      obtain rfl := Option.some.inj stepped
      exact SoundFor.enterPop { sound with consumers := sound.consumers.mono (Nat.sub_le _ _) } thread
  | resumePop index =>
      obtain ⟨⟨thread, notEmpty⟩, resumed, rfl⟩ := Option.map_eq_some_iff.mp stepped
      have asleep := (ConditionVariable.resume_eq_some resumed).2.1
      have staffed : notEmpty.Staffed (channel.queue.items.length - 1) := by
        cases items : channel.queue.items.length with
        | zero => exact fun _ => Nat.zero_le _
        | succ count =>
            have enough := sound.consumers
            rw [items] at enough
            exact enough.resume resumed
      have taken : ({ channel with notEmpty } : ByteChannel Thread T).SoundFor (channel.queue.items.length - 1) :=
        { sound with consumers := staffed, awake := fun ended => asleep.trans (sound.awake ended) }
      exact taken.enterPop thread
  | close =>
      obtain rfl := Option.some.inj stepped
      exact { sound with producers := .notifyAll, consumers := .notifyAll, awake := fun _ => rfl }
  | cancel =>
      obtain rfl := Option.some.inj stepped
      exact {
        inOrder := sound.inOrder
        complete := nofun
        emptied := fun _ => rfl
        producers := .notifyAll
        consumers := .notifyAll
        awake := fun _ => rfl }
  | wakeProducer index =>
      obtain rfl := Option.some.inj stepped
      exact { sound with producers := sound.producers.wake }
  | wakeConsumer index =>
      obtain rfl := Option.some.inj stepped
      have asleep : channel.notEmpty.asleep = [] → (channel.notEmpty.wake index).asleep = [] := by
        intro none
        rw [List.eq_nil_iff_forall_not_mem]
        intro thread member
        have old := ConditionVariable.asleep_wake_subset thread member
        rw [none] at old
        cases old
      exact { sound with consumers := sound.consumers.wake, awake := fun ended => asleep (sound.awake ended) }

/-! ## What follows -/

/-- A later state of the channel. -/
structure LeadsTo (channel later : ByteChannel Thread T) : Prop where
  accepted : channel.accepted <+: later.accepted
  delivered : channel.delivered <+: later.delivered
  capacity : later.queue.capacityBytes = channel.queue.capacityBytes
  closed : channel.queue.closed = true → later.queue.closed = true ∧ later.accepted = channel.accepted
  cancelled : channel.queue.cancelled = true → later.queue.cancelled = true ∧
    later.accepted = channel.accepted ∧ later.delivered = channel.delivered

theorem LeadsTo.refl (channel : ByteChannel Thread T) : channel.LeadsTo channel :=
  ⟨List.prefix_rfl, List.prefix_rfl, rfl, fun closed => ⟨closed, rfl⟩, fun cancelled => ⟨cancelled, rfl, rfl⟩⟩

theorem LeadsTo.trans {later : ByteChannel Thread T} (first : channel.LeadsTo next) (second : next.LeadsTo later) :
    channel.LeadsTo later where
  accepted := first.accepted.trans second.accepted
  delivered := first.delivered.trans second.delivered
  capacity := second.capacity.trans first.capacity
  closed closed := by
    obtain ⟨still, same⟩ := first.closed closed
    obtain ⟨after, kept⟩ := second.closed still
    exact ⟨after, kept.trans same⟩
  cancelled cancelled := by
    obtain ⟨still, accepted, delivered⟩ := first.cancelled cancelled
    obtain ⟨after, keptAccepted, keptDelivered⟩ := second.cancelled still
    exact ⟨after, keptAccepted.trans accepted, keptDelivered.trans delivered⟩

theorem leadsTo_enterPush (channel : ByteChannel Thread T) (producer : Producer Thread T) (choice : Nat) :
    channel.LeadsTo (channel.enterPush producer choice) := by
  unfold enterPush
  cases pushed : channel.queue.push producer.item producer.weightBytes with
  | tooHeavy => exact .refl channel
  | rejected => exact .refl channel
  | wait => exact ⟨List.prefix_rfl, List.prefix_rfl, rfl, fun closed => ⟨closed, rfl⟩, fun cancelled => ⟨cancelled, rfl, rfl⟩⟩
  | pushed queue =>
      obtain ⟨-, isOpen, running, after⟩ := BoundedByteQueue.push_eq_pushed pushed
      exact {
        accepted := List.prefix_append _ _
        delivered := List.prefix_rfl
        capacity := after.capacity
        closed := by
          intro closed
          rw [isOpen] at closed
          cases closed
        cancelled := by
          intro cancelled
          rw [running] at cancelled
          cases cancelled }

theorem leadsTo_enterPop (channel : ByteChannel Thread T) (thread : Thread) :
    channel.LeadsTo (channel.enterPop thread) := by
  unfold enterPop
  cases cancelled : channel.queue.cancelled with
  | true =>
      have ended : channel.queue.pop = .ended := by rw [BoundedByteQueue.pop, if_pos cancelled]
      rw [ended]
      exact .refl channel
  | false =>
      rcases BoundedByteQueue.pop_cases cancelled with ⟨-, -, waits⟩ | ⟨-, -, ended⟩ | ⟨item, queue, popped, after⟩
      · rw [waits]
        exact ⟨List.prefix_rfl, List.prefix_rfl, rfl, fun closed => ⟨closed, rfl⟩, fun stopped => ⟨stopped, rfl, rfl⟩⟩
      · rw [ended]
        exact .refl channel
      · rw [popped]
        exact {
          accepted := List.prefix_rfl
          delivered := List.prefix_append _ _
          capacity := after.capacity
          closed := fun closed => ⟨after.closed.trans closed, rfl⟩
          cancelled := by
            intro stopped
            rw [cancelled] at stopped
            cases stopped }

theorem leadsTo_step {action : ChannelAction Thread T} (stepped : channel.step action = some next) :
    channel.LeadsTo next := by
  have waiters : ∀ notEmpty notFull, channel.LeadsTo { channel with notEmpty, notFull } := fun _ _ =>
    ⟨List.prefix_rfl, List.prefix_rfl, rfl, fun closed => ⟨closed, rfl⟩, fun cancelled => ⟨cancelled, rfl, rfl⟩⟩
  cases action with
  | push producer choice =>
      obtain rfl := Option.some.inj stepped
      exact leadsTo_enterPush channel producer choice
  | resumePush index choice =>
      obtain ⟨⟨producer, notFull⟩, -, rfl⟩ := Option.map_eq_some_iff.mp stepped
      exact (waiters channel.notEmpty notFull).trans (leadsTo_enterPush _ producer choice)
  | pop thread =>
      obtain rfl := Option.some.inj stepped
      exact leadsTo_enterPop channel thread
  | resumePop index =>
      obtain ⟨⟨thread, notEmpty⟩, -, rfl⟩ := Option.map_eq_some_iff.mp stepped
      exact (waiters notEmpty channel.notFull).trans (leadsTo_enterPop _ thread)
  | close =>
      obtain rfl := Option.some.inj stepped
      exact ⟨List.prefix_rfl, List.prefix_rfl, rfl, fun _ => ⟨rfl, rfl⟩, fun cancelled => ⟨cancelled, rfl, rfl⟩⟩
  | cancel =>
      obtain rfl := Option.some.inj stepped
      exact ⟨List.prefix_rfl, List.prefix_rfl, rfl, fun closed => ⟨closed, rfl⟩, fun _ => ⟨rfl, rfl, rfl⟩⟩
  | wakeProducer index =>
      obtain rfl := Option.some.inj stepped
      exact waiters channel.notEmpty (channel.notFull.wake index)
  | wakeConsumer index =>
      obtain rfl := Option.some.inj stepped
      exact waiters (channel.notEmpty.wake index) channel.notFull

/-- The channel as its users see it, whoever takes the mutex next. -/
structure Correct (channel : ByteChannel Thread T) (capacity : Nat) : Prop where
  inOrder : channel.delivered <+: channel.accepted
  exactlyOnce : channel.queue.cancelled = false → channel.accepted = channel.delivered ++ channel.queue.items
  total : channel.queue.queuedBytes = (channel.queue.entries.map Prod.snd).sum
  bounded : channel.queue.queuedBytes ≤ capacity
  /-- A consumer that sees the end without a cancellation has seen everything. -/
  ended : channel.queue.pop = .ended →
    channel.queue.cancelled = true ∨ channel.queue.closed = true ∧ channel.delivered = channel.accepted
  /-- A closed queue still delivers. -/
  drains : channel.queue.closed = true → channel.queue.cancelled = false → channel.delivered ≠ channel.accepted →
    ∃ item queue, channel.queue.pop = .popped item queue
  /-- A cancelled queue delivers nothing. -/
  cancelled : channel.queue.cancelled = true → channel.queue.pop = .ended
  /-- A closed or cancelled queue lets nobody wait. -/
  refuses : channel.queue.closed = true ∨ channel.queue.cancelled = true →
    (∀ item weightBytes, channel.queue.push item weightBytes = .rejected ∨ channel.queue.push item weightBytes = .tooHeavy) ∧
      channel.notFull.asleep = [] ∧ channel.notEmpty.asleep = []
  /-- A producer sleeps only while its item does not fit. -/
  producers : ∀ producer ∈ channel.notFull.asleep, channel.queue.push producer.item producer.weightBytes = .wait
  /-- While a consumer sleeps, each queued item has a consumer that was woken for it. -/
  consumers : channel.notEmpty.asleep ≠ [] → channel.queue.items.length ≤ channel.notEmpty.woken.length

theorem SoundFor.correct (sound : channel.Sound) : channel.Correct channel.queue.capacityBytes where
  inOrder := sound.inOrder
  exactlyOnce := sound.complete
  total := channel.queue.counted
  bounded := channel.queue.bounded
  ended := by
    intro ended
    cases cancelled : channel.queue.cancelled with
    | true => exact .inl rfl
    | false =>
        rcases BoundedByteQueue.pop_cases cancelled with ⟨-, -, waits⟩ | ⟨empty, closed, -⟩ | ⟨item, queue, popped, -⟩
        · rw [ended] at waits
          cases waits
        · right
          rw [sound.complete cancelled, empty, List.append_nil]
          exact ⟨closed, rfl⟩
        · rw [ended] at popped
          cases popped
  drains := by
    intro closed cancelled missing
    rcases BoundedByteQueue.pop_cases cancelled with ⟨-, isOpen, -⟩ | ⟨empty, -, -⟩ | ⟨item, queue, popped, -⟩
    · rw [closed] at isOpen
      cases isOpen
    · rw [sound.complete cancelled, empty, List.append_nil] at missing
      exact absurd rfl missing
    · exact ⟨item, queue, popped⟩
  cancelled := fun cancelled => by rw [BoundedByteQueue.pop, if_pos cancelled]
  refuses := by
    intro ended
    have refused : ∀ item weightBytes,
        channel.queue.push item weightBytes = .rejected ∨ channel.queue.push item weightBytes = .tooHeavy := by
      intro item weightBytes
      unfold BoundedByteQueue.push
      split
      · exact .inr rfl
      · rw [if_pos (by rcases ended with closed | cancelled <;> simp [*])]
        exact .inl rfl
    refine ⟨refused, ?_, sound.awake ended⟩
    rw [List.eq_nil_iff_forall_not_mem]
    intro producer member
    have waits := sound.producers producer member
    rcases refused producer.item producer.weightBytes with rejected | heavy
    · rw [waits] at rejected
      cases rejected
    · rw [waits] at heavy
      cases heavy
  producers := sound.producers
  consumers := sound.consumers

/-- Whatever the threads do, the queue is a channel, in every state that they reach. -/
theorem byteQueue_isChannel (capacityBytes : Nat) (actions : List (ChannelAction Thread T)) (channel : ByteChannel Thread T)
    (done : machine.run (new capacityBytes) actions = some channel) :
    channel.Correct (max 1 capacityBytes) ∧
      ∀ more later, machine.run channel more = some later → channel.LeadsTo later := by
  have sound : channel.Sound ∧ (new capacityBytes).LeadsTo channel :=
    @Machine.invariant_reachable _ _ _ (fun later => later.Sound ∧ (new capacityBytes).LeadsTo later)
      (fun _ _ _ kept stepped => ⟨kept.1.step stepped, kept.2.trans (leadsTo_step stepped)⟩) _ _ _
      ⟨sound_new capacityBytes, .refl _⟩ done
  constructor
  · have capacity : channel.queue.capacityBytes = max 1 capacityBytes := by
      rw [sound.2.capacity]
      change (if capacityBytes = 0 then 1 else capacityBytes) = max 1 capacityBytes
      split <;> omega
    exact capacity ▸ sound.1.correct
  · intro more later ran
    exact @Machine.invariant_reachable _ _ _ (fun later => channel.LeadsTo later)
      (fun _ _ _ kept stepped => kept.trans (leadsTo_step stepped)) _ _ _ (.refl _) ran

/-- Two producers and a consumer on a queue of three bytes: the second producer sleeps
until the first item is taken. -/
def contendedActions : List (ChannelAction Nat Char) :=
  [.pop 0, .push ⟨1, 'a', 2⟩ 0, .push ⟨2, 'b', 3⟩ 0, .resumePop 0, .resumePush 0 0, .close]

theorem byteQueue_isChannel_contended :
    ∃ channel, machine.run (new 3) contendedActions = some channel ∧ channel.accepted = ['a', 'b'] ∧
      channel.Correct 3 := by
  refine ⟨_, rfl, by decide, ?_⟩
  exact (byteQueue_isChannel 3 contendedActions _ rfl).1

end ByteChannel

end SearchEngine.Batch
