import SearchEngine.Index.LiveWriter

/-!
# The durability barrier of the mirror writer

`Ledger` ties the trace to the threads: while no error is recorded, the accepted
operations are the committed ones, the batch in flight and the queue, in this
order, and the writer is marked active whenever a batch is in flight. A call that
saw an empty queue and an inactive writer therefore saw everything committed, and
a recorded error is never taken back.
-/

namespace SearchEngine.Index

open SearchEngine.Lib CallTrace

namespace LiveWriter

variable {Caller : Type}

/-! ## What the trace says -/

/-- The operations accepted so far, in the order of their pushes. -/
def acceptedOps : CallTrace Caller Call WriterEvent → List LiveMirrorOp
  | [] => []
  | .inner (.accepted op) :: earlier => acceptedOps earlier ++ [op]
  | _ :: earlier => acceptedOps earlier

/-- The batches committed so far, oldest first. -/
def committedBatches :
    CallTrace Caller Call WriterEvent → List (IterationOrder × List LiveMirrorOp)
  | [] => []
  | .inner (.committed order batch) :: earlier => committedBatches earlier ++ [(order, batch)]
  | _ :: earlier => committedBatches earlier

/-- The operations of the committed batches. -/
def committedOps (trace : CallTrace Caller Call WriterEvent) : List LiveMirrorOp :=
  (committedBatches trace).flatMap Prod.snd

/-- The event neither accepts nor commits an operation. -/
def Neutral : CallEvent Caller Call WriterEvent → Prop
  | .inner (.accepted _) => False
  | .inner (.committed _ _) => False
  | _ => True

variable {trace : CallTrace Caller Call WriterEvent} {event : CallEvent Caller Call WriterEvent}

theorem acceptedOps_neutral (neutral : Neutral event) :
    acceptedOps (event :: trace) = acceptedOps trace := by
  cases event with
  | inner happened =>
      cases happened with
      | accepted op => exact neutral.elim
      | committed order batch => rfl
      | failed => rfl
      | recorded => rfl
  | called caller call => rfl
  | returned caller call => rfl
  | threw caller call => rfl

theorem committedBatches_neutral (neutral : Neutral event) :
    committedBatches (event :: trace) = committedBatches trace := by
  cases event with
  | inner happened =>
      cases happened with
      | accepted op => rfl
      | committed order batch => exact neutral.elim
      | failed => rfl
      | recorded => rfl
  | called caller call => rfl
  | returned caller call => rfl
  | threw caller call => rfl

theorem committedOps_neutral (neutral : Neutral event) :
    committedOps (event :: trace) = committedOps trace := by
  rw [committedOps, committedBatches_neutral neutral, committedOps]

theorem committedOps_committed (order : IterationOrder) (batch : List LiveMirrorOp) :
    committedOps (.inner (.committed order batch) :: trace) = committedOps trace ++ batch := by
  simp [committedOps, committedBatches]

/-- What was accepted stays accepted. -/
theorem acceptedOps_mono {earlier : CallTrace Caller Call WriterEvent} (suffix : earlier <:+ trace) :
    acceptedOps earlier <+: acceptedOps trace := by
  induction trace with
  | nil =>
      obtain rfl := List.eq_nil_of_suffix_nil suffix
      exact List.prefix_rfl
  | cons event rest ih =>
      rcases List.suffix_cons_iff.mp suffix with rfl | within
      · exact List.prefix_rfl
      · refine (ih within).trans ?_
        cases event with
        | inner happened =>
            cases happened with
            | accepted op => exact List.prefix_append _ _
            | committed order batch => exact List.prefix_rfl
            | failed => exact List.prefix_rfl
            | recorded => exact List.prefix_rfl
        | called caller call => exact List.prefix_rfl
        | returned caller call => exact List.prefix_rfl
        | threw caller call => exact List.prefix_rfl

/-! ## The ledger -/

/-- The batch that was taken and is not committed. -/
def WriterPhase.inFlight : WriterPhase → List LiveMirrorOp
  | writing batch _ => batch
  | _ => []

/-- The writer is between taking work and reporting it done. -/
def WriterPhase.Working : WriterPhase → Prop
  | writing _ _ => True
  | writeFailed => True
  | wrote _ => True
  | checkpointing => True
  | checkpointFailed => True
  | checkpointed => True
  | _ => False

/-- A failure is not recorded yet. -/
def WriterPhase.Failing : WriterPhase → Prop
  | writeFailed => True
  | checkpointFailed => True
  | _ => False

theorem WriterPhase.Failing.working {phase : WriterPhase} (failing : phase.Failing) :
    phase.Working := by
  cases phase with
  | writeFailed => trivial
  | checkpointFailed => trivial
  | _ => exact failing.elim

/-- The loop was left. -/
def WriterPhase.Ended : WriterPhase → Prop
  | closing => True
  | exited => True
  | _ => False

/-- The call waits for the writer to finish the checkpoint it asked for. -/
def CallPhase.Flushed : CallPhase → Prop
  | requesting => True
  | checkpointWaiting => True
  | _ => False

/-- What a normal return guarantees: a waiting call saw the operations accepted
before it committed and no failure, and no call began after a recorded error. -/
structure Guarantee (call : Call) (before earlier : CallTrace Caller Call WriterEvent) : Prop where
  committed : call.Waits → acceptedOps before <+: committedOps earlier
  noFailure : call.Waits → .inner .failed ∉ earlier
  noError : .inner .recorded ∉ before

variable [DecidableEq Caller]

theorem callers_setPhase (s : LiveWriter Caller) (caller other : Caller) (phase : CallPhase) :
    (s.setPhase caller phase).callers other = if other = caller then phase else s.callers other :=
  Function.update_apply ..

/-- The trace agrees with the state of the threads. -/
structure Ledger (db : Database) (s : LiveWriter Caller) : Prop where
  unstarted : s.serializer.writerStarted = false →
    s.writer = .loopTop ∧ acceptedOps s.trace = [] ∧ ∀ caller, s.callers caller = .idle
  connected : s.serializer.writerStarted = true → s.writer ≠ .exited → s.serializer.dbLive = true
  recorded : .inner .recorded ∈ s.trace → s.serializer.writerError = true
  stopped : s.serializer.stop = true → s.serializer.writerError = true
  ended : s.writer.Ended ↔ s.serializer.writerError = true
  failed : .inner .failed ∈ s.trace → s.writer.Failing ∨ s.serializer.writerError = true
  working : s.writer.Working → s.serializer.writerActive = true
  ordered : committedOps s.trace <+: acceptedOps s.trace
  settled : s.serializer.writerError = false → s.writer ≠ .writeFailed →
    acceptedOps s.trace = committedOps s.trace ++ s.writer.inFlight ++ s.serializer.queue
  written : db.writeBatches (committedBatches s.trace) = some s.serializer.db
  flushed : ∀ caller, (s.callers caller).Flushed →
    acceptedOps (beforeCall caller s.trace) <+: committedOps s.trace
  returns : EveryReturn Guarantee s.trace

namespace Ledger

variable {db : Database} {s : LiveWriter Caller}

theorem start (maxPendingOps : Nat) (db : Database) :
    Ledger db (LiveWriter.start Caller maxPendingOps db) where
  unstarted _ := ⟨rfl, rfl, fun _ => rfl⟩
  connected started := by cases started
  recorded present := by cases present
  stopped stop := by cases stop
  ended := ⟨False.elim, fun error => by cases error⟩
  failed present := by cases present
  working works := works.elim
  ordered := List.prefix_rfl
  settled _ _ := rfl
  written := rfl
  flushed _ phase := phase.elim
  returns := everyReturn_nil

/-- The writer is not marked active outside its working phases' sections. -/
theorem not_working (order : Ledger db s) (inactive : s.serializer.writerActive = false) :
    ¬ s.writer.Working := by
  intro works
  exact Bool.false_ne_true (inactive.symm.trans (order.working works))

/-- A drained queue without an error: everything accepted is committed. -/
theorem committed_of_drained (order : Ledger db s) (calm : s.serializer.writerError = false)
    (drained : s.serializer.drained = true) : acceptedOps s.trace = committedOps s.trace := by
  obtain ⟨empty, inactive⟩ := Bool.and_eq_true_iff.mp drained
  have resting := order.not_working (by simpa using inactive)
  have standing : s.writer ≠ .writeFailed := by
    intro failed
    exact resting (failed ▸ trivial)
  have nothing : s.writer.inFlight = [] := by
    cases phase : s.writer with
    | writing batch doCheckpoint => exact (resting (phase ▸ trivial)).elim
    | _ => rfl
  rw [order.settled calm standing, nothing, List.isEmpty_iff.mp empty]
  simp

/-- No failure is on the trace while the writer rests without an error. -/
theorem not_failed (order : Ledger db s) (calm : s.serializer.writerError = false)
    (inactive : s.serializer.writerActive = false) : .inner .failed ∉ s.trace := by
  intro present
  rcases order.failed present with failing | error
  · exact order.not_working inactive failing.working
  · exact Bool.false_ne_true (calm.symm.trans error)

/-- Without a recorded error there was none before the call of any caller. -/
theorem not_recorded (order : Ledger db s) (calm : s.serializer.writerError = false)
    (caller : Caller) : .inner .recorded ∉ beforeCall caller s.trace := by
  intro present
  have error := order.recorded ((beforeCall_suffix caller s.trace).subset present)
  exact Bool.false_ne_true (calm.symm.trans error)

/-! ### Callers -/

/-- A caller moves to a phase before its flush. -/
theorem setPhase (order : Ledger db s) (caller : Caller) {phase : CallPhase}
    (started : s.serializer.writerStarted = false → phase = .idle) (before : ¬ phase.Flushed) :
    Ledger db (s.setPhase caller phase) where
  unstarted fresh := by
    obtain ⟨top, nothing, idle⟩ := order.unstarted fresh
    refine ⟨top, nothing, fun other => ?_⟩
    rw [callers_setPhase, started fresh, idle]
    exact ite_self _
  connected := order.connected
  recorded := order.recorded
  stopped := order.stopped
  ended := order.ended
  failed := order.failed
  working := order.working
  ordered := order.ordered
  settled := order.settled
  written := order.written
  flushed other past := by
    rw [callers_setPhase] at past
    split at past
    · exact absurd past before
    · exact order.flushed other past
  returns := order.returns

/-- An event that changes no operation is added, and the caller it names is not
past its flush. -/
theorem observe (order : Ledger db s) (caller : Caller) {event : CallEvent Caller Call WriterEvent}
    (neutral : Neutral event) (calm : ∀ happened, event ≠ .inner happened)
    (others : ∀ other, other ≠ caller → beforeCall other (event :: s.trace) = beforeCall other s.trace)
    (before : ¬ (s.callers caller).Flushed) (returns : EveryReturn Guarantee (event :: s.trace)) :
    Ledger db { s with trace := event :: s.trace } where
  unstarted idle := by
    rw [acceptedOps_neutral neutral]
    exact order.unstarted idle
  connected := order.connected
  recorded present := by
    rcases List.mem_cons.mp present with same | earlier
    · exact absurd same.symm (calm _)
    · exact order.recorded earlier
  stopped := order.stopped
  ended := order.ended
  failed present := by
    rcases List.mem_cons.mp present with same | earlier
    · exact absurd same.symm (calm _)
    · exact order.failed earlier
  working := order.working
  ordered := by
    rw [acceptedOps_neutral neutral, committedOps_neutral neutral]
    exact order.ordered
  settled := by
    rw [acceptedOps_neutral neutral, committedOps_neutral neutral]
    exact order.settled
  written := by
    rw [committedBatches_neutral neutral]
    exact order.written
  flushed other phase := by
    by_cases same : other = caller
    · subst same
      exact absurd phase before
    · rw [others other same, committedOps_neutral neutral]
      exact order.flushed other phase
  returns := returns

/-- A call is made by an idle caller. -/
theorem called (order : Ledger db s) {caller : Caller} (idle : s.callers caller = .idle)
    (call : Call) : Ledger db { s with trace := .called caller call :: s.trace } := by
  refine order.observe caller trivial (by simp) ?_ ?_ ?_
  · intro other differs
    rw [beforeCall, if_neg (Ne.symm differs)]
  · rw [idle]
    exact id
  · exact order.returns.cons (by simp)

/-- A call ends with an exception or a return. -/
theorem finish (order : Ledger db s) (caller : Caller) {event : CallEvent Caller Call WriterEvent} (neutral : Neutral event)
    (calm : ∀ happened, event ≠ .inner happened)
    (same : ∀ other, beforeCall other (event :: s.trace) = beforeCall other s.trace)
    (returns : EveryReturn Guarantee (event :: s.trace)) : Ledger db (s.finish caller event) := by
  have resting : Ledger db (s.setPhase caller .idle) := order.setPhase caller (fun _ => rfl) id
  refine resting.observe caller neutral calm (fun other _ => same other) ?_ returns
  rw [callers_setPhase, if_pos rfl]
  exact id

theorem throws (order : Ledger db s) (caller : Caller) (call : Call) :
    Ledger db (s.finish caller (.threw caller call)) :=
  order.finish caller trivial (by simp) (fun _ => rfl) (order.returns.cons (by simp))

theorem returned (order : Ledger db s) {caller : Caller} {call : Call}
    (kept : Guarantee call (beforeCall caller s.trace) s.trace) :
    Ledger db (s.finish caller (.returned caller call)) :=
  order.finish caller trivial (by simp) (fun _ => rfl) (order.returns.returned kept)

/-- Before the writer is started nothing was accepted, so a return promises nothing. -/
theorem guarantee_unstarted (order : Ledger db s) (unstarted : s.serializer.writerStarted = false)
    (caller : Caller) (call : Call) : Guarantee call (beforeCall caller s.trace) s.trace := by
  obtain ⟨top, nothing, _⟩ := order.unstarted unstarted
  have calm : s.serializer.writerError = false := by
    rw [← Bool.not_eq_true, ← order.ended, top]
    exact id
  refine ⟨fun _ => ?_, fun _ present => ?_, order.not_recorded calm caller⟩
  · have none : acceptedOps (beforeCall caller s.trace) <+: [] :=
      nothing ▸ acceptedOps_mono (beforeCall_suffix caller s.trace)
    rw [List.prefix_nil.mp none]
    exact List.nil_prefix
  · rcases order.failed present with failing | error
    · exact (top ▸ failing : WriterPhase.Failing .loopTop).elim
    · exact Bool.false_ne_true (calm.symm.trans error)

/-- The fields that only wake the writer may change. -/
theorem wake (order : Ledger db s) (flushNow requestCheckpoint : Bool) :
    Ledger db { s with
      serializer := { s.serializer with
        flushNow := flushNow
        requestCheckpoint := requestCheckpoint } } :=
  ⟨order.unstarted, order.connected, order.recorded, order.stopped, order.ended, order.failed,
    order.working, order.ordered, order.settled, order.written, order.flushed, order.returns⟩

/-- `startWriter` by the first producer or by `openLive`. -/
theorem startWriter (order : Ledger db s) :
    Ledger db { s with serializer := s.serializer.startWriter } := by
  rw [Serializer.startWriter]
  split
  · exact order
  · rename_i fresh
    have unstarted := Bool.eq_false_iff.mpr fresh
    exact ⟨fun started => absurd started (by simp), fun _ _ => rfl, order.recorded, order.stopped, order.ended,
      order.failed, order.working, order.ordered, order.settled, order.written, order.flushed,
      order.returns⟩

theorem beginCall (order : Ledger db s) {caller : Caller} (idle : s.callers caller = .idle)
    (call : Call) (opened : Bool) : Ledger db (s.beginCall caller call opened) := by
  have called := order.called idle call
  cases call with
  | enqueueOp op =>
      rw [LiveWriter.beginCall]
      dsimp only
      split
      · refine called.startWriter.setPhase caller (fun fresh => ?_) id
        rw [Serializer.startWriter] at fresh
        split at fresh
        · rename_i started
          exact absurd (started.symm.trans fresh) (by simp)
        · cases fresh
      · exact called.throws caller _
  | flushPending =>
      rw [LiveWriter.beginCall]
      split
      · rename_i started
        exact called.setPhase caller (fun fresh => absurd (started.symm.trans fresh) (by simp)) id
      · rename_i fresh
        exact called.returned (called.guarantee_unstarted (Bool.eq_false_iff.mpr fresh) caller _)
  | checkpoint =>
      rw [LiveWriter.beginCall]
      split
      · rename_i started
        exact called.setPhase caller (fun fresh => absurd (started.symm.trans fresh) (by simp)) id
      · rename_i fresh
        exact called.returned (called.guarantee_unstarted (Bool.eq_false_iff.mpr fresh) caller _)

/-- The push of an operation. -/
theorem accept (order : Ledger db s) (started : s.serializer.writerStarted = true)
    (calm : s.serializer.writerError = false) (op : LiveMirrorOp) :
    Ledger db { s with
      serializer := s.serializer.push op
      trace := .inner (.accepted op) :: s.trace } where
  unstarted idle := absurd (started.symm.trans idle) (by simp)
  connected := order.connected
  recorded present := order.recorded (by simpa using present)
  stopped := order.stopped
  ended := order.ended
  failed present := order.failed (by simpa using present)
  working := order.working
  ordered := order.ordered.trans (List.prefix_append _ _)
  settled _ standing := by
    have before := order.settled calm standing
    change acceptedOps s.trace ++ [op] =
      committedOps s.trace ++ s.writer.inFlight ++ (s.serializer.queue ++ [op])
    rw [before, List.append_assoc]
  written := order.written
  flushed := order.flushed
  returns := order.returns.cons (by simp)

theorem enqueue (order : Ledger db s) (started : s.serializer.writerStarted = true)
    (caller : Caller) (op : LiveMirrorOp) : Ledger db (s.enqueue caller op) := by
  rw [LiveWriter.enqueue]
  split
  · exact order.throws caller _
  · rename_i noError
    have calm := Bool.eq_false_iff.mpr noError
    have accepted := order.accept started calm op
    exact accepted.returned ⟨False.elim, False.elim, accepted.not_recorded calm caller⟩

/-- What a caller knows once it saw the queue drained. -/
theorem guarantee (order : Ledger db s) (calm : s.serializer.writerError = false)
    (drained : s.serializer.drained = true) (caller : Caller) (call : Call) :
    Guarantee call (beforeCall caller s.trace) s.trace := by
  obtain ⟨_, inactive⟩ := Bool.and_eq_true_iff.mp drained
  refine ⟨fun _ => ?_, fun _ => order.not_failed calm (by simpa using inactive),
    order.not_recorded calm caller⟩
  rw [← order.committed_of_drained calm drained]
  exact acceptedOps_mono (beforeCall_suffix caller s.trace)

/-- A `checkpoint` call past its flush. -/
theorem passFlush (order : Ledger db s) (started : s.serializer.writerStarted = true)
    (caller : Caller) {phase : CallPhase}
    (committed : acceptedOps (beforeCall caller s.trace) <+: committedOps s.trace) :
    Ledger db (s.setPhase caller phase) where
  unstarted idle := absurd (started.symm.trans idle) (by simp)
  connected := order.connected
  recorded := order.recorded
  stopped := order.stopped
  ended := order.ended
  failed := order.failed
  working := order.working
  ordered := order.ordered
  settled := order.settled
  written := order.written
  flushed other past := by
    rw [callers_setPhase] at past
    split at past
    · rename_i same
      exact same ▸ committed
    · exact order.flushed other past
  returns := order.returns

theorem flushWait {after : LiveWriter Caller} (order : Ledger db s)
    (started : s.serializer.writerStarted = true) (caller : Caller) (forCheckpoint : Bool)
    (taken : s.flushWait caller forCheckpoint = some after) : Ledger db after := by
  rw [LiveWriter.flushWait] at taken
  split at taken
  · obtain rfl := Option.some.inj taken
    exact order.throws caller _
  · rename_i noError
    have calm := Bool.eq_false_iff.mpr noError
    split at taken
    · rename_i drained
      obtain rfl := Option.some.inj taken
      rw [LiveWriter.flushed]
      split
      · have promised := order.guarantee calm drained caller .checkpoint
        exact order.passFlush started caller (promised.committed trivial)
      · exact order.returned (order.guarantee calm drained caller .flushPending)
    · cases taken

theorem flush (order : Ledger db s) (started : s.serializer.writerStarted = true) (caller : Caller)
    (forCheckpoint : Bool) : Ledger db (s.flush caller forCheckpoint) := by
  rw [LiveWriter.flush]
  split
  · exact order.throws caller _
  · have asked := order.wake true s.serializer.requestCheckpoint
    dsimp only
    cases taken : LiveWriter.flushWait _ caller forCheckpoint with
    | none => exact asked.setPhase caller (fun fresh => absurd (started.symm.trans fresh) (by simp)) id
    | some after => exact asked.flushWait started caller forCheckpoint taken

theorem request (order : Ledger db s) (started : s.serializer.writerStarted = true)
    {caller : Caller}
    (phase : s.callers caller = .requesting) : Ledger db (s.request caller) := by
  rw [LiveWriter.request]
  split
  · exact order.throws caller _
  · refine (order.wake s.serializer.flushNow true).passFlush started caller ?_
    exact order.flushed caller (phase ▸ trivial)

theorem checkpointWait {after : LiveWriter Caller} (order : Ledger db s) {caller : Caller}
    (phase : s.callers caller = .checkpointWaiting) (taken : s.checkpointWait caller = some after) :
    Ledger db after := by
  rw [LiveWriter.checkpointWait] at taken
  split at taken
  · obtain rfl := Option.some.inj taken
    exact order.throws caller _
  · rename_i noError
    have calm := Bool.eq_false_iff.mpr noError
    split at taken
    · rename_i done
      obtain ⟨_, inactive⟩ := Bool.and_eq_true_iff.mp done
      obtain rfl := Option.some.inj taken
      refine order.returned ⟨fun _ => order.flushed caller (phase ▸ trivial), fun _ => ?_,
        order.not_recorded calm caller⟩
      exact order.not_failed calm (by simpa using inactive)
    · cases taken

theorem resume {after : LiveWriter Caller} (order : Ledger db s) {caller : Caller}
    (taken : s.resume caller = some after) : Ledger db after := by
  have started : s.serializer.writerStarted = true := by
    by_contra fresh
    have idle := (order.unstarted (Bool.eq_false_iff.mpr fresh)).2.2 caller
    rw [LiveWriter.resume, idle] at taken
    cases taken
  rw [LiveWriter.resume] at taken
  cases phase : s.callers caller with
  | idle =>
      rw [phase] at taken
      cases taken
  | enqueueing op =>
      rw [phase] at taken
      exact Option.some.inj taken ▸ order.enqueue started caller op
  | flushing forCheckpoint =>
      rw [phase] at taken
      exact Option.some.inj taken ▸ order.flush started caller forCheckpoint
  | flushWaiting forCheckpoint =>
      rw [phase] at taken
      exact order.flushWait started caller forCheckpoint taken
  | requesting =>
      rw [phase] at taken
      exact Option.some.inj taken ▸ order.request started phase
  | checkpointWaiting =>
      rw [phase] at taken
      exact order.checkpointWait phase taken

/-! ### The writer thread -/

/-- While the loop runs no error is recorded. -/
theorem calm (order : Ledger db s) (running : ¬ s.writer.Ended) :
    s.serializer.writerError = false := by
  rw [← Bool.not_eq_true, ← order.ended]
  exact running

/-- The loop is not left without an error. -/
theorem not_leaves (order : Ledger db s) (calm : s.serializer.writerError = false) :
    s.serializer.leaves = false := by
  have going : s.serializer.stop = false := by
    rw [← Bool.not_eq_true]
    intro stop
    exact Bool.false_ne_true (calm.symm.trans (order.stopped stop))
  rw [Serializer.leaves, going]
  rfl

/-- A section of the loop that records no failure. -/
theorem advance (order : Ledger db s) (started : s.serializer.writerStarted = true)
    (calm : s.serializer.writerError = false) (queue : List LiveMirrorOp)
    (flushNow requestCheckpoint writerActive : Bool) (writer : WriterPhase)
    (here : ¬ s.writer.Failing) (running : ¬ writer.Ended)
    (working : writer.Working → writerActive = true)
    (moved : writer.inFlight ++ queue = s.writer.inFlight ++ s.serializer.queue) :
    Ledger db { s with
      serializer := { s.serializer with
        queue := queue
        flushNow := flushNow
        requestCheckpoint := requestCheckpoint
        writerActive := writerActive }
      writer := writer } where
  unstarted fresh := absurd (started.symm.trans fresh) (by simp)
  connected _ _ := order.connected started fun exited => by
    have error := order.ended.mp (exited ▸ trivial)
    exact Bool.false_ne_true (calm.symm.trans error)
  recorded := order.recorded
  stopped := order.stopped
  ended := iff_of_false running (Bool.eq_false_iff.mp calm)
  failed present := .inr ((order.failed present).resolve_left here)
  working := working
  ordered := order.ordered
  settled _ _ := by
    have standing : s.writer ≠ .writeFailed := by
      intro failed
      exact here (failed ▸ trivial)
    change acceptedOps s.trace = committedOps s.trace ++ writer.inFlight ++ queue
    rw [order.settled calm standing, List.append_assoc, List.append_assoc, moved]
  written := order.written
  flushed := order.flushed
  returns := order.returns

/-- The section that takes the queue. -/
theorem takeBatch (order : Ledger db s) (started : s.serializer.writerStarted = true)
    (phase : s.writer = .loopTop) : Ledger db s.takeBatch := by
  have calm := order.calm (phase ▸ id)
  rw [LiveWriter.takeBatch, if_neg (Bool.eq_false_iff.mp (order.not_leaves calm))]
  refine order.advance started calm [] false _ _ _ (phase ▸ id) ?_ ?_ ?_
  · rw [afterTake]
    split
    · split <;> exact id
    · exact id
  · rw [afterTake]
    cases s.serializer.queue with
    | nil => cases s.serializer.requestCheckpoint <;> simp [WriterPhase.Working]
    | cons op rest => simp
  · rw [phase, afterTake]
    cases s.serializer.queue with
    | nil => cases s.serializer.requestCheckpoint <;> rfl
    | cons op rest => simp [WriterPhase.inFlight]

/-- A transaction or a checkpoint fails. -/
theorem fail (order : Ledger db s) (started : s.serializer.writerStarted = true)
    (running : ¬ s.writer.Ended) (active : s.writer.Working) {phase : WriterPhase}
    (failing : phase.Failing)
    (settled : phase ≠ .writeFailed →
      acceptedOps s.trace = committedOps s.trace ++ phase.inFlight ++ s.serializer.queue) :
    Ledger db (s.fail phase) where
  unstarted fresh := absurd (started.symm.trans fresh) (by simp)
  connected _ _ := order.connected started fun exited => running (exited ▸ trivial)
  recorded present := order.recorded (by simpa [LiveWriter.fail] using present)
  stopped := order.stopped
  ended := by
    refine iff_of_false ?_ (Bool.eq_false_iff.mp (order.calm running))
    cases phase <;> first | exact id | exact failing.elim
  failed _ := .inl failing
  working _ := order.working active
  ordered := order.ordered
  settled _ standing := settled standing
  written := order.written
  flushed := order.flushed
  returns := order.returns.cons (by simp)

/-- A committed batch leaves flight. -/
theorem committed (order : Ledger db s) (started : s.serializer.writerStarted = true)
    {batch : List LiveMirrorOp} {doCheckpoint : Bool} (phase : s.writer = .writing batch doCheckpoint)
    {iteration : IterationOrder} {tables : Database}
    (done : s.serializer.db.writeBatch iteration batch = some tables) :
    Ledger db { s with
      serializer := { s.serializer with db := tables }
      trace := .inner (.committed iteration batch) :: s.trace
      writer := .wrote doCheckpoint } := by
  have calm := order.calm (phase ▸ id)
  have taken := order.settled calm (by simp [phase])
  rw [phase] at taken
  have split : acceptedOps s.trace =
      committedOps (.inner (.committed iteration batch) :: s.trace) ++ s.serializer.queue := by
    rw [committedOps_committed, taken]
    rfl
  exact {
    unstarted := fun fresh => absurd (started.symm.trans fresh) (by simp)
    connected := fun _ _ => order.connected started (by simp [phase])
    recorded := fun present => order.recorded (by simpa using present)
    stopped := order.stopped
    ended := iff_of_false id (Bool.eq_false_iff.mp calm)
    failed := fun present =>
      .inr ((order.failed (by simpa using present)).resolve_left (phase ▸ id))
    working := fun _ => order.working (phase ▸ trivial)
    ordered := ⟨s.serializer.queue, split.symm⟩
    settled := fun _ _ => by
      change acceptedOps s.trace =
        committedOps (.inner (.committed iteration batch) :: s.trace) ++ [] ++ s.serializer.queue
      rw [List.append_nil]
      exact split
    written := by
      rw [committedBatches, Database.writeBatches, List.foldlM_append]
      have before := order.written
      rw [Database.writeBatches] at before
      simp [before, done]
    flushed := fun caller past =>
      (order.flushed caller past).trans (by
        rw [committedOps_committed]
        exact List.prefix_append _ _)
    returns := order.returns.cons (by simp) }

/-- The handlers of a failed batch or checkpoint. -/
theorem record (order : Ledger db s) (started : s.serializer.writerStarted = true)
    (here : s.writer.Failing) {serializer : Serializer} (db' : serializer.db = s.serializer.db)
    (kept : serializer.writerStarted = true) (live : serializer.dbLive = s.serializer.dbLive)
    (error : serializer.writerError = true) :
    Ledger db { s with
      serializer := serializer
      writer := .closing
      trace := .inner .recorded :: s.trace } where
  unstarted fresh := absurd (kept.symm.trans fresh) (by simp)
  connected _ _ := by
    refine live.trans (order.connected started fun exited => ?_)
    rw [exited] at here
    exact here
  recorded _ := error
  stopped _ := error
  ended := iff_of_true trivial error
  failed _ := .inr error
  working works := works.elim
  ordered := order.ordered
  settled calm := absurd (error.symm.trans calm) (by simp)
  written := by
    rw [db']
    exact order.written
  flushed := order.flushed
  returns := order.returns.cons (by simp)

/-- `writeBatch` commits, and throws afterwards if it cannot be logged. -/
theorem commit {after : LiveWriter Caller} (order : Ledger db s)
    (started : s.serializer.writerStarted = true) {batch : List LiveMirrorOp} {doCheckpoint : Bool}
    (phase : s.writer = .writing batch doCheckpoint) {iteration : IterationOrder} {logged : Bool}
    (taken : s.commit batch doCheckpoint iteration logged = some after) : Ledger db after := by
  have live : s.serializer.dbLive = true := order.connected started (by simp [phase])
  obtain ⟨serializer, transacted, rfl⟩ := Option.map_eq_some_iff.mp taken
  rw [Serializer.transact, if_pos live] at transacted
  obtain ⟨tables, written, rfl⟩ := Option.map_eq_some_iff.mp transacted
  have committed := order.committed started phase written
  dsimp only
  rw [if_pos live]
  cases logged with
  | true => exact committed
  | false => exact committed.fail started id trivial trivial (fun other => absurd rfl other)

theorem writerStep {after : LiveWriter Caller} (order : Ledger db s)
    (started : s.serializer.writerStarted = true) {choice : WriterChoice}
    (taken : s.writerStep choice = some after) : Ledger db after := by
  unfold LiveWriter.writerStep at taken
  split at taken
  case h_1 phase =>
    exact Option.some.inj taken ▸ order.takeBatch started phase
  case h_2 phase => exact order.commit started phase taken
  case h_3 phase =>
    obtain rfl := Option.some.inj taken
    exact order.fail started (phase ▸ id) (phase ▸ trivial) trivial fun other => absurd rfl other
  case h_4 phase =>
    obtain rfl := Option.some.inj taken
    exact order.record started (phase ▸ trivial) rfl started rfl rfl
  case h_5 phase =>
    obtain rfl := Option.some.inj taken
    refine order.advance started (order.calm (phase ▸ id)) _ _ _ _ .checkpointing (phase ▸ id) id
      (fun _ => order.working (phase ▸ trivial)) ?_
    rw [phase]
    rfl
  case h_6 phase =>
    obtain rfl := Option.some.inj taken
    refine order.advance started (order.calm (phase ▸ id)) _ _ _ false .loopEnd (phase ▸ id) id
      False.elim ?_
    rw [phase]
    rfl
  case h_7 phase =>
    obtain rfl := Option.some.inj taken
    refine order.advance started (order.calm (phase ▸ id)) _ _ _ _ .checkpointed (phase ▸ id) id
      (fun _ => order.working (phase ▸ trivial)) ?_
    rw [phase]
    rfl
  case h_8 phase =>
    obtain rfl := Option.some.inj taken
    refine order.fail started (phase ▸ id) (phase ▸ trivial) trivial fun _ => ?_
    have settled := order.settled (order.calm (phase ▸ id)) (by simp [phase])
    rw [phase] at settled
    exact settled
  case h_9 phase =>
    obtain rfl := Option.some.inj taken
    exact order.record started (phase ▸ trivial) rfl started rfl rfl
  case h_10 phase =>
    obtain rfl := Option.some.inj taken
    refine order.advance started (order.calm (phase ▸ id)) _ _ false false .loopEnd (phase ▸ id) id
      False.elim ?_
    rw [phase]
    rfl
  case h_11 phase =>
    obtain rfl := Option.some.inj taken
    refine order.advance started (order.calm (phase ▸ id)) _ _ _ _ .loopEnd (phase ▸ id) id
      False.elim ?_
    rw [phase]
    rfl
  case h_12 phase =>
    obtain rfl := Option.some.inj taken
    have calm := order.calm (phase ▸ id)
    rw [if_neg (Bool.eq_false_iff.mp (order.not_leaves calm))]
    refine order.advance started calm _ _ _ _ .loopTop (phase ▸ id) id False.elim ?_
    rw [phase]
    rfl
  case h_13 phase =>
    obtain rfl := Option.some.inj taken
    have error := order.ended.mp (phase ▸ trivial)
    exact ⟨fun fresh => absurd (started.symm.trans fresh) (by simp), fun _ open' => absurd rfl open',
      order.recorded, order.stopped, iff_of_true trivial error, fun _ => .inr error, False.elim,
      order.ordered, fun calm => absurd (error.symm.trans calm) (by simp), order.written,
      order.flushed, order.returns⟩
  case h_14 => cases taken

/-- Every action keeps the ledger. -/
theorem step {after : LiveWriter Caller} (order : Ledger db s) (action : Action Caller)
    (taken : s.step action = some after) : Ledger db after := by
  cases action with
  | openLive opened =>
      obtain rfl := Option.some.inj taken
      split
      · exact order.startWriter
      · exact order
  | call caller call opened =>
      simp only [LiveWriter.step] at taken
      split at taken
      · rename_i idle
        exact Option.some.inj taken ▸ order.beginCall idle call opened
      · cases taken
  | resume caller => exact order.resume taken
  | writer choice =>
      simp only [LiveWriter.step] at taken
      split at taken
      · rename_i started
        exact order.writerStep started taken
      · cases taken

/-- The ledger holds after every schedule. -/
theorem run {maxPendingOps : Nat} {schedule : List (Action Caller)} {final : LiveWriter Caller}
    (done : (machine Caller).run (LiveWriter.start Caller maxPendingOps db) schedule = some final) :
    Ledger db final := by
  have kept : ∀ (before : LiveWriter Caller) action next, Ledger db before →
      (machine Caller).step before action = some next → Ledger db next :=
    fun _ action _ order taken => order.step action taken
  exact Machine.invariant_reachable kept (start maxPendingOps db) done

end Ledger

/-! ## The barrier -/

/-- Committed batches hold the accepted operations once each and in order, the
tables are what these batches made of them, a `flushPending` or `checkpoint` that
returns saw every operation accepted before its call committed and no failed
transaction or checkpoint, and no call made after a recorded writer error returns. -/
structure DurabilityBarrier (db : Database) (s : LiveWriter Caller) : Prop where
  inOrder : committedOps s.trace <+: acceptedOps s.trace
  written : db.writeBatches (committedBatches s.trace) = some s.serializer.db
  barrier : EveryReturn (fun call before earlier =>
    call.Waits → acceptedOps before <+: committedOps earlier) s.trace
  failureIsFinal : EveryReturn (fun call _ earlier =>
    call.Waits → CallEvent.inner WriterEvent.failed ∉ earlier) s.trace
  errorIsFinal : EveryReturn (fun _ before _ =>
    CallEvent.inner WriterEvent.recorded ∉ before) s.trace

/-- Every interleaving keeps the barrier. -/
theorem durabilityBarrier_of_run {db : Database} {maxPendingOps : Nat}
    {schedule : List (Action Caller)} {final : LiveWriter Caller}
    (done : (machine Caller).run (start Caller maxPendingOps db) schedule = some final) :
    DurabilityBarrier db final := by
  have order := Ledger.run done
  exact {
    inOrder := order.ordered
    written := order.written
    barrier := order.returns.mono fun _ _ _ kept => kept.committed
    failureIsFinal := order.returns.mono fun _ _ _ kept => kept.noFailure
    errorIsFinal := order.returns.mono fun _ _ _ kept => kept.noError }

/-- A producer queues two deletion marks, the second while the writer commits the
first, and another thread flushes. -/
def flushedMarks : List (Action Nat) :=
  [.openLive true,
   .call 0 (.enqueueOp (.markDeleted 7)) true, .resume 0,
   .writer .proceed,
   .call 0 (.enqueueOp (.markDeleted 8)) true, .resume 0,
   .call 1 .flushPending true, .resume 1,
   .writer (.commit .increasing true), .writer .proceed, .writer .proceed,
   .writer .proceed, .writer (.commit .decreasing true), .writer .proceed,
   .resume 1]

/-- The flush of this run returns with both marks committed. -/
theorem durabilityBarrier_of_run_flushedMarks :
    ∃ final, (machine Nat).run (start Nat 500 .empty) flushedMarks = some final ∧
      final.trace.head? = some (.returned 1 .flushPending) ∧
      committedOps final.trace = [.markDeleted 7, .markDeleted 8] ∧
      DurabilityBarrier .empty final := by
  have ends : ((machine Nat).run (start Nat 500 .empty) flushedMarks).map (fun final =>
      (final.trace.head?, committedOps final.trace)) =
      some (some (.returned 1 .flushPending), [.markDeleted 7, .markDeleted 8]) := by
    rfl
  obtain ⟨final, done, seen⟩ := Option.map_eq_some_iff.mp ends
  exact ⟨final, done, congrArg Prod.fst seen, congrArg Prod.snd seen, durabilityBarrier_of_run done⟩

end LiveWriter

end SearchEngine.Index
