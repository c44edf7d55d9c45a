import SearchEngine.Index.WriteBatch
import SearchEngine.Lib.CallTrace
import SearchEngine.Lib.Machine

/-!
# The threads around the mirror queue

Producers call `enqueueOp` (behind `writeFile` and `markFileDeleted`), maintenance
calls `flushPending` and `checkpoint`, and the writer thread runs `writerLoop`.
One action of the machine is one section under `queueMutex_`, one transaction or
one checkpoint. A wait on a condition variable is left when its predicate holds;
the writer's own wait also ends by its timeout, so the writer may always go on.
`openLive` runs before the serializer is shared, so starting the writer is atomic.
-/

namespace SearchEngine.Index

open SearchEngine.Lib

namespace LiveWriter

/-- A call from outside the writer thread. -/
inductive Call where
  | enqueueOp (op : LiveMirrorOp)
  | flushPending
  | checkpoint
  deriving DecidableEq

/-- The call waits for the writer. -/
def Call.Waits : Call → Prop
  | .enqueueOp _ => False
  | .flushPending => True
  | .checkpoint => True

/-- What happens inside the serializer. -/
inductive WriterEvent where
  | accepted (op : LiveMirrorOp)
  | committed (order : IterationOrder) (batch : List LiveMirrorOp)
  | failed
  | recorded

/-- Where a caller stands. A `checkpoint` call first runs `flushPending`. -/
inductive CallPhase where
  | idle
  | enqueueing (op : LiveMirrorOp)
  | flushing (forCheckpoint : Bool)
  | flushWaiting (forCheckpoint : Bool)
  | requesting
  | checkpointWaiting
  deriving DecidableEq

/-- Where `writerLoop` stands. -/
inductive WriterPhase where
  | loopTop
  | writing (batch : List LiveMirrorOp) (doCheckpoint : Bool)
  | writeFailed
  | wrote (doCheckpoint : Bool)
  | checkpointing
  | checkpointFailed
  | checkpointed
  | nothingToDo
  | loopEnd
  | closing
  | exited
  deriving DecidableEq

/-- How the writer goes on: past a section, or with the outcome of a transaction
or a checkpoint. A committed batch may still throw while it is logged. -/
inductive WriterChoice where
  | proceed
  | commit (order : IterationOrder) (logged : Bool)
  | rollBack
  | checkpoint (succeeds : Bool)

/-- The fields of `SQLiteIndexSerializer` that the threads share, and the tables. -/
structure Serializer where
  maxPendingOps : Nat
  queue : List LiveMirrorOp
  stop : Bool
  flushNow : Bool
  requestCheckpoint : Bool
  writerActive : Bool
  writerStarted : Bool
  dbLive : Bool
  writerError : Bool
  db : Database

namespace Serializer

/-- A serializer before `startWriter`. -/
def new (maxPendingOps : Nat) (db : Database) : Serializer where
  maxPendingOps := maxPendingOps
  queue := []
  stop := false
  flushNow := false
  requestCheckpoint := false
  writerActive := false
  writerStarted := false
  dbLive := false
  writerError := false
  db := db

/-- `startWriter` after `openLiveDb` succeeded. -/
def startWriter (s : Serializer) : Serializer :=
  if s.writerStarted then s else { s with dbLive := true, writerStarted := true }

/-- The push of `enqueueOp`. -/
def push (s : Serializer) (op : LiveMirrorOp) : Serializer :=
  { s with
    queue := s.queue ++ [op]
    flushNow := s.flushNow ||
      (decide (0 < s.maxPendingOps) && decide (s.maxPendingOps ≤ s.queue.length + 1)) }

/-- `queue_.empty() && !writerActive_`. -/
def drained (s : Serializer) : Bool := s.queue.isEmpty && !s.writerActive

/-- `stop_ && queue_.empty() && !requestCheckpoint_`. -/
def leaves (s : Serializer) : Bool := s.stop && s.queue.isEmpty && !s.requestCheckpoint

/-- The section that takes a batch. -/
def takeBatch (s : Serializer) : Serializer :=
  { s with
    queue := []
    flushNow := false
    writerActive := !s.queue.isEmpty || s.requestCheckpoint }

/-- The section of the handlers of a failed checkpoint. -/
def recordError (s : Serializer) : Serializer :=
  { s with
    writerError := true
    writerActive := false
    requestCheckpoint := false
    stop := true }

/-- The section of the handlers of a failed batch. -/
def recordWriteError (s : Serializer) : Serializer := { s.recordError with queue := [] }

/-- The transaction of `writeBatch`; without an open database nothing is written. -/
def transact (s : Serializer) (order : IterationOrder) (batch : List LiveMirrorOp) :
    Option Serializer :=
  if s.dbLive then (s.db.writeBatch order batch).map fun db => { s with db := db } else some s

end Serializer

end LiveWriter

/-- The serializer, its writer thread, its callers and what was observed. -/
structure LiveWriter (Caller : Type) where
  serializer : LiveWriter.Serializer
  writer : LiveWriter.WriterPhase
  callers : Caller → LiveWriter.CallPhase
  trace : CallTrace Caller LiveWriter.Call LiveWriter.WriterEvent

namespace LiveWriter

variable {Caller : Type} [DecidableEq Caller]

/-- One scheduling decision. `opened` tells whether `openLiveDb` would succeed. -/
inductive Action (Caller : Type) where
  | openLive (opened : Bool)
  | call (caller : Caller) (call : Call) (opened : Bool)
  | resume (caller : Caller)
  | writer (choice : WriterChoice)

/-- The caller stands elsewhere. -/
def setPhase (s : LiveWriter Caller) (caller : Caller) (phase : CallPhase) : LiveWriter Caller :=
  { s with callers := Function.update s.callers caller phase }

/-- The call ends with an event. -/
def finish (s : LiveWriter Caller) (caller : Caller)
    (event : CallEvent Caller Call WriterEvent) : LiveWriter Caller :=
  { s.setPhase caller .idle with trace := event :: s.trace }

/-! ## Callers -/

/-- The call that a maintenance phase belongs to. -/
def flushCall (forCheckpoint : Bool) : Call := if forCheckpoint then .checkpoint else .flushPending

/-- A call begins. Without a writer `enqueueOp` starts it and the others return. -/
def beginCall (s : LiveWriter Caller) (caller : Caller) (call : Call) (opened : Bool) :
    LiveWriter Caller :=
  let called := { s with trace := .called caller call :: s.trace }
  match call with
  | .enqueueOp op =>
      if s.serializer.writerStarted || opened then
        { called with serializer := s.serializer.startWriter }.setPhase caller (.enqueueing op)
      else called.finish caller (.threw caller call)
  | .flushPending =>
      if s.serializer.writerStarted then called.setPhase caller (.flushing false)
      else called.finish caller (.returned caller call)
  | .checkpoint =>
      if s.serializer.writerStarted then called.setPhase caller (.flushing true)
      else called.finish caller (.returned caller call)

/-- The section of `enqueueOp`. -/
def enqueue (s : LiveWriter Caller) (caller : Caller) (op : LiveMirrorOp) : LiveWriter Caller :=
  if s.serializer.writerError then s.finish caller (.threw caller (.enqueueOp op))
  else
    { s with
      serializer := s.serializer.push op
      trace := .inner (.accepted op) :: s.trace }.finish caller (.returned caller (.enqueueOp op))

/-- `flushPending` past its loop. -/
def flushed (s : LiveWriter Caller) (caller : Caller) (forCheckpoint : Bool) : LiveWriter Caller :=
  if forCheckpoint then s.setPhase caller .requesting
  else s.finish caller (.returned caller .flushPending)

/-- The wait of `flushPending` and what follows it. -/
def flushWait (s : LiveWriter Caller) (caller : Caller) (forCheckpoint : Bool) :
    Option (LiveWriter Caller) :=
  if s.serializer.writerError then some (s.finish caller (.threw caller (flushCall forCheckpoint)))
  else if s.serializer.drained then some (s.flushed caller forCheckpoint)
  else none

/-- The first section of `flushPending`. -/
def flush (s : LiveWriter Caller) (caller : Caller) (forCheckpoint : Bool) : LiveWriter Caller :=
  if s.serializer.writerError then s.finish caller (.threw caller (flushCall forCheckpoint))
  else
    let asked := { s with serializer := { s.serializer with flushNow := true } }
    (asked.flushWait caller forCheckpoint).getD (asked.setPhase caller (.flushWaiting forCheckpoint))

/-- The section of `checkpoint` up to its wait. -/
def request (s : LiveWriter Caller) (caller : Caller) : LiveWriter Caller :=
  if s.serializer.writerError then s.finish caller (.threw caller .checkpoint)
  else
    { s with serializer := { s.serializer with requestCheckpoint := true } }.setPhase caller
      .checkpointWaiting

/-- The wait of `checkpoint` and what follows it. -/
def checkpointWait (s : LiveWriter Caller) (caller : Caller) : Option (LiveWriter Caller) :=
  if s.serializer.writerError then some (s.finish caller (.threw caller .checkpoint))
  else if !s.serializer.requestCheckpoint && !s.serializer.writerActive then
    some (s.finish caller (.returned caller .checkpoint))
  else none

/-- The next section of a call. -/
def resume (s : LiveWriter Caller) (caller : Caller) : Option (LiveWriter Caller) :=
  match s.callers caller with
  | .idle => none
  | .enqueueing op => some (s.enqueue caller op)
  | .flushing forCheckpoint => some (s.flush caller forCheckpoint)
  | .flushWaiting forCheckpoint => s.flushWait caller forCheckpoint
  | .requesting => some (s.request caller)
  | .checkpointWaiting => s.checkpointWait caller

/-! ## The writer thread -/

/-- Where the writer goes with a batch and a request. -/
def afterTake (batch : List LiveMirrorOp) (doCheckpoint : Bool) : WriterPhase :=
  if batch.isEmpty then (if doCheckpoint then .checkpointing else .nothingToDo)
  else .writing batch doCheckpoint

/-- The first section of the loop. -/
def takeBatch (s : LiveWriter Caller) : LiveWriter Caller :=
  if s.serializer.leaves then { s with writer := .closing }
  else
    { s with
      serializer := s.serializer.takeBatch
      writer := afterTake s.serializer.queue s.serializer.requestCheckpoint }

/-- A failed transaction or checkpoint. -/
def fail (s : LiveWriter Caller) (phase : WriterPhase) : LiveWriter Caller :=
  { s with writer := phase, trace := .inner .failed :: s.trace }

/-- `writeBatch` commits the transaction. -/
def commit (s : LiveWriter Caller) (batch : List LiveMirrorOp) (doCheckpoint : Bool)
    (order : IterationOrder) (logged : Bool) : Option (LiveWriter Caller) :=
  (s.serializer.transact order batch).map fun serializer =>
    let committed := { s with
      serializer := serializer
      trace := if s.serializer.dbLive then .inner (.committed order batch) :: s.trace else s.trace }
    if logged then { committed with writer := .wrote doCheckpoint } else committed.fail .writeFailed

/-- One step of `writerLoop`. -/
def writerStep (s : LiveWriter Caller) (choice : WriterChoice) : Option (LiveWriter Caller) :=
  match s.writer, choice with
  | .loopTop, .proceed => some s.takeBatch
  | .writing batch doCheckpoint, .commit order logged => s.commit batch doCheckpoint order logged
  | .writing _ _, .rollBack => some (s.fail .writeFailed)
  | .writeFailed, .proceed => some { s with
      serializer := s.serializer.recordWriteError
      writer := .closing
      trace := .inner .recorded :: s.trace }
  | .wrote true, .proceed => some { s with writer := .checkpointing }
  | .wrote false, .proceed => some { s with
      serializer := { s.serializer with writerActive := false }
      writer := .loopEnd }
  | .checkpointing, .checkpoint true => some { s with writer := .checkpointed }
  | .checkpointing, .checkpoint false => some (s.fail .checkpointFailed)
  | .checkpointFailed, .proceed => some { s with
      serializer := s.serializer.recordError
      writer := .closing
      trace := .inner .recorded :: s.trace }
  | .checkpointed, .proceed => some { s with
      serializer := { s.serializer with writerActive := false, requestCheckpoint := false }
      writer := .loopEnd }
  | .nothingToDo, .proceed => some { s with writer := .loopEnd }
  | .loopEnd, .proceed => some { s with
      writer := if s.serializer.leaves then .closing else .loopTop }
  | .closing, .proceed => some { s with
      serializer := { s.serializer with dbLive := false }
      writer := .exited }
  | _, _ => none

/-- The transition function. -/
def step (s : LiveWriter Caller) : Action Caller → Option (LiveWriter Caller)
  | .openLive opened =>
      some (if opened then { s with serializer := s.serializer.startWriter } else s)
  | .call caller call opened =>
      if s.callers caller = .idle then some (s.beginCall caller call opened) else none
  | .resume caller => s.resume caller
  | .writer choice => if s.serializer.writerStarted then s.writerStep choice else none

/-- The threads as a machine. -/
def machine (Caller : Type) [DecidableEq Caller] : Machine (LiveWriter Caller) (Action Caller) :=
  ⟨step⟩

/-- A serializer that nobody uses yet. -/
def start (Caller : Type) (maxPendingOps : Nat) (db : Database) : LiveWriter Caller where
  serializer := .new maxPendingOps db
  writer := .loopTop
  callers _ := .idle
  trace := []

end LiveWriter

end SearchEngine.Index
