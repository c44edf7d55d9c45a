import SearchEngine.Index.MirrorDatabase
import SearchEngine.Lib.Machine

/-!
# Point events and maintenance

`enqueueFileUpdate` and `enqueueFileDeletion` try to lock `updateMutex`; when it
is taken they put the path into the `DeferredPathQueue`. `updateDocumentBase`
holds the mutex, releases it, takes the queue once and replays every path as a
new point call. `compact` is a task of the strand that tries to lock the same
mutex. An action is one access to an atomic, one operation on a mutex or on the
queue, or a body that runs under `updateMutex`.
-/

namespace SearchEngine.Index

open SearchEngine.Lib

namespace PointDeferral

/-- The two point operations; they differ in the body under the lock. -/
inductive PointKind where
  | fileUpdate
  | fileDeletion
  deriving DecidableEq

/-- Where a point call stands. From `deferring` on it runs `deferPointPath`, with
the lock if `work` was set. -/
inductive PointPhase where
  | entered
  | rethrowing
  | tryLock
  | locked
  | body
  | deferring (owns : Bool)
  | inserting (owns : Bool)
  | inserted (owns : Bool)
  deriving DecidableEq

/-- Where an `updateDocumentBase` call stands. -/
inductive UpdatePhase where
  | entered
  | locking
  | waitingForIdle
  | starting
  | updating
  | unlocking
  | draining
  | taking
  deriving DecidableEq

/-- Where a thread stands. A point call made by a drain knows the paths that are
still to be replayed. -/
inductive ThreadPhase where
  | idle
  | point (kind : PointKind) (path : Path) (phase : PointPhase) (drain : Option (List Path))
  | update (phase : UpdatePhase)
  | replaying (rest : List Path)
  deriving DecidableEq

/-- Where the `compact` task on the strand stands. -/
inductive CompactPhase where
  | idle
  | started
  | tryLock
  | locked
  | compacting
  deriving DecidableEq

/-- How a body under the lock ends: tracked tasks were posted, nothing was done,
or it threw. -/
inductive BodyOutcome where
  | posted
  | skipped
  | threw
  deriving DecidableEq

/-- What the next access of a thread meets: nothing in particular, the outcome of
a point body, the end of an update with or without a recorded failure, the order
of the taken set, or what the file system says of a replayed path. -/
inductive Choice where
  | proceed
  | body (outcome : BodyOutcome)
  | updated (failed : Bool)
  | take (paths : List Path)
  | replay (regular : Bool)
  deriving DecidableEq

end PointDeferral

/-- What the threads share, and the deferred paths that were not replayed yet. -/
structure Maintenance (Thread : Type) where
  deferredPaths : List Path
  updateLocked : Bool
  work : Bool
  stopping : Bool
  storageFailure : Bool
  tracked : Nat
  compactions : Nat
  strand : PointDeferral.CompactPhase
  threads : Thread → PointDeferral.ThreadPhase
  unreplayed : List Path

namespace PointDeferral

variable {Thread : Type} [DecidableEq Thread]

/-- One scheduling decision. -/
inductive Action (Thread : Type) where
  | enqueueFile (thread : Thread) (kind : PointKind) (path : Path)
  | updateDocumentBase (thread : Thread)
  | compact
  | advance (thread : Thread) (choice : Choice)
  | strand
  | finishTask
  | recordStorageFailure
  | stop
  | clearDeferred
  deriving DecidableEq

end PointDeferral

namespace Maintenance

open PointDeferral

variable {Thread : Type} [DecidableEq Thread]

/-- The thread stands elsewhere. -/
def setPhase (s : Maintenance Thread) (thread : Thread) (phase : ThreadPhase) : Maintenance Thread :=
  { s with threads := Function.update s.threads thread phase }

/-- `DeferredPathQueue::defer`. -/
def defer (s : Maintenance Thread) (path : Path) : Maintenance Thread :=
  { s with
    deferredPaths := if s.deferredPaths.contains path then s.deferredPaths else s.deferredPaths ++ [path]
    unreplayed := if s.unreplayed.contains path then s.unreplayed else s.unreplayed ++ [path] }

/-- `DeferredPathQueue::clear`. -/
def clear (s : Maintenance Thread) : Maintenance Thread := { s with deferredPaths := [] }

/-! ## Point calls -/

/-- Where a thread goes on after a point call. -/
def afterCall : Option (List Path) → ThreadPhase
  | none => .idle
  | some rest => .replaying rest

/-- A point call returns; an owned lock is released. -/
def pointReturn (s : Maintenance Thread) (thread : Thread) (drain : Option (List Path))
    (owns : Bool) : Maintenance Thread :=
  { s with updateLocked := s.updateLocked && !owns }.setPhase thread (afterCall drain)

/-- A point call throws, through the drain that made it. -/
def pointThrow (s : Maintenance Thread) (thread : Thread) (owns : Bool) : Maintenance Thread :=
  { s with updateLocked := s.updateLocked && !owns }.setPhase thread .idle

/-- The next step of `enqueueFileUpdate` or `enqueueFileDeletion`. -/
def pointStep (s : Maintenance Thread) (thread : Thread) (kind : PointKind) (path : Path)
    (drain : Option (List Path)) : PointPhase → Choice → Option (Maintenance Thread)
  | .entered, .proceed => some (
      if s.stopping then s.pointReturn thread drain false
      else s.setPhase thread (.point kind path .rethrowing drain))
  | .rethrowing, .proceed => some (
      if s.storageFailure then s.pointThrow thread false
      else s.setPhase thread (.point kind path .tryLock drain))
  | .tryLock, .proceed => some (
      if s.updateLocked then s.setPhase thread (.point kind path (.deferring false) drain)
      else { s with updateLocked := true }.setPhase thread (.point kind path .locked drain))
  | .locked, .proceed => some (
      s.setPhase thread (.point kind path (if s.work then .deferring true else .body) drain))
  | .body, .body .posted =>
      some ({ s with tracked := s.tracked + 1 }.pointReturn thread drain true)
  | .body, .body .skipped => some (s.pointReturn thread drain true)
  | .body, .body .threw => some (s.pointThrow thread true)
  | .deferring owns, .proceed => some (
      if s.stopping then s.pointReturn thread drain owns
      else s.setPhase thread (.point kind path (.inserting owns) drain))
  | .inserting owns, .proceed =>
      some ((s.defer path).setPhase thread (.point kind path (.inserted owns) drain))
  | .inserted owns, .proceed =>
      some ((if s.stopping then s.clear else s).pointReturn thread drain owns)
  | _, _ => none

/-! ## Full updates -/

/-- `waitForIdle` returns: no tracked task is posted or running. -/
def idleTasks (s : Maintenance Thread) : Bool :=
  decide (s.tracked = 0) && decide (s.compactions = 0) && decide (s.strand = .idle)

/-- The next step of `updateDocumentBase`. An update that throws is caught, drains
the queue like one that returns and throws again. -/
def updateStep (s : Maintenance Thread) (thread : Thread) :
    UpdatePhase → Choice → Option (Maintenance Thread)
  | .entered, .proceed =>
      some (s.setPhase thread (if s.storageFailure then .idle else .update .locking))
  | .locking, .proceed =>
      if s.updateLocked then none
      else some ({ s with updateLocked := true }.setPhase thread (.update .waitingForIdle))
  | .waitingForIdle, .proceed =>
      if s.idleTasks then some (s.setPhase thread (.update .starting)) else none
  | .starting, .proceed => some (
      if s.work then s.setPhase thread (.update .unlocking)
      else { s with work := true }.setPhase thread (.update .updating))
  | .updating, .updated failed =>
      some ({ s with
        work := false
        storageFailure := s.storageFailure || failed }.setPhase thread (.update .unlocking))
  | .unlocking, .proceed =>
      some ({ s with updateLocked := false }.setPhase thread (.update .draining))
  | .draining, .proceed => some (
      if s.stopping then s.clear.setPhase thread .idle else s.setPhase thread (.update .taking))
  | .taking, .take paths =>
      if paths.Perm s.deferredPaths then some (s.clear.setPhase thread (.replaying paths)) else none
  | _, _ => none

/-- The replay loop of `drainOnce`. -/
def replayStep (s : Maintenance Thread) (thread : Thread) :
    List Path → Choice → Option (Maintenance Thread)
  | [], .proceed => some (s.setPhase thread .idle)
  | path :: rest, .replay regular => some (
      if s.stopping then s.setPhase thread (.replaying rest)
      else { s with unreplayed := s.unreplayed.filter fun other => decide (other ≠ path) }.setPhase
        thread (.point (if regular then .fileUpdate else .fileDeletion) path .entered (some rest)))
  | _, _ => none

/-- The next step of a thread. -/
def advance (s : Maintenance Thread) (thread : Thread) (choice : Choice) :
    Option (Maintenance Thread) :=
  match s.threads thread with
  | .idle => none
  | .point kind path phase drain => s.pointStep thread kind path drain phase choice
  | .update phase => s.updateStep thread phase choice
  | .replaying rest => s.replayStep thread rest choice

/-! ## Compaction -/

/-- The next step of the `compact` task; the deferred queue is not touched. -/
def strandStep (s : Maintenance Thread) : Option (Maintenance Thread) :=
  match s.strand with
  | .idle =>
      if s.compactions = 0 then none
      else some { s with compactions := s.compactions - 1, strand := .started }
  | .started => some { s with strand := if s.work then .idle else .tryLock }
  | .tryLock => some (
      if s.updateLocked then { s with strand := .idle }
      else { s with updateLocked := true, strand := .locked })
  | .locked => some (
      if s.work then { s with updateLocked := false, strand := .idle }
      else { s with strand := .compacting })
  | .compacting => some { s with updateLocked := false, strand := .idle }

/-- The transition function. -/
def step (s : Maintenance Thread) : Action Thread → Option (Maintenance Thread)
  | .enqueueFile thread kind path =>
      if s.threads thread = .idle then some (s.setPhase thread (.point kind path .entered none))
      else none
  | .updateDocumentBase thread =>
      if s.threads thread = .idle then some (s.setPhase thread (.update .entered)) else none
  | .compact => some { s with compactions := s.compactions + 1 }
  | .advance thread choice => s.advance thread choice
  | .strand => s.strandStep
  | .finishTask => if s.tracked = 0 then none else some { s with tracked := s.tracked - 1 }
  | .recordStorageFailure => some { s with storageFailure := true }
  | .stop => some { s with stopping := true }
  | .clearDeferred => if s.stopping then some s.clear else none

/-- The threads and the strand as a machine. -/
def machine (Thread : Type) [DecidableEq Thread] : Machine (Maintenance Thread) (Action Thread) :=
  ⟨step⟩

/-- Nothing runs and nothing is deferred. -/
def start (Thread : Type) : Maintenance Thread where
  deferredPaths := []
  updateLocked := false
  work := false
  stopping := false
  storageFailure := false
  tracked := 0
  compactions := 0
  strand := .idle
  threads _ := .idle
  unreplayed := []

end Maintenance

end SearchEngine.Index
