import Mathlib.Data.List.Basic
import Mathlib.Logic.Function.Basic
import SearchEngine.Lib.Machine

/-!
# Watched directories

`MultiDirWatcher` keeps a `FileWatcher` for every configured directory below a
parent, and its thread follows the appearances and removals that the parent
reports. A `FileWatcher` holds one asynchronous read; its completion handler
decides whether the next one is started. The directories change, completions
arrive and the calls on handles succeed or fail in any order. Directory names are
compared without case by the file system and exactly by the program.
-/

namespace SearchEngine.Watcher

open Lib

/-! ## FileWatcher -/

/-- `FileWatcher`; an open `hDir_` is the directory it was opened on. -/
structure FileWatcher where
  hDir : Option Nat
  forceWalk : Bool
  initialDirPresent : Bool
  everOpened : Bool
  running : Bool
  pendingReads : Nat
deriving DecidableEq

/-- How `ReadDirectoryChangesW` completes: with events, with zero bytes because events
were lost, or with an error. -/
inductive Completion where
  | events
  | lost
  | failed
deriving DecidableEq

namespace FileWatcher

/-- The constructor. -/
def create (directory : Option Nat) (forceWalk : Bool) : FileWatcher :=
  ⟨none, forceWalk, directory.isSome, false, false, 0⟩

/-- `startRead`. -/
def startRead (w : FileWatcher) : FileWatcher :=
  if !w.running || w.hDir.isNone then w else { w with pendingReads := w.pendingReads + 1 }

/-- `openDir` decides on the mass-added walk. -/
def needWalk (w : FileWatcher) : Bool :=
  w.forceWalk || (!w.everOpened && !w.initialDirPresent) || w.everOpened

/-- `openDir` on the directory at the path: the watcher, its result, and whether it walked.
The handle may fail to open or to register. -/
def openDir (w : FileWatcher) (directory : Option Nat) (opens : Bool) : FileWatcher × Bool × Bool :=
  match directory, opens with
  | some inc, true =>
      (startRead { w with hDir := some inc, everOpened := true }, true, w.needWalk)
  | _, _ => ({ w with hDir := none }, false, false)

/-- `start`. -/
def start (w : FileWatcher) (directory : Option Nat) (opens : Bool) : FileWatcher × Bool × Bool :=
  if w.running then (w, true, false) else openDir { w with running := true } directory opens

/-- `finishPendingRead`. -/
def finishPendingRead (w : FileWatcher) : FileWatcher := { w with pendingReads := w.pendingReads - 1 }

/-- The completion handler. -/
def complete (w : FileWatcher) (completion : Completion) : FileWatcher :=
  if w.running && completion = .events then w.startRead.finishPendingRead else w.finishPendingRead

/-- One read is pending on the directory. -/
def Reads (w : FileWatcher) (directory : Nat) : Prop :=
  w.running = true ∧ w.hDir = some directory ∧ w.pendingReads = 1

/-- A watcher that could open its directory reads it. -/
theorem reads_start (inc : Nat) (forceWalk : Bool) :
    ((create (some inc) forceWalk).start (some inc) true).1.Reads inc := by
  cases forceWalk <;> exact ⟨rfl, rfl, rfl⟩

/-- Events do not change what a reading watcher holds. -/
theorem Reads.complete_events {w : FileWatcher} {directory : Nat} (reads : w.Reads directory) :
    (w.complete .events).Reads directory := by
  obtain ⟨running, handle, pending⟩ := reads
  simp [FileWatcher.complete, startRead, finishPendingRead, Reads, running, handle, pending]

end FileWatcher

/-! ## MultiDirWatcher -/

/-- The configured names, and how the file system folds their case. -/
structure Folders (Name : Type) where
  kids : List Name
  fold : Name → Name

/-- The directories below the parent by folded name: the name on disk, and which directory
it is. -/
structure Directories {Name : Type} (folders : Folders Name) where
  entry : Name → Option (Name × Nat)
  named : ∀ key found, entry key = some found → folders.fold found.1 = key

/-- A record of the parent's notifications: `ADDED` or `RENAMED_NEW_NAME`, `REMOVED` or
`RENAMED_OLD_NAME`. -/
inductive Notice (Name : Type) where
  | came (name : Name)
  | gone (name : Name)
deriving DecidableEq

def Notice.name {Name : Type} : Notice Name → Name
  | .came name | .gone name => name

/-- `hParent_`: closed, open, or open with a first read issued, from which on the system
keeps notifications for it. -/
inductive ParentHandle where
  | closed
  | opened
  | armed
deriving DecidableEq

variable {Name : Type} [DecidableEq Name] {folders : Folders Name}

/-- The directories, the watchers, and the thread on the parent: the notifications the
system keeps for it, those it is going through, and the first record in its buffer.
`owed` remembers lost events of a watcher that were not followed by a walk. -/
structure MultiDirWatcher (folders : Folders Name) where
  dirs : Directories folders
  nextDir : Nat
  inner : Name → Option FileWatcher
  parent : ParentHandle
  kept : List (Notice Name)
  batch : List (Notice Name)
  buffer : Option (Notice Name)
  owed : Name → Bool

/-- What can happen. -/
inductive WatchAction (Name : Type) where
  | appears (name : Name)
  | disappears (name : Name)
  | openParent (opens : Bool)
  | beginRead
  | readReturns (count : Nat)
  | readLost
  | readFails
  | handle (opens : Bool)
  | complete (name : Name) (completion : Completion)

namespace Directories

/-- The directory at the path of a name. -/
def directory (dirs : Directories folders) (name : Name) : Option Nat :=
  (dirs.entry (folders.fold name)).map Prod.snd

/-- A directory comes to be under a name. -/
def add (dirs : Directories folders) (name : Name) (inc : Nat) : Directories folders where
  entry := Function.update dirs.entry (folders.fold name) (some (name, inc))
  named := by
    intro key found here
    by_cases same : key = folders.fold name
    · subst same
      rw [Function.update_self] at here
      obtain rfl := Option.some.inj here
      rfl
    · rw [Function.update_of_ne same] at here
      exact dirs.named key found here

/-- The directory at the path of a name goes away. -/
def remove (dirs : Directories folders) (name : Name) : Directories folders where
  entry := Function.update dirs.entry (folders.fold name) none
  named := by
    intro key found here
    by_cases same : key = folders.fold name
    · subst same
      rw [Function.update_self] at here
      cases here
    · rw [Function.update_of_ne same] at here
      exact dirs.named key found here

end Directories

namespace MultiDirWatcher

/-- `start`: a watcher for every configured directory that could be opened. The thread has
not opened the parent yet. -/
def start (dirs : Directories folders) (nextDir : Nat) (opens : Name → Bool) :
    MultiDirWatcher folders where
  dirs := dirs
  nextDir := nextDir
  inner name :=
    let created := FileWatcher.create (dirs.directory name) false
    let started := created.start (dirs.directory name) (opens name)
    if name ∈ folders.kids ∧ started.2.1 then some started.1 else none
  parent := .closed
  kept := []
  batch := []
  buffer := none
  owed _ := false

/-- The system keeps a notification for an armed handle. -/
def notify (s : MultiDirWatcher folders) (notice : Notice Name) : MultiDirWatcher folders :=
  if s.parent = .armed then { s with kept := s.kept ++ [notice] } else s

/-- `watchParent` on one record. -/
def handleNotice (s : MultiDirWatcher folders) (opens : Bool) : Notice Name → MultiDirWatcher folders
  | .came name =>
      if name ∈ folders.kids ∧ (s.inner name).isNone then
        let created := FileWatcher.create (s.dirs.directory name) true
        let started := created.start (s.dirs.directory name) opens
        -- The watcher is kept whether or not `start` succeeded.
        { s with
          inner := Function.update s.inner name (some started.1)
          owed := if started.2.2 then Function.update s.owed name false else s.owed }
      else s
  | .gone name =>
      if name ∈ folders.kids then { s with inner := Function.update s.inner name none } else s

/-- One step. -/
def step (s : MultiDirWatcher folders) : WatchAction Name → Option (MultiDirWatcher folders)
  | .appears name =>
      match s.dirs.entry (folders.fold name) with
      | some _ => none
      | none => some (notify { s with dirs := s.dirs.add name s.nextDir, nextDir := s.nextDir + 1 }
          (.came name))
  | .disappears name =>
      match s.dirs.entry (folders.fold name) with
      | none => none
      | some found => some (notify { s with dirs := s.dirs.remove name } (.gone found.1))
  | .openParent opens =>
      if s.parent = .closed ∧ s.batch = [] then
        some { s with parent := if opens then .opened else .closed }
      else none
  | .beginRead =>
      if s.parent = .opened ∧ s.batch = [] then some { s with parent := .armed } else none
  | .readReturns count =>
      if s.parent = .armed ∧ s.batch = [] ∧ 0 < count ∧ count ≤ s.kept.length then
        some { s with
          batch := s.kept.take count
          kept := s.kept.drop count
          buffer := s.kept.head? }
      else none
  | .readLost =>
      -- `ok` with zero bytes: the loop body runs once, on what the buffer held before.
      if s.parent = .armed ∧ s.batch = [] then
        some { s with kept := [], batch := s.buffer.toList }
      else none
  | .readFails =>
      if s.parent ≠ .closed ∧ s.batch = [] then some { s with parent := .closed, kept := [] } else none
  | .handle opens =>
      match s.batch with
      | [] => none
      | notice :: rest => some (handleNotice { s with batch := rest } opens notice)
  | .complete name completion =>
      match s.inner name with
      | none => none
      | some w =>
          if w.pendingReads = 0 then none
          else some { s with
            inner := Function.update s.inner name (some (w.complete completion))
            owed := if completion = .lost then Function.update s.owed name true else s.owed }

/-- The machine. -/
def machine (folders : Folders Name) : Machine (MultiDirWatcher folders) (WatchAction Name) := ⟨step⟩

end MultiDirWatcher

end SearchEngine.Watcher
