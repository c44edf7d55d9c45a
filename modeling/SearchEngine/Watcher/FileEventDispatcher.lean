import Mathlib.Data.List.Basic
import Mathlib.Data.Option.Basic
import Mathlib.Logic.Function.Basic
import SearchEngine.Lib.Machine

/-!
# The file-event dispatcher

`FileEventDispatcher` coalesces watcher events by the hash of their path and
hands one command per entry to the index when it is flushed. Watchers push under
a mutex; every scheduler period posts a flush to a pool without waiting for the
previous one, so flushes may overlap. An entry leaves the map under the mutex
and its command runs outside of it.
-/

namespace SearchEngine.Watcher

/-- A wide string of the Windows API. -/
abbrev WString := List UInt16

inductive FileEvent where
  | added
  | removed
  | modified
  | renamedOld
  | renamedNew
deriving DecidableEq, Repr

/-- Coalesce a new event with the one already waiting for the path. -/
def merge2 (old neu : FileEvent) : FileEvent :=
  if neu = .removed ∨ neu = .renamedOld then neu
  else
    let neu := if neu = .renamedNew then .added else neu
    if old = .removed then old
    else if old = .added ∧ neu = .modified then old
    else neu

/-- The key of the command that `flushPending` looks up for an event. -/
def commandOf : FileEvent → FileEvent
  | .removed | .renamedOld => .removed
  | .added | .modified | .renamedNew => .added

/-- What the dispatcher is built with: the library's hash of a path, the two
path filters and the commands that are registered. -/
structure Config where
  hash : WString → UInt64
  matchesConfiguredExtension : WString → Bool
  isPathExcluded : WString → Bool
  registered : FileEvent → Bool

/-- Removals stay accepted on excluded paths, to clean up stale records. -/
def Config.shouldAcceptFileEvent (config : Config) (evt : FileEvent) (path : WString) : Bool :=
  if !config.matchesConfiguredExtension path then false
  else if evt ≠ .removed && evt ≠ .renamedOld && config.isPathExcluded path then false
  else true

structure EventState where
  evt : FileEvent
  path : WString
  queued : Bool := false
deriving DecidableEq

structure FileEventDispatcher where
  stopping : Bool
  evtMap : UInt64 → Option EventState
  pendingQ : List UInt64

namespace FileEventDispatcher

def pushFileEvent (config : Config) (evt : FileEvent) (path : WString) (d : FileEventDispatcher) :
    FileEventDispatcher :=
  if d.stopping then d
  else if !config.shouldAcceptFileEvent evt path then d
  else
    let h := config.hash path
    -- `evtMap_[h]` creates a value-initialised entry when there is none
    let st := (d.evtMap h).getD { evt := .added, path := [] }
    let merged := if st.queued then merge2 st.evt evt else evt
    let evtMap := Function.update d.evtMap h (some { evt := merged, path := path, queued := true })
    if st.queued then { d with evtMap := evtMap }
    else { d with evtMap := evtMap, pendingQ := d.pendingQ ++ [h] }

/-- The entry that `flushPending` takes out under the mutex. -/
def erase (h : UInt64) (d : FileEventDispatcher) : FileEventDispatcher :=
  { d with evtMap := Function.update d.evtMap h none }

def stopAll (d : FileEventDispatcher) : FileEventDispatcher :=
  if d.stopping then d else { stopping := true, evtMap := fun _ => none, pendingQ := [] }

end FileEventDispatcher

/-- Where a call of `flushPending` stands: at the head of its loop, or about to
execute the command of an entry it has taken. -/
inductive Flush where
  | draining (rest : List UInt64)
  | dispatching (evt : FileEvent) (path : WString) (rest : List UInt64)
deriving DecidableEq

/-- The hashes a flush has still to look up. -/
def Flush.rest : Flush → List UInt64
  | draining rest => rest
  | dispatching _ _ rest => rest

/-- The path whose command a flush is about to execute. -/
def Flush.holds : Flush → Option WString
  | draining _ => none
  | dispatching _ path _ => some path

/-- What a client of the dispatcher sees, in order. -/
inductive Happening where
  | accepted (evt : FileEvent) (path : WString)
  | dispatched (command : FileEvent) (path : WString)
  | executed (command : FileEvent) (path : WString)
deriving DecidableEq

/-- The dispatcher, the flushes under way and the history, newest first. -/
structure System where
  dispatcher : FileEventDispatcher
  flushes : List Flush
  trace : List Happening

inductive Action where
  | push (evt : FileEvent) (path : WString)
  | startFlush
  | advance (flush : Nat)
  | stopAll
deriving DecidableEq

namespace System

def start : System := { dispatcher := ⟨false, fun _ => none, []⟩, flushes := [], trace := [] }

def push (config : Config) (evt : FileEvent) (path : WString) (s : System) : System :=
  { s with
    dispatcher := s.dispatcher.pushFileEvent config evt path
    trace :=
      if s.dispatcher.stopping || !config.shouldAcceptFileEvent evt path then s.trace
      else .accepted evt path :: s.trace }

/-- The swap at the top of `flushPending`. -/
def startFlush (s : System) : System :=
  if s.dispatcher.stopping then s
  else
    { s with
      dispatcher := { s.dispatcher with pendingQ := [] }
      flushes := s.flushes ++ [.draining s.dispatcher.pendingQ] }

/-- One step of the loop of `flushPending`. -/
def advance (config : Config) (flush : Nat) (s : System) : Option System :=
  match s.flushes[flush]? with
  | none | some (.draining []) => none
  | some (.draining (h :: rest)) =>
      if s.dispatcher.stopping then some { s with flushes := s.flushes.set flush (.draining []) }
      else
        match s.dispatcher.evtMap h with
        | none => some { s with flushes := s.flushes.set flush (.draining rest) }
        | some st =>
            some { dispatcher := s.dispatcher.erase h
                   flushes := s.flushes.set flush (.dispatching st.evt st.path rest)
                   trace := .dispatched (commandOf st.evt) st.path :: s.trace }
  | some (.dispatching evt path rest) =>
      some { s with
             flushes := s.flushes.set flush (.draining rest)
             trace :=
               if config.registered (commandOf evt) then .executed (commandOf evt) path :: s.trace
               else s.trace }

end System

/-- The dispatcher under any interleaving of watchers and flushes. -/
def machine (config : Config) : Lib.Machine System Action where
  step s
    | .push evt path => some (s.push config evt path)
    | .startFlush => some s.startFlush
    | .advance flush => s.advance config flush
    | .stopAll => some { s with dispatcher := s.dispatcher.stopAll }

/-- Every queued entry has been looked up and its command executed. -/
def System.Drained (s : System) : Prop :=
  s.dispatcher.pendingQ = [] ∧ ∀ flush ∈ s.flushes, flush = .draining []

instance (s : System) : Decidable s.Drained :=
  inferInstanceAs (Decidable (_ ∧ _))

/-- The event waiting under the name of a path. -/
def System.pendingOf (config : Config) (s : System) (path : WString) : Option FileEvent :=
  match s.dispatcher.evtMap (config.hash path) with
  | some st => if st.path = path then some st.evt else none
  | none => none

/-- What the history says about one path. -/
structure PathView where
  lastAccepted : Option FileEvent
  /-- an event was accepted since the last command was dispatched -/
  fresh : Bool
  /-- the dispatched command that has not been executed -/
  owed : Option FileEvent
  lastExecuted : Option FileEvent
deriving DecidableEq

namespace PathView

def initial : PathView := ⟨none, false, none, none⟩

def next (path : WString) (view : PathView) : Happening → PathView
  | .accepted evt of => if of = path then { view with lastAccepted := some evt, fresh := true } else view
  | .dispatched command of =>
      if of = path then { view with fresh := false, owed := some command } else view
  | .executed command of =>
      if of = path then { view with owed := none, lastExecuted := some command } else view

def of (path : WString) : List Happening → PathView
  | [] => initial
  | happening :: earlier => (of path earlier).next path happening

end PathView

end SearchEngine.Watcher
