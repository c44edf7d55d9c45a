import SearchEngine.Backup.MirrorStore

/-!
# Updating a mirror history

`updateMirrorHistory` as a machine. Each action is a call that changes the store or
decides what to do with one entry; a run may stop before any of them, and the next
one begins with the store it finds. The creation and rotation of restore points is
the machine of `RestorePoints`.
-/

namespace SearchEngine.Backup

open SearchEngine.Lib

inductive EntryKind where
  | directory
  | file
deriving DecidableEq

/-- A `BackupSourceState` that is ok. -/
structure SourceState where
  reliable : Bool
  fingerprint : Name

/-- A `BackupCacheResult` that is ok, with the content that is staged. -/
structure Materialized (Content : Type) where
  content : Content
  method : Name
  sourceFingerprint : Name
  fingerprintReliable : Bool

/-- What a run meets when it visits a file. With `directoryThere` the current copy
is a directory. -/
structure FileAnswers (Content : Type) where
  inspected : Except Name SourceState
  existsError : Option Name
  typeError : Option Name
  directoryThere : Bool
  materialized : Except Name (Materialized Content)
  hashError : Option Name
  sizeError : Bool

/-- What a run decides about a file. -/
inductive Visit (Content : Type) where
  | failed (message : Name)
  /-- the recorded fingerprint is that of the source -/
  | unchanged
  /-- the staged copy has the recorded digest; the record may get a new fingerprint -/
  | sameContent (file : HistoryFile) (changed : Bool)
  | publish (staged : Content) (file : HistoryFile)

/-- How `replaceFile` ends. When it fails the archived object may be copied back. -/
inductive Replacement (Content : Type) where
  | replaced
  | refused (message : Name) (copied : Option Content)

/-- The variables of a run. -/
structure UpdateRun where
  time : Name
  timestamp : Int
  state : HistoryState
  stateExisted : Bool
  previousComplete : Bool
  sourceFiles : List Name
  sourceDirectories : List Name
  dataChanged : Bool
  metadataChanged : Bool

inductive UpdatePhase (Content : Type) where
  | idle
  | visiting (run : UpdateRun) (rest : List (Name × EntryKind))
  | archiving (run : UpdateRun) (relative : Name) (staged : Content) (file : HistoryFile)
      (rest : List (Name × EntryKind))
  | replacing (run : UpdateRun) (relative : Name) (staged : Content) (file : HistoryFile)
      (archived : Option Name) (rest : List (Name × EntryKind))
  | sweeping (run : UpdateRun) (rest : List Name)
  | writing (run : UpdateRun)
  | pointing (run : UpdateRun)
  | collecting (run : UpdateRun)

/-- `BackupTargetStatus`. -/
inductive UpdateStatus where
  | failed (message : Name)
  | unchanged
  | mirrorUpdated
deriving DecidableEq

/-- The store, what the current run is at, and what the last one returned. -/
structure MirrorUpdate (Content : Type) where
  store : MirrorStore Content
  phase : UpdatePhase Content
  result : Option UpdateStatus

inductive UpdateAction (Content : Type) where
  | begin (time : Name) (timestamp : Int) (entries : List (Name × EntryKind))
  | visitDirectory (error : Option Name)
  | visitFile (answers : FileAnswers Content)
  | archive (parentError : Option Name) (answers : MirrorStore.ArchiveAnswers)
  | replace (replacement : Replacement Content)
  | sweep (answers : MirrorStore.ArchiveAnswers)
  | verify (sameEntries : Except Name Bool)
  | write (error : Option Name)
  | create (answers : CreationAnswers)
  | rotate (answers : RotationAnswers)
  | collect (answers : MirrorStore.CleanupAnswers)
  | stop

namespace UpdateRun

/-- The variables after `readState`. -/
def start (time : Name) (timestamp : Int) (manifest : Option HistoryState) : UpdateRun where
  time := time
  timestamp := timestamp
  state :=
    match manifest with
    | none => ⟨false, ∅, [], []⟩
    | some state => { state with errors := [] }
  stateExisted := manifest.isSome
  previousComplete := manifest.any HistoryState.complete
  sourceFiles := []
  sourceDirectories := []
  dataChanged := false
  metadataChanged := !manifest.isSome || !manifest.any HistoryState.complete ||
    !manifest.all fun state => state.errors.isEmpty

def fail (run : UpdateRun) (text : Name) : UpdateRun :=
  { run with state := { run.state with errors := run.state.errors ++ [text] } }

/-- The record of a file is set. -/
def record (run : UpdateRun) (relative : Name) (file : HistoryFile) : UpdateRun :=
  { run with state := { run.state with files := run.state.files.insert relative file } }

end UpdateRun

variable {Content : Type} (hashing : Hashing Content)

/-- The decision of the loop of `updateMirrorHistory` about a file. -/
def visitFile (store : MirrorStore Content) (run : UpdateRun) (relative : Name)
    (answers : FileAnswers Content) : Visit Content :=
  match answers.inspected with
  | .error message => .failed (": cannot inspect source: ".toList ++ message)
  | .ok source =>
  match answers.existsError with
  | some message => .failed (": cannot inspect current copy: ".toList ++ message)
  | none =>
  let previous := run.state.files.find? relative
  let currentFilePresent := (store.data relative).isSome || answers.directoryThere
  match answers.typeError.filter fun _ => currentFilePresent with
  | some message => .failed (": cannot inspect current copy type: ".toList ++ message)
  | none =>
  if currentFilePresent && (store.data relative).isNone then
    .failed ": current copy is not a regular file".toList
  else if previous.any fun file => currentFilePresent && source.reliable &&
      file.fingerprintReliable && source.fingerprint == file.sourceFingerprint then
    .unchanged
  else
  match answers.materialized with
  | .error message => .failed (": cannot capture source: ".toList ++ message)
  | .ok materialized =>
  match answers.hashError with
  | some message => .failed (": cannot hash captured file: ".toList ++ message)
  | none =>
  let captured : HistoryFile :=
    { size := hashing.size materialized.content
      sha256 := hashing.sha256 materialized.content
      sourceFingerprint := materialized.sourceFingerprint
      fingerprintReliable := materialized.fingerprintReliable
      capturedAt := run.time
      capturedUnixSeconds := run.timestamp
      method := materialized.method }
  match previous.filter fun file => file.sha256 == captured.sha256 && !answers.sizeError &&
      (store.data relative).any fun content => hashing.size content == captured.size with
  | some existing =>
      let renewed :=
        { existing with
          sourceFingerprint := captured.sourceFingerprint
          fingerprintReliable := captured.fingerprintReliable
          method := captured.method }
      .sameContent renewed (renewed != existing)
  | none => .publish materialized.content captured

namespace MirrorUpdate

/-- The loop over the source entries goes on, or the one over the records begins. -/
def afterVisit (run : UpdateRun) : List (Name × EntryKind) → UpdatePhase Content
  | [] => .sweeping run run.state.files.keys
  | rest => .visiting run rest

/-- The phase after the decision about a file. -/
def decided (run : UpdateRun) (relative : Name) (rest : List (Name × EntryKind)) :
    Visit Content → UpdatePhase Content
  | .failed message => afterVisit (run.fail (relative ++ message)) rest
  | .unchanged => afterVisit run rest
  | .sameContent file changed =>
      if changed then afterVisit { run.record relative file with metadataChanged := true } rest
      else afterVisit run rest
  | .publish staged file => .archiving run relative staged file rest

/-- What follows the second enumeration of the source. -/
def verified (run : UpdateRun) (sameEntries : Except Name Bool) : UpdateRun :=
  let run :=
    match sameEntries with
    | .error message => run.fail ("cannot verify source tree: ".toList ++ message)
    | .ok false => run.fail "source directory entries changed during the backup run".toList
    | .ok true => run
  let sorted := run.sourceDirectories.insertionSort (· ≤ ·)
  let complete := run.state.errors.isEmpty
  { run with
    state := { run.state with directories := sorted, complete := complete }
    metadataChanged := run.metadataChanged || run.state.directories != sorted ||
      complete != run.previousComplete }

def failed (s : MirrorUpdate Content) (message : Name) : MirrorUpdate Content :=
  { s with phase := .idle, result := some (.failed message) }

/-- A manifest that is written or still true ends a run with errors; else the restore
points follow. -/
def published (s : MirrorUpdate Content) (run : UpdateRun) : Option (MirrorUpdate Content) :=
  if run.state.complete then
    (s.store.points.step (.begin ⟨run.time, run.timestamp, run.state⟩)).map fun points =>
      { s with store := { s.store with points := points }, phase := .pointing run }
  else
    some (s.failed (Nat.toDigits 10 run.state.errors.length ++
      (" file or source-tree error(s); current mirror kept, " ++ "restore points were not created").toList))

/-- The loops over the tiers go on, end the run, or lead to the cleanup. -/
def pointed (s : MirrorUpdate Content) (run : UpdateRun) (points : MirrorPoints HistoryState) :
    MirrorUpdate Content :=
  let next := { s with store := { s.store with points := points } }
  match points.phase with
  | .idle => if points.completed then { next with phase := .collecting run } else { next with phase := .idle }
  | _ => next

def pointCreated (points : MirrorPoints HistoryState) : Bool :=
  points.tiers.any fun h => h.decision.any Decision.created

def step (s : MirrorUpdate Content) : UpdateAction Content → Option (MirrorUpdate Content)
  | .begin time timestamp entries =>
      match s.phase with
      | .idle =>
          some { s with phase := afterVisit (.start time timestamp s.store.manifest) entries, result := none }
      | _ => none
  | .visitDirectory error =>
      match s.phase with
      | .visiting run ((relative, .directory) :: rest) =>
          let listed := { run with sourceDirectories := run.sourceDirectories ++ [relative] }
          let run :=
            match error with
            | some message => listed.fail (relative ++ ": cannot create current directory: ".toList ++ message)
            | none => listed
          some { s with phase := afterVisit run rest }
      | _ => none
  | .visitFile answers =>
      match s.phase with
      | .visiting run ((relative, .file) :: rest) =>
          let run := { run with sourceFiles := run.sourceFiles ++ [relative] }
          some { s with phase := decided run relative rest (Backup.visitFile hashing s.store run relative answers) }
      | _ => none
  | .archive parentError answers =>
      match s.phase with
      | .archiving run relative staged file rest =>
          let failing (message : Name) :=
            afterVisit (run.fail (relative ++ ": cannot publish current copy: ".toList ++ message)) rest
          match parentError with
          | some message => some { s with phase := failing ("cannot create current directory: ".toList ++ message) }
          | none =>
              match s.store.archiveCurrentFile hashing relative answers with
              | .error message => some { s with phase := failing message }
              | .ok (store, archived) =>
                  some { s with store := store, phase := .replacing run relative staged file archived rest }
      | _ => none
  | .replace replacement =>
      match s.phase with
      | .replacing run relative staged file archived rest =>
          match replacement with
          | .replaced =>
              some
                { s with
                  store := s.store.setData relative (some staged)
                  phase := afterVisit
                    { run.record relative file with dataChanged := true, metadataChanged := true } rest }
          | .refused message copied =>
              -- the copy has a source only if something was archived
              some
                { s with
                  store := s.store.setData relative (copied.filter fun _ => archived.isSome)
                  phase := afterVisit
                    (run.fail (relative ++ ": cannot publish current copy: ".toList ++ message)) rest }
      | _ => none
  | .sweep answers =>
      match s.phase with
      | .sweeping run (relative :: rest) =>
          if run.sourceFiles.contains relative then some { s with phase := .sweeping run rest }
          else
            match s.store.archiveCurrentFile hashing relative answers with
            | .error message =>
                some
                  { s with
                    phase := .sweeping
                      (run.fail (relative ++ ": cannot archive deleted file: ".toList ++ message)) rest }
            | .ok (store, _) =>
                let files := run.state.files.erase relative
                some
                  { s with
                    store := store
                    phase := .sweeping
                      { run with
                        state := { run.state with files := files }
                        dataChanged := true
                        metadataChanged := true } rest }
      | _ => none
  | .verify sameEntries =>
      match s.phase with
      | .sweeping run [] => some { s with phase := .writing (verified run sameEntries) }
      | _ => none
  | .write error =>
      match s.phase with
      | .writing run =>
          if run.metadataChanged || !run.state.complete || !run.stateExisted then
            match error with
            | some message => some (s.failed message)
            | none => published { s with store := { s.store with manifest := some run.state } } run
          else published s run
      | _ => none
  | .create answers =>
      match s.phase with
      | .pointing run => (s.store.points.step (.create answers)).map fun points => s.pointed run points
      | _ => none
  | .rotate answers =>
      match s.phase with
      | .pointing run => (s.store.points.step (.rotate answers)).map fun points => s.pointed run points
      | _ => none
  | .collect answers =>
      match s.phase with
      | .collecting run =>
          let unchanged := !run.dataChanged && !run.metadataChanged && !pointCreated s.store.points
          some
            { store := s.store.collectGarbageObjects run.state answers
              phase := .idle
              result := some (if unchanged then .unchanged else .mirrorUpdated) }
      | _ => none
  | .stop =>
      (s.store.points.step .stop).map fun points =>
        { store := { s.store with points := points }, phase := .idle, result := none }

/-- A target before its first run. -/
def start (tiers : List HistoryTier) : MirrorUpdate Content :=
  ⟨⟨fun _ => none, fun _ _ => none, none, .start tiers⟩, .idle, none⟩

end MirrorUpdate

/-- Runs of `updateMirrorHistory`, each of which may stop at any step. -/
def mirrorUpdates : Machine (MirrorUpdate Content) (UpdateAction Content) where
  step := MirrorUpdate.step hashing

end SearchEngine.Backup
