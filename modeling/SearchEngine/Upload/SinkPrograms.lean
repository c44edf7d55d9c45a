import SearchEngine.Lib.Ownership
import SearchEngine.Upload.UploadTarget

/-!
# Sinks at work on one file system

The methods of `StreamingUploadSink` as coroutines: each call is one operation of the
file system, and the operations of different sinks interleave. A file is where the file
system puts its path (`locate`), so two spellings of a path may be one place. Folders are
not followed: the checks of folders give whatever the file system answers.
-/

namespace SearchEngine.Upload

open Files Lib Server

/-- `StreamingUploadSink`, with whether its staging handle is open. -/
structure StreamingUploadSink extends UploadSink where
  stagingHandle : Bool

def StreamingUploadSink.new : StreamingUploadSink where
  destinationDir := []
  stagingPath := []
  publishedPath := []
  requestedFileName := []
  savedName := []
  advertisedSize := 0
  bytesWritten := 0
  prepared := false
  published := false
  stagingHandle := false

/-! ## Calls -/

/-- What a sink asks of the file system. -/
inductive SinkCall where
  | ensureSafeDirectoryTree (directory : Path)
  | nextStagingLeaf
  | createNew (path : Path)
  | checkStaging (path : Path)
  | writeFile (path : Path) (piece : List UInt8)
  | flushFileBuffers (path : Path)
  | taken (path : Path)
  | moveFile (source target : Path)
  | checkPublished (path : Path)
  | remove (path : Path)

/-- `WriteFile` returned true, and the bytes that reached the file. -/
structure Written where
  done : Bool
  count : Nat

abbrev SinkCall.Answer : SinkCall → Type
  | .ensureSafeDirectoryTree _ => Except Failure Unit
  | .nextStagingLeaf => Path
  | .createNew _ => FileAnswer
  | .checkStaging _ => Except Failure Unit
  | .writeFile _ _ => Written
  | .flushFileBuffers _ => Bool
  | .taken _ => Bool
  | .moveFile _ _ => FileAnswer
  | .checkPublished _ => Except Failure Unit
  | .remove _ => Bool

/-- What a sink cannot know of one call. -/
structure SinkChoice where
  granted : Bool
  checked : Except Failure Unit
  file : FileAnswer
  ticks : Nat
  stored : Nat
  folders : UploadDisk

/-- The files by their places, and the number of the last staging name of the process. -/
structure SinkWorld (Place : Type) where
  files : Heap Place (List UInt8)
  sequence : Nat

/-- `nextStagingLeaf`, for this number. -/
def nextStagingLeaf (processId ticks next : Nat) : Path :=
  stagingStart ++ (Nat.toDigits 10 processId ++ '-' :: (Nat.toDigits 10 ticks ++
    '-' :: (Nat.toDigits 10 next ++ stagingEnd)))

section FileSystem

variable {Place : Type} [DecidableEq Place] (locate : Path → Place) (processId : Nat)

/-- The answer when the place has a file. -/
def FileAnswer.refused : FileAnswer → FileAnswer
  | .failed lastError => .failed lastError
  | .done => .occupied
  | .occupied => .occupied

/-- An existing file is never created anew nor replaced, and a missing one is not moved. -/
def SinkWorld.respond (world : SinkWorld Place) : (call : SinkCall) → SinkChoice → call.Answer
  | .ensureSafeDirectoryTree directory, choice => ensureSafeDirectoryTree choice.folders directory directory
  | .nextStagingLeaf, choice => nextStagingLeaf processId choice.ticks (world.sequence + 1)
  | .createNew path, choice => if (world.files (locate path)).isSome then choice.file.refused else choice.file
  | .checkStaging _, choice => choice.checked
  | .writeFile _ piece, choice => ⟨choice.granted, min choice.stored piece.length⟩
  | .flushFileBuffers _, choice => choice.granted
  | .taken _, choice => choice.granted
  | .moveFile source target, choice =>
      if (world.files (locate target)).isSome || (world.files (locate source)).isNone then choice.file.refused
      else choice.file
  | .checkPublished _, choice => choice.checked
  | .remove _, choice => choice.granted

/-- What the answer has done to the files. -/
def SinkWorld.next (world : SinkWorld Place) : (call : SinkCall) → call.Answer → SinkWorld Place
  | .nextStagingLeaf, _ => { world with sequence := world.sequence + 1 }
  | .createNew path, .done => { world with files := Function.update world.files (locate path) (some []) }
  | .writeFile path piece, written => { world with
      files := Function.update world.files (locate path)
        ((world.files (locate path)).map (· ++ piece.take written.count)) }
  | .moveFile source target, .done => { world with
      files := Function.update (Function.update world.files (locate source) none) (locate target)
        (world.files (locate source)) }
  | .remove path, true => { world with files := Function.update world.files (locate path) none }
  | _, _ => world

/-- The file system of the process with this number. -/
def sinkHandler : Handler SinkCall SinkCall.Answer (SinkWorld Place) SinkChoice where
  respond := SinkWorld.respond locate processId
  next := SinkWorld.next locate

end FileSystem

/-! ## Methods -/

/-- One operation of the file system. -/
def perform (call : SinkCall) : Coroutine SinkCall SinkCall.Answer Empty call.Answer := Coroutine.call call

/-- A method of the sink, with the sink as it leaves it. -/
abbrev SinkMethod := Coroutine SinkCall SinkCall.Answer Empty (Except Failure Unit × StreamingUploadSink)

namespace StreamingUploadSink

variable (table : UpperCase)

/-- `abort`. -/
def abort (sink : StreamingUploadSink) : Coroutine SinkCall SinkCall.Answer Empty StreamingUploadSink := do
  if sink.prepared && !sink.published && !sink.stagingPath.isEmpty then
    let _ignored ← perform (.remove sink.stagingPath)
  return { sink with
    stagingHandle := false, prepared := false, published := false, stagingPath := [], bytesWritten := 0 }

/-- `abort`, then the failure. -/
def abandon (sink : StreamingUploadSink) (failure : Failure) : SinkMethod := do
  let sink ← sink.abort
  return (.error failure, sink)

/-- The attempts of `prepare` at a staging file. -/
def chooseStaging (directory : Path) : Nat → Coroutine SinkCall SinkCall.Answer Empty (Except Failure Path)
  | 0 => return .error ⟨.fileOpenFailed, "failed to choose unique staging name"⟩
  | attempts + 1 => do
      let leaf ← perform .nextStagingLeaf
      let staging := joinPath directory leaf
      if !compositionStaysUnderDirectory directory staging then
        return .error ⟨.configurationError, "staging path escapes destination directory"⟩
      else
        match ← perform (.createNew staging) with
        | .done => return .ok staging
        | .occupied => chooseStaging directory attempts
        | .failed lastError =>
            return .error ⟨.fileOpenFailed, "failed to create staging file: " ++ toString lastError⟩

/-- `prepare` from the staging file on. -/
def openStaging (sink : StreamingUploadSink) (target : PlannedTarget) (fileSize : Nat) : SinkMethod := do
  match ← chooseStaging target.directory 256 with
  | .error failure => return (.error failure, sink)
  | .ok staging =>
      match ← perform (.checkStaging staging) with
      | .error failure =>
          let _ignored ← perform (.remove staging)
          return (.error failure, sink)
      | .ok _ => return (.ok (), { sink with
          stagingHandle := true, destinationDir := target.directory, stagingPath := staging,
          advertisedSize := fileSize, bytesWritten := 0, savedName := [], publishedPath := [],
          prepared := true, published := false })

/-- `prepare`. -/
def prepare (target : PlannedTarget) (fileSize : Nat) (sink : StreamingUploadSink) : SinkMethod := do
  let sink ← sink.abort
  if target.directory.isEmpty || target.baseName.isEmpty then
    return (.error ⟨.internalError, "upload target is empty"⟩, sink)
  else if !isSafeFileComponent table target.baseName then
    return (.error ⟨.invalidRequest, "unsafe file_name"⟩, sink)
  else
    let sink := { sink with requestedFileName := target.baseName }
    if !compositionStaysUnderDirectory target.directory (joinPath target.directory target.baseName) then
      return (.error ⟨.configurationError, "upload target escapes destination directory"⟩, sink)
    else
      match ← perform (.ensureSafeDirectoryTree target.directory) with
      | .error failure => return (.error failure, sink)
      | .ok _ => sink.openStaging target fileSize

/-- The loop of `writeChunk`: `WriteFile` for at most 64 KiB at a time. -/
def storePieces (path : Path) : Nat → List UInt8 → Coroutine SinkCall SinkCall.Answer Empty Bool
  | 0, _ => return true
  | rounds + 1, rest =>
      if rest.isEmpty then return true
      else do
        let piece := rest.take (64 * 1024)
        let written ← perform (.writeFile path piece)
        if !written.done || written.count ≠ piece.length then return false
        else storePieces path rounds (rest.drop written.count)

/-- `writeChunk`. -/
def writeChunk (chunk : List UInt8) (sink : StreamingUploadSink) : SinkMethod :=
  if !sink.prepared || sink.published then return (.error ⟨.internalError, "upload sink is not writable"⟩, sink)
  else if chunk.isEmpty then return (.ok (), sink)
  else if sink.bytesWritten > sink.advertisedSize || chunk.length > sink.advertisedSize - sink.bytesWritten then
    return (.error ⟨.invalidRequest, "upload exceeded advertised file_size"⟩, sink)
  else if !sink.stagingHandle then return (.error ⟨.fileOpenFailed, "staging handle is closed"⟩, sink)
  else do
    if ← storePieces sink.stagingPath chunk.length chunk then
      return (.ok (), { sink with bytesWritten := sink.bytesWritten + chunk.length })
    else return (.error ⟨.fileWriteFailed, "staging WriteFile failed"⟩, sink)

/-- The attempts of `publish` at a name, from the one with this index. -/
def chooseName (sink : StreamingUploadSink) : Nat → Nat → SinkMethod
  | 0, _ => sink.abandon ⟨.fileWriteFailed, "failed to choose a unique published name"⟩
  | attempts + 1, index =>
      let candidateName := suffixedFileName sink.requestedFileName index
      let dest := joinPath sink.destinationDir candidateName
      if !compositionStaysUnderDirectory sink.destinationDir dest then
        sink.abandon ⟨.configurationError, "publish candidate escapes destination directory"⟩
      else do
        if ← perform (.taken dest) then chooseName sink attempts (index + 1)
        else
          match ← perform (.moveFile sink.stagingPath dest) with
          | .occupied => chooseName sink attempts (index + 1)
          | .failed lastError => sink.abandon ⟨.fileWriteFailed, "MoveFileExW failed: " ++ toString lastError⟩
          | .done =>
              match ← perform (.checkPublished dest) with
              | .error failure =>
                  let _ignored ← perform (.remove dest)
                  sink.abandon failure
              | .ok _ => return (.ok (), { sink with
                  savedName := candidateName, publishedPath := dest, stagingPath := [],
                  prepared := false, published := true })

/-- `publish`. -/
def publish (sink : StreamingUploadSink) : SinkMethod :=
  if !sink.prepared || sink.published then
    return (.error ⟨.internalError, "upload sink is not ready to publish"⟩, sink)
  else if sink.bytesWritten ≠ sink.advertisedSize then
    return (.error ⟨.fileWriteFailed, "advertised file_size was not fully received"⟩, sink)
  else do
    let flushed ← if sink.stagingHandle then perform (.flushFileBuffers sink.stagingPath) else pure true
    if !flushed then return (.error ⟨.fileWriteFailed, "FlushFileBuffers failed"⟩, sink)
    else chooseName { sink with stagingHandle := false } 100000 0

end StreamingUploadSink

/-- The calls on a sink; `abort` is also its destructor. -/
inductive SinkCommand where
  | prepare (target : PlannedTarget) (fileSize : Nat)
  | writeChunk (chunk : List UInt8)
  | publish
  | abort
  deriving DecidableEq

/-- The result of a method, and `publishedPath` after it. -/
structure SinkResult where
  result : Except Failure Unit
  publishedPath : Path

/-- What a method does with its sink. -/
def SinkCommand.method (table : UpperCase) : SinkCommand → StreamingUploadSink → SinkMethod
  | .prepare target fileSize, sink => sink.prepare table target fileSize
  | .writeChunk chunk, sink => sink.writeChunk chunk
  | .publish, sink => sink.publish
  | .abort, sink => do
      let sink ← sink.abort
      return (.ok (), sink)

/-- A method as its caller sees it. -/
def SinkCommand.program (table : UpperCase) (command : SinkCommand) (sink : StreamingUploadSink) :
    Coroutine SinkCall SinkCall.Answer Empty (SinkResult × StreamingUploadSink) := do
  let ended ← command.method table sink
  return (⟨ended.1, ended.2.publishedPath⟩, ended.2)

/-- Any number of sinks on one file system. -/
def sinkMachine {Sink Place : Type} [DecidableEq Sink] [DecidableEq Place] (table : UpperCase)
    (locate : Path → Place) (processId : Nat) :
    Machine (Agents Sink SinkCommand SinkCall SinkCall.Answer SinkResult StreamingUploadSink (SinkWorld Place))
      (Turn Sink SinkCommand SinkChoice) :=
  Agents.machine (sinkHandler locate processId) (SinkCommand.program table)

/-! ## One sink on a disk with fixed answers -/

/-- The answers of a disk that depend on the call alone; the state is the number of the last
staging name. -/
def UploadDisk.handler (disk : UploadDisk) : Handler SinkCall SinkCall.Answer Nat Unit where
  respond number call _ :=
    match call with
    | .ensureSafeDirectoryTree directory => ensureSafeDirectoryTree disk directory directory
    | .nextStagingLeaf => stagingLeaf disk (number + 1)
    | .createNew path => disk.createNew path
    | .checkStaging path => disk.checkExistingFile path
    | .writeFile _ piece => ⟨true, piece.length⟩
    | .flushFileBuffers _ => disk.flushes
    | .taken path => disk.taken path
    | .moveFile source target => disk.moveFile source target
    | .checkPublished path => disk.checkExistingFile path
    | .remove _ => true
  next number call _ :=
    match call with
    | .nextStagingLeaf => number + 1
    | _ => number

/-- A method ended as the plan of the single upload says. -/
def EndsAs (planned : Except Failure UploadSink) (stagingHandle : Bool)
    (ended : Except Empty (Except Failure Unit × StreamingUploadSink) × Nat) : Prop :=
  match planned with
  | .error failure => ∃ sink number, ended = (.ok (.error failure, sink), number)
  | .ok sink => ∃ number, ended = (.ok (.ok (), ⟨sink, stagingHandle⟩), number)

theorem play_chooseStaging (disk : UploadDisk) (directory : Path) (attempts number : Nat) :
    ∃ last, (StreamingUploadSink.chooseStaging directory attempts).play disk.handler (fun _ => ()) number =
      (.ok (chooseStaging disk directory attempts (number + 1)), last) := by
  induction attempts generalizing number with
  | zero => exact ⟨number, rfl⟩
  | succ attempts ih =>
      unfold StreamingUploadSink.chooseStaging chooseStaging
      rw [Coroutine.play_bind]
      dsimp only [perform, Coroutine.call, Coroutine.play, UploadDisk.handler]
      split
      · exact ⟨number + 1, rfl⟩
      · rw [Coroutine.play_bind]
        dsimp only [Coroutine.play]
        cases disk.createNew (joinPath directory (stagingLeaf disk (number + 1))) with
        | done => exact ⟨number + 1, rfl⟩
        | occupied => exact ih (number + 1)
        | failed lastError => exact ⟨number + 1, rfl⟩

/-- A new sink on such a disk is prepared as the single upload is. -/
theorem play_prepare (table : UpperCase) (disk : UploadDisk) (target : PlannedTarget) (fileSize : Nat) :
    EndsAs (prepare table disk target fileSize) true
      ((StreamingUploadSink.new.prepare table target fileSize).play disk.handler (fun _ => ()) disk.sequence) := by
  have aborted : StreamingUploadSink.new.abort.play disk.handler (fun _ => ()) disk.sequence =
      (.ok .new, disk.sequence) := rfl
  unfold StreamingUploadSink.prepare prepare
  rw [Coroutine.play_bind, aborted]
  dsimp only
  split
  · exact ⟨_, _, rfl⟩
  · split
    · exact ⟨_, _, rfl⟩
    · split
      · exact ⟨_, _, rfl⟩
      · rw [Coroutine.play_bind]
        dsimp only [perform, Coroutine.call, Coroutine.play, UploadDisk.handler]
        cases ensureSafeDirectoryTree disk target.directory target.directory with
        | error failure => exact ⟨_, _, rfl⟩
        | ok _ =>
            obtain ⟨last, chosen⟩ := play_chooseStaging disk target.directory 256 disk.sequence
            unfold StreamingUploadSink.openStaging
            rw [Coroutine.play_bind]
            unfold UploadDisk.handler at chosen
            rw [chosen]
            dsimp only [bind, Except.bind]
            cases chooseStaging disk target.directory 256 (disk.sequence + 1) with
            | error failure => exact ⟨_, _, rfl⟩
            | ok staging =>
                dsimp only [perform, Coroutine.call, Coroutine.bind, Coroutine.play]
                cases disk.checkExistingFile staging with
                | error failure => exact ⟨_, _, rfl⟩
                | ok _ => exact ⟨_, rfl⟩

/-- After `abort` the failure is what it was. -/
theorem play_abandon (disk : UploadDisk) (sink : StreamingUploadSink) (failure : Failure) (number : Nat) :
    ∃ after last, (sink.abandon failure).play disk.handler (fun _ => ()) number =
      (.ok (.error failure, after), last) := by
  unfold StreamingUploadSink.abandon StreamingUploadSink.abort
  dsimp only
  split <;> exact ⟨_, _, rfl⟩

theorem play_chooseName (disk : UploadDisk) (sink : StreamingUploadSink) (attempts index number : Nat) :
    EndsAs (chooseName disk sink.toUploadSink attempts index) sink.stagingHandle
      ((sink.chooseName attempts index).play disk.handler (fun _ => ()) number) := by
  induction attempts generalizing index with
  | zero => exact play_abandon ..
  | succ attempts ih =>
      unfold StreamingUploadSink.chooseName chooseName
      dsimp only
      split
      · exact play_abandon ..
      · rw [Coroutine.play_bind]
        dsimp only [perform, Coroutine.call, Coroutine.play, UploadDisk.handler]
        split
        · exact ih (index + 1)
        · rw [Coroutine.play_bind]
          dsimp only [Coroutine.play]
          cases disk.moveFile sink.stagingPath
              (joinPath sink.destinationDir (suffixedFileName sink.requestedFileName index)) with
          | occupied => exact ih (index + 1)
          | failed lastError => exact play_abandon ..
          | done =>
              dsimp only [bind, Except.bind, Coroutine.bind, Coroutine.play]
              cases disk.checkExistingFile
                  (joinPath sink.destinationDir (suffixedFileName sink.requestedFileName index)) with
              | error failure => exact play_abandon ..
              | ok _ => exact ⟨_, rfl⟩

/-- A sink on such a disk publishes as the single upload does. -/
theorem play_publish (disk : UploadDisk) (sink : StreamingUploadSink) (handle : sink.stagingHandle = true) (number : Nat) :
    EndsAs (publish disk sink.toUploadSink) false (sink.publish.play disk.handler (fun _ => ()) number) := by
  unfold StreamingUploadSink.publish publish
  generalize 100000 = attempts
  split
  · exact ⟨_, _, rfl⟩
  · split
    · exact ⟨_, _, rfl⟩
    · have flushed : (perform (.flushFileBuffers sink.stagingPath)).play disk.handler (fun _ => ()) number =
          (.ok disk.flushes, number) := rfl
      dsimp only
      rw [Coroutine.play_bind_of_ok flushed]
      cases disk.flushes with
      | false => exact ⟨_, _, rfl⟩
      | true =>
          simp only [Bool.not_true, Bool.false_eq_true, if_false]
          exact play_chooseName disk { sink with stagingHandle := false } attempts 0 number

end SearchEngine.Upload
