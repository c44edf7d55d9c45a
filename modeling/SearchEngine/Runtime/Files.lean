import SearchEngine.Runtime.Disk

/-!
# The file operations of the transactions

The helpers that both transactions are built of: checks, staged atomic
replacement, copies into the rollback directory, and the deletion of a
transaction directory. `owned` lists the names that a command has created in the
rollback directory; it outlives a throw.
-/

namespace SearchEngine.Runtime

open SearchEngine.Index (Byte)
open SearchEngine.Lib

def requireRegularFile (place : Place) (label : String) : Task Unit := do
  match ← ask (.classify place) with
  | .file => pure ()
  | .missing => .raise (label ++ " is missing")
  | .directory => .raise (label ++ " is a directory")
  | .reparse => .raise (label ++ " is a reparse point")
  | .other => .raise (label ++ " is not a regular file")

def requireDirectory (place : Place) (label : String) : Task Unit := do
  match ← ask (.classify place) with
  | .directory => pure ()
  | .missing => .raise (label ++ " is missing")
  | .file => .raise (label ++ " is a file")
  | .reparse => .raise (label ++ " is a reparse point")
  | .other => .raise (label ++ " is not a directory")

def openExistingFile (place : Place) : Task Unit := do
  if ← ask (.openExisting place) then pure ()
  else .raise "cannot open file"

def createNewFile (place : Place) : Task Unit := do
  match ← ask (.createNew place) with
  | .created => pure ()
  | .exists => .raise "cannot create new file"
  | .failed => .raise "cannot create new file"

def copyHandleToHandle (source destination : Place) : Task Unit := do
  match ← ask (.copy source destination) with
  | .complete => pure ()
  | .partially _ => .raise "cannot write file"

def writeAll (place : Place) (content : Content) : Task Unit := do
  match ← ask (.write place content) with
  | .complete => pure ()
  | .partially _ => .raise "cannot write file"

def moveFile (source destination : Place) (failure : String) : Task Unit := do
  if ← ask (.move source destination) then pure ()
  else .raise failure

/-- The loop of `uniqueStagingPath`: a staging name that is missing. -/
def tryStagingNames (directory : FileName → Place) : (attempts : Nat) → Task FileName
  | 0 => .raise "cannot allocate a unique staging file name"
  | attempts + 1 => do
      let numbers ← ask .stagingNumbers
      let candidate := FileName.staging numbers.1 numbers.2.1 numbers.2.2
      match ← ask (.classify (directory candidate)) with
      | .missing => pure candidate
      | _ => tryStagingNames directory attempts

def uniqueStagingPath (directory : FileName → Place) : Task FileName := tryStagingNames directory 64

/-- The part of `stageAndAtomicallyReplace` after the staging file was created. -/
def copyAndMove (source staging destination : Place) : Task Unit := do
  copyHandleToHandle source staging
  moveFile staging destination "cannot replace file"

/-- The part of `stageAndAtomicallyReplace` after its checks. -/
def replaceThroughStaging (source destination : Place) (stagingDirectory : FileName → Place) : Task Unit := do
  let staging ← uniqueStagingPath stagingDirectory
  openExistingFile source
  createNewFile (stagingDirectory staging)
  match ← (copyAndMove source (stagingDirectory staging) destination).attempt with
  | .ok _ => pure ()
  | .error what => do
      let _ ← ask (.delete (stagingDirectory staging))
      .raise what

def stageAndAtomicallyReplace (source destination : Place) (stagingDirectory : FileName → Place) :
    Task Unit := do
  requireRegularFile source "replacement source"
  match ← ask (.classify destination) with
  | .missing | .file => replaceThroughStaging source destination stagingDirectory
  | .directory => .raise "replacement destination is a directory"
  | .reparse => .raise "replacement destination is a reparse point"
  | .other => .raise "replacement destination is not a regular file"

/-! ## Files of the rollback directory -/

abbrev Owned := List FileName

/-- A program that keeps `owned` up to a throw. -/
abbrev OwnedTask := StateT Owned (Coroutine Call Answer (String × Owned))

/-- A program that creates nothing in the rollback directory. -/
def keep {Result : Type} (task : Task Result) : OwnedTask Result := fun owned => do
  let result ← task.mapThrown fun what => (what, owned)
  pure (result, owned)

/-- Begin with no owned names, and catch what is thrown with the names owned by then. -/
def attemptOwned {Result : Type} (task : OwnedTask Result) :
    Task (Except (String × Owned) (Result × Owned)) :=
  (task []).attempt.mapThrown Prod.fst

/-- A program whose owned names nobody reads afterwards. -/
def forgetOwned {Result : Type} (task : OwnedTask Result) : Task Result := do
  let result ← (task []).mapThrown Prod.fst
  pure result.1

def recordOwned (name : FileName) : OwnedTask Unit :=
  modify fun owned => if owned.contains name then owned else owned ++ [name]

def createOwnedFile (name : FileName) : OwnedTask Unit := do
  keep (createNewFile (.rollback name))
  recordOwned name

def copyFileCreateNew (source : Place) (name : FileName) : OwnedTask Unit := do
  keep (requireRegularFile source "copy source")
  keep (openExistingFile source)
  createOwnedFile name
  keep (copyHandleToHandle source (.rollback name))

/-- Write a staging file in the rollback directory and rename it: the publication
of `writeManifest`, `writeCfgManifest` and, for a phase that exists, `writePhase`. -/
def publish (name : FileName) (content : Content) (failure : String) : OwnedTask Unit := do
  let staging ← keep (uniqueStagingPath .rollback)
  createOwnedFile staging
  keep (writeAll (.rollback staging) content)
  keep (moveFile (.rollback staging) (.rollback name) failure)
  recordOwned name

def createDirectoryExclusive : Task Unit := do
  match ← ask (.createDirectory .rollbackDir) with
  | .created => pure ()
  | .exists => .raise "cannot create rollback directory"
  | .failed => .raise "cannot create rollback directory"
  match ← ask (.classify .rollbackDir) with
  | .directory => pure ()
  | _ => .raise "rollback directory is not a regular directory"

/-! ## Deletion -/

def deleteIfRegularFile (place : Place) : Task Bool := do
  match ← ask (.classify place) with
  | .missing => pure true
  | .file => ask (.delete place)
  | _ => pure false

def listDirectory : Task (List (FileName × PathKind)) := do
  match ← ask .list with
  | some entries => pure entries
  | none => .raise "cannot enumerate transaction directory"

/-- Every entry is a file with one of the names. -/
def allExpected (expected : List FileName) (entries : List (FileName × PathKind)) : Bool :=
  entries.all fun entry => entry.2 == .file && expected.contains entry.1

/-- The deletion loop of `deleteTransactionFiles`. -/
def deleteEach : List FileName → Task Unit
  | [] => pure ()
  | name :: names => do
      if ← deleteIfRegularFile (.rollback name) then deleteEach names
      else .raise "cannot delete a transaction file"

def deleteTransactionFiles (expected : List FileName) : Task Unit := do
  requireDirectory .rollbackDir "rollback-dir"
  let entries ← listDirectory
  if !allExpected expected entries then
    .raise "rollback directory contains unexpected objects and was left in place"
  else do
    deleteEach expected
    if ← ask .removeDirectory then pure ()
    else .raise "cannot remove empty transaction directory"

/-- The deletion loop of `bestEffortDeleteCreatedDirectory`: marker and phase stay. -/
def deleteOwned : Owned → Task Unit
  | [] => pure ()
  | .marker :: names => deleteOwned names
  | .phase :: names => deleteOwned names
  | name :: names => do
      let _ ← deleteIfRegularFile (.rollback name)
      deleteOwned names

/-- The body of `bestEffortDeleteCreatedDirectory` whose throws are caught. -/
def deleteCreated (owned : Owned) : Task Unit := do
  let entries ← listDirectory
  if !allExpected owned entries then pure ()
  else do
    deleteOwned owned
    let remaining ← listDirectory
    if remaining.isEmpty then do
      let _ ← ask .removeDirectory
      pure ()
    else pure ()

def bestEffortDeleteCreatedDirectory (owned : Owned) : Task Unit := do
  match ← ask (.classify .rollbackDir) with
  | .directory => do
      let _ ← (deleteCreated owned).attempt
      pure ()
  | _ => pure ()

/-! ## Commands -/

def kApplyFailedBeforeMutation : Nat := 2

/-- The exit code of a command that catches everything. -/
def exitCode (body : Task Unit) : Task Nat := do
  match ← body.attempt with
  | .ok _ => pure 0
  | .error _ => pure 1

/-- The commands of both transactions. -/
inductive Command where
  | apply
  | rollback
  | commit
deriving DecidableEq

/-- The history of a transaction, the latest command first. -/
abbrev History := List (Command × Ending String Nat)

/-- An apply comes first, rollbacks and commits follow. -/
def startable (history : History) : Command → Bool
  | .apply => history.isEmpty
  | .rollback | .commit => !history.isEmpty

/-- A call that succeeds. -/
def smooth : Invoke Command Choice := .proceed ⟨true, 0, (0, 0, 0, 0)⟩

/-- A call that fails before it has done anything. -/
def failing : Invoke Command Choice := .proceed ⟨false, 0, (0, 0, 0, 0)⟩

/-- A disk without a rollback directory. -/
def Disk.isFresh (disk : Disk) : Bool :=
  disk.keys.all fun place =>
    match place with
    | .rollbackDir | .rollback _ => false
    | _ => true

/-- A disk on which a transaction may begin. -/
abbrev FreshDisk := { disk : Disk // disk.isFresh = true }

end SearchEngine.Runtime
