import Mathlib.Data.List.DropRight
import SearchEngine.Runtime.Files

/-!
# The runtime-update transaction

`applyCommand` snapshots the managed files under phase `prepared`, publishes a
manifest and the phase `mutation_started`, and replaces the files;
`rollbackCommand` restores them and publishes `restored`; `commitCommand`
deletes the transaction directory. The texts of the paths have passed their
checks.
-/

namespace SearchEngine.Runtime

open SearchEngine.Index (Byte Word)
open SearchEngine.Lib

/-- The arguments that the commands of one transaction share, and SHA-256 in
hexadecimal digits. `canonicalPath` returns no empty path. -/
structure UpdateRequest where
  dataDir : Text
  nonempty : dataDir ≠ []
  sha256 : Content → Text
  digits : ∀ content, (sha256 content).length = 64

/-! ## Names -/

def ManagedFile.name : ManagedFile → String
  | .settings => "Settings.json"
  | .oem => "OEM866.INI"
  | .endpoint => "client-endpoint.txt"

def ManagedFile.snapshotName (file : ManagedFile) : String := file.name ++ ".snapshot"

def managedLive (file : ManagedFile) : Place := .data (.managed file)

def ignorePath : Place := .data .ignore

/-! ## Phases -/

inductive TransactionPhase where
  | absent
  | prepared
  | mutationStarted
  | restored
  | unknown
deriving DecidableEq

def isBlank (byte : Byte) : Bool := (byte : Nat) ∈ [10, 13, 32, 9]

/-- `trimAscii`. -/
def trimAscii (text : List Byte) : List Byte := (text.rdropWhile isBlank).dropWhile isBlank

/-- The comparisons of `readPhase`. -/
def phaseOfBody (body : List Byte) : TransactionPhase :=
  if body = Word.ofAscii "prepared" then .prepared
  else if body = Word.ofAscii "mutation_started" then .mutationStarted
  else if body = Word.ofAscii "restored" then .restored
  else .unknown

/-- The phase in the content of a file; a JSON text is none of them. -/
def phaseOfContent : Content → TransactionPhase
  | .bytes data => phaseOfBody (trimAscii data)
  | .json _ => .unknown
  | .torn _ _ => .unknown

/-- What `writePhase` writes. -/
def phaseContent (phase : String) : Content := .bytes (Word.ofAscii phase ++ Word.ofAscii "\n")

def kPhasePrepared : String := "prepared"

def kPhaseMutationStarted : String := "mutation_started"

def kPhaseRestored : String := "restored"

def readPhase : Task TransactionPhase := do
  match ← ask (.classify (.rollback .phase)) with
  | .missing => pure .absent
  | .file =>
      match ← ask (.read (.rollback .phase)) with
      | some content => pure (phaseOfContent content)
      | none => pure .unknown
  | _ => pure .unknown

def writePhase (phase : String) : OwnedTask Unit := do
  match ← keep (ask (.classify (.rollback .phase))) with
  | .missing => do
      createOwnedFile .phase
      keep (writeAll (.rollback .phase) (phaseContent phase))
  | _ => publish .phase (phaseContent phase) "cannot publish transaction phase"

/-! ## The manifest -/

/-- `TransactionManifest`, with `existed` of each managed file. -/
structure TransactionManifest where
  formatVersion : Int
  transactionId : Text
  dataDir : Text
  ignoreExisted : Bool
  ignoreSha256 : Text
  settings : Bool
  oem : Bool
  endpoint : Bool

def TransactionManifest.existed (manifest : TransactionManifest) : ManagedFile → Bool
  | .settings => manifest.settings
  | .oem => manifest.oem
  | .endpoint => manifest.endpoint

def managedFileToJson (file : ManagedFile) (existed : Bool) : Json :=
  .object (("existed", .boolean existed) ::
    if existed then [("snapshot", .string file.snapshotName.toList)] else [])

/-- The value that `writeManifest` writes. -/
def manifestToJson (manifest : TransactionManifest) : Json :=
  .object
    [("format_version", .integer manifest.formatVersion),
      ("transaction_id", .string manifest.transactionId),
      ("data_dir", .string manifest.dataDir),
      ("ignore_existed", .boolean manifest.ignoreExisted),
      ("ignore_sha256", .string manifest.ignoreSha256),
      ("managed_files", .object
        [("Settings.json", managedFileToJson .settings manifest.settings),
          ("OEM866.INI", managedFileToJson .oem manifest.oem),
          ("client-endpoint.txt", managedFileToJson .endpoint manifest.endpoint)])]

def managedFileFromJson (files : Json) (file : ManagedFile) : Except String Bool := do
  let entry ← match files.field? file.name with
    | some (.object fields) => pure (Json.object fields)
    | _ => throw "transaction manifest is missing a managed file entry"
  let existed ← match entry.field? "existed" with
    | some (.boolean existed) => pure existed
    | _ => throw "transaction manifest managed file state is invalid"
  match existed, entry.field? "snapshot" with
  | true, some (.string snapshot) =>
      if snapshot = file.snapshotName.toList then pure true
      else throw "transaction manifest snapshot name is invalid"
  | true, _ => throw "transaction manifest snapshot name is invalid"
  | false, some _ => throw "transaction manifest snapshot is present for a missing file"
  | false, none => pure false

def kFormatVersion : Int := 1

/-- The checks of `loadManifest` on the parsed value. -/
def manifestOfJson (root : Json) : Except String TransactionManifest := do
  match root with
  | .object _ => pure ()
  | _ => throw "transaction manifest is damaged"
  let version ← match root.field? "format_version" with
    | some (.integer version) => pure version
    | _ => throw "transaction manifest format_version is missing"
  if version ≠ kFormatVersion then throw "unknown transaction manifest format_version"
  let transactionId ← match root.field? "transaction_id" with
    | some (.string (char :: rest)) => pure (char :: rest)
    | _ => throw "transaction manifest transaction_id is missing"
  let dataDir ← match root.field? "data_dir" with
    | some (.string (char :: rest)) => pure (char :: rest)
    | _ => throw "transaction manifest data_dir is missing"
  let ignoreExisted ← match root.field? "ignore_existed" with
    | some (.boolean ignoreExisted) => pure ignoreExisted
    | _ => throw "transaction manifest ignore_existed is missing"
  let ignoreSha256 ← match root.field? "ignore_sha256" with
    | some (.string ignoreSha256) => pure ignoreSha256
    | _ => throw "transaction manifest ignore_sha256 is missing"
  let files ← match root.field? "managed_files" with
    | some (.object fields) => pure (Json.object fields)
    | _ => throw "transaction manifest managed_files is missing"
  let settings ← managedFileFromJson files .settings
  let oem ← managedFileFromJson files .oem
  let endpoint ← managedFileFromJson files .endpoint
  pure ⟨version, transactionId, dataDir, ignoreExisted, ignoreSha256, settings, oem, endpoint⟩

def writeManifest (manifest : TransactionManifest) : OwnedTask Unit :=
  publish .manifest (.json (manifestToJson manifest)) "cannot publish transaction manifest"

/-- The part of `loadManifest` after the text was read. -/
def parseManifest : Option Content → Task TransactionManifest
  | some (.json root) =>
      match manifestOfJson root with
      | .ok manifest => pure manifest
      | .error what => .raise what
  | _ => .raise "transaction manifest is damaged"

def loadManifest : Task TransactionManifest := do
  requireRegularFile (.rollback .marker) "transaction marker"
  requireRegularFile (.rollback .manifest) "transaction manifest"
  let text ← ask (.read (.rollback .manifest))
  parseManifest text

/-- Eight hexadecimal digits, `%08lX`. -/
def hex8 (number : Nat) : Text :=
  let digits := (Nat.toDigits 16 number).map Char.toUpper
  List.replicate (8 - digits.length) '0' ++ digits

def makeTransactionId : Task Text := do
  let numbers ← ask .transactionNumbers
  pure (hex8 numbers.1 ++ '-' :: hex8 numbers.2.1 ++ '-' :: hex8 numbers.2.2.1 ++ '-' ::
    hex8 numbers.2.2.2)

/-! ## Snapshots and restoration -/

def snapshotManagedFile (file : ManagedFile) : OwnedTask Bool := do
  match ← keep (ask (.classify (managedLive file))) with
  | .missing => pure false
  | .file => do
      copyFileCreateNew (managedLive file) (.snapshot file)
      pure true
  | .directory => keep (.raise ("managed path is a directory: " ++ file.name))
  | .reparse => keep (.raise ("managed path is a reparse point: " ++ file.name))
  | .other => keep (.raise ("managed path is invalid: " ++ file.name))

/-- The file did not exist before: remove it. -/
def removeManagedFile (file : ManagedFile) : Task Unit := do
  match ← ask (.classify (managedLive file)) with
  | .missing => pure ()
  | .file => do
      if ← ask (.delete (managedLive file)) then pure ()
      else .raise "cannot remove installer-created managed file"
  | .directory => .raise "cannot remove managed path because it is a directory"
  | .reparse => .raise "cannot remove managed path because it is a reparse point"
  | .other => .raise "cannot remove managed path"

def restoreManagedFile (file : ManagedFile) (existed : Bool) : Task Unit :=
  if existed then do
    requireRegularFile (.rollback (.snapshot file)) "managed file snapshot"
    stageAndAtomicallyReplace (.rollback (.snapshot file)) (managedLive file) .data
  else removeManagedFile file

def sha256File (request : UpdateRequest) (place : Place) : Task Text := do
  openExistingFile place
  match ← ask (.read place) with
  | some content => pure (request.sha256 content)
  | none => .raise "cannot read file for hash"

/-- `restoreIgnore`; the warnings it prints leave the file. -/
def restoreIgnore (request : UpdateRequest) (manifest : TransactionManifest) : Task Unit :=
  if manifest.ignoreExisted then pure ()
  else do
    match ← ask (.classify ignorePath) with
    | .file =>
        match ← (sha256File request ignorePath).attempt with
        | .error _ => pure ()
        | .ok actual =>
            if manifest.ignoreSha256 = [] ∨ actual ≠ manifest.ignoreSha256 then pure ()
            else if ← ask (.delete ignorePath) then pure ()
            else .raise "cannot remove installer-created ignore.txt"
    | _ => pure ()

def restoreAllManaged (request : UpdateRequest) (manifest : TransactionManifest) : Task Unit := do
  restoreManagedFile .settings manifest.settings
  restoreManagedFile .oem manifest.oem
  restoreManagedFile .endpoint manifest.endpoint
  restoreIgnore request manifest

/-! ## Apply -/

/-- The part of `installIgnoreIfMissing` after the file was created. -/
def fillIgnore : Task Unit := do
  match ← (copyHandleToHandle .packageIgnore ignorePath).attempt with
  | .ok _ => pure ()
  | .error what => do
      let _ ← ask (.delete ignorePath)
      .raise what

def installIgnoreIfMissing : Task Unit := do
  match ← ask (.classify ignorePath) with
  | .file => pure ()
  | .directory => .raise "ignore.txt is a directory"
  | .reparse => .raise "ignore.txt is a reparse point"
  | .other => .raise "ignore.txt is invalid"
  | .missing => do
      requireRegularFile .packageIgnore "package ignore.txt"
      openExistingFile .packageIgnore
      match ← ask (.createNew ignorePath) with
      | .exists => pure ()
      | .failed => .raise "cannot create ignore.txt"
      | .created => fillIgnore

/-- `ensureDirectory` of the logs. -/
def ensureDirectory : Task Unit := do
  match ← ask (.classify (.data .logs)) with
  | .directory => pure ()
  | .missing =>
      match ← ask (.createDirectory (.data .logs)) with
      | .created => pure ()
      | .failed => .raise "cannot create logs"
      | .exists =>
          match ← ask (.classify (.data .logs)) with
          | .directory => pure ()
          | _ => .raise "logs is not a directory"
  | .file => .raise "logs exists as a file"
  | .reparse => .raise "logs is a reparse point"
  | .other => .raise "logs is invalid"

/-- The checks of `validateRollbackPath` on the disk. -/
def validateRollbackPath (mustExist : Bool) : Task Unit := do
  match ← ask (.classify .dataDir) with
  | .reparse => .raise "data-dir is a reparse point"
  | _ => pure ()
  match ← ask (.classify .rollbackDir) with
  | .reparse => .raise "rollback-dir is a reparse point"
  | _ => pure ()
  let kind ← ask (.classify .rollbackDir)
  if mustExist then
    if kind = .directory then pure ()
    else .raise "rollback-dir must be an existing regular directory"
  else if kind = .missing then pure ()
  else .raise "rollback-dir already exists"

def writeMarker : OwnedTask Unit := do
  createOwnedFile .marker
  keep (writeAll (.rollback .marker) (.bytes (Word.ofAscii "SearchEngineService runtime-update\r\n")))

/-- `ignoreExisted` and `ignoreSha256` of the manifest. -/
def inspectIgnore (request : UpdateRequest) : OwnedTask (Bool × Text) := do
  match ← keep (ask (.classify ignorePath)) with
  | .missing => do
      let digest ← keep (sha256File request .packageIgnore)
      pure (false, digest)
  | .file => pure (true, [])
  | .directory => keep (.raise "ignore.txt is a directory")
  | .reparse => keep (.raise "ignore.txt is a reparse point")
  | .other => keep (.raise "ignore.txt is invalid")

/-- `applyCommand` from the marker to the phase `mutation_started`. -/
def prepareUpdate (request : UpdateRequest) : OwnedTask TransactionManifest := do
  writeMarker
  writePhase kPhasePrepared
  let transactionId ← keep makeTransactionId
  let settings ← snapshotManagedFile .settings
  let oem ← snapshotManagedFile .oem
  let endpoint ← snapshotManagedFile .endpoint
  let ignore ← inspectIgnore request
  let manifest :=
    ⟨kFormatVersion, transactionId, request.dataDir, ignore.1, ignore.2, settings, oem, endpoint⟩
  writeManifest manifest
  writePhase kPhaseMutationStarted
  pure manifest

/-- The mutations of `applyCommand`. -/
def replaceManaged : Task Unit := do
  stageAndAtomicallyReplace (.replacement .settings) (managedLive .settings) .data
  stageAndAtomicallyReplace (.replacement .oem) (managedLive .oem) .data
  stageAndAtomicallyReplace (.replacement .endpoint) (managedLive .endpoint) .data
  installIgnoreIfMissing
  ensureDirectory

/-- Restore everything and publish that it is restored. -/
def restoreAndRecord (request : UpdateRequest) (manifest : TransactionManifest) : Task Unit := do
  restoreAllManaged request manifest
  forgetOwned (writePhase kPhaseRestored)

/-- `applyCommand` from the creation of its directory on. -/
def applyUpdate (request : UpdateRequest) : Task Nat := do
  match ← createDirectoryExclusive.attempt with
  | .error _ => pure kApplyFailedBeforeMutation
  | .ok _ =>
      match ← attemptOwned (prepareUpdate request) with
      | .error (_, owned) => do
          bestEffortDeleteCreatedDirectory owned
          pure kApplyFailedBeforeMutation
      | .ok (manifest, _) =>
          match ← replaceManaged.attempt with
          | .ok _ => pure 0
          | .error _ => do
              let _ ← (restoreAndRecord request manifest).attempt
              pure 1

def applyCommand (request : UpdateRequest) : Task Nat := do
  requireDirectory .dataDir "data-dir"
  requireDirectory .packageData "package-data"
  requireRegularFile (.replacement .settings) "generated Settings.json"
  requireRegularFile (.replacement .endpoint) "generated client-endpoint.txt"
  requireRegularFile (.replacement .oem) "package OEM866.INI"
  requireRegularFile .packageIgnore "package ignore.txt"
  validateRollbackPath false
  applyUpdate request

/-! ## Rollback and commit -/

def validateExistingTransaction (request : UpdateRequest) : Task TransactionManifest := do
  validateRollbackPath true
  let manifest ← loadManifest
  if manifest.dataDir = request.dataDir then pure manifest
  else .raise "transaction manifest data-dir does not match --data-dir"

/-- What `rollbackCommand` does in a phase. -/
def rollbackFrom (request : UpdateRequest) : TransactionPhase → Task Unit
  | .prepared => pure ()
  | .restored => pure ()
  | .absent => .raise "transaction phase is missing"
  | .unknown => .raise "transaction phase is invalid"
  | .mutationStarted => do
      let manifest ← validateExistingTransaction request
      restoreAndRecord request manifest

def rollbackCommand (request : UpdateRequest) : Task Nat :=
  exitCode do
    requireDirectory .dataDir "data-dir"
    validateRollbackPath true
    let phase ← readPhase
    rollbackFrom request phase

def expectedTransactionFiles (manifest : TransactionManifest) : List FileName :=
  ([.marker, .phase, .manifest] : List FileName) ++
    (if manifest.settings then [.snapshot .settings] else [] : List FileName) ++
      (if manifest.oem then [.snapshot .oem] else [] : List FileName) ++
        (if manifest.endpoint then [.snapshot .endpoint] else [] : List FileName)

def preparedSchemaFiles : List FileName := [.marker, .phase]

/-- What `commitExistingTransaction` does in a phase. -/
def commitFrom (request : UpdateRequest) : TransactionPhase → Task Unit
  | .prepared => deleteTransactionFiles preparedSchemaFiles
  | .absent => .raise "transaction phase is missing"
  | .unknown => .raise "transaction phase is invalid"
  | .mutationStarted | .restored => do
      let manifest ← validateExistingTransaction request
      deleteTransactionFiles (expectedTransactionFiles manifest)

def commitCommand (request : UpdateRequest) : Task Nat :=
  exitCode do
    requireDirectory .dataDir "data-dir"
    validateRollbackPath true
    let phase ← readPhase
    commitFrom request phase

/-! ## Runs -/

def updateProgram (request : UpdateRequest) : Command → Task Nat
  | .apply => applyCommand request
  | .rollback => rollbackCommand request
  | .commit => commitCommand request

/-- The runs of a runtime-update transaction: every command may stop at every call. -/
def updateRuns (request : UpdateRequest) :
    Machine (Invocations Command Call Answer String Nat Disk) (Invoke Command Choice) :=
  Invocations.machine Disk.handler startable (updateProgram request)

/-- The manifest is one that the commands of this transaction accept. -/
structure Valid (request : UpdateRequest) (manifest : TransactionManifest) : Prop where
  version : manifest.formatVersion = kFormatVersion
  identified : manifest.transactionId ≠ []
  dataDir : manifest.dataDir = request.dataDir

/-- What is written of a valid manifest is read back. -/
theorem manifestOfJson_toJson {request : UpdateRequest} {manifest : TransactionManifest}
    (valid : Valid request manifest) : manifestOfJson (manifestToJson manifest) = .ok manifest := by
  have located : manifest.dataDir ≠ [] := by
    rw [valid.dataDir]
    exact request.nonempty
  obtain ⟨version, identified, _⟩ := valid
  obtain ⟨formatVersion, transactionId, dataDir, ignoreExisted, ignoreSha256, settings, oem, endpoint⟩ := manifest
  obtain rfl : formatVersion = kFormatVersion := version
  cases transactionId with
  | nil => exact absurd rfl identified
  | cons first rest =>
      cases dataDir with
      | nil => exact absurd rfl located
      | cons letter path => cases settings <;> cases oem <;> cases endpoint <;> rfl

/-- The text of a valid manifest is parsed. -/
theorem parseManifest_toJson {request : UpdateRequest} {manifest : TransactionManifest}
    (valid : Valid request manifest) : parseManifest (some (.json (manifestToJson manifest))) = pure manifest := by
  rw [parseManifest, manifestOfJson_toJson valid]

end SearchEngine.Runtime
